import Mathlib.Tactic

/-! # A single server with a bounded queue

Jobs arrive one after the other at a server that serves them in order.  `doneBy l` is when the
server has done the jobs `l`, and `doneBy_le_iff` says when this is in time: when no run of the
last jobs takes longer than the time since the first of them arrived.

* `TimedQueue` is the server with the jobs that wait.  A job that arrives at a full queue waits
  for a place, but only so long.
* `TimedQueue.Holds` relates the queue to the jobs it was given, and `Holds.offered` says what
  becomes of another job.
* `entries_iff` is the result for a sequence of arrivals, for an empty queue at the start.
* `standing` is the queue as it stands at a time.  `offer_room`, `offer_delayed` and `offer_refused`
  say what an offer makes of it, for a server that is followed step by step. -/

namespace PeripheralTester.Lib

/-- A job: when it arrives and how long its service takes. -/
structure Work where
  arrival : ℕ
  service : ℕ
deriving DecidableEq, Repr

/-- How long the jobs take together. -/
def load (l : List Work) : ℕ := (l.map Work.service).sum

@[simp] theorem load_nil : load [] = 0 := rfl

@[simp] theorem load_cons (w : Work) (l : List Work) : load (w :: l) = w.service + load l := rfl

@[simp] theorem load_append (l l' : List Work) : load (l ++ l') = load l + load l' := by
  simp [load]

/-! ### Serving in order -/

/-- When a server that serves the jobs in order has done them all. -/
def doneBy (l : List Work) : ℕ := l.foldl (fun t w => max t w.arrival + w.service) 0

@[simp] theorem doneBy_nil : doneBy [] = 0 := rfl

@[simp] theorem doneBy_concat (l : List Work) (w : Work) :
    doneBy (l ++ [w]) = max (doneBy l) w.arrival + w.service := by
  simp [doneBy]

theorem doneBy_le_append (l l' : List Work) : doneBy l ≤ doneBy (l ++ l') := by
  induction l' using List.reverseRecOn with
  | nil => simp
  | append_singleton l' w ih =>
      rw [← List.append_assoc, doneBy_concat]
      omega

/-- Fewer jobs are done earlier. -/
theorem doneBy_take_mono (l : List Work) {m n : ℕ} (h : m ≤ n) :
    doneBy (l.take m) ≤ doneBy (l.take n) := by
  have hsplit : l.take n = l.take m ++ (l.take n).drop m := by
    conv_lhs => rw [← List.take_append_drop m (l.take n), List.take_take, Nat.min_eq_left h]
  rw [hsplit]
  exact doneBy_le_append _ _

/-- The non-empty suffixes of a list with one more element. -/
theorem cons_suffix_concat {α : Type*} {a b : α} {l l' : List α} :
    (a :: l') <:+ l ++ [b] ↔ (a = b ∧ l' = []) ∨ ∃ l'', l' = l'' ++ [b] ∧ (a :: l'') <:+ l := by
  constructor
  · rintro ⟨t, ht⟩
    induction l' using List.reverseRecOn with
    | nil => exact .inl ⟨List.head_eq_of_cons_eq (List.append_inj_right' ht rfl), rfl⟩
    | append_singleton l'' c _ =>
        rw [← List.cons_append, ← List.append_assoc] at ht
        obtain ⟨hl, hb⟩ := List.append_inj' ht rfl
        exact .inr ⟨l'', by rw [List.head_eq_of_cons_eq hb], t, hl⟩
  · rintro (⟨rfl, rfl⟩ | ⟨l'', rfl, t, rfl⟩)
    · exact List.suffix_append l [a]
    · exact ⟨t, by simp⟩

/-- **When a sequence of jobs is done in time.** -/
theorem doneBy_le_iff {l : List Work} {t : ℕ} :
    doneBy l ≤ t ↔ ∀ w l', (w :: l') <:+ l → w.arrival + load (w :: l') ≤ t := by
  induction l using List.reverseRecOn generalizing t with
  | nil => simp
  | append_singleton l v ih =>
      have hmax : doneBy (l ++ [v]) ≤ t ↔
          v.arrival + v.service ≤ t ∧ (v.service ≤ t ∧ doneBy l ≤ t - v.service) := by
        rw [doneBy_concat]
        omega
      rw [hmax, ih]
      constructor
      · rintro ⟨hlast, hv, hall⟩ w l' hsuffix
        rcases cons_suffix_concat.mp hsuffix with ⟨rfl, rfl⟩ | ⟨l'', rfl, hold⟩
        · simpa using hlast
        · have := hall w l'' hold
          simp only [load_cons, load_append, load_nil] at this ⊢
          omega
      · intro hall
        have hlast := hall v [] (cons_suffix_concat.mpr (.inl ⟨rfl, rfl⟩))
        simp only [load_cons, load_nil] at hlast
        refine ⟨by omega, by omega, ?_⟩
        intro w l' hsuffix
        have := hall w (l' ++ [v]) (cons_suffix_concat.mpr (.inr ⟨l', rfl, hsuffix⟩))
        simp only [load_cons, load_append, load_nil] at this ⊢
        omega

/-! ### The queue -/

/-- When the server will be free, and the services of the jobs that wait, oldest first. -/
structure TimedQueue where
  freeAt : ℕ
  waiting : List ℕ
deriving DecidableEq, Repr

/-- What becomes of a job. -/
inductive Admission where
  | entered
  | delayed
  | refused
deriving DecidableEq, Repr

namespace TimedQueue

def empty : TimedQueue := ⟨0, []⟩

/-- The server takes the jobs whose turn comes by the time `t`. -/
def serveFrom (t : ℕ) : ℕ → List ℕ → TimedQueue
  | freeAt, [] => ⟨freeAt, []⟩
  | freeAt, s :: l => if freeAt ≤ t then serveFrom t (freeAt + s) l else ⟨freeAt, s :: l⟩

def serve (q : TimedQueue) (t : ℕ) : TimedQueue := serveFrom t q.freeAt q.waiting

/-- The server has nothing to do. -/
def Idle (q : TimedQueue) (t : ℕ) : Prop := q.waiting = [] ∧ q.freeAt ≤ t

instance (q : TimedQueue) (t : ℕ) : Decidable (q.Idle t) := inferInstanceAs (Decidable (_ ∧ _))

/-- How many jobs wait when a job has arrived, itself included. -/
def inLine (q : TimedQueue) (w : Work) : ℕ :=
  if (q.serve w.arrival).Idle w.arrival then 0 else (q.serve w.arrival).waiting.length + 1

/-- A job arrives at a queue with so many places and waits so long for one of them. -/
def offer (capacity patience : ℕ) (q : TimedQueue) (w : Work) : Admission × TimedQueue :=
  let q := q.serve w.arrival
  if q.Idle w.arrival then (.entered, ⟨w.arrival + w.service, []⟩)
  else if q.waiting.length < capacity then (.entered, ⟨q.freeAt, q.waiting ++ [w.service]⟩)
  else
    match q.waiting with
    | [] => (.refused, q)
    | s :: l =>
        -- a place becomes free when the server takes the next job
        if q.freeAt ≤ w.arrival + patience then (.delayed, ⟨q.freeAt + s, l ++ [w.service]⟩)
        else (.refused, q)

/-- When the server has done all it was given. -/
def total (q : TimedQueue) : ℕ := q.freeAt + q.waiting.sum

/-- When the jobs are done that a server begins at a time and that wait behind it. -/
def finishFrom : ℕ → List ℕ → List ℕ
  | freeAt, [] => [freeAt]
  | freeAt, s :: l => freeAt :: finishFrom (freeAt + s) l

/-- When the jobs are done that are not done at the time `t`. -/
def pending (q : TimedQueue) (t : ℕ) : List ℕ :=
  let q := q.serve t
  if q.freeAt ≤ t then [] else finishFrom q.freeAt q.waiting

variable {q : TimedQueue} {t : ℕ}

theorem total_serveFrom (t f : ℕ) (l : List ℕ) : (serveFrom t f l).total = f + l.sum := by
  induction l generalizing f with
  | nil => rfl
  | cons s l ih =>
      simp only [serveFrom, List.sum_cons]
      split
      · rw [ih]
        omega
      · simp [total]

theorem waiting_serveFrom {f : ℕ} {l : List ℕ} (h : (serveFrom t f l).freeAt ≤ t) :
    (serveFrom t f l).waiting = [] := by
  induction l generalizing f with
  | nil => rfl
  | cons s l ih =>
      simp only [serveFrom] at h ⊢
      split at h
      · rename_i hf
        rw [if_pos hf]
        exact ih h
      · exact absurd h ‹_›

theorem mem_finishFrom_le {f : ℕ} {l : List ℕ} : ∀ x ∈ finishFrom f l, x ≤ f + l.sum := by
  induction l generalizing f with
  | nil => simp [finishFrom]
  | cons s l ih =>
      intro x hx
      simp only [finishFrom, List.mem_cons, List.sum_cons] at hx ⊢
      rcases hx with rfl | hx
      · omega
      · have := ih x hx
        omega

theorem total_mem_finishFrom (f : ℕ) (l : List ℕ) : f + l.sum ∈ finishFrom f l := by
  induction l generalizing f with
  | nil => simp [finishFrom]
  | cons s l ih =>
      have := ih (f + s)
      simp only [finishFrom, List.mem_cons, List.sum_cons, ← Nat.add_assoc]
      exact .inr this

/-- The jobs not done yet are done in time if all jobs are. -/
theorem pending_le_iff {d : ℕ} (h : t ≤ d) : (∀ x ∈ q.pending t, x ≤ d) ↔ q.total ≤ d := by
  have htotal : (q.serve t).total = q.total := total_serveFrom _ _ _
  rw [← htotal]
  unfold pending
  simp only
  split
  · rename_i hfree
    have hwaiting : (q.serve t).waiting = [] := waiting_serveFrom hfree
    simp only [List.not_mem_nil, false_implies, implies_true, true_iff, total, hwaiting,
      List.sum_nil]
    omega
  · constructor
    · intro hall
      exact hall _ (total_mem_finishFrom _ _)
    · intro hle x hx
      exact (mem_finishFrom_le x hx).trans hle

/-! ### The queue as it stands -/

/-- The queue at the time `t`; a server that is free has been given nothing yet. -/
def standing (q : TimedQueue) (t : ℕ) : TimedQueue :=
  if (q.serve t).freeAt ≤ t then ⟨t, []⟩ else q.serve t

/-- A job at the end. -/
def join (q : TimedQueue) (service : ℕ) : TimedQueue := ⟨q.freeAt, q.waiting ++ [service]⟩

variable {t' v : ℕ} {l : List ℕ}

theorem serve_serve (h : t ≤ t') : (q.serve t).serve t' = q.serve t' := by
  obtain ⟨f, l⟩ := q
  unfold serve
  induction l generalizing f with
  | nil => rfl
  | cons s l ih =>
      by_cases hf : f ≤ t
      · rw [serveFrom, if_pos hf, ih, serveFrom, if_pos (hf.trans h)]
      · rw [serveFrom, if_neg hf]

theorem standing_of_free (h : (q.serve t).freeAt ≤ t) : q.standing t = ⟨t, []⟩ := if_pos h

theorem standing_of_busy (h : t < (q.serve t).freeAt) : q.standing t = q.serve t :=
  if_neg (Nat.not_le.mpr h)

/-- Nobody's turn has come. -/
theorem serve_of_lt (h : t < q.freeAt) : q.serve t = q := by
  obtain ⟨f, l⟩ := q
  cases l with
  | nil => rfl
  | cons s l => exact if_neg (Nat.not_le.mpr h)

theorem standing_of_lt (h : t < q.freeAt) : q.standing t = q := by
  rw [standing_of_busy (by rwa [serve_of_lt h]), serve_of_lt h]

theorem serve_idle : serve ⟨t, []⟩ t' = ⟨t, []⟩ := rfl

theorem standing_idle (h : t ≤ t') : standing ⟨t, []⟩ t' = ⟨t', []⟩ := standing_of_free h

/-- The job that begins now. -/
theorem standing_begin : standing ⟨t, v :: l⟩ t = standing ⟨t + v, l⟩ t := by
  have hserve : serve ⟨t, v :: l⟩ t = serve ⟨t + v, l⟩ t := if_pos le_rfl
  rw [standing, hserve, standing]

theorem eq_of_free (h : (q.serve t).freeAt ≤ t) : q.serve t = ⟨(q.serve t).freeAt, []⟩ := by
  rw [← waiting_serveFrom h]
  rfl

theorem standing_standing (h : t ≤ t') : (q.standing t).standing t' = q.standing t' := by
  by_cases hfree : (q.serve t).freeAt ≤ t
  · have hserve : q.serve t' = ⟨(q.serve t).freeAt, []⟩ := by
      rw [← serve_serve h, eq_of_free hfree, serve_idle]
    rw [standing_of_free hfree, standing_idle h, standing_of_free]
    rw [hserve]
    exact hfree.trans h
  · rw [standing_of_busy (Nat.not_le.mp hfree), standing, serve_serve h, standing]

theorem serve_join : (q.join v).serve t = ((q.serve t).join v).serve t := by
  obtain ⟨f, l⟩ := q
  unfold serve join
  induction l generalizing f with
  | nil => rfl
  | cons s l ih =>
      by_cases hf : f ≤ t
      · simp only [serveFrom, List.cons_append, if_pos hf]
        exact ih _
      · simp only [serveFrom, List.cons_append, if_neg hf]

theorem freeAt_le_serve : q.freeAt ≤ (q.serve t).freeAt := by
  obtain ⟨f, l⟩ := q
  unfold serve
  induction l generalizing f with
  | nil => exact le_rfl
  | cons s l ih =>
      by_cases hf : f ≤ t
      · rw [serveFrom, if_pos hf]
        exact (Nat.le_add_right f s).trans (ih _)
      · rw [serveFrom, if_neg hf]

/-- A job that joins a server that has not been idle. -/
theorem standing_join (h : t ≤ q.freeAt) :
    (q.join v).standing t = ((q.standing t).join v).standing t := by
  have hsame : q.standing t = q.serve t := by
    by_cases hfree : (q.serve t).freeAt ≤ t
    · have hnow : (q.serve t).freeAt = t := hfree.antisymm (h.trans freeAt_le_serve)
      rw [standing_of_free hfree, eq_of_free hfree, hnow]
    · exact standing_of_busy (Nat.not_le.mp hfree)
  rw [hsame, standing, serve_join, standing]

theorem length_serve_le : (q.serve t).waiting.length ≤ q.waiting.length := by
  obtain ⟨f, l⟩ := q
  unfold serve
  induction l generalizing f with
  | nil => exact le_rfl
  | cons s l ih =>
      by_cases hf : f ≤ t
      · rw [serveFrom, if_pos hf]
        exact (ih _).trans (Nat.le_succ _)
      · rw [serveFrom, if_neg hf]

theorem length_standing_le : (q.standing t).waiting.length ≤ q.waiting.length := by
  by_cases hfree : (q.serve t).freeAt ≤ t
  · rw [standing_of_free hfree]
    exact Nat.zero_le _
  · rw [standing_of_busy (Nat.not_le.mp hfree)]
    exact length_serve_le

/-- As long as nobody has left a queue, its server is busy. -/
theorem lt_freeAt_of_length (hne : q.waiting ≠ [])
    (hlength : (q.standing t).waiting.length = q.waiting.length) : t < q.freeAt := by
  obtain ⟨f, l⟩ := q
  cases l with
  | nil => exact absurd rfl hne
  | cons s l =>
      by_contra hle
      have hf : f ≤ t := Nat.not_lt.mp hle
      have hserve : serve ⟨f, s :: l⟩ t = serve ⟨f + s, l⟩ t := if_pos hf
      have hless : (standing ⟨f, s :: l⟩ t).waiting.length ≤ l.length := by
        rw [standing, hserve]
        exact length_standing_le
      rw [hlength] at hless
      exact Nat.not_succ_le_self _ hless

/-- What is done when depends on how the queue stands. -/
theorem pending_eq : q.pending t =
    if (q.standing t).freeAt ≤ t then []
    else finishFrom (q.standing t).freeAt (q.standing t).waiting := by
  by_cases hfree : (q.serve t).freeAt ≤ t
  · rw [standing_of_free hfree, if_pos le_rfl]
    exact if_pos hfree
  · rw [standing_of_busy (Nat.not_le.mp hfree)]
    rfl

/-! ### The jobs in the queue -/

/-- By the time `t` the queue was given the jobs `begun` and `waits`, and the server has begun the
first ones. -/
structure Holds (q : TimedQueue) (begun waits : List Work) (t : ℕ) : Prop where
  freeAt : q.freeAt = doneBy begun
  waiting : q.waiting = waits.map Work.service
  /-- The jobs that wait have been there since before the server is free. -/
  behind : ∀ w ∈ waits, w.arrival ≤ q.freeAt
  /-- The job the server begins last has begun. -/
  last : doneBy begun.dropLast ≤ t

theorem holds_empty : Holds empty [] [] 0 where
  freeAt := rfl
  waiting := rfl
  behind := fun _ h => by cases h
  last := le_rfl

theorem Holds.total {begun waits : List Work} (h : Holds q begun waits t) :
    q.total = doneBy (begun ++ waits) := by
  have hfold : ∀ (l : List Work) (f : ℕ), (∀ w ∈ l, w.arrival ≤ f) →
      l.foldl (fun t w => max t w.arrival + w.service) f = f + (l.map Work.service).sum := by
    intro l
    induction l with
    | nil => simp
    | cons w l ih =>
        intro f hl
        have hw := hl w List.mem_cons_self
        have hrest : ∀ v ∈ l, v.arrival ≤ f + w.service := by
          intro v hv
          have := hl v (List.mem_cons_of_mem _ hv)
          omega
        rw [List.foldl_cons, Nat.max_eq_left hw, ih _ hrest]
        simp only [List.map_cons, List.sum_cons]
        omega
  have hfreeAt := h.freeAt
  unfold doneBy at hfreeAt ⊢
  rw [List.foldl_append, ← hfreeAt, hfold waits _ h.behind, ← h.waiting]
  rfl

/-- The server takes the jobs whose turn has come, and then those that wait still wait. -/
theorem Holds.serve {begun waits : List Work} {t' : ℕ} (h : Holds q begun waits t) (ht : t ≤ t') :
    ∃ begun' waits', begun' ++ waits' = begun ++ waits ∧
      Holds (q.serve t') begun' waits' t' ∧ (waits' ≠ [] → t' < doneBy begun') ∧
      waits'.length ≤ waits.length := by
  obtain ⟨f, l⟩ := q
  unfold TimedQueue.serve
  induction waits generalizing begun f l t with
  | nil =>
      have hl : l = [] := h.waiting
      subst hl
      exact ⟨begun, [], rfl, ⟨h.freeAt, rfl, h.behind, h.last.trans ht⟩, fun hne => absurd rfl hne,
        le_rfl⟩
  | cons w waits ih =>
      have hl : l = w.service :: waits.map Work.service := h.waiting
      subst hl
      simp only [serveFrom]
      split
      · rename_i hf
        have hw := h.behind w List.mem_cons_self
        have hnext : Holds ⟨f + w.service, waits.map Work.service⟩ (begun ++ [w]) waits t' := by
          refine ⟨?_, rfl, ?_, ?_⟩
          · rw [doneBy_concat, ← h.freeAt, Nat.max_eq_left hw]
          · intro v hv
            have := h.behind v (List.mem_cons_of_mem _ hv)
            simp only at this ⊢
            omega
          · rw [List.dropLast_concat, ← h.freeAt]
            exact hf
        obtain ⟨begun', waits', hsplit, hholds, hlate, hlength⟩ := ih le_rfl _ _ hnext
        refine ⟨begun', waits', ?_, hholds, hlate, hlength.trans (Nat.le_succ _)⟩
        rw [hsplit, List.append_assoc, List.singleton_append]
      · rename_i hf
        refine ⟨begun, w :: waits, rfl, ⟨h.freeAt, rfl, h.behind, h.last.trans ht⟩, ?_, le_rfl⟩
        intro _
        have hfreeAt := h.freeAt
        simp only at hfreeAt
        omega

/-! ### Arrivals -/

variable {capacity patience : ℕ} {w : Work} {l : List Work}

/-- When the job is done that has to be, for the next one to find a place: with `n` places, the
last but `n` of those before it. -/
def roomAt (capacity : ℕ) (l : List Work) : ℕ := doneBy (l.take (l.length - capacity))

/-- What becomes of a job that arrives after the jobs `l`. -/
structure Offered (capacity patience : ℕ) (q : TimedQueue) (w : Work) (l : List Work) : Prop where
  inLine : q.inLine w ≤ capacity ↔ roomAt capacity l ≤ w.arrival
  refused : (q.offer capacity patience w).1 = .refused ↔ w.arrival + patience < roomAt capacity l
  holds : ∃ begun waits,
    begun ++ waits = (if (q.offer capacity patience w).1 = .refused then l else l ++ [w]) ∧
      Holds (q.offer capacity patience w).2 begun waits (w.arrival + patience) ∧
        waits.length ≤ capacity

/-- With a free place, there was room by now. -/
theorem Holds.roomAt_le {begun waits : List Work} (h : Holds q begun waits t)
    (hroom : waits.length < capacity) : roomAt capacity (begun ++ waits) ≤ t := by
  have hle : (begun ++ waits).length - capacity ≤ begun.length - 1 := by
    rw [List.length_append]
    omega
  have hlast : (begun ++ waits).take (begun.length - 1) = begun.dropLast := by
    rw [List.dropLast_eq_take, List.take_append_of_le_length (Nat.sub_le _ _)]
  have hmono := doneBy_take_mono (begun ++ waits) hle
  rw [hlast] at hmono
  exact hmono.trans h.last

/-- Without one, there is room when the server is free. -/
theorem Holds.roomAt_eq {begun waits : List Work} (h : Holds q begun waits t)
    (hfull : waits.length = capacity) : roomAt capacity (begun ++ waits) = q.freeAt := by
  rw [roomAt, List.length_append, hfull, Nat.add_sub_cancel, List.take_left, h.freeAt]

section cases

variable {begun waits : List Work} (h : Holds (q.serve w.arrival) begun waits w.arrival)
include h

/-- The server begins the job at once. -/
theorem Holds.offered_idle (hcapacity : 0 < capacity) (hidle : (q.serve w.arrival).Idle w.arrival) :
    Offered capacity patience q w (begun ++ waits) := by
  have hnil : waits = [] := by
    have := hidle.1
    rwa [h.waiting, List.map_eq_nil_iff] at this
  subst hnil
  have hroom : roomAt capacity (begun ++ []) ≤ w.arrival := h.roomAt_le hcapacity
  have hfree := h.freeAt
  have hoffer : q.offer capacity patience w = (.entered, ⟨w.arrival + w.service, []⟩) := by
    simp only [offer, if_pos hidle]
  refine ⟨?_, ?_, begun ++ [w], [], ?_, ?_, Nat.zero_le _⟩
  · simp only [inLine, if_pos hidle]
    exact iff_of_true (Nat.zero_le _) hroom
  · rw [hoffer]
    exact iff_of_false (by simp) (by omega)
  · simp [hoffer]
  · rw [hoffer]
    refine ⟨?_, rfl, (fun _ hv => by cases hv), ?_⟩
    · rw [doneBy_concat, ← hfree, Nat.max_eq_right hidle.2]
    · rw [List.dropLast_concat, ← hfree]
      exact hidle.2.trans (Nat.le_add_right _ _)

/-- The job takes a free place. -/
theorem Holds.offered_room (hidle : ¬ (q.serve w.arrival).Idle w.arrival)
    (hbusy : w.arrival < (q.serve w.arrival).freeAt) (hroom : waits.length < capacity) :
    Offered capacity patience q w (begun ++ waits) := by
  have hroomAt := h.roomAt_le hroom
  have hcount : (q.serve w.arrival).waiting.length = waits.length := by
    rw [h.waiting, List.length_map]
  have hoffer : q.offer capacity patience w =
      (.entered, ⟨(q.serve w.arrival).freeAt, (q.serve w.arrival).waiting ++ [w.service]⟩) := by
    simp only [offer, if_neg hidle, hcount, if_pos hroom]
  refine ⟨?_, ?_, begun, waits ++ [w], ?_, ?_, ?_⟩
  · simp only [inLine, if_neg hidle, hcount]
    exact iff_of_true hroom hroomAt
  · rw [hoffer]
    exact iff_of_false (by simp) (by omega)
  · simp [hoffer]
  · rw [hoffer]
    refine ⟨h.freeAt, ?_, ?_, h.last.trans (Nat.le_add_right _ _)⟩
    · simp [h.waiting]
    · intro v hv
      rcases List.mem_append.mp hv with hv | hv
      · exact h.behind v hv
      · rw [List.mem_singleton.mp hv]
        exact hbusy.le
  · rw [List.length_append]
    exact hroom

/-- The queue is full: the job waits for a place until the server takes the next job. -/
theorem Holds.offered_full (hcapacity : 0 < capacity)
    (hidle : ¬ (q.serve w.arrival).Idle w.arrival)
    (hbusy : w.arrival < (q.serve w.arrival).freeAt) (hfull : waits.length = capacity) :
    Offered capacity patience q w (begun ++ waits) := by
  have hroomAt := h.roomAt_eq hfull
  have hwaiting := h.waiting
  cases waits with
  | nil =>
      rw [List.length_nil] at hfull
      omega
  | cons v rest =>
      have hnoRoom : ¬ (v.service :: rest.map Work.service).length < capacity := by
        simp only [List.length_cons, List.length_map] at hfull ⊢
        omega
      have hcons : (q.serve w.arrival).waiting = v.service :: rest.map Work.service := hwaiting
      have hline : ¬ q.inLine w ≤ capacity := by
        simp only [inLine, if_neg hidle, hcons, List.length_cons, List.length_map] at hfull ⊢
        omega
      by_cases hpatient : (q.serve w.arrival).freeAt ≤ w.arrival + patience
      · have hoffer : q.offer capacity patience w =
            (.delayed, ⟨(q.serve w.arrival).freeAt + v.service,
              rest.map Work.service ++ [w.service]⟩) := by
          simp only [offer, if_neg hidle, hcons, if_neg hnoRoom, if_pos hpatient]
        have hv := h.behind v List.mem_cons_self
        refine ⟨iff_of_false hline (by omega), ?_, begun ++ [v], rest ++ [w], ?_, ?_, ?_⟩
        · rw [hoffer]
          exact iff_of_false (by simp) (by omega)
        · simp [hoffer]
        · rw [hoffer]
          refine ⟨?_, by simp, ?_, ?_⟩
          · rw [doneBy_concat, ← h.freeAt, Nat.max_eq_left hv]
          · intro u hu
            simp only
            rcases List.mem_append.mp hu with hu | hu
            · have := h.behind u (List.mem_cons_of_mem _ hu)
              omega
            · rw [List.mem_singleton.mp hu]
              omega
          · rw [List.dropLast_concat, ← h.freeAt]
            exact hpatient
        · simp only [List.length_append, List.length_cons, List.length_nil] at hfull ⊢
          omega
      · have hoffer : q.offer capacity patience w = (.refused, q.serve w.arrival) := by
          simp only [offer, if_neg hidle, hcons, if_neg hnoRoom, if_neg hpatient]
        refine ⟨iff_of_false hline (by omega), ?_, begun, v :: rest, ?_, ?_, hfull.le⟩
        · rw [hoffer]
          exact iff_of_true rfl (by omega)
        · simp [hoffer]
        · rw [hoffer]
          exact ⟨h.freeAt, hwaiting, h.behind, h.last.trans (Nat.le_add_right _ _)⟩

end cases

/-- **What becomes of a job.** -/
theorem Holds.offered {begun waits : List Work} (h : Holds q begun waits t) (ht : t ≤ w.arrival)
    (hcapacity : 0 < capacity) (hlength : waits.length ≤ capacity) :
    Offered capacity patience q w (begun ++ waits) := by
  obtain ⟨begun', waits', hsplit, hholds, hlate, hle⟩ := h.serve ht
  rw [← hsplit]
  by_cases hidle : (q.serve w.arrival).Idle w.arrival
  · exact hholds.offered_idle hcapacity hidle
  · have hbusy : w.arrival < (q.serve w.arrival).freeAt := by
      by_contra hfree
      by_cases hnil : waits' = []
      · exact hidle ⟨by rw [hholds.waiting, hnil]; rfl, by omega⟩
      · have := hlate hnil
        rw [← hholds.freeAt] at this
        omega
    by_cases hroom : waits'.length < capacity
    · exact hholds.offered_room hidle hbusy hroom
    · exact hholds.offered_full hcapacity hidle hbusy (by omega)

/-! ### An offer to the queue as it stands -/

theorem inLine_le_iff_entered : q.inLine w ≤ capacity ↔
    (q.offer capacity patience w).1 = .entered := by
  simp only [inLine, offer]
  split
  · simp
  · split
    · simpa using ‹_ < _›
    · rename_i hfull
      refine iff_of_false hfull ?_
      cases (q.serve w.arrival).waiting with
      | nil => simp
      | cons s l =>
          dsimp only
          split <;> simp

variable (patience) in
/-- The server begins the job at once, or it takes a free place. -/
theorem offer_room (hroom : (q.standing w.arrival).waiting.length < capacity) :
    (q.offer capacity patience w).1 = .entered ∧
      (q.offer capacity patience w).2.standing w.arrival =
        ((q.standing w.arrival).join w.service).standing w.arrival := by
  by_cases hfree : (q.serve w.arrival).freeAt ≤ w.arrival
  · have hidle : (q.serve w.arrival).Idle w.arrival := ⟨waiting_serveFrom hfree, hfree⟩
    have hoffer : q.offer capacity patience w = (.entered, ⟨w.arrival + w.service, []⟩) := by
      simp only [offer, if_pos hidle]
    rw [hoffer, standing_of_free hfree]
    exact ⟨rfl, standing_begin.symm⟩
  · have hbusy : ¬ (q.serve w.arrival).Idle w.arrival := fun hidle => hfree hidle.2
    rw [standing_of_busy (Nat.not_le.mp hfree)] at hroom ⊢
    have hoffer : q.offer capacity patience w =
        (.entered, (q.serve w.arrival).join w.service) := by
      simp only [offer, if_neg hbusy, if_pos hroom]
      rfl
    rw [hoffer]
    exact ⟨rfl, rfl⟩

section full

variable (hfull : (q.standing w.arrival).waiting.length = capacity) (hcapacity : 0 < capacity)
include hfull hcapacity

variable (patience) in
theorem standing_of_full : q.standing w.arrival = q.serve w.arrival ∧
    ∃ s l, q.serve w.arrival = ⟨(q.serve w.arrival).freeAt, s :: l⟩ ∧
      q.offer capacity patience w =
        if (q.serve w.arrival).freeAt ≤ w.arrival + patience then
          (.delayed, ⟨(q.serve w.arrival).freeAt + s, l ++ [w.service]⟩)
        else (.refused, q.serve w.arrival) := by
  have hbusy : w.arrival < (q.serve w.arrival).freeAt := by
    by_contra hfree
    rw [standing_of_free (Nat.not_lt.mp hfree)] at hfull
    exact hcapacity.ne hfull
  rw [standing_of_busy hbusy] at hfull
  refine ⟨standing_of_busy hbusy, ?_⟩
  have hidle : ¬ (q.serve w.arrival).Idle w.arrival := fun hidle => Nat.not_le.mpr hbusy hidle.2
  cases hwaiting : (q.serve w.arrival).waiting with
  | nil =>
      rw [hwaiting] at hfull
      exact absurd hfull hcapacity.ne
  | cons s l =>
      have hroom : ¬ (s :: l).length < capacity := by
        rw [← hwaiting, hfull]
        exact lt_irrefl _
      refine ⟨s, l, by rw [← hwaiting], ?_⟩
      simp only [offer, if_neg hidle, hwaiting, if_neg hroom]

/-- The job waits for its place until the server takes the next one. -/
theorem offer_delayed (hpatient : (q.standing w.arrival).freeAt ≤ w.arrival + patience) :
    (q.offer capacity patience w).1 = .delayed ∧
      (q.offer capacity patience w).2.standing (q.standing w.arrival).freeAt =
        ((q.standing (q.standing w.arrival).freeAt).join w.service).standing
          (q.standing w.arrival).freeAt := by
  obtain ⟨hserve, s, l, hq, hoffer⟩ := standing_of_full patience hfull hcapacity
  have hlate : w.arrival ≤ (q.standing w.arrival).freeAt := by
    by_contra hlt
    have hfree : (q.serve w.arrival).freeAt ≤ w.arrival := by
      rw [← hserve]
      omega
    rw [standing_of_free hfree] at hfull
    exact hcapacity.ne hfull
  rw [← standing_standing (q := q) hlate]
  rw [hserve] at hpatient ⊢
  rw [if_pos hpatient] at hoffer
  rw [hoffer]
  refine ⟨rfl, ?_⟩
  have hnext : (q.serve w.arrival).standing (q.serve w.arrival).freeAt =
      standing ⟨(q.serve w.arrival).freeAt + s, l⟩ (q.serve w.arrival).freeAt := by
    conv_lhs => rw [hq]
    exact standing_begin
  have hbusy : (q.serve w.arrival).freeAt ≤ (q.serve w.arrival).freeAt + s := Nat.le_add_right _ _
  rw [hnext]
  exact standing_join (q := ⟨(q.serve w.arrival).freeAt + s, l⟩) hbusy

theorem offer_refused (hlate : w.arrival + patience < (q.standing w.arrival).freeAt)
    (ht : w.arrival ≤ t) :
    (q.offer capacity patience w).1 = .refused ∧
      (q.offer capacity patience w).2.standing t = q.standing t := by
  obtain ⟨hserve, s, l, hq, hoffer⟩ := standing_of_full patience hfull hcapacity
  rw [hserve] at hlate
  rw [if_neg (Nat.not_le.mpr hlate)] at hoffer
  rw [hoffer, ← hserve, standing_standing ht]
  exact ⟨rfl, rfl⟩

end full

/-! ### Sequences of arrivals -/

/-- A job that has arrived: how many jobs waited then, and what became of it. -/
structure Entry where
  work : Work
  inLine : ℕ
  admission : Admission
deriving DecidableEq, Repr

section arrivals

variable (capacity patience : ℕ)

def entries : TimedQueue → List Work → List Entry
  | _, [] => []
  | q, w :: ws =>
      ⟨w, q.inLine w, (q.offer capacity patience w).1⟩ ::
        entries (q.offer capacity patience w).2 ws

/-- The queue after the arrivals. -/
def after (q : TimedQueue) (ws : List Work) : TimedQueue :=
  ws.foldl (fun q w => (q.offer capacity patience w).2) q

/-- The jobs that were not refused. -/
def admitted (q : TimedQueue) (ws : List Work) : List Work :=
  ((entries capacity patience q ws).filter (·.admission ≠ .refused)).map Entry.work

/-- No job arrives while another one may still wait for a place. -/
def Spaced (ws : List Work) : Prop := ws.Pairwise fun v w => v.arrival + patience ≤ w.arrival

end arrivals

theorem inLine_le_iff_of_mem {ws : List Work} {e : Entry}
    (he : e ∈ entries capacity patience q ws) :
    e.inLine ≤ capacity ↔ e.admission = .entered := by
  induction ws generalizing q with
  | nil => cases he
  | cons v ws ih =>
      rcases List.mem_cons.mp he with rfl | he
      · exact inLine_le_iff_entered
      · exact ih he

theorem after_concat {ws : List Work} : q.after capacity patience (ws ++ [w]) =
    ((q.after capacity patience ws).offer capacity patience w).2 := by
  simp [after]

theorem entries_concat {ws : List Work} : entries capacity patience q (ws ++ [w]) =
    entries capacity patience q ws ++
      [⟨w, (q.after capacity patience ws).inLine w,
        ((q.after capacity patience ws).offer capacity patience w).1⟩] := by
  induction ws generalizing q with
  | nil => rfl
  | cons v ws ih => exact congrArg _ ih

/-- The server does what was admitted. -/
theorem Holds.after {begun waits : List Work} {ws : List Work} (h : Holds q begun waits t)
    (hcapacity : 0 < capacity) (hlength : waits.length ≤ capacity) (hspaced : Spaced patience ws)
    (hstart : ∀ w ∈ ws, t ≤ w.arrival) :
    (q.after capacity patience ws).total =
      doneBy (begun ++ waits ++ q.admitted capacity patience ws) := by
  induction ws generalizing q begun waits t with
  | nil =>
      rw [admitted, entries, List.filter_nil, List.map_nil, List.append_nil]
      exact h.total
  | cons w ws ih =>
      have hoffered : Offered capacity patience q w (begun ++ waits) :=
        h.offered (hstart w List.mem_cons_self) hcapacity hlength
      obtain ⟨begun', waits', hsplit, hholds, hle⟩ := hoffered.holds
      have hrest := ih hholds hle hspaced.of_cons fun v hv => List.rel_of_pairwise_cons hspaced hv
      rw [TimedQueue.after, List.foldl_cons]
      refine hrest.trans ?_
      rw [hsplit]
      by_cases hrefused : (q.offer capacity patience w).1 = .refused
      · simp [admitted, entries, hrefused]
      · simp [admitted, entries, hrefused]

/-- A sequence of arrivals, by what is required of each of them: that there is room in time. -/
theorem Holds.entries_iff {P : Entry → Prop} {slack : ℕ} (hslack : slack ≤ patience)
    (hP : ∀ {q : TimedQueue} {w : Work} {l : List Work}, Offered capacity patience q w l →
      (P ⟨w, q.inLine w, (q.offer capacity patience w).1⟩ ↔ roomAt capacity l ≤ w.arrival + slack))
    {begun waits : List Work} {ws : List Work} (h : Holds q begun waits t)
    (hcapacity : 0 < capacity) (hlength : waits.length ≤ capacity) (hspaced : Spaced patience ws)
    (hstart : ∀ w ∈ ws, t ≤ w.arrival) :
    (∀ e ∈ entries capacity patience q ws, P e) ↔
      ∀ before w rest, ws = before ++ w :: rest →
        roomAt capacity (begun ++ waits ++ before) ≤ w.arrival + slack := by
  induction ws generalizing q begun waits t with
  | nil => simp [entries]
  | cons w ws ih =>
      have hoffered : Offered capacity patience q w (begun ++ waits) :=
        h.offered (hstart w List.mem_cons_self) hcapacity hlength
      obtain ⟨begun', waits', hsplit, hholds, hle⟩ := hoffered.holds
      have hrest := ih hholds hle hspaced.of_cons fun v hv => List.rel_of_pairwise_cons hspaced hv
      rw [entries, List.forall_mem_cons, hP hoffered]
      constructor
      · rintro ⟨hroom, hall⟩ before v rest hws
        cases before with
        | nil =>
            obtain ⟨rfl, rfl⟩ := List.cons.inj hws
            simpa using hroom
        | cons u before =>
            obtain ⟨rfl, rfl⟩ := List.cons.inj hws
            -- the first job was admitted
            have hadmitted : (q.offer capacity patience w).1 ≠ .refused := by
              rw [ne_eq, hoffered.refused]
              omega
            rw [if_neg hadmitted] at hsplit
            have := hrest.mp hall before v rest rfl
            rw [hsplit] at this
            simpa using this
      · intro hall
        have hroom := hall [] w ws rfl
        rw [List.append_nil] at hroom
        refine ⟨hroom, hrest.mpr ?_⟩
        intro before v rest hws
        have hadmitted : (q.offer capacity patience w).1 ≠ .refused := by
          rw [ne_eq, hoffered.refused]
          omega
        rw [if_neg hadmitted] at hsplit
        have := hall (w :: before) v rest (by rw [hws]; rfl)
        rw [hsplit]
        simpa using this

/-- There is room in time if no run of jobs that ends before the last ones takes too long. -/
theorem roomAt_le_iff : roomAt capacity l ≤ t ↔
    ∀ before a run ahead, l = before ++ a :: run ++ ahead → ahead.length = capacity →
      a.arrival + load (a :: run) ≤ t := by
  rw [roomAt, doneBy_le_iff]
  constructor
  · intro hall before a run ahead hl hahead
    apply hall a run
    rw [hl, List.length_append, hahead, Nat.add_sub_cancel, List.take_left]
    exact List.suffix_append _ _
  · intro hall a run hsuffix
    obtain ⟨before, hbefore⟩ := hsuffix
    have hlength := congrArg List.length hbefore
    simp only [List.length_append, List.length_cons, List.length_take] at hlength
    apply hall before a run (l.drop (l.length - capacity))
    · rw [hbefore, List.take_append_drop]
    · rw [List.length_drop]
      omega

section spaced

variable {ws : List Work} (hcapacity : 0 < capacity) (hspaced : Spaced patience ws)
include hcapacity hspaced

/-- What is required of each arrival, in terms of the jobs before it: no run of jobs that ends a
queue's length before it takes too long. -/
theorem entries_empty_iff {P : Entry → Prop} {slack : ℕ} (hslack : slack ≤ patience)
    (hP : ∀ {q : TimedQueue} {w : Work} {l : List Work}, Offered capacity patience q w l →
      (P ⟨w, q.inLine w, (q.offer capacity patience w).1⟩ ↔
        roomAt capacity l ≤ w.arrival + slack)) :
    (∀ e ∈ entries capacity patience empty ws, P e) ↔
      ∀ before a run ahead w rest, ws = before ++ a :: run ++ ahead ++ w :: rest →
        ahead.length = capacity → a.arrival + load (a :: run) ≤ w.arrival + slack := by
  rw [holds_empty.entries_iff hslack hP hcapacity (Nat.zero_le _) hspaced fun _ _ => Nat.zero_le _]
  simp only [List.nil_append, roomAt_le_iff]
  constructor
  · intro hall before a run ahead w rest hws hahead
    exact hall _ w rest hws before a run ahead rfl hahead
  · intro hall l w rest hws before a run ahead hl hahead
    exact hall before a run ahead w rest (by rw [hws, hl]) hahead

/-- **When the queue is never too short**: for every job, no run of jobs that ends a queue's length
before it takes longer than the time between the first of them and the job. -/
theorem inLine_le_iff : (∀ e ∈ entries capacity patience empty ws, e.inLine ≤ capacity) ↔
    ∀ before a run ahead w rest, ws = before ++ a :: run ++ ahead ++ w :: rest →
      ahead.length = capacity → a.arrival + load (a :: run) ≤ w.arrival :=
  entries_empty_iff (P := fun e => e.inLine ≤ capacity) hcapacity hspaced (Nat.zero_le _)
    fun ho => ho.inLine

/-- **When no job is refused**: the run of jobs may take as much longer as a job waits. -/
theorem not_refused_iff : (∀ e ∈ entries capacity patience empty ws, e.admission ≠ .refused) ↔
    ∀ before a run ahead w rest, ws = before ++ a :: run ++ ahead ++ w :: rest →
      ahead.length = capacity → a.arrival + load (a :: run) ≤ w.arrival + patience := by
  apply entries_empty_iff (P := fun e => e.admission ≠ .refused) hcapacity hspaced le_rfl
  intro q w l ho
  rw [ne_eq, ho.refused, Nat.not_lt]

/-- **When what is pending is done in time**: no run of the last jobs admitted takes longer than
from the arrival of the first of them to the deadline. -/
theorem pending_after_iff {d : ℕ} (ht : t ≤ d) :
    (∀ x ∈ (empty.after capacity patience ws).pending t, x ≤ d) ↔
      ∀ a run, (a :: run) <:+ empty.admitted capacity patience ws →
        a.arrival + load (a :: run) ≤ d := by
  rw [pending_le_iff ht, holds_empty.after hcapacity (Nat.zero_le _) hspaced fun _ _ =>
    Nat.zero_le _, List.append_nil, List.nil_append, doneBy_le_iff]

end spaced

end TimedQueue

end PeripheralTester.Lib
