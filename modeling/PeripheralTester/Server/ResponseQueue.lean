import PeripheralTester.Lib.Fifo
import PeripheralTester.Protocol

/-! # The server's response queue

`response_queue.c`: a ring of 128 records under one mutex, with a shutdown flag.  Every
function body runs with the mutex held, so each is one step; the exception is
`response_queue_pop`, whose `pthread_cond_wait` releases the mutex.  Its loop test is the step
modelled here: an empty queue without shutdown answers `waiting`, and a woken thread takes the
same step again.

`Represents q c` relates the queue to the abstract `Channel`: the ring holds its items and the
flag is `closed`.  `represents_call` is the step lemma for each call, `represents_runCalls` its
lift to call sequences, and `responseQueue_refines` the refinement with the FIFO law.

The record type is a parameter: nothing in the queue looks inside a record. -/

namespace PeripheralTester.Server

open Lib

/-- `RESPONSE_QUEUE_CAPACITY`. -/
def responseQueueCapacity : ℕ := 128

/-- `response_queue_status_t`. -/
inductive ResponseQueueStatus where
  | ok
  | fail
deriving DecidableEq, Repr

/-- The static state of `response_queue.c`. -/
structure ResponseQueue (ρ : Type) extends Ring ρ responseQueueCapacity where
  shutdownRequested : Bool

variable {ρ : Type}

/-! ### The functions -/

/-- The queue state `response_queue_init` leaves; `default` is the record of zero bytes that
`memset` writes. -/
def responseQueueCleared [Inhabited ρ] : ResponseQueue ρ where
  buffer := Vector.replicate responseQueueCapacity default
  head := 0
  tail := 0
  count := 0
  shutdownRequested := false

/-- `response_queue_init`, given what the two pthread initialisers return. -/
def responseQueueInit [Inhabited ρ] (mutexOk condOk : Bool) :
    ResponseQueueStatus × ResponseQueue ρ :=
  if !mutexOk then (.fail, responseQueueCleared)
  else if !condOk then (.fail, responseQueueCleared)
  else (.ok, responseQueueCleared)

/-- `response_queue_push`; `none` is a `NULL` record. -/
def responseQueuePush (q : ResponseQueue ρ) (record : Option ρ) :
    ResponseQueueStatus × ResponseQueue ρ :=
  match record with
  | none => (.fail, q)
  | some r =>
      if q.count ≥ responseQueueCapacity then (.fail, q)
      else
        (.ok, { q with
          buffer := q.buffer.setIfInBounds q.tail r
          tail := if q.tail + 1 ≥ responseQueueCapacity then 0 else q.tail + 1
          count := q.count + 1 })

/-- What one pass of `response_queue_pop` through its loop test ends with: the thread waits on
the condition variable, the call fails, or it returns a record.  The record is `none` only for
a head outside the buffer, which `Represents` excludes. -/
inductive PopResult (ρ : Type) where
  | waiting
  | fail
  | record (r : Option ρ)
deriving DecidableEq, Repr

/-- `response_queue_pop` with a valid destination. -/
def responseQueuePop (q : ResponseQueue ρ) : PopResult ρ × ResponseQueue ρ :=
  if q.count = 0 ∧ q.shutdownRequested = false then (.waiting, q)
  else if q.count = 0 ∧ q.shutdownRequested = true then (.fail, q)
  else
    (.record q.buffer[q.head]?, { q with
      head := if q.head + 1 ≥ responseQueueCapacity then 0 else q.head + 1
      count := q.count - 1 })

/-- `response_queue_shutdown`. -/
def responseQueueShutdown (q : ResponseQueue ρ) : ResponseQueue ρ :=
  { q with shutdownRequested := true }

/-- Whatever the initialisers return, the queue is cleared. -/
theorem responseQueueInit_snd [Inhabited ρ] (mutexOk condOk : Bool) :
    (responseQueueInit mutexOk condOk : _ × ResponseQueue ρ).2 = responseQueueCleared := by
  cases mutexOk <;> cases condOk <;> rfl

/-- A push that fails changes nothing. -/
theorem responseQueuePush_fail {q q' : ResponseQueue ρ} {record : Option ρ}
    (h : responseQueuePush q record = (.fail, q')) : q' = q := by
  unfold responseQueuePush at h
  split at h
  · exact (congrArg Prod.snd h).symm
  · split at h
    · exact (congrArg Prod.snd h).symm
    · cases h

@[simp] theorem responseQueuePush_shutdownRequested (q : ResponseQueue ρ) (record : Option ρ) :
    (responseQueuePush q record).2.shutdownRequested = q.shutdownRequested := by
  unfold responseQueuePush
  split
  · rfl
  · split <;> rfl

@[simp] theorem responseQueuePop_shutdownRequested (q : ResponseQueue ρ) :
    (responseQueuePop q).2.shutdownRequested = q.shutdownRequested := by
  unfold responseQueuePop
  split
  · rfl
  · split <;> rfl

/-! ### The representation -/

/-- The queue represents the channel: its ring holds the items, its flag is `closed`. -/
structure Represents (q : ResponseQueue ρ) (c : Channel ρ responseQueueCapacity) : Prop where
  ring : q.toRing.Holds c.items
  shutdown : q.shutdownRequested = c.closed

theorem represents_cleared [Inhabited ρ] :
    Represents (responseQueueCleared : ResponseQueue ρ) .empty where
  ring := Ring.holds_nil (by decide) _
  shutdown := rfl

theorem responseQueuePush_of_full {q : ResponseQueue ρ} {c : Channel ρ responseQueueCapacity}
    (h : Represents q c) (r : ρ) (hl : c.items.length = responseQueueCapacity) :
    responseQueuePush q (some r) = (.fail, q) := by
  have hc := h.ring.count
  simp only [responseQueuePush]
  rw [if_pos (by omega)]

theorem responseQueuePush_of_lt {q : ResponseQueue ρ} {c : Channel ρ responseQueueCapacity}
    (h : Represents q c) (r : ρ) (hl : c.items.length < responseQueueCapacity) :
    (responseQueuePush q (some r)).1 = .ok ∧
      Represents (responseQueuePush q (some r)).2 (c.send r).2 := by
  have hc := h.ring.count
  obtain ⟨_, hitems, hclosed⟩ := Channel.send_of_lt r hl
  simp only [responseQueuePush]
  rw [if_neg (by omega)]
  refine ⟨rfl, ?_, h.shutdown.trans hclosed.symm⟩
  rw [hitems]
  exact Ring.holds_put h.ring r hl

theorem responseQueuePop_of_nil {q : ResponseQueue ρ} {c : Channel ρ responseQueueCapacity}
    (h : Represents q c) (hl : c.items = []) :
    responseQueuePop q = (if c.closed then .fail else .waiting, q) := by
  have hc := h.ring.count
  rw [hl, List.length_nil] at hc
  cases hs : c.closed <;> simp [responseQueuePop, hc, h.shutdown, hs]

theorem responseQueuePop_of_cons {q : ResponseQueue ρ} {c : Channel ρ responseQueueCapacity}
    {r : ρ} {l : List ρ} (h : Represents q c) (hl : c.items = r :: l) :
    (responseQueuePop q).1 = .record (some r) ∧
      Represents (responseQueuePop q).2 c.receive.2 := by
  have hring := h.ring
  rw [hl] at hring
  have hc := hring.count
  rw [List.length_cons] at hc
  obtain ⟨_, hitems, hclosed⟩ := Channel.receive_of_cons hl
  obtain ⟨hr, htake⟩ := Ring.holds_take hring
  unfold responseQueuePop
  rw [if_neg (by omega), if_neg (by omega)]
  refine ⟨congrArg PopResult.record hr, ?_, h.shutdown.trans hclosed.symm⟩
  rw [hitems]
  exact htake

theorem represents_shutdown {q : ResponseQueue ρ} {c : Channel ρ responseQueueCapacity}
    (h : Represents q c) : Represents (responseQueueShutdown q) c.close := ⟨h.ring, rfl⟩

/-! The same facts read from what a call returned. -/

namespace Represents

variable {q q' : ResponseQueue ρ} {c : Channel ρ responseQueueCapacity} {r : ρ}

theorem of_push_ok (h : Represents q c) (hp : responseQueuePush q (some r) = (.ok, q')) :
    Represents q' (c.send r).2 ∧ (c.send r).2.items = c.items ++ [r] ∧
      (c.send r).2.closed = c.closed := by
  have hle := c.le
  have hl : c.items.length < responseQueueCapacity := by
    by_contra hge
    rw [responseQueuePush_of_full h r (by omega)] at hp
    cases hp
  have hrep := (responseQueuePush_of_lt h r hl).2
  rw [hp] at hrep
  exact ⟨hrep, (Channel.send_of_lt r hl).2⟩

theorem of_pop_waiting (h : Represents q c) (hp : responseQueuePop q = (.waiting, q')) :
    q' = q ∧ c.items = [] ∧ c.closed = false := by
  cases hi : c.items with
  | nil =>
      rw [responseQueuePop_of_nil h hi, Prod.mk.injEq] at hp
      cases hc : c.closed <;> simp [hc] at hp
      exact ⟨hp.symm, rfl, rfl⟩
  | cons a l =>
      have := (responseQueuePop_of_cons h hi).1
      rw [hp] at this
      cases this

theorem of_pop_fail (h : Represents q c) (hp : responseQueuePop q = (.fail, q')) :
    q' = q ∧ c.items = [] ∧ c.closed = true := by
  cases hi : c.items with
  | nil =>
      rw [responseQueuePop_of_nil h hi, Prod.mk.injEq] at hp
      cases hc : c.closed <;> simp [hc] at hp
      exact ⟨hp.symm, rfl, rfl⟩
  | cons a l =>
      have := (responseQueuePop_of_cons h hi).1
      rw [hp] at this
      cases this

theorem of_pop_record (h : Represents q c) (hp : responseQueuePop q = (.record (some r), q')) :
    Represents q' c.receive.2 ∧ c.items = r :: c.receive.2.items ∧
      c.receive.2.closed = c.closed := by
  cases hi : c.items with
  | nil =>
      rw [responseQueuePop_of_nil h hi, Prod.mk.injEq] at hp
      cases hc : c.closed <;> simp [hc] at hp
  | cons a l =>
      obtain ⟨hres, hrep⟩ := responseQueuePop_of_cons h hi
      obtain ⟨_, hitems, hclosed⟩ := Channel.receive_of_cons hi
      rw [hp] at hres hrep
      obtain rfl : r = a := by simpa using hres
      exact ⟨hrep, by rw [hitems], hclosed⟩

end Represents

/-! ### Call sequences -/

/-- A call by the producer or the consumer; `none` and `false` are `NULL` arguments. -/
inductive QueueCall (ρ : Type) where
  | push (record : Option ρ)
  | pop (destination : Bool)
  | shutdown

/-- What a call returns. -/
inductive QueueReturn (ρ : Type) where
  | pushed (status : ResponseQueueStatus)
  | popped (result : PopResult ρ)
  | shutdown

def call (q : ResponseQueue ρ) : QueueCall ρ → QueueReturn ρ × ResponseQueue ρ
  | .push record => (.pushed (responseQueuePush q record).1, (responseQueuePush q record).2)
  | .pop true => (.popped (responseQueuePop q).1, (responseQueuePop q).2)
  | .pop false => (.popped .fail, q)
  | .shutdown => (.shutdown, responseQueueShutdown q)

/-- A sequence of calls with their returns, oldest first, and the queue it leaves. -/
def runCalls (q : ResponseQueue ρ) :
    List (QueueCall ρ) → List (QueueCall ρ × QueueReturn ρ) × ResponseQueue ρ
  | [] => ([], q)
  | k :: ks =>
      let rest := runCalls (call q k).2 ks
      ((k, (call q k).1) :: rest.1, rest.2)

/-- The record a call put into the queue. -/
def pushedRecord : QueueCall ρ × QueueReturn ρ → Option ρ
  | (.push (some r), .pushed .ok) => some r
  | _ => none

/-- The record a call took out of the queue. -/
def poppedRecord : QueueCall ρ × QueueReturn ρ → Option ρ
  | (_, .popped (.record r)) => r
  | _ => none

/-- The request of the channel that a call makes; a `NULL` argument makes none. -/
def QueueCall.op : QueueCall ρ → Option (Channel.Op ρ)
  | .push (some r) => some (.send r)
  | .push none => none
  | .pop true => some .receive
  | .pop false => none
  | .shutdown => some .close

/-- Calls on a represented queue serve the channel's requests: same records in and out. -/
theorem represents_call {q : ResponseQueue ρ} {c : Channel ρ responseQueueCapacity}
    (h : Represents q c) (k : QueueCall ρ) :
    match k.op with
    | none => (call q k).2 = q ∧ pushedRecord (k, (call q k).1) = none ∧
        poppedRecord (k, (call q k).1) = none
    | some o => Represents (call q k).2 (c.serve o).2 ∧
        pushedRecord (k, (call q k).1) = Channel.sentItem (o, (c.serve o).1) ∧
        poppedRecord (k, (call q k).1) = Channel.receivedItem (o, (c.serve o).1) := by
  cases k with
  | push record =>
      cases record with
      | none => exact ⟨rfl, rfl, rfl⟩
      | some r =>
          by_cases hl : c.items.length < responseQueueCapacity
          · obtain ⟨hst, hrep⟩ := responseQueuePush_of_lt h r hl
            obtain ⟨hacc, _, _⟩ := Channel.send_of_lt r hl
            refine ⟨hrep, ?_, rfl⟩
            simp only [call, Channel.serve, hst, hacc, pushedRecord, Channel.sentItem]
          · have hl' : c.items.length = responseQueueCapacity := by have := c.le; omega
            have hpush := responseQueuePush_of_full h r hl'
            have hsend := Channel.send_of_full r hl'
            refine ⟨?_, ?_, rfl⟩
            · simpa only [call, Channel.serve, hpush, hsend] using h
            · simp only [call, Channel.serve, hpush, hsend, pushedRecord, Channel.sentItem]
  | pop destination =>
      cases destination with
      | false => exact ⟨rfl, rfl, rfl⟩
      | true =>
          cases hi : c.items with
          | nil =>
              have hpop := responseQueuePop_of_nil h hi
              have hrec := Channel.receive_of_nil hi
              refine ⟨?_, rfl, ?_⟩
              · simpa only [call, Channel.serve, hpop, hrec] using h
              · cases hcl : c.closed <;>
                  simp [call, Channel.serve, hpop, hrec, hcl, poppedRecord, Channel.receivedItem]
          | cons r l =>
              obtain ⟨hres, hrep⟩ := responseQueuePop_of_cons h hi
              obtain ⟨hrec, _, _⟩ := Channel.receive_of_cons hi
              refine ⟨hrep, rfl, ?_⟩
              simp only [call, Channel.serve, hres, hrec, poppedRecord, Channel.receivedItem]
  | shutdown => exact ⟨represents_shutdown h, rfl, rfl⟩

/-- A call sequence on a represented queue serves the sequence of its requests. -/
theorem represents_runCalls {q : ResponseQueue ρ} {c : Channel ρ responseQueueCapacity}
    (h : Represents q c) (ks : List (QueueCall ρ)) :
    Represents (runCalls q ks).2 (c.serveAll (ks.filterMap QueueCall.op)).2 ∧
      (runCalls q ks).1.filterMap pushedRecord =
        (c.serveAll (ks.filterMap QueueCall.op)).1.filterMap Channel.sentItem ∧
      (runCalls q ks).1.filterMap poppedRecord =
        (c.serveAll (ks.filterMap QueueCall.op)).1.filterMap Channel.receivedItem := by
  induction ks generalizing q c with
  | nil => exact ⟨h, rfl, rfl⟩
  | cons k ks ih =>
      have hk := represents_call h k
      simp only [runCalls, Channel.filterMap_cons_toList]
      cases ho : k.op with
      | none =>
          simp only [ho] at hk
          obtain ⟨hq, hpush, hpop⟩ := hk
          rw [hq, hpush, hpop]
          simpa using ih h
      | some o =>
          simp only [ho] at hk
          obtain ⟨hrep, hpush, hpop⟩ := hk
          obtain ⟨i1, i2, i3⟩ := ih hrep
          simp only [Option.toList_some, List.singleton_append, Channel.serveAll,
            Channel.filterMap_cons_toList]
          exact ⟨i1, by rw [hpush, i2], by rw [hpop, i3]⟩

/-! ### Refinement -/

/-- What the next call does to a queue that holds the list `l`. -/
structure Obeys (q : ResponseQueue ρ) (l : List ρ) : Prop where
  /-- A push fails exactly on a `NULL` record or a full queue, and then changes nothing. -/
  push_fails : ∀ record, (responseQueuePush q record).1 = .fail ↔
    record = none ∨ l.length = responseQueueCapacity
  push_unchanged : ∀ record, (responseQueuePush q record).1 = .fail →
    (responseQueuePush q record).2 = q
  push_appends : ∀ r, (responseQueuePush q (some r)).1 = .ok →
    (responseQueuePush q (some r)).2.toRing.Holds (l ++ [r])
  /-- A pop waits, fails or returns the oldest record. -/
  pop_waits : l = [] → q.shutdownRequested = false → responseQueuePop q = (.waiting, q)
  pop_fails : l = [] → q.shutdownRequested = true → responseQueuePop q = (.fail, q)
  pop_oldest : ∀ r l', l = r :: l' → (responseQueuePop q).1 = .record (some r) ∧
    (responseQueuePop q).2.toRing.Holds l'
  /-- A pop into `NULL` fails and changes nothing. -/
  pop_null : call q (.pop false) = (.popped .fail, q)
  /-- A shutdown discards no record. -/
  shutdown_keeps : (responseQueueShutdown q).toRing.Holds l

theorem Represents.obeys {q : ResponseQueue ρ} {c : Channel ρ responseQueueCapacity}
    (h : Represents q c) : Obeys q c.items := by
  have hle := c.le
  have hpush : ∀ r, (responseQueuePush q (some r)).1 = .fail ↔
      c.items.length = responseQueueCapacity := by
    intro r
    rcases Nat.lt_or_ge c.items.length responseQueueCapacity with hl | hl
    · rw [(responseQueuePush_of_lt h r hl).1]
      simp only [reduceCtorEq, false_iff]
      omega
    · rw [responseQueuePush_of_full h r (by omega)]
      simp only [true_iff]
      omega
  refine ⟨?_, ?_, ?_, ?_, ?_, ?_, rfl, h.ring⟩
  · intro record
    cases record with
    | none => simp [responseQueuePush]
    | some r => simpa using hpush r
  · intro record hf
    cases record with
    | none => rfl
    | some r => rw [responseQueuePush_of_full h r ((hpush r).mp hf)]
  · intro r hok
    have hl : c.items.length < responseQueueCapacity := by
      by_contra hge
      rw [responseQueuePush_of_full h r (by omega)] at hok
      cases hok
    rw [← (Channel.send_of_lt r hl).2.1]
    exact (responseQueuePush_of_lt h r hl).2.ring
  · intro hl hs
    rw [responseQueuePop_of_nil h hl, ← h.shutdown, hs]
    rfl
  · intro hl hs
    rw [responseQueuePop_of_nil h hl, ← h.shutdown, hs]
    rfl
  · intro r l hl
    rw [← (Channel.receive_of_cons hl).2.1]
    exact ⟨(responseQueuePop_of_cons h hl).1, (responseQueuePop_of_cons h hl).2.ring⟩

/-- **The response queue refines a bounded FIFO**: after any sequence of calls there is a list
of at most 128 records that the ring holds, the records pushed are the records popped followed
by this list, and the next call treats it as a FIFO. -/
theorem responseQueue_refines [Inhabited ρ] (ks : List (QueueCall ρ)) :
    ∃ l : List ρ, l.length ≤ 128 ∧
      (runCalls responseQueueCleared ks).2.toRing.Holds l ∧
      (runCalls responseQueueCleared ks).1.filterMap poppedRecord ++ l =
        (runCalls responseQueueCleared ks).1.filterMap pushedRecord ∧
      (runCalls responseQueueCleared ks).1.filterMap poppedRecord <+:
        (runCalls responseQueueCleared ks).1.filterMap pushedRecord ∧
      Obeys (runCalls responseQueueCleared ks).2 l := by
  obtain ⟨hrep, hpush, hpop⟩ := represents_runCalls (represents_cleared (ρ := ρ)) ks
  have hfifo :=
    Channel.sent_eq (.empty : Channel ρ responseQueueCapacity) (ks.filterMap QueueCall.op)
  rw [← hpush, ← hpop, Channel.empty, Fifo.items_empty, List.nil_append] at hfifo
  exact ⟨_, Fifo.le _, hrep.ring, hfifo.symm, ⟨_, hfifo.symm⟩, hrep.obeys⟩

/-- A pop into `NULL` fails on an open queue that holds a record. -/
theorem pop_null_fails_on_open_queue :
    ¬ ∀ (ks : List (QueueCall UInt8)) (destination : Bool),
      (call (runCalls responseQueueCleared ks).2 (.pop destination)).1 = .popped .fail →
        (runCalls responseQueueCleared ks).2.count = 0 ∧
          (runCalls responseQueueCleared ks).2.shutdownRequested = true := by
  intro h
  have hpop := h [.push (some 7)] false rfl
  exact absurd hpop.1 (by decide)

end PeripheralTester.Server
