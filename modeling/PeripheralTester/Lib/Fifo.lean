import Mathlib.Algebra.BigOperators.Group.Finset.Basic
import Mathlib.Algebra.Order.Group.Multiset
import Mathlib.Tactic

/-! # Bounded queues

Three views of a queue of at most `n` items, each related to the one above it.

* `Fifo α n` is the abstract queue: the list of its items, oldest first, with the bound as a
  field.  A kernel queue that copies items in and out is used at this level.
* `Channel α n` adds the request to close: a receiver of an empty channel waits while the
  channel is open and fails once it is closed.  `Channel.sent_eq` is the FIFO law over whole
  histories: what was sent is what was received followed by what is still inside.
* `Ring α n` is the usual implementation with a buffer, two wrapping indices and a separate
  count.  `Ring.Holds` is the representation relation, and `Ring.holds_put`, `Ring.holds_take`
  say that the two ring operations are `Fifo.push` and `Fifo.pop`. -/

namespace PeripheralTester.Lib

variable {α : Type*} {n : ℕ}

/-- A queue of at most `n` items, oldest first. -/
@[ext] structure Fifo (α : Type*) (n : ℕ) where
  items : List α
  le : items.length ≤ n

namespace Fifo

def empty : Fifo α n := ⟨[], Nat.zero_le n⟩

/-- Append an item; `none` when the queue is full. -/
def push (q : Fifo α n) (a : α) : Option (Fifo α n) :=
  if h : q.items.length < n then some ⟨q.items ++ [a], by simpa using h⟩ else none

/-- Remove the oldest item; `none` when the queue is empty. -/
def pop : Fifo α n → Option (α × Fifo α n)
  | ⟨[], _⟩ => none
  | ⟨a :: l, h⟩ => some (a, ⟨l, by simp only [List.length_cons] at h; omega⟩)

@[simp] theorem items_empty : (empty : Fifo α n).items = [] := rfl

theorem push_eq_some_iff {q q' : Fifo α n} {a : α} :
    q.push a = some q' ↔ q.items.length < n ∧ q'.items = q.items ++ [a] := by
  unfold push
  split
  · rename_i h
    rw [Option.some.injEq, Fifo.ext_iff]
    exact ⟨fun e => ⟨h, e.symm⟩, fun e => e.2.symm⟩
  · rename_i h
    exact ⟨fun e => by simp at e, fun e => absurd e.1 h⟩

theorem push_eq_none_iff {q : Fifo α n} {a : α} : q.push a = none ↔ q.items.length = n := by
  have := q.le
  unfold push
  split
  · simp only [reduceCtorEq, false_iff]
    omega
  · simp only [true_iff]
    omega

theorem pop_eq_some_iff {q q' : Fifo α n} {a : α} :
    q.pop = some (a, q') ↔ q.items = a :: q'.items := by
  obtain ⟨items, h⟩ := q
  cases items with
  | nil => simp [pop]
  | cons b l =>
      simp only [pop, Option.some.injEq, Prod.mk.injEq, List.cons.injEq, Fifo.ext_iff]

theorem pop_eq_none_iff {q : Fifo α n} : q.pop = none ↔ q.items = [] := by
  obtain ⟨items, h⟩ := q
  cases items <;> simp [pop]

/-- A queue of one item. -/
def single (h : 0 < n) (a : α) : Fifo α n := ⟨[a], h⟩

theorem push_empty (h : 0 < n) (a : α) : (empty : Fifo α n).push a = some (single h a) := dif_pos h

theorem pop_single (h : 0 < n) (a : α) : (single h a : Fifo α n).pop = some (a, empty) := rfl

/-! ### Families of queues -/

section families

variable {ι : Type*} [Fintype ι] [DecidableEq ι]

/-- One member of a family changes: what the family holds together changes by as much. -/
theorem sum_update_add {β M : Type*} [AddCommMonoid M] (g : β → M) (f : ι → β) (i : ι) (b : β) :
    (∑ x, g (Function.update f i b x)) + g (f i) = (∑ x, g (f x)) + g b := by
  have h₁ := Finset.sum_erase_add Finset.univ (fun x => g (Function.update f i b x))
    (Finset.mem_univ i)
  have h₂ := Finset.sum_erase_add Finset.univ (fun x => g (f x)) (Finset.mem_univ i)
  have h₃ : ∑ x ∈ Finset.univ.erase i, g (Function.update f i b x) =
      ∑ x ∈ Finset.univ.erase i, g (f x) :=
    Finset.sum_congr rfl fun x hx => by
      rw [Function.update_of_ne (Finset.ne_of_mem_erase hx)]
  simp only [Function.update_self] at h₁
  rw [← h₁, ← h₂, h₃, add_right_comm]

/-- The items of all queues of a family. -/
def content (q : ι → Fifo α n) : Multiset α := ∑ x, ((q x).items : Multiset α)

theorem content_push {q : ι → Fifo α n} {i : ι} {a : α} {q' : Fifo α n}
    (h : (q i).push a = some q') : content (Function.update q i q') = content q + {a} := by
  have hsum := sum_update_add (fun r : Fifo α n => (r.items : Multiset α)) q i q'
  rw [(push_eq_some_iff.mp h).2, ← Multiset.coe_add, Multiset.coe_singleton,
    add_comm ((q i).items : Multiset α), ← add_assoc] at hsum
  exact add_right_cancel hsum

theorem content_pop {q : ι → Fifo α n} {i : ι} {a : α} {q' : Fifo α n}
    (h : (q i).pop = some (a, q')) : content q = content (Function.update q i q') + {a} := by
  have hsum := sum_update_add (fun r : Fifo α n => (r.items : Multiset α)) q i q'
  simp only [pop_eq_some_iff.mp h] at hsum
  rw [← Multiset.cons_coe, ← Multiset.singleton_add, ← add_assoc] at hsum
  exact (add_right_cancel hsum).symm

end families

end Fifo

/-! ### Closable channels -/

/-- A bounded queue whose receivers can be told that no more items are coming. -/
@[ext] structure Channel (α : Type*) (n : ℕ) extends Fifo α n where
  closed : Bool

/-- What an attempt to receive finds. -/
inductive Receipt (α : Type*) where
  | waiting
  | closed
  | item (a : α)
deriving DecidableEq, Repr

namespace Channel

def empty : Channel α n := ⟨.empty, false⟩

/-- Send an item; refused when the channel is full, also after it was closed. -/
def send (c : Channel α n) (a : α) : Bool × Channel α n :=
  match c.toFifo.push a with
  | some q => (true, { c with toFifo := q })
  | none => (false, c)

def receive (c : Channel α n) : Receipt α × Channel α n :=
  match c.toFifo.pop with
  | some (a, q) => (.item a, { c with toFifo := q })
  | none => (if c.closed then .closed else .waiting, c)

def close (c : Channel α n) : Channel α n := { c with closed := true }

@[simp] theorem items_close (c : Channel α n) : c.close.items = c.items := rfl
@[simp] theorem closed_close (c : Channel α n) : c.close.closed = true := rfl

theorem send_of_lt {c : Channel α n} (a : α) (h : c.items.length < n) :
    (c.send a).1 = true ∧ (c.send a).2.items = c.items ++ [a] ∧
      (c.send a).2.closed = c.closed := by
  obtain ⟨q, hq⟩ : ∃ q, c.toFifo.push a = some q := by
    rw [← Option.ne_none_iff_exists', ne_eq, Fifo.push_eq_none_iff]
    omega
  simp only [send, hq, true_and, and_true]
  exact (Fifo.push_eq_some_iff.mp hq).2

theorem send_of_full {c : Channel α n} (a : α) (h : c.items.length = n) :
    c.send a = (false, c) := by
  simp only [send, Fifo.push_eq_none_iff.mpr h]

theorem receive_of_nil {c : Channel α n} (h : c.items = []) :
    c.receive = (if c.closed then .closed else .waiting, c) := by
  simp only [receive, Fifo.pop_eq_none_iff.mpr h]

theorem receive_of_cons {c : Channel α n} {a : α} {l : List α} (h : c.items = a :: l) :
    c.receive.1 = .item a ∧ c.receive.2.items = l ∧ c.receive.2.closed = c.closed := by
  have hle := c.le
  rw [h, List.length_cons] at hle
  have hp : c.toFifo.pop = some (a, ⟨l, by omega⟩) := Fifo.pop_eq_some_iff.mpr h
  simp only [receive, hp, and_self]

/-- The three requests a channel serves. -/
inductive Op (α : Type*) where
  | send (a : α)
  | receive
  | close

/-- What a request returns. -/
inductive Reply (α : Type*) where
  | sent (accepted : Bool)
  | received (r : Receipt α)
  | closed

/-- Serve one request. -/
def serve (c : Channel α n) : Op α → Reply α × Channel α n
  | .send a => (.sent (c.send a).1, (c.send a).2)
  | .receive => (.received c.receive.1, c.receive.2)
  | .close => (.closed, c.close)

/-- Serve a history of requests, oldest first. -/
def serveAll (c : Channel α n) : List (Op α) → List (Op α × Reply α) × Channel α n
  | [] => ([], c)
  | o :: os =>
      let rest := (c.serve o).2.serveAll os
      ((o, (c.serve o).1) :: rest.1, rest.2)

/-- The item an exchange put into the channel. -/
def sentItem : Op α × Reply α → Option α
  | (.send a, .sent true) => some a
  | _ => none

/-- The item an exchange took out of the channel. -/
def receivedItem : Op α × Reply α → Option α
  | (_, .received (.item a)) => some a
  | _ => none

/-- One request keeps the account of items: content and sent items are received items and
new content. -/
theorem serve_account (c : Channel α n) (o : Op α) :
    c.items ++ (sentItem (o, (c.serve o).1)).toList =
      (receivedItem (o, (c.serve o).1)).toList ++ (c.serve o).2.items := by
  cases o with
  | send a =>
      by_cases h : c.items.length < n
      · obtain ⟨h1, h2, _⟩ := send_of_lt a h
        simp [serve, sentItem, receivedItem, h1, h2]
      · have h' : c.items.length = n := by have := c.le; omega
        simp [serve, sentItem, receivedItem, send_of_full a h']
  | receive =>
      cases hi : c.items with
      | nil =>
          have hr := receive_of_nil hi
          cases hc : c.closed <;> simp [serve, sentItem, receivedItem, hr, hc, hi]
      | cons a l =>
          obtain ⟨h1, h2, _⟩ := receive_of_cons hi
          simp [serve, sentItem, receivedItem, h1, h2]
  | close => simp [serve, sentItem, receivedItem, close]

theorem filterMap_cons_toList {β γ : Type*} (f : β → Option γ) (b : β) (l : List β) :
    (b :: l).filterMap f = (f b).toList ++ l.filterMap f := by
  cases h : f b <;> simp [h]

/-- **The FIFO law**: over any history, the content at the start followed by the items sent is
the items received followed by the content at the end. -/
theorem sent_eq (c : Channel α n) (os : List (Op α)) :
    c.items ++ (c.serveAll os).1.filterMap sentItem =
      (c.serveAll os).1.filterMap receivedItem ++ (c.serveAll os).2.items := by
  induction os generalizing c with
  | nil => simp [serveAll]
  | cons o os ih =>
      have hs := serve_account c o
      have hr := ih (c.serve o).2
      simp only [serveAll, filterMap_cons_toList]
      rw [← List.append_assoc, hs, List.append_assoc, hr, List.append_assoc]

end Channel

/-! ### Ring buffers -/

/-- A buffer with two wrapping indices and a count. -/
structure Ring (α : Type*) (n : ℕ) where
  buffer : Vector α n
  head : ℕ
  tail : ℕ
  count : ℕ

/-- Advance an index by one cell, from the last cell to the first. -/
def advance (n i : ℕ) : ℕ := if i + 1 ≥ n then 0 else i + 1

theorem add_mod_of_lt {n h i : ℕ} (hh : h < n) (hi : i ≤ n) :
    (h + i) % n = if h + i < n then h + i else h + i - n := by
  split
  · exact Nat.mod_eq_of_lt ‹_›
  · rw [Nat.mod_eq_sub_mod (by omega), Nat.mod_eq_of_lt (by omega)]

theorem advance_eq_mod {n i : ℕ} (h : i < n) : advance n i = (i + 1) % n := by
  rw [add_mod_of_lt h (by omega)]
  unfold advance
  split <;> split <;> omega

theorem advance_lt {n i : ℕ} (h : i < n) : advance n i < n := by
  unfold advance
  split <;> omega

/-- Go back by one cell, from the first cell to the last. -/
def retreat (n i : ℕ) : ℕ := if i = 0 then n - 1 else i - 1

theorem retreat_lt {n i : ℕ} (h : i < n) : retreat n i < n := by
  unfold retreat
  split <;> omega

theorem advance_retreat {n i : ℕ} (h : i < n) : advance n (retreat n i) = i := by
  unfold retreat advance
  split <;> split <;> omega

/-- Advancing the head shifts every later offset by one. -/
theorem advance_add_mod {n h : ℕ} (i : ℕ) (hh : h < n) :
    (advance n h + i) % n = (h + (i + 1)) % n := by
  rw [advance_eq_mod hh, Nat.mod_add_mod, Nat.add_assoc, Nat.add_comm 1 i]

/-- Different offsets from one head are different cells. -/
theorem offset_inj {n h i j : ℕ} (hh : h < n) (hi : i < n) (hj : j < n)
    (e : (h + i) % n = (h + j) % n) : i = j := by
  rw [add_mod_of_lt hh hi.le, add_mod_of_lt hh hj.le] at e
  split at e <;> split at e <;> omega

namespace Ring

/-- Write at the tail, advance it and count the item. -/
def put (r : Ring α n) (a : α) : Ring α n :=
  { r with
    buffer := r.buffer.setIfInBounds r.tail a
    tail := advance n r.tail
    count := r.count + 1 }

/-- Read at the head, advance it and discount the item. -/
def take (r : Ring α n) : Option α × Ring α n :=
  (r.buffer[r.head]?, { r with head := advance n r.head, count := r.count - 1 })

/-- The ring holds the items `l`, oldest at the head. -/
structure Holds (r : Ring α n) (l : List α) : Prop where
  bound : l.length ≤ n
  count : r.count = l.length
  head : r.head < n
  tail : r.tail = (r.head + r.count) % n
  cells : ∀ i (h : i < l.length), r.buffer[(r.head + i) % n]? = some l[i]

/-- A cleared ring holds nothing. -/
theorem holds_nil (h : 0 < n) (b : Vector α n) : Holds ⟨b, 0, 0, 0⟩ [] where
  bound := Nat.zero_le n
  count := rfl
  head := h
  tail := by simp
  cells := fun i h => absurd h (Nat.not_lt_zero i)

/-- The tail of a ring that is not full is the first free cell. -/
theorem Holds.tail_lt {r : Ring α n} {l : List α} (h : Holds r l) : r.tail < n := by
  rw [h.tail]
  exact Nat.mod_lt _ (lt_of_le_of_lt (Nat.zero_le _) h.head)

theorem holds_put {r : Ring α n} {l : List α} (h : Holds r l) (a : α) (hl : l.length < n) :
    Holds (r.put a) (l ++ [a]) where
  bound := by simpa using hl
  count := by simp [put, h.count]
  head := h.head
  tail := by
    show advance n r.tail = (r.head + (r.count + 1)) % n
    rw [advance_eq_mod h.tail_lt, h.tail, Nat.mod_add_mod, Nat.add_assoc]
  cells := by
    intro i hi
    rw [List.length_append, List.length_singleton] at hi
    have htail : r.tail = (r.head + l.length) % n := by rw [h.tail, h.count]
    show (r.buffer.setIfInBounds r.tail a)[(r.head + i) % n]? = _
    rw [Vector.getElem?_setIfInBounds]
    rcases Nat.lt_or_ge i l.length with hlt | hge
    · -- an old cell: the tail is another one
      have hne : r.tail ≠ (r.head + i) % n := by
        intro e
        have := offset_inj h.head hl (by omega) (htail.symm.trans e)
        omega
      rw [if_neg hne, h.cells i hlt, List.getElem_append_left hlt]
    · obtain rfl : i = l.length := by omega
      rw [if_pos htail, if_pos h.tail_lt]
      simp

theorem holds_take {r : Ring α n} {a : α} {l : List α} (h : Holds r (a :: l)) :
    r.take.1 = some a ∧ Holds r.take.2 l := by
  have hb := h.bound
  have hc := h.count
  rw [List.length_cons] at hb hc
  refine ⟨?_, by omega, by simp [take, hc], advance_lt h.head, ?_, ?_⟩
  · have := h.cells 0 (by simp)
    rwa [Nat.add_zero, Nat.mod_eq_of_lt h.head] at this
  · show r.tail = (advance n r.head + (r.count - 1)) % n
    rw [h.tail, advance_add_mod _ h.head]
    congr 2
    omega
  · intro i hi
    show r.buffer[(advance n r.head + i) % n]? = _
    rw [advance_add_mod _ h.head, h.cells (i + 1) (by simpa using hi)]
    rfl

end Ring

end PeripheralTester.Lib
