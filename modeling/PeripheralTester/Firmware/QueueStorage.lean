import PeripheralTester.Firmware.Pipeline
import PeripheralTester.Lib.Memory

/-! # The storage of a kernel queue

What `queue.c` does to a queue inside one critical section: `prvCopyDataToQueue` at either end,
`prvCopyDataFromQueue`, and what `xQueueGenericSend`, `xQueueReceive`, `xQueuePeek` and
`xQueueGenericReset` make of them.  The items are bytes in a row of cells, and four pointers say
where the next one goes and where the last one came from.

Lengths, sizes and pointers are 32 bits wide, so a product or a pointer that leaves the address
space wraps.  `Queue.Fits` says that the storage area lies inside it, and then nothing wraps.

`Queue.Holds` says which items these are.  Every call keeps it (`Queue.serve_holds`) and answers
what the list of the items answers, so a history of calls cannot be told from one of lists
(`queue_stores`), and no byte outside the storage area changes.  `fifo_stored` is what the pipeline
takes for granted when it says `Fifo`. -/

namespace PeripheralTester.Firmware

open Lib Memory

/-! ### The queue -/

/-- `Queue_t`, as far as the storage goes. -/
structure Queue where
  pcHead : ℤ
  pcWriteTo : ℤ
  /-- `u.xQueue`. -/
  pcTail : ℤ
  pcReadFrom : ℤ
  uxMessagesWaiting : ℕ
  uxLength : ℕ
  uxItemSize : ℕ

/-- `xPosition`. -/
inductive CopyPosition where
  | sendToBack
  | sendToFront
  | overwrite
deriving DecidableEq, Repr

namespace Queue

/-- A value of `UBaseType_t`. -/
def word (n : ℕ) : ℕ := n % 2 ^ 32

/-- A value of a pointer. -/
def address (a : ℤ) : ℤ := a % 2 ^ 32

/-- `xQueueGenericReset`. -/
def xQueueGenericReset (q : Queue) : Queue :=
  { q with
    pcTail := address (q.pcHead + word (q.uxLength * q.uxItemSize))
    uxMessagesWaiting := 0
    pcWriteTo := q.pcHead
    pcReadFrom := address (q.pcHead + word ((q.uxLength - 1) * q.uxItemSize)) }

/-- `prvInitialiseNewQueue`: the storage area begins at `storage`, or `pcHead` is any address if
the items have no bytes. -/
def prvInitialiseNewQueue (length itemSize : ℕ) (storage : ℤ) : Queue :=
  xQueueGenericReset ⟨storage, storage, storage, storage, 0, length, itemSize⟩

/-- `prvCopyDataToQueue` of a queue that is no mutex. -/
def prvCopyDataToQueue (q : Queue) (m : Memory) (item : List UInt8) (position : CopyPosition) :
    Queue × Memory :=
  if q.uxItemSize = 0 then ({ q with uxMessagesWaiting := word (q.uxMessagesWaiting + 1) }, m)
  else if position = .sendToBack then
    let writeTo := address (q.pcWriteTo + q.uxItemSize)
    ({ q with
        pcWriteTo := if writeTo ≥ q.pcTail then q.pcHead else writeTo
        uxMessagesWaiting := word (q.uxMessagesWaiting + 1) }, m.store q.pcWriteTo item)
  else
    let readFrom := address (q.pcReadFrom - q.uxItemSize)
    let messagesWaiting :=
      if position = .overwrite ∧ q.uxMessagesWaiting > 0 then q.uxMessagesWaiting - 1
      else q.uxMessagesWaiting
    ({ q with
        pcReadFrom := if readFrom < q.pcHead then address (q.pcTail - q.uxItemSize) else readFrom
        uxMessagesWaiting := word (messagesWaiting + 1) }, m.store q.pcReadFrom item)

/-- `prvCopyDataFromQueue`, with what it copies to the buffer. -/
def prvCopyDataFromQueue (q : Queue) (m : Memory) : List UInt8 × Queue :=
  if q.uxItemSize = 0 then ([], q)
  else
    let next := address (q.pcReadFrom + q.uxItemSize)
    let readFrom := if next ≥ q.pcTail then q.pcHead else next
    (m.load readFrom q.uxItemSize, { q with pcReadFrom := readFrom })

/-- A call, up to where it would block. -/
inductive Call (α : Type) where
  | send (item : α) (position : CopyPosition)
  | receive
  | peek
  | reset

/-- What it returns; a `none` is `errQUEUE_EMPTY`. -/
inductive Return (α : Type) where
  | sent (pass : Bool)
  | received (item : Option α)
  | done
deriving DecidableEq, Repr

/-- The first critical section of `xQueueGenericSend`, `xQueueReceive` and `xQueuePeek`, and
`xQueueGenericReset`. -/
def serve (q : Queue) (m : Memory) : Call (List UInt8) → Return (List UInt8) × Queue × Memory
  | .send item position =>
      if q.uxMessagesWaiting < q.uxLength ∨ position = .overwrite then
        (.sent true, q.prvCopyDataToQueue m item position)
      else (.sent false, q, m)
  | .receive =>
      if q.uxMessagesWaiting > 0 then
        let (item, q') := q.prvCopyDataFromQueue m
        (.received (some item), { q' with uxMessagesWaiting := q.uxMessagesWaiting - 1 }, m)
      else (.received none, q, m)
  | .peek =>
      if q.uxMessagesWaiting > 0 then
        let (item, q') := q.prvCopyDataFromQueue m
        -- the read position is put back
        (.received (some item), { q' with pcReadFrom := q.pcReadFrom }, m)
      else (.received none, q, m)
  | .reset => (.done, q.xQueueGenericReset, m)

/-- A history of calls, oldest first. -/
def serveAll (q : Queue) (m : Memory) :
    List (Call (List UInt8)) → List (Return (List UInt8)) × Queue × Memory
  | [] => ([], q, m)
  | c :: cs =>
      let (answer, q', m') := q.serve m c
      let (answers, rest) := q'.serveAll m' cs
      (answer :: answers, rest)

/-! ### What a queue is for -/

section abstraction

variable {α : Type}

/-- The same calls on the list of the items, oldest first. -/
def Call.onList (length : ℕ) (l : List α) : Call α → Return α × List α
  | .send item .sendToBack =>
      if l.length < length then (.sent true, l ++ [item]) else (.sent false, l)
  | .send item .sendToFront =>
      if l.length < length then (.sent true, item :: l) else (.sent false, l)
  | .send item .overwrite => (.sent true, [item])
  | .receive => (.received l.head?, l.tail)
  | .peek => (.received l.head?, l)
  | .reset => (.done, [])

def Call.allOnList (length : ℕ) (l : List α) : List (Call α) → List (Return α) × List α
  | [] => ([], l)
  | c :: cs =>
      let (answer, l') := c.onList length l
      let (answers, rest) := allOnList length l' cs
      (answer :: answers, rest)

end abstraction

def Call.map {α β : Type} (f : α → β) : Call α → Call β
  | .send item position => .send (f item) position
  | .receive => .receive
  | .peek => .peek
  | .reset => .reset

def Return.map {α β : Type} (f : α → β) : Return α → Return β
  | .sent pass => .sent pass
  | .received item => .received (item.map f)
  | .done => .done

/-- What `configASSERT` and the types of the callers ask for: items of the size of the queue, and
an overwrite only of a queue of one item, which has bytes. -/
def Call.Lawful (q : Queue) : Call (List UInt8) → Prop
  | .send item position =>
      item.length = q.uxItemSize ∧
        (position = .overwrite → q.uxLength = 1 ∧ q.uxItemSize ≠ 0)
  | _ => True

/-! ### Which items a queue holds -/

/-- The address of a cell. -/
def cellAt (q : Queue) (i : ℕ) : ℤ := cell q.pcHead q.uxItemSize i

/-- The items are in the cells from the one after `pcReadFrom` to the one before `pcWriteTo`. -/
structure Stored (q : Queue) (m : Memory) (l : List (List UInt8)) (r : ℕ) : Prop where
  lt : r < q.uxLength
  readFrom : q.pcReadFrom = q.cellAt r
  writeTo : q.pcWriteTo = q.cellAt ((advance q.uxLength r + l.length) % q.uxLength)
  items : ∀ i (h : i < l.length),
    m.load (q.cellAt ((advance q.uxLength r + i) % q.uxLength)) q.uxItemSize = l[i]

/-- The storage area, and an item below it, lie in the address space. -/
structure Fits (pcHead : ℤ) (uxLength uxItemSize : ℕ) : Prop where
  length : uxLength < 2 ^ 32
  above : (uxItemSize : ℤ) ≤ pcHead
  below : cell pcHead uxItemSize uxLength < 2 ^ 32

structure Holds (q : Queue) (m : Memory) (l : List (List UInt8)) : Prop where
  fits : Fits q.pcHead q.uxLength q.uxItemSize
  tail : q.pcTail = q.cellAt q.uxLength
  count : q.uxMessagesWaiting = l.length
  bound : l.length ≤ q.uxLength
  stored : ∃ r, q.Stored m l r

variable {q : Queue} {m : Memory} {l : List (List UInt8)} {item : List UInt8}

theorem word_eq {n : ℕ} (h : n < 2 ^ 32) : word n = n := Nat.mod_eq_of_lt h

theorem Holds.word_count {n : ℕ} (h : q.Holds m l) (hn : n ≤ q.uxLength) : word n = n :=
  word_eq (hn.trans_lt h.fits.length)

theorem address_eq {a : ℤ} (h : 0 ≤ a) (h' : a < 2 ^ 32) : address a = a := Int.emod_eq_of_lt h h'

section

variable (hfits : Fits q.pcHead q.uxLength q.uxItemSize)
include hfits

/-- The cells of the storage area, and its end, have addresses. -/
theorem Fits.cellAt_le {i : ℕ} (h : i ≤ q.uxLength) :
    q.pcHead ≤ q.cellAt i ∧ q.cellAt i < 2 ^ 32 := by
  have hbegin : cell q.pcHead q.uxItemSize 0 ≤ q.cellAt i := cell_le (Nat.zero_le i)
  have hend : q.cellAt i ≤ cell q.pcHead q.uxItemSize q.uxLength := cell_le h
  rw [cell_zero] at hbegin
  exact ⟨hbegin, hend.trans_lt hfits.below⟩

theorem Fits.nonneg : 0 ≤ q.pcHead := (Int.natCast_nonneg _).trans hfits.above

theorem Fits.address_cellAt {i : ℕ} (h : i ≤ q.uxLength) : address (q.cellAt i) = q.cellAt i :=
  address_eq (hfits.nonneg.trans (hfits.cellAt_le h).1) (hfits.cellAt_le h).2

theorem Fits.address_word {i : ℕ} (h : i ≤ q.uxLength) :
    address (q.pcHead + word (i * q.uxItemSize)) = q.cellAt i := by
  have hnonneg := hfits.nonneg
  have hcell : q.cellAt i = q.pcHead + (i * q.uxItemSize : ℕ) := rfl
  have hbelow := (hfits.cellAt_le h).2
  rw [hcell] at hbelow
  rw [word_eq (by omega), ← hcell]
  exact hfits.address_cellAt h

/-- A reset queue holds nothing. -/
theorem holds_reset (m : Memory) (h : 0 < q.uxLength) : q.xQueueGenericReset.Holds m [] where
  fits := hfits
  tail := hfits.address_word le_rfl
  count := rfl
  bound := Nat.zero_le _
  stored := by
    have hwrap : advance q.uxLength (q.uxLength - 1) = 0 := if_pos (by omega)
    refine ⟨q.uxLength - 1, Nat.sub_lt h Nat.one_pos, hfits.address_word (Nat.sub_le _ _), ?_,
      fun i hi => by cases hi⟩
    show q.pcHead = cell _ _ ((advance q.uxLength (q.uxLength - 1) + 0) % q.uxLength)
    rw [hwrap, Nat.add_zero, Nat.zero_mod, cell_zero]
    rfl

/-- The pointer after a cell, around the end. -/
theorem wrap_next {i : ℕ} (htail : q.pcTail = q.cellAt q.uxLength) (hsize : q.uxItemSize ≠ 0)
    (h : i < q.uxLength) :
    (if address (q.cellAt i + q.uxItemSize) ≥ q.pcTail then q.pcHead
      else address (q.cellAt i + q.uxItemSize)) = q.cellAt (advance q.uxLength i) := by
  have hnext : q.cellAt i + q.uxItemSize = q.cellAt (i + 1) := cell_succ.symm
  have haddress : address (q.cellAt (i + 1)) = q.cellAt (i + 1) := hfits.address_cellAt h
  rw [hnext, haddress, htail, advance]
  rcases Nat.lt_or_ge (i + 1) q.uxLength with hlt | hge
  · have hbefore : q.cellAt (i + 1) < q.cellAt q.uxLength := cell_lt hsize hlt
    rw [if_neg (not_le.mpr hbefore), if_neg (not_le.mpr hlt)]
  · have hend : i + 1 = q.uxLength := by omega
    rw [hend, if_pos le_rfl, if_pos le_rfl, cellAt, cell_zero]

/-- The pointer before a cell, around the end. -/
theorem wrap_back {i : ℕ} (htail : q.pcTail = q.cellAt q.uxLength) (hsize : q.uxItemSize ≠ 0)
    (h : i < q.uxLength) :
    (if address (q.cellAt i - q.uxItemSize) < q.pcHead then address (q.pcTail - q.uxItemSize)
      else address (q.cellAt i - q.uxItemSize)) = q.cellAt (retreat q.uxLength i) := by
  have hback : ∀ k, q.cellAt (k + 1) - q.uxItemSize = q.cellAt k := fun k => by
    rw [cellAt, cell_succ, add_sub_cancel_right]
    rfl
  have habove := hfits.above
  unfold retreat
  cases i with
  | zero =>
      have hlast := hback (q.uxLength - 1)
      rw [Nat.sub_add_cancel h] at hlast
      have hhead : q.cellAt 0 = q.pcHead := cell_zero
      have hbound := (hfits.cellAt_le (Nat.zero_le q.uxLength)).2
      have hbelow : address (q.cellAt 0 - q.uxItemSize) < q.pcHead := by
        rw [hhead] at hbound ⊢
        rw [address_eq (by omega) (by omega)]
        omega
      rw [if_pos hbelow, if_pos rfl, htail, hlast, hfits.address_cellAt (Nat.sub_le _ _)]
  | succ i =>
      have hle : i ≤ q.uxLength := by omega
      rw [hback, hfits.address_cellAt hle, if_neg (not_lt.mpr (hfits.cellAt_le hle).1),
        if_neg (Nat.succ_ne_zero i), Nat.add_sub_cancel]

end

/-- Items without bytes have one address. -/
theorem cellAt_of_size {i j : ℕ} (hsize : q.uxItemSize = 0) : q.cellAt i = q.cellAt j := by
  simp only [cellAt, cell, hsize, Nat.mul_zero]

theorem Stored.place_lt {r : ℕ} (h : q.Stored m l r) (i : ℕ) :
    (advance q.uxLength r + i) % q.uxLength < q.uxLength :=
  Nat.mod_lt _ (lt_of_le_of_lt (Nat.zero_le r) h.lt)

/-- An item at the back. -/
theorem Stored.pushBack {r k : ℕ} {p : ℤ} (h : q.Stored m l r) (hl : l.length < q.uxLength)
    (hitem : item.length = q.uxItemSize)
    (hp : p = q.cellAt
      (advance q.uxLength ((advance q.uxLength r + l.length) % q.uxLength))) :
    Stored { q with pcWriteTo := p, uxMessagesWaiting := k } (m.store q.pcWriteTo item)
      (l ++ [item]) r where
  lt := h.lt
  readFrom := h.readFrom
  writeTo := by
    show p = q.cellAt ((advance q.uxLength r + (l ++ [item]).length) % q.uxLength)
    rw [hp, advance_eq_mod (h.place_lt _), Nat.mod_add_mod, List.length_append,
      List.length_singleton, Nat.add_assoc]
  items := by
    intro i hi
    rw [List.length_append, List.length_singleton] at hi
    show (m.store q.pcWriteTo item).load (cell q.pcHead q.uxItemSize _) q.uxItemSize = _
    rw [h.writeTo, cellAt, load_store_cell hitem]
    rcases Nat.lt_or_ge i l.length with hlt | hge
    · -- an old item is in another cell
      have hne : (advance q.uxLength r + l.length) % q.uxLength ≠
          (advance q.uxLength r + i) % q.uxLength := by
        intro heq
        have := offset_inj (advance_lt h.lt) hl (by omega) heq
        omega
      rw [if_neg hne, List.getElem_append_left hlt]
      exact h.items i hlt
    · obtain rfl : i = l.length := by omega
      rw [if_pos rfl, List.getElem_append_right le_rfl]
      simp

/-- An item at the front goes into the cell that was read last. -/
theorem Stored.pushFront {r k : ℕ} {p : ℤ} (h : q.Stored m l r) (hl : l.length < q.uxLength)
    (hitem : item.length = q.uxItemSize) (hp : p = q.cellAt (retreat q.uxLength r)) :
    Stored { q with pcReadFrom := p, uxMessagesWaiting := k } (m.store q.pcReadFrom item)
      (item :: l) (retreat q.uxLength r) where
  lt := retreat_lt h.lt
  readFrom := hp
  writeTo := by
    show q.pcWriteTo = q.cellAt ((advance q.uxLength (retreat q.uxLength r) +
      (item :: l).length) % q.uxLength)
    rw [h.writeTo, advance_retreat h.lt, List.length_cons, advance_add_mod _ h.lt]
  items := by
    intro i hi
    rw [List.length_cons] at hi
    show (m.store q.pcReadFrom item).load (cell q.pcHead q.uxItemSize
      ((advance q.uxLength (retreat q.uxLength r) + i) % q.uxLength)) q.uxItemSize = _
    rw [h.readFrom, cellAt, load_store_cell hitem, advance_retreat h.lt]
    cases i with
    | zero =>
        rw [Nat.add_zero, Nat.mod_eq_of_lt h.lt, if_pos rfl]
        rfl
    | succ i =>
        have hne : r ≠ (r + (i + 1)) % q.uxLength := by
          intro heq
          have hzero : (r + 0) % q.uxLength = (r + (i + 1)) % q.uxLength := by
            rwa [Nat.add_zero, Nat.mod_eq_of_lt h.lt]
          have := offset_inj h.lt (by omega) (by omega) hzero
          omega
        rw [if_neg hne, ← advance_add_mod _ h.lt]
        exact h.items i (by omega)

/-- The oldest item is in the cell after the one read last. -/
theorem Stored.front {r : ℕ} {a : List UInt8} (h : q.Stored m (a :: l) r) :
    m.load (q.cellAt (advance q.uxLength r)) q.uxItemSize = a := by
  have hfirst := h.items 0 (Nat.zero_lt_succ _)
  rwa [Nat.add_zero, Nat.mod_eq_of_lt (advance_lt h.lt)] at hfirst

/-- It is taken away. -/
theorem Stored.pop {r k : ℕ} {p : ℤ} {a : List UInt8} (h : q.Stored m (a :: l) r)
    (hp : p = q.cellAt (advance q.uxLength r)) :
    Stored { q with pcReadFrom := p, uxMessagesWaiting := k } m l (advance q.uxLength r) where
  lt := advance_lt h.lt
  readFrom := hp
  writeTo := by
    show q.pcWriteTo = q.cellAt _
    rw [h.writeTo, List.length_cons, advance_add_mod _ (advance_lt h.lt)]
  items := by
    intro i hi
    show m.load (q.cellAt ((advance q.uxLength (advance q.uxLength r) + i) % q.uxLength)) _ = _
    rw [advance_add_mod _ (advance_lt h.lt)]
    exact h.items (i + 1) (Nat.succ_lt_succ hi)

/-! ### The functions -/

/-- What a call leaves alone: where the queue is, and all memory outside it. -/
structure Kept (q q' : Queue) (m m' : Memory) : Prop where
  pcHead : q'.pcHead = q.pcHead
  uxLength : q'.uxLength = q.uxLength
  uxItemSize : q'.uxItemSize = q.uxItemSize
  memory : ∀ x, x < q.pcHead ∨ q.cellAt q.uxLength ≤ x → m' x = m x

/-- A store to a cell of the queue. -/
theorem store_outside {i : ℕ} (hi : i < q.uxLength) (hitem : item.length = q.uxItemSize) {x : ℤ}
    (hx : x < q.pcHead ∨ q.cellAt q.uxLength ≤ x) : m.store (q.cellAt i) item x = m x := by
  have hbegin : cell q.pcHead q.uxItemSize 0 ≤ q.cellAt i := cell_le (Nat.zero_le i)
  have hend : q.cellAt i + q.uxItemSize ≤ q.cellAt q.uxLength := cell_add_le hi
  rw [cell_zero] at hbegin
  exact store_of_not_mem (by omega)

theorem store_nil (a : ℤ) : m.store a [] = m := by
  funext x
  exact store_of_not_mem (by simp only [List.length_nil]; omega)

section functions

variable (h : q.Holds m l)

include h

theorem sendToBack_holds (hl : l.length < q.uxLength) (hitem : item.length = q.uxItemSize) :
    (q.prvCopyDataToQueue m item .sendToBack).1.Holds
      (q.prvCopyDataToQueue m item .sendToBack).2 (l ++ [item]) ∧
    Kept q (q.prvCopyDataToQueue m item .sendToBack).1 m
      (q.prvCopyDataToQueue m item .sendToBack).2 := by
  obtain ⟨r, hr⟩ := h.stored
  have hbound : (l ++ [item]).length ≤ q.uxLength := by
    rw [List.length_append, List.length_singleton]
    exact hl
  have hcount : word (q.uxMessagesWaiting + 1) = (l ++ [item]).length := by
    rw [h.count, h.word_count hl, List.length_append, List.length_singleton]
  unfold prvCopyDataToQueue
  split
  · rename_i hsize
    obtain rfl := List.length_eq_zero_iff.mp (hitem.trans hsize)
    have hpush := hr.pushBack (k := word (q.uxMessagesWaiting + 1)) (p := q.pcWriteTo) hl
      hitem (hr.writeTo.trans (cellAt_of_size hsize))
    rw [store_nil] at hpush
    exact ⟨⟨h.fits, h.tail, hcount, hbound, r, hpush⟩, rfl, rfl, rfl, fun _ _ => rfl⟩
  · rename_i hsize
    rw [if_pos rfl]
    have hpush := hr.pushBack (k := word (q.uxMessagesWaiting + 1)) hl hitem
      (hr.writeTo ▸ wrap_next h.fits h.tail hsize (hr.place_lt _))
    refine ⟨⟨h.fits, h.tail, hcount, hbound, r, hpush⟩, rfl, rfl, rfl, fun x hx => ?_⟩
    show m.store q.pcWriteTo item x = m x
    rw [hr.writeTo, store_outside (hr.place_lt _) hitem hx]

/-- At the front of what stays. -/
theorem copyFront_holds {position : CopyPosition} (hposition : position ≠ .sendToBack)
    {kept : List (List UInt8)} {r : ℕ} (hr : q.Stored m kept r) (hkept : kept.length < q.uxLength)
    (hitem : item.length = q.uxItemSize)
    (hcount : (if position = .overwrite ∧ q.uxMessagesWaiting > 0 then q.uxMessagesWaiting - 1
      else q.uxMessagesWaiting) = kept.length)
    (hsize : q.uxItemSize = 0 → q.uxMessagesWaiting = kept.length) :
    (q.prvCopyDataToQueue m item position).1.Holds
      (q.prvCopyDataToQueue m item position).2 (item :: kept) ∧
    Kept q (q.prvCopyDataToQueue m item position).1 m
      (q.prvCopyDataToQueue m item position).2 := by
  have hbound : (item :: kept).length ≤ q.uxLength := hkept
  have hword : word (kept.length + 1) = (item :: kept).length := h.word_count hbound
  unfold prvCopyDataToQueue
  split
  · rename_i hzero
    obtain rfl := List.length_eq_zero_iff.mp (hitem.trans hzero)
    have hpush := hr.pushFront (k := word (q.uxMessagesWaiting + 1)) (p := q.pcReadFrom) hkept
      hitem (hr.readFrom.trans (cellAt_of_size hzero))
    rw [store_nil] at hpush
    refine ⟨⟨h.fits, h.tail, ?_, hbound, _, hpush⟩, rfl, rfl, rfl, fun _ _ => rfl⟩
    show word (q.uxMessagesWaiting + 1) = _
    rw [hsize hzero, hword]
  · rename_i hzero
    simp only [hcount]
    have hpush := hr.pushFront (k := word (kept.length + 1)) hkept hitem
      (hr.readFrom ▸ wrap_back h.fits h.tail hzero hr.lt)
    refine ⟨⟨h.fits, h.tail, hword, hbound, _, hpush⟩, rfl, rfl, rfl, fun x hx => ?_⟩
    show m.store q.pcReadFrom item x = m x
    rw [hr.readFrom, store_outside hr.lt hitem hx]

theorem sendToFront_holds (hl : l.length < q.uxLength) (hitem : item.length = q.uxItemSize) :
    (q.prvCopyDataToQueue m item .sendToFront).1.Holds
      (q.prvCopyDataToQueue m item .sendToFront).2 (item :: l) ∧
    Kept q (q.prvCopyDataToQueue m item .sendToFront).1 m
      (q.prvCopyDataToQueue m item .sendToFront).2 := by
  obtain ⟨r, hr⟩ := h.stored
  exact copyFront_holds h (by decide) hr hl hitem (by simpa using h.count) fun _ => h.count

/-- A queue of one item has one cell, whatever it holds. -/
theorem overwrite_holds (hone : q.uxLength = 1) (hsize : q.uxItemSize ≠ 0)
    (hitem : item.length = q.uxItemSize) :
    (q.prvCopyDataToQueue m item .overwrite).1.Holds
      (q.prvCopyDataToQueue m item .overwrite).2 [item] ∧
    Kept q (q.prvCopyDataToQueue m item .overwrite).1 m
      (q.prvCopyDataToQueue m item .overwrite).2 := by
  obtain ⟨r, hr⟩ := h.stored
  have hwrite : q.pcWriteTo = q.cellAt ((advance q.uxLength r + 0) % q.uxLength) := by
    rw [hr.writeTo, hone, Nat.mod_one, Nat.mod_one]
  have hempty : q.Stored m [] r := ⟨hr.lt, hr.readFrom, hwrite, fun i hi => by cases hi⟩
  have hbound := h.bound
  rw [hone, ← h.count] at hbound
  refine copyFront_holds h (by decide) hempty (by rw [hone]; exact Nat.one_pos) hitem ?_
    fun hzero => absurd hzero hsize
  simp only [List.length_nil, true_and]
  split <;> omega

/-- The item that is copied out is the oldest, and one step of the read position takes it away. -/
theorem copyFrom_holds {a : List UInt8} {rest : List (List UInt8)} (hl : l = a :: rest) :
    (q.prvCopyDataFromQueue m).1 = a ∧
    Holds { (q.prvCopyDataFromQueue m).2 with uxMessagesWaiting := q.uxMessagesWaiting - 1 } m
      rest ∧
    ({ (q.prvCopyDataFromQueue m).2 with pcReadFrom := q.pcReadFrom } : Queue) = q ∧
    Kept q (q.prvCopyDataFromQueue m).2 m m := by
  subst hl
  obtain ⟨r, hr⟩ := h.stored
  have hcount : q.uxMessagesWaiting - 1 = rest.length := by
    rw [h.count]
    rfl
  have hbound : rest.length ≤ q.uxLength := (Nat.le_succ _).trans h.bound
  have hfront := hr.front
  unfold prvCopyDataFromQueue
  split
  · rename_i hsize
    have hpop := hr.pop (k := q.uxMessagesWaiting - 1) (p := q.pcReadFrom)
      (hr.readFrom.trans (cellAt_of_size hsize))
    refine ⟨?_, ⟨h.fits, h.tail, hcount, hbound, _, hpop⟩, rfl, rfl, rfl, rfl, fun _ _ => rfl⟩
    rw [← hfront, hsize]
    rfl
  · rename_i hsize
    have hnext : _ = q.cellAt (advance q.uxLength r) :=
      hr.readFrom ▸ wrap_next h.fits h.tail hsize hr.lt
    have hpop := hr.pop (k := q.uxMessagesWaiting - 1) hnext
    refine ⟨?_, ⟨h.fits, h.tail, hcount, hbound, _, hpop⟩, rfl, rfl, rfl, rfl, fun _ _ => rfl⟩
    simp only [hnext]
    exact hfront

/-! ### Calls -/

/-- **A call** answers what the list of the items answers, and keeps to the storage area. -/
theorem serve_holds {c : Call (List UInt8)} (hc : c.Lawful q) :
    (q.serve m c).1 = (c.onList q.uxLength l).1 ∧
      (q.serve m c).2.1.Holds (q.serve m c).2.2 (c.onList q.uxLength l).2 ∧
        Kept q (q.serve m c).2.1 m (q.serve m c).2.2 := by
  have hsame : Kept q q m m := ⟨rfl, rfl, rfl, fun _ _ => rfl⟩
  have hcount := h.count
  cases c with
  | send item position =>
      obtain ⟨hitem, hover⟩ := hc
      cases position with
      | overwrite =>
          obtain ⟨hone, hsize⟩ := hover rfl
          have hserve : q.serve m (.send item .overwrite) =
            (.sent true, q.prvCopyDataToQueue m item .overwrite) := if_pos (.inr rfl)
          rw [hserve]
          exact ⟨rfl, overwrite_holds h hone hsize hitem⟩
      | sendToBack | sendToFront =>
          simp only [serve, reduceCtorEq, or_false, Call.onList, hcount]
          split
          · rename_i hlt
            first
            | exact ⟨rfl, sendToBack_holds h hlt hitem⟩
            | exact ⟨rfl, sendToFront_holds h hlt hitem⟩
          · exact ⟨rfl, h, hsame⟩
  | receive =>
      cases l with
      | nil =>
          have hserve : q.serve m .receive = (.received none, q, m) := if_neg (by rw [hcount]; simp)
          rw [hserve]
          exact ⟨rfl, h, hsame⟩
      | cons a rest =>
          obtain ⟨hitem, hrest, -, hkept⟩ := copyFrom_holds h rfl
          have hserve : q.serve m .receive = (.received (some (q.prvCopyDataFromQueue m).1),
              { (q.prvCopyDataFromQueue m).2 with
                uxMessagesWaiting := q.uxMessagesWaiting - 1 }, m) :=
            if_pos (by rw [hcount]; exact Nat.zero_lt_succ _)
          rw [hserve, hitem]
          exact ⟨rfl, hrest, hkept.pcHead, hkept.uxLength, hkept.uxItemSize, hkept.memory⟩
  | peek =>
      cases l with
      | nil =>
          have hserve : q.serve m .peek = (.received none, q, m) := if_neg (by rw [hcount]; simp)
          rw [hserve]
          exact ⟨rfl, h, hsame⟩
      | cons a rest =>
          obtain ⟨hitem, -, hback, -⟩ := copyFrom_holds h rfl
          have hserve : q.serve m .peek = (.received (some (q.prvCopyDataFromQueue m).1),
              { (q.prvCopyDataFromQueue m).2 with pcReadFrom := q.pcReadFrom }, m) :=
            if_pos (by rw [hcount]; exact Nat.zero_lt_succ _)
          rw [hserve, hitem, hback]
          exact ⟨rfl, h, hsame⟩
  | reset =>
      obtain ⟨r, hr⟩ := h.stored
      exact ⟨rfl, holds_reset h.fits m (lt_of_le_of_lt (Nat.zero_le r) hr.lt), rfl, rfl, rfl,
        fun _ _ => rfl⟩

end functions

/-! ### Histories -/

section histories

variable {α : Type} {encode : α → List UInt8}

/-- Items that are copied as bytes stay in their order. -/
theorem onList_map (n : ℕ) (l : List α) (c : Call α) :
    (c.map encode).onList n (l.map encode) =
      ((c.onList n l).1.map encode, (c.onList n l).2.map encode) := by
  cases c with
  | send item position =>
      cases position with
      | sendToBack | sendToFront =>
          simp only [Call.map, Call.onList, List.length_map]
          split <;> simp [Return.map]
      | overwrite => rfl
  | receive | peek => simp [Call.map, Call.onList, Return.map]
  | reset => rfl

/-- The callers ask for an overwrite only of a queue of one item, which has bytes. -/
def Call.Allowed (length itemSize : ℕ) : Call α → Prop
  | .send _ .overwrite => length = 1 ∧ itemSize ≠ 0
  | _ => True

theorem Call.Allowed.lawful {c : Call α} (hc : c.Allowed q.uxLength q.uxItemSize)
    (hencode : ∀ a, (encode a).length = q.uxItemSize) : (c.map encode).Lawful q := by
  cases c with
  | send item position =>
      refine ⟨hencode item, fun hover => ?_⟩
      subst hover
      exact hc
  | receive | peek | reset => trivial

theorem serveAll_holds {l : List α} (h : q.Holds m (l.map encode))
    (hencode : ∀ a, (encode a).length = q.uxItemSize) {cs : List (Call α)}
    (hcs : ∀ c ∈ cs, c.Allowed q.uxLength q.uxItemSize) :
    (q.serveAll m (cs.map (Call.map encode))).1 =
        (Call.allOnList q.uxLength l cs).1.map (Return.map encode) ∧
      (q.serveAll m (cs.map (Call.map encode))).2.1.Holds
        (q.serveAll m (cs.map (Call.map encode))).2.2
          ((Call.allOnList q.uxLength l cs).2.map encode) ∧
      Kept q (q.serveAll m (cs.map (Call.map encode))).2.1 m
        (q.serveAll m (cs.map (Call.map encode))).2.2 := by
  induction cs generalizing q m l with
  | nil => exact ⟨rfl, h, rfl, rfl, rfl, fun _ _ => rfl⟩
  | cons c cs ih =>
      rw [List.forall_mem_cons] at hcs
      obtain ⟨hanswer, hholds, hkept⟩ := serve_holds h (hcs.1.lawful hencode)
      rw [onList_map] at hanswer hholds
      have hrest := ih (q := (q.serve m (c.map encode)).2.1) (m := (q.serve m (c.map encode)).2.2)
        hholds (by rw [hkept.uxItemSize]; exact hencode)
        (by rw [hkept.uxLength, hkept.uxItemSize]; exact hcs.2)
      rw [hkept.uxLength] at hrest
      obtain ⟨hanswers, hholds', hkept'⟩ := hrest
      refine ⟨congrArg₂ List.cons hanswer hanswers, hholds', hkept'.pcHead.trans hkept.pcHead,
        hkept'.uxLength.trans hkept.uxLength, hkept'.uxItemSize.trans hkept.uxItemSize, ?_⟩
      intro x hx
      have houtside : x < (q.serve m (c.map encode)).2.1.pcHead ∨
          (q.serve m (c.map encode)).2.1.cellAt (q.serve m (c.map encode)).2.1.uxLength ≤ x := by
        rw [cellAt, hkept.pcHead, hkept.uxLength, hkept.uxItemSize]
        exact hx
      exact (hkept'.memory x houtside).trans (hkept.memory x hx)

/-- **A kernel queue stores its items**: over any history of sends to either end, overwrites,
receives, peeks and resets, a new queue whose storage area fits in the address space, of any
length and of items of any size, answers what a bounded list of the items answers; and no byte
outside its storage area has changed. -/
theorem queue_stores (encode : α → List UInt8) {length itemSize : ℕ} (hlength : 0 < length)
    (hencode : ∀ a, (encode a).length = itemSize) {storage : ℤ}
    (hfits : Fits storage length itemSize) (m : Memory) (cs : List (Call α))
    (hcs : ∀ c ∈ cs, c.Allowed length itemSize) :
    ((prvInitialiseNewQueue length itemSize storage).serveAll m (cs.map (Call.map encode))).1 =
        (Call.allOnList length [] cs).1.map (Return.map encode) ∧
      ∀ x : ℤ, x < storage ∨ storage + (length * itemSize : ℕ) ≤ x →
        ((prvInitialiseNewQueue length itemSize storage).serveAll m
          (cs.map (Call.map encode))).2.2 x = m x := by
  have hnew : (prvInitialiseNewQueue length itemSize storage).Holds m (([] : List α).map encode) :=
    holds_reset (q := ⟨storage, storage, storage, storage, 0, length, itemSize⟩) hfits m hlength
  obtain ⟨hanswers, -, hkept⟩ := serveAll_holds hnew hencode hcs
  exact ⟨hanswers, hkept.memory⟩

/-- A command to copy. -/
def copiedCommand : Command := ⟨7, 0, 1, 0, .replicate 255 0⟩

theorem queue_stores_command :
    ((prvInitialiseNewQueue appQueueLength Command.size 0x20000200).serveAll (fun _ => 0)
      ([.send copiedCommand .sendToBack, .peek, .receive, .receive].map
        (Call.map Command.encode))).1 =
      [.sent true, .received (some copiedCommand.encode), .received (some copiedCommand.encode),
        .received none] := by
  refine (queue_stores Command.encode (by decide) Command.encode_length
    ⟨by decide, by decide, by decide⟩ _ _ ?_).1
  simp [Call.Allowed]

/-- **The queues of the pipeline**: what a `Fifo` of items stands for is a kernel queue that holds
the bytes of its items, and it is sent to and received from as `Fifo.push` and `Fifo.pop` say. -/
theorem fifo_stored {n : ℕ} {f : Fifo α n} (h : q.Holds m (f.items.map encode))
    (hlength : q.uxLength = n) (hencode : ∀ a, (encode a).length = q.uxItemSize) :
    (∀ a, match f.push a with
      | some f' => (q.serve m (.send (encode a) .sendToBack)).1 = .sent true ∧
          (q.serve m (.send (encode a) .sendToBack)).2.1.Holds
            (q.serve m (.send (encode a) .sendToBack)).2.2 (f'.items.map encode)
      | none => q.serve m (.send (encode a) .sendToBack) = (.sent false, q, m)) ∧
    match f.pop with
      | some (a, f') => (q.serve m .receive).1 = .received (some (encode a)) ∧
          (q.serve m .receive).2.1.Holds (q.serve m .receive).2.2 (f'.items.map encode)
      | none => q.serve m .receive = (.received none, q, m) := by
  subst hlength
  have hcount : q.uxMessagesWaiting = f.items.length := by rw [h.count, List.length_map]
  constructor
  · intro a
    have hserve := serve_holds h (c := .send (encode a) .sendToBack) ⟨hencode a, nofun⟩
    rw [show Call.send (encode a) .sendToBack = (Call.send a .sendToBack).map encode from rfl,
      onList_map] at hserve
    split
    · rename_i f' hpush
      obtain ⟨hlt, hitems⟩ := Fifo.push_eq_some_iff.mp hpush
      simp only [Call.onList, if_pos hlt, ← hitems] at hserve
      exact ⟨hserve.1, hserve.2.1⟩
    · rename_i hfull
      have hlt : ¬ q.uxMessagesWaiting < q.uxLength := by
        rw [hcount, Fifo.push_eq_none_iff.mp hfull]
        exact lt_irrefl _
      exact if_neg (by simp [hlt])
  · have hserve := serve_holds h (c := .receive) trivial
    rw [show Call.receive = (Call.receive : Call α).map encode from rfl, onList_map] at hserve
    split
    · rename_i a f' hpop
      simp only [Call.onList, Fifo.pop_eq_some_iff.mp hpop] at hserve
      exact ⟨hserve.1, hserve.2.1⟩
    · rename_i hempty
      exact if_neg (by rw [hcount, Fifo.pop_eq_none_iff.mp hempty]; simp)

end histories

end Queue

end PeripheralTester.Firmware
