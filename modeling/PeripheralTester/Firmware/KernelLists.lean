import Mathlib.Data.List.TakeWhile
import PeripheralTester.Lib.LinkedRing
import PeripheralTester.Firmware.QueueReceive

/-! # The lists of the kernel

`list.c` on its pointers.  Every list of the kernel (ready tasks, delayed tasks, the tasks that wait
for a queue) is a ring of items closed by `xListEnd`; an item knows the list it is in, and `pxIndex`
goes round a list of ready tasks so that tasks of one priority take turns.

`ListSpec` is what the lists are for: sequences of items, of which at most one is marked as the
current one.  `lists_refine` says that the calls of the kernel, on any number of lists and items and
in any order, answer on the pointers what they answer on the sequences. -/

namespace PeripheralTester.Firmware

open Lib

/-! ### The pointers -/

/-- An item of a list, or the `xListEnd` of one. -/
inductive ListNode (ι κ : Type) where
  | listEnd (l : ι)
  | item (k : κ)
deriving DecidableEq, Repr

/-- The fields of all lists and of all their items; an item is also its `pvOwner`. -/
structure ListMemory (ι κ : Type) where
  /-- `pxNext` and `pxPrevious`. -/
  links : Links (ListNode ι κ)
  xItemValue : ListNode ι κ → UInt32
  pxContainer : κ → Option ι
  pxIndex : ι → ListNode ι κ
  uxNumberOfItems : ι → ℕ

/-- What the kernel does with its lists. -/
inductive ListCall (ι κ : Type) where
  | initialise (l : ι)
  | initialiseItem (k : κ)
  | setValue (k : κ) (v : UInt32)
  | insertEnd (l : ι) (k : κ)
  | insert (l : ι) (k : κ)
  | remove (k : κ)
  | ownerOfNextEntry (l : ι)
  | ownerOfHeadEntry (l : ι)
  | valueOfHeadEntry (l : ι)
  | currentListLength (l : ι)
  | container (k : κ)
deriving DecidableEq, Repr

inductive ListAnswer (ι κ : Type) where
  | done
  | owner (k : κ)
  | value (v : UInt32)
  | length (n : ℕ)
  | container (l : Option ι)
deriving DecidableEq, Repr

variable {ι κ : Type}

/-- `pvOwner`, which `xListEnd` does not have. -/
def ListNode.owner : ListNode ι κ → Option κ
  | listEnd _ => none
  | item k => some k

namespace ListMemory

/-- The loop of `vListInsert`, for as many rounds as there may be. -/
def findPlace (m : ListMemory ι κ) (xValueOfInsertion : UInt32) :
    ℕ → ListNode ι κ → Option (ListNode ι κ)
  | 0, _ => none
  | n + 1, pxIterator =>
      if m.xItemValue (m.links.next pxIterator) ≤ xValueOfInsertion then
        m.findPlace xValueOfInsertion n (m.links.next pxIterator)
      else some pxIterator

variable [DecidableEq ι] [DecidableEq κ]

def vListInitialise (m : ListMemory ι κ) (l : ι) : ListMemory ι κ :=
  { m with
    pxIndex := Function.update m.pxIndex l (.listEnd l)
    xItemValue := Function.update m.xItemValue (.listEnd l) portMaxDelay
    links := m.links.link (.listEnd l) (.listEnd l)
    uxNumberOfItems := Function.update m.uxNumberOfItems l 0 }

def vListInitialiseItem (m : ListMemory ι κ) (k : κ) : ListMemory ι κ :=
  { m with pxContainer := Function.update m.pxContainer k none }

/-- `listSET_LIST_ITEM_VALUE`. -/
def setValue (m : ListMemory ι κ) (k : κ) (v : UInt32) : ListMemory ι κ :=
  { m with xItemValue := Function.update m.xItemValue (.item k) v }

def vListInsertEnd (m : ListMemory ι κ) (l : ι) (k : κ) : ListMemory ι κ :=
  { m with
    links := m.links.insertBefore (m.pxIndex l) (.item k)
    pxContainer := Function.update m.pxContainer k (some l)
    uxNumberOfItems := Function.update m.uxNumberOfItems l (m.uxNumberOfItems l + 1) }

/-- Behind what `vListInsert` puts an item. -/
def insertionPlace (m : ListMemory ι κ) (l : ι) (k : κ) : Option (ListNode ι κ) :=
  let xValueOfInsertion := m.xItemValue (.item k)
  if xValueOfInsertion = portMaxDelay then some (m.links.prev (.listEnd l))
  else m.findPlace xValueOfInsertion (m.uxNumberOfItems l + 1) (.listEnd l)

def vListInsert (m : ListMemory ι κ) (l : ι) (k : κ) : Option (ListMemory ι κ) :=
  (m.insertionPlace l k).map fun pxIterator =>
    { m with
      links := m.links.insertAfter pxIterator (.item k)
      pxContainer := Function.update m.pxContainer k (some l)
      uxNumberOfItems := Function.update m.uxNumberOfItems l (m.uxNumberOfItems l + 1) }

/-- `uxListRemove`, of an item that is in a list. -/
def uxListRemove (m : ListMemory ι κ) (k : κ) : Option (ListMemory ι κ × ℕ) := do
  let l ← m.pxContainer k
  let links := m.links.remove (.item k)
  return ({ m with
    links := links
    pxIndex :=
      if m.pxIndex l = .item k then Function.update m.pxIndex l (links.prev (.item k))
      else m.pxIndex
    pxContainer := Function.update m.pxContainer k none
    uxNumberOfItems := Function.update m.uxNumberOfItems l (m.uxNumberOfItems l - 1) },
    m.uxNumberOfItems l - 1)

/-- `listGET_OWNER_OF_NEXT_ENTRY`. -/
def ownerOfNextEntry (m : ListMemory ι κ) (l : ι) : Option (ListMemory ι κ × κ) := do
  let pxIndex := m.links.next (m.pxIndex l)
  let pxIndex := if pxIndex = .listEnd l then m.links.next pxIndex else pxIndex
  let owner ← pxIndex.owner
  return ({ m with pxIndex := Function.update m.pxIndex l pxIndex }, owner)

/-- A call; `none` is a loop that does not end, or a field that is not there. -/
def perform (m : ListMemory ι κ) : ListCall ι κ → Option (ListMemory ι κ × ListAnswer ι κ)
  | .initialise l => some (m.vListInitialise l, .done)
  | .initialiseItem k => some (m.vListInitialiseItem k, .done)
  | .setValue k v => some (m.setValue k v, .done)
  | .insertEnd l k => some (m.vListInsertEnd l k, .done)
  | .insert l k => (m.vListInsert l k).map fun m' => (m', .done)
  | .remove k => (m.uxListRemove k).map fun r => (r.1, .length r.2)
  | .ownerOfNextEntry l => (m.ownerOfNextEntry l).map fun r => (r.1, .owner r.2)
  | .ownerOfHeadEntry l =>
      (m.links.next (.listEnd l)).owner.map fun k => (m, .owner k)
  | .valueOfHeadEntry l => some (m, .value (m.xItemValue (m.links.next (.listEnd l))))
  | .currentListLength l => some (m, .length (m.uxNumberOfItems l))
  | .container k => some (m, .container (m.pxContainer k))

def performAll (m : ListMemory ι κ) :
    List (ListCall ι κ) → Option (List (ListAnswer ι κ) × ListMemory ι κ)
  | [] => some ([], m)
  | c :: cs => do
      let (m', answer) ← m.perform c
      let (answers, m'') ← m'.performAll cs
      return (answer :: answers, m'')

end ListMemory

/-! ### The sequences -/

/-- The items of a list, and the one that `pxIndex` is at. -/
structure Sequence (κ : Type) where
  items : List κ
  index : Option κ
deriving DecidableEq, Repr

namespace Sequence

variable [DecidableEq κ]

def before (q : Sequence κ) (k : κ) : List κ := q.items.takeWhile (· ≠ k)

def behind (q : Sequence κ) (k : κ) : List κ := (q.items.dropWhile (· ≠ k)).tail

/-- The last place that is reached from the current item. -/
def insertEnd (q : Sequence κ) (k : κ) : Sequence κ :=
  { q with
    items :=
      match q.index with
      | none => q.items ++ [k]
      | some i => q.before i ++ k :: i :: q.behind i }

def insert (value : κ → UInt32) (q : Sequence κ) (k : κ) : Sequence κ :=
  { q with items := insertBehind (fun k => (value k).toNat) k q.items }

/-- The one before a removed current item becomes the current one. -/
def remove (q : Sequence κ) (k : κ) : Sequence κ where
  items := q.before k ++ q.behind k
  index := if q.index = some k then (q.before k).getLast? else q.index

/-- Whose turn it is next. -/
def next (q : Sequence κ) : Option κ :=
  match q.index with
  | none => q.items.head?
  | some i => (q.behind i).head?.or q.items.head?

end Sequence

/-- The lists that have been initialised, where each initialised item is, and the values. -/
structure ListSpec (ι κ : Type) where
  lists : ι → Option (Sequence κ)
  container : κ → Option (Option ι)
  value : κ → UInt32

namespace ListSpec

variable [DecidableEq ι] [DecidableEq κ]

def setList (a : ListSpec ι κ) (l : ι) (q : Sequence κ) : ListSpec ι κ :=
  { a with lists := Function.update a.lists l (some q) }

def setContainer (a : ListSpec ι κ) (k : κ) (c : Option ι) : ListSpec ι κ :=
  { a with container := Function.update a.container k (some c) }

omit [DecidableEq κ] in
@[simp] theorem lists_setList (a : ListSpec ι κ) (l : ι) (q : Sequence κ) :
    (a.setList l q).lists = Function.update a.lists l (some q) := rfl

omit [DecidableEq κ] in
@[simp] theorem container_setList (a : ListSpec ι κ) (l : ι) (q : Sequence κ) :
    (a.setList l q).container = a.container := rfl

omit [DecidableEq ι] in
@[simp] theorem lists_setContainer (a : ListSpec ι κ) (k : κ) (c : Option ι) :
    (a.setContainer k c).lists = a.lists := rfl

omit [DecidableEq ι] in
@[simp] theorem container_setContainer (a : ListSpec ι κ) (k : κ) (c : Option ι) :
    (a.setContainer k c).container = Function.update a.container k (some c) := rfl

/-- A call; `none` is one that the kernel does not make: of a list or an item that has not been
initialised, of an item that is in a list already, or of an empty list. -/
def perform (a : ListSpec ι κ) : ListCall ι κ → Option (ListSpec ι κ × ListAnswer ι κ)
  | .initialise l =>
      match a.lists l with
      | some ⟨_ :: _, _⟩ => none
      | _ => some (a.setList l ⟨[], none⟩, .done)
  | .initialiseItem k =>
      match a.container k with
      | some (some _) => none
      | _ => some (a.setContainer k none, .done)
  | .setValue k v => some ({ a with value := Function.update a.value k v }, .done)
  | .insertEnd l k =>
      match a.lists l, a.container k with
      | some q, some none => some ((a.setList l (q.insertEnd k)).setContainer k (some l), .done)
      | _, _ => none
  | .insert l k =>
      match a.lists l, a.container k with
      | some q, some none =>
          some ((a.setList l (q.insert a.value k)).setContainer k (some l), .done)
      | _, _ => none
  | .remove k =>
      match a.container k with
      | some (some l) =>
          (a.lists l).map fun q =>
            ((a.setList l (q.remove k)).setContainer k none, .length (q.remove k).items.length)
      | _ => none
  | .ownerOfNextEntry l => do
      let q ← a.lists l
      let k ← q.next
      return (a.setList l { q with index := some k }, .owner k)
  | .ownerOfHeadEntry l => do
      let q ← a.lists l
      let k ← q.items.head?
      return (a, .owner k)
  | .valueOfHeadEntry l =>
      (a.lists l).map fun q => (a, .value ((q.items.head?.map a.value).getD portMaxDelay))
  | .currentListLength l => (a.lists l).map fun q => (a, .length q.items.length)
  | .container k => (a.container k).map fun c => (a, .container c)

def performAll (a : ListSpec ι κ) :
    List (ListCall ι κ) → Option (List (ListAnswer ι κ) × ListSpec ι κ)
  | [] => some ([], a)
  | c :: cs => do
      let (a', answer) ← a.perform c
      let (answers, a'') ← a'.performAll cs
      return (answer :: answers, a'')

end ListSpec

/-! ### What the pointers stand for -/

section Refinement

variable {m m' : ListMemory ι κ} {a a' : ListSpec ι κ} {l l' : ι}
  {k i : κ} {q q' : Sequence κ} {u v w : List κ}

open Links

theorem Sequence.before_behind [DecidableEq κ] (h : k ∈ q.items) :
    q.items = q.before k ++ k :: q.behind k := by
  rw [Sequence.before, Sequence.behind]
  generalize q.items = w at h
  induction w with
  | nil => cases h
  | cons x w ih =>
      by_cases hx : x = k
      · subst hx
        simp
      · have hmem : k ∈ w := (List.mem_cons.mp h).resolve_left (Ne.symm hx)
        simpa [hx] using ih hmem

theorem Sequence.mem_of_next [DecidableEq κ] (h : q.next = some k) : k ∈ q.items := by
  rw [Sequence.next] at h
  split at h
  · exact List.mem_of_mem_head? h
  · rcases Option.or_eq_some_iff.mp h with hbehind | ⟨-, hhead⟩
    · have hmem := List.mem_of_mem_tail (List.mem_of_mem_head? hbehind)
      exact (List.dropWhile_sublist _).subset hmem
    · exact List.mem_of_mem_head? hhead

/-- The elements of a ring are those of a sequence. -/
def nodes (w : List κ) : List (ListNode ι κ) := w.map .item

theorem mem_nodes {x : ListNode ι κ} : x ∈ (nodes w : List (ListNode ι κ)) ↔
    ∃ k ∈ w, ListNode.item k = x := List.mem_map

theorem nodes_append : (nodes (u ++ v) : List (ListNode ι κ)) = nodes u ++ nodes v :=
  List.map_append

theorem nodes_cons : (nodes (k :: v) : List (ListNode ι κ)) = .item k :: nodes v := List.map_cons

theorem lastOf_nodes (e : ListNode ι κ) (u : List κ) :
    lastOf e (nodes u) = u.getLast?.elim e .item := by
  cases u using List.reverseRecOn with
  | nil => rfl
  | append_singleton u k =>
      rw [nodes_append, nodes_cons, List.getLast?_concat]
      exact lastOf_concat _ _ _

theorem firstOf_nodes (e : ListNode ι κ) (v : List κ) :
    firstOf e (nodes v) = v.head?.elim e .item := by
  cases v with
  | nil => rfl
  | cons k v => rfl

/-- On the pointers, the list is the sequence. -/
structure ListMemory.Holds (m : ListMemory ι κ) (l : ι) (q : Sequence κ) : Prop where
  ring : m.links.Ring (.listEnd l) (nodes q.items)
  endValue : m.xItemValue (.listEnd l) = portMaxDelay
  index : m.pxIndex l = q.index.elim (.listEnd l) .item
  current : ∀ i ∈ q.index, i ∈ q.items
  count : m.uxNumberOfItems l = q.items.length

structure ListMemory.Represents (m : ListMemory ι κ) (a : ListSpec ι κ) : Prop where
  holds : ∀ l q, a.lists l = some q → m.Holds l q
  container : ∀ k c, a.container k = some c → m.pxContainer k = c
  home : ∀ l q, a.lists l = some q → ∀ k ∈ q.items, a.container k = some (some l)
  inside : ∀ k l, a.container k = some (some l) → ∃ q, a.lists l = some q ∧ k ∈ q.items
  value : ∀ k, m.xItemValue (.item k) = a.value k

namespace ListMemory

/-- What does not concern a list. -/
theorem Holds.other (h : m.Holds l q) (hring : m'.links.Ring (.listEnd l) (nodes q.items))
    (hvalue : m'.xItemValue (.listEnd l) = m.xItemValue (.listEnd l))
    (hindex : m'.pxIndex l = m.pxIndex l) (hcount : m'.uxNumberOfItems l = m.uxNumberOfItems l) :
    m'.Holds l q where
  ring := hring
  endValue := hvalue.trans h.endValue
  index := hindex.trans h.index
  current := h.current
  count := hcount.trans h.count

/-- Two lists share no node. -/
theorem Represents.apart (h : m.Represents a) (hl : a.lists l = some q)
    (hl' : a.lists l' = some q') (hne : l' ≠ l) :
    ∀ x ∈ (.listEnd l :: nodes q.items : List (ListNode ι κ)),
      x ∉ .listEnd l' :: nodes q'.items := by
  intro x hx hx'
  rw [List.mem_cons, mem_nodes] at hx hx'
  rcases hx with rfl | ⟨k, hk, rfl⟩
  · rcases hx' with heq | ⟨k, -, heq⟩
    · exact hne (ListNode.listEnd.inj heq).symm
    · cases heq
  · rcases hx' with heq | ⟨k', hk', heq⟩
    · cases heq
    · obtain rfl := ListNode.item.inj heq
      have hhome := (h.home l q hl k' hk).symm.trans (h.home l' q' hl' k' hk')
      exact hne (Option.some.inj (Option.some.inj hhome)).symm

theorem Represents.not_mem (h : m.Represents a) (hl : a.lists l = some q)
    (hk : a.container k = some none) :
    (.item k : ListNode ι κ) ∉ .listEnd l :: nodes q.items := by
  rw [List.mem_cons, mem_nodes]
  rintro (heq | ⟨k', hmem, heq⟩)
  · cases heq
  · obtain rfl := ListNode.item.inj heq
    have hhome := hk.symm.trans (h.home l q hl k' hmem)
    cases hhome

theorem Represents.mem_items (h : m.Represents a) (hl : a.lists l = some q) :
    k ∈ q.items ↔ a.container k = some (some l) := by
  refine ⟨h.home l q hl k, fun hc => ?_⟩
  obtain ⟨q', hl', hmem⟩ := h.inside k l hc
  obtain rfl := Option.some.inj (hl.symm.trans hl')
  exact hmem

variable [DecidableEq ι]

/-- Only one list has changed. -/
theorem Represents.of_list (h : m.Represents a)
    (hlists : a'.lists = Function.update a.lists l (some q))
    (hholds : m'.Holds l q) (hother : ∀ l' q', l' ≠ l → a.lists l' = some q' → m'.Holds l' q')
    (hcontainer : ∀ k c, a'.container k = some c → m'.pxContainer k = c)
    (hvalue : ∀ k, m'.xItemValue (.item k) = a'.value k)
    (hhere : ∀ k, k ∈ q.items ↔ a'.container k = some (some l))
    (helse : ∀ k l', l' ≠ l → (a'.container k = some (some l') ↔ a.container k = some (some l'))) :
    m'.Represents a' := by
  have hlist {l' : ι} {q' : Sequence κ} (hl' : a'.lists l' = some q') :
      l' = l ∧ q' = q ∨ l' ≠ l ∧ a.lists l' = some q' := by
    rw [hlists] at hl'
    by_cases hne : l' = l
    · subst hne
      rw [Function.update_self] at hl'
      exact .inl ⟨rfl, (Option.some.inj hl').symm⟩
    · rw [Function.update_of_ne hne] at hl'
      exact .inr ⟨hne, hl'⟩
  refine ⟨fun l' q' hl' => ?_, hcontainer, fun l' q' hl' k hk => ?_, fun k l' hc => ?_, hvalue⟩
  · obtain ⟨rfl, rfl⟩ | ⟨hne, hl'⟩ := hlist hl'
    · exact hholds
    · exact hother l' q' hne hl'
  · obtain ⟨rfl, rfl⟩ | ⟨hne, hl'⟩ := hlist hl'
    · exact (hhere k).mp hk
    · exact (helse k l' hne).mpr (h.home l' q' hl' k hk)
  · by_cases hne : l' = l
    · subst hne
      exact ⟨q, by rw [hlists, Function.update_self], (hhere k).mpr hc⟩
    · obtain ⟨q', hl', hmem⟩ := h.inside k l' ((helse k l' hne).mp hc)
      exact ⟨q', by rw [hlists, Function.update_of_ne hne, hl'], hmem⟩

variable [DecidableEq κ]

omit [DecidableEq ι] in
theorem Represents.container_update {c c' : Option ι} (h : m.Represents a)
    (hc : (a.setContainer k c).container i = some c') :
    Function.update m.pxContainer k c i = c' := by
  rw [ListSpec.container_setContainer] at hc
  by_cases heq : i = k
  · subst heq
    simpa using hc
  · rw [Function.update_of_ne heq] at hc ⊢
    exact h.container i c' hc

omit [DecidableEq ι] in
/-- The other lists do not notice. -/
theorem elsewhere {c : Option ι} (hold : a.container k ≠ some (some l')) (hnew : c ≠ some l') :
    (a.setContainer k c).container i = some (some l') ↔ a.container i = some (some l') := by
  rw [ListSpec.container_setContainer]
  by_cases heq : i = k
  · subst heq
    simp [hold, hnew]
  · rw [Function.update_of_ne heq]

/-- A new item between `u` and `v`. -/
theorem Represents.inserts (h : m.Represents a) (hl : a.lists l = some q)
    (hk : a.container k = some none) (hitems : q.items = u ++ v) :
    Represents { m with
        links := m.links.insertAfter (lastOf (.listEnd l) (nodes u)) (.item k)
        pxContainer := Function.update m.pxContainer k (some l)
        uxNumberOfItems := Function.update m.uxNumberOfItems l (m.uxNumberOfItems l + 1) }
      ((a.setList l { q with items := u ++ k :: v }).setContainer k (some l)) := by
  have hold := h.holds l q hl
  have hring : m.links.Ring (.listEnd l) (nodes u ++ nodes v) := by
    rw [← nodes_append, ← hitems]
    exact hold.ring
  have hnot := h.not_mem hl hk
  refine h.of_list rfl ⟨?_, hold.endValue, hold.index, fun i hi => ?_, ?_⟩
    (fun l' q' hne hl' => ?_) (fun k' c hc => ?_) h.value (fun k' => ?_) fun k' l' hne => ?_
  · rw [nodes_append, nodes_cons]
    rw [hitems, nodes_append] at hnot
    exact hring.insertAfter hnot
  · have hmem := hold.current i hi
    rw [hitems] at hmem
    simp only [List.mem_append, List.mem_cons] at hmem ⊢
    tauto
  · have hcount := hold.count
    simp only [hitems, Function.update_self, List.length_append, List.length_cons] at hcount ⊢
    omega
  · have hold' := h.holds l' q' hl'
    refine hold'.other (hold'.ring.insertAfter_other hring ?_ (h.not_mem hl' hk)) rfl rfl
      (Function.update_of_ne hne _ _)
    rw [← nodes_append, ← hitems]
    exact h.apart hl hl' hne
  · exact h.container_update hc
  · rw [ListSpec.container_setContainer]
    by_cases heq : k' = k
    · subst heq
      simp
    · have hmem := h.mem_items (k := k') hl
      rw [hitems] at hmem
      rw [Function.update_of_ne heq]
      simpa [heq] using hmem
  · exact elsewhere (by simp [hk]) (by simp [Ne.symm hne])

/-- An item between `u` and `v` goes, and the one before it takes its place as the current one. -/
theorem Represents.removes (h : m.Represents a) (hl : a.lists l = some q)
    (hk : a.container k = some (some l)) (hitems : q.items = u ++ k :: v) :
    Represents { m with
        links := m.links.remove (.item k)
        pxIndex :=
          if m.pxIndex l = .item k then
            Function.update m.pxIndex l ((m.links.remove (.item k)).prev (.item k))
          else m.pxIndex
        pxContainer := Function.update m.pxContainer k none
        uxNumberOfItems := Function.update m.uxNumberOfItems l (m.uxNumberOfItems l - 1) }
      ((a.setList l ⟨u ++ v, if q.index = some k then u.getLast? else q.index⟩).setContainer k
        none) := by
  have hold := h.holds l q hl
  have hring : m.links.Ring (.listEnd l) (nodes u ++ .item k :: nodes v) := by
    rw [← nodes_cons, ← nodes_append, ← hitems]
    exact hold.ring
  have hnot : k ∉ u ++ v := by
    have hnodup : (nodes (u ++ k :: v) : List (ListNode ι κ)).Nodup := by
      rw [← hitems]
      exact (List.nodup_cons.mp hold.ring.nodup).2
    exact (List.nodup_middle.mp hnodup.of_map).notMem
  have hindex : m.pxIndex l = .item k ↔ q.index = some k := by
    rw [hold.index]
    cases q.index <;> simp
  refine h.of_list rfl ⟨?_, hold.endValue, ?_, fun i hi => ?_, ?_⟩
    (fun l' q' hne hl' => ?_) (fun k' c hc => ?_) h.value (fun k' => ?_) fun k' l' hne => ?_
  · rw [nodes_append]
    exact hring.remove
  · by_cases hcurrent : q.index = some k
    · simp only [hindex, if_pos hcurrent, Function.update_self]
      rw [hring.prev_remove, lastOf_nodes]
    · simp only [hindex, if_neg hcurrent]
      exact hold.index
  · by_cases hcurrent : q.index = some k
    · rw [if_pos hcurrent] at hi
      exact List.mem_append_left v (List.mem_of_mem_getLast? hi)
    · rw [if_neg hcurrent] at hi
      have hmem := hold.current i hi
      have hne : i ≠ k := fun heq => hcurrent (heq ▸ hi)
      rw [hitems] at hmem
      simp only [List.mem_append, List.mem_cons] at hmem ⊢
      tauto
  · have hcount := hold.count
    simp only [hitems, Function.update_self, List.length_append, List.length_cons] at hcount ⊢
    omega
  · have hold' := h.holds l' q' hl'
    refine hold'.other (hold'.ring.remove_other hring ?_) rfl ?_ (Function.update_of_ne hne _ _)
    · rw [← nodes_cons, ← nodes_append, ← hitems]
      exact h.apart hl hl' hne
    · by_cases hcurrent : m.pxIndex l = .item k
      · simp only [if_pos hcurrent, Function.update_of_ne hne]
      · simp only [if_neg hcurrent]
  · exact h.container_update hc
  · rw [ListSpec.container_setContainer]
    by_cases heq : k' = k
    · subst heq
      simpa using hnot
    · have hmem := h.mem_items (k := k') hl
      rw [hitems] at hmem
      rw [Function.update_of_ne heq]
      simpa [heq] using hmem
  · exact elsewhere (by simp [hk, Ne.symm hne]) (by simp)

omit [DecidableEq ι] [DecidableEq κ] in
/-- The loop of `vListInsert` comes to the last item that is not greater. -/
theorem Holds.findPlace {x : UInt32} {n : ℕ} (h : m.Holds l q) (hx : x ≠ portMaxDelay)
    (hitems : q.items = u ++ w) (hn : w.length < n) :
    m.findPlace x n (lastOf (.listEnd l) (nodes u)) = some (lastOf (.listEnd l)
      (nodes (u ++ w.takeWhile fun i => (m.xItemValue (.item i)).toNat ≤ x.toNat))) := by
  induction w generalizing u n with
  | nil =>
      obtain ⟨n, rfl⟩ := Nat.exists_eq_succ_of_ne_zero (Nat.ne_zero_of_lt hn)
      have hnext : m.links.next (lastOf (.listEnd l) (nodes u)) = .listEnd l :=
        Ring.next_lastOf (v := []) (by simpa [hitems] using h.ring)
      have hlt : ¬ portMaxDelay ≤ x := by
        intro hle
        refine hx (UInt32.toNat_inj.mp (le_antisymm ?_ (UInt32.le_iff_toNat_le.mp hle)))
        exact Nat.le_of_lt_succ x.toNat_lt
      rw [findPlace, hnext, h.endValue, if_neg hlt]
      simp
  | cons i w ih =>
      obtain ⟨n, rfl⟩ := Nat.exists_eq_succ_of_ne_zero (Nat.ne_zero_of_lt hn)
      have hnext : m.links.next (lastOf (.listEnd l) (nodes u)) = .item i := by
        have hring := h.ring
        rw [hitems, nodes_append] at hring
        exact hring.next_lastOf
      rw [findPlace, hnext]
      by_cases hle : m.xItemValue (.item i) ≤ x
      · have hlast : (.item i : ListNode ι κ) = lastOf (.listEnd l) (nodes (u ++ [i])) := by
          rw [nodes_append]
          exact (lastOf_concat _ _ _).symm
        rw [if_pos hle, hlast, ih (by rw [hitems]; simp) (by simpa using hn),
          List.takeWhile_cons_of_pos (by simpa using UInt32.le_iff_toNat_le.mp hle)]
        simp
      · rw [if_neg hle, List.takeWhile_cons_of_neg (by simpa [UInt32.le_iff_toNat_le] using hle)]
        simp

theorem Represents.vListInsertEnd (h : m.Represents a) (hl : a.lists l = some q)
    (hk : a.container k = some none) :
    (m.vListInsertEnd l k).Represents ((a.setList l (q.insertEnd k)).setContainer k (some l)) := by
  have hold := h.holds l q hl
  have hindex := hold.index
  rw [ListMemory.vListInsertEnd]
  cases hq : q.index with
  | none =>
      have hend : q.insertEnd k = { q with items := q.items ++ [k] } := by
        rw [Sequence.insertEnd, hq]
      have hitems : q.items = q.items ++ [] := (List.append_nil _).symm
      have hring := hold.ring
      rw [hitems, nodes_append] at hring
      have hlinks := hring.insertBefore_eq (x := .item k)
      rw [hq] at hindex
      rw [show m.pxIndex l = firstOf (.listEnd l) (nodes []) from hindex, hlinks, hend]
      exact h.inserts hl hk hitems
  | some i =>
      have hend : q.insertEnd k = { q with items := q.before i ++ k :: i :: q.behind i } := by
        rw [Sequence.insertEnd, hq]
      have hitems := Sequence.before_behind (hold.current i hq)
      have hring := hold.ring
      rw [hitems, nodes_append] at hring
      have hlinks := hring.insertBefore_eq (x := .item k)
      rw [hq] at hindex
      rw [show m.pxIndex l = firstOf (.listEnd l) (nodes (i :: q.behind i)) from hindex, hlinks,
        hend]
      exact h.inserts hl hk hitems

theorem Represents.vListInsert (h : m.Represents a) (hl : a.lists l = some q)
    (hk : a.container k = some none) :
    ∃ m', m.vListInsert l k = some m' ∧
      m'.Represents ((a.setList l (q.insert a.value k)).setContainer k (some l)) := by
  have hold := h.holds l q hl
  let p : κ → Bool := fun i => (a.value i).toNat ≤ (a.value k).toNat
  have hitems : q.items = q.items.takeWhile p ++ q.items.dropWhile p :=
    List.takeWhile_append_dropWhile.symm
  have hinserts := h.inserts hl hk hitems
  rw [← insertBehind_eq] at hinserts
  refine ⟨_, ?_, hinserts⟩
  have hplace : m.insertionPlace l k =
      some (lastOf (.listEnd l) (nodes (q.items.takeWhile p))) := by
    rw [insertionPlace]
    split
    · rename_i hmax
      have hall : q.items.takeWhile p = q.items := by
        refine List.takeWhile_eq_self_iff.mpr fun i _ => decide_eq_true ?_
        rw [← h.value k, hmax]
        exact Nat.le_of_lt_succ (a.value i).toNat_lt
      rw [hall]
      exact congrArg some (Ring.prev_firstOf (v := []) (by simpa using hold.ring))
    · rename_i hmax
      have hfind := hold.findPlace (u := []) hmax rfl (Nat.lt_succ_of_le hold.count.ge)
      simp only [h.value, List.nil_append] at hfind
      rw [h.value]
      exact hfind
  rw [ListMemory.vListInsert, hplace, Option.map_some]

theorem Represents.uxListRemove (h : m.Represents a) (hl : a.lists l = some q)
    (hk : a.container k = some (some l)) :
    ∃ m', m.uxListRemove k = some (m', (q.remove k).items.length) ∧
      m'.Represents ((a.setList l (q.remove k)).setContainer k none) := by
  have hitems := Sequence.before_behind ((h.mem_items hl).mpr hk)
  refine ⟨_, ?_, h.removes hl hk hitems⟩
  have hlength : m.uxNumberOfItems l - 1 = (q.remove k).items.length := by
    have hcount := (h.holds l q hl).count
    rw [hitems] at hcount
    simp only [Sequence.remove, List.length_append, List.length_cons] at hcount ⊢
    omega
  rw [ListMemory.uxListRemove, h.container k _ hk, ← hlength]
  rfl

omit [DecidableEq ι] in
/-- Where `pxIndex` goes from the current item, but for `xListEnd`. -/
theorem Holds.next_index (h : m.Holds l q) : m.links.next (m.pxIndex l) =
    (q.index.elim q.items.head? fun i => (q.behind i).head?).elim (.listEnd l) .item := by
  rw [h.index]
  cases hq : q.index with
  | none =>
      have hring := h.ring
      rw [show q.items = [] ++ q.items from rfl, nodes_append] at hring
      exact hring.next_lastOf.trans (firstOf_nodes _ _)
  | some i =>
      have hring := h.ring
      rw [Sequence.before_behind (h.current i hq), nodes_append] at hring
      exact hring.next_mid.trans (firstOf_nodes _ _)

omit [DecidableEq ι] [DecidableEq κ] in
theorem Holds.next_listEnd (h : m.Holds l q) :
    m.links.next (.listEnd l) = q.items.head?.elim (.listEnd l) .item := by
  have hring := h.ring
  rw [show q.items = [] ++ q.items from rfl, nodes_append] at hring
  exact hring.next_lastOf.trans (firstOf_nodes _ _)

theorem Represents.ownerOfNextEntry (h : m.Represents a) (hl : a.lists l = some q)
    (hk : q.next = some k) :
    ∃ m', m.ownerOfNextEntry l = some (m', k) ∧
      m'.Represents (a.setList l { q with index := some k }) := by
  have hold := h.holds l q hl
  have hindex : (if m.links.next (m.pxIndex l) = .listEnd l then
      m.links.next (m.links.next (m.pxIndex l)) else m.links.next (m.pxIndex l)) = .item k := by
    have hnext := hold.next_index
    rw [Sequence.next] at hk
    cases hq : q.index with
    | none =>
        rw [hq] at hnext hk
        have hitem : m.links.next (m.pxIndex l) = .item k := by simpa [hk] using hnext
        rw [hitem, if_neg (by simp)]
    | some i =>
        rw [hq] at hnext hk
        cases hbehind : (q.behind i).head? with
        | none =>
            have hhead : q.items.head? = some k := by simpa [hbehind] using hk
            have hitem : m.links.next (m.pxIndex l) = .listEnd l := by simpa [hbehind] using hnext
            rw [hitem, if_pos rfl, hold.next_listEnd, hhead]
            rfl
        | some x =>
            obtain rfl : x = k := by simpa [hbehind] using hk
            have hitem : m.links.next (m.pxIndex l) = .item x := by simpa [hbehind] using hnext
            rw [hitem, if_neg (by simp)]
  have hmem := Sequence.mem_of_next hk
  refine ⟨{ m with pxIndex := Function.update m.pxIndex l (.item k) }, ?_, ?_⟩
  · simp only [ListMemory.ownerOfNextEntry, hindex]
    rfl
  · refine h.of_list rfl ⟨hold.ring, hold.endValue, Function.update_self _ _ _, fun i hi => ?_,
      hold.count⟩ (fun l' q' hne hl' => ?_) h.container h.value (fun _ => h.mem_items (q := q) hl)
      fun k' l' _ => Iff.rfl
    · obtain rfl := Option.some.inj hi
      exact hmem
    · have hold' := h.holds l' q' hl'
      exact hold'.other hold'.ring rfl (Function.update_of_ne hne _ _) rfl

theorem Represents.vListInitialise (h : m.Represents a)
    (hl : ∀ q, a.lists l = some q → q.items = []) :
    (m.vListInitialise l).Represents (a.setList l ⟨[], none⟩) := by
  have hnew : (m.vListInitialise l).Holds l ⟨[], none⟩ :=
    ⟨ring_link_self, Function.update_self _ _ _, Function.update_self _ _ _, nofun,
      Function.update_self _ _ _⟩
  refine h.of_list rfl hnew (fun l' q' hne hl' => ?_) h.container (fun k => ?_) (fun k => ?_)
    fun k l' _ => Iff.rfl
  · have hold := h.holds l' q' hl'
    have hnot : (.listEnd l : ListNode ι κ) ∉ .listEnd l' :: nodes q'.items := by
      rw [List.mem_cons, mem_nodes]
      rintro (heq | ⟨k, -, heq⟩)
      · exact hne (ListNode.listEnd.inj heq).symm
      · cases heq
    exact hold.other (hold.ring.link hnot hnot)
      (Function.update_of_ne (by simpa using hne) _ _) (Function.update_of_ne hne _ _)
      (Function.update_of_ne hne _ _)
  · have hne : (.item k : ListNode ι κ) ≠ .listEnd l := nofun
    exact (Function.update_of_ne hne portMaxDelay m.xItemValue).trans (h.value k)
  · refine ⟨nofun, fun hk => ?_⟩
    obtain ⟨q, hq, hmem⟩ := h.inside k l hk
    rw [hl q hq] at hmem
    cases hmem

omit [DecidableEq ι] in
theorem Represents.vListInitialiseItem (h : m.Represents a)
    (hk : ∀ l, a.container k ≠ some (some l)) :
    (m.vListInitialiseItem k).Represents (a.setContainer k none) where
  holds l q hl :=
    have hold := h.holds l q hl
    hold.other hold.ring rfl rfl rfl
  container _ _ hc := h.container_update hc
  home l q hl i hi := (elsewhere (hk l) (Option.some_ne_none l).symm).mpr (h.home l q hl i hi)
  inside i l hi := h.inside i l ((elsewhere (hk l) (Option.some_ne_none l).symm).mp hi)
  value := h.value

theorem Represents.setValue {x : UInt32} (h : m.Represents a) :
    (m.setValue k x).Represents { a with value := Function.update a.value k x } where
  holds l q hl :=
    have hold := h.holds l q hl
    have hne : (.listEnd l : ListNode ι κ) ≠ .item k := nofun
    hold.other hold.ring (Function.update_of_ne hne x m.xItemValue) rfl rfl
  container := h.container
  home := h.home
  inside := h.inside
  value i := by
    by_cases hi : i = k
    · subst hi
      simp [ListMemory.setValue]
    · simp [ListMemory.setValue, hi, h.value]

/-- **One call**: what the kernel may do with its sequences it can do on the pointers, with the same
answer. -/
theorem Represents.perform {c : ListCall ι κ} {r : ListAnswer ι κ} (h : m.Represents a)
    (hc : a.perform c = some (a', r)) : ∃ m', m.perform c = some (m', r) ∧ m'.Represents a' := by
  unfold ListSpec.perform at hc
  split at hc
  case h_1 l =>
    split at hc
    · cases hc
    · rename_i hempty
      obtain ⟨rfl, rfl⟩ := Prod.mk.inj (Option.some.inj hc)
      refine ⟨_, rfl, h.vListInitialise fun q hq => ?_⟩
      obtain ⟨items, index⟩ := q
      cases items with
      | nil => rfl
      | cons k w => exact absurd hq (hempty k w index)
  case h_2 k =>
    split at hc
    · cases hc
    · rename_i hfree
      obtain ⟨rfl, rfl⟩ := Prod.mk.inj (Option.some.inj hc)
      exact ⟨_, rfl, h.vListInitialiseItem hfree⟩
  case h_3 k v =>
    obtain ⟨rfl, rfl⟩ := Prod.mk.inj (Option.some.inj hc)
    exact ⟨_, rfl, h.setValue⟩
  case h_4 l k =>
    split at hc
    · rename_i q hl hk
      obtain ⟨rfl, rfl⟩ := Prod.mk.inj (Option.some.inj hc)
      exact ⟨_, rfl, h.vListInsertEnd hl hk⟩
    · cases hc
  case h_5 l k =>
    split at hc
    · rename_i q hl hk
      obtain ⟨rfl, rfl⟩ := Prod.mk.inj (Option.some.inj hc)
      obtain ⟨m', hm', hrep⟩ := h.vListInsert hl hk
      exact ⟨m', by rw [ListMemory.perform, hm']; rfl, hrep⟩
    · cases hc
  case h_6 k =>
    split at hc
    · rename_i l hk
      obtain ⟨q, hl, hq⟩ := Option.map_eq_some_iff.mp hc
      obtain ⟨rfl, rfl⟩ := Prod.mk.inj hq
      obtain ⟨m', hm', hrep⟩ := h.uxListRemove hl hk
      exact ⟨m', by rw [ListMemory.perform, hm']; rfl, hrep⟩
    · cases hc
  case h_7 l =>
    obtain ⟨q, hl, hc⟩ := Option.bind_eq_some_iff.mp hc
    obtain ⟨k, hk, hc⟩ := Option.bind_eq_some_iff.mp hc
    obtain ⟨rfl, rfl⟩ := Prod.mk.inj (Option.some.inj hc)
    obtain ⟨m', hm', hrep⟩ := h.ownerOfNextEntry hl hk
    exact ⟨m', by rw [ListMemory.perform, hm']; rfl, hrep⟩
  case h_8 l =>
    obtain ⟨q, hl, hc⟩ := Option.bind_eq_some_iff.mp hc
    obtain ⟨k, hk, hc⟩ := Option.bind_eq_some_iff.mp hc
    obtain ⟨rfl, rfl⟩ := Prod.mk.inj (Option.some.inj hc)
    refine ⟨m, ?_, h⟩
    rw [ListMemory.perform, (h.holds l q hl).next_listEnd, hk]
    rfl
  case h_9 l =>
    obtain ⟨q, hl, hq⟩ := Option.map_eq_some_iff.mp hc
    obtain ⟨rfl, rfl⟩ := Prod.mk.inj hq
    refine ⟨m, ?_, h⟩
    have hold := h.holds l q hl
    rw [ListMemory.perform, hold.next_listEnd]
    cases q.items.head? with
    | none => exact congrArg (fun v => some (m, ListAnswer.value v)) hold.endValue
    | some k => exact congrArg (fun v => some (m, ListAnswer.value v)) (h.value k)
  case h_10 l =>
    obtain ⟨q, hl, hq⟩ := Option.map_eq_some_iff.mp hc
    obtain ⟨rfl, rfl⟩ := Prod.mk.inj hq
    exact ⟨m, by rw [ListMemory.perform, (h.holds l q hl).count], h⟩
  case h_11 k =>
    obtain ⟨c, hk, hq⟩ := Option.map_eq_some_iff.mp hc
    obtain ⟨rfl, rfl⟩ := Prod.mk.inj hq
    exact ⟨m, by rw [ListMemory.perform, h.container k c hk], h⟩

omit [DecidableEq ι] [DecidableEq κ] in
/-- Nothing is known of memory that has not been initialised. -/
theorem represents_none (m : ListMemory ι κ) :
    m.Represents ⟨fun _ => none, fun _ => none, fun k => m.xItemValue (.item k)⟩ :=
  ⟨nofun, nofun, nofun, nofun, fun _ => rfl⟩

theorem Represents.performAll {cs : List (ListCall ι κ)} {rs : List (ListAnswer ι κ)}
    (h : m.Represents a) (hcs : a.performAll cs = some (rs, a')) :
    ∃ m', m.performAll cs = some (rs, m') ∧ m'.Represents a' := by
  induction cs generalizing m a rs with
  | nil =>
      obtain ⟨rfl, rfl⟩ := Prod.mk.inj (Option.some.inj hcs)
      exact ⟨m, rfl, h⟩
  | cons c cs ih =>
      obtain ⟨⟨a₁, r⟩, hc, hcs⟩ := Option.bind_eq_some_iff.mp hcs
      obtain ⟨⟨rs', a₂⟩, hrest, hcs⟩ := Option.bind_eq_some_iff.mp hcs
      obtain ⟨rfl, rfl⟩ := Prod.mk.inj (Option.some.inj hcs)
      obtain ⟨m₁, hm₁, hrep₁⟩ := h.perform hc
      obtain ⟨m₂, hm₂, hrep₂⟩ := ih hrep₁ hrest
      refine ⟨m₂, ?_, hrep₂⟩
      rw [ListMemory.performAll, hm₁]
      simp only [Option.bind_eq_bind, Option.bind_some, hm₂]
      rfl

/-- **`list.c` keeps sequences**: whatever the memory holds at first, calls on any number of lists
and items answer on the pointers what they answer on the sequences, and none runs round a ring
without end. -/
theorem lists_refine (m : ListMemory ι κ) {cs : List (ListCall ι κ)} {rs : List (ListAnswer ι κ)}
    (hcs : ListSpec.performAll
      ⟨fun _ => none, fun _ => none, fun k => m.xItemValue (.item k)⟩ cs = some (rs, a)) :
    ∃ m', m.performAll cs = some (rs, m') ∧ m'.Represents a :=
  (represents_none m).performAll hcs

/-- A delayed task is put behind one that wakes earlier, and two ready tasks take turns. -/
def listCalls : List (ListCall ℕ ℕ) :=
  [.initialise 0, .initialise 1, .initialiseItem 0, .initialiseItem 1, .initialiseItem 2,
    .setValue 0 7, .setValue 1 5, .insert 0 0, .insert 0 1, .valueOfHeadEntry 0, .remove 1,
    .insertEnd 1 1, .insertEnd 1 2, .ownerOfNextEntry 1, .ownerOfNextEntry 1, .ownerOfNextEntry 1]

/-- The static variables before anything is initialised. -/
def zeroLists : ListMemory ℕ ℕ where
  links := ⟨fun _ => .listEnd 0, fun _ => .listEnd 0⟩
  xItemValue := fun _ => 0
  pxContainer := fun _ => none
  pxIndex := fun _ => .listEnd 0
  uxNumberOfItems := fun _ => 0

theorem lists_refine_turns : ∃ m', zeroLists.performAll listCalls = some
    ([.done, .done, .done, .done, .done, .done, .done, .done, .done, .value 5, .length 1, .done,
      .done, .owner 1, .owner 2, .owner 1], m') := by
  have hspec : (ListSpec.performAll (ι := ℕ) (κ := ℕ)
      ⟨fun _ => none, fun _ => none, fun _ => 0⟩ listCalls).map Prod.fst = some
      [.done, .done, .done, .done, .done, .done, .done, .done, .done, .value 5, .length 1, .done,
        .done, .owner 1, .owner 2, .owner 1] := by decide +kernel
  obtain ⟨⟨rs, a⟩, hs, rfl⟩ := Option.map_eq_some_iff.mp hspec
  obtain ⟨m', hm', -⟩ := lists_refine zeroLists hs
  exact ⟨m', hm'⟩

end ListMemory

/-! ### Taking turns -/

section Turns

variable [DecidableEq κ]

namespace Sequence

theorem behind_eq (h : q.items.Nodup) (hitems : q.items = u ++ i :: v) : q.behind i = v := by
  rw [hitems] at h
  have hu : ∀ x ∈ u, x ≠ i := fun x hx heq =>
    (List.nodup_append.mp h).2.2 x hx i List.mem_cons_self heq
  rw [behind, hitems, List.dropWhile_append_of_pos (by simpa using hu),
    List.dropWhile_cons_of_neg (by simp), List.tail_cons]

/-- `pxIndex` is at the end of `u`. -/
structure At (q : Sequence κ) (u v : List κ) : Prop where
  items : q.items = u ++ v
  index : q.index = u.getLast?

theorem next_of_getLast? (h : q.items.Nodup) (hitems : q.items = u ++ v)
    (hindex : q.index = u.getLast?) : q.next = v.head?.or q.items.head? := by
  rw [next, hindex]
  cases u using List.reverseRecOn with
  | nil =>
      rw [hitems, List.nil_append]
      cases v <;> rfl
  | append_singleton u i =>
      rw [List.append_assoc, List.singleton_append] at hitems
      rw [List.getLast?_concat]
      simp only [behind_eq h hitems]

/-- The items have their turns from one behind the current one on. -/
theorem At.next (h : q.At u (i :: v)) (hnodup : q.items.Nodup) :
    q.next = some i ∧ At { q with index := some i } (u ++ [i]) v := by
  refine ⟨by rw [next_of_getLast? hnodup h.items h.index]; rfl, ?_, List.getLast?_concat.symm⟩
  rw [List.append_assoc, List.singleton_append]
  exact h.items

/-- And then from the first one. -/
theorem At.wrap (h : q.At (i :: u) []) (hnodup : q.items.Nodup) :
    q.next = some i ∧ At { q with index := some i } [i] u := by
  have hitems : q.items = i :: u := h.items.trans (List.append_nil _)
  refine ⟨?_, hitems, rfl⟩
  rw [next_of_getLast? hnodup h.items h.index, hitems]
  rfl

theorem exists_at (h : ∀ i ∈ q.index, i ∈ q.items) : ∃ u v, q.At u v := by
  cases hq : q.index with
  | none => exact ⟨[], q.items, rfl, hq⟩
  | some i =>
      refine ⟨q.before i ++ [i], q.behind i, ?_, hq.trans List.getLast?_concat.symm⟩
      rw [List.append_assoc, List.singleton_append]
      exact before_behind (h i hq)

end Sequence

variable [DecidableEq ι]

namespace ListSpec

theorem performAll_cons {c : ListCall ι κ} {cs : List (ListCall ι κ)} {r : ListAnswer ι κ}
    {rs : List (ListAnswer ι κ)} {a₁ a₂ : ListSpec ι κ} (hc : a.perform c = some (a₁, r))
    (hcs : a₁.performAll cs = some (rs, a₂)) : a.performAll (c :: cs) = some (r :: rs, a₂) := by
  simp [performAll, hc, hcs]

theorem performAll_append {cs ds : List (ListCall ι κ)} {rs ts : List (ListAnswer ι κ)}
    {a₁ a₂ : ListSpec ι κ} (hcs : a.performAll cs = some (rs, a₁))
    (hds : a₁.performAll ds = some (ts, a₂)) :
    a.performAll (cs ++ ds) = some (rs ++ ts, a₂) := by
  induction cs generalizing a rs with
  | nil =>
      obtain ⟨rfl, rfl⟩ := Prod.mk.inj (Option.some.inj hcs)
      exact hds
  | cons c cs ih =>
      obtain ⟨⟨a', r⟩, hc, hcs⟩ := Option.bind_eq_some_iff.mp hcs
      obtain ⟨⟨rs', a''⟩, hrest, hcs⟩ := Option.bind_eq_some_iff.mp hcs
      obtain ⟨rfl, rfl⟩ := Prod.mk.inj (Option.some.inj hcs)
      exact performAll_cons hc (ih hrest)

theorem perform_ownerOfNextEntry (hl : a.lists l = some q) (hk : q.next = some k) :
    a.perform (.ownerOfNextEntry l) = some (a.setList l { q with index := some k }, .owner k) := by
  simp [perform, hl, hk]

/-- Turns in a row behind the current item. -/
theorem turns_behind (hl : a.lists l = some q) (h : q.At u v) (hnodup : q.items.Nodup) {n : ℕ}
    (hn : n ≤ v.length) : ∃ a' q', a.performAll (.replicate n (.ownerOfNextEntry l)) =
      some ((v.take n).map .owner, a') ∧ a'.lists l = some q' ∧ q'.items = q.items ∧
      q'.At (u ++ v.take n) (v.drop n) := by
  induction n generalizing a q u v with
  | zero => exact ⟨a, q, rfl, hl, rfl, by simpa using h⟩
  | succ n ih =>
      cases v with
      | nil => cases hn
      | cons i v =>
          obtain ⟨hnext, hat⟩ := h.next hnodup
          have hlist : (a.setList l { q with index := some i }).lists l =
              some { q with index := some i } := Function.update_self _ _ _
          obtain ⟨a', q', hall, hl', hitems, hat'⟩ :=
            ih hlist hat hnodup (Nat.le_of_succ_le_succ hn)
          refine ⟨a', q', ?_, hl', hitems, by simpa using hat'⟩
          exact performAll_cons (perform_ownerOfNextEntry hl hnext) hall

/-- In as many turns as there are items, each has one. -/
theorem turns_round (hl : a.lists l = some q) (hcurrent : ∀ i ∈ q.index, i ∈ q.items)
    (hnodup : q.items.Nodup) : ∃ (ks : List κ) (a' : ListSpec ι κ), ks.Perm q.items ∧
      a.performAll (.replicate q.items.length (.ownerOfNextEntry l)) =
        some (ks.map .owner, a') := by
  obtain ⟨u, v, h⟩ := Sequence.exists_at hcurrent
  obtain ⟨a₁, q₁, hall₁, hl₁, hitems₁, hat₁⟩ := turns_behind hl h hnodup le_rfl
  rw [List.take_length, List.drop_length] at hat₁
  rw [List.take_length] at hall₁
  have hlength : q.items.length = v.length + u.length := by
    rw [h.items, List.length_append, Nat.add_comm]
  have hperm : (v ++ u).Perm q.items := by
    rw [h.items]
    exact List.perm_append_comm
  rw [hlength, List.replicate_add]
  cases u with
  | nil =>
      refine ⟨v, a₁, by simpa using hperm, ?_⟩
      simpa using hall₁
  | cons x u =>
      obtain ⟨hnext, hat₂⟩ := Sequence.At.wrap (u := u ++ v) hat₁ (hitems₁ ▸ hnodup)
      have hlist : (a₁.setList l { q₁ with index := some x }).lists l =
          some { q₁ with index := some x } := Function.update_self _ _ _
      obtain ⟨a₂, q₂, hall₂, -⟩ := turns_behind hlist hat₂ (hitems₁ ▸ hnodup)
        (n := u.length) (by simp)
      rw [List.take_left' rfl] at hall₂
      refine ⟨v ++ x :: u, a₂, hperm, ?_⟩
      rw [List.map_append]
      exact performAll_append hall₁ (performAll_cons (perform_ownerOfNextEntry hl₁ hnext) hall₂)

end ListSpec

/-- **Tasks of one priority take turns**: as many selections in a row as a list has items give every
item one turn. -/
theorem ListMemory.turns_fair (h : m.Represents a) (hl : a.lists l = some q) :
    ∃ (ks : List κ) (m' : ListMemory ι κ), ks.Perm q.items ∧
      m.performAll (.replicate q.items.length (.ownerOfNextEntry l)) =
        some (ks.map .owner, m') := by
  have hold := h.holds l q hl
  have hnodup : (nodes q.items : List (ListNode ι κ)).Nodup :=
    (List.nodup_cons.mp hold.ring.nodup).2
  obtain ⟨ks, a', hperm, hall⟩ := ListSpec.turns_round hl hold.current hnodup.of_map
  obtain ⟨m', hm', -⟩ := h.performAll hall
  exact ⟨ks, m', hperm, hm'⟩

theorem ListMemory.turns_fair_two : ∃ (m m' : ListMemory ℕ ℕ) (ks : List ℕ),
    ks.Perm [1, 2] ∧
      m.performAll (.replicate 2 (.ownerOfNextEntry 1)) = some (ks.map .owner, m') := by
  have hspec : (ListSpec.performAll (ι := ℕ) (κ := ℕ)
      ⟨fun _ => none, fun _ => none, fun _ => 0⟩ listCalls).map (fun r => r.2.lists 1) =
      some (some ⟨[1, 2], some 1⟩) := by decide +kernel
  obtain ⟨⟨rs, a⟩, hs, hl⟩ := Option.map_eq_some_iff.mp hspec
  obtain ⟨m, -, hrep⟩ := (represents_none zeroLists).performAll hs
  obtain ⟨ks, m', hperm, hm'⟩ := turns_fair hrep hl
  exact ⟨m, m', ks, hperm, hm'⟩

end Turns

end Refinement

end PeripheralTester.Firmware
