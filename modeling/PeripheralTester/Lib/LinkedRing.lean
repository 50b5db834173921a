import Mathlib.Data.List.Sort
import Mathlib.Tactic

/-! # Rings of linked nodes

A doubly linked list that is closed by a mark: from the mark `next` leads through the elements and
back to it, and `prev` leads the other way.  With the mark an element is inserted and removed
without a case for the ends.

`Links.Ring l e w` says that the ring of the mark `e` holds the elements `w`.  Inserting and
removing are made of one write, `Links.link`, which makes two nodes neighbours; a part of a ring
that the write does not touch stays as it is (`isChain_link`).

The first section is about where an element goes in an ordered list. -/

namespace PeripheralTester.Lib

/-! ### Insertion into an ordered list -/

section Insertion

variable {α β : Type*} [LinearOrder β] (key : α → β) (a : α) (w : List α)

/-- `a` in front of the first element that is greater. -/
def insertBehind : List α := w.orderedInsert (fun x y => key x < key y) a

theorem insertBehind_perm : (insertBehind key a w).Perm (a :: w) := List.perm_orderedInsert _ _ _

theorem insertBehind_eq :
    insertBehind key a w =
      w.takeWhile (fun x => key x ≤ key a) ++ a :: w.dropWhile (fun x => key x ≤ key a) := by
  simp only [insertBehind, List.orderedInsert_eq_take_drop, not_lt]

variable {key a w}

theorem mem_insertBehind {b : α} : b ∈ insertBehind key a w ↔ b = a ∨ b ∈ w := by
  rw [(insertBehind_perm key a w).mem_iff, List.mem_cons]

theorem insertBehind_sorted (h : w.Pairwise fun x y => key x ≤ key y) :
    (insertBehind key a w).Pairwise fun x y => key x ≤ key y := by
  induction w with
  | nil => exact List.pairwise_singleton _ a
  | cons b w ih =>
      obtain ⟨hb, hw⟩ := List.pairwise_cons.mp h
      rw [insertBehind, List.orderedInsert_cons]
      split
      · rename_i hlt
        refine List.pairwise_cons.mpr ⟨fun x hx => ?_, h⟩
        rcases List.mem_cons.mp hx with rfl | hx
        · exact hlt.le
        · exact hlt.le.trans (hb x hx)
      · rename_i hge
        refine List.pairwise_cons.mpr ⟨fun x hx => ?_, ih hw⟩
        rcases mem_insertBehind.mp hx with rfl | hx
        · exact not_lt.mp hge
        · exact hb x hx

omit [LinearOrder β] in
theorem takeWhile_congr_of_mem {p q : α → Bool} (h : ∀ x ∈ w, p x = q x) :
    w.takeWhile p = w.takeWhile q := by
  induction w with
  | nil => rfl
  | cons x w ih =>
      rw [List.takeWhile_cons, List.takeWhile_cons, h x List.mem_cons_self,
        ih fun y hy => h y (List.mem_cons_of_mem x hy)]

omit [LinearOrder β] in
theorem dropWhile_congr_of_mem {p q : α → Bool} (h : ∀ x ∈ w, p x = q x) :
    w.dropWhile p = w.dropWhile q := by
  induction w with
  | nil => rfl
  | cons x w ih =>
      rw [List.dropWhile_cons, List.dropWhile_cons, h x List.mem_cons_self,
        ih fun y hy => h y (List.mem_cons_of_mem x hy)]

/-- In an ordered list a search from the front finds all. -/
theorem takeWhile_le_eq_filter (h : w.Pairwise fun x y => key x ≤ key y) (b : β) :
    w.takeWhile (fun x => key x ≤ b) = w.filter fun x => key x ≤ b := by
  induction w with
  | nil => rfl
  | cons x w ih =>
      obtain ⟨hx, hw⟩ := List.pairwise_cons.mp h
      by_cases hle : key x ≤ b
      · simp [hle, ih hw]
      · have hnone : ∀ y ∈ w, ¬ key y ≤ b := fun y hy hyb => hle ((hx y hy).trans hyb)
        simpa [hle] using hnone

theorem dropWhile_le_eq_filter (h : w.Pairwise fun x y => key x ≤ key y) (b : β) :
    w.dropWhile (fun x => key x ≤ b) = w.filter fun x => b < key x := by
  induction w with
  | nil => rfl
  | cons x w ih =>
      obtain ⟨hx, hw⟩ := List.pairwise_cons.mp h
      by_cases hle : key x ≤ b
      · simp [hle, ih hw]
      · have hall : ∀ y ∈ x :: w, b < key y := by
          intro y hy
          rcases List.mem_cons.mp hy with rfl | hy
          · exact not_le.mp hle
          · exact (not_le.mp hle).trans_le (hx y hy)
        rw [List.dropWhile_cons_of_neg (by simpa using hle)]
        exact (List.filter_eq_self.mpr fun y hy => decide_eq_true (hall y hy)).symm

/-- Among equals, `a` is the last. -/
theorem filter_insertBehind (h : w.Pairwise fun x y => key x ≤ key y) (b : β) :
    (insertBehind key a w).filter (fun x => key x = b) =
      w.filter (fun x => key x = b) ++ if key a = b then [a] else [] := by
  have hbehind : ∀ y ∈ w.dropWhile (fun x => key x ≤ key a), key a < key y := by
    intro y hy
    rw [dropWhile_le_eq_filter h] at hy
    simpa using (List.mem_filter.mp hy).2
  have hsplit : w.filter (fun x => key x = b) =
      (w.takeWhile (fun x => key x ≤ key a)).filter (fun x => key x = b) ++
        (w.dropWhile (fun x => key x ≤ key a)).filter fun x => key x = b := by
    rw [← List.filter_append, List.takeWhile_append_dropWhile]
  rw [insertBehind_eq, List.filter_append, hsplit, List.filter_cons]
  by_cases hb : key a = b
  · have hnone : (w.dropWhile fun x => key x ≤ key a).filter (fun x => key x = b) = [] := by
      rw [List.filter_eq_nil_iff]
      intro y hy heq
      exact (hbehind y hy).ne (hb.trans (of_decide_eq_true heq).symm)
    rw [hnone, if_pos hb, if_pos (decide_eq_true hb), List.append_nil]
  · simp [hb]

/-- Only comparisons with `a` matter. -/
theorem insertBehind_congr {γ : Type*} [LinearOrder γ] {key' : α → γ}
    (h : ∀ x ∈ w, key a < key x ↔ key' a < key' x) :
    insertBehind key a w = insertBehind key' a w := by
  induction w with
  | nil => rfl
  | cons x w ih =>
      have hrest := ih fun y hy => h y (List.mem_cons_of_mem x hy)
      simp only [insertBehind, List.orderedInsert_cons, h x List.mem_cons_self] at hrest ⊢
      rw [hrest]

end Insertion

/-! ### Links -/

/-- Where each node leads to, forwards and backwards. -/
structure Links (α : Type*) where
  next : α → α
  prev : α → α

namespace Links

variable {α : Type*} {l : Links α} {a b c d e f x : α} {u v w : List α}

/-- `a` comes right before `b`. -/
def Adjacent (l : Links α) (a b : α) : Prop := l.next a = b ∧ l.prev b = a

/-- The ring of the mark `e` holds `w`. -/
structure Ring (l : Links α) (e : α) (w : List α) : Prop where
  nodup : (e :: w).Nodup
  chain : (e :: w ++ [e]).IsChain l.Adjacent

/-! ### A ring cut in two

The ring of `u ++ v` is a path from the mark through `u` and one through `v` back to it.  What
happens to it happens at the cut, between the last node of the one and the first of the other. -/

/-- The last node of the path that starts at the mark. -/
def lastOf (e : α) (u : List α) : α := (e :: u).getLast (List.cons_ne_nil e u)

/-- The first node of the path that ends at the mark. -/
def firstOf (e : α) (v : List α) : α := (v ++ [e]).head (by simp)

theorem dropLast_lastOf (e : α) (u : List α) : (e :: u).dropLast ++ [lastOf e u] = e :: u :=
  List.dropLast_append_getLast _

theorem lastOf_mem (e : α) (u : List α) : lastOf e u ∈ e :: u := List.getLast_mem _

theorem firstOf_mem (e : α) (u v : List α) : firstOf e v ∈ e :: (u ++ v) := by
  cases v with
  | nil => exact List.mem_cons_self
  | cons a v => exact List.mem_cons_of_mem e (List.mem_append_right u List.mem_cons_self)

/-- Where the first half goes to and where the second comes from are not inside of it. -/
structure Cut (e : α) (u v : List α) : Prop where
  last_left : lastOf e u ∉ (e :: u).dropLast
  first_left : firstOf e v ∉ u
  last_right : lastOf e u ∉ v
  first_right : firstOf e v ∉ (v ++ [e]).tail

theorem cut (h : (e :: (u ++ v)).Nodup) : Cut e u v := by
  obtain ⟨hleft, hright, hdisjoint⟩ := List.nodup_append.mp (show ((e :: u) ++ v).Nodup from h)
  have hev : e ∉ v := fun hmem => hdisjoint e List.mem_cons_self e hmem rfl
  refine ⟨?_, ?_, fun hmem => hdisjoint _ (lastOf_mem e u) _ hmem rfl, ?_⟩
  · rw [← dropLast_lastOf] at hleft
    intro hmem
    exact (List.nodup_append.mp hleft).2.2 _ hmem _ (List.mem_singleton_self _) rfl
  · cases v with
    | nil => exact (List.nodup_cons.mp hleft).1
    | cons n v =>
        intro hmem
        exact hdisjoint n (List.mem_cons_of_mem e hmem) n List.mem_cons_self rfl
  · cases v with
    | nil => exact List.not_mem_nil
    | cons n v =>
        rw [List.cons_append, List.tail_cons, List.mem_append, List.mem_singleton]
        rintro (hmem | heq)
        · exact (List.nodup_cons.mp hright).1 hmem
        · exact hev (heq ▸ List.mem_cons_self)

@[simp] theorem lastOf_nil (e : α) : lastOf e [] = e := rfl

@[simp] theorem lastOf_concat (e : α) (u : List α) (a : α) : lastOf e (u ++ [a]) = a := by
  simp [lastOf]

@[simp] theorem firstOf_nil (e : α) : firstOf e [] = e := rfl

@[simp] theorem firstOf_cons (e a : α) (v : List α) : firstOf e (a :: v) = a := rfl

/-- The two paths of a ring. -/
theorem ring_iff : l.Ring e (u ++ v) ↔ (e :: (u ++ v)).Nodup ∧ (e :: u).IsChain l.Adjacent ∧
    (v ++ [e]).IsChain l.Adjacent ∧ l.Adjacent (lastOf e u) (firstOf e v) := by
  have hsplit : e :: (u ++ v) ++ [e] = (e :: u) ++ (v ++ [e]) := by simp
  have hends : (∀ x ∈ (e :: u).getLast?, ∀ y ∈ (v ++ [e]).head?, l.Adjacent x y) ↔
      l.Adjacent (lastOf e u) (firstOf e v) := by
    rw [List.getLast?_eq_some_getLast (List.cons_ne_nil e u), List.head?_eq_some_head (by simp)]
    simp [lastOf, firstOf]
  constructor
  · rintro ⟨hnodup, hchain⟩
    rw [hsplit, List.isChain_append, hends] at hchain
    exact ⟨hnodup, hchain⟩
  · rintro ⟨hnodup, hchain⟩
    refine ⟨hnodup, ?_⟩
    rw [hsplit, List.isChain_append, hends]
    exact hchain

theorem Ring.next_lastOf (h : l.Ring e (u ++ v)) : l.next (lastOf e u) = firstOf e v :=
  (ring_iff.mp h).2.2.2.1

theorem Ring.prev_firstOf (h : l.Ring e (u ++ v)) : l.prev (firstOf e v) = lastOf e u :=
  (ring_iff.mp h).2.2.2.2

theorem Ring.prev_mid (h : l.Ring e (u ++ x :: v)) : l.prev x = lastOf e u := h.prev_firstOf

theorem Ring.next_mid (h : l.Ring e (u ++ x :: v)) : l.next x = firstOf e v := by
  have hring : l.Ring e ((u ++ [x]) ++ v) := by rwa [List.append_assoc, List.singleton_append]
  rw [← hring.next_lastOf, lastOf_concat]

/-! ### One write -/

variable [DecidableEq α]

/-- Makes `a` and `b` neighbours. -/
def link (l : Links α) (a b : α) : Links α where
  next := Function.update l.next a b
  prev := Function.update l.prev b a

/-- `x` between `a` and what came after it. -/
def insertAfter (l : Links α) (a x : α) : Links α := (l.link x (l.next a)).link a x

/-- `x` between `b` and what came before it. -/
def insertBefore (l : Links α) (b x : α) : Links α := (l.link x b).link (l.prev b) x

/-- The neighbours of `x` become neighbours of each other. -/
def remove (l : Links α) (x : α) : Links α := l.link (l.prev x) (l.next x)

theorem link_next : (l.link a b).next = Function.update l.next a b := rfl

theorem link_prev : (l.link a b).prev = Function.update l.prev b a := rfl

theorem adjacent_link_self : (l.link a b).Adjacent a b := by
  rw [Adjacent, link_next, link_prev, Function.update_self, Function.update_self]
  exact ⟨rfl, rfl⟩

theorem Adjacent.link (h : l.Adjacent c d) (hc : c ≠ a) (hd : d ≠ b) :
    (l.link a b).Adjacent c d := by
  rw [Adjacent, link_next, link_prev, Function.update_of_ne hc, Function.update_of_ne hd]
  exact h

/-- A chain that does not go on from `a`, and that does not come to `b`. -/
theorem isChain_link (h : w.IsChain l.Adjacent) (ha : a ∉ w.dropLast) (hb : b ∉ w.tail) :
    w.IsChain (l.link a b).Adjacent := by
  induction w with
  | nil => exact .nil
  | cons c w ih =>
      cases w with
      | nil => exact .singleton c
      | cons d w =>
          rw [List.dropLast_cons_cons, List.mem_cons, not_or] at ha
          rw [List.tail_cons, List.mem_cons, not_or] at hb
          obtain ⟨hcd, hrest⟩ := List.isChain_cons_cons.mp h
          refine List.isChain_cons_cons.mpr ⟨hcd.link (Ne.symm ha.1) (Ne.symm hb.1), ?_⟩
          exact ih hrest ha.2 hb.2

/-! ### Inserting, removing, and the other rings -/

/-- A new element right behind `u`. -/
theorem Ring.insertAfter (h : l.Ring e (u ++ v)) (hx : x ∉ e :: (u ++ v)) :
    (l.insertAfter (lastOf e u) x).Ring e (u ++ x :: v) := by
  obtain ⟨hnodup, hleft, hright, hends⟩ := ring_iff.mp h
  obtain ⟨last_left, first_left, last_right, first_right⟩ := cut hnodup
  have hxu : x ∉ e :: u := fun hmem => hx (List.mem_append_left v hmem)
  have hxv : x ∉ v := fun hmem => hx (List.mem_append_right (e :: u) hmem)
  have hxe : x ≠ e := fun heq => hx (heq ▸ List.mem_cons_self)
  have hnext : l.next (lastOf e u) = firstOf e v := h.next_lastOf
  -- `x` and the second half
  have hright₁ : (x :: (v ++ [e])).IsChain (l.link x (firstOf e v)).Adjacent := by
    refine List.isChain_cons.mpr ⟨fun y hy => ?_, isChain_link hright ?_ first_right⟩
    · rw [List.head?_eq_some_head (by simp)] at hy
      obtain rfl := Option.some.inj hy
      exact adjacent_link_self
    · rw [List.dropLast_concat]
      exact hxv
  have hleft₁ : (e :: u).IsChain (l.link x (firstOf e v)).Adjacent :=
    isChain_link hleft (fun hmem => hxu (List.mem_of_mem_dropLast hmem)) first_left
  rw [Links.insertAfter, hnext, ring_iff]
  refine ⟨?_, isChain_link hleft₁ last_left fun hmem => hxu (List.mem_cons_of_mem e hmem),
    isChain_link hright₁ ?_ ?_, adjacent_link_self⟩
  · rw [← List.cons_append, List.nodup_middle, List.nodup_cons]
    exact ⟨hx, hnodup⟩
  · rw [List.dropLast_concat, List.mem_cons, not_or]
    exact ⟨fun heq => hxu (heq ▸ lastOf_mem e u), last_right⟩
  · rw [List.cons_append, List.tail_cons, List.mem_append, List.mem_singleton, not_or]
    exact ⟨hxv, hxe⟩

/-- A new element right before the first of `v`. -/
theorem Ring.insertBefore (h : l.Ring e (u ++ v)) (hx : x ∉ e :: (u ++ v)) :
    (l.insertBefore (firstOf e v) x).Ring e (u ++ x :: v) := by
  have hring := h.insertAfter hx
  rw [Links.insertAfter, h.next_lastOf] at hring
  rw [Links.insertBefore, h.prev_firstOf]
  exact hring

theorem Ring.remove (h : l.Ring e (u ++ x :: v)) : (l.remove x).Ring e (u ++ v) := by
  obtain ⟨hnodup, hleft, hright, -⟩ := ring_iff.mp h
  have hnodup' : (e :: (u ++ v)).Nodup :=
    hnodup.sublist (((List.sublist_cons_self x v).append_left u).cons_cons e)
  obtain ⟨last_left, first_left, last_right, first_right⟩ := cut hnodup'
  have hchain : (v ++ [e]).IsChain l.Adjacent := (List.isChain_cons.mp hright).2
  rw [Links.remove, h.prev_mid, h.next_mid, ring_iff]
  refine ⟨hnodup', isChain_link hleft last_left first_left, isChain_link hchain ?_ first_right,
    adjacent_link_self⟩
  rw [List.dropLast_concat]
  exact last_right

/-- The removed element still has its links. -/
theorem Ring.prev_remove (h : l.Ring e (u ++ x :: v)) : (l.remove x).prev x = lastOf e u := by
  have hring : l.Ring e ((u ++ [x]) ++ v) := by rwa [List.append_assoc, List.singleton_append]
  have hne : x ≠ firstOf e v := by
    intro heq
    have hcut := (cut hring.nodup).first_left
    rw [← heq] at hcut
    exact hcut (by simp)
  rw [Links.remove, link_prev, h.next_mid, Function.update_of_ne hne, h.prev_mid]

/-- A ring is as it was when neither of the two nodes belongs to it. -/
theorem Ring.link (h : l.Ring e w) (ha : a ∉ e :: w) (hb : b ∉ e :: w) : (l.link a b).Ring e w := by
  refine ⟨h.nodup, isChain_link h.chain ?_ ?_⟩
  · rw [List.dropLast_concat]
    exact ha
  · rw [List.cons_append, List.tail_cons, List.mem_append, List.mem_singleton]
    rintro (hmem | heq)
    · exact hb (List.mem_cons_of_mem e hmem)
    · exact hb (heq ▸ List.mem_cons_self)

theorem Ring.insertBefore_eq (h : l.Ring e (u ++ v)) :
    l.insertBefore (firstOf e v) x = l.insertAfter (lastOf e u) x := by
  rw [Links.insertAfter, h.next_lastOf, Links.insertBefore, h.prev_firstOf]

/-- Nothing happens to a ring when an element joins or leaves another one. -/
theorem Ring.insertAfter_other (h : l.Ring e w) (hring : l.Ring f (u ++ v))
    (hapart : ∀ a ∈ f :: (u ++ v), a ∉ e :: w) (hx : x ∉ e :: w) :
    (l.insertAfter (lastOf f u) x).Ring e w := by
  have hlast : lastOf f u ∉ e :: w := hapart _ (List.mem_append_left v (lastOf_mem f u))
  have hfirst : firstOf f v ∉ e :: w := hapart _ (firstOf_mem f u v)
  rw [Links.insertAfter, hring.next_lastOf]
  exact (h.link hx hfirst).link hlast hx

theorem Ring.remove_other (h : l.Ring e w) (hring : l.Ring f (u ++ x :: v))
    (hapart : ∀ a ∈ f :: (u ++ x :: v), a ∉ e :: w) : (l.remove x).Ring e w := by
  rw [Links.remove, hring.prev_mid, hring.next_mid]
  refine h.link (hapart _ (List.mem_append_left (x :: v) (lastOf_mem f u))) (hapart _ ?_)
  have hmem := firstOf_mem f (u ++ [x]) v
  rwa [List.append_assoc, List.singleton_append] at hmem

/-- A mark alone. -/
theorem ring_link_self : (l.link e e).Ring e [] :=
  ⟨List.nodup_singleton e, List.isChain_pair.mpr adjacent_link_self⟩

end Links

end PeripheralTester.Lib
