import Mathlib.Tactic

/-! # Reordering independent operations

Operations act on a state, and what matters of a state is its class under an equivalence `r`
(`Respects`).  Two operations commute if their order makes no difference up to `r`.

* `Swaps ind` relates two sequences that differ by swaps of independent neighbours.
* `Swaps.of_perm`: two arrangements of the same operations are so related if both keep to a
  precedence, and operations without precedence between them are independent.
* `Respects.foldl_swaps`: swaps of commuting operations do not change the class of the state the
  sequence ends in. -/

namespace PeripheralTester.Lib

variable {σ ω : Type*}

/-! ### Swaps of neighbours -/

/-- The sequences differ by swaps of independent neighbours. -/
inductive Swaps (ind : ω → ω → Prop) : List ω → List ω → Prop
  | refl (l : List ω) : Swaps ind l l
  | swap {a b : ω} (l : List ω) : ind a b → Swaps ind (a :: b :: l) (b :: a :: l)
  | cons {l₁ l₂ : List ω} (a : ω) : Swaps ind l₁ l₂ → Swaps ind (a :: l₁) (a :: l₂)
  | trans {l₁ l₂ l₃ : List ω} : Swaps ind l₁ l₂ → Swaps ind l₂ l₃ → Swaps ind l₁ l₃

section Swaps

variable {ind prec : ω → ω → Prop} {l₁ l₂ : List ω} {a : ω}

/-- An operation moves to the front past those it is independent of. -/
theorem Swaps.bubble {before : List ω} (after : List ω) (h : ∀ x ∈ before, ind x a) :
    Swaps ind (before ++ a :: after) (a :: (before ++ after)) := by
  induction before with
  | nil => exact .refl _
  | cons x before ih =>
      have hrest := ih fun y hy => h y (List.mem_cons_of_mem x hy)
      exact (hrest.cons x).trans (.swap _ (h x List.mem_cons_self))

/-- No operation stands after one that it has to precede. -/
def Keeps (prec : ω → ω → Prop) (l : List ω) : Prop := l.Pairwise fun a b => ¬prec b a

instance [∀ a b, Decidable (prec a b)] (l : List ω) : Decidable (Keeps prec l) :=
  inferInstanceAs (Decidable (l.Pairwise fun a b => ¬prec b a))

/-- Two arrangements that keep to a precedence differ by swaps of independent neighbours. -/
theorem Swaps.of_perm (h : l₁.Perm l₂) (h₁ : Keeps prec l₁) (h₂ : Keeps prec l₂)
    (hind : ∀ a ∈ l₁, ∀ b ∈ l₁, a ≠ b → ¬prec a b → ¬prec b a → ind a b) : Swaps ind l₂ l₁ := by
  induction l₁ generalizing l₂ with
  | nil =>
      rw [h.nil_eq]
      exact .refl _
  | cons a l₁ ih =>
      -- the first occurrence of `a` in the second arrangement moves to the front
      obtain ⟨before, after, rfl, hfirst⟩ :=
        List.eq_append_cons_of_mem (h.subset List.mem_cons_self)
      have hperm : l₁.Perm (before ++ after) :=
        (List.perm_cons a).mp (h.trans List.perm_middle)
      have hfront : ∀ x ∈ before, ind x a := by
        intro x hx
        have hne : x ≠ a := fun he => hfirst (he ▸ hx)
        have hmem : x ∈ l₁ := hperm.symm.subset (List.mem_append_left _ hx)
        refine hind x (List.mem_cons_of_mem _ hmem) a List.mem_cons_self hne ?_ ?_
        · exact (List.pairwise_cons.mp h₁).1 x hmem
        · exact (List.pairwise_append.mp h₂).2.2 x hx a List.mem_cons_self
      have hkeeps : Keeps prec (before ++ after) :=
        h₂.sublist ((List.sublist_cons_self a after).append_left before)
      exact (Swaps.bubble after hfront).trans ((ih hperm (List.pairwise_cons.mp h₁).2 hkeeps
        fun x hx y hy => hind x (List.mem_cons_of_mem _ hx) y (List.mem_cons_of_mem _ hy)).cons a)

end Swaps

/-! ### Operations on states -/

/-- The operations act on the classes of an equivalence. -/
structure Respects (act : σ → ω → σ) (r : σ → σ → Prop) : Prop where
  equivalence : Equivalence r
  congr : ∀ {s t : σ} (a : ω), r s t → r (act s a) (act t a)

/-- The order of the two operations makes no difference. -/
def Commutes (act : σ → ω → σ) (r : σ → σ → Prop) (a b : ω) : Prop :=
  ∀ s, r (act (act s a) b) (act (act s b) a)

section Respects

variable {act : σ → ω → σ} {r : σ → σ → Prop} {s t : σ} {l l₁ l₂ : List ω}

theorem Respects.foldl_congr (h : Respects act r) (hst : r s t) :
    r (l.foldl act s) (l.foldl act t) := by
  induction l generalizing s t with
  | nil => exact hst
  | cons a l ih => exact ih (h.congr a hst)

/-- **Swapping commuting operations leaves the class of the last state.** -/
theorem Respects.foldl_swaps (h : Respects act r) (hl : Swaps (Commutes act r) l₁ l₂) (s : σ) :
    r (l₁.foldl act s) (l₂.foldl act s) := by
  induction hl generalizing s with
  | refl => exact h.equivalence.refl _
  | swap l hab => exact h.foldl_congr (hab s)
  | cons a _ ih => exact ih _
  | trans _ _ ih₁ ih₂ => exact h.equivalence.trans (ih₁ s) (ih₂ s)

end Respects

end PeripheralTester.Lib
