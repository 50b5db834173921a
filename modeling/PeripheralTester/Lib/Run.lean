import Mathlib.Tactic

/-! # Runs of a labelled step function

A concurrent system is a partial step function `step : σ → ℓ → Option σ`.  The label names the
party that moves and carries what its environment answers; `none` says that the move is not
enabled in this state.  An interleaving is a list of labels, so a statement about every
interleaving is a statement about every list.

* `Run step s ls s'` is the relational form used in proofs, `exec` the function a concrete
  schedule is evaluated with; `exec_eq_some_iff` identifies them.
* `Meets step C s ls` says that every move of the schedule satisfies `C` in the state it is
  made in.  `Run.invariant` is the invariant rule for such schedules.
* `Reachable` forgets the schedule. -/

namespace PeripheralTester.Lib

variable {σ ℓ : Type*}

/-- `Run step s ls s'`: the moves `ls`, in this order, lead from `s` to `s'`. -/
inductive Run (step : σ → ℓ → Option σ) : σ → List ℓ → σ → Prop
  | refl (s : σ) : Run step s [] s
  | step {s s₁ s₂ : σ} {a : ℓ} {ls : List ℓ} :
      step s a = some s₁ → Run step s₁ ls s₂ → Run step s (a :: ls) s₂

/-- The state after a schedule, if every one of its moves is enabled. -/
def exec (step : σ → ℓ → Option σ) : σ → List ℓ → Option σ
  | s, [] => some s
  | s, a :: ls => (step s a).bind fun s₁ => exec step s₁ ls

/-- Every move of the schedule satisfies `C` in the state it is made in. -/
def Meets (step : σ → ℓ → Option σ) (C : σ → ℓ → Prop) : σ → List ℓ → Prop
  | _, [] => True
  | s, a :: ls => C s a ∧ ∀ s₁, step s a = some s₁ → Meets step C s₁ ls

/-- Some schedule leads from `s` to `s'`. -/
def Reachable (step : σ → ℓ → Option σ) (s s' : σ) : Prop := ∃ ls, Run step s ls s'

variable {step : σ → ℓ → Option σ} {C : σ → ℓ → Prop} {s s₁ s₂ : σ} {a : ℓ} {ls ls₁ ls₂ : List ℓ}

theorem exec_eq_some_iff : exec step s ls = some s₁ ↔ Run step s ls s₁ := by
  induction ls generalizing s with
  | nil =>
      constructor
      · intro h
        obtain rfl := Option.some.inj h
        exact .refl _
      · rintro ⟨⟩
        rfl
  | cons a ls ih =>
      simp only [exec, Option.bind_eq_some_iff]
      constructor
      · rintro ⟨t, ht, h⟩
        exact .step ht (ih.mp h)
      · intro h
        cases h with
        | step ht h => exact ⟨_, ht, ih.mpr h⟩

/-- A run of a schedule that is evaluated rather than derived. -/
theorem Run.of_exec (h : exec step s ls = some s₁) : Run step s ls s₁ := exec_eq_some_iff.mp h

theorem exec_append :
    exec step s (ls₁ ++ ls₂) = (exec step s ls₁).bind fun t => exec step t ls₂ := by
  induction ls₁ generalizing s with
  | nil => rfl
  | cons a ls ih =>
      simp only [List.cons_append, exec, Option.bind_assoc]
      congr 1
      funext t
      exact ih

theorem Run.single (h : step s a = some s₁) : Run step s [a] s₁ := .step h (.refl _)

theorem Run.trans (h₁ : Run step s ls₁ s₁) (h₂ : Run step s₁ ls₂ s₂) :
    Run step s (ls₁ ++ ls₂) s₂ := by
  induction h₁ with
  | refl => exact h₂
  | step h _ ih => exact .step h (ih h₂)

theorem Run.snoc (h₁ : Run step s ls s₁) (h₂ : step s₁ a = some s₂) : Run step s (ls ++ [a]) s₂ :=
  h₁.trans (.single h₂)

theorem meets_cons (hs : step s a = some s₁) :
    Meets step C s (a :: ls) ↔ C s a ∧ Meets step C s₁ ls := by
  simp only [Meets, hs, Option.some.injEq, forall_eq']

theorem meets_cons_of_none (hs : step s a = none) : Meets step C s (a :: ls) ↔ C s a := by
  simp only [Meets, hs, reduceCtorEq, false_implies, implies_true, and_true]

/-- Whether a schedule meets a decidable condition can be computed. -/
def Meets.decide [∀ s a, Decidable (C s a)] : ∀ (s : σ) (ls : List ℓ), Decidable (Meets step C s ls)
  | _, [] => isTrue trivial
  | s, a :: ls =>
      match hs : step s a with
      | none => decidable_of_iff (C s a) (meets_cons_of_none hs).symm
      | some t =>
          have := Meets.decide t ls
          decidable_of_iff (C s a ∧ Meets step C t ls) (meets_cons hs).symm

instance [∀ s a, Decidable (C s a)] (s : σ) (ls : List ℓ) : Decidable (Meets step C s ls) :=
  Meets.decide s ls

/-- **The invariant rule**: what every move satisfying `C` preserves holds after every schedule
whose moves satisfy `C`. -/
theorem Run.invariant {I : σ → Prop}
    (hstep : ∀ s a s', I s → C s a → step s a = some s' → I s')
    (h : Run step s ls s₁) (hm : Meets step C s ls) (hi : I s) : I s₁ := by
  induction h with
  | refl => exact hi
  | step hs _ ih => exact ih (hm.2 _ hs) (hstep _ _ _ hi hm.1 hs)

/-- A run that meets one condition meets another that follows from it and an invariant. -/
theorem Run.meets {I : σ → Prop} {D : σ → ℓ → Prop}
    (hstep : ∀ s a s', I s → C s a → step s a = some s' → I s')
    (hD : ∀ s a s', I s → C s a → step s a = some s' → D s a)
    (h : Run step s ls s₁) (hm : Meets step C s ls) (hi : I s) : Meets step D s ls := by
  induction h with
  | refl => trivial
  | step hs _ ih =>
      have hrest := ih (hm.2 _ hs) (hstep _ _ _ hi hm.1 hs)
      exact (meets_cons hs).mpr ⟨hD _ _ _ hi hm.1 hs, hrest⟩

/-- A condition that a run meets and the schedule after it goes on to meet. -/
theorem Run.meets_append (h : Run step s ls₁ s₁) (h₁ : Meets step C s ls₁)
    (h₂ : Meets step C s₁ ls₂) : Meets step C s (ls₁ ++ ls₂) := by
  induction h with
  | refl => exact h₂
  | step hs _ ih =>
      obtain ⟨ha, hrest⟩ := (meets_cons hs).mp h₁
      exact (meets_cons hs).mpr ⟨ha, ih hrest h₂⟩

/-- The invariant rule for arbitrary schedules. -/
theorem Run.preserves {I : σ → Prop} (hstep : ∀ s a s', I s → step s a = some s' → I s')
    (h : Run step s ls s₁) (hi : I s) : I s₁ := by
  induction h with
  | refl => exact hi
  | step hs _ ih => exact ih (hstep _ _ _ hi hs)

theorem Reachable.preserves {I : σ → Prop} (hstep : ∀ s a s', I s → step s a = some s' → I s')
    (h : Reachable step s s₁) (hi : I s) : I s₁ := by
  obtain ⟨ls, hr⟩ := h
  exact hr.preserves hstep hi

theorem Reachable.refl (s : σ) : Reachable step s s := ⟨[], .refl s⟩

theorem Reachable.next (h : Reachable step s s₁) (hs : step s₁ a = some s₂) :
    Reachable step s s₂ := by
  obtain ⟨ls, hr⟩ := h
  exact ⟨ls ++ [a], hr.snoc hs⟩

end PeripheralTester.Lib
