import PeripheralTester.Lib.Replay

/-! # Two runs on one recording

A program must not let its observer see what it was given to forget.  `Coupled` compares two
programs that are replayed against the same recording from different states: if the first has an
outcome, so has the second, and both have left the same observations.  Its precondition and its
postcondition relate the two states, and also see the trace of the first run so far, since what the
environment may do next can depend on it. -/

namespace PeripheralTester.Lib

/-- What is assumed of the environment, and what is seen of a run. -/
structure Setting (ε ω φ : Type) where
  fair : ε → Prop
  lawful : List ω → Prop
  lawful_of_append : ∀ w w', lawful (w ++ w') → lawful w
  seen : ω → Option φ

namespace Replay

variable {σ ε ω φ α β γ δ ι : Type}

/-- The outcomes of two runs go on with the same recording, and they look the same. -/
structure Matches (E : Setting ε ω φ) (Q : α → β → List ω → σ → σ → Prop) (w : List ω)
    (o₁ : Outcome σ ε ω α) (o₂ : Outcome σ ε ω β) : Prop where
  rest : o₂.rest = o₁.rest
  seen : o₂.trace.filterMap E.seen = o₁.trace.filterMap E.seen
  post : Q o₁.value o₂.value (w ++ o₁.trace) o₁.state o₂.state

/-- From states related by `P`, the second run follows the first. -/
def Coupled (E : Setting ε ω φ) (P : List ω → σ → σ → Prop) (m₁ : Replay σ ε ω α)
    (m₂ : Replay σ ε ω β) (Q : α → β → List ω → σ → σ → Prop) : Prop :=
  ∀ w s₁ s₂ env, (∀ e ∈ env, E.fair e) → P w s₁ s₂ → ∀ o₁, m₁ s₁ env = some o₁ →
    E.lawful (w ++ o₁.trace) → (∀ e ∈ o₁.rest, e ∈ env) ∧
      ∃ o₂, m₂ s₂ env = some o₂ ∧ Matches E Q w o₁ o₂

/-- The two values are the same, and the states are related. -/
def Both (I : List ω → σ → σ → Prop) (a b : α) (w : List ω) (s₁ s₂ : σ) : Prop :=
  b = a ∧ I w s₁ s₂

/-- The part keeps the relation, whatever it is for. -/
abbrev Keeps (E : Setting ε ω φ) (I : List ω → σ → σ → Prop) (m : Replay σ ε ω α) : Prop :=
  Coupled E I m m (Both I)

variable {E : Setting ε ω φ} {P P' I : List ω → σ → σ → Prop} {m₁ : Replay σ ε ω α}
  {m₂ : Replay σ ε ω β} {Q Q' : α → β → List ω → σ → σ → Prop}

theorem Coupled.mono (h : Coupled E P m₁ m₂ Q) (hP : ∀ w s₁ s₂, P' w s₁ s₂ → P w s₁ s₂)
    (hQ : ∀ a b w s₁ s₂, Q a b w s₁ s₂ → Q' a b w s₁ s₂) : Coupled E P' m₁ m₂ Q' := by
  intro w s₁ s₂ env henv hpre o₁ ho₁ hlawful
  obtain ⟨hrest, o₂, ho₂, hm⟩ := h w s₁ s₂ env henv (hP _ _ _ hpre) o₁ ho₁ hlawful
  exact ⟨hrest, o₂, ho₂, hm.rest, hm.seen, hQ _ _ _ _ _ hm.post⟩

/-- **The rule for sequences.** -/
theorem Coupled.bind {f₁ : α → Replay σ ε ω γ} {f₂ : β → Replay σ ε ω δ}
    {R : γ → δ → List ω → σ → σ → Prop} (hm : Coupled E P m₁ m₂ Q)
    (hf : ∀ a b, Coupled E (Q a b) (f₁ a) (f₂ b) R) :
    Coupled E P (m₁ >>= f₁) (m₂ >>= f₂) R := by
  intro w s₁ s₂ env henv hpre o ho hlawful
  obtain ⟨o₁, ho₁, p₁, hp₁, rfl⟩ := bind_some.mp ho
  rw [← List.append_assoc] at hlawful
  obtain ⟨hrest₁, o₂, ho₂, hm₁⟩ :=
    hm w s₁ s₂ env henv hpre o₁ ho₁ (E.lawful_of_append _ _ hlawful)
  obtain ⟨hrest₂, p₂, hp₂, hm₂⟩ := hf o₁.value o₂.value _ _ _ _
    (fun e he => henv e (hrest₁ e he)) hm₁.post p₁ hp₁ hlawful
  refine ⟨fun e he => hrest₁ e (hrest₂ e he), _,
    bind_some.mpr ⟨o₂, ho₂, p₂, hm₁.rest ▸ hp₂, rfl⟩, hm₂.rest, ?_, ?_⟩
  · rw [List.filterMap_append, List.filterMap_append, hm₁.seen, hm₂.seen]
  · rw [← List.append_assoc]
    exact hm₂.post

/-- After parts that have the same value in both runs. -/
theorem Coupled.then {m m' : Replay σ ε ω γ} {f₁ : γ → Replay σ ε ω α} {f₂ : γ → Replay σ ε ω β}
    (hm : Coupled E P m m' (Both I)) (hf : ∀ a, Coupled E I (f₁ a) (f₂ a) Q) :
    Coupled E P (m >>= f₁) (m' >>= f₂) Q := by
  apply hm.bind
  intro a b w s₁ s₂ env henv hpre
  obtain ⟨rfl, hpre⟩ := hpre
  exact hf _ w s₁ s₂ env henv hpre

theorem coupled_pure {a : α} {b : β} (h : ∀ w s₁ s₂, P w s₁ s₂ → Q a b w s₁ s₂) :
    Coupled E P (Pure.pure a : Replay σ ε ω α) (Pure.pure b : Replay σ ε ω β) Q := by
  intro w s₁ s₂ env _ hpre o ho _
  obtain rfl := pure_some.mp ho
  refine ⟨fun _ => id, _, rfl, rfl, rfl, ?_⟩
  rw [List.append_nil]
  exact h w s₁ s₂ hpre

theorem keeps_pure (a : α) : Keeps E I (Pure.pure a : Replay σ ε ω α) :=
  coupled_pure fun _ _ _ h => ⟨rfl, h⟩

theorem Coupled.ite {c : Prop} [Decidable c] {m₁' : Replay σ ε ω α} {m₂' : Replay σ ε ω β}
    (h : c → Coupled E P m₁ m₂ Q) (h' : ¬ c → Coupled E P m₁' m₂' Q) :
    Coupled E P (if c then m₁ else m₁') (if c then m₂ else m₂') Q := by
  split
  · next hc => exact h hc
  · next hc => exact h' hc

/-- Each run changes its state. -/
theorem coupled_modify {f₁ f₂ : σ → σ} {R : Unit → Unit → List ω → σ → σ → Prop}
    (h : ∀ w s₁ s₂, P w s₁ s₂ → R () () w (f₁ s₁) (f₂ s₂)) :
    Coupled E P (modify f₁) (modify f₂) R := by
  intro w s₁ s₂ env _ hpre o ho _
  obtain rfl := Option.some.inj ho
  refine ⟨fun _ => id, _, rfl, rfl, rfl, ?_⟩
  rw [List.append_nil]
  exact h w s₁ s₂ hpre

theorem keeps_modify {f : σ → σ} (h : ∀ w s₁ s₂, I w s₁ s₂ → I w (f s₁) (f s₂)) :
    Keeps E I (modify f : Replay σ ε ω Unit) :=
  coupled_modify fun w s₁ s₂ hpre => ⟨rfl, h w s₁ s₂ hpre⟩

/-- The acts may differ in what is not seen of them. -/
theorem coupled_emit {w₁ w₂ : List ω} {R : Unit → Unit → List ω → σ → σ → Prop}
    (hseen : w₂.filterMap E.seen = w₁.filterMap E.seen)
    (h : ∀ w s₁ s₂, P w s₁ s₂ → R () () (w ++ w₁) s₁ s₂) : Coupled E P (emit w₁) (emit w₂) R := by
  intro w s₁ s₂ env _ hpre o ho _
  obtain rfl := Option.some.inj ho
  exact ⟨fun _ => id, _, rfl, rfl, hseen, h w s₁ s₂ hpre⟩

/-- The state is read: from there on the two runs have values of their own. -/
theorem coupled_get {f₁ : σ → Replay σ ε ω α} {f₂ : σ → Replay σ ε ω β}
    (h : ∀ t₁ t₂, Coupled E (fun w s₁ s₂ => P w s₁ s₂ ∧ s₁ = t₁ ∧ s₂ = t₂) (f₁ t₁) (f₂ t₂) Q) :
    Coupled E P (get >>= f₁) (get >>= f₂) Q := by
  intro w s₁ s₂ env henv hpre o ho hlawful
  obtain ⟨o₁, ho₁, p₁, hp₁, rfl⟩ := bind_some.mp ho
  obtain rfl := Option.some.inj ho₁
  obtain ⟨hrest, p₂, hp₂, hm⟩ := h s₁ s₂ w s₁ s₂ env henv ⟨hpre, rfl, rfl⟩ p₁ hp₁ hlawful
  exact ⟨hrest, _, bind_some.mpr ⟨_, rfl, p₂, hp₂, rfl⟩, hm.rest, hm.seen, hm.post⟩

/-- **The rule for loops.** -/
theorem keeps_allOf {body : ι → Replay σ ε ω Bool} (h : ∀ i, Keeps E I (body i)) (l : List ι) :
    Keeps E I (allOf l body) := by
  induction l with
  | nil => exact keeps_pure true
  | cons i l ih =>
      rw [allOf_cons]
      exact Coupled.then (h i) fun passed => .ite (fun _ => ih) fun _ => keeps_pure false

end Replay

end PeripheralTester.Lib
