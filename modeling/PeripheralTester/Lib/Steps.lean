import Mathlib.Data.List.ProdSigma
import PeripheralTester.Lib.Replay

/-! # Loops, step by step

A loop that returns at its first failure goes through a list of stages.  A `Step` is a stage that
was performed, with the state it was performed from and its outcome; `Steps` are the steps of a run
of the loop, each from where the one before it ended, up to the first that fails.  `allOf_steps`
takes an outcome of the loop apart into its steps: the loop passes if all of them pass, and its
trace is theirs. -/

namespace PeripheralTester.Lib.Replay

variable {σ ε ω α ι κ : Type}

/-! ### Loops in loops -/

theorem allOf_append (l l' : List ι) (body : ι → Replay σ ε ω Bool) :
    allOf (l ++ l') body =
      (allOf l body >>= fun passed => if passed then allOf l' body else Pure.pure false) := by
  induction l with
  | nil =>
      have hnil : allOf [] body = Pure.pure true := rfl
      rw [hnil, pure_bind, if_pos rfl, List.nil_append]
  | cons i l ih =>
      rw [List.cons_append, allOf_cons, allOf_cons, bind_assoc, ih]
      refine congrArg _ (funext fun passed => ?_)
      cases passed with
      | true => rfl
      | false => simp

theorem allOf_map (f : κ → ι) (l : List κ) (body : ι → Replay σ ε ω Bool) :
    allOf (l.map f) body = allOf l fun k => body (f k) := by
  induction l with
  | nil => rfl
  | cons k l ih => rw [List.map_cons, allOf_cons, allOf_cons, ih]

/-- A loop in each iteration of a loop is a loop over the pairs. -/
theorem allOf_product (l : List ι) (l' : List κ) (body : ι × κ → Replay σ ε ω Bool) :
    allOf (l ×ˢ l') body = allOf l fun i => allOf l' fun k => body (i, k) := by
  induction l with
  | nil => rfl
  | cons i l ih =>
      have hcons : (i :: l) ×ˢ l' = l'.map (Prod.mk i) ++ l ×ˢ l' := rfl
      rw [hcons, allOf_append, allOf_map, allOf_cons, ih]

/-! ### Steps -/

/-- A stage that was performed. -/
structure Step (stage : ι → Replay σ ε ω Bool) where
  index : ι
  state : σ
  env : List ε
  outcome : Outcome σ ε ω Bool
  performed : stage index state env = some outcome

variable {stage : ι → Replay σ ε ω Bool}

/-- The stage returned `true`. -/
def Step.passed (p : Step stage) : Bool := p.outcome.value

/-- The steps of a run through the stages `l`, up to the first that fails. -/
inductive Steps (stage : ι → Replay σ ε ω Bool) :
    List ι → σ → List ε → List (Step stage) → Prop
  | nil (s : σ) (env : List ε) : Steps stage [] s env []
  | failed {l : List ι} (p : Step stage) (h : p.passed = false) :
      Steps stage (p.index :: l) p.state p.env [p]
  | passed {l : List ι} {ps : List (Step stage)} (p : Step stage) (h : p.passed = true)
      (hrest : Steps stage l p.outcome.state p.outcome.rest ps) :
      Steps stage (p.index :: l) p.state p.env (p :: ps)

namespace Steps

variable {l : List ι} {s : σ} {env : List ε} {ps : List (Step stage)}

/-- The stages are performed in their order, without a gap. -/
theorem isPrefix (h : Steps stage l s env ps) : ps.map Step.index <+: l := by
  induction h with
  | nil s env => exact List.prefix_rfl
  | failed p _ => exact List.prefix_append [p.index] _
  | passed p _ _ ih => exact List.cons_prefix_cons.mpr ⟨rfl, ih⟩

/-- Without a failure, all stages are performed. -/
theorem complete (h : Steps stage l s env ps) (hpassed : ∀ p ∈ ps, p.passed = true) :
    ps.map Step.index = l := by
  induction h with
  | nil s env => rfl
  | failed p hfailed =>
      rw [hpassed p List.mem_cons_self] at hfailed
      cases hfailed
  | passed p _ _ ih =>
      rw [List.map_cons, ih fun q hq => hpassed q (List.mem_cons_of_mem p hq)]

/-- A step that fails is the last. -/
theorem last (h : Steps stage l s env ps) {p : Step stage} (hp : p ∈ ps)
    (hfailed : p.passed = false) : ∃ init, ps = init ++ [p] := by
  induction h with
  | nil s env => cases hp
  | failed q _ =>
      obtain rfl := List.mem_singleton.mp hp
      exact ⟨[], rfl⟩
  | passed q hpassed _ ih =>
      rcases List.mem_cons.mp hp with rfl | hp
      · rw [hpassed] at hfailed
        cases hfailed
      · obtain ⟨init, rfl⟩ := ih hp
        exact ⟨q :: init, rfl⟩

/-- If the stages are distinct, all steps pass if and only if every stage has a step that
passes. -/
theorem forall_passed_iff (h : Steps stage l s env ps) (hl : l.Nodup) :
    (∀ p ∈ ps, p.passed = true) ↔ ∀ i ∈ l, ∃ p ∈ ps, p.index = i ∧ p.passed = true := by
  constructor
  · intro hpassed i hi
    rw [← h.complete hpassed] at hi
    obtain ⟨p, hp, rfl⟩ := List.mem_map.mp hi
    exact ⟨p, hp, rfl, hpassed p hp⟩
  · intro hall p hp
    have hindex := h.isPrefix.subset (List.mem_map_of_mem hp)
    obtain ⟨q, hq, heq, hpassed⟩ := hall p.index hindex
    have hnodup : (ps.map Step.index).Nodup := hl.sublist h.isPrefix.sublist
    obtain rfl := List.inj_on_of_nodup_map hnodup hq hp heq
    exact hpassed

end Steps

/-- A stage of a loop with what is done when it fails. -/
def checked (m fail : Replay σ ε ω Bool) : Replay σ ε ω Bool :=
  m >>= fun passed => if passed then Pure.pure true else fail

/-- **A loop is its steps.** -/
theorem allOf_steps {fail : ι → Replay σ ε ω Bool} {P : ω → Prop}
    (hfail : ∀ i, (fail i).Ensures fun o => o.value = false ∧ ∀ x ∈ o.trace, P x) {l : List ι}
    {s : σ} {env : List ε} {o : Outcome σ ε ω Bool}
    (ho : allOf l (fun i => checked (stage i) (fail i)) s env = some o) :
    ∃ ps w, Steps stage l s env ps ∧ o.value = ps.all Step.passed ∧
      o.trace = (ps.map fun p => p.outcome.trace).flatten ++ w ∧ ∀ x ∈ w, P x := by
  induction l generalizing s env o with
  | nil =>
      obtain rfl := pure_some.mp ho
      exact ⟨[], [], .nil s env, rfl, rfl, fun x hx => by cases hx⟩
  | cons i l ih =>
      rw [allOf_cons, checked, bind_assoc] at ho
      obtain ⟨o₁, ho₁, o₂, ho₂, rfl⟩ := bind_some.mp ho
      let p : Step stage := ⟨i, s, env, o₁, ho₁⟩
      cases hpassed : o₁.value with
      | true =>
          rw [hpassed, if_pos rfl, pure_bind] at ho₂
          obtain ⟨ps, w, hps, hvalue, htrace, hw⟩ := ih ho₂
          refine ⟨p :: ps, w, .passed p hpassed hps, ?_, ?_, hw⟩
          · rw [List.all_cons, show p.passed = true from hpassed]
            exact hvalue
          · rw [htrace, List.map_cons, List.flatten_cons, List.append_assoc]
      | false =>
          rw [hpassed, if_neg (by simp)] at ho₂
          obtain ⟨o₃, ho₃, o₄, ho₄, rfl⟩ := bind_some.mp ho₂
          obtain ⟨hfalse, hw⟩ := (hfail i).post _ _ _ ho₃
          rw [hfalse, if_neg (by simp)] at ho₄
          obtain rfl := pure_some.mp ho₄
          refine ⟨[p], o₃.trace, .failed p hpassed, ?_, ?_, hw⟩
          · rw [List.all_cons, show p.passed = false from hpassed]
            rfl
          · simp [p]

end PeripheralTester.Lib.Replay
