import PeripheralTester.Lib.Run

/-! # Progress under weak fairness

An `Execution` is endless; at an instant at which nobody moves its state stays.  It is `Fair` if no
party is ready from some instant on without ever moving.  That is all that is asked of a scheduler:
a party that is ready only now and then may be passed over for ever.

`Execution.Fair.leadsTo` is the rule for progress.  What is pending waits for one party and has a
rank.  A move of that party brings it to its end or to a smaller rank, perhaps with another party;
the moves of all others leave it as it is.  Then it comes to its end. -/

namespace PeripheralTester.Lib

variable {σ ℓ ι : Type*} {step : σ → ℓ → Option σ}

structure Execution (step : σ → ℓ → Option σ) where
  state : ℕ → σ
  label : ℕ → Option ℓ
  idles : ∀ n, label n = none → state (n + 1) = state n
  moves : ∀ n a, label n = some a → step (state n) a = some (state (n + 1))

namespace Execution

variable (x : Execution step)

/-- A party that stays ready moves at last. -/
def Fair (ready : ι → σ → Prop) (owner : ℓ → ι) : Prop :=
  ∀ i n, (∀ m ≥ n, ready i (x.state m)) → ∃ m ≥ n, ∃ a, x.label m = some a ∧ owner a = i

variable {x}

/-- What all moves preserve holds from then on. -/
theorem stays {I : σ → Prop} (hstep : ∀ s a s', I s → step s a = some s' → I s') {n m : ℕ}
    (h : I (x.state n)) (hnm : n ≤ m) : I (x.state m) := by
  induction m, hnm using Nat.le_induction with
  | base => exact h
  | succ m _ ih =>
      cases ha : x.label m with
      | none => exact x.idles m ha ▸ ih
      | some a => exact hstep _ a _ ih (x.moves m a ha)

/-- What all moves preserve holds at every instant. -/
theorem always {I : σ → Prop} (hstep : ∀ s a s', I s → step s a = some s' → I s')
    (h : I (x.state 0)) (n : ℕ) : I (x.state n) := stays hstep h n.zero_le

/-- Every state is reached by a run. -/
theorem reachable (n : ℕ) : Reachable step (x.state 0) (x.state n) :=
  always (fun _ _ _ h hs => h.next hs) (.refl _) n

/-- What waits for a party that does not move stays as it is. -/
theorem waits {owner : ℓ → ι} {G : σ → Prop} {P : σ → Prop} {i : ι} {n m : ℕ}
    (hother : ∀ k a, P (x.state k) → step (x.state k) a = some (x.state (k + 1)) → owner a ≠ i →
      G (x.state (k + 1)) ∨ P (x.state (k + 1)))
    (hgoal : ∀ k ≥ n, ¬ G (x.state k)) (hn : P (x.state n)) (hnm : n ≤ m)
    (hwait : ∀ k, n ≤ k → k < m → ∀ a, x.label k = some a → owner a ≠ i) : P (x.state m) := by
  induction m, hnm using Nat.le_induction with
  | base => exact hn
  | succ m hnm ih =>
      have hm : P (x.state m) := ih fun k hk hkm => hwait k hk (Nat.lt_succ_of_lt hkm)
      cases ha : x.label m with
      | none => exact x.idles m ha ▸ hm
      | some a =>
          have hgoal' := hgoal (m + 1) (Nat.le_succ_of_le hnm)
          exact (hother m a hm (x.moves m a ha) (hwait m hnm m.lt_succ_self a ha)).resolve_left
            hgoal'

/-- **The rule for progress**: what is pending, with the party it waits for and its rank, comes to
its end. -/
theorem Fair.leadsTo {ready : ι → σ → Prop} {owner : ℓ → ι} (hfair : x.Fair ready owner)
    {G : σ → Prop} {P : σ → ι → ℕ → Prop}
    (hready : ∀ n i r, P (x.state n) i r → ready i (x.state n))
    (hown : ∀ n a i r, P (x.state n) i r → step (x.state n) a = some (x.state (n + 1)) →
      owner a = i → G (x.state (n + 1)) ∨ ∃ i', ∃ r' < r, P (x.state (n + 1)) i' r')
    (hother : ∀ n a i r, P (x.state n) i r → step (x.state n) a = some (x.state (n + 1)) →
      owner a ≠ i → G (x.state (n + 1)) ∨ P (x.state (n + 1)) i r)
    {n : ℕ} {i : ι} {r : ℕ} (hn : P (x.state n) i r) : ∃ m ≥ n, G (x.state m) := by
  induction r using Nat.strong_induction_on generalizing n i with
  | _ r ih =>
      by_contra hnot
      push Not at hnot
      -- the first move of the party
      by_cases hmoves : ∃ m, n ≤ m ∧ ∃ a, x.label m = some a ∧ owner a = i
      · classical
        obtain ⟨hle, a, ha, howner⟩ := Nat.find_spec hmoves
        have hbefore : ∀ {k}, k < Nat.find hmoves → _ := Nat.find_min hmoves
        generalize Nat.find hmoves = m at hle ha hbefore
        have hm : P (x.state m) i r := by
          refine waits (P := fun s => P s i r) (fun k b => hother k b i r) hnot hn hle ?_
          exact fun k hk hkm b hb hi => hbefore hkm ⟨hk, b, hb, hi⟩
        rcases hown m a i r hm (x.moves m a ha) howner with hgoal | ⟨i', r', hr', hm'⟩
        · exact hnot (m + 1) (Nat.le_succ_of_le hle) hgoal
        · obtain ⟨k, hk, hgoal⟩ := ih r' hr' hm'
          exact hnot k ((Nat.le_succ_of_le hle).trans hk) hgoal
      · -- it would be ready for ever
        push Not at hmoves
        have hstays : ∀ m ≥ n, P (x.state m) i r := by
          intro m hm
          refine waits (P := fun s => P s i r) (fun k b => hother k b i r) hnot hn hm ?_
          exact fun k hk _ b hb => hmoves k hk b hb
        obtain ⟨m, hm, a, ha, hi⟩ := hfair i n fun m hm => hready m i r (hstays m hm)
        exact hmoves m hm a ha hi

/-! ### Executions of finite runs -/

/-- A run, after which nobody moves. -/
def ofRun {s s' : σ} {ls : List ℓ} (h : Run step s ls s') : Execution step where
  state n := (exec step s (ls.take n)).getD s'
  label n := ls[n]?
  idles := by
    intro n hn
    rw [List.getElem?_eq_none_iff] at hn
    rw [List.take_of_length_le hn, List.take_of_length_le (Nat.le_succ_of_le hn)]
  moves := by
    intro n a hn
    obtain ⟨hlt, rfl⟩ := List.getElem?_eq_some_iff.mp hn
    have hall : exec step s (ls.take (n + 1) ++ ls.drop (n + 1)) = some s' := by
      rw [List.take_append_drop]
      exact exec_eq_some_iff.mpr h
    rw [exec_append] at hall
    obtain ⟨s₂, hs₂, _⟩ := Option.bind_eq_some_iff.mp hall
    have hsplit := hs₂
    rw [List.take_succ_eq_append_getElem hlt, exec_append] at hsplit
    obtain ⟨s₁, hs₁, hlast⟩ := Option.bind_eq_some_iff.mp hsplit
    obtain ⟨s₂', hmove, hend⟩ := Option.bind_eq_some_iff.mp hlast
    obtain rfl := Option.some.inj hend
    rw [hs₁, hs₂]
    exact hmove

theorem ofRun_end {s s' : σ} {ls : List ℓ} (h : Run step s ls s') {n : ℕ} (hn : ls.length ≤ n) :
    (ofRun h).state n = s' := by
  show (exec step s (ls.take n)).getD s' = s'
  rw [List.take_of_length_le hn, exec_eq_some_iff.mpr h]
  rfl

/-- On the way it passes the end of the first part. -/
theorem ofRun_append {s s₁ s' : σ} {ls₁ ls₂ : List ℓ} (h₁ : Run step s ls₁ s₁)
    (h : Run step s (ls₁ ++ ls₂) s') : (ofRun h).state ls₁.length = s₁ := by
  show (exec step s ((ls₁ ++ ls₂).take ls₁.length)).getD s' = s₁
  rw [List.take_left, exec_eq_some_iff.mpr h₁]
  rfl

/-- A run to a state in which nobody is ready is fair. -/
theorem fair_ofRun {s s' : σ} {ls : List ℓ} (h : Run step s ls s') {ready : ι → σ → Prop}
    {owner : ℓ → ι} (hquiet : ∀ i, ¬ ready i s') : (ofRun h).Fair ready owner := by
  intro i n hready
  have hend := hready (max n ls.length) (le_max_left _ _)
  rw [ofRun_end h (le_max_right _ _)] at hend
  exact absurd hend (hquiet i)

end Execution

end PeripheralTester.Lib
