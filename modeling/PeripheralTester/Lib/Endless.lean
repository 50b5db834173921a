import PeripheralTester.Lib.Replay

/-! # Endless recordings

What an environment does goes on without end; a program that comes to its end has read a finite part
of it.  `Ends` says so for every recording of a class that is closed under leaving out its
beginning, and it has a rule for each way to put programs together.  A program that waits ends if
the class says that what it waits for happens.

A stage that waits for nothing reads as many entries whenever it passes.  `Decides` says which
recordings it passes on, and `Decides.allOf` says so of a loop. -/

namespace PeripheralTester.Lib

variable {σ ε ω α β ι : Type}

/-- The beginning of an endless recording. -/
def upTo (env : ℕ → ε) (k : ℕ) : List ε := (List.range k).map env

/-- An endless recording without its beginning. -/
def later (env : ℕ → ε) (k : ℕ) : ℕ → ε := fun n => env (k + n)

theorem upTo_add (env : ℕ → ε) (k l : ℕ) :
    upTo env (k + l) = upTo env k ++ upTo (later env k) l := by
  unfold upTo
  rw [List.range_add, List.map_append, List.map_map]
  rfl

theorem later_later (env : ℕ → ε) (k l : ℕ) : later (later env k) l = later env (k + l) :=
  funext fun n => congrArg env (Nat.add_assoc k l n).symm

theorem upTo_append_later (env : ℕ → ε) {k n : ℕ} (h : k ≤ n) :
    upTo env k ++ upTo (later env k) (n - k) = upTo env n := by
  rw [← upTo_add, Nat.add_sub_cancel' h]

theorem upTo_zero (env : ℕ → ε) : upTo env 0 = [] := rfl

namespace Replay

variable {m m' : Replay σ ε ω α} {env : ℕ → ε} {s s₁ s₂ : σ} {a a' : α} {w w' : List ω} {k n : ℕ}

/-- A run on a recording continues every part of it. -/
theorem Plays.continues (h : m.Plays s (upTo env n) a s₁ w)
    (hr : m.Reaches s (upTo env k) m' s₂ w') :
    ∃ o, m' s₂ (upTo (later env k) (n - k)) = .some o ∧ o.value = a ∧ w = w' ++ o.trace := by
  have hboth : ∃ rest, (m' s₂ (upTo (later env k) (n - k))).map
      (fun o => { o with trace := w' ++ o.trace }) = .some ⟨a, s₁, rest, w⟩ := by
    rcases Nat.le_total k n with hkn | hnk
    · refine ⟨[], ?_⟩
      rw [← hr, upTo_append_later env hkn]
      exact h.some
    · refine ⟨upTo (later env n) (k - n), ?_⟩
      rw [← hr, Nat.sub_eq_zero_of_le hnk, upTo_zero, List.append_nil, ← upTo_append_later env hnk]
      exact h _
  obtain ⟨rest, hrun⟩ := hboth
  obtain ⟨o, ho, heq⟩ := Option.map_eq_some_iff.mp hrun
  refine ⟨o, ho, ?_⟩
  cases heq
  exact ⟨rfl, rfl⟩

/-- On an endless recording a program has one outcome. -/
theorem Plays.unique (h : m.Plays s (upTo env n) a s₁ w) (h' : m.Plays s (upTo env k) a' s₂ w') :
    n = k ∧ a = a' ∧ w = w' := by
  wlog hkn : k ≤ n generalizing n k a a' s₁ s₂ w w'
  · obtain ⟨hn, ha, hw⟩ := this h' h (Nat.le_of_not_le hkn)
    exact ⟨hn.symm, ha.symm, hw.symm⟩
  have hrun := h.some
  rw [← upTo_append_later env hkn, h'] at hrun
  obtain ⟨rfl, rfl, hrest, rfl⟩ := Outcome.mk.inj (Option.some.inj hrun)
  have hlength := congrArg List.length hrest
  simp only [upTo, List.length_map, List.length_range, List.length_nil] at hlength
  exact ⟨le_antisymm (Nat.sub_eq_zero_iff_le.mp hlength) hkn, rfl, rfl⟩

end Replay

/-- A class of endless recordings. -/
structure Endless (ε : Type) where
  admits : (ℕ → ε) → Prop
  admits_later : ∀ env k, admits env → admits (later env k)

namespace Replay

variable {T : Endless ε}

/-- On every recording of the class the program comes to its end. -/
def Ends (T : Endless ε) (m : Replay σ ε ω α) : Prop :=
  ∀ s env, T.admits env → ∃ k a s' w, m.Plays s (upTo env k) a s' w

theorem ends_pure (a : α) : Ends T (Pure.pure a : Replay σ ε ω α) :=
  fun s _ _ => ⟨0, a, s, [], plays_pure s a⟩

theorem ends_modify (f : σ → σ) : Ends T (modify f : Replay σ ε ω Unit) :=
  fun s _ _ => ⟨0, (), f s, [], plays_modify s f⟩

theorem ends_emit (w : List ω) : Ends T (emit w : Replay σ ε ω Unit) :=
  fun s _ _ => ⟨0, (), s, w, fun _ => rfl⟩

theorem ends_get : Ends T (get : Replay σ ε ω σ) :=
  fun s _ _ => ⟨0, s, s, [], fun _ => rfl⟩

theorem ends_next : Ends T (next : Replay σ ε ω ε) :=
  fun s env _ => ⟨1, env 0, s, [], fun _ => rfl⟩

/-- **The rule for sequences.** -/
theorem Ends.bind {m : Replay σ ε ω α} {f : α → Replay σ ε ω β} (hm : Ends T m)
    (hf : ∀ a, Ends T (f a)) : Ends T (m >>= f) := by
  intro s env henv
  obtain ⟨k, a, s₁, w₁, h₁⟩ := hm s env henv
  obtain ⟨l, b, s₂, w₂, h₂⟩ := hf a s₁ (later env k) (T.admits_later env k henv)
  refine ⟨k + l, b, s₂, w₁ ++ w₂, ?_⟩
  rw [upTo_add]
  exact h₁.bind h₂

theorem ends_ite {c : Prop} [Decidable c] {m m' : Replay σ ε ω α} (hm : Ends T m)
    (hm' : Ends T m') : Ends T (if c then m else m') := by
  split
  · exact hm
  · exact hm'

/-- **The rule for loops.** -/
theorem ends_allOf {body : ι → Replay σ ε ω Bool} (h : ∀ i, Ends T (body i)) (l : List ι) :
    Ends T (allOf l body) := by
  induction l with
  | nil => exact ends_pure true
  | cons i l ih =>
      rw [allOf_cons]
      exact (h i).bind fun passed => ends_ite ih (ends_pure false)

/-! ### Stages of a fixed length -/

/-- On every recording the program comes to its end with a trace that satisfies `P`; it passes if
and only if the recording satisfies `V`, and then it has read `width` entries. -/
def Decides (m : Replay σ ε ω Bool) (width : ℕ) (V : (ℕ → ε) → Prop) (P : List ω → Prop) : Prop :=
  ∀ s env, ∃ k passed s' w, m.Plays s (upTo env k) passed s' w ∧ (passed = true ↔ V env) ∧
    (passed = true → k = width) ∧ P w

/-- One after the other: `V` of each stage holds of the recording from where the stages before it
have ended. -/
def InTurn (V : ι → (ℕ → ε) → Prop) (width : ℕ) (l : List ι) (env : ℕ → ε) : Prop :=
  ∀ n (hn : n < l.length), V l[n] (later env (width * n))

theorem inTurn_cons {V : ι → (ℕ → ε) → Prop} {width : ℕ} {i : ι} {l : List ι} {env : ℕ → ε} :
    InTurn V width (i :: l) env ↔ V i env ∧ InTurn V width l (later env width) := by
  have hfirst : later env (width * 0) = env := funext fun n => congrArg env (Nat.zero_add n)
  have hshift : ∀ n, later env (width * (n + 1)) = later (later env width) (width * n) := by
    intro n
    rw [later_later, Nat.mul_succ, Nat.add_comm]
  constructor
  · intro hall
    refine ⟨hfirst ▸ hall 0 (Nat.succ_pos _), fun n hn => ?_⟩
    rw [← hshift]
    exact hall (n + 1) (Nat.succ_lt_succ hn)
  · rintro ⟨hzero, hall⟩ n hn
    cases n with
    | zero =>
        rw [hfirst]
        exact hzero
    | succ n =>
        rw [hshift]
        exact hall n (Nat.lt_of_succ_lt_succ hn)

/-- **The rule for loops of such stages.** -/
theorem Decides.allOf {body : ι → Replay σ ε ω Bool} {width : ℕ} {V : ι → (ℕ → ε) → Prop}
    {P : List ω → Prop} (h : ∀ i, Decides (body i) width (V i) P) (hnil : P [])
    (happend : ∀ w w', P w → P w' → P (w ++ w')) (l : List ι) :
    Decides (Replay.allOf l body) (width * l.length) (InTurn V width l) P := by
  induction l with
  | nil =>
      intro s env
      exact ⟨0, true, s, [], plays_pure s true, by simp [InTurn], fun _ => rfl, hnil⟩
  | cons i l ih =>
      intro s env
      obtain ⟨k, passed, s₁, w₁, h₁, hV, hk, hw₁⟩ := h i s env
      rw [allOf_cons, inTurn_cons]
      cases passed with
      | true =>
          obtain rfl := hk rfl
          obtain ⟨k₂, passed₂, s₂, w₂, h₂, hV₂, hk₂, hw₂⟩ := ih s₁ (later env k)
          refine ⟨k + k₂, passed₂, s₂, w₁ ++ w₂, ?_, ?_, ?_, happend _ _ hw₁ hw₂⟩
          · rw [upTo_add]
            exact h₁.passed h₂
          · rw [hV₂]
            exact (and_iff_right (hV.mp rfl)).symm
          · intro hpassed
            rw [hk₂ hpassed, List.length_cons, Nat.mul_succ, Nat.add_comm]
      | false =>
          have hfailed : ¬ V i env := fun hi => Bool.false_ne_true (hV.mpr hi)
          refine ⟨k, false, s₁, w₁ ++ [], h₁.ends (plays_pure s₁ false), ?_, ?_, ?_⟩
          · exact iff_of_false Bool.false_ne_true fun hall => hfailed hall.1
          · exact fun hpassed => absurd hpassed Bool.false_ne_true
          · rw [List.append_nil]
            exact hw₁

end Replay

end PeripheralTester.Lib
