import Mathlib.Tactic

/-! # Programs replayed against a recorded environment

A sequential program that asks its environment (a device, a clock, an interrupt) is a function of
its state and of a recording: the list of what the environment does and answers, one entry for
each point at which the program can be interrupted or asks.  It writes a trace of what it does.  A
statement about every recording is a statement about every behaviour of the environment, and a
program that waits consumes the recording, so waiting needs no bound.  A recording that is too
short gives no outcome.

`Ensures` is what every outcome satisfies, with `bind_some` to take a sequence apart and
`ensures_allOf` for loops with an early exit.  `Plays` says that there is an outcome, and which:
the program reads just this recording.  `Reaches` says the same of a part of a run: the program
reads this recording and goes on as another program. -/

namespace PeripheralTester.Lib

/-- What a program that has come to its end leaves: its value, its state, the rest of the
recording, and its trace. -/
structure Outcome (σ ε ω α : Type) where
  value : α
  state : σ
  rest : List ε
  trace : List ω

/-- A program with states `σ`, recordings of `ε`, and traces of `ω`. -/
def Replay (σ ε ω α : Type) : Type := σ → List ε → Option (Outcome σ ε ω α)

namespace Replay

variable {σ ε ω α β ι : Type}

def pure (a : α) : Replay σ ε ω α := fun s env => some ⟨a, s, env, []⟩

def bind (m : Replay σ ε ω α) (f : α → Replay σ ε ω β) : Replay σ ε ω β := fun s env =>
  (m s env).bind fun o =>
    (f o.value o.state o.rest).map fun o' => { o' with trace := o.trace ++ o'.trace }

instance : Monad (Replay σ ε ω) where
  pure := pure
  bind := bind

instance : LawfulMonad (Replay σ ε ω) := LawfulMonad.mk' _
  (by
    intro α m
    funext s env
    show (m s env).bind (fun o => some ⟨o.value, o.state, o.rest, o.trace ++ []⟩) = m s env
    cases m s env <;> simp)
  (by
    intro α β a f
    funext s env
    show ((f a s env).map fun o => { o with trace := [] ++ o.trace }) = f a s env
    simp)
  (by
    intro α β γ m f g
    funext s env
    show bind (bind m f) g s env = bind m (fun a => bind (f a) g) s env
    simp [bind, Option.bind_assoc, Option.map_bind, Option.bind_map, Function.comp_def,
      Option.map_map])

/-- The next entry of the recording. -/
def next : Replay σ ε ω ε := fun s env =>
  match env with
  | [] => none
  | e :: env => some ⟨e, s, env, []⟩

def get : Replay σ ε ω σ := fun s env => some ⟨s, s, env, []⟩

def modify (f : σ → σ) : Replay σ ε ω Unit := fun s env => some ⟨(), f s, env, []⟩

def emit (w : List ω) : Replay σ ε ω Unit := fun s env => some ⟨(), s, env, w⟩

/-- The loop `for (i : l) if (!body(i)) return false; return true;`. -/
def allOf : List ι → (ι → Replay σ ε ω Bool) → Replay σ ε ω Bool
  | [], _ => pure true
  | i :: l, body => bind (body i) fun passed => if passed then allOf l body else pure false

theorem allOf_cons (i : ι) (l : List ι) (body : ι → Replay σ ε ω Bool) :
    allOf (i :: l) body =
      (body i >>= fun passed => if passed then allOf l body else Pure.pure false) :=
  rfl

variable {m : Replay σ ε ω α} {f : α → Replay σ ε ω β} {s : σ} {env : List ε}

/-- A sequence has an outcome if each of its parts has one. -/
theorem bind_some {o : Outcome σ ε ω β} :
    (m >>= f) s env = some o ↔
      ∃ o₁, m s env = some o₁ ∧ ∃ o₂, f o₁.value o₁.state o₁.rest = some o₂ ∧
        o = { o₂ with trace := o₁.trace ++ o₂.trace } := by
  show (m s env).bind _ = some o ↔ _
  rw [Option.bind_eq_some_iff]
  apply exists_congr
  intro o₁
  rw [Option.map_eq_some_iff]
  apply and_congr_right
  intro _
  apply exists_congr
  intro o₂
  rw [eq_comm (b := o)]

theorem pure_some {a : α} {o : Outcome σ ε ω α} :
    (Pure.pure a : Replay σ ε ω α) s env = some o ↔ o = ⟨a, s, env, []⟩ := by
  show some _ = some o ↔ _
  rw [Option.some_inj, eq_comm]

/-- Every outcome of the program satisfies the postcondition. -/
structure Ensures (m : Replay σ ε ω α) (Q : Outcome σ ε ω α → Prop) : Prop where
  post : ∀ s env o, m s env = some o → Q o

theorem Ensures.mono {Q Q' : Outcome σ ε ω α → Prop} (h : m.Ensures Q) (hQ : ∀ o, Q o → Q' o) :
    m.Ensures Q' :=
  ⟨fun s env o ho => hQ o (h.post s env o ho)⟩

/-- **The rule for sequences.** -/
theorem Ensures.bind {Q : Outcome σ ε ω α → Prop} {Q' : Outcome σ ε ω β → Prop} (hm : m.Ensures Q)
    (hf : ∀ o₁, Q o₁ →
      (f o₁.value).Ensures fun o₂ => Q' { o₂ with trace := o₁.trace ++ o₂.trace }) :
    (m >>= f).Ensures Q' := by
  constructor
  intro s env o ho
  obtain ⟨o₁, ho₁, o₂, ho₂, rfl⟩ := bind_some.mp ho
  exact (hf o₁ (hm.post s env o₁ ho₁)).post _ _ o₂ ho₂

theorem ensures_pure {a : α} {Q : Outcome σ ε ω α → Prop}
    (h : ∀ s env, Q ⟨a, s, env, []⟩) : (Pure.pure a : Replay σ ε ω α).Ensures Q := by
  constructor
  intro s env o ho
  rw [pure_some.mp ho]
  exact h s env

/-- A postcondition that only looks at the end of the trace can ignore the first part of a
sequence. -/
theorem ensures_after {Q : Outcome σ ε ω β → Prop} (hf : ∀ a, (f a).Ensures Q)
    (hQ : ∀ (w : List ω) o, Q o → Q { o with trace := w ++ o.trace }) : (m >>= f).Ensures Q := by
  constructor
  intro s env o ho
  obtain ⟨o₁, _, o₂, ho₂, rfl⟩ := bind_some.mp ho
  exact hQ _ _ ((hf _).post _ _ o₂ ho₂)

/-- **The rule for loops**: if an iteration that passes leaves some evidence in its trace, a loop
that passes leaves the evidence of all its iterations, in order. -/
theorem ensures_allOf {E : ι → List ω → Prop} {body : ι → Replay σ ε ω Bool}
    (h : ∀ i, (body i).Ensures fun o => o.value = true → ∃ w, E i w ∧ w.Sublist o.trace)
    (l : List ι) :
    (allOf l body).Ensures fun o =>
      o.value = true → ∃ ws, List.Forall₂ E l ws ∧ ws.flatten.Sublist o.trace := by
  induction l with
  | nil =>
      apply ensures_pure
      intro s env _
      exact ⟨[], .nil, List.nil_sublist _⟩
  | cons i l ih =>
      rw [allOf_cons]
      apply (h i).bind
      intro o₁ ho₁
      by_cases hpassed : o₁.value = true
      · obtain ⟨w, hw, hsub⟩ := ho₁ hpassed
        rw [if_pos hpassed]
        apply ih.mono
        intro o₂ ho₂ hvalue
        obtain ⟨ws, hws, hsubs⟩ := ho₂ hvalue
        exact ⟨w :: ws, .cons hw hws, hsub.append hsubs⟩
      · rw [if_neg hpassed]
        apply ensures_pure
        intro s env hvalue
        cases hvalue

/-- Every entry of the trace satisfies `P`. -/
def Emits (m : Replay σ ε ω α) (P : ω → Prop) : Prop := m.Ensures fun o => ∀ x ∈ o.trace, P x

variable {P : ω → Prop}

theorem emits_pure (a : α) : (Pure.pure a : Replay σ ε ω α).Emits P :=
  ensures_pure fun _ _ _ h => by cases h

theorem emits_modify (g : σ → σ) : (modify g : Replay σ ε ω Unit).Emits P := by
  constructor
  intro s env o ho x hx
  obtain rfl := Option.some.inj ho
  cases hx

theorem emits_get : (get : Replay σ ε ω σ).Emits P := by
  constructor
  intro s env o ho x hx
  obtain rfl := Option.some.inj ho
  cases hx

theorem emits_next : (next : Replay σ ε ω ε).Emits P := by
  constructor
  intro s env o ho x hx
  cases env with
  | nil => cases ho
  | cons e env =>
      obtain rfl := Option.some.inj ho
      cases hx

theorem emits_emit {w : List ω} (h : ∀ x ∈ w, P x) : (emit w : Replay σ ε ω Unit).Emits P := by
  constructor
  intro s env o ho
  obtain rfl := Option.some.inj ho
  exact h

theorem Emits.bind (hm : m.Emits P) (hf : ∀ a, (f a).Emits P) : (m >>= f).Emits P := by
  unfold Emits
  apply Ensures.bind hm
  intro o₁ ho₁
  apply (hf o₁.value).mono
  intro o₂ ho₂ x hx
  rcases List.mem_append.mp hx with hx | hx
  · exact ho₁ x hx
  · exact ho₂ x hx

theorem emits_ite {c : Prop} [Decidable c] {m m' : Replay σ ε ω α} (hm : m.Emits P)
    (hm' : m'.Emits P) : (if c then m else m').Emits P := by
  split
  · exact hm
  · exact hm'

theorem emits_allOf {body : ι → Replay σ ε ω Bool} (h : ∀ i, (body i).Emits P) (l : List ι) :
    (allOf l body).Emits P := by
  induction l with
  | nil => exact emits_pure true
  | cons i l ih =>
      rw [allOf_cons]
      apply (h i).bind
      intro passed
      exact emits_ite ih (emits_pure false)

/-! ### Recordings that lead to an outcome -/

/-- From `s` the program reads just the recording `env`, whatever comes after it. -/
def Plays (m : Replay σ ε ω α) (s : σ) (env : List ε) (a : α) (s' : σ) (w : List ω) : Prop :=
  ∀ rest, m s (env ++ rest) = some ⟨a, s', rest, w⟩

section plays

variable {s s₁ s₂ : σ} {env₁ env₂ : List ε} {a : α} {b : β} {w w₁ w₂ : List ω}

theorem Plays.some (h : m.Plays s env a s₁ w) : m s env = some ⟨a, s₁, [], w⟩ := by
  simpa using h []

theorem plays_pure (s : σ) (a : α) : (Pure.pure a : Replay σ ε ω α).Plays s [] a s [] :=
  fun _ => rfl

theorem plays_modify (s : σ) (g : σ → σ) :
    (modify g : Replay σ ε ω Unit).Plays s [] () (g s) [] := fun _ => rfl

theorem Plays.bind (hm : m.Plays s env₁ a s₁ w₁) (hf : (f a).Plays s₁ env₂ b s₂ w₂) :
    (m >>= f).Plays s (env₁ ++ env₂) b s₂ (w₁ ++ w₂) := by
  intro rest
  rw [List.append_assoc, bind_some]
  exact ⟨_, hm (env₂ ++ rest), _, hf rest, rfl⟩

/-- After a part that reads nothing. -/
theorem Plays.after (hm : m.Plays s [] a s₁ w₁) (hf : (f a).Plays s₁ env₂ b s₂ w₂) :
    (m >>= f).Plays s env₂ b s₂ (w₁ ++ w₂) := hm.bind hf

/-- Before a part that reads nothing. -/
theorem Plays.ends (hm : m.Plays s env₁ a s₁ w₁) (hf : (f a).Plays s₁ [] b s₂ w₂) :
    (m >>= f).Plays s env₁ b s₂ (w₁ ++ w₂) := by
  simpa using hm.bind hf

/-- After a part that passes. -/
theorem Plays.passed {m : Replay σ ε ω Bool} {f g : Replay σ ε ω α} (hm : m.Plays s env₁ true s₁ w₁)
    (hf : f.Plays s₁ env₂ a s₂ w₂) :
    (m >>= fun passed => if passed then f else g).Plays s (env₁ ++ env₂) a s₂ (w₁ ++ w₂) :=
  hm.bind (by simpa using hf)

/-- After a part that fails. -/
theorem Plays.failed {m : Replay σ ε ω Bool} {f g : Replay σ ε ω α}
    (hm : m.Plays s env₁ false s₁ w₁) (hg : g.Plays s₁ env₂ a s₂ w₂) :
    (m >>= fun passed => if passed then f else g).Plays s (env₁ ++ env₂) a s₂ (w₁ ++ w₂) :=
  hm.bind (by simpa using hg)

end plays

/-- From `s` the program reads the recording `env` and goes on as `m'` from `s'`, whatever comes
after it. -/
def Reaches (m : Replay σ ε ω α) (s : σ) (env : List ε) (m' : Replay σ ε ω α) (s' : σ)
    (w : List ω) : Prop :=
  ∀ rest, m s (env ++ rest) = (m' s' rest).map fun o => { o with trace := w ++ o.trace }

section reaches

variable {m' m₂ : Replay σ ε ω α} {s s₁ s₂ : σ} {env₁ env₂ : List ε} {a : α} {w w₁ w₂ : List ω}

theorem Plays.reaches (h : m.Plays s env a s₁ w) : (m >>= f).Reaches s env (f a) s₁ w := by
  intro rest
  show (m s (env ++ rest)).bind _ = _
  rw [h rest, Option.bind_some]

theorem Reaches.bind (h : m.Reaches s env m' s₁ w) : (m >>= f).Reaches s env (m' >>= f) s₁ w := by
  intro rest
  show (m s (env ++ rest)).bind _ = ((m' s₁ rest).bind _).map _
  rw [h rest, Option.bind_map, Option.map_bind]
  refine congrArg _ (funext fun o => ?_)
  simp only [Function.comp_apply, Option.map_map]
  refine congrArg (fun g => Option.map g _) (funext fun o' => ?_)
  simp only [Function.comp_apply, List.append_assoc]

/-- **The rule for runs in parts.** -/
theorem Reaches.trans (h₁ : m.Reaches s env₁ m' s₁ w₁) (h₂ : m'.Reaches s₁ env₂ m₂ s₂ w₂) :
    m.Reaches s (env₁ ++ env₂) m₂ s₂ (w₁ ++ w₂) := by
  intro rest
  rw [List.append_assoc, h₁, h₂, Option.map_map]
  refine congrArg (fun g => Option.map g _) (funext fun o => ?_)
  simp only [Function.comp_apply, List.append_assoc]

theorem Reaches.of_eq (h : m₂.Reaches s env m' s₁ w) (heq : m = m₂) : m.Reaches s env m' s₁ w :=
  heq ▸ h

theorem reaches_refl (m : Replay σ ε ω α) (s : σ) : m.Reaches s [] m s [] := by
  intro rest
  simp

/-- A run whose last part comes to its end. -/
theorem Reaches.plays (h : m.Reaches s env₁ m' s₁ w₁) (hm : m'.Plays s₁ env₂ a s₂ w₂) :
    m.Plays s (env₁ ++ env₂) a s₂ (w₁ ++ w₂) := by
  intro rest
  rw [List.append_assoc, h, hm]
  rfl

end reaches

/-- A recording for one thing after the other: each part leads from the state where the one before
it ended. -/
inductive Series (P : ι → σ → List ε → σ → Prop) : List ι → σ → List ε → σ → Prop
  | nil (s : σ) : Series P [] s [] s
  | cons {i : ι} {l : List ι} {s s₁ s₂ : σ} {env₁ env₂ : List ε} :
      P i s env₁ s₁ → Series P l s₁ env₂ s₂ → Series P (i :: l) s (env₁ ++ env₂) s₂

/-- **The rule for loops that pass**: from recordings with which each iteration passes. -/
theorem Series.plays {P : ι → σ → List ε → σ → Prop} {body : ι → Replay σ ε ω Bool}
    {Q : ι → List ω → Prop}
    (h : ∀ i s env s', P i s env s' → ∃ w, (body i).Plays s env true s' w ∧ Q i w)
    {l : List ι} {s s' : σ} {env : List ε} (hl : Series P l s env s') :
    ∃ ws, (allOf l body).Plays s env true s' ws.flatten ∧ List.Forall₂ Q l ws := by
  induction hl with
  | nil s => exact ⟨[], plays_pure s true, .nil⟩
  | cons hi _ ih =>
      obtain ⟨w, hw, hq⟩ := h _ _ _ _ hi
      obtain ⟨ws, hws, hqs⟩ := ih
      rw [allOf_cons]
      exact ⟨w :: ws, hw.bind hws, .cons hq hqs⟩

/-- If there is a recording for each part from any state, there is one for all of them. -/
theorem exists_series {P : ι → σ → List ε → σ → Prop} {l : List ι}
    (h : ∀ i ∈ l, ∀ s, ∃ env s', P i s env s') (s : σ) : ∃ env s', Series P l s env s' := by
  induction l generalizing s with
  | nil => exact ⟨[], s, .nil s⟩
  | cons i l ih =>
      obtain ⟨env₁, s₁, h₁⟩ := h i List.mem_cons_self s
      obtain ⟨env₂, s₂, h₂⟩ := ih (fun j hj => h j (List.mem_cons_of_mem i hj)) s₁
      exact ⟨env₁ ++ env₂, s₂, .cons h₁ h₂⟩

end Replay

end PeripheralTester.Lib
