import PeripheralTester.Lib.Run

/-! # Programs that share a unit

A unit has a state and operations; a program is a tree of operations that ends in a result.  A
*session* of a program starts with an operation that forgets the state of the unit and ends with
one that closes it, and every operation of a `Bracketed` program belongs to a session.

Run alone, a bracketed program has a result that does not depend on the state it finds
(`Bracketed.run_eq`).  When several clients run their programs on one unit, operation by operation,
each call returns the result of its program run alone, as long as no client operates on the unit
during the session of another (`returned_eq_run`). -/

namespace PeripheralTester.Lib

/-- A unit with states `υ` and operations `κ`, which answer with a `ρ`. -/
structure SharedUnit (υ κ ρ : Type) where
  step : κ → υ → υ × ρ
  opens : κ → Bool
  closes : κ → Bool
  /-- What opens a session forgets the state. -/
  step_of_opens : ∀ o u u', opens o = true → step o u = step o u'

/-- A program on a unit. -/
inductive Prog (κ ρ α : Type) where
  | done (a : α)
  | op (o : κ) (k : ρ → Prog κ ρ α)

namespace Prog

variable {κ ρ α β : Type}

def bind : Prog κ ρ α → (α → Prog κ ρ β) → Prog κ ρ β
  | done a, f => f a
  | op o k, f => op o fun r => (k r).bind f

instance : Monad (Prog κ ρ) where
  pure := done
  bind := bind

/-- Operations in a row, whatever they answer. -/
def performAll : List κ → Prog κ ρ α → Prog κ ρ α
  | [], p => p
  | o :: os, p => op o fun _ => performAll os p

end Prog

variable {υ κ ρ α β γ τ : Type} (U : SharedUnit υ κ ρ)

/-! ### Programs alone -/

/-- Whether a session is open after an operation. -/
def SharedUnit.after (o : κ) : Bool := !U.closes o

/-- The result of a program that has the unit for itself, and the state it leaves. -/
def Prog.exec : Prog κ ρ α → υ → α × υ
  | .done a, u => (a, u)
  | .op o k, u => (k (U.step o u).2).exec (U.step o u).1

def Prog.run (p : Prog κ ρ α) (u : υ) : α := (p.exec U u).1

/-- The same among operations of others: the lists say what others do before each operation. -/
def Prog.execAmong : Prog κ ρ α → List (List κ) → υ → α × υ
  | .done a, _, u => (a, u)
  | .op o k, others, u =>
      let u := (others.headD []).foldl (fun u o => (U.step o u).1) u
      (k (U.step o u).2).execAmong others.tail (U.step o u).1

/-- An operation outside a session opens one, whatever the unit answered before; `inSession` says
whether the program starts inside a session. -/
def Prog.Bracketed : Prog κ ρ α → Bool → Prop
  | .done _, _ => True
  | .op o k, inSession =>
      (inSession = false → U.opens o = true) ∧ ∀ r, (k r).Bracketed (U.after o)

variable {U}

theorem Prog.exec_bind (p : Prog κ ρ α) (f : α → Prog κ ρ β) (u : υ) :
    (p.bind f).exec U u = (f (p.exec U u).1).exec U (p.exec U u).2 := by
  induction p generalizing u with
  | done a => rfl
  | op o k ih => exact ih _ _

theorem Prog.exec_performAll (os : List κ) (p : Prog κ ρ α) (u : υ) :
    (performAll os p).exec U u = p.exec U (os.foldl (fun u o => (U.step o u).1) u) := by
  induction os generalizing u with
  | nil => rfl
  | cons o os ih => exact ih _

/-- Among others who do nothing. -/
theorem Prog.execAmong_nil (p : Prog κ ρ α) (u : υ) : p.execAmong U [] u = p.exec U u := by
  induction p generalizing u with
  | done a => rfl
  | op o k ih => exact ih _ _

namespace Prog.Bracketed

/-- Outside a session more is required. -/
theorem weaken {p : Prog κ ρ α} (h : p.Bracketed U false) (b : Bool) : p.Bracketed U b := by
  cases p with
  | done a => trivial
  | op o k => exact ⟨fun _ => h.1 rfl, h.2⟩

theorem bind {p : Prog κ ρ α} {f : α → Prog κ ρ β} {b : Bool} (h : p.Bracketed U b)
    (hf : ∀ a, (f a).Bracketed U false) : (p.bind f).Bracketed U b := by
  induction p generalizing b with
  | done a => exact (hf a).weaken b
  | op o k ih => exact ⟨h.1, fun r => ih r (h.2 r)⟩

/-- Operations inside a session that do not close it. -/
theorem performAll {os : List κ} {p : Prog κ ρ α} (hos : ∀ o ∈ os, U.closes o = false)
    (h : p.Bracketed U true) : (Prog.performAll os p).Bracketed U true := by
  induction os with
  | nil => exact h
  | cons o os ih =>
      have hafter : U.after o = true := by
        rw [SharedUnit.after, hos o List.mem_cons_self]
        rfl
      refine ⟨(by intro hb; cases hb), fun r => ?_⟩
      rw [hafter]
      exact ih fun o' ho' => hos o' (List.mem_cons_of_mem o ho')

/-- The first operation forgets what it finds. -/
theorem run_eq {p : Prog κ ρ α} (h : p.Bracketed U false) (u u' : υ) : p.run U u = p.run U u' := by
  cases p with
  | done a => rfl
  | op o k =>
      unfold run exec
      rw [U.step_of_opens o u u' (h.1 rfl)]

end Prog.Bracketed

/-! ### Programs of several clients -/

/-- What a client is doing: its request, the rest of its program, and whether it is in a session. -/
structure Call (γ κ ρ α : Type) where
  request : γ
  rest : Prog κ ρ α
  inSession : Bool

/-- The unit, its clients, and the results returned so far. -/
structure Sharing (τ γ υ κ ρ α : Type) where
  unit : υ
  calls : τ → Option (Call γ κ ρ α)
  returned : List (γ × α)

def Sharing.init (u : υ) : Sharing τ γ υ κ ρ α := ⟨u, fun _ => none, []⟩

/-- A client calls, or goes on with its call. -/
inductive ClientMove (τ γ : Type) where
  | call (t : τ) (request : γ)
  | next (t : τ)
deriving DecidableEq, Repr

/-- A step of a client; `prog` is the program of a request. -/
def Sharing.step [DecidableEq τ] (U : SharedUnit υ κ ρ) (prog : γ → Prog κ ρ α)
    (s : Sharing τ γ υ κ ρ α) : ClientMove τ γ → Option (Sharing τ γ υ κ ρ α)
  | .call t request =>
      match s.calls t with
      | none =>
          some { s with
            calls := Function.update s.calls t (some ⟨request, prog request, false⟩) }
      | some _ => none
  | .next t =>
      match s.calls t with
      | none => none
      | some ⟨request, .done a, _⟩ =>
          some { s with
            calls := Function.update s.calls t none
            returned := s.returned ++ [(request, a)] }
      | some ⟨request, .op o k, _⟩ =>
          some { s with
            unit := (U.step o s.unit).1
            calls := Function.update s.calls t
              (some ⟨request, k (U.step o s.unit).2, U.after o⟩) }

/-- The client is in a session. -/
def Sharing.inSession (s : Sharing τ γ υ κ ρ α) (t : τ) : Bool :=
  match s.calls t with
  | none => false
  | some c => c.inSession

/-- The client's next step is an operation. -/
def Sharing.operates (s : Sharing τ γ υ κ ρ α) (t : τ) : Bool :=
  match s.calls t with
  | some ⟨_, .op _ _, _⟩ => true
  | _ => false

/-- A client operates on the unit only when no other client is in a session. -/
def Exclusive (s : Sharing τ γ υ κ ρ α) : ClientMove τ γ → Prop
  | .call _ _ => True
  | .next t => s.operates t = true → ∀ t', t' ≠ t → s.inSession t' = false

instance [Fintype τ] [DecidableEq τ] (s : Sharing τ γ υ κ ρ α) (m : ClientMove τ γ) :
    Decidable (Exclusive s m) := by
  unfold Exclusive
  split <;> infer_instance

variable {prog : γ → Prog κ ρ α} {s s' : Sharing τ γ υ κ ρ α}

/-- The rest of a call, on the unit as it is if the client is in a session and on any unit
otherwise, gives the result of the whole program alone. -/
structure Call.Sound (U : SharedUnit υ κ ρ) (prog : γ → Prog κ ρ α) (unit : υ)
    (c : Call γ κ ρ α) : Prop where
  bracketed : c.rest.Bracketed U c.inSession
  run_eq : ∀ u v, (c.inSession = true → u = unit) → c.rest.run U u = (prog c.request).run U v

/-- A client is sound if its call, if any, is. -/
def SoundClient (U : SharedUnit υ κ ρ) (prog : γ → Prog κ ρ α) (unit : υ)
    (x : Option (Call γ κ ρ α)) : Prop :=
  ∀ c, x = some c → c.Sound U prog unit

/-- Every call under way is sound and every result is that of the program alone. -/
structure Sharing.Sound (U : SharedUnit υ κ ρ) (prog : γ → Prog κ ρ α)
    (s : Sharing τ γ υ κ ρ α) : Prop where
  calls : ∀ t, SoundClient U prog s.unit (s.calls t)
  returned : ∀ x ∈ s.returned, ∀ v, x.2 = (prog x.1).run U v

theorem Sharing.sound_init (u : υ) :
    (Sharing.init u : Sharing τ γ υ κ ρ α).Sound U prog where
  calls := fun _ _ h => by cases h
  returned := fun _ h => by cases h

theorem soundClient_none (u : υ) : SoundClient U prog u none := fun _ h => by cases h

theorem Call.Sound.client {u : υ} {c : Call γ κ ρ α} (h : c.Sound U prog u) :
    SoundClient U prog u (some c) := by
  intro c' hc'
  obtain rfl := Option.some.inj hc'
  exact h

/-- A call outside a session does not mind what happens to the unit. -/
theorem Call.Sound.of_unit {u u' : υ} {c : Call γ κ ρ α} (h : c.Sound U prog u)
    (hc : c.inSession = false) : c.Sound U prog u' where
  bracketed := h.bracketed
  run_eq := by
    intro v w _
    apply h.run_eq v w
    rw [hc]
    intro hb
    cases hb

/-- An operation in a sound call. -/
theorem Call.Sound.op {u : υ} {request : γ} {o : κ} {k : ρ → Prog κ ρ α} {b : Bool}
    (h : Call.Sound U prog u ⟨request, .op o k, b⟩) :
    Call.Sound U prog (U.step o u).1 ⟨request, k (U.step o u).2, U.after o⟩ where
  bracketed := h.bracketed.2 _
  run_eq := by
    intro v w hv
    have hrun : (k (U.step o u).2).run U (U.step o u).1 = (prog request).run U w :=
      h.run_eq u w fun _ => rfl
    rw [← hrun]
    by_cases hafter : U.after o = true
    · rw [hv hafter]
    · have hrest := h.bracketed.2 (U.step o u).2
      rw [Bool.eq_false_iff.mpr hafter] at hrest
      exact hrest.run_eq v _

theorem Sharing.step_sound [DecidableEq τ] {m : ClientMove τ γ}
    (hprog : ∀ g, (prog g).Bracketed U false)
    (hs : s.Sound U prog) (hm : Exclusive s m) (h : s.step U prog m = some s') :
    s'.Sound U prog := by
  have hupdate : ∀ t u x, SoundClient U prog u x →
      (∀ t', t' ≠ t → SoundClient U prog u (s.calls t')) →
      ∀ t', SoundClient U prog u (Function.update s.calls t x t') :=
    fun t u x hx hothers =>
      (Function.forall_update_iff _ fun _ => SoundClient U prog u).mpr ⟨hx, hothers⟩
  cases m with
  | call t request =>
      simp only [step] at h
      split at h
      · obtain rfl := Option.some.inj h
        have hnew : Call.Sound U prog s.unit ⟨request, prog request, false⟩ :=
          ⟨hprog request, fun u v _ => (hprog request).run_eq u v⟩
        exact ⟨hupdate t _ _ hnew.client fun t' _ => hs.calls t', hs.returned⟩
      · cases h
  | next t =>
      simp only [step] at h
      split at h
      · cases h
      · rename_i request a b hc
        obtain rfl := Option.some.inj h
        refine ⟨hupdate t _ _ (soundClient_none _) fun t' _ => hs.calls t', ?_⟩
        intro x hx v
        rcases List.mem_append.mp hx with hx | hx
        · exact hs.returned x hx v
        · rw [List.mem_singleton.mp hx]
          exact (hs.calls t _ hc).run_eq s.unit v fun _ => rfl
      · rename_i request o k b hc
        obtain rfl := Option.some.inj h
        have hoperates : s.operates t = true := by
          unfold operates
          rw [hc]
        refine ⟨hupdate t _ _ (hs.calls t _ hc).op.client ?_, hs.returned⟩
        -- the other clients are not in a session
        intro t' ht' c hc'
        have hout := hm hoperates t' ht'
        unfold inSession at hout
        rw [hc'] at hout
        exact (hs.calls t' c hc').of_unit hout

/-- **Exclusive sessions**: if the programs are bracketed and no client operates on the unit during
the session of another, every call returns what its program returns alone. -/
theorem returned_eq_run [DecidableEq τ] {u : υ} {ls : List (ClientMove τ γ)}
    (hprog : ∀ g, (prog g).Bracketed U false)
    (h : Run (Sharing.step U prog) (.init u) ls s)
    (hm : Meets (Sharing.step U prog) Exclusive (.init u) ls) :
    ∀ x ∈ s.returned, ∀ v, x.2 = (prog x.1).run U v := by
  have hs : s.Sound U prog :=
    h.invariant (fun _ _ _ hs hm hstep => Sharing.step_sound hprog hs hm hstep) hm
      (Sharing.sound_init u)
  exact hs.returned

end PeripheralTester.Lib
