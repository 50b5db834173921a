import Mathlib.Tactic

/-! # Operations under way

A device works on the operations that its callers have started, each for an owner.  It completes an
operation at most once, and not after the operations of its owner have been cancelled.  A log of
these events tells which operations are outstanding (`outstanding`), and it is `LawfulLog` if each
completion in it is that of an outstanding operation.

A completion does not say which operation it belongs to, only its key.  So what a caller can rely
on is that in a lawful log each completion has a start before it (`LawfulLog.exists_start`), and
that there are no more completions with a key than starts (`LawfulLog.completions_le`). -/

namespace PeripheralTester.Lib

/-- An event of operations `ρ`, completions `κ`, and owners `η`. -/
inductive DeviceEvent (ρ κ η : Type) where
  | start (r : ρ)
  | complete (k : κ)
  | cancel (h : η)

namespace DeviceEvent

variable {ρ κ η : Type} [DecidableEq κ] [DecidableEq η] (key : ρ → κ) (owner : ρ → η)

/-- What an event does to the outstanding operations. -/
def apply (l : List ρ) : DeviceEvent ρ κ η → List ρ
  | start r => r :: l
  | complete k => l.eraseP fun r => key r = k
  | cancel h => l.filter fun r => owner r ≠ h

/-- The rule for completions. -/
def Allowed (l : List ρ) : DeviceEvent ρ κ η → Prop
  | complete k => ∃ r ∈ l, key r = k
  | _ => True

instance (l : List ρ) (e : DeviceEvent ρ κ η) : Decidable (e.Allowed key l) := by
  cases e with
  | complete k => exact inferInstanceAs (Decidable (∃ r ∈ l, key r = k))
  | start | cancel => exact isTrue trivial

/-- The event starts an operation with the key. -/
def starts (k : κ) : DeviceEvent ρ κ η → Bool
  | start r => key r = k
  | _ => false

/-- The event is a completion with the key. -/
def completes (k : κ) : DeviceEvent ρ κ η → Bool
  | complete k' => k' = k
  | _ => false

/-- The operation that the event starts. -/
def started : DeviceEvent ρ κ η → Option ρ
  | start r => some r
  | _ => none

end DeviceEvent

variable {ρ κ η : Type} [DecidableEq κ] [DecidableEq η] (key : ρ → κ) (owner : ρ → η)

/-- The operations outstanding after a log, from those outstanding before. -/
def outstanding (l : List ρ) (w : List (DeviceEvent ρ κ η)) : List ρ :=
  w.foldl (DeviceEvent.apply key owner) l

/-- Each completion is that of an outstanding operation. -/
def LawfulLog : List ρ → List (DeviceEvent ρ κ η) → Prop
  | _, [] => True
  | l, e :: w => e.Allowed key l ∧ LawfulLog (e.apply key owner l) w

instance instDecidableLawfulLog (l : List ρ) (w : List (DeviceEvent ρ κ η)) :
    Decidable (LawfulLog key owner l w) :=
  match w with
  | [] => isTrue trivial
  | e :: w =>
      have := instDecidableLawfulLog (e.apply key owner l) w
      inferInstanceAs (Decidable (_ ∧ _))

variable {key : ρ → κ} {owner : ρ → η} {l : List ρ} {w w' : List (DeviceEvent ρ κ η)}

@[simp] theorem outstanding_nil : outstanding key owner l [] = l := rfl

@[simp] theorem outstanding_cons (e : DeviceEvent ρ κ η) :
    outstanding key owner l (e :: w) = outstanding key owner (e.apply key owner l) w := rfl

@[simp] theorem outstanding_append :
    outstanding key owner l (w ++ w') = outstanding key owner (outstanding key owner l w) w' :=
  List.foldl_append

theorem lawful_append : LawfulLog key owner l (w ++ w') ↔
    LawfulLog key owner l w ∧ LawfulLog key owner (outstanding key owner l w) w' := by
  induction w generalizing l with
  | nil => exact ⟨fun h => ⟨trivial, h⟩, And.right⟩
  | cons e w ih =>
      show _ ∧ LawfulLog key owner _ (w ++ w') ↔ (_ ∧ _) ∧ _
      rw [ih, and_assoc]
      rfl

/-- Only a start adds an operation. -/
theorem DeviceEvent.mem_apply {e : DeviceEvent ρ κ η} {r : ρ} (h : r ∈ e.apply key owner l) :
    r ∈ l ∨ e = .start r := by
  cases e with
  | start r' =>
      rcases List.mem_cons.mp h with rfl | h
      · exact .inr rfl
      · exact .inl h
  | complete k => exact .inl (List.mem_of_mem_eraseP h)
  | cancel h' => exact .inl (List.mem_of_mem_filter h)

theorem mem_outstanding {r : ρ} (h : r ∈ outstanding key owner l w) : r ∈ l ∨ .start r ∈ w := by
  induction w generalizing l with
  | nil => exact .inl h
  | cons e w ih =>
      rcases ih h with h | h
      · rcases DeviceEvent.mem_apply h with h | rfl
        · exact .inl h
        · exact .inr List.mem_cons_self
      · exact .inr (List.mem_cons_of_mem e h)

/-- Without a start nothing new becomes outstanding. -/
theorem outstanding_subset (hw : ∀ e ∈ w, e.started = none) :
    outstanding key owner l w ⊆ l := by
  intro r h
  rcases mem_outstanding h with h | h
  · exact h
  · cases hw _ h

/-- After a cancellation, and without a start, nothing of the owner is outstanding. -/
theorem outstanding_cancelled (hw : ∀ e ∈ w, e.started = none) {h : η} (hh : .cancel h ∈ w) :
    ∀ r ∈ outstanding key owner l w, owner r ≠ h := by
  obtain ⟨w₁, w₂, rfl⟩ := List.append_of_mem hh
  intro r hr
  rw [outstanding_append, outstanding_cons] at hr
  have hw₂ : ∀ e ∈ w₂, e.started = none := fun e he =>
    hw e (List.mem_append_right w₁ (List.mem_cons_of_mem _ he))
  have hmem := outstanding_subset hw₂ hr
  simpa using List.of_mem_filter hmem

/-- The start of a completion. -/
theorem LawfulLog.exists_start {k : κ} (h : LawfulLog key owner l (w ++ .complete k :: w')) :
    ∃ r, key r = k ∧ (r ∈ l ∨ .start r ∈ w) := by
  obtain ⟨r, hr, hk⟩ := (lawful_append.mp h).2.1
  exact ⟨r, hk, mem_outstanding hr⟩

/-- What one event does to the number of outstanding operations with a key. -/
theorem DeviceEvent.countP_apply {e : DeviceEvent ρ κ η} (h : e.Allowed key l) (k : κ) :
    (e.apply key owner l).countP (key · = k) + (if e.completes k then 1 else 0) ≤
      l.countP (key · = k) + if e.starts key k then 1 else 0 := by
  cases e with
  | start r =>
      show (r :: l).countP _ + 0 ≤ _
      rw [List.countP_cons]
      exact le_rfl
  | cancel h' =>
      show (l.filter _).countP _ + 0 ≤ l.countP _ + 0
      exact List.filter_sublist.countP_le
  | complete k' =>
      show (l.eraseP _).countP _ + _ ≤ l.countP _ + 0
      by_cases hk : k' = k
      · subst hk
        obtain ⟨r, hr, hkey⟩ := h
        obtain ⟨r', l₁, l₂, _, hkey', hl, herase⟩ :=
          List.exists_of_eraseP (p := fun r => decide (key r = k')) hr (decide_eq_true hkey)
        rw [herase, hl]
        simp only [List.countP_append, List.countP_cons, hkey', DeviceEvent.completes, decide_true,
          if_true]
        omega
      · have hsub := (List.eraseP_sublist (p := fun r => decide (key r = k')) (l := l)).countP_le
          (p := fun r => decide (key r = k))
        simpa [DeviceEvent.completes, hk] using hsub

/-- In a lawful log there are no more completions with a key than operations. -/
theorem LawfulLog.completions_le (h : LawfulLog key owner l w) (k : κ) :
    (outstanding key owner l w).countP (key · = k) + w.countP (DeviceEvent.completes k) ≤
      l.countP (key · = k) + w.countP (DeviceEvent.starts key k) := by
  induction w generalizing l with
  | nil => exact le_rfl
  | cons e w ih =>
      have hstep : (e.apply key owner l).countP (key · = k) + _ ≤ _ :=
        DeviceEvent.countP_apply h.1 k
      have hrest := ih h.2
      rw [List.countP_cons, List.countP_cons, outstanding_cons]
      omega

end PeripheralTester.Lib
