import Mathlib.Tactic

/-! # Resources that are given back

Along the trace of a program a resource is taken and released.  The trace is `Closed` if what is
taken is released before anything is taken again, and nothing is released that was not taken; closed
traces can be put one after the other.  Then every take is followed by exactly one release before
the next attempt or the end (`Closed.released_once`). -/

namespace PeripheralTester.Lib

variable {ω : Type}

/-- How a resource shows in a trace: the attempts to take it, those that succeed, and the
releases. -/
structure Resource (ω : Type) where
  attempts : ω → Bool
  takes : ω → Bool
  releases : ω → Bool
  attempts_of_takes : ∀ x, takes x = true → attempts x = true
  releases_of_attempts : ∀ x, attempts x = true → releases x = false

namespace Resource

variable (R : Resource ω)

/-- Neither an attempt nor a release. -/
def Ignores (x : ω) : Prop := R.attempts x = false ∧ R.releases x = false

/-- The part of a trace before the next attempt. -/
def untilNext (w : List ω) : List ω := w.takeWhile fun x => !R.attempts x

/-- What is taken is released before the next attempt and before the end. -/
inductive Closed : List ω → Prop
  | nil : Closed []
  | ignored {x : ω} {w : List ω} (hx : R.Ignores x) (h : Closed w) : Closed (x :: w)
  | failed {x : ω} {w : List ω} (hattempt : R.attempts x = true) (hfailed : R.takes x = false)
      (h : Closed w) : Closed (x :: w)
  | used {x y : ω} {inner w : List ω} (htaken : R.takes x = true)
      (hinner : ∀ z ∈ inner, R.Ignores z) (hreleased : R.releases y = true) (h : Closed w) :
      Closed (x :: (inner ++ y :: w))

variable {R} {w w' : List ω}

theorem not_attempts_of_releases {x : ω} (h : R.releases x = true) : R.attempts x = false := by
  cases hattempt : R.attempts x with
  | false => rfl
  | true =>
      rw [R.releases_of_attempts x hattempt] at h
      cases h

theorem untilNext_of_attempts {x : ω} (h : R.attempts x = true) (w : List ω) :
    R.untilNext (x :: w) = [] := by
  unfold untilNext
  rw [List.takeWhile_cons_of_neg]
  simpa using h

theorem untilNext_of_not_attempts {x : ω} (h : R.attempts x = false) (w : List ω) :
    R.untilNext (x :: w) = x :: R.untilNext w := by
  unfold untilNext
  rw [List.takeWhile_cons_of_pos]
  simpa using h

theorem untilNext_ignored {inner : List ω} (h : ∀ z ∈ inner, R.Ignores z) (w : List ω) :
    R.untilNext (inner ++ w) = inner ++ R.untilNext w := by
  unfold untilNext
  rw [List.takeWhile_append_of_pos]
  intro z hz
  simpa using (h z hz).1

theorem countP_ignored {inner : List ω} (h : ∀ z ∈ inner, R.Ignores z) :
    inner.countP R.releases = 0 := by
  rw [List.countP_eq_zero]
  intro z hz
  simpa using (h z hz).2

/-! ### Closed traces -/

theorem closed_of_ignored (h : ∀ x ∈ w, R.Ignores x) : R.Closed w := by
  induction w with
  | nil => exact .nil
  | cons x w ih =>
      exact .ignored (h x List.mem_cons_self) (ih fun y hy => h y (List.mem_cons_of_mem x hy))

theorem Closed.append (h : R.Closed w) (h' : R.Closed w') : R.Closed (w ++ w') := by
  induction h with
  | nil => exact h'
  | ignored hx _ ih => exact .ignored hx ih
  | failed hattempt hfailed _ ih => exact .failed hattempt hfailed ih
  | used htaken hinner hreleased _ ih =>
      rw [List.cons_append, List.append_assoc, List.cons_append]
      exact .used htaken hinner hreleased ih

/-- A take and its release among what is ignored. -/
theorem closed_used {x y : ω} {before inner rest : List ω} (hbefore : ∀ z ∈ before, R.Ignores z)
    (htaken : R.takes x = true) (hinner : ∀ z ∈ inner, R.Ignores z)
    (hreleased : R.releases y = true) (hrest : ∀ z ∈ rest, R.Ignores z) :
    R.Closed (before ++ [x] ++ (inner ++ [y] ++ rest)) := by
  rw [List.append_assoc, List.append_assoc]
  exact (closed_of_ignored hbefore).append
    (.used htaken hinner hreleased (closed_of_ignored hrest))

/-- Nothing is released that was not taken. -/
theorem Closed.untilNext (h : R.Closed w) : (R.untilNext w).countP R.releases = 0 := by
  induction h with
  | nil => rfl
  | ignored hx _ ih =>
      rw [untilNext_of_not_attempts hx.1, List.countP_cons_of_neg (by simp [hx.2]), ih]
  | failed hattempt _ _ _ =>
      rw [untilNext_of_attempts hattempt]
      rfl
  | used htaken _ _ _ _ =>
      rw [untilNext_of_attempts (R.attempts_of_takes _ htaken)]
      rfl

/-- What comes after a take. -/
theorem released_once_after {y : ω} {inner : List ω} (hinner : ∀ z ∈ inner, R.Ignores z)
    (hreleased : R.releases y = true) (h : R.Closed w) :
    (R.untilNext (inner ++ y :: w)).countP R.releases = 1 := by
  have hy := not_attempts_of_releases hreleased
  rw [untilNext_ignored hinner, untilNext_of_not_attempts hy, List.countP_append,
    countP_ignored hinner, List.countP_cons_of_pos hreleased, h.untilNext]

/-- An attempt is not among what is ignored. -/
theorem attempt_after {x : ω} (hx : R.attempts x = true) {inner before rest : List ω}
    (hinner : ∀ z ∈ inner, R.attempts z = false) (h : inner ++ w = before ++ x :: rest) :
    ∃ between, w = between ++ x :: rest := by
  induction inner generalizing before with
  | nil => exact ⟨before, h⟩
  | cons z inner ih =>
      cases before with
      | nil =>
          obtain ⟨rfl, _⟩ := List.cons.inj h
          rw [hinner z List.mem_cons_self] at hx
          cases hx
      | cons z' before =>
          exact ih (fun y hy => hinner y (List.mem_cons_of_mem z hy)) (List.cons.inj h).2

/-- **Every take is followed by exactly one release**, before the next attempt or the end. -/
theorem Closed.released_once (h : R.Closed w) {x : ω} {before rest : List ω}
    (hw : w = before ++ x :: rest) (hx : R.takes x = true) :
    (R.untilNext rest).countP R.releases = 1 := by
  have hattempt := R.attempts_of_takes x hx
  induction h generalizing before with
  | nil => simp at hw
  | @ignored y w hy _ ih =>
      cases before with
      | nil =>
          obtain ⟨rfl, rfl⟩ := List.cons.inj hw
          rw [hy.1] at hattempt
          cases hattempt
      | cons z before => exact ih (List.cons.inj hw).2
  | @failed y w _ hfailed _ ih =>
      cases before with
      | nil =>
          obtain ⟨rfl, rfl⟩ := List.cons.inj hw
          rw [hfailed] at hx
          cases hx
      | cons z before => exact ih (List.cons.inj hw).2
  | @used y y' inner w _ hinner hreleased hclosed ih =>
      cases before with
      | nil =>
          obtain ⟨rfl, rfl⟩ := List.cons.inj hw
          exact released_once_after hinner hreleased hclosed
      | cons z before =>
          have hbetween : ∀ z ∈ inner ++ [y'], R.attempts z = false := by
            intro z hz
            rcases List.mem_append.mp hz with hz | hz
            · exact (hinner z hz).1
            · rw [List.mem_singleton.mp hz]
              exact not_attempts_of_releases hreleased
          have hrest : (inner ++ [y']) ++ w = before ++ x :: rest := by
            rw [List.append_assoc]
            exact (List.cons.inj hw).2
          obtain ⟨between, hw'⟩ := attempt_after hattempt hbetween hrest
          exact ih hw'

end Resource

end PeripheralTester.Lib
