import PeripheralTester.Lib.Counter

/-! # Receiving with a timeout

`xQueueReceive` of a queue with one receiver: a loop that looks into the queue, and blocks while it
is empty and the time is not over.  A `Receive` is a place in it, and `Receive.step` what the task
does from there, at a tick and with an empty queue or not.  The other parties move in between.

The kernel measures the time with the low 32 bits of the tick and a count of its wraps, starts anew
at each check (`xTaskCheckForTimeOut`), and takes `portMAX_DELAY` for no limit.  A receive that is
called with another limit leaves without an item when it has found the queue empty for so many
ticks, and not before (`Receive.Waits.expires_iff`); called with `portMAX_DELAY` it never does
(`Receive.Unlimited.step`). -/

namespace PeripheralTester.Firmware

open Lib

/-! ### The time of a wait -/

/-- `portMAX_DELAY` for 32-bit ticks. -/
def portMaxDelay : UInt32 := 0xffffffff

/-- `TimeOut_t`. -/
structure TimeOut where
  overflowCount : UInt32
  timeOnEntering : UInt32
deriving DecidableEq, Repr

/-- `vTaskInternalSetTimeOutState`, at a tick since the start: `xTickCount` is its low 32 bits and
`xNumOfOverflows` counts the wraps. -/
def vTaskInternalSetTimeOutState (now : ℕ) : TimeOut :=
  ⟨UInt32.ofNat (now / 2 ^ 32), UInt32.ofNat now⟩

/-- A wait under way: what is left of it from when, and since when the queue has been found empty,
which the code does not keep. -/
structure WaitTime where
  timeOut : TimeOut
  ticksToWait : UInt32
  since : ℕ
deriving DecidableEq, Repr

/-- `xTaskCheckForTimeOut`: whether the time is over. -/
def xTaskCheckForTimeOut (now : ℕ) (w : WaitTime) : Bool × WaitTime :=
  let current := vTaskInternalSetTimeOutState now
  let elapsedTime := current.timeOnEntering - w.timeOut.timeOnEntering
  if w.ticksToWait = portMaxDelay then (false, w)
  else if current.overflowCount ≠ w.timeOut.overflowCount ∧
      current.timeOnEntering ≥ w.timeOut.timeOnEntering then (true, w)
  else if elapsedTime < w.ticksToWait then
    (false, { w with timeOut := current, ticksToWait := w.ticksToWait - elapsedTime })
  else (true, { w with ticksToWait := 0 })

/-- `prvAddCurrentTaskToDelayedList`: the tick that wakes the task, unless an item does.  The
kernel keeps two lists, so that it does not matter where `xTimeToWake` wraps. -/
def timeToWake (now : ℕ) (ticksToWait : UInt32) : Option ℕ :=
  if ticksToWait = portMaxDelay then none else some (now + ticksToWait.toNat)

/-! ### The loop -/

/-- Where the task is. -/
inductive Receive where
  /-- At the first look into the queue. -/
  | enter (ticksToWait : UInt32)
  /-- At a later one. -/
  | again (w : WaitTime)
  /-- Before `vTaskSuspendAll`. -/
  | check (w : WaitTime)
  /-- On the queue's list of waiting tasks. -/
  | blocked (w : WaitTime) (wakeAt : Option ℕ)
  /-- After `xTaskResumeAll`, the time is over. -/
  | timedOut (w : WaitTime)
deriving DecidableEq, Repr

/-- A call. -/
def xQueueReceive (ticksToWait : UInt32) : Receive := .enter ticksToWait

/-- The task goes on; `.inr true` is `pdPASS` and `.inr false` is `errQUEUE_EMPTY`.  A blocked task
cannot go on before its time or an item wakes it; with the scheduler suspended, the check and the
blocking are one step. -/
def Receive.step (now : ℕ) (isEmpty : Bool) : Receive → Option (Receive ⊕ Bool)
  | .enter ticksToWait =>
      if !isEmpty then some (.inr true)
      else if ticksToWait = 0 then some (.inr false)
      else some (.inl (.check ⟨vTaskInternalSetTimeOutState now, ticksToWait, now⟩))
  | .again w =>
      if !isEmpty then some (.inr true)
      else if w.ticksToWait = 0 then some (.inr false)
      else some (.inl (.check w))
  | .check w =>
      let (expired, w) := xTaskCheckForTimeOut now w
      if expired then some (.inl (.timedOut w))
      else if isEmpty then some (.inl (.blocked w (timeToWake now w.ticksToWait)))
      else some (.inl (.again w))
  | .blocked w wakeAt =>
      if !isEmpty || wakeAt.any (· ≤ now) then some (.inl (.again w)) else none
  | .timedOut w => if isEmpty then some (.inr false) else some (.inl (.again w))

/-- The wait, once the queue has been found empty. -/
def Receive.waiting : Receive → Option WaitTime
  | .enter _ => none
  | .again w | .check w | .blocked w _ | .timedOut w => some w

/-! ### Without a limit -/

/-- A receive that was called with `portMAX_DELAY`. -/
inductive Receive.Unlimited : Receive → Prop
  | enter : Unlimited (.enter portMaxDelay)
  | again {w : WaitTime} (h : w.ticksToWait = portMaxDelay) : Unlimited (.again w)
  | check {w : WaitTime} (h : w.ticksToWait = portMaxDelay) : Unlimited (.check w)
  | blocked {w : WaitTime} (h : w.ticksToWait = portMaxDelay) : Unlimited (.blocked w none)

theorem xTaskCheckForTimeOut_unlimited (now : ℕ) {w : WaitTime}
    (h : w.ticksToWait = portMaxDelay) : xTaskCheckForTimeOut now w = (false, w) := by
  unfold xTaskCheckForTimeOut
  exact if_pos h

/-- **Without a limit a receive leaves with an item only**, however long it waits. -/
theorem Receive.Unlimited.step {r : Receive} (h : r.Unlimited) {now : ℕ} {isEmpty : Bool}
    {x : Receive ⊕ Bool} (hx : r.step now isEmpty = some x) :
    (∃ r', x = .inl r' ∧ r'.Unlimited) ∨ x = .inr true ∧ isEmpty = false := by
  have hmax : portMaxDelay ≠ 0 := by decide
  cases isEmpty with
  | false =>
      cases h with
      | enter | again =>
          obtain rfl := Option.some.inj hx
          exact .inr ⟨rfl, rfl⟩
      | check h =>
          simp only [Receive.step, xTaskCheckForTimeOut_unlimited now h] at hx
          obtain rfl := Option.some.inj hx
          exact .inl ⟨_, rfl, .again h⟩
      | blocked h =>
          obtain rfl := Option.some.inj hx
          exact .inl ⟨_, rfl, .again h⟩
  | true =>
      left
      cases h with
      | enter =>
          obtain rfl := Option.some.inj hx
          exact ⟨_, rfl, .check rfl⟩
      | again h =>
          simp only [Receive.step, h, hmax] at hx
          obtain rfl := Option.some.inj hx
          exact ⟨_, rfl, .check h⟩
      | check h =>
          simp only [Receive.step, xTaskCheckForTimeOut_unlimited now h] at hx
          obtain rfl := Option.some.inj hx
          refine ⟨_, rfl, ?_⟩
          rw [timeToWake, if_pos h]
          exact .blocked h
      | blocked h => cases hx

/-! ### With a limit -/

/-- What is left of a wait ends `limit` ticks after the queue was found empty. -/
def WaitTime.Armed (w : WaitTime) (limit : UInt32) (now : ℕ) : Prop :=
  ∃ entered, w.timeOut = vTaskInternalSetTimeOutState entered ∧ w.since ≤ entered ∧
    entered ≤ now ∧ 0 < w.ticksToWait.toNat ∧
    entered + w.ticksToWait.toNat = w.since + limit.toNat

/-- A receive with a limit while its queue is empty. -/
inductive Receive.Waits (limit : UInt32) (now : ℕ) : Receive → Prop
  | enter : Waits limit now (.enter limit)
  | again {w : WaitTime} (h : w.Armed limit now) (hnow : now ≤ w.since + limit.toNat) :
      Waits limit now (.again w)
  | check {w : WaitTime} (h : w.Armed limit now) (hnow : now ≤ w.since + limit.toNat) :
      Waits limit now (.check w)
  | blocked {w : WaitTime} (h : w.Armed limit now) (hnow : now ≤ w.since + limit.toNat) :
      Waits limit now (.blocked w (some (w.since + limit.toNat)))
  | timedOut {w : WaitTime} (hnow : now = w.since + limit.toNat) : Waits limit now (.timedOut w)

section

variable {limit : UInt32} {now : ℕ} {w : WaitTime}

theorem WaitTime.Armed.later {later : ℕ} (h : w.Armed limit now) (hle : now ≤ later) :
    w.Armed limit later := by
  obtain ⟨entered, hentered, hsince, hnow, hpos, hdue⟩ := h
  exact ⟨entered, hentered, hsince, hnow.trans hle, hpos, hdue⟩

theorem WaitTime.Armed.ne_zero (h : w.Armed limit now) : w.ticksToWait ≠ 0 := by
  obtain ⟨_, _, _, _, hpos, _⟩ := h
  intro hzero
  rw [hzero] at hpos
  exact absurd hpos (by decide)

/-- The rest of a limited wait is limited. -/
theorem WaitTime.Armed.ne_max (h : w.Armed limit now) (hlimit : limit ≠ portMaxDelay) :
    w.ticksToWait ≠ portMaxDelay := by
  obtain ⟨entered, _, hsince, _, _, hdue⟩ := h
  intro hmax
  have hle : portMaxDelay.toNat ≤ limit.toNat := by
    rw [← hmax]
    omega
  have hlt : limit.toNat < 2 ^ 32 := limit.toNat_lt
  have hvalue : portMaxDelay.toNat = 4294967295 := rfl
  exact hlimit (UInt32.toNat_inj.mp (by omega))

/-- Within 2³² ticks, a tick that has wrapped is below the one it started from. -/
theorem not_wrapped_past {entered : ℕ} (hentered : entered ≤ now) (h : now - entered < 2 ^ 32) :
    ¬ ((vTaskInternalSetTimeOutState now).overflowCount ≠
        (vTaskInternalSetTimeOutState entered).overflowCount ∧
      (vTaskInternalSetTimeOutState now).timeOnEntering ≥
        (vTaskInternalSetTimeOutState entered).timeOnEntering) := by
  rintro ⟨hwrapped, hpast⟩
  have hturns : now / 2 ^ 32 ≠ entered / 2 ^ 32 := fun heq => hwrapped (congrArg UInt32.ofNat heq)
  have hle : entered % 2 ^ 32 ≤ now % 2 ^ 32 := by
    simpa [vTaskInternalSetTimeOutState, UInt32.le_iff_toNat_le] using hpast
  omega

/-- **The kernel's check is exact**, as long as it comes in time: the time is over at the last tick
of the limit, and otherwise the rest of the wait is armed anew. -/
theorem xTaskCheckForTimeOut_armed (hlimit : limit ≠ portMaxDelay) (h : w.Armed limit now)
    (hnow : now ≤ w.since + limit.toNat) :
    ∃ w', w'.since = w.since ∧
      (now = w.since + limit.toNat ∧ xTaskCheckForTimeOut now w = (true, w') ∨
        now < w.since + limit.toNat ∧ xTaskCheckForTimeOut now w = (false, w') ∧
          w'.Armed limit now ∧ now + w'.ticksToWait.toNat = w.since + limit.toNat) := by
  have hmax := h.ne_max hlimit
  obtain ⟨entered, hentered, hsince, hle, hpos, hdue⟩ := h
  have hwait : w.ticksToWait.toNat < 2 ^ 32 := w.ticksToWait.toNat_lt
  have hshort : now - entered < 2 ^ 32 := by omega
  have helapsed := toNat_ofNat_sub hle hshort
  have hcheck : xTaskCheckForTimeOut now w =
      if UInt32.ofNat now - UInt32.ofNat entered < w.ticksToWait then
        (false, { w with
          timeOut := vTaskInternalSetTimeOutState now
          ticksToWait := w.ticksToWait - (UInt32.ofNat now - UInt32.ofNat entered) })
      else (true, { w with ticksToWait := 0 }) := by
    unfold xTaskCheckForTimeOut
    simp only [hentered]
    rw [if_neg hmax, if_neg (not_wrapped_past hle hshort)]
    rfl
  rw [hcheck]
  by_cases hover : UInt32.ofNat now - UInt32.ofNat entered < w.ticksToWait
  · rw [if_pos hover]
    have hrest : (w.ticksToWait - (UInt32.ofNat now - UInt32.ofNat entered)).toNat =
        w.ticksToWait.toNat - (now - entered) := by
      rw [UInt32.toNat_sub_of_le _ _ (UInt32.le_of_lt hover), helapsed]
    rw [UInt32.lt_iff_toNat_lt, helapsed] at hover
    have hdue' : now + (w.ticksToWait - (UInt32.ofNat now - UInt32.ofNat entered)).toNat =
        w.since + limit.toNat := by
      rw [hrest]
      omega
    refine ⟨⟨vTaskInternalSetTimeOutState now,
      w.ticksToWait - (UInt32.ofNat now - UInt32.ofNat entered), w.since⟩, rfl,
      .inr ⟨by omega, rfl, ⟨now, rfl, hsince.trans hle, le_rfl, ?_, hdue'⟩, hdue'⟩⟩
    rw [hrest]
    omega
  · rw [if_neg hover]
    rw [UInt32.lt_iff_toNat_lt, helapsed] at hover
    exact ⟨{ w with ticksToWait := 0 }, rfl, .inl ⟨by omega, rfl⟩⟩

/-! ### The receive -/

/-- The receive is still inside its limit: while the queue is empty, the last tick has not come. -/
def Receive.InTime (limit : UInt32) (now : ℕ) (r : Receive) : Prop :=
  ∀ w, r.waiting = some w → now < w.since + limit.toNat

variable {r : Receive}

theorem Receive.Waits.tick (h : r.Waits limit now) (hin : r.InTime limit now) :
    r.Waits limit (now + 1) := by
  cases h with
  | enter => exact .enter
  | again h _ => exact .again (h.later (Nat.le_succ now)) (hin _ rfl)
  | check h _ => exact .check (h.later (Nat.le_succ now)) (hin _ rfl)
  | blocked h _ => exact .blocked (h.later (Nat.le_succ now)) (hin _ rfl)
  | timedOut hnow => exact absurd (hin _ rfl) (by omega)

theorem Receive.InTime.of_waiting {r' : Receive} {w w' : WaitTime} (h : r.InTime limit now)
    (hr : r.waiting = some w) (hr' : r'.waiting = some w') (hsince : w'.since = w.since) :
    r'.InTime limit now := by
  intro v hv
  obtain rfl := Option.some.inj (hr'.symm.trans hv)
  rw [hsince]
  exact h w hr

/-- What a receive does with an empty queue: it goes on with its wait, or its time is over. -/
theorem Receive.Waits.step (hpos : 0 < limit.toNat) (hlimit : limit ≠ portMaxDelay)
    (h : r.Waits limit now) {x : Receive ⊕ Bool} (hx : r.step now true = some x) :
    (∃ r', x = .inl r' ∧ r'.Waits limit now ∧ (r.InTime limit now → r'.InTime limit now)) ∨
    x = .inr false ∧ ¬ r.InTime limit now := by
  cases h with
  | enter =>
      have hzero : limit ≠ 0 := by
        rintro rfl
        exact absurd hpos (by decide)
      simp only [Receive.step, hzero] at hx
      obtain rfl := Option.some.inj hx
      refine .inl ⟨_, rfl, .check ⟨now, rfl, le_rfl, le_rfl, hpos, rfl⟩ (Nat.le_add_right _ _), ?_⟩
      rintro _ w ⟨⟩
      exact Nat.lt_add_of_pos_right hpos
  | again h hnow =>
      simp only [Receive.step, h.ne_zero] at hx
      obtain rfl := Option.some.inj hx
      exact .inl ⟨_, rfl, .check h hnow, fun hin => hin.of_waiting rfl rfl rfl⟩
  | @check w h hnow =>
      obtain ⟨w', hsince, ⟨hover, hcheck⟩ | ⟨_, hcheck, harmed, hdue⟩⟩ :=
        xTaskCheckForTimeOut_armed hlimit h hnow
      · simp only [Receive.step, hcheck] at hx
        obtain rfl := Option.some.inj hx
        exact .inl ⟨_, rfl, .timedOut (hsince ▸ hover), fun hin => hin.of_waiting rfl rfl hsince⟩
      · simp only [Receive.step, hcheck] at hx
        obtain rfl := Option.some.inj hx
        refine .inl ⟨_, rfl, ?_, fun hin => hin.of_waiting rfl rfl hsince⟩
        rw [timeToWake, if_neg (harmed.ne_max hlimit), hdue, ← hsince]
        exact .blocked harmed (hsince ▸ hnow)
  | blocked h hnow =>
      simp only [Receive.step] at hx
      split at hx
      · obtain rfl := Option.some.inj hx
        exact .inl ⟨_, rfl, .again h hnow, fun hin => hin.of_waiting rfl rfl rfl⟩
      · cases hx
  | timedOut hnow =>
      obtain rfl := Option.some.inj hx
      exact .inr ⟨rfl, fun hin => (hin _ rfl).ne hnow⟩

/-- A receive that finds an item does not fail. -/
theorem Receive.step_item (r : Receive) (now : ℕ) : r.step now false ≠ some (.inr false) := by
  intro h
  cases r with
  | check w =>
      simp only [Receive.step] at h
      split at h
      · cases h
      · cases h
  | _ => cases h

/-- With the queue empty and no tick, the task goes on by itself, and after so many moves it leaves
with `errQUEUE_EMPTY`. -/
inductive Receive.Expires (now : ℕ) : Receive → ℕ → Prop
  | leaves {r : Receive} (h : r.step now true = some (.inr false)) : Expires now r 0
  | goes {r r' : Receive} {k : ℕ} (h : r.step now true = some (.inl r')) (hr' : Expires now r' k) :
      Expires now r (k + 1)

theorem Receive.expires_check (hlimit : limit ≠ portMaxDelay) (h : w.Armed limit now)
    (hnow : now = w.since + limit.toNat) : (Receive.check w).Expires now 1 := by
  obtain ⟨w', _, ⟨_, hcheck⟩ | ⟨hlt, _⟩⟩ := xTaskCheckForTimeOut_armed hlimit h hnow.le
  · have hstep : (Receive.check w).step now true = some (.inl (.timedOut w')) := by
      simp [Receive.step, hcheck]
    exact .goes hstep (.leaves rfl)
  · omega

theorem Receive.expires_again (hlimit : limit ≠ portMaxDelay) (h : w.Armed limit now)
    (hnow : now = w.since + limit.toNat) : (Receive.again w).Expires now 2 := by
  have hstep : (Receive.again w).step now true = some (.inl (.check w)) := by
    simp [Receive.step, h.ne_zero]
  exact .goes hstep (expires_check hlimit h hnow)

/-- **A limited receive leaves without an item at the last tick of its limit**, and not before. -/
theorem Receive.Waits.expires_iff (hpos : 0 < limit.toNat) (hlimit : limit ≠ portMaxDelay)
    (h : r.Waits limit now) : (∃ k, r.Expires now k) ↔ ¬ r.InTime limit now := by
  constructor
  · rintro ⟨k, hk⟩ hin
    induction hk with
    | leaves hstep =>
        obtain ⟨_, hx, _⟩ | ⟨_, hnot⟩ := h.step hpos hlimit hstep
        · cases hx
        · exact hnot hin
    | goes hstep _ ih =>
        obtain ⟨_, hx, hr', hin'⟩ | ⟨hx, _⟩ := h.step hpos hlimit hstep
        · obtain rfl := Sum.inl.inj hx
          exact ih hr' (hin' hin)
        · cases hx
  · intro hnot
    unfold Receive.InTime at hnot
    push Not at hnot
    obtain ⟨w, hw, hover⟩ := hnot
    cases h with
    | enter => cases hw
    | again h hnow =>
        obtain rfl := Option.some.inj hw
        exact ⟨2, expires_again hlimit h (le_antisymm hnow hover)⟩
    | check h hnow =>
        obtain rfl := Option.some.inj hw
        exact ⟨1, expires_check hlimit h (le_antisymm hnow hover)⟩
    | @blocked w h hnow =>
        cases hw
        have hstep : (Receive.blocked w (some (w.since + limit.toNat))).step now true =
            some (.inl (.again w)) := by
          simp [Receive.step, hover]
        exact ⟨3, .goes hstep (expires_again hlimit h (le_antisymm hnow hover))⟩
    | timedOut hnow => exact ⟨0, .leaves rfl⟩

end

end PeripheralTester.Firmware
