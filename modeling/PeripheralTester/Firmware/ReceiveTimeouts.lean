import PeripheralTester.Firmware.Pipeline
import PeripheralTester.Firmware.QueueReceive

/-! # The timeouts of the two receivers

The dispatcher and the response sender wait for their queues with a timeout in milliseconds that
stands for ever, `0xFFFFFFFF`.  `pdMS_TO_TICKS` multiplies it by the tick rate in 32 bits before it
divides, so it is right up to 4294967 ms (`pdMsToTicks_eq_iff`), and no timeout becomes
`portMAX_DELAY`: these two become 4294966 ticks, less than 72 minutes.

`Timed` is the pipeline with the tick and with the place of each receiver in `xQueueReceive`; every
run of it is one of the pipeline (`Timed.run_pipeline`).  A receiver that has found its queue empty
for 4294966 ticks goes on by itself to its "receive failed" line, and no other receiver does
(`receive_timeouts`). -/

namespace PeripheralTester.Firmware

open Lib

/-! ### Milliseconds and ticks -/

/-- `configTICK_RATE_HZ`. -/
def configTickRateHz : UInt32 := 1000

/-- `pdMS_TO_TICKS`. -/
def pdMsToTicks (timeMs : UInt32) : UInt32 := timeMs * configTickRateHz / 1000

/-- `APP_DISPATCHER_WAIT_FOREVER_MS`. -/
def appDispatcherWaitForeverMs : UInt32 := 0xFFFFFFFF

/-- `app_command_queue_receive` with a queue that has been created. -/
def appCommandQueueReceive (timeoutMs : UInt32) : Receive := xQueueReceive (pdMsToTicks timeoutMs)

/-- `app_response_queue_receive` with a queue that has been created. -/
def appResponseQueueReceive (timeoutMs : UInt32) : Receive := xQueueReceive (pdMsToTicks timeoutMs)

theorem pdMsToTicks_toNat (timeMs : UInt32) :
    (pdMsToTicks timeMs).toNat = timeMs.toNat * 1000 % 2 ^ 32 / 1000 := by
  have hrate : configTickRateHz.toNat = 1000 := rfl
  unfold pdMsToTicks
  rw [UInt32.toNat_div, UInt32.toNat_mul, hrate]
  rfl

/-- **The conversion is right as long as the product does not wrap.** -/
theorem pdMsToTicks_eq_iff {timeMs : UInt32} : pdMsToTicks timeMs = timeMs ↔ timeMs ≤ 4294967 := by
  have htime : timeMs.toNat < 2 ^ 32 := timeMs.toNat_lt
  have hlimit : (4294967 : UInt32).toNat = 4294967 := rfl
  rw [← UInt32.toNat_inj, pdMsToTicks_toNat, UInt32.le_iff_toNat_le, hlimit]
  omega

/-- It is monotone so far and no further: the next timeout has no ticks at all. -/
theorem pdMsToTicks_mono_iff {bound : UInt32} :
    (∀ s t, s ≤ t → t ≤ bound → pdMsToTicks s ≤ pdMsToTicks t) ↔ bound ≤ 4294967 := by
  constructor
  · intro hmono
    by_contra hbound
    have hnext : 4294968 ≤ bound := by
      rw [UInt32.le_iff_toNat_le] at hbound ⊢
      have hlimit : (4294967 : UInt32).toNat = 4294967 := rfl
      have hlimit' : (4294968 : UInt32).toNat = 4294968 := rfl
      omega
    exact absurd (hmono 4294967 4294968 (by decide) hnext) (by decide)
  · intro hbound s t hst ht
    have ht' : t ≤ 4294967 := UInt32.le_trans ht hbound
    rw [pdMsToTicks_eq_iff.mpr ht', pdMsToTicks_eq_iff.mpr (UInt32.le_trans hst ht')]
    exact hst

/-- No timeout stands for ever. -/
theorem pdMsToTicks_ne_max (timeMs : UInt32) : pdMsToTicks timeMs ≠ portMaxDelay := by
  intro hmax
  have hticks := pdMsToTicks_toNat timeMs
  have hvalue : portMaxDelay.toNat = 4294967295 := rfl
  rw [hmax, hvalue] at hticks
  omega

/-! ### The receivers -/

inductive Receiver where
  | dispatcher
  | sender
deriving DecidableEq, Repr

variable {ο : Type}

/-- The task is at its receive, and not busy with what it has received. -/
def Receiver.receiving : Receiver → Device ο → Bool
  | .dispatcher, d => d.dispatcher.isNone
  | .sender, d =>
      match d.sender with
      | .idle => true
      | _ => false

def Receiver.isEmpty : Receiver → Device ο → Bool
  | .dispatcher, d => d.commandQueue.items.isEmpty
  | .sender, d => d.responseQueue.items.isEmpty

/-- The call in the head of its loop. -/
def Receiver.call : Receiver → Receive
  | .dispatcher => appCommandQueueReceive appDispatcherWaitForeverMs
  | .sender => appResponseQueueReceive portMaxDelay

/-- The line for a receive that failed. -/
def Receiver.failLine : Receiver → String
  | .dispatcher => "Dispatcher receive failed\r\n"
  | .sender => "Response sender receive failed\r\n"

/-- Whose move an event is. -/
def Event.receiver : Event ο → Option Receiver
  | .dispatcher => some .dispatcher
  | .sender _ _ => some .sender
  | _ => none

/-- The pipeline, the tick, and where its receivers are in their receives. -/
structure Timed (ο : Type) where
  device : Device ο
  now : ℕ
  place : Receiver → Option Receive

def Timed.init (udpPcb : Bool) : Timed ο := ⟨.init udpPcb, 0, fun _ => none⟩

/-- A receiver is in its receive, or has left it. -/
def Timed.put (s : Timed ο) (t : Receiver) (r : Option Receive) : Timed ο :=
  { s with place := Function.update s.place t r }

@[simp] theorem Timed.put_device (s : Timed ο) (t : Receiver) (r : Option Receive) :
    (s.put t r).device = s.device := rfl

@[simp] theorem Timed.put_self (s : Timed ο) (t : Receiver) (r : Option Receive) :
    (s.put t r).place t = r := Function.update_self _ _ _

theorem Timed.put_of_ne (s : Timed ο) {t u : Receiver} (h : t ≠ u) (r : Option Receive) :
    (s.put u r).place t = s.place t := Function.update_of_ne h _ _

/-- A tick (`none`) or a move of the pipeline.  A receiver calls `xQueueReceive`, goes on in it, and
with its return makes its move of the pipeline. -/
def Timed.step (s : Timed ο) : Option (Event ο) → Option (Timed ο)
  | none => some { s with now := s.now + 1 }
  | some e =>
      let moved := (Firmware.step s.device e).map fun d => { s with device := d }
      match e.receiver with
      | none => moved
      | some t =>
          if !t.receiving s.device then moved
          else
            match s.place t with
            | none => some (s.put t (some t.call))
            | some r =>
                match r.step s.now (t.isEmpty s.device) with
                | none => none
                | some (.inl r') => some (s.put t (some r'))
                | some (.inr _) => moved.map fun s => s.put t none

/-- The event is the return of a receive without an item. -/
def Timed.Fails (s : Timed ο) (t : Receiver) (e : Event ο) : Prop :=
  e.receiver = some t ∧ t.receiving s.device = true ∧
    ∃ r, s.place t = some r ∧ r.step s.now (t.isEmpty s.device) = some (.inr false)

/-! ### What a step can do -/

inductive Timed.Moved (s : Timed ο) : Option (Event ο) → Timed ο → Prop
  | tick : Moved s none { s with now := s.now + 1 }
  /-- A move of another party. -/
  | other {e : Event ο} {d : Device ο} (he : e.receiver = none)
      (hd : Firmware.step s.device e = some d) : Moved s (some e) { s with device := d }
  /-- A move of a receiver that is not at its receive. -/
  | busy {e : Event ο} {t : Receiver} {d : Device ο} (he : e.receiver = some t)
      (ht : t.receiving s.device = false) (hd : Firmware.step s.device e = some d) :
      Moved s (some e) { s with device := d }
  | calls {e : Event ο} {t : Receiver} (he : e.receiver = some t)
      (ht : t.receiving s.device = true) (hplace : s.place t = none) :
      Moved s (some e) (s.put t (some t.call))
  | goes {e : Event ο} {t : Receiver} {r r' : Receive} (he : e.receiver = some t)
      (ht : t.receiving s.device = true) (hplace : s.place t = some r)
      (hr : r.step s.now (t.isEmpty s.device) = some (.inl r')) :
      Moved s (some e) (s.put t (some r'))
  | returns {e : Event ο} {t : Receiver} {r : Receive} {passed : Bool} {d : Device ο}
      (he : e.receiver = some t) (ht : t.receiving s.device = true)
      (hplace : s.place t = some r)
      (hr : r.step s.now (t.isEmpty s.device) = some (.inr passed))
      (hd : Firmware.step s.device e = some d) :
      Moved s (some e) (Timed.put { s with device := d } t none)

variable {s s' : Timed ο}

theorem Timed.step_cases {x : Option (Event ο)} (h : s.step x = some s') : s.Moved x s' := by
  cases x with
  | none =>
      obtain rfl := Option.some.inj h
      exact .tick
  | some e =>
      unfold Timed.step at h
      simp only at h
      split at h
      · rename_i he
        obtain ⟨d, hd, rfl⟩ := Option.map_eq_some_iff.mp h
        exact .other he hd
      · rename_i t he
        split at h
        · rename_i ht
          obtain ⟨d, hd, rfl⟩ := Option.map_eq_some_iff.mp h
          exact .busy he (by simpa using ht) hd
        · rename_i ht
          have hreceiving : t.receiving s.device = true := by simpa using ht
          split at h
          · rename_i hplace
            obtain rfl := Option.some.inj h
            exact .calls he hreceiving hplace
          · rename_i r hplace
            split at h
            · cases h
            · rename_i r' hr
              obtain rfl := Option.some.inj h
              exact .goes he hreceiving hplace hr
            · rename_i passed hr
              obtain ⟨s₁, hs₁, rfl⟩ := Option.map_eq_some_iff.mp h
              obtain ⟨d, hd, rfl⟩ := Option.map_eq_some_iff.mp hs₁
              exact .returns he hreceiving hplace hr hd

/-- **Every run with the tick is a run of the pipeline.** -/
theorem Timed.run_pipeline {ls : List (Option (Event ο))} (h : Run Timed.step s ls s') :
    Reachable Firmware.step s.device s'.device := by
  refine h.preserves (I := fun s' => Reachable Firmware.step s.device s'.device) ?_ (.refl _)
  intro s₁ x s₂ hreach hstep
  cases Timed.step_cases hstep with
  | tick | calls | goes => exact hreach
  | other _ hd | busy _ _ hd | returns _ _ _ _ hd => exact hreach.next hd

/-! ### What the others leave alone -/

/-- The receiver is where it was, and its queue has lost nothing. -/
structure Receiver.Frame (t : Receiver) (d d' : Device ο) : Prop where
  receiving : t.receiving d' = t.receiving d
  isEmpty : t.isEmpty d' = true → t.isEmpty d = true

theorem isEmpty_of_push {α : Type} {n : ℕ} {q q' : Fifo α n} {a : α} (hq : q.push a = some q')
    (h : q'.items.isEmpty = true) : q.items.isEmpty = true := by
  rw [(Fifo.push_eq_some_iff.mp hq).2] at h
  simp at h

theorem callbackStep_receivers {d d' : Device ο} (h : callbackStep d = some d') (t : Receiver) :
    t.Frame d d' := by
  cases callbackStep_cases h with
  | queued _ hq =>
      cases t with
      | dispatcher => exact ⟨rfl, isEmpty_of_push hq⟩
      | sender => exact ⟨rfl, id⟩
  | storePort | storeValid | badSize | goodSize | full => cases t <;> exact ⟨rfl, id⟩

theorem taskStep_receivers {d d' : Device ο} {p : Peripheral} {passed : Bool}
    (h : taskStep d p passed = some d') (t : Receiver) : t.Frame d d' := by
  cases taskStep_cases h with
  | respond _ hq =>
      cases t with
      | dispatcher => exact ⟨rfl, id⟩
      | sender => exact ⟨rfl, isEmpty_of_push hq⟩
  | receive | run | full => cases t <;> exact ⟨rfl, id⟩

/-- Nobody but the receiver takes from its queue. -/
theorem receiver_frame {d d' : Device ο} {e : Event ο} (h : Firmware.step d e = some d')
    {t : Receiver} (ht : e.receiver ≠ some t) : t.Frame d d' := by
  cases e with
  | udpReceive x => cases udpReceive_cases h <;> cases t <;> exact ⟨rfl, id⟩
  | callback => exact callbackStep_receivers h t
  | task p passed => exact taskStep_receivers h t
  | dispatcher =>
      cases t with
      | dispatcher => exact absurd rfl ht
      | sender => cases dispatcherStep_cases h <;> exact ⟨rfl, id⟩
  | sender allocates err =>
      cases t with
      | sender => exact absurd rfl ht
      | dispatcher =>
          have hframe := senderStep_senderFrame h
          refine ⟨congrArg Option.isNone hframe.dispatcher, fun hempty => ?_⟩
          have hitems := congrArg (fun q => q.items.isEmpty) hframe.commandQueue
          exact hitems.symm.trans hempty

/-- What a receiver sees of a step. -/
inductive Timed.Seen (s : Timed ο) (t : Receiver) : Option (Event ο) → Timed ο → Prop
  | tick : Seen s t none { s with now := s.now + 1 }
  /-- A move of another party. -/
  | other {e : Event ο} {s' : Timed ο} (hframe : t.Frame s.device s'.device)
      (hnow : s'.now = s.now) (hplace : s'.place t = s.place t) : Seen s t (some e) s'
  /-- A move of its own that is not at its receive. -/
  | busy {e : Event ο} {s' : Timed ο} (ht : t.receiving s.device = false)
      (hplace : s'.place t = s.place t) : Seen s t (some e) s'
  | calls {e : Event ο} (ht : t.receiving s.device = true) :
      Seen s t (some e) (s.put t (some t.call))
  | goes {e : Event ο} {r r' : Receive} (ht : t.receiving s.device = true)
      (hplace : s.place t = some r) (hr : r.step s.now (t.isEmpty s.device) = some (.inl r')) :
      Seen s t (some e) (s.put t (some r'))
  | returns {e : Event ο} {s' : Timed ο} (hplace : s'.place t = none) : Seen s t (some e) s'

theorem Timed.Moved.seen {x : Option (Event ο)} (h : s.Moved x s') (t : Receiver) :
    s.Seen t x s' := by
  cases h with
  | tick => exact .tick
  | other he hd => exact .other (receiver_frame hd (by simp [he])) rfl rfl
  | @busy e u d he hu hd =>
      by_cases htu : t = u
      · subst htu
        exact .busy hu rfl
      · exact .other (receiver_frame hd (by simpa [he] using Ne.symm htu)) rfl rfl
  | @calls e u he hu hplace =>
      by_cases htu : t = u
      · subst htu
        exact .calls hu
      · exact .other ⟨rfl, id⟩ rfl (s.put_of_ne htu _)
  | @goes e u r r' he hu hplace hr =>
      by_cases htu : t = u
      · subst htu
        exact .goes hu hplace hr
      · exact .other ⟨rfl, id⟩ rfl (s.put_of_ne htu _)
  | @returns e u r passed d he hu hplace hr hd =>
      by_cases htu : t = u
      · subst htu
        exact .returns (Timed.put_self _ _ _)
      · have hframe := receiver_frame hd (t := t) (by simpa [he] using Ne.symm htu)
        exact .other hframe rfl (Timed.put_of_ne _ htu _)

/-! ### The wait of a receiver -/

/-- 71 minutes, 34 seconds and 966 milliseconds. -/
def receiveTicks : UInt32 := 4294966

theorem receiveTicks_pos : 0 < receiveTicks.toNat := by decide

theorem receiveTicks_ne_max : receiveTicks ≠ portMaxDelay := by decide

/-- The ticks of both calls. -/
theorem call_eq (t : Receiver) : t.call = .enter receiveTicks := by
  cases t <;> rfl

/-- The receiver has not found its queue empty for 4294966 ticks. -/
def Timed.InTime (s : Timed ο) (t : Receiver) : Prop :=
  t.isEmpty s.device = true → ∀ r, s.place t = some r → r.InTime receiveTicks s.now

/-- A receiver that is in its receive waits, while its queue is empty. -/
def Timed.Sound (s : Timed ο) (t : Receiver) : Prop :=
  ∀ r, s.place t = some r → t.receiving s.device = true ∧
    (t.isEmpty s.device = true → r.Waits receiveTicks s.now)

theorem Timed.sound_init (udpPcb : Bool) (t : Receiver) :
    (Timed.init udpPcb : Timed ο).Sound t := by
  intro r hr
  cases hr

/-- A move of another party keeps what a receiver waits for. -/
theorem Timed.Sound.frame {t : Receiver} (h : s.Sound t) (hframe : t.Frame s.device s'.device)
    (hnow : s'.now = s.now) (hplace : s'.place t = s.place t) : s'.Sound t := by
  intro r hr
  obtain ⟨hreceiving, hwaits⟩ := h r (hplace ▸ hr)
  refine ⟨hframe.receiving.trans hreceiving, fun hempty => ?_⟩
  rw [hnow]
  exact hwaits (hframe.isEmpty hempty)

/-- A receiver that is not in its receive. -/
theorem Timed.sound_of_none {t : Receiver} (h : s.place t = none) : s.Sound t := by
  intro r hr
  rw [h] at hr
  cases hr

theorem Timed.sound_of_some {t : Receiver} {r : Receive} (h : s.place t = some r)
    (hreceiving : t.receiving s.device = true)
    (hwaits : t.isEmpty s.device = true → r.Waits receiveTicks s.now) : s.Sound t := by
  intro r' hr'
  obtain rfl := Option.some.inj (h.symm.trans hr')
  exact ⟨hreceiving, hwaits⟩

/-- A receiver that is busy is not in its receive. -/
theorem Timed.Sound.place_of_busy {t : Receiver} (h : s.Sound t)
    (ht : t.receiving s.device = false) : s.place t = none := by
  cases hplace : s.place t with
  | none => rfl
  | some r =>
      rw [(h r hplace).1] at ht
      cases ht

theorem Timed.Sound.step {t : Receiver} {x : Option (Event ο)} (h : s.Sound t) (hin : s.InTime t)
    (hs : s.step x = some s') : s'.Sound t := by
  cases (Timed.step_cases hs).seen t with
  | tick =>
      intro r hr
      obtain ⟨hreceiving, hwaits⟩ := h r hr
      exact ⟨hreceiving, fun hempty => (hwaits hempty).tick (hin hempty r hr)⟩
  | other hframe hnow hplace => exact h.frame hframe hnow hplace
  | busy ht hplace => exact Timed.sound_of_none (hplace.trans (h.place_of_busy ht))
  | calls ht =>
      refine Timed.sound_of_some (s.put_self _ _) ht fun _ => ?_
      rw [call_eq]
      exact .enter
  | goes ht hplace hr =>
      refine Timed.sound_of_some (s.put_self _ _) ht fun hempty => ?_
      rw [s.put_device] at hempty
      rw [hempty] at hr
      obtain ⟨_, hx, hwaits, _⟩ | ⟨hx, _⟩ :=
        ((h _ hplace).2 hempty).step receiveTicks_pos receiveTicks_ne_max hr
      · obtain rfl := Sum.inl.inj hx
        exact hwaits
      · cases hx
  | returns hplace => exact Timed.sound_of_none hplace

/-! ### Failed receives -/

/-- A receive in time does not fail. -/
theorem Timed.Sound.not_fails {t : Receiver} {e : Event ο} (h : s.Sound t) (hin : s.InTime t) :
    ¬ s.Fails t e := by
  rintro ⟨_, _, r, hplace, hr⟩
  cases hempty : t.isEmpty s.device with
  | false =>
      rw [hempty] at hr
      exact r.step_item s.now hr
  | true =>
      rw [hempty] at hr
      obtain ⟨_, hx, _⟩ | ⟨_, hnot⟩ :=
        ((h r hplace).2 hempty).step receiveTicks_pos receiveTicks_ne_max hr
      · cases hx
      · exact hnot (hin hempty r hplace)

/-- Without a tick no time runs out. -/
theorem Timed.InTime.move {t : Receiver} {e : Event ο} (hin : s.InTime t) (h : s.Sound t)
    (hs : s.step (some e) = some s') : s'.InTime t := by
  intro hempty r hr
  cases (Timed.step_cases hs).seen t with
  | other hframe hnow hplace =>
      rw [hnow]
      exact hin (hframe.isEmpty hempty) r (hplace ▸ hr)
  | busy ht hplace =>
      rw [hplace, h.place_of_busy ht] at hr
      cases hr
  | calls =>
      rw [s.put_self, call_eq] at hr
      obtain rfl := Option.some.inj hr
      rintro w ⟨⟩
  | goes _ hplace hstep =>
      rw [s.put_self] at hr
      obtain rfl := Option.some.inj hr
      rw [s.put_device] at hempty
      rw [hempty] at hstep
      obtain ⟨_, hx, _, hin'⟩ | ⟨hx, _⟩ :=
        ((h _ hplace).2 hempty).step receiveTicks_pos receiveTicks_ne_max hstep
      · obtain rfl := Sum.inl.inj hx
        exact hin' (hin hempty _ hplace)
      · cases hx
  | returns hplace =>
      rw [hplace] at hr
      cases hr

/-- What a failed receive does: a line, and the task calls again. -/
theorem Timed.Fails.prints {t : Receiver} {e : Event ο} (h : s.Fails t e)
    (hs : s.step (some e) = some s') :
    s'.device = s.device.print t.failLine ∧ s'.place t = none := by
  obtain ⟨he, ht, r, hplace, hr⟩ := h
  have hempty : t.isEmpty s.device = true := by
    cases hempty : t.isEmpty s.device with
    | true => rfl
    | false =>
        rw [hempty] at hr
        exact absurd hr (r.step_item s.now)
  have hstep : s.step (some e) =
      ((Firmware.step s.device e).map fun d => { s with device := d }).map
        fun s => s.put t none := by
    unfold Timed.step
    simp only [he, ht, hplace, hr, Bool.not_true, Bool.false_eq_true, if_false]
  rw [hstep] at hs
  obtain ⟨s₁, hs₁, rfl⟩ := Option.map_eq_some_iff.mp hs
  obtain ⟨d, hd, rfl⟩ := Option.map_eq_some_iff.mp hs₁
  refine ⟨?_, Timed.put_self _ _ _⟩
  show d = s.device.print t.failLine
  cases e with
  | dispatcher =>
      obtain rfl := Option.some.inj he
      cases dispatcherStep_cases hd with
      | timeout => rfl
      | receive _ hq =>
          have hitems : s.device.commandQueue.items = [] := List.isEmpty_iff.mp hempty
          rw [Fifo.pop_eq_some_iff.mp hq] at hitems
          cases hitems
      | unknown hbusy | forward hbusy | full hbusy =>
          have hidle : s.device.dispatcher = none := Option.isNone_iff_eq_none.mp ht
          rw [hidle] at hbusy
          cases hbusy
  | sender allocates err =>
      obtain rfl := Option.some.inj he
      cases senderStep_cases hd with
      | timeout => rfl
      | receive _ hq =>
          have hitems : s.device.responseQueue.items = [] := List.isEmpty_iff.mp hempty
          rw [Fifo.pop_eq_some_iff.mp hq] at hitems
          cases hitems
      | notReady hbusy | hand hbusy | allocated hbusy | notAllocated hbusy | readAddr hbusy
      | readPort hbusy | notSent hbusy | sent hbusy =>
          have hidle : Receiver.receiving .sender s.device = true := ht
          unfold Receiver.receiving at hidle
          simp only [hbusy] at hidle
          cases hidle
  | _ => cases he

/-- Moves of its own lead the receiver to a failed receive. -/
def Timed.FailsAlone (s : Timed ο) (t : Receiver) (e : Event ο) : Prop :=
  ∃ k s', Run Timed.step s (List.replicate k (some e)) s' ∧ s'.Fails t e

/-- The receiver goes its way through `xQueueReceive`. -/
theorem Timed.failsAlone_of_expires {t : Receiver} {e : Event ο} {r : Receive} {k : ℕ}
    (he : e.receiver = some t) (ht : t.receiving s.device = true)
    (hempty : t.isEmpty s.device = true) (hplace : s.place t = some r)
    (hr : r.Expires s.now k) : s.FailsAlone t e := by
  generalize hnow : s.now = now at hr
  induction hr generalizing s with
  | leaves h => exact ⟨0, s, .refl s, he, ht, _, hplace, by rw [hempty, hnow, h]⟩
  | @goes r r' k h _ ih =>
      have hstep : s.step (some e) = some (s.put t (some r')) := by
        unfold Timed.step
        simp only [he, ht, hplace, hempty, hnow, h, Bool.not_true, Bool.false_eq_true, if_false]
      obtain ⟨k, s', hrun, hfails⟩ := ih (s := s.put t (some r')) ht hempty (s.put_self _ _) hnow
      exact ⟨k + 1, s', .step hstep hrun, hfails⟩

/-- Moves of the receiver keep its time. -/
theorem Timed.not_failsAlone {t : Receiver} {e : Event ο} (h : s.Sound t) (hin : s.InTime t) :
    ¬ s.FailsAlone t e := by
  rintro ⟨k, s', hrun, hfails⟩
  induction k generalizing s with
  | zero =>
      cases hrun
      exact h.not_fails hin hfails
  | succ k ih =>
      rw [List.replicate_succ] at hrun
      cases hrun with
      | step hs hrun => exact ih (h.step hin hs) (hin.move h hs) hrun

/-- **A receiver goes on to a failed receive if and only if its time is over.** -/
theorem Timed.Sound.failsAlone_iff {t : Receiver} {e : Event ο} (h : s.Sound t)
    (he : e.receiver = some t) : s.FailsAlone t e ↔ ¬ s.InTime t := by
  constructor
  · exact fun hfails hin => not_failsAlone h hin hfails
  · intro hnot
    unfold Timed.InTime at hnot
    push Not at hnot
    obtain ⟨hempty, r, hplace, hlate⟩ := hnot
    obtain ⟨ht, hwaits⟩ := h r hplace
    obtain ⟨k, hk⟩ :=
      ((hwaits hempty).expires_iff receiveTicks_pos receiveTicks_ne_max).mpr hlate
    exact failsAlone_of_expires he ht hempty hplace hk

/-! ### Runs -/

/-- In a run whose moves are all made in time, the receiver's wait is sound. -/
theorem Timed.run_sound {t : Receiver} {ls : List (Option (Event ο))} (h : Run Timed.step s ls s')
    (hm : Meets Timed.step (fun s _ => s.InTime t) s ls) (hs : s.Sound t) : s'.Sound t := by
  refine h.invariant (I := fun s => s.Sound t) ?_ hm hs
  exact fun _ _ _ hsound hin hstep => hsound.step hin hstep

/-- No move of such a run is a failed receive. -/
theorem Timed.run_not_fails {t : Receiver} {ls : List (Option (Event ο))}
    (h : Run Timed.step s ls s') (hm : Meets Timed.step (fun s _ => s.InTime t) s ls)
    (hs : s.Sound t) : Meets Timed.step (fun s x => ∀ e, x = some e → ¬ s.Fails t e) s ls := by
  refine h.meets (I := fun s => s.Sound t) ?_ ?_ hm hs
  · exact fun _ _ _ hsound hin hstep => hsound.step hin hstep
  · exact fun _ _ _ hsound hin _ _ _ => hsound.not_fails hin

/-- **The timeouts of the receivers.**  The calls pass the timeout on if and only if it is
4294967 ms at most, so far they are monotone, and they never wait for ever.  A run in which the
receiver never finds its queue empty for 4294966 ticks has no failed receive; and where it has, at
the end of the run, the receiver goes on to one. -/
theorem receive_timeouts :
    (∀ timeoutMs,
      (appCommandQueueReceive timeoutMs = xQueueReceive timeoutMs ↔ timeoutMs ≤ 4294967) ∧
      (appResponseQueueReceive timeoutMs = xQueueReceive timeoutMs ↔ timeoutMs ≤ 4294967)) ∧
    (∀ bound, (∀ s t, s ≤ t → t ≤ bound → pdMsToTicks s ≤ pdMsToTicks t) ↔ bound ≤ 4294967) ∧
    (∀ timeoutMs, appCommandQueueReceive timeoutMs ≠ xQueueReceive portMaxDelay ∧
      appResponseQueueReceive timeoutMs ≠ xQueueReceive portMaxDelay) ∧
    ∀ (t : Receiver) (udpPcb : Bool) (ls : List (Option (Event ο))) (s : Timed ο),
      Run Timed.step (.init udpPcb) ls s →
      Meets Timed.step (fun s _ => s.InTime t) (.init udpPcb) ls →
      Meets Timed.step (fun s x => ∀ e, x = some e → ¬ s.Fails t e) (.init udpPcb) ls ∧
      ∀ e, e.receiver = some t → (s.FailsAlone t e ↔ ¬ s.InTime t) := by
  have hcall : ∀ {a b : UInt32}, xQueueReceive a = xQueueReceive b ↔ a = b := by
    intro a b
    exact ⟨fun h => Receive.enter.inj h, fun h => congrArg _ h⟩
  refine ⟨fun timeoutMs => ⟨?_, ?_⟩, fun bound => pdMsToTicks_mono_iff,
    fun timeoutMs => ⟨?_, ?_⟩, ?_⟩
  · exact hcall.trans pdMsToTicks_eq_iff
  · exact hcall.trans pdMsToTicks_eq_iff
  · exact fun h => pdMsToTicks_ne_max timeoutMs (hcall.mp h)
  · exact fun h => pdMsToTicks_ne_max timeoutMs (hcall.mp h)
  · intro t udpPcb ls s hrun hm
    have hinit := Timed.sound_init (ο := ο) udpPcb t
    refine ⟨Timed.run_not_fails hrun hm hinit, fun e he => ?_⟩
    exact (Timed.run_sound hrun hm hinit).failsAlone_iff he

/-! ### An hour without commands -/

theorem run_ticks (s : Timed ο) (n : ℕ) :
    Run Timed.step s (List.replicate n none) { s with now := s.now + n } := by
  induction n generalizing s with
  | zero => exact .refl s
  | succ n ih =>
      rw [List.replicate_succ, Nat.add_comm n 1, ← Nat.add_assoc]
      exact .step rfl (ih { s with now := s.now + 1 })

/-- Ticks up to the last of the limit. -/
theorem meets_ticks {t : Receiver} {w : WaitTime} {r : Receive} (hplace : s.place t = some r)
    (hr : r.waiting = some w) {n : ℕ} (hn : s.now + n ≤ w.since + receiveTicks.toNat) :
    Meets Timed.step (fun s _ => s.InTime t) s (List.replicate n none) := by
  induction n generalizing s with
  | zero => trivial
  | succ n ih =>
      have htick : s.step none = some { s with now := s.now + 1 } := rfl
      refine (meets_cons htick).mpr ⟨fun _ r' hr' v hv => ?_, ?_⟩
      · obtain rfl := Option.some.inj (hplace.symm.trans hr')
        obtain rfl := Option.some.inj (hr.symm.trans hv)
        omega
      · exact ih hplace (by show s.now + 1 + n ≤ _; omega)

/-- Moves without a tick. -/
theorem meets_moves {t : Receiver} {ls : List (Option (Event ο))} (hls : none ∉ ls)
    (hs : s.Sound t) (hin : s.InTime t) : Meets Timed.step (fun s _ => s.InTime t) s ls := by
  induction ls generalizing s with
  | nil => trivial
  | cons x ls ih =>
      refine ⟨hin, fun s₁ hs₁ => ih (fun h => hls (List.mem_cons_of_mem _ h)) (hs.step hin hs₁) ?_⟩
      cases x with
      | none => exact absurd List.mem_cons_self hls
      | some e => exact hin.move hs hs₁

/-- The dispatcher blocks on its empty queue, and then nothing comes for 4294966 ticks. -/
def blockMoves : List (Option (Event Unit)) := List.replicate 3 (some .dispatcher)

def quietMoves : List (Option (Event Unit)) := blockMoves ++ List.replicate 4294966 none

def quietWait : WaitTime := ⟨vTaskInternalSetTimeOutState 0, receiveTicks, 0⟩

/-- Where the quiet moves lead. -/
structure QuietFor (now : ℕ) (s : Timed Unit) : Prop where
  now : s.now = now
  device : s.device = .init true
  place : s.place .dispatcher = some (.blocked quietWait (some 4294966))

theorem exists_blocked : ∃ s, Run Timed.step (.init true) blockMoves s ∧ QuietFor 0 s :=
  ⟨_, .of_exec rfl, rfl, rfl, rfl⟩

theorem exists_quiet : ∃ s, Run Timed.step (.init true) quietMoves s ∧
    Meets Timed.step (fun s _ => s.InTime .dispatcher) (.init true) quietMoves ∧
      QuietFor 4294966 s := by
  obtain ⟨s, hrun, hnow, hdevice, hplace⟩ := exists_blocked
  have hticks : s.now + 4294966 ≤ quietWait.since + receiveTicks.toNat := by
    rw [hnow]
    decide
  have hblock : Meets Timed.step (fun s _ => s.InTime .dispatcher) (.init true) blockMoves := by
    apply meets_moves (by simp [blockMoves]) (Timed.sound_init true _)
    intro _ r hr
    cases hr
  have hnow' : s.now + 4294966 = 4294966 := by rw [hnow]
  exact ⟨_, hrun.trans (run_ticks s _), hrun.meets_append hblock (meets_ticks hplace rfl hticks),
    hnow', hdevice, hplace⟩

theorem QuietFor.not_inTime {s : Timed Unit} (h : QuietFor 4294966 s) : ¬ s.InTime .dispatcher := by
  intro hin
  have hempty : Receiver.isEmpty .dispatcher s.device = true := by
    rw [h.device]
    rfl
  have hlate := hin hempty _ h.place quietWait rfl
  rw [h.now] at hlate
  exact absurd hlate (by decide)

/-- The moves in which nothing comes lead to a failed receive, and only their last state does. -/
theorem receive_timeouts_quiet :
    ∃ s : Timed Unit, Run Timed.step (.init true) quietMoves s ∧
      Meets Timed.step (fun s x => ∀ e, x = some e → ¬ s.Fails .dispatcher e) (.init true)
        quietMoves ∧ s.FailsAlone .dispatcher .dispatcher := by
  obtain ⟨s, hrun, hm, hquiet⟩ := exists_quiet
  obtain ⟨hnever, hfails⟩ :=
    (receive_timeouts (ο := Unit)).2.2.2 .dispatcher true quietMoves s hrun hm
  exact ⟨s, hrun, hnever, (hfails .dispatcher rfl).mpr hquiet.not_inTime⟩

/-- **For ever is 4294966 ticks**: the wait-forever timeout is neither passed on nor becomes
`portMAX_DELAY`, a longer timeout can have fewer ticks, and a dispatcher that is sent nothing from
the start comes to a failed receive. -/
theorem wait_forever_fails :
    appCommandQueueReceive appDispatcherWaitForeverMs = xQueueReceive 4294966 ∧
      appResponseQueueReceive portMaxDelay = xQueueReceive 4294966 ∧
      pdMsToTicks 4294968 < pdMsToTicks 4294967 ∧
      ∃ k s, Run Timed.step (.init true : Timed Unit)
          (quietMoves ++ List.replicate k (some .dispatcher)) s ∧
        s.Fails .dispatcher .dispatcher := by
  obtain ⟨s, hrun, hm, hquiet⟩ := exists_quiet
  have hsound := Timed.run_sound hrun hm (Timed.sound_init true _)
  obtain ⟨k, s', hrun', hfails⟩ :=
    (hsound.failsAlone_iff (e := .dispatcher) rfl).mpr hquiet.not_inTime
  exact ⟨rfl, rfl, by decide, k, s', hrun.trans hrun', hfails⟩

end PeripheralTester.Firmware
