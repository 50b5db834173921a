import PeripheralTester.Firmware.KernelLists
import PeripheralTester.Lib.Run

/-! # Sleeping tasks

The part of `tasks.c` that puts tasks to sleep for a number of ticks and wakes them.  The tick wraps
after 49 days, and so there are two delayed lists: one for the tasks that wake before the wrap and
one for those that wake after it, and the wrap exchanges them.  Each is ordered by the wrapped wake
time (`vListInsert`), and `xNextTaskUnblockTime` says when it is worth looking into the first.
While the scheduler is suspended the ticks are only counted, and tasks that an event has woken are
held back.

`Sleepers` is what this is for: ticks that do not wrap, and for each sleeping task the tick at which
it wakes.  `delayed_refines` says that the kernel wakes the same tasks at the same ticks, in the
same order, while the kernel's two counters of the suspension do not wrap (`Sleepers.Countable`). -/

namespace PeripheralTester.Firmware

open Lib

variable {κ : Type}

/-! ### The two lists -/

/-- The variables of `tasks.c`; a list of the kernel is the sequence of its tasks. -/
structure DelayState (κ : Type) where
  xTickCount : UInt32
  xNumOfOverflows : UInt32
  xNextTaskUnblockTime : UInt32
  uxSchedulerSuspended : UInt32
  uxPendedTicks : UInt32
  pxDelayedTaskList : List κ
  pxOverflowDelayedTaskList : List κ
  xSuspendedTaskList : List κ
  xPendingReadyList : List κ
  /-- `pxReadyTasksLists`, in the order in which the tasks have joined them. -/
  ready : List κ
  /-- The value of a task's `xStateListItem`. -/
  xItemValue : κ → UInt32
  /-- A task's `xEventListItem` is in the event list of a queue. -/
  waits : κ → Bool

/-- What can happen: a tick; the running task sleeps for a number of ticks, or joins an event list
for that long; the event of a task that is in an event list; `vTaskSuspendAll` and
`xTaskResumeAll`. -/
inductive DelayMove (κ : Type) where
  | tick
  | delay (k : κ) (xTicksToWait : UInt32)
  | block (k : κ) (xTicksToWait : UInt32)
  | event (k : κ)
  | suspend
  | resume
deriving DecidableEq, Repr

namespace DelayState

def prvResetNextTaskUnblockTime (s : DelayState κ) : DelayState κ :=
  { s with
    xNextTaskUnblockTime :=
      match s.pxDelayedTaskList with
      | [] => portMaxDelay
      | k :: _ => s.xItemValue k }

/-- `taskSWITCH_DELAYED_LISTS`, which asserts that nobody is left. -/
def taskSwitchDelayedLists (s : DelayState κ) : Option (DelayState κ) :=
  if s.pxDelayedTaskList = [] then
    some (prvResetNextTaskUnblockTime { s with
      pxDelayedTaskList := s.pxOverflowDelayedTaskList
      pxOverflowDelayedTaskList := s.pxDelayedTaskList
      xNumOfOverflows := s.xNumOfOverflows + 1 })
  else none

variable [DecidableEq κ]

/-- The loop of `xTaskIncrementTick` over the delayed list. -/
def unblockDelayed (s : DelayState κ) : List κ → DelayState κ
  | [] => { s with pxDelayedTaskList := [], xNextTaskUnblockTime := portMaxDelay }
  | k :: w =>
      if s.xTickCount < s.xItemValue k then
        { s with pxDelayedTaskList := k :: w, xNextTaskUnblockTime := s.xItemValue k }
      else
        unblockDelayed { s with
          waits := Function.update s.waits k false
          ready := s.ready ++ [k] } w

/-- `none` is the failed assertion. -/
def xTaskIncrementTick (s : DelayState κ) : Option (DelayState κ) :=
  if s.uxSchedulerSuspended = 0 then
    let s₁ := { s with xTickCount := s.xTickCount + 1 }
    (if s₁.xTickCount = 0 then s₁.taskSwitchDelayedLists else some s₁).map fun s₂ =>
      if s₂.xTickCount ≥ s₂.xNextTaskUnblockTime then s₂.unblockDelayed s₂.pxDelayedTaskList
      else s₂
  else some { s with uxPendedTicks := s.uxPendedTicks + 1 }

/-- `uxListRemove` of the `xStateListItem`, from the list it is in. -/
def removeStateItem (s : DelayState κ) (k : κ) : DelayState κ :=
  { s with
    pxDelayedTaskList := s.pxDelayedTaskList.filter (· ≠ k)
    pxOverflowDelayedTaskList := s.pxOverflowDelayedTaskList.filter (· ≠ k)
    xSuspendedTaskList := s.xSuspendedTaskList.filter (· ≠ k)
    ready := s.ready.filter (· ≠ k) }

/-- `vListInsert` by the values of the `xStateListItem`s. -/
def insertByValue (s : DelayState κ) (k : κ) (w : List κ) : List κ :=
  insertBehind (fun k => (s.xItemValue k).toNat) k w

/-- The wake time decides on one of the two delayed lists. -/
def insertDelayed (s : DelayState κ) (k : κ) (xTimeToWake : UInt32) : DelayState κ :=
  let s := { s with xItemValue := Function.update s.xItemValue k xTimeToWake }
  if xTimeToWake < s.xTickCount then
    { s with pxOverflowDelayedTaskList := s.insertByValue k s.pxOverflowDelayedTaskList }
  else
    { s with
      pxDelayedTaskList := s.insertByValue k s.pxDelayedTaskList
      xNextTaskUnblockTime :=
        if xTimeToWake < s.xNextTaskUnblockTime then xTimeToWake else s.xNextTaskUnblockTime }

def prvAddCurrentTaskToDelayedList (s : DelayState κ) (k : κ) (xTicksToWait : UInt32)
    (xCanBlockIndefinitely : Bool) : DelayState κ :=
  let s := s.removeStateItem k
  if xTicksToWait = portMaxDelay ∧ xCanBlockIndefinitely = true then
    { s with xSuspendedTaskList := s.xSuspendedTaskList ++ [k] }
  else s.insertDelayed k (s.xTickCount + xTicksToWait)

/-- `vTaskPlaceOnEventList`. -/
def vTaskPlaceOnEventList (s : DelayState κ) (k : κ) (xTicksToWait : UInt32) : DelayState κ :=
  prvAddCurrentTaskToDelayedList { s with waits := Function.update s.waits k true } k xTicksToWait
    true

def xTaskRemoveFromEventList (s : DelayState κ) (k : κ) : DelayState κ :=
  let s := { s with waits := Function.update s.waits k false }
  if s.uxSchedulerSuspended = 0 then
    let s := s.removeStateItem k
    { s with ready := s.ready ++ [k] }
  else { s with xPendingReadyList := s.xPendingReadyList ++ [k] }

/-- The loop of `xTaskResumeAll` over `xPendingReadyList`. -/
def readyPending (s : DelayState κ) : List κ → DelayState κ
  | [] => { s with xPendingReadyList := [] }
  | k :: w =>
      let s := s.removeStateItem k
      readyPending { s with ready := s.ready ++ [k] } w

/-- Ticks in a row. -/
def incrementTicks : ℕ → DelayState κ → Option (DelayState κ)
  | 0, s => some s
  | n + 1, s => s.xTaskIncrementTick.bind (incrementTicks n)

/-- What the last `xTaskResumeAll` does. -/
def catchUp (s : DelayState κ) : Option (DelayState κ) :=
  let s₁ := s.readyPending s.xPendingReadyList
  let s₂ := if s.xPendingReadyList = [] then s₁ else s₁.prvResetNextTaskUnblockTime
  (incrementTicks s₂.uxPendedTicks.toNat s₂).map fun s₃ => { s₃ with uxPendedTicks := 0 }

/-- `xTaskResumeAll`, which asserts that the scheduler is suspended. -/
def xTaskResumeAll (s : DelayState κ) : Option (DelayState κ) :=
  if s.uxSchedulerSuspended = 0 then none
  else
    let s := { s with uxSchedulerSuspended := s.uxSchedulerSuspended - 1 }
    if s.uxSchedulerSuspended = 0 then s.catchUp else some s

def step (s : DelayState κ) : DelayMove κ → Option (DelayState κ)
  | .tick => s.xTaskIncrementTick
  | .delay k n => some (s.prvAddCurrentTaskToDelayedList k n false)
  | .block k n => some (s.vTaskPlaceOnEventList k n)
  | .event k => some (s.xTaskRemoveFromEventList k)
  | .suspend => some { s with uxSchedulerSuspended := s.uxSchedulerSuspended + 1 }
  | .resume => s.xTaskResumeAll

/-- When the scheduler starts. -/
def init (ready : List κ) : DelayState κ where
  xTickCount := 0
  xNumOfOverflows := 0
  xNextTaskUnblockTime := portMaxDelay
  uxSchedulerSuspended := 0
  uxPendedTicks := 0
  pxDelayedTaskList := []
  pxOverflowDelayedTaskList := []
  xSuspendedTaskList := []
  xPendingReadyList := []
  ready := ready
  xItemValue := fun _ => 0
  waits := fun _ => false

end DelayState

/-! ### What they are for -/

/-- The ticks since the start, the tasks that sleep, in the order in which they went to sleep, and
the tick at which each wakes. -/
structure Sleepers (κ : Type) where
  now : ℕ
  asleep : List κ
  wakeAt : κ → ℕ
  /-- Those that only an event wakes. -/
  forever : List κ
  suspended : ℕ
  /-- Ticks and woken tasks that are held back. -/
  pendedTicks : ℕ
  pendingReady : List κ
  ready : List κ
  waits : κ → Bool

namespace Sleepers

variable [DecidableEq κ]

def due (a : Sleepers κ) : List κ := a.asleep.filter fun k => a.wakeAt k ≤ a.now

/-- Those whose time has come are ready. -/
def wakeDue (a : Sleepers κ) : Sleepers κ :=
  { a with
    asleep := a.asleep.filter fun k => a.now < a.wakeAt k
    ready := a.ready ++ a.due
    waits := fun k => if k ∈ a.due then false else a.waits k }

def tick (a : Sleepers κ) : Sleepers κ :=
  if a.suspended = 0 then wakeDue { a with now := a.now + 1 }
  else { a with pendedTicks := a.pendedTicks + 1 }

def leave (a : Sleepers κ) (k : κ) : Sleepers κ :=
  { a with
    asleep := a.asleep.filter (· ≠ k)
    forever := a.forever.filter (· ≠ k)
    ready := a.ready.filter (· ≠ k) }

/-- A task sleeps for `n` ticks. -/
def sleep (a : Sleepers κ) (k : κ) (n : ℕ) : Sleepers κ :=
  let a := a.leave k
  { a with asleep := a.asleep ++ [k], wakeAt := Function.update a.wakeAt k (a.now + n) }

/-- A task becomes ready before its time. -/
def wake (a : Sleepers κ) (k : κ) : Sleepers κ :=
  let a := a.leave k
  { a with ready := a.ready ++ [k] }

/-- What has been held back. -/
def catchUp (a : Sleepers κ) : Sleepers κ :=
  let a := { a.pendingReady.foldl wake a with pendingReady := [] }
  { tick^[a.pendedTicks] a with pendedTicks := 0 }

/-- `none` is a sleep of no ticks, or a resume without a suspend. -/
def step (a : Sleepers κ) : DelayMove κ → Option (Sleepers κ)
  | .tick => some a.tick
  | .delay k n => if n = 0 then none else some (a.sleep k n.toNat)
  | .block k n =>
      if n = 0 then none
      else
        let a := { a with waits := Function.update a.waits k true }
        if n = portMaxDelay then
          let a := a.leave k
          some { a with forever := a.forever ++ [k] }
        else some (a.sleep k n.toNat)
  | .event k =>
      let a := { a with waits := Function.update a.waits k false }
      if a.suspended = 0 then some (a.wake k)
      else some { a with pendingReady := a.pendingReady ++ [k] }
  | .suspend => some { a with suspended := a.suspended + 1 }
  | .resume =>
      if a.suspended = 0 then none
      else
        let a := { a with suspended := a.suspended - 1 }
        some (if a.suspended = 0 then a.catchUp else a)

/-- The kernel counts the held back ticks, and the suspensions, in 32 bits. -/
def Countable (a : Sleepers κ) : DelayMove κ → Prop
  | .tick => a.suspended ≠ 0 → a.pendedTicks + 1 < 2 ^ 32
  | .suspend => a.suspended + 1 < 2 ^ 32
  | _ => True

instance (a : Sleepers κ) (mv : DelayMove κ) : Decidable (a.Countable mv) := by
  cases mv <;> unfold Countable <;> infer_instance

def init (ready : List κ) : Sleepers κ where
  now := 0
  asleep := []
  wakeAt := fun _ => 0
  forever := []
  suspended := 0
  pendedTicks := 0
  pendingReady := []
  ready := ready
  waits := fun _ => false

end Sleepers

/-! ### The relation -/

/-- The lists of the kernel hold the sleepers. -/
structure HoldsSleepers [DecidableEq κ] (s : DelayState κ) (a : Sleepers κ) : Prop where
  tickCount : s.xTickCount = UInt32.ofNat a.now
  overflows : s.xNumOfOverflows = UInt32.ofNat (a.now / 2 ^ 32)
  /-- Those who wake at the same tick wake in the order in which they went to sleep. -/
  asleep : ∀ t, (s.pxDelayedTaskList ++ s.pxOverflowDelayedTaskList).filter (a.wakeAt · = t) =
    a.asleep.filter (a.wakeAt · = t)
  soon : ∀ k ∈ s.pxDelayedTaskList, a.wakeAt k / 2 ^ 32 = a.now / 2 ^ 32
  later : ∀ k ∈ s.pxOverflowDelayedTaskList, a.wakeAt k / 2 ^ 32 = a.now / 2 ^ 32 + 1
  value : ∀ k ∈ a.asleep, s.xItemValue k = UInt32.ofNat (a.wakeAt k)
  soonSorted : s.pxDelayedTaskList.Pairwise fun i k => a.wakeAt i ≤ a.wakeAt k
  laterSorted : s.pxOverflowDelayedTaskList.Pairwise fun i k => a.wakeAt i ≤ a.wakeAt k
  forever : s.xSuspendedTaskList = a.forever
  suspended : s.uxSchedulerSuspended.toNat = a.suspended
  pendedTicks : s.uxPendedTicks.toNat = a.pendedTicks
  pendingReady : s.xPendingReadyList = a.pendingReady
  ready : s.ready = a.ready
  waits : s.waits = a.waits

/-- And the kernel looks into them in time. -/
structure Refines [DecidableEq κ] (s : DelayState κ) (a : Sleepers κ) : Prop
    extends HoldsSleepers s a where
  /-- It may be too early to look, never too late. -/
  next : ∀ k ∈ s.pxDelayedTaskList, s.xNextTaskUnblockTime ≤ s.xItemValue k

/-- Nobody sleeps past its time. -/
def Sleepers.Future (a : Sleepers κ) : Prop := ∀ k ∈ a.asleep, a.now < a.wakeAt k

/-! ### Ticks that wrap -/

section Epochs

variable {m n : ℕ}

theorem toNat_ofNat_lt_iff (h : m / 2 ^ 32 = n / 2 ^ 32) :
    (UInt32.ofNat m).toNat < (UInt32.ofNat n).toNat ↔ m < n := by
  rw [UInt32.toNat_ofNat', UInt32.toNat_ofNat']
  omega

theorem ofNat_le_iff (h : m / 2 ^ 32 = n / 2 ^ 32) :
    UInt32.ofNat m ≤ UInt32.ofNat n ↔ m ≤ n := by
  rw [UInt32.le_iff_toNat_le, UInt32.toNat_ofNat', UInt32.toNat_ofNat']
  omega

theorem ofNat_eq_zero_iff : UInt32.ofNat m = 0 ↔ m % 2 ^ 32 = 0 := by
  rw [← UInt32.toNat_inj, UInt32.toNat_ofNat']
  rfl

/-- A wake time that has wrapped. -/
theorem ofNat_add_lt_iff (hn : n < 2 ^ 32) :
    UInt32.ofNat (m + n) < UInt32.ofNat m ↔ (m + n) / 2 ^ 32 = m / 2 ^ 32 + 1 := by
  rw [UInt32.lt_iff_toNat_lt, UInt32.toNat_ofNat', UInt32.toNat_ofNat']
  omega

theorem toNat_ne_zero {x : UInt32} (hx : x ≠ 0) : x.toNat ≠ 0 :=
  fun hzero => hx (UInt32.toNat_inj.mp hzero)

/-- A counter that does not wrap. -/
theorem toNat_add_one {x : UInt32} (h : x.toNat = n) (hn : n + 1 < 2 ^ 32) :
    (x + 1).toNat = n + 1 := by
  rw [UInt32.toNat_add, h]
  exact Nat.mod_eq_of_lt hn

theorem toNat_sub_one {x : UInt32} (h : x.toNat = n) (hx : x ≠ 0) : (x - 1).toNat = n - 1 := by
  have hle : (1 : UInt32) ≤ x := UInt32.le_iff_toNat_le.mpr (Nat.pos_of_ne_zero (toNat_ne_zero hx))
  rw [UInt32.toNat_sub_of_le _ _ hle, h]
  rfl

end Epochs

variable [DecidableEq κ] {s s' : DelayState κ} {a : Sleepers κ} {k i : κ} {t n : ℕ} {w : List κ}

/-! ### One list

Those who wake before the next wrap, or those who wake after it. -/

/-- The ordered list of those who wake in one turn of the tick. -/
structure Turn (value : κ → UInt32) (wakeAt : κ → ℕ) (e : ℕ) (w : List κ) : Prop where
  value : ∀ i ∈ w, value i = UInt32.ofNat (wakeAt i)
  epoch : ∀ i ∈ w, wakeAt i / 2 ^ 32 = e
  sorted : w.Pairwise fun i k => wakeAt i ≤ wakeAt k

theorem filter_update {wakeAt : κ → ℕ} (hk : k ∉ w) :
    w.filter (Function.update wakeAt k n · = t) = w.filter (wakeAt · = t) :=
  List.filter_congr fun i hi => by
    have hne : i ≠ k := fun heq => hk (heq ▸ hi)
    rw [Function.update_of_ne hne]

namespace Turn

variable {value : κ → UInt32} {wakeAt : κ → ℕ} {e : ℕ}

/-- The wake time of a task that is not in it. -/
theorem update (h : Turn value wakeAt e w) (hk : k ∉ w) (x : UInt32) (n : ℕ) :
    Turn (Function.update value k x) (Function.update wakeAt k n) e w := by
  have hne {i : κ} (hi : i ∈ w) : i ≠ k := fun heq => hk (heq ▸ hi)
  refine ⟨fun i hi => ?_, fun i hi => ?_, h.sorted.imp_of_mem fun hi hj hle => ?_⟩
  · rw [Function.update_of_ne (hne hi), Function.update_of_ne (hne hi)]
    exact h.value i hi
  · rw [Function.update_of_ne (hne hi)]
    exact h.epoch i hi
  · rwa [Function.update_of_ne (hne hi), Function.update_of_ne (hne hj)]

/-- `vListInsert` compares wrapped times, which within one turn are ordered like the times. -/
theorem insert_eq (h : Turn value wakeAt e w) (hk : k ∉ w) (hn : n / 2 ^ 32 = e) :
    insertBehind (fun i => (Function.update value k (UInt32.ofNat n) i).toNat) k w =
      insertBehind (Function.update wakeAt k n) k w := by
  have h' := h.update hk (UInt32.ofNat n) n
  refine insertBehind_congr fun i hi => ?_
  rw [h'.value i hi, Function.update_self, Function.update_self]
  exact toNat_ofNat_lt_iff (hn.trans (h'.epoch i hi).symm)

theorem insert (h : Turn value wakeAt e w) (hk : k ∉ w) (hn : n / 2 ^ 32 = e) :
    Turn (Function.update value k (UInt32.ofNat n)) (Function.update wakeAt k n) e
      (insertBehind (fun i => (Function.update value k (UInt32.ofNat n) i).toNat) k w) := by
  have h' := h.update hk (UInt32.ofNat n) n
  rw [h.insert_eq hk hn]
  refine ⟨fun i hi => ?_, fun i hi => ?_, insertBehind_sorted h'.sorted⟩
  · rcases mem_insertBehind.mp hi with rfl | hi
    · rw [Function.update_self, Function.update_self]
    · exact h'.value i hi
  · rcases mem_insertBehind.mp hi with rfl | hi
    · rwa [Function.update_self]
    · exact h'.epoch i hi

/-- Among those who wake at one tick the new one is the last. -/
theorem filter_insert (h : Turn value wakeAt e w) (hk : k ∉ w) (hn : n / 2 ^ 32 = e) (t : ℕ) :
    (insertBehind (fun i => (Function.update value k (UInt32.ofNat n) i).toNat) k w).filter
        (Function.update wakeAt k n · = t) =
      w.filter (wakeAt · = t) ++ if n = t then [k] else [] := by
  rw [h.insert_eq hk hn, filter_insertBehind (h.update hk (UInt32.ofNat n) n).sorted,
    filter_update hk, Function.update_self]

end Turn

namespace HoldsSleepers

theorem suspended_iff (h : HoldsSleepers s a) : s.uxSchedulerSuspended = 0 ↔ a.suspended = 0 := by
  rw [← h.suspended, ← UInt32.toNat_inj]
  rfl

/-! ### Who sleeps -/

theorem mem_iff (h : HoldsSleepers s a) :
    k ∈ s.pxDelayedTaskList ∨ k ∈ s.pxOverflowDelayedTaskList ↔ k ∈ a.asleep := by
  have hmem : k ∈ (s.pxDelayedTaskList ++ s.pxOverflowDelayedTaskList).filter
      (a.wakeAt · = a.wakeAt k) ↔ k ∈ a.asleep.filter (a.wakeAt · = a.wakeAt k) := by
    rw [h.asleep]
  simpa using hmem

theorem value_soon (h : HoldsSleepers s a) (hk : k ∈ s.pxDelayedTaskList) :
    s.xItemValue k = UInt32.ofNat (a.wakeAt k) := h.value k (h.mem_iff.mp (.inl hk))

theorem value_later (h : HoldsSleepers s a) (hk : k ∈ s.pxOverflowDelayedTaskList) :
    s.xItemValue k = UInt32.ofNat (a.wakeAt k) := h.value k (h.mem_iff.mp (.inr hk))

theorem soonTurn (h : HoldsSleepers s a) :
    Turn s.xItemValue a.wakeAt (a.now / 2 ^ 32) s.pxDelayedTaskList :=
  ⟨fun _ => h.value_soon, h.soon, h.soonSorted⟩

theorem laterTurn (h : HoldsSleepers s a) :
    Turn s.xItemValue a.wakeAt (a.now / 2 ^ 32 + 1) s.pxOverflowDelayedTaskList :=
  ⟨fun _ => h.value_later, h.later, h.laterSorted⟩

/-- In the order of the list they wake. -/
theorem head_le (h : HoldsSleepers s a) (hd : (i :: w).Sublist s.pxDelayedTaskList)
    (hk : k ∈ i :: w) : s.xItemValue i ≤ s.xItemValue k := by
  have hi := hd.subset List.mem_cons_self
  have hle : a.wakeAt i ≤ a.wakeAt k := by
    rcases List.mem_cons.mp hk with rfl | hk
    · exact le_rfl
    · exact (List.pairwise_cons.mp (h.soonSorted.sublist hd)).1 k hk
  have hk := hd.subset hk
  rw [h.value_soon hi, h.value_soon hk, ofNat_le_iff ((h.soon i hi).trans (h.soon k hk).symm)]
  exact hle

/-- `prvResetNextTaskUnblockTime` finds the next time. -/
theorem resetNext (h : HoldsSleepers s a) : Refines s.prvResetNextTaskUnblockTime a := by
  refine ⟨{ h with }, fun k hk => ?_⟩
  cases hd : s.pxDelayedTaskList with
  | nil =>
      rw [show s.prvResetNextTaskUnblockTime.pxDelayedTaskList = s.pxDelayedTaskList from rfl,
        hd] at hk
      cases hk
  | cons i w =>
      have hnext : s.prvResetNextTaskUnblockTime.xNextTaskUnblockTime = s.xItemValue i := by
        simp [DelayState.prvResetNextTaskUnblockTime, hd]
      rw [hnext]
      exact h.head_le (hd ▸ .refl _) (hd ▸ hk)

end HoldsSleepers

/-! ### Waking -/

namespace DelayState

/-- What the loop of `xTaskIncrementTick` asks of a task. -/
def Expired (s : DelayState κ) (k : κ) : Bool := s.xItemValue k ≤ s.xTickCount

omit [DecidableEq κ] in
theorem expired_eq_false_iff : s.Expired k = false ↔ s.xTickCount < s.xItemValue k := by
  rw [Expired, decide_eq_false_iff_not, UInt32.not_le]

/-- The tasks of the delayed list up to the first that has not expired are ready. -/
def afterWaking (s : DelayState κ) (w : List κ) (xNextTaskUnblockTime : UInt32) : DelayState κ :=
  { s with
    pxDelayedTaskList := w.dropWhile s.Expired
    ready := s.ready ++ w.takeWhile s.Expired
    waits := fun k => if k ∈ w.takeWhile s.Expired then false else s.waits k
    xNextTaskUnblockTime := xNextTaskUnblockTime }

theorem unblockDelayed_eq (s : DelayState κ) (w : List κ) :
    ∃ x, s.unblockDelayed w = s.afterWaking w x ∧
      ∀ k w', w.dropWhile s.Expired = k :: w' → x = s.xItemValue k := by
  induction w generalizing s with
  | nil => exact ⟨portMaxDelay, by simp [unblockDelayed, afterWaking], nofun⟩
  | cons k w ih =>
      by_cases hk : s.xTickCount < s.xItemValue k
      · have hexpired : s.Expired k = false := expired_eq_false_iff.mpr hk
        refine ⟨s.xItemValue k, by simp [unblockDelayed, afterWaking, hk, hexpired],
          fun i w' hi => ?_⟩
        rw [List.dropWhile_cons_of_neg (by simp [hexpired])] at hi
        rw [(List.cons.inj hi).1]
      · have hexpired : s.Expired k = true := by
          by_contra hnot
          exact hk (expired_eq_false_iff.mp (Bool.eq_false_of_not_eq_true hnot))
        obtain ⟨x, hx, hnext⟩ := ih { s with
          waits := Function.update s.waits k false
          ready := s.ready ++ [k] }
        refine ⟨x, ?_, fun i w' hi => ?_⟩
        · have hsame : DelayState.Expired { s with
              waits := Function.update s.waits k false
              ready := s.ready ++ [k] } = s.Expired := rfl
          have hwaits (i : κ) : (if i ∈ w.takeWhile s.Expired then false
              else Function.update s.waits k false i) =
              if i ∈ k :: w.takeWhile s.Expired then false else s.waits i := by
            by_cases hi : i = k
            · simp [hi]
            · simp [hi]
          rw [unblockDelayed, if_neg hk, hx]
          simp [afterWaking, hsame, hexpired, hwaits]
        · rw [List.dropWhile_cons_of_pos hexpired] at hi
          exact hnext i w' hi

end DelayState

namespace HoldsSleepers

theorem expired_iff (h : HoldsSleepers s a) (hk : k ∈ s.pxDelayedTaskList) :
    s.Expired k = true ↔ a.wakeAt k ≤ a.now := by
  rw [DelayState.Expired, decide_eq_true_iff, h.value_soon hk, h.tickCount,
    ofNat_le_iff (h.soon k hk)]

theorem expired_eq (h : HoldsSleepers s a) (hk : k ∈ s.pxDelayedTaskList) :
    s.Expired k = decide (a.wakeAt k ≤ a.now) := by
  rw [Bool.eq_iff_iff, h.expired_iff hk, decide_eq_true_iff]

/-- While nobody is late, those who have expired are those whose time has come. -/
theorem expired_eq_due (h : HoldsSleepers s a) (hdue : ∀ k ∈ a.asleep, a.now ≤ a.wakeAt k) :
    s.pxDelayedTaskList.takeWhile s.Expired = a.due := by
  have hlater : s.pxOverflowDelayedTaskList.filter (a.wakeAt · = a.now) = [] := by
    rw [List.filter_eq_nil_iff]
    intro k hk heq
    have hepoch := h.later k hk
    rw [of_decide_eq_true heq] at hepoch
    omega
  calc s.pxDelayedTaskList.takeWhile s.Expired
    _ = s.pxDelayedTaskList.takeWhile fun k => a.wakeAt k ≤ a.now :=
        takeWhile_congr_of_mem fun k hk => h.expired_eq hk
    _ = s.pxDelayedTaskList.filter fun k => a.wakeAt k ≤ a.now :=
        takeWhile_le_eq_filter h.soonSorted a.now
    _ = s.pxDelayedTaskList.filter (a.wakeAt · = a.now) := List.filter_congr fun k hk => by
        have hle := hdue k (h.mem_iff.mp (.inl hk))
        rw [decide_eq_decide]
        omega
    _ = (s.pxDelayedTaskList ++ s.pxOverflowDelayedTaskList).filter (a.wakeAt · = a.now) := by
        rw [List.filter_append, hlater, List.append_nil]
    _ = a.asleep.filter (a.wakeAt · = a.now) := h.asleep a.now
    _ = a.due := List.filter_congr fun k hk => by
        have hle := hdue k hk
        rw [decide_eq_decide]
        omega

theorem rest_eq (h : HoldsSleepers s a) : s.pxDelayedTaskList.dropWhile s.Expired =
    s.pxDelayedTaskList.filter fun k => a.now < a.wakeAt k := by
  rw [dropWhile_congr_of_mem fun k hk => h.expired_eq hk]
  exact dropWhile_le_eq_filter h.soonSorted a.now

end HoldsSleepers

namespace Refines

/-- What `xTaskIncrementTick` does when it has counted the tick. -/
theorem wakeDue (h : Refines s a) (hdue : ∀ k ∈ a.asleep, a.now ≤ a.wakeAt k) :
    Refines (if s.xTickCount ≥ s.xNextTaskUnblockTime then s.unblockDelayed s.pxDelayedTaskList
      else s) a.wakeDue := by
  -- if the time to look has not come, nobody's time has
  obtain ⟨x, hx, hnext⟩ : ∃ x, (if s.xTickCount ≥ s.xNextTaskUnblockTime then
      s.unblockDelayed s.pxDelayedTaskList else s) = s.afterWaking s.pxDelayedTaskList x ∧
      ∀ k ∈ s.pxDelayedTaskList.dropWhile s.Expired, x ≤ s.xItemValue k := by
    split
    · obtain ⟨x, hx, hhead⟩ := s.unblockDelayed_eq s.pxDelayedTaskList
      refine ⟨x, hx, fun k hk => ?_⟩
      cases hd : s.pxDelayedTaskList.dropWhile s.Expired with
      | nil =>
          rw [hd] at hk
          cases hk
      | cons i w =>
          rw [hhead i w hd]
          exact h.head_le (hd ▸ List.dropWhile_sublist _) (hd ▸ hk)
    · rename_i hearly
      refine ⟨s.xNextTaskUnblockTime, ?_, fun k hk => ?_⟩
      · have hnone : ∀ k ∈ s.pxDelayedTaskList, s.Expired k = false := fun k hk =>
          DelayState.expired_eq_false_iff.mpr
            (UInt32.lt_of_lt_of_le (UInt32.not_le.mp hearly) (h.next k hk))
        have htake : s.pxDelayedTaskList.takeWhile s.Expired = [] := by
          rw [takeWhile_congr_of_mem hnone]
          cases s.pxDelayedTaskList <;> rfl
        have hdrop : s.pxDelayedTaskList.dropWhile s.Expired = s.pxDelayedTaskList := by
          rw [dropWhile_congr_of_mem hnone]
          cases s.pxDelayedTaskList <;> rfl
        simp [DelayState.afterWaking, htake, hdrop]
      · exact h.next k ((List.dropWhile_sublist _).subset hk)
  have hexpired := h.expired_eq_due hdue
  have hrest := h.rest_eq
  have hlater : s.pxOverflowDelayedTaskList.filter (fun k => a.now < a.wakeAt k) =
      s.pxOverflowDelayedTaskList := by
    rw [List.filter_eq_self]
    intro k hk
    have hepoch := h.later k hk
    rw [decide_eq_true_iff]
    omega
  have hsub : (s.pxDelayedTaskList.dropWhile s.Expired).Sublist s.pxDelayedTaskList :=
    List.dropWhile_sublist _
  rw [hx]
  exact
    { tickCount := h.tickCount
      overflows := h.overflows
      asleep := fun t => by
        change (s.pxDelayedTaskList.dropWhile s.Expired ++ s.pxOverflowDelayedTaskList).filter
          (a.wakeAt · = t) = (a.asleep.filter fun k => a.now < a.wakeAt k).filter (a.wakeAt · = t)
        rw [hrest, ← hlater, ← List.filter_append, List.filter_comm, h.asleep, List.filter_comm]
      soon := fun k hk => h.soon k (hsub.subset hk)
      later := h.later
      value := fun k hk => h.value k (List.mem_filter.mp hk).1
      soonSorted := h.soonSorted.sublist hsub
      laterSorted := h.laterSorted
      next := hnext
      forever := h.forever
      suspended := h.suspended
      pendedTicks := h.pendedTicks
      pendingReady := h.pendingReady
      ready := congrArg₂ (· ++ ·) h.ready hexpired
      waits := by
        funext k
        change (if k ∈ s.pxDelayedTaskList.takeWhile s.Expired then false else s.waits k) = _
        rw [hexpired, h.waits]
        rfl }

/-- The next tick is counted, and if it wraps the lists are exchanged. -/
theorem advance (h : Refines s a) (hfuture : a.Future) :
    ∃ s₂, (if s.xTickCount + 1 = 0 then
        DelayState.taskSwitchDelayedLists { s with xTickCount := s.xTickCount + 1 }
      else some { s with xTickCount := s.xTickCount + 1 }) = some s₂ ∧
      Refines s₂ { a with now := a.now + 1 } := by
  have hcount : s.xTickCount + 1 = UInt32.ofNat (a.now + 1) := by
    rw [h.tickCount, UInt32.ofNat_add]
    rfl
  rw [hcount]
  split
  · rename_i hwrap
    rw [ofNat_eq_zero_iff] at hwrap
    -- the last of those who wake before the wrap is awake
    have hempty : s.pxDelayedTaskList = [] := by
      rw [List.eq_nil_iff_forall_not_mem]
      intro k hk
      have hlt := hfuture k (h.toHoldsSleepers.mem_iff.mp (.inl hk))
      have hepoch := h.soon k hk
      omega
    have hnow : (a.now + 1) / 2 ^ 32 = a.now / 2 ^ 32 + 1 := by omega
    have hoverflows : s.xNumOfOverflows + 1 = UInt32.ofNat ((a.now + 1) / 2 ^ 32) := by
      rw [h.overflows, hnow, UInt32.ofNat_add]
      rfl
    refine ⟨_, if_pos hempty, HoldsSleepers.resetNext ?_⟩
    exact
      { h with
        tickCount := rfl
        overflows := hoverflows
        asleep := fun t => by
          have hasleep := h.asleep t
          simpa [hempty] using hasleep
        soon := fun k hk => (h.later k hk).trans hnow.symm
        later := fun k hk => by
          rw [hempty] at hk
          cases hk
        soonSorted := h.laterSorted
        laterSorted := by rw [hempty]; exact .nil }
  · rename_i hwrap
    rw [ofNat_eq_zero_iff] at hwrap
    have hnow : (a.now + 1) / 2 ^ 32 = a.now / 2 ^ 32 := by omega
    exact ⟨_, rfl, { h with
      tickCount := rfl
      overflows := by rw [h.overflows, hnow]
      soon := fun k hk => by rw [h.soon k hk, hnow]
      later := fun k hk => by rw [h.later k hk, hnow] }⟩

/-- `xTaskIncrementTick` never fails its assertion. -/
theorem tick (h : Refines s a) (hfuture : a.Future)
    (hcount : a.suspended ≠ 0 → a.pendedTicks + 1 < 2 ^ 32) :
    ∃ s', s.xTaskIncrementTick = some s' ∧ Refines s' a.tick ∧ a.tick.Future := by
  by_cases hsuspended : a.suspended = 0
  · obtain ⟨s₂, hs₂, h₂⟩ := h.advance hfuture
    have hdue : ∀ k ∈ a.asleep, a.now + 1 ≤ a.wakeAt k := hfuture
    have htick : a.tick = Sleepers.wakeDue { a with now := a.now + 1 } := if_pos hsuspended
    rw [htick]
    refine ⟨_, ?_, h₂.wakeDue hdue, fun k hk => of_decide_eq_true (List.mem_filter.mp hk).2⟩
    rw [DelayState.xTaskIncrementTick, if_pos (h.toHoldsSleepers.suspended_iff.mpr hsuspended)]
    simp only [hs₂, Option.map_some]
  · have htick : a.tick = { a with pendedTicks := a.pendedTicks + 1 } := if_neg hsuspended
    rw [htick]
    refine ⟨_, if_neg (mt h.toHoldsSleepers.suspended_iff.mp hsuspended), ?_, hfuture⟩
    exact { h with pendedTicks := toNat_add_one h.pendedTicks (hcount hsuspended) }

/-! ### Going to sleep -/

theorem leave (h : Refines s a) (k : κ) : Refines (s.removeStateItem k) (a.leave k) := by
  have hsub (w : List κ) : (w.filter (· ≠ k)).Sublist w := List.filter_sublist
  exact
    { h with
      asleep := fun t => by
        change (s.pxDelayedTaskList.filter _ ++ s.pxOverflowDelayedTaskList.filter _).filter
          (a.wakeAt · = t) = (a.asleep.filter _).filter (a.wakeAt · = t)
        rw [← List.filter_append, List.filter_comm, h.asleep, List.filter_comm]
      soon := fun i hi => h.soon i ((hsub _).subset hi)
      later := fun i hi => h.later i ((hsub _).subset hi)
      value := fun i hi => h.value i ((hsub _).subset hi)
      soonSorted := h.soonSorted.sublist (hsub _)
      laterSorted := h.laterSorted.sublist (hsub _)
      next := fun i hi => h.next i ((hsub _).subset hi)
      forever := congrArg _ h.forever
      ready := congrArg _ h.ready }

theorem wake (h : Refines s a) (k : κ) :
    Refines { s.removeStateItem k with ready := (s.removeStateItem k).ready ++ [k] } (a.wake k) :=
  have hleave := h.leave k
  { hleave with ready := congrArg (· ++ [k]) hleave.ready }

/-- A task that is in none of the lists goes to sleep for `n` ticks. -/
theorem insertDelayed (h : Refines s a) (hk : k ∉ a.asleep) (hn : n < 2 ^ 32) :
    Refines (s.insertDelayed k (UInt32.ofNat (a.now + n)))
      { a with asleep := a.asleep ++ [k], wakeAt := Function.update a.wakeAt k (a.now + n) } := by
  have hsoon : k ∉ s.pxDelayedTaskList := fun hmem => hk (h.toHoldsSleepers.mem_iff.mp (.inl hmem))
  have hlater : k ∉ s.pxOverflowDelayedTaskList := fun hmem =>
    hk (h.toHoldsSleepers.mem_iff.mp (.inr hmem))
  have hasleep (t : ℕ) : (a.asleep ++ [k]).filter (Function.update a.wakeAt k (a.now + n) · = t) =
      s.pxDelayedTaskList.filter (a.wakeAt · = t) ++
        s.pxOverflowDelayedTaskList.filter (a.wakeAt · = t) ++
          if a.now + n = t then [k] else [] := by
    rw [List.filter_append, filter_update hk, ← h.asleep, List.filter_append]
    by_cases ht : a.now + n = t <;> simp [ht]
  have hvalue : ∀ i ∈ a.asleep ++ [k],
      Function.update s.xItemValue k (UInt32.ofNat (a.now + n)) i =
        UInt32.ofNat (Function.update a.wakeAt k (a.now + n) i) := by
    intro i hi
    by_cases hik : i = k
    · rw [hik, Function.update_self, Function.update_self]
    · rw [Function.update_of_ne hik, Function.update_of_ne hik]
      exact h.value i (by simpa [hik] using hi)
  have hoverflow : UInt32.ofNat (a.now + n) < s.xTickCount ↔
      (a.now + n) / 2 ^ 32 = a.now / 2 ^ 32 + 1 := by
    rw [h.tickCount]
    exact ofNat_add_lt_iff hn
  unfold DelayState.insertDelayed
  dsimp only
  split
  · rename_i hlt
    have hwrap := hoverflow.mp hlt
    have hold := h.toHoldsSleepers.soonTurn.update hsoon (UInt32.ofNat (a.now + n)) (a.now + n)
    have hnew := h.toHoldsSleepers.laterTurn.insert hlater hwrap
    exact
      { h with
        asleep := fun t => by
          rw [hasleep, List.filter_append, filter_update hsoon, List.append_assoc]
          exact congrArg _ (h.toHoldsSleepers.laterTurn.filter_insert hlater hwrap t)
        soon := hold.epoch
        later := hnew.epoch
        value := hvalue
        soonSorted := hold.sorted
        laterSorted := hnew.sorted
        next := fun i hi => by
          have hne : i ≠ k := fun heq => hsoon (heq ▸ hi)
          change _ ≤ Function.update s.xItemValue k _ i
          rw [Function.update_of_ne hne]
          exact h.next i hi }
  · rename_i hlt
    have hepoch : (a.now + n) / 2 ^ 32 = a.now / 2 ^ 32 := by
      have hwrap := mt hoverflow.mpr hlt
      omega
    have hold := h.toHoldsSleepers.laterTurn.update hlater (UInt32.ofNat (a.now + n)) (a.now + n)
    have hnew := h.toHoldsSleepers.soonTurn.insert hsoon hepoch
    -- who wakes after the wrap does not wake when the new one does
    have hother (t : ℕ) (ht : a.now + n = t) :
        s.pxOverflowDelayedTaskList.filter (a.wakeAt · = t) = [] := by
      rw [List.filter_eq_nil_iff]
      intro i hi heq
      have hi := h.later i hi
      rw [of_decide_eq_true heq, ← ht, hepoch] at hi
      omega
    exact
      { h with
        asleep := fun t => by
          rw [hasleep, List.filter_append, filter_update hlater]
          refine (congrArg (· ++ _)
            (h.toHoldsSleepers.soonTurn.filter_insert hsoon hepoch t)).trans ?_
          by_cases ht : a.now + n = t
          · rw [hother t ht, List.append_nil, List.append_nil]
          · rw [if_neg ht, List.append_nil, List.append_nil]
        soon := hnew.epoch
        later := hold.epoch
        value := hvalue
        soonSorted := hnew.sorted
        laterSorted := hold.sorted
        next := fun i hi => by
          change (if _ < s.xNextTaskUnblockTime then _ else s.xNextTaskUnblockTime) ≤
            Function.update s.xItemValue k _ i
          rcases mem_insertBehind.mp hi with rfl | hi
          · rw [Function.update_self]
            split <;> rename_i hnext
            · exact UInt32.le_refl _
            · exact UInt32.not_lt.mp hnext
          · have hne : i ≠ k := fun heq => hsoon (heq ▸ hi)
            rw [Function.update_of_ne hne]
            have hle := h.next i hi
            split <;> rename_i hnext
            · exact UInt32.le_trans (UInt32.le_of_lt hnext) hle
            · exact hle }

theorem sleep (h : Refines s a) {x : UInt32} {indefinitely : Bool}
    (hfinite : ¬(x = portMaxDelay ∧ indefinitely = true)) :
    Refines (s.prvAddCurrentTaskToDelayedList k x indefinitely) (a.sleep k x.toNat) := by
  have hnot : k ∉ (a.leave k).asleep := fun hk => by simp [Sleepers.leave] at hk
  have hinsert := (h.leave k).insertDelayed hnot x.toNat_lt
  have htime : (s.removeStateItem k).xTickCount + x =
      UInt32.ofNat ((a.leave k).now + x.toNat) := by
    rw [(h.leave k).tickCount, UInt32.ofNat_add, UInt32.ofNat_toNat]
  rw [DelayState.prvAddCurrentTaskToDelayedList]
  simp only [if_neg hfinite, htime]
  exact hinsert

end Refines

theorem Sleepers.foldl_wake_suspended : (w.foldl Sleepers.wake a).suspended = a.suspended := by
  induction w generalizing a with
  | nil => rfl
  | cons k w ih => exact ih

theorem Sleepers.Future.leave (h : a.Future) (k : κ) : (a.leave k).Future :=
  fun i hi => h i (List.mem_filter.mp hi).1

theorem Sleepers.Future.sleep (h : a.Future) (k : κ) (hn : n ≠ 0) : (a.sleep k n).Future := by
  intro i hi
  by_cases hik : i = k
  · have hself : (a.sleep k n).wakeAt i = a.now + n := by simp [Sleepers.sleep, Sleepers.leave, hik]
    rw [hself]
    exact Nat.lt_add_of_pos_right (Nat.pos_of_ne_zero hn)
  · have hother : (a.sleep k n).wakeAt i = a.wakeAt i := by
      simp [Sleepers.sleep, Sleepers.leave, hik]
    rw [hother]
    refine h.leave k i ?_
    simpa [Sleepers.sleep, hik] using hi

namespace Refines

theorem incrementTicks (h : Refines s a) (hfuture : a.Future) (hresumed : a.suspended = 0) (n : ℕ) :
    ∃ s', DelayState.incrementTicks n s = some s' ∧ Refines s' (Sleepers.tick^[n] a) ∧
      (Sleepers.tick^[n] a).Future := by
  induction n generalizing s a with
  | zero => exact ⟨s, rfl, h, hfuture⟩
  | succ n ih =>
      obtain ⟨s₁, hs₁, h₁, hfuture₁⟩ := h.tick hfuture fun hne => absurd hresumed hne
      have hresumed₁ : a.tick.suspended = 0 := by
        rw [Sleepers.tick, if_pos hresumed]
        exact hresumed
      obtain ⟨s', hs', h', hfuture'⟩ := ih h₁ hfuture₁ hresumed₁
      exact ⟨s', by rw [DelayState.incrementTicks, hs₁]; exact hs', h', hfuture'⟩

theorem readyPending (h : Refines s a) (hfuture : a.Future) (w : List κ) :
    Refines (s.readyPending w) { w.foldl Sleepers.wake a with pendingReady := [] } ∧
      (w.foldl Sleepers.wake a).Future := by
  induction w generalizing s a with
  | nil => exact ⟨{ h with pendingReady := rfl }, hfuture⟩
  | cons k w ih => exact ih (h.wake k) (hfuture.leave k)

theorem catchUp (h : Refines s a) (hfuture : a.Future) (hresumed : a.suspended = 0) :
    ∃ s', s.catchUp = some s' ∧ Refines s' a.catchUp ∧ a.catchUp.Future := by
  unfold DelayState.catchUp Sleepers.catchUp
  rw [← h.pendingReady]
  obtain ⟨h₁, hfuture₁⟩ := h.readyPending hfuture s.xPendingReadyList
  have h₂ : Refines (if s.xPendingReadyList = [] then s.readyPending s.xPendingReadyList
      else (s.readyPending s.xPendingReadyList).prvResetNextTaskUnblockTime)
      { s.xPendingReadyList.foldl Sleepers.wake a with pendingReady := [] } := by
    split
    · exact h₁
    · exact h₁.toHoldsSleepers.resetNext
  have hresumed₁ : (s.xPendingReadyList.foldl Sleepers.wake a).suspended = 0 := by
    rw [Sleepers.foldl_wake_suspended, hresumed]
  obtain ⟨s₃, hs₃, h₃, hfuture₃⟩ := h₂.incrementTicks hfuture₁ hresumed₁ _
  dsimp only
  rw [h₂.pendedTicks]
  exact ⟨_, congrArg (Option.map _) hs₃, { h₃ with pendedTicks := rfl }, hfuture₃⟩

theorem resume (h : Refines s a) (hfuture : a.Future) {a' : Sleepers κ}
    (ha : a.step .resume = some a') :
    ∃ s', s.xTaskResumeAll = some s' ∧ Refines s' a' ∧ a'.Future := by
  rw [Sleepers.step] at ha
  rw [DelayState.xTaskResumeAll]
  by_cases hzero : a.suspended = 0
  · rw [if_pos hzero] at ha
    cases ha
  have hheld : s.uxSchedulerSuspended ≠ 0 := mt h.toHoldsSleepers.suspended_iff.mp hzero
  rw [if_neg hzero] at ha
  rw [if_neg hheld]
  have h₁ : Refines { s with uxSchedulerSuspended := s.uxSchedulerSuspended - 1 }
      { a with suspended := a.suspended - 1 } :=
    { h with suspended := toNat_sub_one h.suspended hheld }
  cases ha
  dsimp only
  by_cases hlast : a.suspended - 1 = 0
  · rw [if_pos hlast, if_pos (h₁.toHoldsSleepers.suspended_iff.mpr hlast)]
    exact h₁.catchUp hfuture hlast
  · rw [if_neg hlast, if_neg (mt h₁.toHoldsSleepers.suspended_iff.mp hlast)]
    exact ⟨_, rfl, h₁, hfuture⟩

theorem step (h : Refines s a) (hfuture : a.Future) {mv : DelayMove κ} {a' : Sleepers κ}
    (hcount : a.Countable mv) (ha : a.step mv = some a') :
    ∃ s', s.step mv = some s' ∧ Refines s' a' ∧ a'.Future := by
  cases mv with
  | tick =>
      cases ha
      exact h.tick hfuture hcount
  | delay k x =>
      rw [Sleepers.step] at ha
      split at ha
      · cases ha
      · rename_i hx
        cases ha
        exact ⟨_, rfl, h.sleep (by simp), hfuture.sleep k (toNat_ne_zero hx)⟩
  | block k x =>
      rw [Sleepers.step] at ha
      split at ha
      · cases ha
      rename_i hx
      have hwaits : Refines { s with waits := Function.update s.waits k true }
          { a with waits := Function.update a.waits k true } :=
        { h with waits := by rw [h.waits] }
      dsimp only at ha
      split at ha
      · rename_i hforever
        cases ha
        have hleave := hwaits.leave k
        refine ⟨_, congrArg some (if_pos ⟨hforever, rfl⟩), ?_, Sleepers.Future.leave hfuture k⟩
        exact { hleave with forever := congrArg (· ++ [k]) hleave.forever }
      · rename_i hfinite
        cases ha
        exact ⟨_, rfl, hwaits.sleep (by simp [hfinite]),
          Sleepers.Future.sleep hfuture k (toNat_ne_zero hx)⟩
  | event k =>
      have hwaits : Refines { s with waits := Function.update s.waits k false }
          { a with waits := Function.update a.waits k false } :=
        { h with waits := by rw [h.waits] }
      refine ⟨_, rfl, ?_⟩
      rw [Sleepers.step] at ha
      dsimp only at ha
      rw [DelayState.xTaskRemoveFromEventList]
      dsimp only
      split at ha
      · rename_i hzero
        cases ha
        rw [if_pos (h.toHoldsSleepers.suspended_iff.mpr hzero)]
        exact ⟨hwaits.wake k, Sleepers.Future.leave hfuture k⟩
      · rename_i hzero
        cases ha
        rw [if_neg (mt h.toHoldsSleepers.suspended_iff.mp hzero)]
        exact ⟨{ hwaits with pendingReady := congrArg (· ++ [k]) h.pendingReady }, hfuture⟩
  | suspend =>
      cases ha
      exact ⟨_, rfl, { h with suspended := toNat_add_one h.suspended hcount }, hfuture⟩
  | resume => exact h.resume hfuture ha

theorem run (h : Refines s a) (hfuture : a.Future) {ls : List (DelayMove κ)} {a' : Sleepers κ}
    (ha : Run Sleepers.step a ls a') (hmeets : Meets Sleepers.step Sleepers.Countable a ls) :
    ∃ s', Run DelayState.step s ls s' ∧ Refines s' a' ∧ a'.Future := by
  induction ha generalizing s with
  | refl a => exact ⟨s, .refl s, h, hfuture⟩
  | step hstep _ ih =>
      obtain ⟨hcount, hrest⟩ := (meets_cons hstep).mp hmeets
      obtain ⟨s₁, hs₁, h₁, hfuture₁⟩ := h.step hfuture hcount hstep
      obtain ⟨s', hs', h', hfuture'⟩ := ih h₁ hfuture₁ hrest
      exact ⟨s', .step hs₁ hs', h', hfuture'⟩

end Refines

theorem refines_init (ready : List κ) :
    Refines (DelayState.init ready) (Sleepers.init ready) where
  tickCount := rfl
  overflows := by simp [DelayState.init, Sleepers.init]
  asleep _ := rfl
  soon := nofun
  later := nofun
  value := nofun
  soonSorted := .nil
  laterSorted := .nil
  next := nofun
  forever := rfl
  suspended := rfl
  pendedTicks := rfl
  pendingReady := rfl
  ready := rfl
  waits := rfl

/-- **The kernel wakes tasks on time**: whatever sleeps, events, suspensions and ticks follow one
another, however often the tick wraps, it makes the same tasks ready at the same ticks and in the
same order as if ticks did not wrap and it looked through all sleepers; nobody sleeps past its time,
and no assertion fails.  Only the ticks of one suspension, and the suspensions in one another, must
be few enough to be counted. -/
theorem delayed_refines (ready : List κ) {ls : List (DelayMove κ)}
    (h : Run Sleepers.step (Sleepers.init ready) ls a)
    (hmeets : Meets Sleepers.step Sleepers.Countable (Sleepers.init ready) ls) :
    ∃ s, Run DelayState.step (DelayState.init ready) ls s ∧ Refines s a ∧ a.Future := by
  have hfuture : (Sleepers.init ready).Future := nofun
  exact (refines_init ready).run hfuture h hmeets

/-- Task 0 sleeps for three ticks, and task 1 would wait for its event until the tick wraps; both
wake when the scheduler is resumed. -/
def nap : List (DelayMove ℕ) :=
  [.delay 0 3, .tick, .tick, .block 1 (portMaxDelay - 1), .block 2 portMaxDelay, .suspend, .tick,
    .event 1, .resume]

theorem delayed_refines_nap :
    ∃ s, Run DelayState.step (DelayState.init [0, 1, 2]) nap s ∧ s.ready = [1, 0] ∧
      s.xSuspendedTaskList = [2] := by
  obtain ⟨s, hrun, hs, -⟩ := delayed_refines [0, 1, 2]
    (Run.of_exec (rfl : exec Sleepers.step (Sleepers.init [0, 1, 2]) nap = some _)) (by decide)
  exact ⟨s, hrun, hs.ready, hs.forever⟩

end PeripheralTester.Firmware
