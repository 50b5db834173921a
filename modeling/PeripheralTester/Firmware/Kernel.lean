import PeripheralTester.Firmware.Callbacks
import PeripheralTester.Lib.Run

/-! # The kernel calls of the logger

The part of FreeRTOS that `app_printf` reaches: the critical section of the Cortex-M7 port, the
suspended scheduler, and a mutex with its holder and the tasks that wait for it.  A call is a
function on the kernel's state that can fail a `configASSERT`, which disables the interrupts and
loops for ever.

A critical section masks the interrupts of the peripherals (all of priority 5, which is
`configLIBRARY_MAX_SYSCALL_INTERRUPT_PRIORITY`), so what happens inside one is a single step;
with the scheduler suspended they are still taken. -/

namespace PeripheralTester.Firmware

/-- The tasks: those of the three modules with callbacks, and all others. -/
inductive Task where
  | uartTest
  | spiTest
  | i2cTest
  | other (n : ℕ)
deriving DecidableEq, Repr

/-- The assertions on the way of `app_printf`. -/
inductive Assertion where
  /-- `vPortEnterCritical` in an exception. -/
  | vectActive
  /-- `vPortExitCritical` without a critical section. -/
  | criticalNesting
  /-- `xTaskResumeAll` with a running scheduler. -/
  | schedulerSuspended
  /-- A semaphore call with `NULL`. -/
  | queueNull
  /-- A semaphore call that would wait with the scheduler suspended. -/
  | waitSuspended
  /-- `xTaskPriorityDisinherit` of a mutex that another task holds. -/
  | notHolder
deriving DecidableEq, Repr

/-- A mutex: `xMutexHolder`, which is `NULL` when it is available, and `xTasksWaitingToReceive`. -/
structure Mutex where
  holder : Option Task
  waiting : List Task
deriving DecidableEq, Repr

/-- The state of the kernel and the static pointer of `app_printf`. -/
structure Kernel where
  /-- `pxCurrentTCB`. -/
  current : Task
  /-- `uxCriticalNesting`. -/
  criticalNesting : ℕ
  /-- `uxSchedulerSuspended`. -/
  schedulerSuspended : ℕ
  /-- The mutexes created so far; a handle is a place in this list. -/
  mutexes : List Mutex
  printfMutex : Option ℕ
deriving DecidableEq, Repr

/-- Who executes a call. -/
inductive Context where
  | task
  | interrupt
deriving DecidableEq, Repr

/-- A sequence of calls succeeds if each of them does. -/
theorem bind_ok {ε α β : Type} {x : Except ε α} {f : α → Except ε β} {b : β} :
    x >>= f = .ok b ↔ ∃ a, x = .ok a ∧ f a = .ok b := by
  cases x with
  | error e => simp [bind, Except.bind]
  | ok a => simp [bind, Except.bind]

/-! ### Critical sections and the scheduler -/

/-- `vPortEnterCritical`. -/
def vPortEnterCritical (c : Context) (k : Kernel) : Except Assertion Kernel :=
  let nesting := k.criticalNesting + 1
  if nesting = 1 ∧ c = .interrupt then .error .vectActive
  else .ok { k with criticalNesting := nesting }

/-- `vPortExitCritical`. -/
def vPortExitCritical (k : Kernel) : Except Assertion Kernel :=
  if k.criticalNesting = 0 then .error .criticalNesting
  else .ok { k with criticalNesting := k.criticalNesting - 1 }

/-- A critical section around an operation. -/
def critical (c : Context) (op : Kernel → Except Assertion Kernel) (k : Kernel) :
    Except Assertion Kernel := do
  vPortExitCritical (← op (← vPortEnterCritical c k))

/-- `vTaskSuspendAll`. -/
def vTaskSuspendAll (k : Kernel) : Kernel :=
  { k with schedulerSuspended := k.schedulerSuspended + 1 }

/-- `xTaskResumeAll`. -/
def xTaskResumeAll (c : Context) (k : Kernel) : Except Assertion Kernel :=
  if k.schedulerSuspended = 0 then .error .schedulerSuspended
  else critical c (fun k => .ok { k with schedulerSuspended := k.schedulerSuspended - 1 }) k

/-- `xTaskGetSchedulerState() == taskSCHEDULER_RUNNING`, once the scheduler has been started. -/
def schedulerRunning (k : Kernel) : Bool := k.schedulerSuspended = 0

/-! ### The mutex -/

/-- The mutex of a handle. -/
def Kernel.mutex (k : Kernel) (h : ℕ) : Option Mutex := k.mutexes[h]?

def Kernel.setMutex (k : Kernel) (h : ℕ) (m : Mutex) : Kernel :=
  { k with mutexes := k.mutexes.set h m }

/-- `prvInitialiseMutex` of a new queue: an available mutex, given once in a critical section. -/
def prvInitialiseMutex (c : Context) (k : Kernel) : Except Assertion (Kernel × ℕ) := do
  let k' ← critical c (fun k => .ok { k with mutexes := k.mutexes ++ [⟨none, []⟩] }) k
  .ok (k', k.mutexes.length)

/-- The checks of `xSemaphoreTake` before its loop. -/
def takeChecks (k : Kernel) (h : Option ℕ) : Except Assertion ℕ :=
  match h with
  | none => .error .queueNull
  | some h => if schedulerRunning k then .ok h else .error .waitSuspended

/-- The critical section of `xSemaphoreTake`: whether the mutex was available and is taken now. -/
def tryTake (c : Context) (k : Kernel) (h : ℕ) : Except Assertion (Kernel × Bool) := do
  let k ← vPortEnterCritical c k
  match k.mutex h with
  | some ⟨none, waiting⟩ =>
      .ok (← vPortExitCritical (k.setMutex h ⟨some k.current, waiting⟩), true)
  | _ => .ok (← vPortExitCritical k, false)

/-- `xSemaphoreTake` with the scheduler suspended: it waits if the mutex is still not available.
`true` says that the task is on the list of the waiting tasks. -/
def prepareWait (c : Context) (k : Kernel) (h : ℕ) : Except Assertion (Kernel × Bool) := do
  let k ← critical c .ok k  -- prvLockQueue
  match k.mutex h with
  | some ⟨some holder, waiting⟩ =>
      .ok (← xTaskResumeAll c (k.setMutex h ⟨some holder, waiting ++ [k.current]⟩), true)
  | _ => .ok (← xTaskResumeAll c k, false)

/-- `xTaskRemoveFromEventList`: one of the waiting tasks is woken, the wanted one if it waits. -/
def wake (waiting : List Task) (wanted : Task) : List Task :=
  if wanted ∈ waiting then waiting.erase wanted else waiting.tail

/-- `xSemaphoreGive`: nothing on an available mutex; else the holder gives it and one of the
waiting tasks is woken.  Which one depends on their priorities. -/
def xSemaphoreGive (c : Context) (k : Kernel) (h : Option ℕ) (wanted : Task) :
    Except Assertion Kernel :=
  match h with
  | none => .error .queueNull
  | some h =>
      critical c (fun k =>
        match k.mutex h with
        | some ⟨some holder, waiting⟩ =>
            if holder ≠ k.current then .error .notHolder
            else .ok (k.setMutex h ⟨none, wake waiting wanted⟩)
        | _ => .ok k) k

end PeripheralTester.Firmware
