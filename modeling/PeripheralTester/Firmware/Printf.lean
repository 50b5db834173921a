import PeripheralTester.Firmware.Kernel

/-! # The logger under interrupts and task switches

`app_printf` cut at its accesses to the static mutex pointer and at its kernel calls, the tasks
that call it, the transfer helpers that wait for their callbacks, and the callbacks themselves.
`step` moves one of them: the current task, the scheduler, or an interrupt between two steps.

The same `printfStep` is executed by tasks and by an interrupt.  A task is interleaved with the
others after each step; an interrupt runs to its end (`printfInInterrupt`), since the peripherals'
interrupts share one priority. -/

namespace PeripheralTester.Firmware

/-! ### `app_printf` -/

/-- Where `app_printf` is. -/
inductive PrintfPc where
  /-- Before `printf_mutex == NULL`. -/
  | test
  /-- Before `xSemaphoreCreateMutex`, in its `pvPortMalloc`, and before its initialisation. -/
  | create
  | malloc
  | initialise
  /-- Before the store to `printf_mutex`. -/
  | store (h : Option ℕ)
  /-- Before the first test of the pointer and the scheduler, and before `xSemaphoreTake`. -/
  | check
  | callTake
  /-- In the loop of `xSemaphoreTake`: before its critical section, before it suspends the
  scheduler, with the scheduler suspended, and on the list of the waiting tasks. -/
  | take (h : ℕ)
  | suspend (h : ℕ)
  | prepareWait (h : ℕ)
  | waiting (h : ℕ)
  /-- Before `vsnprintf` and `HAL_UART_Transmit`. -/
  | transmit
  /-- Before the second test, and before `xSemaphoreGive`. -/
  | checkGive
  | callGive
deriving DecidableEq, Repr

/-- `(printf_mutex != NULL) && (xTaskGetSchedulerState() == taskSCHEDULER_RUNNING)`. -/
def mutexUsable (k : Kernel) : Bool := k.printfMutex.isSome && schedulerRunning k

/-- A step of `app_printf`; `none` as the next place is its return.  `mallocs` says whether the
heap has room for a mutex. -/
def printfStep (c : Context) (mallocs : Bool) (wanted : Task) (k : Kernel) (pc : PrintfPc) :
    Except Assertion (Kernel × Option PrintfPc) :=
  match pc with
  | .test => .ok (k, some (if k.printfMutex = none then .create else .check))
  | .create => .ok (vTaskSuspendAll k, some .malloc)
  | .malloc => do
      let k ← xTaskResumeAll c k
      .ok (k, some (if mallocs then .initialise else .store none))
  | .initialise => do
      let (k, h) ← prvInitialiseMutex c k
      .ok (k, some (.store (some h)))
  | .store h => .ok ({ k with printfMutex := h }, some .check)
  | .check => .ok (k, some (if mutexUsable k then .callTake else .transmit))
  | .callTake => do
      let h ← takeChecks k k.printfMutex
      .ok (k, some (.take h))
  | .take h => do
      let (k, taken) ← tryTake c k h
      .ok (k, some (if taken then .transmit else .suspend h))
  | .suspend h => .ok (vTaskSuspendAll k, some (.prepareWait h))
  | .prepareWait h => do
      let (k, waits) ← prepareWait c k h
      .ok (k, some (if waits then .waiting h else .take h))
  | .waiting h => .ok (k, some (.take h))
  | .transmit => .ok (k, some .checkGive)
  | .checkGive => .ok (k, if mutexUsable k then some .callGive else none)
  | .callGive => do
      let k ← xSemaphoreGive c k k.printfMutex wanted
      .ok (k, none)

/-- How the processor stops for ever. -/
inductive Halt where
  | assertion (c : Context) (a : Assertion)
  /-- An interrupt waits for a task. -/
  | interruptWaits
deriving DecidableEq, Repr

/-- It stops while an interrupt is handled. -/
def Halt.InInterrupt : Halt → Prop
  | .assertion c _ => c = .interrupt
  | .interruptWaits => True

/-- `app_printf` in an interrupt, from one of its places to its return. -/
def printfInInterrupt (mallocs : Bool) (wanted : Task) : ℕ → Kernel → PrintfPc → Except Halt Kernel
  | 0, _, _ => .error .interruptWaits
  | fuel + 1, k, pc =>
      match pc, printfStep .interrupt mallocs wanted k pc with
      | .waiting _, _ => .error .interruptWaits
      | _, .error a => .error (.assertion .interrupt a)
      | _, .ok (k, none) => .ok k
      | _, .ok (k, some pc) => printfInInterrupt mallocs wanted fuel k pc

/-- More steps than a call of `app_printf` that does not wait can take. -/
def printfSteps : ℕ := 20

/-! ### Tasks -/

/-- Where a task is. -/
inductive Place where
  /-- In any other code. -/
  | app
  /-- In a kernel call that has suspended the scheduler. -/
  | suspended
  /-- In the wait loop of a transfer helper, before a round, and in its `vTaskDelay`. -/
  | poll (t : Transfer) (startTick : UInt32)
  | delay (t : Transfer) (startTick : UInt32)
  /-- After the wait loop. -/
  | left (t : Transfer) (how : Poll)
  /-- In `app_printf`; a failed transfer helper aborts its transfer after it. -/
  | printf (pc : PrintfPc) (abort : Option Transfer)
deriving DecidableEq, Repr

/-- The task of a transfer helper. -/
def Transfer.task : Transfer → Task
  | .uart => .uartTest
  | .spi => .spiTest
  | .i2cMasterToSlave | .i2cSlaveToMaster => .i2cTest

/-- The firmware as far as logging, waiting and callbacks are concerned. -/
structure System where
  kernel : Kernel
  flags : Flags
  place : Task → Place
  halted : Option Halt

/-- The scheduler has been started and all tasks created so far are in their own code. -/
def System.init (first : Task) : System where
  kernel := ⟨first, 0, 0, [], none⟩
  flags := Flags.init
  place := fun _ => .app
  halted := none

/-- The task can be switched to. -/
def System.ready (s : System) (t : Task) : Bool :=
  match s.place t with
  | .delay _ _ => false
  | .printf (.waiting h) _ =>
      match s.kernel.mutex h with
      | some m => t ∉ m.waiting
      | none => true
  | _ => true

/-- The current task goes on at another place. -/
def System.goto (s : System) (p : Place) : System :=
  { s with place := Function.update s.place s.kernel.current p }

/-- The abort function of a transfer, as far as the flags are concerned. -/
def System.abort (s : System) (t : Transfer) : System :=
  { s with flags := s.flags.clear t.abortCleared }

/-- A transfer helper after its wait loop: the UART's logs before it aborts. -/
def System.leave (s : System) (t : Transfer) (how : Poll) : System :=
  if how = .done then s.goto .app
  else if t = .uart then s.goto (.printf .test (some t))
  else (s.abort t).goto .app

/-- The current task returns from `app_printf`. -/
def System.printfReturn (s : System) (abort : Option Transfer) : System :=
  match abort with
  | some t => (s.abort t).goto .app
  | none => s.goto .app

/-- The current task makes a step of `app_printf`. -/
def taskPrintf (s : System) (mallocs : Bool) (wanted : Task) (pc : PrintfPc)
    (abort : Option Transfer) : System :=
  match printfStep .task mallocs wanted s.kernel pc with
  | .error a => { s with halted := some (.assertion .task a) }
  | .ok (k, some pc) => { s with kernel := k }.goto (.printf pc abort)
  | .ok (k, none) => { s with kernel := k }.printfReturn abort

/-- An interrupt whose handler ends in a callback. -/
def interrupt (s : System) (cb : Callback) (mallocs : Bool) (wanted : Task) : System :=
  let s := { s with flags := cb.store s.flags }
  if cb.logs then
    match printfInInterrupt mallocs wanted printfSteps s.kernel .test with
    | .error halt => { s with halted := some halt }
    | .ok k => { s with kernel := k }
  else s

/-! ### Interleaving -/

/-- What moves. -/
inductive Move where
  | switchTo (t : Task)
  | callPrintf
  | printf (mallocs : Bool) (wanted : Task)
  | startTransfer (t : Transfer) (tick : UInt32)
  | poll (now : UInt32)
  | delayOver (t : Task)
  | leave
  | suspendAll
  | resumeAll
  | interrupt (cb : Callback) (mallocs : Bool) (wanted : Task)
deriving DecidableEq, Repr

/-- A step of the running firmware. -/
def move (s : System) (m : Move) : Option System :=
  match m, s.place s.kernel.current with
  | .switchTo t, _ =>
      if schedulerRunning s.kernel && s.ready t then
        some { s with kernel := { s.kernel with current := t } }
      else none
  | .callPrintf, .app => some (s.goto (.printf .test none))
  | .printf mallocs wanted, .printf pc abort =>
      if s.ready s.kernel.current then some (taskPrintf s mallocs wanted pc abort) else none
  | .startTransfer t tick, .app =>
      if t.task = s.kernel.current then
        some ({ s with flags := s.flags.clear t.cleared }.goto (.poll t tick))
      else none
  | .poll now, .poll t startTick =>
      match t.poll s.flags startTick now with
      | .delay => some (s.goto (.delay t startTick))
      | how => some (s.goto (.left t how))
  | .delayOver task, _ =>
      match s.place task with
      | .delay t startTick =>
          if schedulerRunning s.kernel then
            some { s with place := Function.update s.place task (.poll t startTick) }
          else none
      | _ => none
  | .leave, .left t how => some (s.leave t how)
  | .suspendAll, .app => some ({ s with kernel := vTaskSuspendAll s.kernel }.goto .suspended)
  | .resumeAll, .suspended =>
      match xTaskResumeAll .task s.kernel with
      | .error a => some { s with halted := some (.assertion .task a) }
      | .ok k => some ({ s with kernel := k }.goto .app)
  | .interrupt cb mallocs wanted, _ =>
      if s.kernel.criticalNesting = 0 then some (interrupt s cb mallocs wanted) else none
  | _, _ => none

/-- A step, unless the processor has stopped. -/
def System.step (s : System) (m : Move) : Option System :=
  match s.halted with
  | some _ => none
  | none => move s m

end PeripheralTester.Firmware
