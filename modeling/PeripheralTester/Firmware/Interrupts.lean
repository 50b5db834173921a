import PeripheralTester.Firmware.Printf

/-! # Callbacks that log

`HAL_UART_ErrorCallback` calls `APP_LOG` in its interrupt, where every kernel call of the logger
that enters a critical section fails the assertion of `vPortEnterCritical`; the error callbacks of
the SPI and the I2C module only set their flag.  `printfInInterrupt_eq` says what the logger does
in an interrupt: it stops the processor unless the mutex exists already and the interrupted task
has the scheduler suspended, when it neither takes nor gives.

`callbacks_harmless_iff` turns this into the exact condition on runs. -/

namespace PeripheralTester.Firmware

open Lib

variable {k k' : Kernel} {s s' : System}

/-! ### Kernel calls of a task -/

/-- What a kernel call of a task leaves as it was. -/
structure CallFrame (k k' : Kernel) : Prop where
  nesting : k'.criticalNesting = k.criticalNesting
  current : k'.current = k.current

theorem CallFrame.refl (k : Kernel) : CallFrame k k := ⟨rfl, rfl⟩

theorem CallFrame.trans {k₁ : Kernel} (h₁ : CallFrame k k₁) (h₂ : CallFrame k₁ k') :
    CallFrame k k' :=
  ⟨h₂.nesting.trans h₁.nesting, h₂.current.trans h₁.current⟩

/-- A task enters critical sections as it likes. -/
theorem vPortEnterCritical_task (k : Kernel) :
    vPortEnterCritical .task k = .ok { k with criticalNesting := k.criticalNesting + 1 } := by
  simp [vPortEnterCritical]

theorem vPortExitCritical_ok (h : vPortExitCritical k = .ok k') :
    k'.criticalNesting + 1 = k.criticalNesting ∧ k'.current = k.current ∧
      k'.schedulerSuspended = k.schedulerSuspended := by
  unfold vPortExitCritical at h
  split at h
  · cases h
  · obtain rfl := Except.ok.inj h
    refine ⟨?_, rfl, rfl⟩
    simp only
    omega

theorem critical_task {op : Kernel → Except Assertion Kernel} (h : critical .task op k = .ok k') :
    ∃ k₁, op { k with criticalNesting := k.criticalNesting + 1 } = .ok k₁ ∧
      vPortExitCritical k₁ = .ok k' := by
  unfold critical at h
  obtain ⟨k₀, henter, h⟩ := bind_ok.mp h
  obtain rfl := Except.ok.inj ((vPortEnterCritical_task k).symm.trans henter)
  exact bind_ok.mp h

/-- `xTaskResumeAll` succeeds with a suspended scheduler. -/
theorem xTaskResumeAll_task (h : xTaskResumeAll .task k = .ok k') :
    CallFrame k k' ∧ k'.schedulerSuspended + 1 = k.schedulerSuspended := by
  unfold xTaskResumeAll at h
  split at h
  · cases h
  · obtain ⟨k₁, hop, hexit⟩ := critical_task h
    obtain ⟨hnesting, hcurrent, hsuspended⟩ := vPortExitCritical_ok hexit
    obtain rfl := Except.ok.inj hop
    refine ⟨⟨?_, hcurrent⟩, ?_⟩
    · simpa using hnesting
    · simp only at hsuspended
      omega

theorem xTaskResumeAll_task_isOk (h : k.schedulerSuspended ≠ 0) :
    ∃ k', xTaskResumeAll .task k = .ok k' := by
  unfold xTaskResumeAll
  rw [if_neg h]
  simp [critical, vPortEnterCritical_task, vPortExitCritical, bind, Except.bind]

/-- What a critical section leaves as it was, if its operation does. -/
theorem critical_frame {op : Kernel → Except Assertion Kernel}
    (hop : ∀ k₀ k₁, op k₀ = .ok k₁ →
      CallFrame k₀ k₁ ∧ k₁.schedulerSuspended = k₀.schedulerSuspended)
    (h : critical .task op k = .ok k') :
    CallFrame k k' ∧ k'.schedulerSuspended = k.schedulerSuspended := by
  obtain ⟨k₁, hk₁, hexit⟩ := critical_task h
  obtain ⟨hnesting, hcurrent, hsuspended⟩ := vPortExitCritical_ok hexit
  obtain ⟨hframe, hsame⟩ := hop _ _ hk₁
  have hinner := hframe.nesting
  refine ⟨⟨?_, hcurrent.trans hframe.current⟩, hsuspended.trans hsame⟩
  simp only at hinner
  omega

theorem prvInitialiseMutex_task {h : ℕ} (hk : prvInitialiseMutex .task k = .ok (k', h)) :
    CallFrame k k' ∧ k'.schedulerSuspended = k.schedulerSuspended := by
  obtain ⟨k₁, hcritical, hk⟩ := bind_ok.mp hk
  obtain ⟨rfl, -⟩ := Prod.mk.inj (Except.ok.inj hk)
  apply critical_frame _ hcritical
  intro k₀ k₂ hop
  obtain rfl := Except.ok.inj hop
  exact ⟨⟨rfl, rfl⟩, rfl⟩

theorem tryTake_task {h : ℕ} {taken : Bool} (hk : tryTake .task k h = .ok (k', taken)) :
    CallFrame k k' ∧ k'.schedulerSuspended = k.schedulerSuspended := by
  obtain ⟨k₀, henter, hk⟩ := bind_ok.mp hk
  obtain rfl := Except.ok.inj ((vPortEnterCritical_task k).symm.trans henter)
  split at hk <;> obtain ⟨k₁, hexit, hk⟩ := bind_ok.mp hk
  all_goals
    obtain ⟨rfl, -⟩ := Prod.mk.inj (Except.ok.inj hk)
    obtain ⟨hnesting, hcurrent, hsuspended⟩ := vPortExitCritical_ok hexit
    exact ⟨⟨by simpa [Kernel.setMutex] using hnesting, hcurrent⟩, hsuspended⟩

theorem prepareWait_task {h : ℕ} {waits : Bool} (hk : prepareWait .task k h = .ok (k', waits)) :
    CallFrame k k' ∧ k'.schedulerSuspended + 1 = k.schedulerSuspended := by
  obtain ⟨k₁, hlock, hk⟩ := bind_ok.mp hk
  have hlocked : CallFrame k k₁ ∧ k₁.schedulerSuspended = k.schedulerSuspended := by
    apply critical_frame _ hlock
    intro k₀ k₂ hop
    obtain rfl := Except.ok.inj hop
    exact ⟨⟨rfl, rfl⟩, rfl⟩
  split at hk <;> obtain ⟨k₂, hresume, hk⟩ := bind_ok.mp hk
  all_goals
    obtain ⟨rfl, -⟩ := Prod.mk.inj (Except.ok.inj hk)
    obtain ⟨hframe, hresumed⟩ := xTaskResumeAll_task hresume
    exact ⟨hlocked.1.trans ⟨hframe.nesting, hframe.current⟩, hresumed.trans hlocked.2⟩

theorem xSemaphoreGive_task {h : Option ℕ} {wanted : Task}
    (hk : xSemaphoreGive .task k h wanted = .ok k') :
    CallFrame k k' ∧ k'.schedulerSuspended = k.schedulerSuspended := by
  unfold xSemaphoreGive at hk
  split at hk
  · cases hk
  · apply critical_frame _ hk
    intro k₀ k₁ hop
    split at hop
    · split at hop
      · cases hop
      · obtain rfl := Except.ok.inj hop
        exact ⟨⟨rfl, rfl⟩, rfl⟩
    · obtain rfl := Except.ok.inj hop
      exact ⟨⟨rfl, rfl⟩, rfl⟩

/-! ### Steps of `app_printf` in a task -/

/-- How often a place of `app_printf` has suspended the scheduler. -/
def PrintfPc.suspends : PrintfPc → ℕ
  | .malloc | .prepareWait _ => 1
  | _ => 0

/-- The same after a step; nothing is suspended after the return. -/
def suspendsNext : Option PrintfPc → ℕ
  | some pc => pc.suspends
  | none => 0

/-- A step of `app_printf` keeps the count of suspensions right. -/
theorem printfStep_task {mallocs : Bool} {wanted : Task} {pc : PrintfPc} {next : Option PrintfPc}
    (h : printfStep .task mallocs wanted k pc = .ok (k', next)) :
    CallFrame k k' ∧
      k'.schedulerSuspended + pc.suspends = k.schedulerSuspended + suspendsNext next := by
  cases pc with
  | test =>
      obtain ⟨rfl, rfl⟩ := Prod.mk.inj (Except.ok.inj h)
      refine ⟨.refl k, ?_⟩
      split <;> rfl
  | create =>
      obtain ⟨rfl, rfl⟩ := Prod.mk.inj (Except.ok.inj h)
      exact ⟨⟨rfl, rfl⟩, rfl⟩
  | malloc =>
      obtain ⟨k₁, hresume, h⟩ := bind_ok.mp h
      obtain ⟨rfl, rfl⟩ := Prod.mk.inj (Except.ok.inj h)
      obtain ⟨hframe, hresumed⟩ := xTaskResumeAll_task hresume
      refine ⟨hframe, ?_⟩
      split <;> exact hresumed
  | initialise =>
      obtain ⟨⟨k₁, n⟩, hinit, h⟩ := bind_ok.mp h
      obtain ⟨rfl, rfl⟩ := Prod.mk.inj (Except.ok.inj h)
      exact prvInitialiseMutex_task hinit
  | store n =>
      obtain ⟨rfl, rfl⟩ := Prod.mk.inj (Except.ok.inj h)
      exact ⟨⟨rfl, rfl⟩, rfl⟩
  | check =>
      obtain ⟨rfl, rfl⟩ := Prod.mk.inj (Except.ok.inj h)
      refine ⟨.refl k, ?_⟩
      split <;> rfl
  | callTake =>
      obtain ⟨n, _, h⟩ := bind_ok.mp h
      obtain ⟨rfl, rfl⟩ := Prod.mk.inj (Except.ok.inj h)
      exact ⟨.refl k, rfl⟩
  | take n =>
      obtain ⟨⟨k₁, taken⟩, htake, h⟩ := bind_ok.mp h
      obtain ⟨rfl, rfl⟩ := Prod.mk.inj (Except.ok.inj h)
      obtain ⟨hframe, hsame⟩ := tryTake_task htake
      refine ⟨hframe, ?_⟩
      split <;> exact hsame
  | suspend n =>
      obtain ⟨rfl, rfl⟩ := Prod.mk.inj (Except.ok.inj h)
      exact ⟨⟨rfl, rfl⟩, rfl⟩
  | prepareWait n =>
      obtain ⟨⟨k₁, waits⟩, hwait, h⟩ := bind_ok.mp h
      obtain ⟨rfl, rfl⟩ := Prod.mk.inj (Except.ok.inj h)
      obtain ⟨hframe, hresumed⟩ := prepareWait_task hwait
      refine ⟨hframe, ?_⟩
      split <;> exact hresumed
  | waiting n =>
      obtain ⟨rfl, rfl⟩ := Prod.mk.inj (Except.ok.inj h)
      exact ⟨.refl k, rfl⟩
  | transmit =>
      obtain ⟨rfl, rfl⟩ := Prod.mk.inj (Except.ok.inj h)
      exact ⟨.refl k, rfl⟩
  | checkGive =>
      obtain ⟨rfl, rfl⟩ := Prod.mk.inj (Except.ok.inj h)
      refine ⟨.refl k, ?_⟩
      split <;> rfl
  | callGive =>
      obtain ⟨k₁, hgive, h⟩ := bind_ok.mp h
      obtain ⟨rfl, rfl⟩ := Prod.mk.inj (Except.ok.inj h)
      exact xSemaphoreGive_task hgive

/-! ### The logger in an interrupt -/

/-- In an interrupt the logger returns if the mutex exists and the scheduler is suspended, and
else its first critical section fails. -/
theorem printfInInterrupt_eq (hk : k.criticalNesting = 0) (mallocs : Bool) (wanted : Task) :
    printfInInterrupt mallocs wanted printfSteps k .test =
      if k.printfMutex ≠ none ∧ k.schedulerSuspended ≠ 0 then .ok k
      else .error (.assertion .interrupt .vectActive) := by
  cases hm : k.printfMutex with
  | none =>
      simp [printfSteps, printfInInterrupt, printfStep, hm, vTaskSuspendAll, xTaskResumeAll,
        critical, vPortEnterCritical, hk, bind, Except.bind]
  | some h =>
      by_cases hs : k.schedulerSuspended = 0
      · simp [printfSteps, printfInInterrupt, printfStep, hm, hs, mutexUsable, schedulerRunning,
          takeChecks, tryTake, vPortEnterCritical, hk, bind, Except.bind]
      · simp [printfSteps, printfInInterrupt, printfStep, hm, hs, mutexUsable, schedulerRunning]

/-! ### What a move does -/

/-- The moves, taken apart. -/
inductive Moved (s : System) : Move → System → Prop
  | switchTo {t : Task} (hrunning : schedulerRunning s.kernel = true) (hready : s.ready t = true) :
      Moved s (.switchTo t) { s with kernel := { s.kernel with current := t } }
  | callPrintf (hp : s.place s.kernel.current = .app) :
      Moved s .callPrintf (s.goto (.printf .test none))
  | printf {mallocs : Bool} {wanted : Task} {pc : PrintfPc} {abort : Option Transfer}
      (hp : s.place s.kernel.current = .printf pc abort)
      (hready : s.ready s.kernel.current = true) :
      Moved s (.printf mallocs wanted) (taskPrintf s mallocs wanted pc abort)
  | startTransfer {t : Transfer} {tick : UInt32} (hp : s.place s.kernel.current = .app)
      (htask : t.task = s.kernel.current) :
      Moved s (.startTransfer t tick)
        ({ s with flags := s.flags.clear t.cleared }.goto (.poll t tick))
  | pollDelay {now : UInt32} {t : Transfer} {startTick : UInt32}
      (hp : s.place s.kernel.current = .poll t startTick)
      (hpoll : t.poll s.flags startTick now = .delay) :
      Moved s (.poll now) (s.goto (.delay t startTick))
  | pollLeft {now : UInt32} {t : Transfer} {startTick : UInt32}
      (hp : s.place s.kernel.current = .poll t startTick)
      (hpoll : t.poll s.flags startTick now ≠ .delay) :
      Moved s (.poll now) (s.goto (.left t (t.poll s.flags startTick now)))
  | delayOver {task : Task} {t : Transfer} {startTick : UInt32}
      (hrunning : schedulerRunning s.kernel = true) (hp : s.place task = .delay t startTick) :
      Moved s (.delayOver task)
        { s with place := Function.update s.place task (.poll t startTick) }
  | leave {t : Transfer} {how : Poll} (hp : s.place s.kernel.current = .left t how) :
      Moved s .leave (s.leave t how)
  | suspendAll (hp : s.place s.kernel.current = .app) :
      Moved s .suspendAll ({ s with kernel := vTaskSuspendAll s.kernel }.goto .suspended)
  | resumeAll {k : Kernel} (hp : s.place s.kernel.current = .suspended)
      (hresume : xTaskResumeAll .task s.kernel = .ok k) :
      Moved s .resumeAll ({ s with kernel := k }.goto .app)
  | resumeAllFails {a : Assertion} (hp : s.place s.kernel.current = .suspended)
      (hresume : xTaskResumeAll .task s.kernel = .error a) :
      Moved s .resumeAll { s with halted := some (.assertion .task a) }
  | interrupt {cb : Callback} {mallocs : Bool} {wanted : Task}
      (hnesting : s.kernel.criticalNesting = 0) :
      Moved s (.interrupt cb mallocs wanted) (interrupt s cb mallocs wanted)

theorem move_cases {m : Move} (h : move s m = some s') : Moved s m s' := by
  unfold move at h
  split at h
  case h_1 =>
    split at h
    · rename_i hswitch
      obtain rfl := Option.some.inj h
      obtain ⟨hrunning, hready⟩ := Bool.and_eq_true_iff.mp hswitch
      exact .switchTo hrunning hready
    · cases h
  case h_2 hp =>
    obtain rfl := Option.some.inj h
    exact .callPrintf hp
  case h_3 hp =>
    split at h
    · rename_i hready
      obtain rfl := Option.some.inj h
      exact .printf hp hready
    · cases h
  case h_4 hp =>
    split at h
    · rename_i htask
      obtain rfl := Option.some.inj h
      exact .startTransfer hp htask
    · cases h
  case h_5 hp =>
    split at h <;> obtain rfl := Option.some.inj h
    · rename_i hpoll
      exact .pollDelay hp hpoll
    · rename_i hpoll
      exact .pollLeft hp hpoll
  case h_6 =>
    split at h
    · rename_i hp
      split at h
      · rename_i hrunning
        obtain rfl := Option.some.inj h
        exact .delayOver hrunning hp
      · cases h
    · cases h
  case h_7 hp =>
    obtain rfl := Option.some.inj h
    exact .leave hp
  case h_8 hp =>
    obtain rfl := Option.some.inj h
    exact .suspendAll hp
  case h_9 hp =>
    split at h <;> rename_i hresume <;> obtain rfl := Option.some.inj h
    · exact .resumeAllFails hp hresume
    · exact .resumeAll hp hresume
  case h_10 =>
    split at h
    · rename_i hnesting
      obtain rfl := Option.some.inj h
      exact .interrupt hnesting
    · cases h
  case h_11 => cases h

/-! ### The invariant -/

/-- How often a task has suspended the scheduler. -/
def Place.suspends : Place → ℕ
  | .suspended => 1
  | .printf pc _ => pc.suspends
  | _ => 0

/-- Between two steps no critical section is open, and only the current task can have suspended
the scheduler. -/
structure Settled (s : System) : Prop where
  nesting : s.kernel.criticalNesting = 0
  suspended : s.kernel.schedulerSuspended = (s.place s.kernel.current).suspends
  others : ∀ t, t ≠ s.kernel.current → (s.place t).suspends = 0

theorem settled_init (first : Task) : Settled (.init first) := ⟨rfl, rfl, fun _ _ => rfl⟩

/-- The current task goes on and the count of suspensions follows. -/
theorem Settled.goto {k : Kernel} {f : Flags} {p : Place} (hs : Settled s)
    (hk : CallFrame s.kernel k)
    (hsuspended : k.schedulerSuspended + (s.place s.kernel.current).suspends =
      s.kernel.schedulerSuspended + p.suspends) :
    Settled ({ s with kernel := k, flags := f }.goto p) where
  nesting := hk.nesting.trans hs.nesting
  suspended := by
    have hsame := hs.suspended
    simp only [System.goto, Function.update_self]
    omega
  others := by
    intro t ht
    simp only [System.goto, hk.current] at ht ⊢
    rw [Function.update_of_ne ht]
    exact hs.others t ht

/-- It goes on without a kernel call. -/
theorem Settled.goto_app {f : Flags} {p : Place} (hs : Settled s)
    (hp : (s.place s.kernel.current).suspends = p.suspends) :
    Settled ({ s with flags := f }.goto p) :=
  hs.goto (.refl _) (by rw [hp])

theorem taskPrintf_settled {mallocs : Bool} {wanted : Task} {pc : PrintfPc}
    {abort : Option Transfer} (hp : s.place s.kernel.current = .printf pc abort)
    (hs : Settled s) : Settled (taskPrintf s mallocs wanted pc abort) := by
  have hpc : (s.place s.kernel.current).suspends = pc.suspends := by rw [hp]; rfl
  unfold taskPrintf
  split
  · exact ⟨hs.nesting, hs.suspended, hs.others⟩
  · rename_i k next h
    obtain ⟨hframe, hsuspended⟩ := printfStep_task h
    exact hs.goto (f := s.flags) hframe (by rw [hpc]; exact hsuspended)
  · rename_i k h
    obtain ⟨hframe, hsuspended⟩ := printfStep_task h
    unfold System.printfReturn
    split
    · exact hs.goto hframe (by rw [hpc]; exact hsuspended)
    · exact hs.goto (f := s.flags) hframe (by rw [hpc]; exact hsuspended)

/-- What an interrupt does: it changes flags, or it stops the processor in the logger. -/
theorem interrupt_cases (hs : Settled s) (cb : Callback) (mallocs : Bool) (wanted : Task) :
    (interrupt s cb mallocs wanted = { s with flags := cb.store s.flags } ∧
      (cb.logs = true → s.kernel.printfMutex ≠ none ∧ s.kernel.schedulerSuspended ≠ 0)) ∨
    (interrupt s cb mallocs wanted =
        { s with
          flags := cb.store s.flags
          halted := some (.assertion .interrupt .vectActive) } ∧
      cb.logs = true ∧ ¬(s.kernel.printfMutex ≠ none ∧ s.kernel.schedulerSuspended ≠ 0)) := by
  unfold interrupt
  by_cases hlogs : cb.logs
  · simp only [hlogs, if_true, printfInInterrupt_eq hs.nesting]
    by_cases hsilent : s.kernel.printfMutex ≠ none ∧ s.kernel.schedulerSuspended ≠ 0
    · left
      rw [if_pos hsilent]
      exact ⟨rfl, fun _ => hsilent⟩
    · right
      rw [if_neg hsilent]
      exact ⟨rfl, trivial, hsilent⟩
  · left
    simp only [hlogs, Bool.false_eq_true, if_false, false_implies, and_self]

/-- With a running scheduler no task has it suspended. -/
theorem Settled.none_suspends (hs : Settled s) (hrunning : schedulerRunning s.kernel = true)
    (t : Task) : (s.place t).suspends = 0 := by
  have hzero : s.kernel.schedulerSuspended = 0 := of_decide_eq_true hrunning
  by_cases ht : t = s.kernel.current
  · rw [ht, ← hs.suspended, hzero]
  · exact hs.others t ht

theorem leave_settled {t : Transfer} {how : Poll} (hp : s.place s.kernel.current = .left t how)
    (hs : Settled s) : Settled (s.leave t how) := by
  have hleft : (s.place s.kernel.current).suspends = 0 := by rw [hp]; rfl
  unfold System.leave
  split
  · exact hs.goto_app (f := s.flags) hleft
  · split
    · exact hs.goto_app (f := s.flags) hleft
    · exact hs.goto_app hleft

theorem interrupt_settled (hs : Settled s) (cb : Callback) (mallocs : Bool) (wanted : Task) :
    Settled (interrupt s cb mallocs wanted) := by
  rcases interrupt_cases hs cb mallocs wanted with ⟨h, _⟩ | ⟨h, _⟩ <;> rw [h]
  · exact ⟨hs.nesting, hs.suspended, hs.others⟩
  · exact ⟨hs.nesting, hs.suspended, hs.others⟩

theorem move_settled {m : Move} (h : move s m = some s') (hs : Settled s) : Settled s' := by
  cases move_cases h with
  | switchTo hrunning =>
      have hnone := hs.none_suspends hrunning
      have hzero : s.kernel.schedulerSuspended = 0 := of_decide_eq_true hrunning
      exact ⟨hs.nesting, hzero.trans (hnone _).symm, fun t' _ => hnone t'⟩
  | callPrintf hp => exact hs.goto_app (f := s.flags) (by rw [hp]; rfl)
  | printf hp => exact taskPrintf_settled hp hs
  | startTransfer hp => exact hs.goto_app (by rw [hp]; rfl)
  | pollDelay hp => exact hs.goto_app (f := s.flags) (by rw [hp]; rfl)
  | pollLeft hp => exact hs.goto_app (f := s.flags) (by rw [hp]; rfl)
  | @delayOver task t startTick hrunning =>
      have hnone := hs.none_suspends hrunning
      have hzero : s.kernel.schedulerSuspended = 0 := of_decide_eq_true hrunning
      have hupdate : ∀ t', (Function.update s.place task (.poll t startTick) t').suspends = 0 :=
        (Function.forall_update_iff _ fun _ p => Place.suspends p = 0).mpr
          ⟨rfl, fun t' _ => hnone t'⟩
      exact ⟨hs.nesting, hzero.trans (hupdate _).symm, fun t' _ => hupdate t'⟩
  | leave hp => exact leave_settled hp hs
  | suspendAll hp =>
      exact hs.goto (k := vTaskSuspendAll s.kernel) (f := s.flags) ⟨rfl, rfl⟩ (by rw [hp]; rfl)
  | resumeAll hp hresume =>
      obtain ⟨hframe, hresumed⟩ := xTaskResumeAll_task hresume
      exact hs.goto (f := s.flags) hframe (by rw [hp]; exact hresumed)
  | resumeAllFails => exact ⟨hs.nesting, hs.suspended, hs.others⟩
  | interrupt => exact interrupt_settled hs _ _ _

theorem System.step_some {m : Move} (h : s.step m = some s') :
    s.halted = none ∧ move s m = some s' := by
  unfold System.step at h
  split at h
  · cases h
  · rename_i hrunning
    exact ⟨hrunning, h⟩

theorem step_settled {m : Move} (h : s.step m = some s') (hs : Settled s) : Settled s' :=
  move_settled (System.step_some h).2 hs

/-! ### Leaving the wait loop -/

/-- The task is in the wait loop of a transfer helper. -/
def Waits (s : System) (t : Task) : Prop :=
  ∃ tr tick, s.place t = .poll tr tick ∨ s.place t = .delay tr tick

/-- No move is an interrupt. -/
def Quiet (ls : List Move) : Prop := ∀ cb mallocs wanted, .interrupt cb mallocs wanted ∉ ls

/-- Without further interrupts the task can leave the wait loop: done, with an error, or with a
timeout. -/
def CanLeave (s : System) (t : Task) : Prop :=
  ∃ ls s' tr how, Run System.step s ls s' ∧ Quiet ls ∧ how ≠ .delay ∧ s'.place t = .left tr how

theorem CanLeave.of_step {m : Move} {t : Task}
    (hm : ∀ cb mallocs wanted, m ≠ .interrupt cb mallocs wanted) (h : s.step m = some s')
    (hleave : CanLeave s' t) : CanLeave s t := by
  obtain ⟨ls, s₁, tr, how, hrun, hquiet, hhow, hp⟩ := hleave
  refine ⟨m :: ls, s₁, tr, how, .step h hrun, ?_, hhow, hp⟩
  intro cb mallocs wanted hmem
  rcases List.mem_cons.mp hmem with heq | hmem
  · exact hm cb mallocs wanted heq.symm
  · exact hquiet cb mallocs wanted hmem

theorem System.step_of_running (hrunning : s.halted = none) (m : Move) : s.step m = move s m := by
  unfold System.step
  rw [hrunning]

/-- The current task leaves the wait loop with a late poll. -/
theorem canLeave_of_current {tr : Transfer} {tick : UInt32} (hrunning : s.halted = none)
    (hp : s.place s.kernel.current = .poll tr tick) : CanLeave s s.kernel.current := by
  have hlate := tr.poll_late s.flags tick
  refine ⟨[.poll (tick + 1001)], s.goto (.left tr (tr.poll s.flags tick (tick + 1001))), tr, _,
    .single ?_, ?_, hlate, Function.update_self ..⟩
  · rw [System.step_of_running hrunning]
    simp only [move, hp]
  · intro cb mallocs wanted hmem
    cases List.mem_singleton.mp hmem

theorem canLeave_of_poll {t : Task} {tr : Transfer} {tick : UInt32} (hrunning : s.halted = none)
    (hscheduler : schedulerRunning s.kernel = true) (hp : s.place t = .poll tr tick) :
    CanLeave s t := by
  apply CanLeave.of_step (m := .switchTo t) (fun _ _ _ => by simp)
  · rw [System.step_of_running hrunning, move, hscheduler, System.ready, hp]
    rfl
  · exact canLeave_of_current (s := { s with kernel := { s.kernel with current := t } }) hrunning hp

theorem canLeave_of_schedulerRunning {t : Task} (hrunning : s.halted = none)
    (hscheduler : schedulerRunning s.kernel = true) (hwaits : Waits s t) : CanLeave s t := by
  obtain ⟨tr, tick, hp | hp⟩ := hwaits
  · exact canLeave_of_poll hrunning hscheduler hp
  · apply CanLeave.of_step (m := .delayOver t) (fun _ _ _ => by simp)
    · rw [System.step_of_running hrunning, move, hp]
      simp only
      rw [if_pos hscheduler]
    · exact canLeave_of_poll (s := { s with place := Function.update s.place t (.poll tr tick) })
        hrunning hscheduler (Function.update_self ..)

/-- Where `app_printf` has the scheduler suspended, its next step resumes it. -/
theorem printfStep_resumes {pc : PrintfPc} (hpc : pc.suspends ≠ 0)
    (hscheduler : k.schedulerSuspended ≠ 0) (mallocs : Bool) (wanted : Task) :
    ∃ k' next, printfStep .task mallocs wanted k pc = .ok (k', some next) ∧ next.suspends = 0 := by
  cases pc with
  | malloc =>
      obtain ⟨k', hk'⟩ := xTaskResumeAll_task_isOk hscheduler
      refine ⟨k', _, bind_ok.mpr ⟨k', hk', rfl⟩, ?_⟩
      split <;> rfl
  | prepareWait h =>
      have hlock : critical .task .ok k = .ok k := by
        simp [critical, vPortEnterCritical_task, vPortExitCritical, bind, Except.bind]
      cases hm : k.mutex h with
      | none =>
          obtain ⟨k', hk'⟩ := xTaskResumeAll_task_isOk hscheduler
          refine ⟨k', .take h, ?_, rfl⟩
          simp [printfStep, prepareWait, hlock, hm, hk', bind, Except.bind]
      | some m =>
          obtain ⟨holder, waiting⟩ := m
          cases holder with
          | none =>
              obtain ⟨k', hk'⟩ := xTaskResumeAll_task_isOk hscheduler
              refine ⟨k', .take h, ?_, rfl⟩
              simp [printfStep, prepareWait, hlock, hm, hk', bind, Except.bind]
          | some holder =>
              obtain ⟨k', hk'⟩ := xTaskResumeAll_task_isOk
                (k := k.setMutex h ⟨some holder, waiting ++ [k.current]⟩) hscheduler
              refine ⟨k', .waiting h, ?_, rfl⟩
              simp [printfStep, prepareWait, hlock, hm, hk', bind, Except.bind]
  | test | create | initialise | store _ | check | callTake | take _ | suspend _ | waiting _
  | transmit | checkGive | callGive => exact absurd rfl hpc

/-- The current task can always resume the scheduler it has suspended. -/
theorem exists_resume (hs : Settled s) (hrunning : s.halted = none)
    (hscheduler : s.kernel.schedulerSuspended ≠ 0) :
    ∃ m s', s.step m = some s' ∧ (∀ cb mallocs wanted, m ≠ .interrupt cb mallocs wanted) ∧
      s'.halted = none ∧ schedulerRunning s'.kernel = true ∧
      ∀ t, t ≠ s.kernel.current → s'.place t = s.place t := by
  have hsuspends := hs.suspended
  cases hp : s.place s.kernel.current with
  | suspended =>
      rw [hp] at hsuspends
      obtain ⟨k, hk⟩ := xTaskResumeAll_task_isOk hscheduler
      have hresumed := (xTaskResumeAll_task hk).2
      have hcurrent := (xTaskResumeAll_task hk).1.current
      refine ⟨.resumeAll, { s with kernel := k }.goto .app, ?_, fun _ _ _ => by simp, hrunning,
        ?_, ?_⟩
      · rw [System.step_of_running hrunning]
        simp only [move, hp, hk]
      · apply decide_eq_true
        simp only [Place.suspends] at hsuspends
        simp only [System.goto]
        omega
      · intro t ht
        simp only [System.goto, hcurrent]
        exact Function.update_of_ne ht ..
  | printf pc abort =>
      rw [hp] at hsuspends
      have hpc : pc.suspends ≠ 0 := by
        rw [hsuspends] at hscheduler
        exact hscheduler
      obtain ⟨k, next, hk, hnext⟩ := printfStep_resumes hpc hscheduler false s.kernel.current
      obtain ⟨hframe, hcount⟩ := printfStep_task hk
      have hready : s.ready s.kernel.current = true := by
        unfold System.ready
        rw [hp]
        cases pc <;> first | rfl | exact absurd rfl hpc
      refine ⟨.printf false s.kernel.current, { s with kernel := k }.goto (.printf next abort),
        ?_, fun _ _ _ => by simp, hrunning, ?_, ?_⟩
      · rw [System.step_of_running hrunning]
        simp only [move, hp]
        rw [if_pos hready]
        simp only [taskPrintf, hk]
      · apply decide_eq_true
        simp only [Place.suspends] at hsuspends
        simp only [suspendsNext, hnext] at hcount
        simp only [System.goto]
        omega
      · intro t ht
        simp only [System.goto, hframe.current]
        exact Function.update_of_ne ht ..
  | app | poll _ _ | delay _ _ | left _ _ =>
      rw [hp] at hsuspends
      exact absurd hsuspends hscheduler

/-- A waiting helper can always leave its loop. -/
theorem canLeave_of_settled {t : Task} (hs : Settled s) (hrunning : s.halted = none)
    (hwaits : Waits s t) : CanLeave s t := by
  by_cases hscheduler : s.kernel.schedulerSuspended = 0
  · exact canLeave_of_schedulerRunning hrunning (decide_eq_true hscheduler) hwaits
  · obtain ⟨m, s', hstep, hm, hrunning', hscheduler', hplace⟩ :=
      exists_resume hs hrunning hscheduler
    -- the current task has the scheduler suspended, so it is not in the loop
    have hother : t ≠ s.kernel.current := by
      intro ht
      apply hscheduler
      rw [hs.suspended, ← ht]
      obtain ⟨tr, tick, hp | hp⟩ := hwaits <;> rw [hp] <;> rfl
    apply CanLeave.of_step hm hstep
    apply canLeave_of_schedulerRunning hrunning' hscheduler'
    unfold Waits
    rw [hplace t hother]
    exact hwaits

/-! ### Runs -/

/-- The processor has stopped while a callback was handled. -/
def HaltedByCallback (s : System) : Prop := ∃ h, s.halted = some h ∧ h.InInterrupt

/-- No callback disturbs the tasks: none has stopped the processor, the task a callback interrupts
resumes where it was, and a waiting transfer helper can leave its loop (unless a task has stopped
the processor). -/
structure Undisturbed (s : System) : Prop where
  notHalted : ¬ HaltedByCallback s
  resumes : ∀ cb mallocs wanted s', s.step (.interrupt cb mallocs wanted) = some s' →
    ¬ HaltedByCallback s' → s'.kernel = s.kernel ∧ s'.place = s.place
  leaves : s.halted = none → ∀ t, Waits s t → CanLeave s t

/-- The callback, if any, does not log, or it logs while the mutex exists and the interrupted task
has the scheduler suspended. -/
def Harmless (s : System) : Move → Prop
  | .interrupt cb _ _ =>
      cb.logs = true → s.kernel.printfMutex ≠ none ∧ s.kernel.schedulerSuspended ≠ 0
  | _ => True

instance (s : System) (m : Move) : Decidable (Harmless s m) := by
  unfold Harmless
  split <;> infer_instance

/-- A task that stops the processor does not do so in an interrupt. -/
theorem notHalted_of_task {a : Assertion} (h : s.halted = some (.assertion .task a)) :
    ¬ HaltedByCallback s := by
  rintro ⟨halt, hhalt, hin⟩
  rw [h] at hhalt
  obtain rfl := Option.some.inj hhalt
  cases hin

theorem notHalted_of_none (h : s.halted = none) : ¬ HaltedByCallback s := by
  rintro ⟨halt, hhalt, _⟩
  rw [h] at hhalt
  cases hhalt

theorem taskPrintf_notHalted {mallocs : Bool} {wanted : Task} {pc : PrintfPc}
    {abort : Option Transfer} (hrunning : s.halted = none) :
    ¬ HaltedByCallback (taskPrintf s mallocs wanted pc abort) := by
  unfold taskPrintf
  split
  · exact notHalted_of_task rfl
  · exact notHalted_of_none hrunning
  · unfold System.printfReturn
    split <;> exact notHalted_of_none hrunning

theorem leave_notHalted {t : Transfer} {how : Poll} (hrunning : s.halted = none) :
    ¬ HaltedByCallback (s.leave t how) := by
  unfold System.leave
  split
  · exact notHalted_of_none hrunning
  · split <;> exact notHalted_of_none hrunning

/-- No other move stops the processor in an interrupt. -/
theorem move_notHalted {m : Move} (h : move s m = some s') (hrunning : s.halted = none)
    (hm : ∀ cb mallocs wanted, m ≠ .interrupt cb mallocs wanted) : ¬ HaltedByCallback s' := by
  cases move_cases h with
  | printf => exact taskPrintf_notHalted hrunning
  | leave => exact leave_notHalted hrunning
  | resumeAllFails => exact notHalted_of_task rfl
  | interrupt => exact absurd rfl (hm _ _ _)
  | switchTo | callPrintf | startTransfer | pollDelay | pollLeft | delayOver | suspendAll
  | resumeAll => exact notHalted_of_none hrunning

/-- **Only a logging callback can stop the processor**, and it does so unless it is harmless. -/
theorem step_notHalted_iff {m : Move} (h : s.step m = some s') (hs : Settled s) :
    ¬ HaltedByCallback s' ↔ Harmless s m := by
  obtain ⟨hrunning, h⟩ := System.step_some h
  cases m with
  | interrupt cb mallocs wanted =>
      obtain ⟨_⟩ := move_cases h
      rcases interrupt_cases hs cb mallocs wanted with ⟨heq, hsilent⟩ | ⟨heq, hlogs, hloud⟩
      · rw [heq]
        exact ⟨fun _ => hsilent, fun _ => notHalted_of_none hrunning⟩
      · rw [heq]
        constructor
        · intro hnot
          exact absurd ⟨_, rfl, rfl⟩ hnot
        · intro hharmless
          exact absurd (hharmless hlogs) hloud
  | switchTo _ | callPrintf | printf _ _ | startTransfer _ _ | poll _ | delayOver _ | leave
  | suspendAll | resumeAll =>
      exact iff_of_true (move_notHalted h hrunning fun _ _ _ => by simp) trivial

/-- Nothing moves after the processor has stopped. -/
theorem run_of_halted {h : Halt} {ls : List Move} (hhalted : s.halted = some h)
    (hrun : Run System.step s ls s') : s' = s := by
  cases hrun with
  | refl => rfl
  | step hstep _ => exact absurd ((System.step_some hstep).1.symm.trans hhalted) (by simp)

theorem run_notHalted_iff {ls : List Move} (hrun : Run System.step s ls s') (hs : Settled s)
    (hnot : ¬ HaltedByCallback s) : ¬ HaltedByCallback s' ↔ Meets System.step Harmless s ls := by
  induction hrun with
  | refl => exact iff_of_true hnot trivial
  | @step s s₁ s' m ls hstep hrun ih =>
      have hiff := step_notHalted_iff hstep hs
      rw [meets_cons hstep, ← hiff]
      by_cases hnext : HaltedByCallback s₁
      · obtain ⟨h, hhalted, hin⟩ := hnext
        obtain rfl := run_of_halted hhalted hrun
        exact iff_of_false (not_not.mpr ⟨h, hhalted, hin⟩) fun hmeets => hmeets.1 ⟨h, hhalted, hin⟩
      · rw [ih (step_settled hstep hs) hnext]
        exact ⟨fun hmeets => ⟨hnext, hmeets⟩, And.right⟩

/-- What an interrupt leaves as it was, if it does not stop the processor. -/
theorem interrupt_resumes {cb : Callback} {mallocs : Bool} {wanted : Task} (hs : Settled s)
    (h : s.step (.interrupt cb mallocs wanted) = some s') (hnot : ¬ HaltedByCallback s') :
    s'.kernel = s.kernel ∧ s'.place = s.place := by
  obtain ⟨_, hmove⟩ := System.step_some h
  obtain ⟨_⟩ := move_cases hmove
  rcases interrupt_cases hs cb mallocs wanted with ⟨heq, _⟩ | ⟨heq, _⟩ <;> rw [heq]
  · exact ⟨rfl, rfl⟩
  · exact ⟨rfl, rfl⟩

/-- **When callbacks are harmless**: after any schedule of tasks and interrupts no callback has
disturbed the tasks if and only if every callback of the schedule is a completion callback or an
error callback of the SPI or I2C, or an error callback of the UART while the log mutex exists and
the interrupted task has the scheduler suspended. -/
theorem callbacks_harmless_iff {first : Task} {ls : List Move}
    (h : Run System.step (.init first) ls s) :
    Undisturbed s ↔ Meets System.step Harmless (.init first) ls := by
  have hnot : ¬ HaltedByCallback (.init first) := notHalted_of_none rfl
  have hs : Settled s := h.preserves (fun _ _ _ hs hstep => step_settled hstep hs) (settled_init _)
  rw [← run_notHalted_iff h (settled_init first) hnot]
  constructor
  · exact Undisturbed.notHalted
  · intro hnotHalted
    refine ⟨hnotHalted, ?_, ?_⟩
    · intro cb mallocs wanted s' hstep hnot'
      exact interrupt_resumes hs hstep hnot'
    · intro hrunning t hwaits
      exact canLeave_of_settled hs hrunning hwaits

/-- The dispatcher's first log line. -/
def logLine : List Move := .callPrintf :: List.replicate 11 (.printf true (.other 0))

/-- A test task waits in a transfer. -/
def waitIn (t : Transfer) : List Move := [.switchTo t.task, .startTransfer t 0, .poll 1]

theorem callbacks_harmless_iff_spi :
    ∃ s, Run System.step (.init (.other 0))
        (logLine ++ waitIn .spi ++ [.interrupt (.halSpiError .hspi2) true .spiTest]) s ∧
      Undisturbed s := by
  obtain ⟨s, hs⟩ := Option.isSome_iff_exists.mp (show (exec System.step (.init (.other 0))
    (logLine ++ waitIn .spi ++ [.interrupt (.halSpiError .hspi2) true .spiTest])).isSome by
      decide +kernel)
  have hrun := Run.of_exec hs
  exact ⟨s, hrun, (callbacks_harmless_iff hrun).mpr (by decide +kernel)⟩

/-- A line error during a UART test stops the firmware. -/
theorem line_error_halts :
    ¬ ∀ first ls s, Run System.step (.init first) ls s → Undisturbed s := by
  intro hall
  obtain ⟨s, hs, hhalted⟩ := Option.map_eq_some_iff.mp (show
    (exec System.step (.init (.other 0))
      (logLine ++ waitIn .uart ++ [.interrupt (.halUartError .huart5) true .uartTest])).map
        (fun s => s.halted) = some (some (.assertion .interrupt .vectActive)) by decide +kernel)
  exact (hall _ _ s (.of_exec hs)).notHalted ⟨_, hhalted, rfl⟩

end PeripheralTester.Firmware
