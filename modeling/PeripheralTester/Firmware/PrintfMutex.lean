import PeripheralTester.Firmware.Interrupts
import PeripheralTester.Lib.LazyLock

/-! # The mutex of the logger

`app_printf` creates its mutex when it finds the static pointer `NULL`, and nothing keeps two
tasks from finding that at the same time: both create a mutex, the second store replaces the
first, and each task then transmits under a mutex of its own.

The logger is the lock of `Lib.LazyLock` whose parties are the tasks (`System.lock`): a move of
the firmware is a step of the current task there, or none (`move_lock`).  **`log_exclusive`**: if
no task finds `NULL` while another is past its own test, at most one task transmits at a time,
at most one mutex exists, and every give is made by the task that holds the mutex it gives. -/

namespace PeripheralTester.Firmware

open Lib

variable {k k' : Kernel} {s s' : System} {t : Task}

/-! ### The logger as a lock -/

/-- A place of `app_printf` as one of the lock's. -/
def PrintfPc.lockPlace : PrintfPc → Option LazyLock.Place
  | .test => none
  | .create | .malloc | .initialise => some .creating
  | .store h => some (.storing h)
  | .check => some .checking
  | .callTake => some .entering
  | .take h | .suspend h | .prepareWait h | .waiting h => some (.taking h)
  | .transmit => some .busy
  | .checkGive => some .leaving
  | .callGive => some .giving

def Place.lockPlace : Place → Option LazyLock.Place
  | .printf pc _ => pc.lockPlace
  | _ => none

/-- The holders of the mutexes. -/
def Kernel.holders (k : Kernel) : List (Option Task) := k.mutexes.map Mutex.holder

def Kernel.lock (k : Kernel) (place : Task → Option LazyLock.Place) : LazyLock Task :=
  ⟨k.printfMutex, k.holders, place⟩

/-- What matters of the firmware for the mutex of the logger. -/
def System.lock (s : System) : LazyLock Task := s.kernel.lock fun t => (s.place t).lockPlace

/-! ### What the kernel calls do to the mutexes -/

/-- The pointer and the holders are as they were. -/
structure SameLock (k k' : Kernel) : Prop where
  pointer : k'.printfMutex = k.printfMutex
  holders : k'.holders = k.holders

theorem SameLock.lock (h : SameLock k k') (place : Task → Option LazyLock.Place) :
    k'.lock place = k.lock place := by
  rw [Kernel.lock, Kernel.lock, h.pointer, h.holders]

theorem SameLock.trans {k₁ : Kernel} (h₁ : SameLock k k₁) (h₂ : SameLock k₁ k') :
    SameLock k k' :=
  ⟨h₂.pointer.trans h₁.pointer, h₂.holders.trans h₁.holders⟩

theorem vPortExitCritical_lock (h : vPortExitCritical k = .ok k') : SameLock k k' := by
  unfold vPortExitCritical at h
  split at h
  · cases h
  · obtain rfl := Except.ok.inj h
    exact ⟨rfl, rfl⟩

theorem xTaskResumeAll_lock (h : xTaskResumeAll .task k = .ok k') : SameLock k k' := by
  unfold xTaskResumeAll at h
  split at h
  · cases h
  · obtain ⟨k₁, hop, hexit⟩ := critical_task h
    obtain rfl := Except.ok.inj hop
    have hsame := vPortExitCritical_lock hexit
    exact ⟨hsame.pointer, hsame.holders⟩

theorem holders_setMutex (k : Kernel) (h : ℕ) (m : Mutex) :
    (k.setMutex h m).holders = k.holders.set h m.holder := List.map_set

theorem getElem?_holders {h : ℕ} {m : Mutex} (hm : k.mutex h = some m) :
    k.holders[h]? = some m.holder := by
  rw [Kernel.holders, List.getElem?_map, show k.mutexes[h]? = some m from hm, Option.map_some]

/-- A change to the waiting tasks only. -/
theorem holders_setMutex_self {h : ℕ} {m : Mutex} (hm : k.mutex h = some m)
    (waiting : List Task) : (k.setMutex h ⟨m.holder, waiting⟩).holders = k.holders := by
  obtain ⟨hlt, heq⟩ := List.getElem?_eq_some_iff.mp (getElem?_holders hm)
  rw [holders_setMutex, ← heq, List.set_getElem_self]

/-- `xSemaphoreCreateMutex` appends an available mutex. -/
theorem prvInitialiseMutex_lock {h : ℕ} (hk : prvInitialiseMutex .task k = .ok (k', h)) :
    h = k.holders.length ∧ k'.printfMutex = k.printfMutex ∧ k'.holders = k.holders ++ [none] := by
  obtain ⟨k₁, hcritical, hk⟩ := bind_ok.mp hk
  obtain ⟨rfl, rfl⟩ := Prod.mk.inj (Except.ok.inj hk)
  obtain ⟨k₂, hop, hexit⟩ := critical_task hcritical
  obtain rfl := Except.ok.inj hop
  have hsame := vPortExitCritical_lock hexit
  refine ⟨(List.length_map _).symm, hsame.pointer, hsame.holders.trans ?_⟩
  exact List.map_append

theorem tryTake_lock {h : ℕ} {taken : Bool} (hk : tryTake .task k h = .ok (k', taken)) :
    (taken = true ∧ k.holders[h]? = some none ∧ k'.printfMutex = k.printfMutex ∧
        k'.holders = k.holders.set h (some k.current)) ∨ (taken = false ∧ SameLock k k') := by
  obtain ⟨k₀, henter, hk⟩ := bind_ok.mp hk
  obtain rfl := Except.ok.inj ((vPortEnterCritical_task k).symm.trans henter)
  split at hk
  · rename_i waiting hm
    obtain ⟨k₁, hexit, hk⟩ := bind_ok.mp hk
    obtain ⟨rfl, rfl⟩ := Prod.mk.inj (Except.ok.inj hk)
    have hsame := vPortExitCritical_lock hexit
    refine .inl ⟨rfl, getElem?_holders (k := k) hm, hsame.pointer, hsame.holders.trans ?_⟩
    exact holders_setMutex _ _ _
  · obtain ⟨k₁, hexit, hk⟩ := bind_ok.mp hk
    obtain ⟨rfl, rfl⟩ := Prod.mk.inj (Except.ok.inj hk)
    have hsame := vPortExitCritical_lock hexit
    exact .inr ⟨rfl, hsame.pointer, hsame.holders⟩

theorem prepareWait_lock {h : ℕ} {waits : Bool} (hk : prepareWait .task k h = .ok (k', waits)) :
    SameLock k k' := by
  obtain ⟨k₁, hlock, hk⟩ := bind_ok.mp hk
  have hlocked : SameLock k k₁ := by
    obtain ⟨k₂, hop, hexit⟩ := critical_task hlock
    obtain rfl := Except.ok.inj hop
    have hsame := vPortExitCritical_lock hexit
    exact ⟨hsame.pointer, hsame.holders⟩
  split at hk
  · rename_i holder waiting hm
    obtain ⟨k₂, hresume, hk⟩ := bind_ok.mp hk
    obtain ⟨rfl, -⟩ := Prod.mk.inj (Except.ok.inj hk)
    have hsame := xTaskResumeAll_lock hresume
    exact hlocked.trans ⟨hsame.pointer, hsame.holders.trans (holders_setMutex_self hm _)⟩
  · obtain ⟨k₂, hresume, hk⟩ := bind_ok.mp hk
    obtain ⟨rfl, -⟩ := Prod.mk.inj (Except.ok.inj hk)
    exact hlocked.trans (xTaskResumeAll_lock hresume)

/-- `xSemaphoreGive` gives a mutex the task holds, or finds it available. -/
theorem xSemaphoreGive_lock {n : Option ℕ} {wanted : Task}
    (hk : xSemaphoreGive .task k n wanted = .ok k') :
    ∃ h, n = some h ∧ k'.printfMutex = k.printfMutex ∧
      ((k.holders[h]? = some (some k.current) ∧ k'.holders = k.holders.set h none) ∨
        ((∀ u, k.holders[h]? ≠ some (some u)) ∧ k'.holders = k.holders)) := by
  cases n with
  | none => cases hk
  | some h =>
      obtain ⟨k₁, hop, hexit⟩ := critical_task hk
      have hsame := vPortExitCritical_lock hexit
      refine ⟨h, rfl, ?_⟩
      split at hop
      · rename_i holder waiting hm
        split at hop
        · cases hop
        · rename_i hheld
          obtain rfl := Except.ok.inj hop
          obtain rfl : holder = k.current := not_not.mp hheld
          refine ⟨hsame.pointer, .inl ⟨getElem?_holders (k := k) hm, hsame.holders.trans ?_⟩⟩
          exact holders_setMutex _ _ _
      · rename_i hnot
        obtain rfl := Except.ok.inj hop
        refine ⟨hsame.pointer, .inr ⟨fun u hu => ?_, hsame.holders⟩⟩
        rw [Kernel.holders, List.getElem?_map, Option.map_eq_some_iff] at hu
        obtain ⟨⟨holder, waiting⟩, hm, rfl⟩ := hu
        exact hnot _ _ hm

/-! ### Steps -/

/-- A step of `app_printf` in a task is a step of the lock, or none.  The scheduler is suspended
only where `app_printf` has suspended it itself. -/
theorem printfStep_lock {mallocs : Bool} {wanted : Task} {pc : PrintfPc} {next : Option PrintfPc}
    (place : Task → Option LazyLock.Place)
    (hk : printfStep .task mallocs wanted k pc = .ok (k', next))
    (hsuspended : k.schedulerSuspended = pc.suspends) (hplace : place k.current = pc.lockPlace) :
    let l' := k'.lock (Function.update place k.current (next.bind PrintfPc.lockPlace))
    l' = k.lock place ∨ LazyLock.Moves k.current (k.lock place) l' := by
  -- a step that changes neither the mutexes nor the place
  have hstays {q : Option LazyLock.Place} (hsame : SameLock k k') (hq : q = pc.lockPlace) :
      k'.lock (Function.update place k.current q) = k.lock place := by
    rw [hq, ← hplace, Function.update_eq_self, hsame.lock]
  have husable : mutexUsable k = true ↔ k.printfMutex ≠ none ∧ pc.suspends = 0 := by
    rw [← hsuspended]
    simp [mutexUsable, schedulerRunning, Option.isSome_iff_ne_none]
  cases pc with
  | test =>
      obtain ⟨rfl, rfl⟩ := Prod.mk.inj (Except.ok.inj hk)
      right
      by_cases hnull : k.printfMutex = none
      · rw [if_pos hnull]
        exact .testNull hnull hplace
      · rw [if_neg hnull]
        exact .test hnull hplace
  | create =>
      obtain ⟨rfl, rfl⟩ := Prod.mk.inj (Except.ok.inj hk)
      exact .inl (hstays ⟨rfl, rfl⟩ rfl)
  | malloc =>
      obtain ⟨k₁, hresume, hk⟩ := bind_ok.mp hk
      obtain ⟨rfl, rfl⟩ := Prod.mk.inj (Except.ok.inj hk)
      have hsame := xTaskResumeAll_lock hresume
      cases mallocs with
      | true => exact .inl (hstays hsame rfl)
      | false =>
          rw [hsame.lock]
          exact .inr (.createFails hplace)
  | initialise =>
      obtain ⟨⟨k₁, h⟩, hinit, hk⟩ := bind_ok.mp hk
      obtain ⟨rfl, rfl⟩ := Prod.mk.inj (Except.ok.inj hk)
      obtain ⟨rfl, hpointer, hholders⟩ := prvInitialiseMutex_lock hinit
      right
      rw [Kernel.lock, Kernel.lock, hpointer, hholders]
      exact .create hplace
  | store h =>
      obtain ⟨rfl, rfl⟩ := Prod.mk.inj (Except.ok.inj hk)
      exact .inr (.store hplace)
  | check =>
      obtain ⟨rfl, rfl⟩ := Prod.mk.inj (Except.ok.inj hk)
      right
      by_cases hnull : k.printfMutex = none
      · rw [if_neg fun h => (husable.mp h).1 hnull]
        exact .checkNull hnull hplace
      · rw [if_pos (husable.mpr ⟨hnull, rfl⟩)]
        exact .check hnull hplace
  | callTake =>
      obtain ⟨h, hchecks, hk⟩ := bind_ok.mp hk
      obtain ⟨rfl, rfl⟩ := Prod.mk.inj (Except.ok.inj hk)
      right
      cases hpointer : k.printfMutex with
      | none =>
          rw [hpointer] at hchecks
          cases hchecks
      | some h' =>
          rw [hpointer, takeChecks] at hchecks
          split at hchecks
          · obtain rfl := Except.ok.inj hchecks
            exact .enter hpointer hplace
          · cases hchecks
  | take h =>
      obtain ⟨⟨k₁, taken⟩, htake, hk⟩ := bind_ok.mp hk
      obtain ⟨rfl, rfl⟩ := Prod.mk.inj (Except.ok.inj hk)
      rcases tryTake_lock htake with ⟨rfl, hfree, hpointer, hholders⟩ | ⟨rfl, hsame⟩
      · right
        rw [Kernel.lock, Kernel.lock, hpointer, hholders]
        exact .take hfree hplace
      · exact .inl (hstays hsame rfl)
  | suspend h =>
      obtain ⟨rfl, rfl⟩ := Prod.mk.inj (Except.ok.inj hk)
      exact .inl (hstays ⟨rfl, rfl⟩ rfl)
  | prepareWait h =>
      obtain ⟨⟨k₁, waits⟩, hwait, hk⟩ := bind_ok.mp hk
      obtain ⟨rfl, rfl⟩ := Prod.mk.inj (Except.ok.inj hk)
      have hsame := prepareWait_lock hwait
      cases waits <;> exact .inl (hstays hsame rfl)
  | waiting h =>
      obtain ⟨rfl, rfl⟩ := Prod.mk.inj (Except.ok.inj hk)
      exact .inl (hstays ⟨rfl, rfl⟩ rfl)
  | transmit =>
      obtain ⟨rfl, rfl⟩ := Prod.mk.inj (Except.ok.inj hk)
      exact .inr (.finish hplace)
  | checkGive =>
      obtain ⟨rfl, rfl⟩ := Prod.mk.inj (Except.ok.inj hk)
      right
      by_cases hnull : k.printfMutex = none
      · rw [if_neg fun h => (husable.mp h).1 hnull]
        exact .leaveNull hnull hplace
      · rw [if_pos (husable.mpr ⟨hnull, rfl⟩)]
        exact .leave hnull hplace
  | callGive =>
      obtain ⟨k₁, hgive, hk⟩ := bind_ok.mp hk
      obtain ⟨rfl, rfl⟩ := Prod.mk.inj (Except.ok.inj hk)
      obtain ⟨h, hpointer, hsame, ⟨hheld, hholders⟩ | ⟨hfree, hholders⟩⟩ :=
        xSemaphoreGive_lock hgive
      · right
        rw [Kernel.lock, Kernel.lock, hsame, hholders]
        exact .give hpointer hheld hplace
      · right
        rw [Kernel.lock, Kernel.lock, hsame, hholders]
        exact .giveFree hpointer hfree hplace

/-! ### Moves -/

theorem lockPlace_goto (s : System) (p : Place) :
    (s.goto p).lock =
      s.kernel.lock (Function.update (fun t => (s.place t).lockPlace) s.kernel.current
        p.lockPlace) := by
  unfold System.lock System.goto
  congr 1
  exact Function.comp_update Place.lockPlace s.place s.kernel.current p

/-- The current task goes on in code that has nothing to do with the mutex. -/
theorem lock_goto {k : Kernel} {f : Flags} {p : Place} (hk : SameLock s.kernel k)
    (hcurrent : k.current = s.kernel.current)
    (hp : p.lockPlace = (s.place s.kernel.current).lockPlace) :
    ({ s with kernel := k, flags := f }.goto p).lock = s.lock := by
  rw [lockPlace_goto, hp]
  simp only [hcurrent, Function.update_eq_self, hk.lock]
  rfl

theorem taskPrintf_lock {mallocs : Bool} {wanted : Task} {pc : PrintfPc}
    {abort : Option Transfer} (hs : Settled s)
    (hp : s.place s.kernel.current = .printf pc abort) :
    (taskPrintf s mallocs wanted pc abort).lock = s.lock ∨
      LazyLock.Moves s.kernel.current s.lock (taskPrintf s mallocs wanted pc abort).lock := by
  have hsuspended : s.kernel.schedulerSuspended = pc.suspends := by rw [hs.suspended, hp]; rfl
  have hplace : (s.place s.kernel.current).lockPlace = pc.lockPlace := by rw [hp]; rfl
  unfold taskPrintf
  split
  · exact .inl rfl
  · rename_i k next h
    have hcurrent := (printfStep_task h).1.current
    have hmoves := printfStep_lock (fun t => (s.place t).lockPlace) h hsuspended hplace
    rw [lockPlace_goto]
    simp only [hcurrent]
    exact hmoves
  · rename_i k h
    have hcurrent := (printfStep_task h).1.current
    have hmoves := printfStep_lock (fun t => (s.place t).lockPlace) h hsuspended hplace
    unfold System.printfReturn
    split <;>
    · rw [lockPlace_goto]
      simp only [System.abort, hcurrent]
      exact hmoves

/-- **The firmware's moves are steps of the lock**: those of the current task in `app_printf`
are steps of this task or none, and all others are none. -/
theorem move_lock {m : Move} (h : move s m = some s') (hs : Settled s) :
    s'.lock = s.lock ∨
      (∃ mallocs wanted pc abort, m = .printf mallocs wanted ∧
        s.place s.kernel.current = .printf pc abort ∧
        LazyLock.Moves s.kernel.current s.lock s'.lock) := by
  cases move_cases h with
  | printf hp =>
      exact (taskPrintf_lock hs hp).imp_right fun hmoves => ⟨_, _, _, _, rfl, hp, hmoves⟩
  | switchTo => exact .inl rfl
  | callPrintf hp =>
      exact .inl (lock_goto (f := s.flags) ⟨rfl, rfl⟩ rfl (by rw [hp]; rfl))
  | startTransfer hp => exact .inl (lock_goto ⟨rfl, rfl⟩ rfl (by rw [hp]; rfl))
  | pollDelay hp => exact .inl (lock_goto (f := s.flags) ⟨rfl, rfl⟩ rfl (by rw [hp]; rfl))
  | pollLeft hp => exact .inl (lock_goto (f := s.flags) ⟨rfl, rfl⟩ rfl (by rw [hp]; rfl))
  | @delayOver task t startTick _ hp =>
      left
      have hsame : Place.lockPlace ∘ Function.update s.place task (.poll t startTick) =
          Place.lockPlace ∘ s.place := by
        rw [Function.comp_update, Function.update_eq_self_iff, Function.comp_apply, hp]
        rfl
      exact congrArg s.kernel.lock hsame
  | leave hp =>
      left
      unfold System.leave
      split_ifs
      · exact lock_goto (f := s.flags) ⟨rfl, rfl⟩ rfl (by rw [hp]; rfl)
      · exact lock_goto (f := s.flags) ⟨rfl, rfl⟩ rfl (by rw [hp]; rfl)
      · exact lock_goto ⟨rfl, rfl⟩ rfl (by rw [hp]; rfl)
  | suspendAll hp =>
      exact .inl (lock_goto (k := vTaskSuspendAll s.kernel) (f := s.flags) ⟨rfl, rfl⟩ rfl
        (by rw [hp]; rfl))
  | resumeAll hp hresume =>
      exact .inl (lock_goto (f := s.flags) (xTaskResumeAll_lock hresume)
        (xTaskResumeAll_task hresume).1.current (by rw [hp]; rfl))
  | resumeAllFails => exact .inl rfl
  | interrupt =>
      left
      rcases interrupt_cases hs _ _ _ with ⟨he, _⟩ | ⟨he, _⟩ <;> rw [he] <;> rfl

/-! ### Mutual exclusion -/

/-- The task is past its test of the pointer. -/
def System.PastTest (s : System) (t : Task) : Prop :=
  ∃ pc abort, s.place t = .printf pc abort ∧ pc ≠ .test

/-- The task is between its take and its give. -/
def System.Transmits (s : System) (t : Task) : Prop :=
  ∃ pc abort, s.place t = .printf pc abort ∧ (pc = .transmit ∨ pc = .checkGive ∨ pc = .callGive)

/-- If the move finds the pointer `NULL`, no other task is past its test. -/
def TestsAlone (s : System) : Move → Prop
  | .printf _ _ => s.kernel.printfMutex = none →
      (∃ abort, s.place s.kernel.current = .printf .test abort) →
        ∀ t, t ≠ s.kernel.current → ¬s.PastTest t
  | _ => True

/-- What the mutex is for: the log lines are exclusive, at most one mutex is created and so ever
installed, and a give is made by the holder of what it gives. -/
structure LogExclusive (s : System) : Prop where
  transmits : ∀ t u, s.Transmits t → s.Transmits u → t = u
  created : s.kernel.mutexes.length ≤ 1
  installed : ∀ h, s.kernel.printfMutex = some h → h = 0
  gives : ∀ t abort, s.place t = .printf .callGive abort →
    ∃ h m, s.kernel.printfMutex = some h ∧ s.kernel.mutex h = some m ∧ m.holder = some t

theorem lockPlace_eq_none {pc : PrintfPc} : pc.lockPlace = none ↔ pc = .test := by
  cases pc <;> simp [PrintfPc.lockPlace]

theorem TestsAlone.alone {mallocs : Bool} {wanted : Task} {pc : PrintfPc}
    {abort : Option Transfer} (h : TestsAlone s (.printf mallocs wanted))
    (hp : s.place s.kernel.current = .printf pc abort) : s.lock.Alone s.kernel.current := by
  intro hnull hplace u
  have hpc : pc.lockPlace = none := (congrArg Place.lockPlace hp).symm.trans hplace
  obtain rfl := lockPlace_eq_none.mp hpc
  by_cases hu : u = s.kernel.current
  · rw [hu]
    exact hplace
  · have hnot := h hnull ⟨abort, hp⟩ u hu
    show (s.place u).lockPlace = none
    cases hplace' : s.place u with
    | printf pc' abort' =>
        by_contra hne
        exact hnot ⟨pc', abort', hplace', fun he => hne (lockPlace_eq_none.mpr he)⟩
    | _ => rfl

theorem Transmits.place (h : s.Transmits t) : ∃ p, s.lock.place t = some p ∧ p.Inside := by
  obtain ⟨pc, abort, hp, rfl | rfl | rfl⟩ := h
  all_goals exact ⟨_, congrArg Place.lockPlace hp, trivial⟩

theorem logExclusive_of_lock (h : s.lock.Exclusive) : LogExclusive s where
  transmits := by
    intro t u ht hu
    obtain ⟨p, hp, hin⟩ := Transmits.place ht
    obtain ⟨q, hq, hin'⟩ := Transmits.place hu
    exact h.inside t u p q hp hq hin hin'
  created := by
    have hlen := h.created
    rwa [System.lock, Kernel.lock, Kernel.holders, List.length_map] at hlen
  installed := h.installed
  gives := by
    intro t abort hp
    obtain ⟨n, hpointer, hheld⟩ := h.gives t (congrArg Place.lockPlace hp)
    rw [System.lock, Kernel.lock, Kernel.holders, List.getElem?_map,
      Option.map_eq_some_iff] at hheld
    obtain ⟨m, hm, hholder⟩ := hheld
    exact ⟨n, m, hpointer, hm, hholder⟩

theorem step_ordered {m : Move} (h : s.step m = some s') (hs : Settled s)
    (halone : TestsAlone s m) (hl : s.lock.Ordered) : s'.lock.Ordered := by
  rcases move_lock (System.step_some h).2 hs with hsame | ⟨_, _, pc, abort, rfl, hp, hmoves⟩
  · rwa [hsame]
  · exact hl.moves (halone.alone hp) hmoves

theorem ordered_run (first : Task) {ls : List Move} (h : Run System.step (.init first) ls s)
    (halone : Meets System.step TestsAlone (.init first) ls) : Settled s ∧ s.lock.Ordered := by
  refine Run.invariant (I := fun s => Settled s ∧ s.lock.Ordered) ?_ h halone
    ⟨settled_init first, LazyLock.ordered_init⟩
  rintro s m s' ⟨hs, hl⟩ ha hstep
  exact ⟨step_settled hstep hs, step_ordered hstep hs ha hl⟩

/-! ### When the condition is met -/

theorem testsAlone_of_set (hset : s.kernel.printfMutex ≠ none) (m : Move) : TestsAlone s m := by
  cases m with
  | printf => exact fun hnull => absurd hnull hset
  | _ => trivial

/-- Once the mutex is installed, every interleaving meets the condition. -/
theorem testsAlone_of_installed {ls : List Move} (h : Run System.step s ls s') (hs : Settled s)
    (hl : s.lock.Ordered) (hset : s.kernel.printfMutex ≠ none) :
    Meets System.step TestsAlone s ls := by
  induction h with
  | refl => trivial
  | @step s s₁ s₂ m ls hstep _ ih =>
      have halone := testsAlone_of_set hset m
      refine (meets_cons hstep).mpr ⟨halone, ih (step_settled hstep hs)
        (step_ordered hstep hs halone hl) ?_⟩
      rcases move_lock (System.step_some hstep).2 hs with hsame | ⟨_, _, _, _, _, _, hmoves⟩
      · rw [show s₁.kernel.printfMutex = s.kernel.printfMutex from
          congrArg LazyLock.pointer hsame]
        exact hset
      · exact hl.pointer_moves hset hmoves

/-- All other tasks are in their own code. -/
def System.Single (s : System) : Prop := ∀ t, t ≠ s.kernel.current → s.place t = .app

theorem single_goto {k : Kernel} {f : Flags} (h : s.Single) (hk : k.current = s.kernel.current)
    (p : Place) : ({ s with kernel := k, flags := f }.goto p).Single := by
  intro t ht
  simp only [System.goto, hk] at ht ⊢
  rw [Function.update_of_ne ht]
  exact h t ht

theorem single_taskPrintf (h : s.Single) (mallocs : Bool) (wanted : Task) (pc : PrintfPc)
    (abort : Option Transfer) : (taskPrintf s mallocs wanted pc abort).Single := by
  unfold taskPrintf
  split
  · exact h
  · rename_i hk
    exact single_goto (f := s.flags) h (printfStep_task hk).1.current _
  · rename_i hk
    unfold System.printfReturn
    split
    · exact single_goto h (printfStep_task hk).1.current _
    · exact single_goto (f := s.flags) h (printfStep_task hk).1.current _

/-- A task that keeps the processor while it logs meets the condition. -/
theorem testsAlone_of_single {mallocs : Bool} {wanted : Task} {n : ℕ} (h : s.Single) :
    Meets System.step TestsAlone s (List.replicate n (.printf mallocs wanted)) := by
  induction n generalizing s with
  | zero => trivial
  | succ n ih =>
      refine ⟨fun _ _ t ht hpast => ?_, fun s₁ hstep => ih ?_⟩
      · obtain ⟨pc, abort, hp, _⟩ := hpast
        rw [h t ht] at hp
        cases hp
      · cases move_cases (System.step_some hstep).2 with
        | printf => exact single_taskPrintf h _ _ _ _

/-! ### Runs -/

/-- **Log lines are mutually exclusive if the mutex is created by one task alone**: in every
interleaving in which no task finds the pointer `NULL` while another is past its test, at most
one task is between its take and its give, there is at most one mutex, and a task that gives
holds the mutex it gives. -/
theorem log_exclusive (first : Task) {ls : List Move} (h : Run System.step (.init first) ls s)
    (halone : Meets System.step TestsAlone (.init first) ls) : LogExclusive s :=
  logExclusive_of_lock (ordered_run first h halone).2.exclusive

/-- The first line of the first task. -/
def firstLine : List Move := .callPrintf :: List.replicate 11 (.printf true (.other 0))

/-- Then two tasks log at the same time. -/
def overlappingLines : List Move :=
  [Move.callPrintf] ++ List.replicate 4 (Move.printf true (.other 0)) ++
    [Move.switchTo (.other 1), Move.callPrintf] ++
    List.replicate 6 (Move.printf true (.other 0)) ++ [Move.switchTo (.other 0)] ++
    List.replicate 3 (Move.printf true (.other 1)) ++ [Move.switchTo (.other 1)] ++
    List.replicate 2 (Move.printf true (.other 0))

theorem log_exclusive_overlapping :
    ∃ s, Run System.step (.init (.other 0)) (firstLine ++ overlappingLines) s ∧ LogExclusive s := by
  obtain ⟨s₁, hs₁, hpointer⟩ : ∃ s₁, exec System.step (.init (.other 0)) firstLine = some s₁ ∧
      s₁.kernel.printfMutex = some 0 := Option.map_eq_some_iff.mp (by decide)
  obtain ⟨s, hs⟩ :
      ∃ s, exec System.step (.init (.other 0)) (firstLine ++ overlappingLines) = some s :=
    Option.isSome_iff_exists.mp (by decide)
  have hfirst : Meets System.step TestsAlone (.init (.other 0)) firstLine := by
    refine (meets_cons rfl).mpr ⟨trivial, testsAlone_of_single ?_⟩
    exact single_goto (f := Flags.init) (k := (System.init (.other 0)).kernel)
      (fun _ _ => rfl) rfl _
  have hrest : Run System.step s₁ overlappingLines s := by
    rw [exec_append, hs₁, Option.bind_some] at hs
    exact .of_exec hs
  obtain ⟨hsettled, hordered⟩ := ordered_run (.other 0) (.of_exec hs₁) hfirst
  have hlater := testsAlone_of_installed hrest hsettled hordered (by rw [hpointer]; simp)
  exact ⟨s, .of_exec hs, log_exclusive (.other 0) (.of_exec hs)
    (Run.meets_append (.of_exec hs₁) hfirst hlater)⟩

/-- The moves of an interleaving of `app_printf` calls. -/
def Move.IsLogging : Move → Prop
  | .switchTo _ | .callPrintf | .printf _ _ => True
  | _ => False

/-- Both tasks test before either stores. -/
def racingLines : List Move :=
  [Move.callPrintf, Move.printf true (.other 0), Move.switchTo (.other 1), Move.callPrintf] ++
    List.replicate 8 (Move.printf true (.other 0)) ++ [Move.switchTo (.other 0)] ++
    List.replicate 7 (Move.printf true (.other 0))

/-- Each creates a mutex, and they transmit at the same time. -/
theorem racing_lines_overlap :
    ¬ ∀ (first : Task) (ls : List Move) (s : System), (∀ m ∈ ls, m.IsLogging) →
      Run System.step (.init first) ls s → LogExclusive s := by
  intro hclaim
  obtain ⟨s, hs, hplaces⟩ : ∃ s, exec System.step (.init (.other 0)) racingLines = some s ∧
      (s.place (.other 0), s.place (.other 1)) = (.printf .transmit none, .printf .transmit none) :=
    Option.map_eq_some_iff.mp (by decide)
  obtain ⟨h₀, h₁⟩ := Prod.mk.inj hplaces
  have hlogging : ∀ m ∈ racingLines, m.IsLogging := by
    simp [racingLines, Move.IsLogging]
  have hexclusive := hclaim (.other 0) racingLines s hlogging (.of_exec hs)
  have hsame := hexclusive.transmits (.other 0) (.other 1) ⟨_, none, h₀, .inl rfl⟩
    ⟨_, none, h₁, .inl rfl⟩
  cases hsame

end PeripheralTester.Firmware
