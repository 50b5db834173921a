import PeripheralTester.Firmware.Conservation
import PeripheralTester.Firmware.Verdict

/-! # Order and attribution of the responses

The pipeline with the test handlers in it: where a task of the pipeline runs a test, `Target` runs
the backend it is built with and records the result, and it records the commands that the receive
callback could enqueue.

The commands of one peripheral move along one lane (`Device.lane`): the responses handed over, with
the sender and in the response queue, then the task's command, the peripheral's queue, the
dispatcher and the command queue.  A step moves a job of the lane past none of the others; it can
only drop jobs and append the command it accepts (`TargetMoved.lane`).  So the responses of a
peripheral are in the order in which its commands were accepted.  There is no such lane for all
peripherals together: their tasks overtake each other before the response queue. -/

namespace PeripheralTester.Firmware

open Lib

variable {ο : Type}

/-! ### Results of tests -/

/-- A test that ends has one of the two results. -/
def Decides (m : Handler UInt8) : Prop := m.Ensures fun o => ∃ passed, o.value = verdict passed

theorem decides_verdict (passed : Bool) : Decides (pure (verdict passed)) :=
  Replay.ensures_pure fun _ _ => ⟨passed, rfl⟩

theorem decides_fail : Decides (pure appProtocolTestFail) := decides_verdict false

theorem decides_after {α : Type} {m : Handler α} {f : α → Handler UInt8}
    (hf : ∀ a, Decides (f a)) : Decides (m >>= f) :=
  Replay.ensures_after hf fun _ _ h => h

theorem decides_ite {c : Prop} [Decidable c] {m m' : Handler UInt8} (hm : Decides m)
    (hm' : Decides m') : Decides (if c then m else m') := by
  split
  · exact hm
  · exact hm'

theorem BusTest.decides_run (x : BusTest) (c : Command) : Decides (x.run c) :=
  decides_after decides_verdict

theorem Backend.decides (b : Backend) (c : Command) : Decides (b.test c) := by
  cases b with
  | timer =>
      apply decides_after
      intro passed
      exact decides_ite (decides_verdict passed) (decides_after fun _ => decides_verdict passed)
  | adc =>
      apply decides_after
      intro started
      exact decides_ite (decides_after decides_verdict) (decides_after fun _ => decides_fail)
  | uartIt | uartDma => exact decides_ite (BusTest.decides_run _ c) decides_fail
  | spiIt | spiDma | i2cIt => exact BusTest.decides_run _ c
  | i2cDma => exact decides_after fun _ => BusTest.decides_run _ c

/-- The response to a job carries the result of its test. -/
theorem Backend.answer_result {b : Backend} {j : Job ο} {g : Board} {env : List Slot}
    {o : Outcome Board Slot Act UInt8} (h : b.test j.command g env = some o) :
    (j.answer (o.value = appProtocolTestSuccess)).response.result = o.value := by
  obtain ⟨passed, hvalue⟩ := (b.decides j.command).post _ _ o h
  rw [hvalue]
  cases passed <;> rfl

/-! ### The pipeline with its tests -/

/-- `app_config.h`: the backend of each test module. -/
structure Config where
  backend : Peripheral → Backend
  peripheral_backend : ∀ p, (backend p).peripheral = p

/-- A result, with the peripheral whose task computed it and the command it was computed for. -/
structure Computed (ο : Type) where
  peripheral : Peripheral
  job : Job ο
  result : UInt8

/-- The pipeline, the commands accepted and the results computed so far. -/
structure Target (ο : Type) where
  device : Device ο
  accepted : List (Job ο)
  computed : List (Computed ο)

def Target.init (udpPcb : Bool) : Target ο := ⟨.init udpPcb, [], []⟩

/-- Who moves; a task that runs its test finds a board and is answered by a recording. -/
inductive TargetMove (ο : Type) where
  | udpReceive (d : Option (Datagram ο))
  | callback
  | dispatcher
  | task (p : Peripheral) (g : Board) (env : List Slot)
  | sender (allocates : Bool) (err : ℤ)

/-- The command that the callback is about to enqueue. -/
def Device.accepting (s : Device ο) : Option (Job ο) :=
  match s.callback with
  | .send j => if (s.commandQueue.push j).isSome then some j else none
  | _ => none

def taskMove (config : Config) (t : Target ο) (p : Peripheral) (g : Board) (env : List Slot) :
    Option (Target ο) :=
  match t.device.task p with
  | .run j =>
      ((config.backend p).test j.command g env).bind fun o =>
        (taskStep t.device p (o.value = appProtocolTestSuccess)).map fun device =>
          { t with device := device, computed := t.computed ++ [⟨p, j, o.value⟩] }
  | _ => (taskStep t.device p false).map fun device => { t with device := device }

def targetStep (config : Config) (t : Target ο) : TargetMove ο → Option (Target ο)
  | .udpReceive d => (udpReceive t.device d).map fun device => { t with device := device }
  | .callback =>
      (callbackStep t.device).map fun device =>
        { t with device := device, accepted := t.accepted ++ t.device.accepting.toList }
  | .dispatcher => (dispatcherStep t.device).map fun device => { t with device := device }
  | .task p g env => taskMove config t p g env
  | .sender allocates err =>
      (senderStep t.device allocates err).map fun device => { t with device := device }

/-- The steps of the pipeline that neither run a test nor accept a command. -/
def Routine (s : Device ο) : Event ο → Prop
  | .callback => False
  | .task p _ => ∀ j, s.task p ≠ .run j
  | _ => True

inductive TargetMoved (config : Config) (t : Target ο) : Target ο → Prop
  | routine {e : Event ο} {s : Device ο} (he : Routine t.device e)
      (hs : step t.device e = some s) : TargetMoved config t { t with device := s }
  | callback {s : Device ο} (hs : callbackStep t.device = some s) :
      TargetMoved config t
        { t with device := s, accepted := t.accepted ++ t.device.accepting.toList }
  | test {p : Peripheral} {j : Job ο} {g : Board} {env : List Slot} {s : Device ο}
      {o : Outcome Board Slot Act UInt8} (ht : t.device.task p = .run j)
      (ho : (config.backend p).test j.command g env = some o)
      (hs : taskStep t.device p (o.value = appProtocolTestSuccess) = some s) :
      TargetMoved config t { t with device := s, computed := t.computed ++ [⟨p, j, o.value⟩] }

variable {config : Config} {t t' : Target ο} {m : TargetMove ο}

theorem targetStep_cases (h : targetStep config t m = some t') : TargetMoved config t t' := by
  cases m with
  | udpReceive d =>
      obtain ⟨s, hs, rfl⟩ := Option.map_eq_some_iff.mp h
      exact .routine (e := .udpReceive d) trivial hs
  | callback =>
      obtain ⟨s, hs, rfl⟩ := Option.map_eq_some_iff.mp h
      exact .callback hs
  | dispatcher =>
      obtain ⟨s, hs, rfl⟩ := Option.map_eq_some_iff.mp h
      exact .routine (e := .dispatcher) trivial hs
  | task p g env =>
      replace h : taskMove config t p g env = some t' := h
      unfold taskMove at h
      split at h
      · rename_i ht
        obtain ⟨o, ho, h⟩ := Option.bind_eq_some_iff.mp h
        obtain ⟨s, hs, rfl⟩ := Option.map_eq_some_iff.mp h
        exact .test ht ho hs
      · rename_i hrun
        obtain ⟨s, hs, rfl⟩ := Option.map_eq_some_iff.mp h
        exact .routine (e := .task p false) hrun hs
  | sender allocates err =>
      obtain ⟨s, hs, rfl⟩ := Option.map_eq_some_iff.mp h
      exact .routine (e := .sender allocates err) trivial hs

/-- A move is a step of the pipeline. -/
theorem TargetMoved.step (h : TargetMoved config t t') :
    ∃ e, Firmware.step t.device e = some t'.device := by
  cases h with
  | @routine e s _ hs => exact ⟨e, hs⟩
  | callback hs => exact ⟨.callback, hs⟩
  | @test p j g env s o _ _ hs => exact ⟨.task p _, hs⟩

/-! ### Lanes -/

/-- The command is for the peripheral. -/
def Job.isFor (p : Peripheral) (j : Job ο) : Bool :=
  Peripheral.ofCode j.command.peripheral = some p

/-- The way of a peripheral's commands, from the end to the beginning. -/
def Device.way (s : Device ο) (p : Peripheral) : List (Job ο) :=
  s.handed.map Answer.job ++ s.sender.held.map Answer.job ++
    s.responseQueue.items.map Answer.job ++ (s.task p).job.toList ++ (s.queue p).items ++
    s.dispatcher.toList ++ s.commandQueue.items

/-- The peripheral's commands on it. -/
def Device.lane (s : Device ο) (p : Peripheral) : List (Job ο) := (s.way p).filter (Job.isFor p)

variable {s s' : Device ο}

theorem sender_lane {allocates : Bool} {err : ℤ} (h : senderStep s allocates err = some s')
    (p : Peripheral) : s'.lane p = s.lane p := by
  unfold Device.lane
  congr 1
  cases senderStep_cases h with
  | timeout => rfl
  | receive hp hq =>
      simp [Device.way, Device.print, hp, SenderPc.held, Fifo.pop_eq_some_iff.mp hq]
  | notReady hp | hand hp => simp [Device.way, Device.print, hp, SenderPc.held]
  | allocated hp | notAllocated hp | readAddr hp | readPort hp | notSent hp | sent hp =>
      simp [Device.way, Device.print, hp, SenderPc.held]

theorem callback_lane (h : callbackStep s = some s') (p : Peripheral) :
    s'.lane p = s.lane p ++ s.accepting.toList.filter (Job.isFor p) := by
  unfold Device.lane
  rw [← List.filter_append]
  congr 1
  cases callbackStep_cases h with
  | storePort hpc | storeValid hpc | badSize hpc | goodSize hpc =>
      simp [Device.way, Device.accepting, hpc]
  | queued hpc hq => simp [Device.way, Device.accepting, hpc, hq, (Fifo.push_eq_some_iff.mp hq).2]
  | full hpc hq => simp [Device.way, Device.accepting, Device.drop, hpc, hq]

theorem udpReceive_lane {d : Option (Datagram ο)} (h : udpReceive s d = some s') (p : Peripheral) :
    s'.lane p = s.lane p := by
  cases udpReceive_cases h <;> rfl

/-- A job of one peripheral is not for another one. -/
theorem Job.not_isFor {p p' : Peripheral} {j : Job ο} (hne : p' ≠ p)
    (hj : Peripheral.ofCode j.command.peripheral = some p) : j.isFor p' = false := by
  simp only [Job.isFor, hj, Option.some.injEq, decide_eq_false_iff_not]
  exact fun h => hne h.symm

/-- What is not dropped stays in order. -/
theorem dispatcher_lane (h : dispatcherStep s = some s') (p : Peripheral) :
    (s'.lane p).Sublist (s.lane p) := by
  cases dispatcherStep_cases h with
  | timeout => exact List.Sublist.refl _
  | receive hd hq =>
      apply List.Sublist.filter
      simp [Device.way, Device.print, hd, Fifo.pop_eq_some_iff.mp hq]
  | unknown hd | full hd =>
      apply List.Sublist.filter
      simp [Device.way, Device.drop, hd]
  | @forward j p₁ q hd hp hq =>
      unfold Device.lane
      by_cases hne : p = p₁
      · -- the lane of the command
        subst hne
        apply List.Sublist.filter
        simp [Device.way, hd, (Fifo.push_eq_some_iff.mp hq).2]
      · simp [Device.way, hd, Function.update_of_ne hne, Job.not_isFor hne hp]

/-- A task moves the jobs of its own lane only. -/
theorem task_lane {p₁ : Peripheral} {passed : Bool} (h : taskStep s p₁ passed = some s')
    (hs : Placed s) (p : Peripheral) : (s'.lane p).Sublist (s.lane p) := by
  have htask := hs.task p₁
  by_cases hne : p = p₁
  · subst hne
    apply List.Sublist.filter
    cases taskStep_cases h with
    | receive ht hq => simp [Device.way, ht, TaskPc.job, Fifo.pop_eq_some_iff.mp hq]
    | run ht => simp [Device.way, ht, TaskPc.job, Job.answer]
    | respond ht hq => simp [Device.way, ht, TaskPc.job, (Fifo.push_eq_some_iff.mp hq).2]
    | full ht => simp [Device.way, Device.drop, ht, TaskPc.job]
  · cases taskStep_cases h with
    | receive ht hq => simp [Device.lane, Device.way, Function.update_of_ne hne]
    | run ht => simp [Device.lane, Device.way, Function.update_of_ne hne]
    | respond ht hq =>
        -- the answer joins the response queue, but not this lane
        rw [ht] at htask
        simp [Device.lane, Device.way, Function.update_of_ne hne,
          (Fifo.push_eq_some_iff.mp hq).2, Job.not_isFor hne htask.1]
    | full ht => simp [Device.lane, Device.way, Device.drop, Function.update_of_ne hne]

/-- **A step keeps a lane in order**: it drops jobs from it and appends the one it accepts. -/
theorem TargetMoved.lane (h : TargetMoved config t t') (hs : Placed t.device) (p : Peripheral)
    (hlane : (t.device.lane p).Sublist (t.accepted.filter (Job.isFor p))) :
    (t'.device.lane p).Sublist (t'.accepted.filter (Job.isFor p)) := by
  cases h with
  | @routine e s he hstep =>
      cases e with
      | udpReceive d => rwa [udpReceive_lane hstep]
      | callback => cases he
      | dispatcher => exact (dispatcher_lane hstep p).trans hlane
      | task p₁ passed => exact (task_lane hstep hs p).trans hlane
      | sender allocates err => rwa [sender_lane hstep]
  | callback hstep =>
      rw [callback_lane hstep, List.filter_append]
      exact hlane.append (List.Sublist.refl _)
  | test ht ho hstep => exact (task_lane hstep hs p).trans hlane

/-! ### Commands that wait for their test -/

/-- The job a task runs the test of. -/
def TaskPc.running : TaskPc ο → Multiset (Job ο)
  | .run j => {j}
  | _ => 0

theorem running_idle : (.idle : TaskPc ο).running = 0 := rfl
theorem running_run (j : Job ο) : (TaskPc.run j).running = {j} := rfl
theorem running_respond (a : Answer ο) : (TaskPc.respond a).running = 0 := rfl

/-- The commands on their way to a test. -/
def Device.ahead (s : Device ο) : Multiset (Job ο) :=
  s.commandQueue.items + s.dispatcher.toList + Fifo.content s.queue + ∑ p, (s.task p).running

theorem callback_ahead (h : callbackStep s = some s') :
    s'.ahead = s.ahead + s.accepting.toList := by
  cases callbackStep_cases h with
  | storePort hpc | storeValid hpc | badSize hpc | goodSize hpc =>
      simp [Device.ahead, Device.accepting, hpc]
  | queued hpc hq =>
      simp only [Device.ahead, Device.accepting, hpc, hq, Option.isSome_some, if_true,
        (Fifo.push_eq_some_iff.mp hq).2, Option.toList_some, ← Multiset.coe_add]
      abel
  | full hpc hq => simp [Device.ahead, Device.accepting, Device.drop, hpc, hq]

/-- What the callback accepts, it has received. -/
theorem callback_received (h : callbackStep s = some s') :
    ∃ l, s'.received = s.received ++ l ∧ s.accepting.toList.Sublist l := by
  cases callbackStep_cases h with
  | storePort hpc | storeValid hpc | badSize hpc | goodSize hpc =>
      exact ⟨[], by simp, by simp [Device.accepting, hpc]⟩
  | @queued j q hpc hq => exact ⟨[j], rfl, by simp [Device.accepting, hpc, hq]⟩
  | @full j hpc hq => exact ⟨[j], rfl, by simp [Device.accepting, hpc, hq]⟩

theorem dispatcher_ahead (h : dispatcherStep s = some s') : s'.ahead ≤ s.ahead := by
  cases dispatcherStep_cases h with
  | timeout => exact le_rfl
  | receive hd hq =>
      apply le_of_eq
      simp only [Device.ahead, Device.print, hd, Fifo.pop_eq_some_iff.mp hq,
        ← Multiset.cons_coe, ← Multiset.singleton_add, Option.toList_none, Option.toList_some,
        Multiset.coe_nil]
      abel
  | unknown hd | full hd =>
      simp only [Device.ahead, Device.drop, hd, Option.toList_none, Option.toList_some,
        Multiset.coe_nil, add_zero]
      gcongr
      exact Multiset.le_add_right _ _
  | forward hd _ hq =>
      apply le_of_eq
      simp only [Device.ahead, hd, Fifo.content_push hq, Option.toList_none, Option.toList_some,
        Multiset.coe_nil, Multiset.coe_singleton]
      abel

/-- A task that does not run a test keeps the commands that wait for one. -/
theorem task_ahead {p : Peripheral} {passed : Bool} (h : taskStep s p passed = some s')
    (hrun : ∀ j, s.task p ≠ .run j) : s'.ahead = s.ahead := by
  have htask := Fifo.sum_update_add TaskPc.running s.task p
  cases taskStep_cases h with
  | @receive j _ ht hq =>
      have hrunning := htask (.run j)
      simp only [ht, running_idle, running_run, add_zero] at hrunning
      simp only [Device.ahead, hrunning, Fifo.content_pop hq]
      abel
  | run ht => exact absurd ht (hrun _)
  | respond ht | full ht =>
      have hidle := htask .idle
      simp only [ht, running_idle, running_respond, add_zero] at hidle
      simp only [Device.ahead, Device.drop, hidle]

/-- A test takes its command out of them. -/
theorem test_ahead {p : Peripheral} {passed : Bool} {j : Job ο}
    (h : taskStep s p passed = some s') (ht : s.task p = .run j) :
    s'.ahead + {j} = s.ahead := by
  have hrunning := Fifo.sum_update_add TaskPc.running s.task p (.respond (j.answer passed))
  simp only [taskStep, ht, Option.some.injEq] at h
  subst h
  simp only [ht, running_run, running_respond, add_zero] at hrunning
  simp only [Device.ahead, ← hrunning]
  abel

/-! ### Where the results go -/

/-- The result was computed by a test of the command, on the peripheral of the command. -/
structure Computed.Genuine (config : Config) (v : Computed ο) : Prop where
  peripheral : Peripheral.ofCode v.job.command.peripheral = some v.peripheral
  result : ∃ g env o, (config.backend v.peripheral).test v.job.command g env = some o ∧
    o.value = v.result

/-- The result in the answer was computed for the command of the answer. -/
def Target.Backs (t : Target ο) (a : Answer ο) : Prop :=
  ∃ p, ⟨p, a.job, a.response.result⟩ ∈ t.computed

/-- What is known about the results and the commands accepted. -/
structure Target.Attributed (config : Config) (t : Target ο) : Prop where
  genuine : ∀ v ∈ t.computed, v.Genuine config
  task : ∀ p a, t.device.task p = .respond a → t.Backs a
  responses : ∀ a ∈ t.device.responses, t.Backs a
  /-- A command with a result is no longer ahead of its test. -/
  ahead : t.device.ahead + t.computed.map Computed.job ≤ t.device.received
  accepted : t.accepted.Sublist t.device.received

theorem attributed_init (udpPcb : Bool) : (.init udpPcb : Target ο).Attributed config where
  genuine := fun _ h => by cases h
  task := fun _ _ h => by cases h
  responses := fun _ h => by cases h
  ahead := by simp [Target.init, Device.init, Device.ahead, Fifo.content, running_idle]
  accepted := List.Sublist.refl _

/-- A response comes from the task that holds it. -/
theorem task_responses {p : Peripheral} {passed : Bool} (h : taskStep s p passed = some s')
    {a : Answer ο} (ha : a ∈ s'.responses) : a ∈ s.responses ∨ s.task p = .respond a := by
  cases taskStep_cases h with
  | receive | run | full => exact .inl ha
  | respond ht hq =>
      simp only [Device.responses, (Fifo.push_eq_some_iff.mp hq).2, List.mem_append,
        List.mem_singleton] at ha ⊢
      rcases ha with ((ha | rfl) | ha) | ha
      · exact .inl (.inl (.inl ha))
      · exact .inr ht
      · exact .inl (.inl (.inr ha))
      · exact .inl (.inr ha)

/-- A task gets an answer by running a test. -/
theorem task_respond {p : Peripheral} {passed : Bool} (h : taskStep s p passed = some s')
    {p' : Peripheral} {a : Answer ο} (ha : s'.task p' = .respond a) :
    s.task p' = .respond a ∨ p' = p ∧ ∃ j, s.task p = .run j ∧ a = j.answer passed := by
  by_cases hne : p' = p
  · subst hne
    cases taskStep_cases h with
    | receive | respond | full => simp at ha
    | @run j ht =>
        simp only [Function.update_self, TaskPc.respond.injEq] at ha
        exact .inr ⟨rfl, j, ht, ha.symm⟩
  · left
    cases taskStep_cases h <;> simpa only [Device.drop, Function.update_of_ne hne] using ha

/-- What a routine step keeps. -/
structure Kept (s s' : Device ο) : Prop where
  task : ∀ p a, s'.task p = .respond a → s.task p = .respond a
  responses : ∀ a ∈ s'.responses, a ∈ s.responses ∨ ∃ p, s.task p = .respond a
  ahead : s'.ahead ≤ s.ahead
  received : s'.received = s.received

theorem routine_kept {e : Event ο} (h : step s e = some s') (he : Routine s e) : Kept s s' := by
  cases e with
  | udpReceive d =>
      cases udpReceive_cases h <;>
        exact ⟨fun _ _ => id, fun _ => .inl, le_rfl, rfl⟩
  | callback => cases he
  | dispatcher =>
      refine ⟨?_, ?_, dispatcher_ahead h, (dispatcherStep_frame h).received⟩
      · cases dispatcherStep_cases h <;> exact fun _ _ => id
      · cases dispatcherStep_cases h <;> exact fun _ => .inl
  | task p passed =>
      refine ⟨?_, ?_, (task_ahead h he).le, (taskStep_frame h).received⟩
      · intro p' a ha
        rcases task_respond h ha with ha | ⟨_, j, hj, _⟩
        · exact ha
        · exact absurd hj (he j)
      · exact fun a ha => (task_responses h ha).imp id fun ht => ⟨p, ht⟩
  | sender allocates err =>
      have hf := senderStep_senderFrame h
      refine ⟨?_, fun a ha => .inl (senderStep_responses h a ha), ?_, (senderStep_frame h).received⟩
      · rw [hf.task]
        exact fun _ _ => id
      · unfold Device.ahead
        rw [hf.commandQueue, hf.dispatcher, hf.queue, hf.task]

theorem TargetMoved.attributed (h : TargetMoved config t t') (hs : Placed t.device)
    (ht : t.Attributed config) : t'.Attributed config := by
  cases h with
  | @routine e s he hstep =>
      have hk := routine_kept hstep he
      refine ⟨ht.genuine, fun p a ha => ht.task p a (hk.task p a ha), ?_, ?_, ?_⟩
      · intro a ha
        rcases hk.responses a ha with ha | ⟨p, hp⟩
        · exact ht.responses a ha
        · exact ht.task p a hp
      · rw [hk.received]
        exact (add_le_add_left hk.ahead _).trans ht.ahead
      · rw [hk.received]
        exact ht.accepted
  | @callback s hstep =>
      obtain ⟨l, hl, hsub⟩ := callback_received hstep
      refine ⟨ht.genuine, ?_, ?_, ?_, ?_⟩
      · have htask : s.task = t.device.task := by cases callbackStep_cases hstep <;> rfl
        rw [htask]
        exact ht.task
      · have hresponses : s.responses = t.device.responses := by
          cases callbackStep_cases hstep <;> rfl
        rw [hresponses]
        exact ht.responses
      · rw [callback_ahead hstep, hl, ← Multiset.coe_add, add_right_comm]
        exact add_le_add ht.ahead (Multiset.coe_le.mpr hsub.subperm)
      · rw [hl]
        exact ht.accepted.append hsub
  | @test p j g env s o hrun ho hstep =>
      have hnew : ∀ a, t.Backs a → ∃ p', (⟨p', a.job, a.response.result⟩ : Computed ο) ∈
          t.computed ++ [⟨p, j, o.value⟩] := by
        rintro a ⟨p', hp'⟩
        exact ⟨p', List.mem_append_left _ hp'⟩
      refine ⟨?_, ?_, ?_, ?_, ?_⟩
      · intro v hv
        rcases List.mem_append.mp hv with hv | hv
        · exact ht.genuine v hv
        · obtain rfl := List.mem_singleton.mp hv
          have hj := hs.task p
          rw [hrun] at hj
          exact ⟨hj, g, env, o, ho, rfl⟩
      · intro p' a ha
        rcases task_respond hstep ha with ha | ⟨rfl, j', hj', rfl⟩
        · exact hnew a (ht.task p' a ha)
        · obtain rfl := TaskPc.run.inj (hrun.symm.trans hj')
          refine ⟨p', ?_⟩
          rw [Backend.answer_result ho]
          exact List.mem_append_right _ List.mem_cons_self
      · intro a ha
        rcases task_responses hstep ha with ha | ha
        · exact hnew a (ht.responses a ha)
        · exact hnew a (ht.task p a ha)
      · rw [(taskStep_frame hstep).received]
        have hahead := test_ahead hstep hrun
        simp only [List.map_append, List.map_cons, List.map_nil, ← Multiset.coe_add,
          Multiset.coe_singleton]
        rw [← add_assoc, add_right_comm, hahead]
        exact ht.ahead
      · rw [(taskStep_frame hstep).received]
        exact ht.accepted

/-! ### Runs -/

structure Target.Invariant (config : Config) (t : Target ο) : Prop where
  device : t.device.Invariant
  lane : ∀ p, (t.device.lane p).Sublist (t.accepted.filter (Job.isFor p))
  attributed : t.Attributed config

theorem target_invariant_init (udpPcb : Bool) : (.init udpPcb : Target ο).Invariant config where
  device := invariant_init udpPcb
  lane := fun _ => List.Sublist.refl _
  attributed := attributed_init udpPcb

theorem Target.Invariant.step (ht : t.Invariant config) (h : targetStep config t m = some t') :
    t'.Invariant config := by
  have hmoved := targetStep_cases h
  obtain ⟨e, he⟩ := hmoved.step
  exact ⟨ht.device.step he, fun p => hmoved.lane ht.device.placed p (ht.lane p),
    hmoved.attributed ht.device.placed ht.attributed⟩

namespace Target.Invariant

/-- The commands accepted came in datagrams, in this order. -/
theorem accepted_sublist (ht : t.Invariant config) :
    t.accepted.Sublist (commandsOf t.device.arrived) := by
  rw [← ht.device.heard]
  exact ht.attributed.accepted.trans (List.sublist_append_left _ _)

/-- No command is tested twice. -/
theorem computed_nodup (ht : t.Invariant config) :
    (t.computed.map fun v => v.job.arrival).Nodup := by
  have hle : ((t.computed.map Computed.job : List (Job ο)) : Multiset (Job ο)) ≤
      t.device.received := (Multiset.le_add_left _ _).trans ht.attributed.ahead
  have hnodup : (t.device.received : Multiset (Job ο)).map Job.arrival |>.Nodup :=
    ht.device.received_nodup
  have := Multiset.nodup_of_le (Multiset.map_le_map hle) hnodup
  simpa [Function.comp_def] using this

end Target.Invariant

/-- **Order and attribution**: in every run, with any losses, the responses handed over for a
peripheral answer a subsequence of its accepted commands in the order of acceptance; each carries
the identifier of its command and the result that was computed for it; every result comes from a
test of its command by the backend of its peripheral; and no command has two results or two
responses. -/
theorem responses_in_order {udpPcb : Bool}
    (h : Reachable (targetStep config) (.init udpPcb) t) :
    (∀ p, ((t.device.handed.map Answer.job).filter (Job.isFor p)).Sublist
      (t.accepted.filter (Job.isFor p))) ∧
    t.accepted.Sublist (commandsOf t.device.arrived) ∧
    (∀ a ∈ t.device.handed, a.response.testId = a.job.command.testId ∧
      ∃ p, ⟨p, a.job, a.response.result⟩ ∈ t.computed) ∧
    (∀ v ∈ t.computed, Peripheral.ofCode v.job.command.peripheral = some v.peripheral ∧
      ∃ g env o, (config.backend v.peripheral).test v.job.command g env = some o ∧
        o.value = v.result) ∧
    (t.computed.map fun v => v.job.arrival).Nodup ∧
    (t.device.handed.map fun a => a.job.arrival).Nodup := by
  have ht : t.Invariant config :=
    h.preserves (fun _ _ _ hs hstep => hs.step hstep) (target_invariant_init udpPcb)
  refine ⟨?_, ht.accepted_sublist, ?_, fun v hv => ?_, ht.computed_nodup, ht.device.handed_nodup⟩
  · intro p
    refine List.Sublist.trans ?_ (ht.lane p)
    apply List.Sublist.filter
    simp only [Device.way, List.append_assoc]
    exact List.sublist_append_left _ _
  · intro a ha
    have hmem : a ∈ t.device.responses := List.mem_append_right _ ha
    exact ⟨ht.device.placed.responses a hmem, ht.attributed.responses a hmem⟩
  · exact ⟨(ht.attributed.genuine v hv).peripheral, (ht.attributed.genuine v hv).result⟩

/-- `app_config.h` as it is. -/
def appConfig : Config where
  backend
    | .timer => .timer
    | .uart => .uartIt
    | .spi => .spiDma
    | .i2c => .i2cDma
    | .adc => .adc
  peripheral_backend p := by cases p <;> rfl

/-- A command without a pattern, in one piece. -/
def plainDatagram (testId : UInt32) (p : Peripheral) (iterations : UInt8) : Datagram Unit where
  source := ⟨1, 2⟩
  chain := [(Command.mk testId p.code iterations 0 (.replicate 255 0)).encode]
  origin := ()

/-- A datagram goes through the callback. -/
def receiveMoves (d : Datagram Unit) : List (TargetMove Unit) :=
  .udpReceive (some d) :: List.replicate 4 .callback

/-- A task receives a command, tests and responds. -/
def taskMoves (p : Peripheral) (env : List Slot) : List (TargetMove Unit) :=
  List.replicate 3 (.task p restingBoard env)

/-- Two commands for the timer and between them one for the UART, whose task overtakes the timer's;
the first iteration of the timer test takes too long. -/
def overtakingSchedule : List (TargetMove Unit) :=
  receiveMoves (plainDatagram 7 .timer 1) ++ receiveMoves (plainDatagram 8 .uart 1) ++
    receiveMoves (plainDatagram 9 .timer 0) ++ List.replicate 6 .dispatcher ++
    taskMoves .uart [] ++ taskMoves .timer [quietSlot 5, quietSlot 0, quietSlot 105005] ++
    taskMoves .timer [] ++ List.replicate 18 (.sender true errOk)

theorem responses_in_order_overtaking :
    ∃ t : Target Unit, Reachable (targetStep appConfig) (.init true) t ∧
      t.device.handed.map Answer.response = [⟨8, 0xFF⟩, ⟨7, 0xFF⟩, ⟨9, 1⟩] ∧
      ∀ p, ((t.device.handed.map Answer.job).filter (Job.isFor p)).Sublist
        (t.accepted.filter (Job.isFor p)) := by
  obtain ⟨t, ht, hhanded⟩ := Option.map_eq_some_iff.mp (show
    (exec (targetStep appConfig) (.init true) overtakingSchedule).map
      (fun t => t.device.handed.map Answer.response) =
        some [⟨8, 0xFF⟩, ⟨7, 0xFF⟩, ⟨9, 1⟩] by decide +kernel)
  have hreach : Reachable (targetStep appConfig) (.init true) t := ⟨_, .of_exec ht⟩
  exact ⟨t, hreach, hhanded, (responses_in_order hreach).1⟩

end PeripheralTester.Firmware
