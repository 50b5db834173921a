import PeripheralTester.Firmware.Pipeline

/-! # Conservation of commands

`Conserved s`: the commands received are, as a multiset, those in the command queue, held by
the dispatcher, in the peripherals' queues, with the peripherals' tasks, in the response queue,
held by the sender, handed over for sending, and dropped.  A job is identified by the number of
its datagram, so equality of multisets says that nothing is lost, duplicated or invented.

`step_conserves` is the step lemma and `conserved_of_reachable` the result for all runs, together
with what else the places say about the jobs in them (`Placed`). -/

namespace PeripheralTester.Firmware

open Lib

variable {ο : Type}

/-! ### Where a job can be -/

/-- The job a task works on. -/
def TaskPc.job : TaskPc ο → Option (Job ο)
  | .idle => none
  | .run j => some j
  | .respond a => some a.job

/-- The same as a multiset. -/
def TaskPc.jobs : TaskPc ο → Multiset (Job ο)
  | .idle => 0
  | .run j => {j}
  | .respond a => {a.job}

theorem jobs_idle : (.idle : TaskPc ο).jobs = 0 := rfl
theorem jobs_run (j : Job ο) : (TaskPc.run j).jobs = {j} := rfl
theorem jobs_respond (a : Answer ο) : (TaskPc.respond a).jobs = {a.job} := rfl

/-- The response the sender holds and has not handed over yet. -/
def SenderPc.held : SenderPc ο → List (Answer ο)
  | .holding a => [a]
  | _ => []

/-- The jobs in the places a received command can be, handed over and dropped included. -/
def Device.jobs (s : Device ο) : Multiset (Job ο) :=
  s.commandQueue.items + s.dispatcher.toList + Fifo.content s.queue + ∑ p, (s.task p).jobs +
    s.responseQueue.items.map Answer.job + s.sender.held.map Answer.job +
    s.handed.map Answer.job + s.dropped.map Prod.snd

/-- Every command received is in exactly one of these places. -/
def Conserved (s : Device ο) : Prop := (s.received : Multiset (Job ο)) = s.jobs

variable {s s' : Device ο}

theorem conserved_init (udpPcb : Bool) : Conserved (.init udpPcb : Device ο) := by
  simp [Conserved, Device.jobs, Device.init, Fifo.content, TaskPc.jobs, SenderPc.held]

/-! ### Steps -/

theorem udpReceive_conserves {d : Option (Datagram ο)} (h : udpReceive s d = some s')
    (hs : Conserved s) : Conserved s' := by
  cases udpReceive_cases h with
  | null => exact hs
  | datagram => exact hs

theorem callbackStep_conserves (h : callbackStep s = some s') (hs : Conserved s) :
    Conserved s' := by
  unfold Conserved at hs ⊢
  cases callbackStep_cases h with
  | storePort | storeValid | badSize | goodSize => exact hs
  | queued _ hq =>
      -- the job goes into the queue
      have hitems := (Fifo.push_eq_some_iff.mp hq).2
      simp only [Device.jobs, hitems, ← Multiset.coe_add] at hs ⊢
      rw [hs]
      abel
  | full =>
      -- the job is dropped
      simp only [Device.jobs, Device.drop, List.map_append, List.map_cons, List.map_nil,
        ← Multiset.coe_add] at hs ⊢
      rw [hs]
      abel

/-- A job that leaves the dispatcher is dropped. -/
theorem conserved_drop {point : DropPoint} {j : Job ο} (hd : s.dispatcher = some j)
    (hs : Conserved s) : Conserved { s.drop point j with dispatcher := none } := by
  unfold Conserved at hs ⊢
  simp only [Device.jobs, Device.drop, hd, List.map_append, List.map_cons, List.map_nil,
    ← Multiset.coe_add, Option.toList_none, Option.toList_some, Multiset.coe_nil,
    Multiset.coe_singleton] at hs ⊢
  rw [hs]
  abel

theorem dispatcherStep_conserves (h : dispatcherStep s = some s') (hs : Conserved s) :
    Conserved s' := by
  cases dispatcherStep_cases h with
  | timeout => exact hs
  | receive hd hq =>
      -- from the command queue to the dispatcher
      have hitems := Fifo.pop_eq_some_iff.mp hq
      unfold Conserved at hs ⊢
      simp only [Device.jobs, Device.print, hitems, hd, ← Multiset.cons_coe,
        ← Multiset.singleton_add, Option.toList_none, Option.toList_some, Multiset.coe_nil] at hs ⊢
      rw [hs]
      abel
  | unknown hd => exact conserved_drop hd hs
  | forward hd _ hq =>
      -- from the dispatcher to the peripheral's queue
      unfold Conserved at hs ⊢
      simp only [Device.jobs, hd, Fifo.content_push hq, Option.toList_none, Option.toList_some,
        Multiset.coe_nil, Multiset.coe_singleton] at hs ⊢
      rw [hs]
      abel
  | full hd => exact conserved_drop hd hs

theorem taskStep_conserves {p : Peripheral} {passed : Bool} (h : taskStep s p passed = some s')
    (hs : Conserved s) : Conserved s' := by
  have htask := Fifo.sum_update_add TaskPc.jobs s.task p
  unfold Conserved at hs ⊢
  cases taskStep_cases h with
  | @receive j _ ht hq =>
      -- from the queue to the task
      have hrun := htask (.run j)
      simp only [ht, jobs_idle, jobs_run, add_zero] at hrun
      simp only [Device.jobs, hrun, Fifo.content_pop hq] at hs ⊢
      rw [hs]
      abel
  | @run j ht =>
      have hrun := htask (.respond (j.answer passed))
      simp only [ht, jobs_run, jobs_respond, Job.answer] at hrun
      simp only [Device.jobs, Job.answer, add_right_cancel hrun] at hs ⊢
      exact hs
  | respond ht hq =>
      -- from the task to the response queue
      have hidle := htask .idle
      simp only [ht, jobs_idle, jobs_respond, add_zero] at hidle
      have hitems := (Fifo.push_eq_some_iff.mp hq).2
      simp only [Device.jobs, hitems, ← hidle, List.map_append, List.map_cons, List.map_nil,
        ← Multiset.coe_add, Multiset.coe_singleton] at hs ⊢
      rw [hs]
      abel
  | full ht =>
      have hidle := htask .idle
      simp only [ht, jobs_idle, jobs_respond, add_zero] at hidle
      simp only [Device.jobs, Device.drop, ← hidle, List.map_append, List.map_cons, List.map_nil,
        ← Multiset.coe_add, Multiset.coe_singleton] at hs ⊢
      rw [hs]
      abel

theorem senderStep_conserves {allocates : Bool} {err : ℤ}
    (h : senderStep s allocates err = some s') (hs : Conserved s) : Conserved s' := by
  unfold Conserved at hs ⊢
  cases senderStep_cases h with
  | timeout => exact hs
  | receive hp hq =>
      -- from the response queue to the sender
      have hitems := Fifo.pop_eq_some_iff.mp hq
      simp only [Device.jobs, Device.print, hitems, hp, SenderPc.held, List.map_cons,
        List.map_nil, ← Multiset.cons_coe, ← Multiset.singleton_add, Multiset.coe_nil] at hs ⊢
      rw [hs]
      abel
  | notReady hp | hand hp =>
      -- from the sender to app_net_udp_send_response
      simp only [Device.jobs, Device.print, hp, SenderPc.held, List.map_append, List.map_cons,
        List.map_nil, ← Multiset.coe_add, Multiset.coe_nil, Multiset.coe_singleton] at hs ⊢
      rw [hs]
      abel
  | allocated hp | notAllocated hp | readAddr hp | readPort hp | notSent hp | sent hp =>
      simpa only [Device.jobs, Device.print, hp, SenderPc.held] using hs

theorem step_conserves {e : Event ο} (h : step s e = some s') (hs : Conserved s) :
    Conserved s' := by
  cases e with
  | udpReceive d => exact udpReceive_conserves h hs
  | callback => exact callbackStep_conserves h hs
  | dispatcher => exact dispatcherStep_conserves h hs
  | task p passed => exact taskStep_conserves h hs
  | sender allocates err => exact senderStep_conserves h hs

/-! ### The commands received -/

/-- The job of the datagram numbered `n`, if it has the size of a command. -/
def commandOf (n : ℕ) (d : Datagram ο) : Option (Job ο) :=
  if d.totLen = Command.size then
    some ⟨Command.decode d.chain.flatten, n, d.source, d.origin⟩
  else none

/-- The correctly sized commands among the datagrams, in order of arrival. -/
def commandsOf (l : List (Datagram ο)) : List (Job ο) :=
  l.zipIdx.filterMap fun e => commandOf e.2 e.1

/-- The job of the datagram the callback is still busy with. -/
def CallbackPc.pending : CallbackPc ο → List (Job ο)
  | .idle => []
  | .storePort d n | .storeValid d n | .check d n => (commandOf n d).toList
  | .send j => [j]

/-- The commands received are the correctly sized datagrams, except the one in the callback. -/
def Heard (s : Device ο) : Prop := s.received ++ s.callback.pending = commandsOf s.arrived

theorem commandsOf_append (l : List (Datagram ο)) (d : Datagram ο) :
    commandsOf (l ++ [d]) = commandsOf l ++ (commandOf l.length d).toList := by
  unfold commandsOf
  rw [List.zipIdx_append, List.filterMap_append]
  congr 1
  cases h : commandOf l.length d <;> simp [h]

theorem mem_commandsOf {l : List (Datagram ο)} {j : Job ο} (h : j ∈ commandsOf l) :
    ∃ d, l[j.arrival]? = some d ∧ commandOf j.arrival d = some j := by
  unfold commandsOf at h
  obtain ⟨⟨d, n⟩, hd, hj⟩ := List.mem_filterMap.mp h
  have hn : j.arrival = n := by
    unfold commandOf at hj
    split at hj
    · rw [← Option.some.inj hj]
    · cases hj
  rw [hn]
  exact ⟨d, List.mem_zipIdx_iff_getElem?.mp hd, hj⟩

/-- Different commands have different numbers. -/
theorem commandsOf_arrival_nodup (l : List (Datagram ο)) :
    ((commandsOf l).map Job.arrival).Nodup := by
  induction l using List.reverseRecOn with
  | nil => exact List.nodup_nil
  | append_singleton l d ih =>
      rw [commandsOf_append, List.map_append]
      cases hc : commandOf l.length d with
      | none => simpa using ih
      | some j =>
          have hj : j.arrival = l.length := by
            unfold commandOf at hc
            split at hc
            · rw [← Option.some.inj hc]
            · cases hc
          rw [Option.toList_some, List.map_singleton, List.nodup_append]
          refine ⟨ih, List.nodup_singleton _, ?_⟩
          intro n hn m hm
          obtain ⟨j', hj', rfl⟩ := List.mem_map.mp hn
          obtain ⟨d', hd', _⟩ := mem_commandsOf hj'
          have hlt := (List.getElem?_eq_some_iff.mp hd').1
          rw [List.mem_singleton.mp hm, hj]
          exact Nat.ne_of_lt hlt

theorem callbackStep_heard (h : callbackStep s = some s') (hs : Heard s) : Heard s' := by
  unfold Heard at hs ⊢
  cases callbackStep_cases h with
  | storePort hpc | storeValid hpc =>
      rw [hpc] at hs
      exact hs
  | badSize hpc hsize =>
      rw [hpc, CallbackPc.pending, commandOf, if_neg hsize] at hs
      exact hs
  | goodSize hpc hsize =>
      rw [hpc, CallbackPc.pending, commandOf, if_pos hsize] at hs
      exact hs
  | queued hpc | full hpc =>
      rw [hpc] at hs
      simpa only [Device.drop, CallbackPc.pending, List.append_nil] using hs

theorem udpReceive_heard {d : Option (Datagram ο)} (h : udpReceive s d = some s')
    (hs : Heard s) : Heard s' := by
  unfold Heard at hs ⊢
  cases udpReceive_cases h with
  | null => exact hs
  | datagram hpc =>
      rw [hpc, CallbackPc.pending, List.append_nil] at hs
      rw [commandsOf_append, ← hs]
      rfl

theorem Heard.of_frame (hs : Heard s) (hf : TaskFrame s s') : Heard s' := by
  unfold Heard
  rw [hf.received, hf.callback, hf.arrived]
  exact hs

theorem step_heard {e : Event ο} (h : step s e = some s') (hs : Heard s) : Heard s' := by
  cases e with
  | udpReceive d => exact udpReceive_heard h hs
  | callback => exact callbackStep_heard h hs
  | dispatcher => exact hs.of_frame (dispatcherStep_frame h)
  | task p passed => exact hs.of_frame (taskStep_frame h)
  | sender allocates err => exact hs.of_frame (senderStep_frame h)

/-! ### What the places say about their jobs -/

/-- The responses that exist or were handed over. -/
def Device.responses (s : Device ο) : List (Answer ο) :=
  s.responseQueue.items ++ s.sender.held ++ s.handed

/-- A job is in the queue its peripheral field names. -/
def QueueOf (p : Peripheral) (q : Fifo (Job ο) appQueueLength) : Prop :=
  ∀ j ∈ q.items, Peripheral.ofCode j.command.peripheral = some p

/-- The task of a peripheral works on jobs of the peripheral and answers with their identifiers. -/
def TaskOf (p : Peripheral) : TaskPc ο → Prop
  | .idle => True
  | .run j => Peripheral.ofCode j.command.peripheral = some p
  | .respond a => Peripheral.ofCode a.job.command.peripheral = some p ∧
      a.response.testId = a.job.command.testId

structure Placed (s : Device ο) : Prop where
  queue : ∀ p, QueueOf p (s.queue p)
  task : ∀ p, TaskOf p (s.task p)
  /-- A response carries the identifier of its job. -/
  responses : ∀ a ∈ s.responses, a.response.testId = a.job.command.testId
  /-- Every loss was logged, in order. -/
  logged : (s.dropped.map fun e => e.1.line).Sublist s.log

theorem placed_init (udpPcb : Bool) : Placed (.init udpPcb : Device ο) where
  queue := fun _ _ h => by cases h
  task := fun _ => trivial
  responses := fun _ h => by cases h
  logged := List.Sublist.refl _

/-- A loss logs its line. -/
theorem drop_logged {point : DropPoint} {j : Job ο}
    (h : (s.dropped.map fun e => e.1.line).Sublist s.log) :
    ((s.drop point j).dropped.map fun e => e.1.line).Sublist (s.drop point j).log := by
  simp only [Device.drop, List.map_append, List.map_cons, List.map_nil]
  exact h.append (List.Sublist.refl _)

theorem print_logged {line : String} (h : (s.dropped.map fun e => e.1.line).Sublist s.log) :
    (s.dropped.map fun e => e.1.line).Sublist (s.print line).log :=
  h.trans (List.sublist_append_left _ _)

theorem dispatcherStep_placed (h : dispatcherStep s = some s') (hs : Placed s) : Placed s' := by
  cases dispatcherStep_cases h with
  | timeout | receive => exact ⟨hs.queue, hs.task, hs.responses, print_logged hs.logged⟩
  | unknown | full => exact ⟨hs.queue, hs.task, hs.responses, drop_logged hs.logged⟩
  | @forward j p q _ hp hq =>
      have hqueue : QueueOf p q := by
        intro j' hj'
        rw [(Fifo.push_eq_some_iff.mp hq).2, List.mem_append, List.mem_singleton] at hj'
        rcases hj' with hj' | rfl
        · exact hs.queue p j' hj'
        · exact hp
      refine ⟨?_, hs.task, hs.responses, hs.logged⟩
      exact (Function.forall_update_iff _ QueueOf).mpr ⟨hqueue, fun p' _ => hs.queue p'⟩

theorem taskStep_placed {p : Peripheral} {passed : Bool} (h : taskStep s p passed = some s')
    (hs : Placed s) : Placed s' := by
  have htask : ∀ t, TaskOf p t → ∀ p', TaskOf p' (Function.update s.task p t p') := fun t ht =>
    (Function.forall_update_iff _ TaskOf).mpr ⟨ht, fun p' _ => hs.task p'⟩
  have hold := hs.task p
  cases taskStep_cases h with
  | @receive j q _ hq =>
      -- the task takes a job of its queue
      have hqueue := hs.queue p
      rw [QueueOf, Fifo.pop_eq_some_iff.mp hq, List.forall_mem_cons] at hqueue
      refine ⟨?_, htask _ hqueue.1, hs.responses, hs.logged⟩
      exact (Function.forall_update_iff _ QueueOf).mpr ⟨hqueue.2, fun p' _ => hs.queue p'⟩
  | run ht =>
      rw [ht] at hold
      exact ⟨hs.queue, htask _ ⟨hold, rfl⟩, hs.responses, hs.logged⟩
  | respond ht hq =>
      rw [ht] at hold
      refine ⟨hs.queue, htask _ trivial, ?_, hs.logged⟩
      intro a' ha'
      have hresponses := hs.responses a'
      simp only [Device.responses, (Fifo.push_eq_some_iff.mp hq).2, List.mem_append,
        List.mem_singleton] at ha' hresponses
      rcases ha' with ((ha' | rfl) | ha') | ha'
      · exact hresponses (.inl (.inl ha'))
      · exact hold.2
      · exact hresponses (.inl (.inr ha'))
      · exact hresponses (.inr ha')
  | full => exact ⟨hs.queue, htask _ trivial, hs.responses, drop_logged hs.logged⟩

/-- The sender passes responses on; it makes none. -/
theorem senderStep_responses {allocates : Bool} {err : ℤ}
    (h : senderStep s allocates err = some s') : ∀ a ∈ s'.responses, a ∈ s.responses := by
  cases senderStep_cases h with
  | timeout => exact fun _ => id
  | receive hp hq =>
      intro a' ha'
      simp only [Device.responses, Device.print, SenderPc.held, hp, Fifo.pop_eq_some_iff.mp hq,
        List.mem_append, List.mem_cons, List.not_mem_nil, or_false] at ha' ⊢
      tauto
  | notReady hp | hand hp =>
      intro a' ha'
      simp only [Device.responses, Device.print, SenderPc.held, hp, List.mem_append,
        List.mem_singleton, List.not_mem_nil, or_false] at ha' ⊢
      tauto
  | allocated hp | notAllocated hp | readAddr hp | readPort hp | notSent hp | sent hp =>
      simp [Device.responses, Device.print, SenderPc.held, hp]

theorem senderStep_placed {allocates : Bool} {err : ℤ} (h : senderStep s allocates err = some s')
    (hs : Placed s) : Placed s' := by
  have hf := senderStep_senderFrame h
  refine ⟨?_, ?_, fun a ha => hs.responses a (senderStep_responses h a ha), ?_⟩
  · rw [hf.queue]
    exact hs.queue
  · rw [hf.task]
    exact hs.task
  · rw [hf.dropped]
    exact hs.logged.trans hf.log.sublist

theorem callbackStep_placed (h : callbackStep s = some s') (hs : Placed s) : Placed s' := by
  cases callbackStep_cases h with
  | storePort | storeValid | badSize | goodSize | queued =>
      exact ⟨hs.queue, hs.task, hs.responses, hs.logged⟩
  | full => exact ⟨hs.queue, hs.task, hs.responses, drop_logged hs.logged⟩

theorem udpReceive_placed {d : Option (Datagram ο)} (h : udpReceive s d = some s')
    (hs : Placed s) : Placed s' := by
  cases udpReceive_cases h with
  | null => exact hs
  | datagram => exact ⟨hs.queue, hs.task, hs.responses, hs.logged⟩

theorem step_placed {e : Event ο} (h : step s e = some s') (hs : Placed s) : Placed s' := by
  cases e with
  | udpReceive d => exact udpReceive_placed h hs
  | callback => exact callbackStep_placed h hs
  | dispatcher => exact dispatcherStep_placed h hs
  | task p passed => exact taskStep_placed h hs
  | sender allocates err => exact senderStep_placed h hs

/-! ### Runs -/

/-- The invariant of the pipeline. -/
structure Device.Invariant (s : Device ο) : Prop where
  conserved : Conserved s
  heard : Heard s
  placed : Placed s

theorem invariant_init (udpPcb : Bool) : (.init udpPcb : Device ο).Invariant where
  conserved := conserved_init udpPcb
  heard := rfl
  placed := placed_init udpPcb

theorem Device.Invariant.step {e : Event ο} (hs : s.Invariant)
    (h : Firmware.step s e = some s') : s'.Invariant where
  conserved := step_conserves h hs.conserved
  heard := step_heard h hs.heard
  placed := step_placed h hs.placed

theorem invariant_of_reachable {udpPcb : Bool} (h : Reachable step (.init udpPcb) s) :
    s.Invariant :=
  h.preserves (fun _ _ _ hs hstep => hs.step hstep) (invariant_init udpPcb)

namespace Device.Invariant

/-- The job of a response was received. -/
theorem job_mem (hs : s.Invariant) {a : Answer ο} (ha : a ∈ s.responses) : a.job ∈ s.received := by
  rw [← Multiset.mem_coe, hs.conserved]
  simp only [Device.responses, List.mem_append] at ha
  have hmem : ∀ l : List (Answer ο), a ∈ l → a.job ∈ (l.map Answer.job : Multiset (Job ο)) :=
    fun l hl => Multiset.mem_coe.mpr (List.mem_map_of_mem hl)
  simp only [Device.jobs, Multiset.mem_add]
  rcases ha with (ha | ha) | ha
  · exact .inl (.inl (.inl (.inr (hmem _ ha))))
  · exact .inl (.inl (.inr (hmem _ ha)))
  · exact .inl (.inr (hmem _ ha))

theorem received_nodup (hs : s.Invariant) : (s.received.map Job.arrival).Nodup := by
  have hnodup := commandsOf_arrival_nodup s.arrived
  rw [← hs.heard, List.map_append] at hnodup
  exact hnodup.of_append_left

/-- No command is answered twice. -/
theorem handed_nodup (hs : s.Invariant) : (s.handed.map fun a => a.job.arrival).Nodup := by
  have hle : ((s.handed.map Answer.job : List (Job ο)) : Multiset (Job ο)) ≤ s.received := by
    rw [hs.conserved, Device.jobs]
    exact (Multiset.le_add_left _ _).trans (Multiset.le_add_right _ _)
  have hnodup : (s.received : Multiset (Job ο)).map Job.arrival |>.Nodup := hs.received_nodup
  have := Multiset.nodup_of_le (Multiset.map_le_map hle) hnodup
  simpa [Function.comp_def] using this

end Device.Invariant

/-- **Conservation of commands**: in every state of every run the correctly sized commands
received are those in the command queue, with the dispatcher, in the peripherals' queues, with
their tasks, in the response queue, with the sender, handed over and dropped; a queued command is
in the queue its peripheral field names, a response carries the identifier of its command, every
drop was logged, and no command is answered twice. -/
theorem conserved_of_reachable {udpPcb : Bool} (h : Reachable step (.init udpPcb) s) :
    (s.received : Multiset (Job ο)) =
      s.commandQueue.items + s.dispatcher.toList + ∑ p, ((s.queue p).items : Multiset (Job ο)) +
        ∑ p, (s.task p).jobs + s.responseQueue.items.map Answer.job +
        s.sender.held.map Answer.job + s.handed.map Answer.job + s.dropped.map Prod.snd ∧
      s.received ++ s.callback.pending = commandsOf s.arrived ∧
      (∀ p, QueueOf p (s.queue p) ∧ TaskOf p (s.task p)) ∧
      (∀ a ∈ s.responses, a.response.testId = a.job.command.testId ∧ a.job ∈ s.received) ∧
      (s.handed.map fun a => a.job.arrival).Nodup ∧
      (s.dropped.map fun e => e.1.line).Sublist s.log := by
  have hs := invariant_of_reachable h
  exact ⟨hs.conserved, hs.heard, fun p => ⟨hs.placed.queue p, hs.placed.task p⟩,
    fun a ha => ⟨hs.placed.responses a ha, hs.job_mem ha⟩, hs.handed_nodup, hs.placed.logged⟩

/-- A timer command without iterations, in one piece. -/
def timerDatagram (testId : UInt32) (source : Endpoint) : Datagram Unit where
  source := source
  chain := [(Command.mk testId Peripheral.timer.code 0 0 (.replicate 255 0)).encode]
  origin := ()

/-- A datagram goes through the callback. -/
def receiveSchedule (d : Datagram Unit) : List (Event Unit) :=
  .udpReceive (some d) :: List.replicate 4 .callback

/-- The timer task answers the oldest command and the sender sends the response. -/
def answerSchedule : List (Event Unit) :=
  [.dispatcher, .dispatcher, .task .timer true, .task .timer true, .task .timer true] ++
    List.replicate 6 (.sender true errOk)

theorem conserved_of_reachable_timer :
    ∃ s : Device Unit, Reachable step (.init true) s ∧ s.handed.length = 1 ∧
      (s.handed.map fun a => a.job.arrival).Nodup := by
  obtain ⟨s, hs, hlen⟩ := Option.map_eq_some_iff.mp (show
    (exec step (.init true) (receiveSchedule (timerDatagram 7 ⟨1, 2⟩) ++ answerSchedule)).map
      (fun s => s.handed.length) = some 1 by decide +kernel)
  have hreach : Reachable step (.init true) s := ⟨_, .of_exec hs⟩
  exact ⟨s, hreach, hlen, (conserved_of_reachable hreach).2.2.2.2.1⟩

end PeripheralTester.Firmware
