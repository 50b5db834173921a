import PeripheralTester.Server.Accounting

/-! # The shutdown sequence

The writer leaves its loop for two reasons: `response_queue_pop` fails because the queue is
empty and shut down, which only leads back to the loop test, and the loop test finds
`response_writer_running` cleared.  `response_writer_stop` clears the flag without a look at the
queue, so the writer updates the record it holds and leaves the rest.

* `all_recorded_iff`: from any state in which main begins its shutdown sequence, with any queue
  content, every pushed record is recorded before the summary is read if and only if the writer
  has caught up (`CaughtUp`) when the flag is cleared.
* `shutdownStart_of_reachable`: these are the states in which the process begins it. -/

namespace PeripheralTester.Server

open Lib

variable {env : Startup} {s s' : Process} {c : Channel Received responseQueueCapacity}
  {ls : List Label}

/-- Main is about to call `udp_client_stop_rx_thread`; both threads run, and the records pushed
so far are recorded, in the writer's hand, or in the open queue. -/
structure ShutdownStart (s : Process) : Prop where
  calls : s.calls = MainCall.shutdown
  rxRunning : s.rxThreadRunning = true
  writerRunning : s.responseWriterRunning = true
  writerAlive : s.writer ≠ .notStarted ∧ s.writer ≠ .exited
  account : ∃ c, Accounted s c ∧ c.closed = false

/-- The records the writer still takes out of the queue once its flag is cleared: one if it is
past its loop test. -/
def WriterPc.takes : WriterPc → ℕ
  | .pop => 1
  | _ => 0

/-- When main clears `response_writer_running`, the queue holds no more than the writer still
takes. -/
def CaughtUp (s : Process) : Label → Prop
  | .main _ => s.calls.head? = some .responseWriterStop → s.queue.count ≤ s.writer.takes
  | _ => True

/-- The records a stopped writer leaves in the queue. -/
def stranded (s : Process) : ℕ := s.queue.count - s.writer.takes

/-! ### Before the flag is cleared -/

/-- From the start of the shutdown sequence to `response_writer_stop`. -/
structure Stopping (s : Process) (c : Channel Received responseQueueCapacity) : Prop where
  account : Accounted s c
  writerRunning : s.responseWriterRunning = true
  writerAlive : s.writer ≠ .notStarted ∧ s.writer ≠ .exited
  stage :
    (s.calls = MainCall.shutdown ∧ s.rxThreadRunning = true) ∨
    (s.calls = .joinRxThread :: MainCall.shutdown.drop 1) ∨
    (s.calls = MainCall.shutdown.drop 1 ∧ s.rx = .exited) ∨
    (s.calls = MainCall.shutdown.drop 2 ∧ s.rx = .exited ∧ c.closed = true ∧
      s.writer ≠ .waiting)

/-- From `response_writer_stop` on: the writer leaves `n` records in the queue. -/
structure Stopped (n : ℕ) (s : Process) (c : Channel Received responseQueueCapacity) : Prop where
  account : Accounted s c
  closed : c.closed = true
  rx : s.rx = .exited
  writerRunning : s.responseWriterRunning = false
  writerAwake : s.writer ≠ .notStarted ∧ s.writer ≠ .waiting
  stranded : stranded s = n
  stage : (s.calls = .joinResponseWriter :: MainCall.shutdown.drop 3) ∨
    (s.calls <:+ MainCall.shutdown.drop 3 ∧ s.writer = .exited)

/-! ### The threads and the flags -/

theorem rxStep_alive {a : RecvAnswer} (h : rxStep a s = some s')
    (hs : s.writer ≠ .notStarted ∧ s.writer ≠ .exited) :
    s'.writer ≠ .notStarted ∧ s'.writer ≠ .exited := by
  rcases (rxStep_running h).2.2 with hw | hw <;> rw [hw]
  · exact hs
  · cases hpc : s.writer <;> simp_all [WriterPc.signalled]

/-- While its flag is set, the writer does not leave its loop. -/
theorem writerStep_alive {answer : SqliteAnswer} (h : writerStep answer s = some s')
    (hrun : s.responseWriterRunning = true) :
    s'.writer ≠ .notStarted ∧ s'.writer ≠ .exited := by
  cases writerStep_cases h with
  | test =>
      rw [hrun]
      simp
  | wait | fail | pop | update => simp

theorem rxStep_shutdownRequested {a : RecvAnswer} (h : rxStep a s = some s') :
    s'.queue.shutdownRequested = s.queue.shutdownRequested := by
  cases rxStep_cases h with
  | test | discard | receive | full => rfl
  | @push _ r _ _ hq =>
      have hpush := responseQueuePush_shutdownRequested s.queue (some r)
      rwa [hq] at hpush

theorem writerStep_shutdownRequested {answer : SqliteAnswer}
    (h : writerStep answer s = some s') :
    s'.queue.shutdownRequested = s.queue.shutdownRequested := by
  have hpop := responseQueuePop_shutdownRequested s.queue
  cases writerStep_cases h with
  | test | update => rfl
  | wait _ hq | fail _ hq | pop _ hq => rwa [hq] at hpop

theorem stopping_rxStep {a : RecvAnswer} (h : rxStep a s = some s') (hs : Stopping s c) :
    ∃ c', Stopping s' c' := by
  obtain ⟨c', hc', hclosed⟩ := accounted_rxStep h hs.account
  have hframe := rxStep_frame h
  have hne := (rxStep_running h).2.1
  refine ⟨c', hc', hframe.responseWriterRunning.trans hs.writerRunning,
    rxStep_alive h hs.writerAlive, ?_⟩
  rw [hframe.calls, hframe.rxThreadRunning]
  rcases hs.stage with hst | hst | ⟨_, hex⟩ | ⟨_, hex, _⟩
  · exact .inl hst
  · exact .inr (.inl hst)
  · exact absurd hex hne
  · exact absurd hex hne

theorem stopping_writerStep {answer : SqliteAnswer} (h : writerStep answer s = some s')
    (hs : Stopping s c) : ∃ c', Stopping s' c' := by
  obtain ⟨c', hc', hclosed⟩ := accounted_writerStep h hs.account
  have hframe := writerStep_frame h
  have hawake : c.closed = true → s'.writer ≠ .waiting := by
    cases writerStep_cases h with
    | test =>
        rw [hs.writerRunning]
        simp
    | wait _ hq =>
        -- an empty queue that is shut down does not let the writer wait
        have hopen := (hs.account.queue.of_pop_waiting hq).2.2
        rw [hopen]
        simp
    | fail | pop | update => simp
  refine ⟨c', hc', hframe.responseWriterRunning.trans hs.writerRunning,
    writerStep_alive h hs.writerRunning, ?_⟩
  rw [hframe.calls, hframe.rx, hframe.rxThreadRunning, hclosed]
  rcases hs.stage with hst | hst | hst | ⟨hst, hex, hcl, _⟩
  · exact .inl hst
  · exact .inr (.inl hst)
  · exact .inr (.inr (.inl hst))
  · exact .inr (.inr (.inr ⟨hst, hex, hcl, hawake hcl⟩))

/-- Main goes on with the sequence, and clears the flag at its fourth step. -/
theorem stopping_mainStep {m : MainAnswer} (h : mainStep env m s = some s')
    (hs : Stopping s c) :
    (s.calls.head? ≠ some .responseWriterStop ∧ ∃ c', Stopping s' c') ∨
      (s.calls.head? = some .responseWriterStop ∧ Stopped (stranded s) s' c) := by
  obtain ⟨hacc, hrun, halive, hstage⟩ := hs
  rcases hstage with ⟨hst, hrx⟩ | hst | ⟨hst, hrx⟩ | ⟨hst, hrx, hcl, hw⟩
  · simp only [mainStep, hst, MainCall.shutdown, hrx, if_true] at h
    obtain rfl := Option.some.inj h
    exact .inl ⟨by rw [hst]; decide, c, ⟨hacc.queue, hacc.pushed⟩, hrun, halive,
      .inr (.inl rfl)⟩
  · simp only [mainStep, hst, MainCall.shutdown] at h
    split at h
    · obtain rfl := Option.some.inj h
      exact .inl ⟨by rw [hst]; decide, c, ⟨hacc.queue, hacc.pushed⟩, hrun, halive,
        .inr (.inr (.inl ⟨rfl, ‹_›⟩))⟩
    · cases h
  · simp only [mainStep, hst, MainCall.shutdown, List.drop_succ_cons, List.drop_zero] at h
    obtain rfl := Option.some.inj h
    refine .inl ⟨by rw [hst]; decide, c.close, ⟨represents_shutdown hacc.queue, ?_⟩, hrun, ?_,
      .inr (.inr (.inr ⟨rfl, hrx, rfl, ?_⟩))⟩
    · simpa using hacc.pushed
    · cases hpc : s.writer <;> simp_all [WriterPc.signalled]
    · cases hpc : s.writer <;> simp_all [WriterPc.signalled]
  · simp only [mainStep, hst, MainCall.shutdown, List.drop_succ_cons, List.drop_zero] at h
    obtain rfl := Option.some.inj h
    exact .inr ⟨by rw [hst]; rfl, ⟨hacc.queue, hacc.pushed⟩, hcl, hrx, rfl, ⟨halive.1, hw⟩, rfl,
      .inl rfl⟩

theorem stopping_step {a : Label} (h : step env s a = some s') (hs : Stopping s c) :
    (CaughtUp s a ∧ ∃ c', Stopping s' c') ∨
      ((CaughtUp s a ↔ stranded s = 0) ∧ Stopped (stranded s) s' c) := by
  cases a with
  | main m =>
      rcases stopping_mainStep h hs with ⟨hne, hs'⟩ | ⟨heq, hs'⟩
      · exact .inl ⟨fun hi => absurd hi hne, hs'⟩
      · refine .inr ⟨?_, hs'⟩
        simp only [CaughtUp, heq, forall_const, stranded]
        omega
  | rx a => exact .inl ⟨trivial, stopping_rxStep h hs⟩
  | writer a => exact .inl ⟨trivial, stopping_writerStep h hs⟩
  | wake =>
      simp only [step] at h
      split at h
      · rename_i hw
        obtain rfl := Option.some.inj h
        refine .inl ⟨trivial, c, ⟨hs.account.queue, ?_⟩, hs.writerRunning, by simp, ?_⟩
        · simpa [hw, WriterPc.inHand] using hs.account.pushed
        · rcases hs.stage with hst | hst | hst | ⟨_, _, _, hne⟩
          · exact .inl hst
          · exact .inr (.inl hst)
          · exact .inr (.inr (.inl hst))
          · exact absurd hw hne
      · cases h
  | sigint =>
      obtain rfl := Option.some.inj h
      exact .inl ⟨trivial, c, ⟨hs.account.queue, hs.account.pushed⟩, hs.writerRunning,
        hs.writerAlive, hs.stage⟩

/-! ### After the flag is cleared -/

/-- Every move of a stopped writer takes what it still takes, and no more. -/
theorem stopped_writerStep {n : ℕ} {answer : SqliteAnswer} (h : writerStep answer s = some s')
    (hs : Stopped n s c) : ∃ c', Stopped n s' c' := by
  obtain ⟨c', hc', hclosed⟩ := accounted_writerStep h hs.account
  have hframe := writerStep_frame h
  have hcount := hs.account.queue.ring.count
  have hcount' := hc'.queue.ring.count
  have hstr := hs.stranded
  have hawake : s'.writer ≠ .notStarted ∧ s'.writer ≠ .waiting ∧ stranded s' = n := by
    cases writerStep_cases h with
    | test hw =>
        rw [hs.writerRunning]
        simpa [stranded, hw, WriterPc.takes] using hstr
    | wait _ hq =>
        have hopen := (hs.account.queue.of_pop_waiting hq).2.2
        rw [hs.closed] at hopen
        cases hopen
    | fail hw hq =>
        obtain ⟨rfl, hnil, _⟩ := hs.account.queue.of_pop_fail hq
        rw [hnil, List.length_nil] at hcount
        simp only [stranded, hw, WriterPc.takes] at hstr
        simp only [stranded, WriterPc.takes, ne_eq, reduceCtorEq, not_false_eq_true, true_and]
        omega
    | pop hw hq =>
        obtain ⟨hrep, hitems, _⟩ := hs.account.queue.of_pop_record hq
        have hlen := hrep.ring.count
        rw [hitems, List.length_cons] at hcount
        simp only [stranded, hw, WriterPc.takes] at hstr
        simp only [stranded, WriterPc.takes, ne_eq, reduceCtorEq, not_false_eq_true, true_and]
        omega
    | update hw => simpa [stranded, hw, WriterPc.takes] using hstr
  refine ⟨c', hc', hclosed.trans hs.closed, hframe.rx.trans hs.rx,
    hframe.responseWriterRunning.trans hs.writerRunning, ⟨hawake.1, hawake.2.1⟩, hawake.2.2, ?_⟩
  rcases hs.stage with hst | ⟨_, hw⟩
  · exact .inl (hframe.calls.trans hst)
  · exact absurd hw (writerStep_running h).2

theorem stopped_mainStep {n : ℕ} {m : MainAnswer} (h : mainStep env m s = some s')
    (hs : Stopped n s c) : s.calls.head? ≠ some .responseWriterStop ∧ Stopped n s' c := by
  obtain ⟨hacc, hcl, hrx, hrun, hawake, hstr, hstage⟩ := hs
  rcases hstage with hst | ⟨hst, hw⟩
  · simp only [mainStep, hst, MainCall.shutdown, List.drop_succ_cons, List.drop_zero] at h
    split at h
    · obtain rfl := Option.some.inj h
      exact ⟨by rw [hst]; decide, ⟨hacc.queue, hacc.pushed⟩, hcl, hrx, hrun, hawake, hstr,
        .inr ⟨List.suffix_refl _, ‹_›⟩⟩
    · cases h
  · -- the last three calls and the end
    simp only [MainCall.shutdown, List.drop_succ_cons, List.drop_zero, List.suffix_cons_iff,
      List.suffix_nil] at hst
    rcases hst with hst | hst | hst | hst <;> simp only [mainStep, hst] at h
    · obtain rfl := Option.some.inj h
      exact ⟨by rw [hst]; decide, ⟨hacc.queue, hacc.pushed⟩, hcl, hrx, hrun, hawake, hstr,
        .inr ⟨⟨[.udpClientClose], rfl⟩, hw⟩⟩
    · obtain rfl := Option.some.inj h
      exact ⟨by rw [hst]; decide, ⟨hacc.queue, hacc.pushed⟩, hcl, hrx, hrun, hawake, hstr,
        .inr ⟨⟨[.udpClientClose, .resultDatabasePrintSummary], rfl⟩, hw⟩⟩
    · obtain rfl := Option.some.inj h
      exact ⟨by rw [hst]; decide, ⟨hacc.queue, hacc.pushed⟩, hcl, hrx, hrun, hawake, hstr,
        .inr ⟨List.nil_suffix, hw⟩⟩
    · cases h

theorem stopped_step {n : ℕ} {a : Label} (h : step env s a = some s') (hs : Stopped n s c) :
    CaughtUp s a ∧ ∃ c', Stopped n s' c' := by
  cases a with
  | main m =>
      obtain ⟨hne, hs'⟩ := stopped_mainStep h hs
      exact ⟨fun hi => absurd hi hne, c, hs'⟩
  | rx a => exact absurd hs.rx (rxStep_running h).2.1
  | writer a => exact ⟨trivial, stopped_writerStep h hs⟩
  | wake =>
      simp only [step, hs.writerAwake.2, if_false] at h
      cases h
  | sigint =>
      obtain rfl := Option.some.inj h
      exact ⟨trivial, c, ⟨hs.account.queue, hs.account.pushed⟩, hs.closed, hs.rx,
        hs.writerRunning, hs.writerAwake, hs.stranded, hs.stage⟩

/-- With the writer gone, the stranded records are the pushed ones that were not recorded. -/
theorem stopped_recorded_iff {n : ℕ} (hs : Stopped n s c)
    (hcalls : s.calls.head? = some .resultDatabasePrintSummary) :
    s.pushed = s.updates.map Prod.fst ↔ n = 0 := by
  obtain ⟨hacc, _, _, _, _, hstr, hst | ⟨_, hw⟩⟩ := hs
  · rw [hst] at hcalls
    cases hcalls
  · have hcount := hacc.queue.ring.count
    rw [hacc.pushed, hw]
    simp only [stranded, hw, WriterPc.takes] at hstr
    simp only [WriterPc.inHand, List.append_nil, List.append_right_eq_self]
    rw [← List.length_eq_zero_iff]
    omega

/-! ### The whole sequence -/

theorem stopped_run {n : ℕ} (h : Run (step env) s ls s') (hs : Stopped n s c) :
    Meets (step env) CaughtUp s ls ∧ ∃ c', Stopped n s' c' := by
  induction h generalizing c with
  | refl => exact ⟨trivial, c, hs⟩
  | step hstep _ ih =>
      obtain ⟨hcatch, c₁, hs₁⟩ := stopped_step hstep hs
      obtain ⟨hmeets, c', hs'⟩ := ih hs₁
      exact ⟨(meets_cons hstep).mpr ⟨hcatch, hmeets⟩, c', hs'⟩

theorem stopping_run (h : Run (step env) s ls s') (hs : Stopping s c)
    (hcalls : s'.calls.head? = some .resultDatabasePrintSummary) :
    s'.pushed = s'.updates.map Prod.fst ↔ Meets (step env) CaughtUp s ls := by
  induction h generalizing c with
  | refl =>
      rcases hs.stage with ⟨hst, _⟩ | hst | ⟨hst, _⟩ | ⟨hst, _⟩ <;> rw [hst] at hcalls <;>
        cases hcalls
  | step hstep hrun ih =>
      rw [meets_cons hstep]
      rcases stopping_step hstep hs with ⟨hcatch, c₁, hs₁⟩ | ⟨hiff, hs₁⟩
      · rw [ih hs₁ hcalls]
        exact ⟨fun hm => ⟨hcatch, hm⟩, fun hm => hm.2⟩
      · obtain ⟨hmeets, c', hs'⟩ := stopped_run hrun hs₁
        rw [stopped_recorded_iff hs' hcalls, hiff]
        exact ⟨fun hn => ⟨hn, hmeets⟩, fun hm => hm.1⟩

/-- **Nothing received is lost at shutdown if and only if the writer has caught up**: in every
run from the start of the shutdown sequence to the point where main reads the table, the records
pushed are the records updated if and only if the queue held no more than the writer still takes
when its flag was cleared. -/
theorem all_recorded_iff (hs : ShutdownStart s) (h : Run (step env) s ls s')
    (hcalls : s'.calls.head? = some .resultDatabasePrintSummary) :
    s'.pushed = s'.updates.map Prod.fst ↔ Meets (step env) CaughtUp s ls := by
  obtain ⟨c, hacc, _⟩ := hs.account
  exact stopping_run h ⟨hacc, hs.writerRunning, hs.writerAlive, .inl ⟨hs.calls, hs.rxRunning⟩⟩
    hcalls

/-! ### Where the sequence begins -/

/-- Both threads run and the queue is open. -/
structure Serving (s : Process) : Prop where
  rxRunning : s.rxThreadRunning = true
  writerRunning : s.responseWriterRunning = true
  writerAlive : s.writer ≠ .notStarted ∧ s.writer ≠ .exited
  queueOpen : s.queue.shutdownRequested = false

/-- The calls that only appear once main is on its way out. -/
def MainCall.isClosing : MainCall → Bool
  | .joinRxThread | .responseQueueShutdown | .responseWriterStop | .joinResponseWriter
  | .udpClientClose | .resultDatabasePrintSummary | .resultDatabaseClose => true
  | _ => false

/-- What main can rely on at each point up to its shutdown sequence. -/
inductive Stage (s : Process) : Prop
  | startup (calls : s.calls <:+ MainCall.start) (queueOpen : s.queue.shutdownRequested = false)
      (writer : .responseWriterStart ∈ s.calls ∨ s.responseWriterRunning = true ∧
        s.writer ≠ .notStarted ∧ s.writer ≠ .exited)
      (rx : .udpClientStartRxThread ∈ s.calls ∨ s.rxThreadRunning = true)
  | serving (calls : s.calls <:+ MainCall.round ∨ s.calls = MainCall.afterLoop ∨
      s.calls = MainCall.shutdown) (serving : Serving s)
  | leaving (calls : ∀ x ∈ s.calls, x.isClosing = true)

theorem stage_startup {m : MainAnswer} (h : mainStep env m s = some s')
    (hst : s.calls <:+ MainCall.start) (hq : s.queue.shutdownRequested = false)
    (hw : .responseWriterStart ∈ s.calls ∨ s.responseWriterRunning = true ∧
      s.writer ≠ .notStarted ∧ s.writer ≠ .exited)
    (hrx : .udpClientStartRxThread ∈ s.calls ∨ s.rxThreadRunning = true) : Stage s' := by
  simp only [MainCall.start, List.suffix_cons_iff, List.suffix_nil] at hst
  rcases hst with hst | hst | hst | hst | hst | hst | hst | hst <;>
    simp only [mainStep, hst] at h <;> simp only [hst, List.mem_cons, reduceCtorEq,
      List.not_mem_nil, or_false, or_true, false_or, true_or] at hw hrx
  · obtain rfl := Option.some.inj h
    exact .startup ⟨[_], rfl⟩ hq (.inl (by simp)) (.inl (by simp))
  · have hinit := responseQueueInit_snd (ρ := Received) env.mutexInit env.condInit
    split at h <;> rename_i hi <;> obtain rfl := Option.some.inj h <;> rw [hi] at hinit
    · exact .startup ⟨[_, _], rfl⟩ (congrArg ResponseQueue.shutdownRequested hinit)
        (.inl (by simp)) (.inl (by simp))
    · exact .leaving (show ∀ x ∈ MainCall.queueInitFailed, x.isClosing = true by decide)
  · split at h <;> obtain rfl := Option.some.inj h
    · exact .startup ⟨[_, _, _], rfl⟩ hq (.inl (by simp)) (.inl (by simp))
    · exact .leaving (show ∀ x ∈ MainCall.databaseOpenFailed, x.isClosing = true by decide)
  · split at h <;> obtain rfl := Option.some.inj h
    · exact .startup ⟨[_, _, _, _], rfl⟩ hq (.inr ⟨rfl, by simp⟩) (.inl (by simp))
    · exact .leaving (show ∀ x ∈ MainCall.writerStartFailed, x.isClosing = true by decide)
  · split at h
    · obtain rfl := Option.some.inj h
      exact .leaving (show ∀ x ∈ MainCall.rxStartFailed, x.isClosing = true by decide)
    · split at h <;> obtain rfl := Option.some.inj h
      · exact .startup ⟨[_, _, _, _, _], rfl⟩ hq (.inr hw) (.inr rfl)
      · exact .leaving (show ∀ x ∈ MainCall.rxStartFailed, x.isClosing = true by decide)
  · obtain rfl := Option.some.inj h
    exact .startup ⟨[_, _, _, _, _, _], rfl⟩ hq (.inr hw) (.inr hrx)
  · obtain rfl := Option.some.inj h
    refine .serving ?_ ⟨hrx, hw.1, hw.2, hq⟩
    cases s.appRunning
    · exact .inr (.inl rfl)
    · exact .inl (List.suffix_refl _)
  · cases h

theorem stage_serving {m : MainAnswer} (h : mainStep env m s = some s')
    (hst : s.calls <:+ MainCall.round ∨ s.calls = MainCall.afterLoop ∨
      s.calls = MainCall.shutdown) (hs : Serving s) : Stage s' := by
  obtain ⟨hrx, hrun, halive, hq⟩ := hs
  rcases hst with hst | hst | hst
  · simp only [MainCall.round, List.suffix_cons_iff, List.suffix_nil] at hst
    rcases hst with hst | hst | hst | hst | hst | hst <;> simp only [mainStep, hst] at h
    · obtain rfl := Option.some.inj h
      exact .serving (.inl ⟨[_], rfl⟩) ⟨hrx, hrun, halive, hq⟩
    · split at h <;> obtain rfl := Option.some.inj h
      · exact .serving (.inl ⟨[_, _], rfl⟩) ⟨hrx, hrun, halive, hq⟩
      · exact .serving (.inl ⟨[_, _, _], rfl⟩) ⟨hrx, hrun, halive, hq⟩
    · obtain rfl := Option.some.inj h
      exact .serving (.inl ⟨[_, _, _], rfl⟩) ⟨hrx, hrun, halive, hq⟩
    · obtain rfl := Option.some.inj h
      exact .serving (.inl ⟨[_, _, _, _], rfl⟩) ⟨hrx, hrun, halive, hq⟩
    · obtain rfl := Option.some.inj h
      refine .serving ?_ ⟨hrx, hrun, halive, hq⟩
      cases s.appRunning
      · exact .inr (.inl rfl)
      · exact .inl (List.suffix_refl _)
    · cases h
  · simp only [mainStep, hst, MainCall.afterLoop] at h
    obtain rfl := Option.some.inj h
    exact .serving (.inr (.inr rfl)) ⟨hrx, hrun, halive, hq⟩
  · simp only [mainStep, hst, MainCall.shutdown, hrx, if_true] at h
    obtain rfl := Option.some.inj h
    have hclosing : ∀ x ∈ .joinRxThread :: MainCall.shutdown.tail, x.isClosing = true := by
      decide
    exact .leaving hclosing

theorem stage_leaving {m : MainAnswer} (h : mainStep env m s = some s')
    (hst : ∀ x ∈ s.calls, x.isClosing = true) : Stage s' := by
  obtain ⟨x, cs, hc, hcs⟩ := mainStep_calls h
  rw [hc] at hst
  have hx := hst x List.mem_cons_self
  have hrest : ∀ y ∈ cs, y.isClosing = true := fun y hy => hst y (List.mem_cons_of_mem x hy)
  rcases hcs with hcs | hex | ⟨y, hy, hcs⟩
  · exact .leaving (hcs ▸ hrest)
  · have hno : x.exits = [] := by cases x <;> first | rfl | cases hx
    rw [hno] at hex
    cases hex
  · refine .leaving fun z hz => ?_
    rw [hcs, List.mem_cons] at hz
    rcases hz with rfl | hz
    · cases x <;> cases hy <;> rfl
    · exact hrest z hz

/-- The threads leave the stage as it is. -/
theorem stage_of_frame (hs : Stage s) (hcalls : s'.calls = s.calls)
    (hq : s'.queue.shutdownRequested = s.queue.shutdownRequested)
    (hrun : s'.responseWriterRunning = s.responseWriterRunning)
    (halive : s.responseWriterRunning = true → s.writer ≠ .notStarted ∧ s.writer ≠ .exited →
      s'.writer ≠ .notStarted ∧ s'.writer ≠ .exited)
    (hrx : s'.rxThreadRunning = s.rxThreadRunning) : Stage s' := by
  cases hs with
  | startup hst hqo hw hr =>
      rw [← hcalls] at hst hw hr
      rw [← hrun] at hw
      rw [← hrx] at hr
      exact .startup hst (hq.trans hqo)
        (hw.imp_right fun hw => ⟨hw.1, halive (hrun ▸ hw.1) hw.2⟩) hr
  | serving hst hs =>
      rw [← hcalls] at hst
      exact .serving hst ⟨hrx.trans hs.rxRunning, hrun.trans hs.writerRunning,
        halive hs.writerRunning hs.writerAlive, hq.trans hs.queueOpen⟩
  | leaving hst => exact .leaving (hcalls ▸ hst)

theorem stage_step {a : Label} (h : step env s a = some s') (hs : Stage s) : Stage s' := by
  cases a with
  | main m =>
      cases hs with
      | startup hst hq hw hrx => exact stage_startup h hst hq hw hrx
      | serving hst hs => exact stage_serving h hst hs
      | leaving hst => exact stage_leaving h hst
  | rx a =>
      have hframe := rxStep_frame h
      exact stage_of_frame hs hframe.calls (rxStep_shutdownRequested h)
        hframe.responseWriterRunning (fun _ => rxStep_alive h) hframe.rxThreadRunning
  | writer a =>
      have hframe := writerStep_frame h
      exact stage_of_frame hs hframe.calls (writerStep_shutdownRequested h)
        hframe.responseWriterRunning (fun hr _ => writerStep_alive h hr) hframe.rxThreadRunning
  | wake =>
      simp only [step] at h
      split at h
      · obtain rfl := Option.some.inj h
        exact stage_of_frame hs rfl rfl rfl (by simp) rfl
      · cases h
  | sigint =>
      obtain rfl := Option.some.inj h
      exact stage_of_frame hs rfl rfl rfl (fun _ => id) rfl

theorem stage_init (rows : List Row) : Stage (.init rows) :=
  .startup (List.suffix_refl _) rfl (.inl (by simp [Process.init, MainCall.start]))
    (.inl (by simp [Process.init, MainCall.start]))

theorem stage_of_reachable {rows : List Row} (h : Reachable (step env) (.init rows) s) :
    Stage s :=
  h.preserves (fun _ _ _ hs hstep => stage_step hstep hs) (stage_init rows)

/-- The process begins its shutdown sequence only in such a state. -/
theorem shutdownStart_of_reachable {rows : List Row}
    (h : Reachable (step env) (.init rows) s) (hcalls : s.calls = MainCall.shutdown) :
    ShutdownStart s := by
  obtain ⟨c, hc⟩ := (sound_of_reachable h).account
  cases stage_of_reachable h with
  | startup hst =>
      rw [hcalls] at hst
      exact absurd hst (by decide)
  | serving _ hs =>
      exact ⟨hcalls, hs.rxRunning, hs.writerRunning, hs.writerAlive, c, hc,
        hc.queue.shutdown.symm.trans hs.queueOpen⟩
  | leaving hst =>
      rw [hcalls] at hst
      exact absurd hst (by decide)

/-! ### Two shutdowns -/

/-- A startup in which everything succeeds. -/
def Startup.allSucceed : Startup where
  sock := 3
  mutexInit := true
  condInit := true
  databaseOpens := true
  tableCreates := true
  tableClears := true
  writerCreates := true
  rxCreates := true
  rand := fun _ => 0

/-- A call of main for which everything succeeds at the time `now`. -/
def Label.call (now : ℤ) : Label := .main ⟨true, now, .runs⟩

/-- Ctrl-C while main sleeps after its first command; the response arrives during the stop delay
and the writer does not get to run. -/
def backlogSchedule : List Label :=
  List.replicate 10 (.call 0) ++ .sigint :: List.replicate 3 (.call 0) ++
    [.rx .error, .rx (.datagram [1, 0, 0, 0, 1] 0 0), .rx .error]

/-- The receive thread ends, main clears the flag, and the writer finds it cleared. -/
def closingSchedule : List Label :=
  [.call 0, .rx .error, .call 0, .call 0, .call 0, .writer .runs, .call 0, .call 0]

/-- The same with a writer that records the response before its flag is cleared. -/
def drainingSchedule : List Label :=
  [.writer .runs, .writer .runs, .writer .runs] ++ closingSchedule

/-- A schedule that leads to the shutdown sequence and one that leads on to the summary. -/
theorem exists_shutdown_run (ls₁ ls₂ : List Label)
    (h₁ : (exec (step .allSucceed) (.init []) ls₁).map Process.calls = some MainCall.shutdown)
    (h₂ : (exec (step .allSucceed) (.init []) (ls₁ ++ ls₂)).map (·.calls.head?) =
      some (some .resultDatabasePrintSummary)) :
    ∃ s s' : Process, ShutdownStart s ∧ Run (step .allSucceed) s ls₂ s' ∧
      s'.calls.head? = some .resultDatabasePrintSummary ∧
      exec (step .allSucceed) (.init []) (ls₁ ++ ls₂) = some s' := by
  obtain ⟨s, hs, hcalls⟩ := Option.map_eq_some_iff.mp h₁
  obtain ⟨s', hs', hcalls'⟩ := Option.map_eq_some_iff.mp h₂
  have hrun : exec (step .allSucceed) s ls₂ = some s' := by
    rw [exec_append, hs] at hs'
    exact hs'
  exact ⟨s, s', shutdownStart_of_reachable ⟨ls₁, .of_exec hs⟩ hcalls, .of_exec hrun, hcalls', hs'⟩

theorem all_recorded_iff_draining :
    ∃ s s' : Process, ShutdownStart s ∧ (s'.pushed = s'.updates.map Prod.fst ↔
      Meets (step .allSucceed) CaughtUp s drainingSchedule) := by
  obtain ⟨s, s', hs, hrun, hcalls, _⟩ :=
    exists_shutdown_run backlogSchedule drainingSchedule (by decide) (by decide)
  exact ⟨s, s', hs, all_recorded_iff hs hrun hcalls⟩

/-- A record that was pushed is not recorded: the writer is still at its loop test when its
flag is cleared, and the queue holds the record. -/
theorem backlog_is_lost :
    ¬ ∀ (env : Startup) (s s' : Process) (ls : List Label), ShutdownStart s →
      Run (step env) s ls s' → s'.calls.head? = some .resultDatabasePrintSummary →
      s'.pushed = s'.updates.map Prod.fst := by
  intro hclaim
  obtain ⟨s, s', hs, hrun, hcalls, hexec⟩ :=
    exists_shutdown_run backlogSchedule closingSchedule (by decide) (by decide)
  have hlost : (exec (step .allSucceed) (.init []) (backlogSchedule ++ closingSchedule)).map
      (fun s => (s.pushed.length, s.updates.length)) = some (1, 0) := by decide
  rw [hexec, Option.map_some, Option.some.injEq, Prod.mk.injEq] at hlost
  have heq := congrArg List.length (hclaim _ s s' _ hs hrun hcalls)
  rw [List.length_map, hlost.1, hlost.2] at heq
  cases heq

end PeripheralTester.Server
