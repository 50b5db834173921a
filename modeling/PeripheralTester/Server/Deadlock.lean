import PeripheralTester.Server.Shutdown

/-! # Main and the writer

Main waits for the writer in `response_writer_stop`, and the writer waits for a record or the
shutdown flag in `response_queue_pop`.  A waiting writer only learns that it should stop if the
queue was shut down before main joins it.  `Guarded` says so of the calls main has left, for
every way they can turn out; the only list of calls that is not guarded is the exit after
`udp_client_start_rx_thread` failed.

`never_deadlocked_iff`: no reachable state is deadlocked if and only if the process does not
take that exit. -/

namespace PeripheralTester.Server

open Lib

variable {env : Startup} {s s' : Process}

/-- Main is in `pthread_join` on the writer, the writer waits in `response_queue_pop` on an
empty open queue, and no receive thread is left to push. -/
structure Deadlocked (s : Process) : Prop where
  main : s.calls.head? = some .joinResponseWriter
  writer : s.writer = .waiting
  empty : s.queue.count = 0
  queueOpen : s.queue.shutdownRequested = false
  rx : s.rx = .notStarted ∨ s.rx = .exited

namespace Startup

/-- `response_queue_init` succeeds. -/
def queueInits (env : Startup) : Prop := env.mutexInit = true ∧ env.condInit = true

/-- `result_database_open` succeeds. -/
def databaseReady (env : Startup) : Prop :=
  env.databaseOpens = true ∧ env.tableCreates = true ∧ env.tableClears = true

/-- `udp_client_start_rx_thread` fails. -/
def rxStartFails (env : Startup) : Prop := env.sock < 0 ∨ env.rxCreates = false

end Startup

/-- Main does not tell the writer to stop before it has shut the queue down, whatever the calls
return; the flag is `queue.shutdownRequested` before the first call. -/
def Guarded (env : Startup) : Bool → List MainCall → Prop
  | _, [] => True
  | _, .responseQueueInit :: cs => env.queueInits → Guarded env false cs
  | b, .resultDatabaseOpen :: cs => env.databaseReady → Guarded env b cs
  | b, .responseWriterStart :: cs => env.writerCreates = true → Guarded env b cs
  | b, .udpClientStartRxThread :: cs => ¬ env.rxStartFails ∧ Guarded env b cs
  | _, .responseQueueShutdown :: cs => Guarded env true cs
  | b, .responseWriterStop :: cs => b = true ∧ Guarded env b cs
  | b, .joinResponseWriter :: cs => b = true ∧ Guarded env b cs
  | b, _ :: cs => Guarded env b cs

theorem guarded_start : Guarded env false MainCall.start ↔
    ¬ (env.queueInits ∧ env.databaseReady ∧ env.writerCreates = true ∧ env.rxStartFails) := by
  simp only [MainCall.start, Guarded, and_true]
  tauto

/-- The exits other than the one for the receive thread are guarded from any flag. -/
theorem guarded_exits (env : Startup) (b : Bool) :
    Guarded env b MainCall.queueInitFailed ∧ Guarded env b MainCall.databaseOpenFailed ∧
      Guarded env b MainCall.writerStartFailed ∧ Guarded env b MainCall.round ∧
      Guarded env b MainCall.sendFailed ∧ Guarded env b MainCall.afterLoop := by
  simp [MainCall.queueInitFailed, MainCall.databaseOpenFailed, MainCall.writerStartFailed,
    MainCall.round, MainCall.sendFailed, MainCall.afterLoop, MainCall.shutdown, Guarded]

theorem queueInits_of_ok {q : ResponseQueue Received}
    (h : responseQueueInit env.mutexInit env.condInit = (.ok, q)) : env.queueInits := by
  unfold Startup.queueInits
  unfold responseQueueInit at h
  cases hm : env.mutexInit <;> cases hc : env.condInit <;> simp [hm, hc] at h ⊢

theorem databaseReady_of_ok {db db' : Database}
    (h : resultDatabaseOpen db env.databaseOpens env.tableCreates env.tableClears = (.ok, db')) :
    env.databaseReady := by
  unfold Startup.databaseReady
  unfold resultDatabaseOpen at h
  cases ho : env.databaseOpens <;> cases hc : env.tableCreates <;>
    cases hl : env.tableClears <;> simp [ho, hc, hl] at h ⊢

theorem guarded_mainStep {m : MainAnswer} (h : mainStep env m s = some s')
    (hsock : s.calls.head? = some .udpClientOpen ∨ s.sock = env.sock)
    (hs : Guarded env s.queue.shutdownRequested s.calls) :
    Guarded env s'.queue.shutdownRequested s'.calls := by
  obtain ⟨hqi, hdb, hws, hround, hsend, hafter⟩ := guarded_exits env s.queue.shutdownRequested
  have hinit := responseQueueInit_snd (ρ := Received) env.mutexInit env.condInit
  cases mainStep_cases h with
  | @responseQueueInit cs q hc hok =>
      rw [hc] at hs
      rw [hok] at hinit
      have hflag : q.shutdownRequested = false := congrArg ResponseQueue.shutdownRequested hinit
      show Guarded env q.shutdownRequested cs
      rw [hflag]
      exact hs (queueInits_of_ok hok)
  | queueInitFailed => exact (guarded_exits env _).1
  | resultDatabaseOpen hc hopen =>
      rw [hc] at hs
      exact hs (databaseReady_of_ok hopen)
  | databaseOpenFailed => exact hdb
  | responseWriterStart hc hcreates =>
      rw [hc] at hs
      exact hs hcreates
  | writerStartFailed => exact hws
  | udpClientStartRxThread hc =>
      rw [hc] at hs
      exact hs.2
  | rxWithoutSocket hc hsocket =>
      -- the exit that is not guarded is not taken
      rw [hc] at hs hsock
      rw [hsock.resolve_left (by simp)] at hsocket
      exact absurd (.inl hsocket) hs.1
  | rxStartFailed hc _ hcreates =>
      rw [hc] at hs
      exact absurd (.inr hcreates) hs.1
  | round => exact hround
  | afterLoop => exact hafter
  | sendFailed => exact hsend
  | joinResponseWriter hc =>
      rw [hc] at hs
      exact hs.2
  | udpClientOpen hc | commandGeneratorInit hc | commandGeneratorBuildNext hc
  | udpClientSendCommand hc | resultDatabaseInsertCommand hc | sleepDelay hc
  | sleepApplicationStopDelay hc | udpClientStopRxThread hc | rxNotRunning hc | joinRxThread hc
  | responseQueueShutdown hc | responseWriterStop hc | udpClientClose hc
  | resultDatabasePrintSummary hc | resultDatabaseClose hc =>
      rw [hc] at hs
      exact hs

/-- The socket is the one `udp_client_open` returned, once it was called. -/
def SocketSet (env : Startup) (s : Process) : Prop :=
  s.calls.head? = some .udpClientOpen ∨ s.sock = env.sock

theorem socketSet_mainStep {m : MainAnswer} (h : mainStep env m s = some s')
    (hs : SocketSet env s) : SocketSet env s' := by
  refine .inr ?_
  cases mainStep_cases h
  case udpClientOpen => rfl
  all_goals exact hs.resolve_left (by simp [‹s.calls = _›])

/-- The two invariants hold in every state of a process that does not take the exit. -/
theorem guarded_of_reachable {rows : List Row}
    (henv : ¬ (env.queueInits ∧ env.databaseReady ∧ env.writerCreates = true ∧
      env.rxStartFails)) (h : Reachable (step env) (.init rows) s) :
    SocketSet env s ∧ Guarded env s.queue.shutdownRequested s.calls := by
  refine Reachable.preserves (I := fun s => SocketSet env s ∧
    Guarded env s.queue.shutdownRequested s.calls) ?_ h ⟨.inl rfl, guarded_start.mpr henv⟩
  intro s a s' ⟨hsock, hs⟩ hstep
  cases a with
  | main m => exact ⟨socketSet_mainStep hstep hsock, guarded_mainStep hstep hsock hs⟩
  | rx a =>
      have hframe := rxStep_frame hstep
      rw [SocketSet, hframe.calls, hframe.sock, rxStep_shutdownRequested hstep]
      exact ⟨hsock, hs⟩
  | writer a =>
      have hframe := writerStep_frame hstep
      rw [SocketSet, hframe.calls, hframe.sock, writerStep_shutdownRequested hstep]
      exact ⟨hsock, hs⟩
  | wake =>
      simp only [step] at hstep
      split at hstep
      · obtain rfl := Option.some.inj hstep
        exact ⟨hsock, hs⟩
      · cases hstep
  | sigint =>
      obtain rfl := Option.some.inj hstep
      exact ⟨hsock, hs⟩

/-! ### The unguarded exit -/

/-- The writer waits, and main is about to create the receive thread. -/
def writerWaiting (env : Startup) (rows : List Row) : Process :=
  { Process.init rows with
    calls := [.udpClientStartRxThread, .commandGeneratorInit, .whileAppRunning]
    sock := env.sock
    responseWriterRunning := true
    writer := .waiting
    database := ⟨true, []⟩ }

theorem reachable_writerWaiting (rows : List Row) (hq : env.queueInits) (hd : env.databaseReady)
    (hw : env.writerCreates = true) :
    Reachable (step env) (.init rows) (writerWaiting env rows) := by
  obtain ⟨sock, mutexInit, condInit, opens, creates, clears, writer, rx, rand⟩ := env
  obtain ⟨rfl, rfl⟩ := hq
  obtain ⟨rfl, rfl, rfl⟩ := hd
  obtain rfl := hw
  exact ⟨List.replicate 4 (.call 0) ++ [.writer .runs, .writer .runs], .of_exec rfl⟩

/-- Main takes the exit, clears the flag of the waiting writer and joins it. -/
theorem deadlocked_of_rxStartFails (env : Startup) (rows : List Row) (hq : env.queueInits)
    (hd : env.databaseReady) (hw : env.writerCreates = true) (hrx : env.rxStartFails) :
    ∃ s, Reachable (step env) (.init rows) s ∧ Deadlocked s := by
  have hexit : step env (writerWaiting env rows) (.call 0) =
      some { writerWaiting env rows with calls := MainCall.rxStartFailed } := by
    by_cases hneg : env.sock < 0
    · exact if_pos hneg
    · have hnot : ¬ env.rxCreates = true := by simp [hrx.resolve_left hneg]
      exact (if_neg hneg).trans (if_neg hnot)
  exact ⟨_, ((reachable_writerWaiting rows hq hd hw).next hexit).next (a := .call 0) rfl,
    ⟨rfl, rfl, rfl, rfl, .inl rfl⟩⟩

/-- **Main never deadlocks with the writer if and only if the process does not take the exit
after `udp_client_start_rx_thread` failed.** -/
theorem never_deadlocked_iff (env : Startup) (rows : List Row) :
    (∀ s, Reachable (step env) (.init rows) s → ¬ Deadlocked s) ↔
      ¬ (env.queueInits ∧ env.databaseReady ∧ env.writerCreates = true ∧ env.rxStartFails) := by
  constructor
  · rintro hnever ⟨hq, hd, hw, hrx⟩
    obtain ⟨s, hreach, hdead⟩ := deadlocked_of_rxStartFails env rows hq hd hw hrx
    exact hnever s hreach hdead
  · intro henv s hreach hdead
    obtain ⟨_, hs⟩ := guarded_of_reachable henv hreach
    obtain ⟨cs, hcs⟩ : ∃ cs, s.calls = .joinResponseWriter :: cs := by
      cases hc : s.calls with
      | nil => exact absurd hdead.main (by simp [hc])
      | cons x cs =>
          have := hdead.main
          rw [hc, List.head?_cons, Option.some.injEq] at this
          exact ⟨cs, by rw [this]⟩
    rw [hcs, hdead.queueOpen] at hs
    exact Bool.false_ne_true hs.1

/-- Without a socket the process starts the writer and then deadlocks with it. -/
theorem no_socket_deadlocks :
    ¬ ∀ (env : Startup) (s : Process), Reachable (step env) (.init []) s → ¬ Deadlocked s := by
  intro hclaim
  obtain ⟨s, hreach, hdead⟩ := deadlocked_of_rxStartFails
    { Startup.allSucceed with sock := -1 } [] ⟨rfl, rfl⟩ ⟨rfl, rfl, rfl⟩ rfl
    (.inl (show (-1 : ℤ) < 0 by decide))
  exact hclaim _ s hreach hdead

end PeripheralTester.Server
