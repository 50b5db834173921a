import PeripheralTester.Lib.Run
import PeripheralTester.Server.CommandGenerator
import PeripheralTester.Server.ResponseQueue
import PeripheralTester.Server.ResultDatabase

/-! # The server program

`main.c` with its three threads, as a step function.  `main` is the list of the calls it has
left to make (`MainCall`): a call that fails replaces the list by the clean-up its exit writes
out, and the loop test replaces it by another round or by the shutdown sequence.  The receive
thread of `udp_client.c` and the writer thread of `response_writer.c` are program counters.

A step is one call of main, or one loop test, queue call or database call of a thread.  The
bodies of queue calls hold the queue's mutex and each database call is one statement, so nothing
smaller can be told apart by another thread.  What the system calls return is in `Startup` for
the calls before the main loop and in the labels for the others.

Four histories are kept beside the program's own state and nothing reads them: the commands
sent, the returns of the inserts and of the updates, and the records pushed.  A datagram carries
the number of the sent command it answers, which nothing reads either. -/

namespace PeripheralTester.Server

open Lib

/-! ### State -/

/-- A record with the number of the sent command it answers. -/
structure Received where
  record : ResponseRecord
  origin : ℕ
deriving DecidableEq, Repr

instance : Inhabited Received := ⟨⟨default, 0⟩⟩

/-- The calls of `main`.  The two functions that join a thread are two steps: the flag, then
`pthread_join`. -/
inductive MainCall where
  | udpClientOpen
  | responseQueueInit
  | resultDatabaseOpen
  | responseWriterStart
  | udpClientStartRxThread
  | commandGeneratorInit
  | whileAppRunning
  | commandGeneratorBuildNext
  | udpClientSendCommand
  | resultDatabaseInsertCommand
  | sleepDelay
  | sleepApplicationStopDelay
  | udpClientStopRxThread
  | joinRxThread
  | responseQueueShutdown
  | responseWriterStop
  | joinResponseWriter
  | udpClientClose
  | resultDatabasePrintSummary
  | resultDatabaseClose
deriving DecidableEq, Repr

namespace MainCall

/-- `main` from its first call to its loop. -/
def start : List MainCall :=
  [udpClientOpen, responseQueueInit, resultDatabaseOpen, responseWriterStart,
    udpClientStartRxThread, commandGeneratorInit, whileAppRunning]

/-- The exit after `response_queue_init` failed. -/
def queueInitFailed : List MainCall := [udpClientClose]

/-- The exit after `result_database_open` failed. -/
def databaseOpenFailed : List MainCall := [responseQueueShutdown, udpClientClose]

/-- The exit after `response_writer_start` failed. -/
def writerStartFailed : List MainCall :=
  [resultDatabaseClose, responseQueueShutdown, udpClientClose]

/-- The exit after `udp_client_start_rx_thread` failed. -/
def rxStartFailed : List MainCall :=
  [responseWriterStop, resultDatabaseClose, responseQueueShutdown, udpClientClose]

/-- One round of the main loop. -/
def round : List MainCall :=
  [commandGeneratorBuildNext, udpClientSendCommand, resultDatabaseInsertCommand, sleepDelay,
    whileAppRunning]

/-- What is left of a round whose command was not sent. -/
def sendFailed : List MainCall := [sleepDelay, whileAppRunning]

/-- The shutdown sequence from `udp_client_stop_rx_thread` on. -/
def shutdown : List MainCall :=
  [udpClientStopRxThread, responseQueueShutdown, responseWriterStop, udpClientClose,
    resultDatabasePrintSummary, resultDatabaseClose]

/-- `main` after its loop. -/
def afterLoop : List MainCall := sleepApplicationStopDelay :: shutdown

end MainCall

/-- Where `response_writer_thread_func` is: at its loop test, before a pass through the loop of
`response_queue_pop`, in `pthread_cond_wait`, or before the update with a record. -/
inductive WriterPc where
  | notStarted
  | test
  | pop
  | waiting
  | update (r : Received)
  | exited
deriving DecidableEq, Repr

/-- Where `udp_client_rx_thread_func` is: at its loop test, before `recvfrom`, or before
`response_queue_push` with a record. -/
inductive RxPc where
  | notStarted
  | test
  | recv
  | push (r : Received)
  | exited
deriving DecidableEq, Repr

/-- The server process. -/
structure Process where
  calls : List MainCall
  sock : ℤ
  command : Command
  delaySec : UInt8
  appRunning : Bool
  generator : CommandGenerator
  rand : RandStream
  queue : ResponseQueue Received
  responseWriterRunning : Bool
  writer : WriterPc
  rxThreadRunning : Bool
  rx : RxPc
  database : Database
  summary : Option Summary
  /-- The commands sent, in order; the number of a command is its place. -/
  sent : List Command
  /-- The returns of the inserts, with the number of the command. -/
  inserts : List (ℕ × ResultDatabaseStatus)
  /-- The records `response_queue_push` took. -/
  pushed : List Received
  /-- The records passed to `result_database_update_response`, with its returns. -/
  updates : List (Received × ResultDatabaseStatus)

/-- What the calls before the main loop meet: the return of `udp_client_open`, and which of the
others find what they ask for. -/
structure Startup where
  sock : ℤ
  mutexInit : Bool
  condInit : Bool
  databaseOpens : Bool
  tableCreates : Bool
  tableClears : Bool
  writerCreates : Bool
  rxCreates : Bool
  rand : RandStream

/-- A process before `main`, on a database file that may hold the rows of an earlier run. -/
def Process.init (rows : List Row) : Process where
  calls := MainCall.start
  sock := -1
  command := ⟨0, 0, 0, 0, .replicate 255 0⟩
  delaySec := 5
  appRunning := true
  generator := commandGeneratorInit
  rand := fun _ => 0
  queue := responseQueueCleared
  responseWriterRunning := false
  writer := .notStarted
  rxThreadRunning := false
  rx := .notStarted
  database := ⟨false, rows⟩
  summary := none
  sent := []
  inserts := []
  pushed := []
  updates := []

/-! ### Main -/

/-- What a call of the main loop meets: whether the whole command was sent, the time, and how
SQLite serves the statement. -/
structure MainAnswer where
  sends : Bool
  now : ℤ
  sqlite : SqliteAnswer

/-- A signal on `response_queue_not_empty` wakes the writer if it waits. -/
def WriterPc.signalled : WriterPc → WriterPc
  | .waiting => .pop
  | pc => pc

/-- `COMMAND_GENERATOR_MIN_DELAY_SEC` and `COMMAND_GENERATOR_MAX_DELAY_SEC` of `main.c`. -/
def minDelaySec : UInt8 := 1
def maxDelaySec : UInt8 := 5

/-- The next call of main. -/
def mainStep (env : Startup) (a : MainAnswer) (s : Process) : Option Process :=
  match s.calls with
  | [] => none
  | .udpClientOpen :: cs => some { s with sock := env.sock, calls := cs }
  | .responseQueueInit :: cs =>
      match responseQueueInit env.mutexInit env.condInit with
      | (.ok, q) => some { s with queue := q, calls := cs }
      | (.fail, q) => some { s with queue := q, calls := MainCall.queueInitFailed }
  | .resultDatabaseOpen :: cs =>
      match resultDatabaseOpen s.database env.databaseOpens env.tableCreates env.tableClears with
      | (.ok, db) => some { s with database := db, calls := cs }
      | (.fail, db) => some { s with database := db, calls := MainCall.databaseOpenFailed }
  | .responseWriterStart :: cs =>
      if env.writerCreates then
        some { s with responseWriterRunning := true, writer := .test, calls := cs }
      else some { s with responseWriterRunning := false, calls := MainCall.writerStartFailed }
  | .udpClientStartRxThread :: cs =>
      if s.sock < 0 then some { s with calls := MainCall.rxStartFailed }
      else if env.rxCreates then
        some { s with rxThreadRunning := true, rx := .test, calls := cs }
      else some { s with rxThreadRunning := false, calls := MainCall.rxStartFailed }
  | .commandGeneratorInit :: cs =>
      some { s with generator := commandGeneratorInit, rand := env.rand, calls := cs }
  | .whileAppRunning :: _ =>
      some { s with calls := if s.appRunning then MainCall.round else MainCall.afterLoop }
  | .commandGeneratorBuildNext :: cs =>
      let (c, g, rand) := commandGeneratorBuildNext s.generator s.rand
      some { s with command := c, generator := g, rand := rand, calls := cs }
  | .udpClientSendCommand :: cs =>
      if a.sends then some { s with sent := s.sent ++ [s.command], calls := cs }
      else some { s with calls := MainCall.sendFailed }
  | .resultDatabaseInsertCommand :: cs =>
      let (status, db) := resultDatabaseInsertCommand s.database (some s.command) a.now a.sqlite
      some { s with
        database := db
        inserts := s.inserts ++ [(s.sent.length - 1, status)]
        calls := cs }
  | .sleepDelay :: cs =>
      let delay := commandGeneratorRandomRange minDelaySec maxDelaySec (s.rand 0)
      some { s with delaySec := delay, rand := s.rand.skip 1, calls := cs }
  | .sleepApplicationStopDelay :: cs => some { s with calls := cs }
  | .udpClientStopRxThread :: cs =>
      if s.rxThreadRunning then
        some { s with rxThreadRunning := false, calls := .joinRxThread :: cs }
      else some { s with calls := cs }
  | .joinRxThread :: cs => if s.rx = .exited then some { s with calls := cs } else none
  | .responseQueueShutdown :: cs =>
      some { s with
        queue := responseQueueShutdown s.queue
        writer := s.writer.signalled
        calls := cs }
  | .responseWriterStop :: cs =>
      some { s with responseWriterRunning := false, calls := .joinResponseWriter :: cs }
  | .joinResponseWriter :: cs => if s.writer = .exited then some { s with calls := cs } else none
  | .udpClientClose :: cs => some { s with calls := cs }
  | .resultDatabasePrintSummary :: cs =>
      some { s with summary := resultDatabasePrintSummary s.database, calls := cs }
  | .resultDatabaseClose :: cs =>
      some { s with database := resultDatabaseClose s.database, calls := cs }

/-! ### The receive thread -/

/-- What `recvfrom` meets: a datagram, sent for the command numbered `origin` and received at
the time `now`, or an error, the timeout among them. -/
inductive RecvAnswer where
  | datagram (bytes : List UInt8) (origin : ℕ) (now : ℤ)
  | error

/-- The next step of the receive thread. -/
def rxStep (a : RecvAnswer) (s : Process) : Option Process :=
  match s.rx with
  | .notStarted => none
  | .test => some { s with rx := if s.rxThreadRunning then .recv else .exited }
  | .recv =>
      match a with
      | .error => some { s with rx := .test }
      | .datagram bytes origin now =>
          -- recvfrom copies at most sizeof(response) bytes and drops the rest
          let received := bytes.take Response.size
          if received.length = Response.size then
            some { s with rx := .push ⟨⟨Response.decode received, now⟩, origin⟩ }
          else some { s with rx := .test }
  | .push r =>
      match responseQueuePush s.queue (some r) with
      | (.ok, q) =>
          some { s with
            queue := q
            writer := s.writer.signalled
            pushed := s.pushed ++ [r]
            rx := .test }
      | (.fail, q) => some { s with queue := q, rx := .test }
  | .exited => none

/-! ### The writer thread -/

/-- The next step of the writer thread. -/
def writerStep (answer : SqliteAnswer) (s : Process) : Option Process :=
  match s.writer with
  | .notStarted => none
  | .test => some { s with writer := if s.responseWriterRunning then .pop else .exited }
  | .pop =>
      match responseQueuePop s.queue with
      | (.waiting, q) => some { s with queue := q, writer := .waiting }
      | (.fail, q) => some { s with queue := q, writer := .test }
      | (.record none, _) => none
      | (.record (some r), q) => some { s with queue := q, writer := .update r }
  | .waiting => none
  | .update r =>
      let (status, db) := resultDatabaseUpdateResponse s.database (some r.record) answer
      some { s with
        database := db
        updates := s.updates ++ [(r, status)]
        writer := .test }
  | .exited => none

/-! ### The process -/

/-- Who moves: a thread, the condition variable waking the writer without a signal, or the
user pressing Ctrl-C. -/
inductive Label where
  | main (a : MainAnswer)
  | rx (a : RecvAnswer)
  | writer (a : SqliteAnswer)
  | wake
  | sigint

def step (env : Startup) (s : Process) : Label → Option Process
  | .main a => mainStep env a s
  | .rx a => rxStep a s
  | .writer a => writerStep a s
  | .wake => if s.writer = .waiting then some { s with writer := .pop } else none
  | .sigint => some { s with appRunning := false }

/-! ### What a step can do -/

variable {env : Startup} {s s' : Process}

/-- Where main may go on after a call instead of with its next one. -/
def MainCall.exits : MainCall → List (List MainCall)
  | .responseQueueInit => [queueInitFailed]
  | .resultDatabaseOpen => [databaseOpenFailed]
  | .responseWriterStart => [writerStartFailed]
  | .udpClientStartRxThread => [rxStartFailed]
  | .whileAppRunning => [round, afterLoop]
  | .udpClientSendCommand => [sendFailed]
  | _ => []

/-- The `pthread_join` inside a call. -/
def MainCall.join : MainCall → Option MainCall
  | .udpClientStopRxThread => some .joinRxThread
  | .responseWriterStop => some .joinResponseWriter
  | _ => none

/-- The calls of main, each with the ways it can turn out. -/
inductive MainMoved (env : Startup) (a : MainAnswer) (s : Process) : Process → Prop
  | udpClientOpen {cs : List MainCall} (hc : s.calls = .udpClientOpen :: cs) :
      MainMoved env a s { s with sock := env.sock, calls := cs }
  | responseQueueInit {cs : List MainCall} {q : ResponseQueue Received}
      (hc : s.calls = .responseQueueInit :: cs)
      (hinit : responseQueueInit env.mutexInit env.condInit = (.ok, q)) :
      MainMoved env a s { s with queue := q, calls := cs }
  | queueInitFailed {cs : List MainCall} {q : ResponseQueue Received}
      (hc : s.calls = .responseQueueInit :: cs)
      (hinit : responseQueueInit env.mutexInit env.condInit = (.fail, q)) :
      MainMoved env a s { s with queue := q, calls := MainCall.queueInitFailed }
  | resultDatabaseOpen {cs : List MainCall} {db : Database}
      (hc : s.calls = .resultDatabaseOpen :: cs)
      (hopen : resultDatabaseOpen s.database env.databaseOpens env.tableCreates
        env.tableClears = (.ok, db)) :
      MainMoved env a s { s with database := db, calls := cs }
  | databaseOpenFailed {cs : List MainCall} {db : Database}
      (hc : s.calls = .resultDatabaseOpen :: cs)
      (hopen : resultDatabaseOpen s.database env.databaseOpens env.tableCreates
        env.tableClears = (.fail, db)) :
      MainMoved env a s { s with database := db, calls := MainCall.databaseOpenFailed }
  | responseWriterStart {cs : List MainCall} (hc : s.calls = .responseWriterStart :: cs)
      (hcreates : env.writerCreates = true) :
      MainMoved env a s { s with responseWriterRunning := true, writer := .test, calls := cs }
  | writerStartFailed {cs : List MainCall} (hc : s.calls = .responseWriterStart :: cs)
      (hcreates : env.writerCreates = false) :
      MainMoved env a s
        { s with responseWriterRunning := false, calls := MainCall.writerStartFailed }
  | udpClientStartRxThread {cs : List MainCall} (hc : s.calls = .udpClientStartRxThread :: cs)
      (hsock : ¬ s.sock < 0) (hcreates : env.rxCreates = true) :
      MainMoved env a s { s with rxThreadRunning := true, rx := .test, calls := cs }
  | rxWithoutSocket {cs : List MainCall} (hc : s.calls = .udpClientStartRxThread :: cs)
      (hsock : s.sock < 0) : MainMoved env a s { s with calls := MainCall.rxStartFailed }
  | rxStartFailed {cs : List MainCall} (hc : s.calls = .udpClientStartRxThread :: cs)
      (hsock : ¬ s.sock < 0) (hcreates : env.rxCreates = false) :
      MainMoved env a s { s with rxThreadRunning := false, calls := MainCall.rxStartFailed }
  | commandGeneratorInit {cs : List MainCall} (hc : s.calls = .commandGeneratorInit :: cs) :
      MainMoved env a s { s with generator := commandGeneratorInit, rand := env.rand, calls := cs }
  | round {cs : List MainCall} (hc : s.calls = .whileAppRunning :: cs)
      (hrunning : s.appRunning = true) : MainMoved env a s { s with calls := MainCall.round }
  | afterLoop {cs : List MainCall} (hc : s.calls = .whileAppRunning :: cs)
      (hrunning : s.appRunning = false) :
      MainMoved env a s { s with calls := MainCall.afterLoop }
  | commandGeneratorBuildNext {cs : List MainCall}
      (hc : s.calls = .commandGeneratorBuildNext :: cs) :
      MainMoved env a s
        { s with
          command := (commandGeneratorBuildNext s.generator s.rand).1
          generator := (commandGeneratorBuildNext s.generator s.rand).2.1
          rand := (commandGeneratorBuildNext s.generator s.rand).2.2
          calls := cs }
  | udpClientSendCommand {cs : List MainCall} (hc : s.calls = .udpClientSendCommand :: cs)
      (hsends : a.sends = true) :
      MainMoved env a s { s with sent := s.sent ++ [s.command], calls := cs }
  | sendFailed {cs : List MainCall} (hc : s.calls = .udpClientSendCommand :: cs)
      (hsends : a.sends = false) : MainMoved env a s { s with calls := MainCall.sendFailed }
  | resultDatabaseInsertCommand {cs : List MainCall}
      (hc : s.calls = .resultDatabaseInsertCommand :: cs) :
      MainMoved env a s
        { s with
          database := (resultDatabaseInsertCommand s.database (some s.command) a.now a.sqlite).2
          inserts := s.inserts ++ [(s.sent.length - 1,
            (resultDatabaseInsertCommand s.database (some s.command) a.now a.sqlite).1)]
          calls := cs }
  | sleepDelay {cs : List MainCall} (hc : s.calls = .sleepDelay :: cs) :
      MainMoved env a s
        { s with
          delaySec := commandGeneratorRandomRange minDelaySec maxDelaySec (s.rand 0)
          rand := s.rand.skip 1
          calls := cs }
  | sleepApplicationStopDelay {cs : List MainCall}
      (hc : s.calls = .sleepApplicationStopDelay :: cs) : MainMoved env a s { s with calls := cs }
  | udpClientStopRxThread {cs : List MainCall} (hc : s.calls = .udpClientStopRxThread :: cs)
      (hrunning : s.rxThreadRunning = true) :
      MainMoved env a s { s with rxThreadRunning := false, calls := .joinRxThread :: cs }
  | rxNotRunning {cs : List MainCall} (hc : s.calls = .udpClientStopRxThread :: cs)
      (hrunning : s.rxThreadRunning = false) : MainMoved env a s { s with calls := cs }
  | joinRxThread {cs : List MainCall} (hc : s.calls = .joinRxThread :: cs)
      (hexited : s.rx = .exited) : MainMoved env a s { s with calls := cs }
  | responseQueueShutdown {cs : List MainCall} (hc : s.calls = .responseQueueShutdown :: cs) :
      MainMoved env a s
        { s with
          queue := responseQueueShutdown s.queue
          writer := s.writer.signalled
          calls := cs }
  | responseWriterStop {cs : List MainCall} (hc : s.calls = .responseWriterStop :: cs) :
      MainMoved env a s
        { s with responseWriterRunning := false, calls := .joinResponseWriter :: cs }
  | joinResponseWriter {cs : List MainCall} (hc : s.calls = .joinResponseWriter :: cs)
      (hexited : s.writer = .exited) : MainMoved env a s { s with calls := cs }
  | udpClientClose {cs : List MainCall} (hc : s.calls = .udpClientClose :: cs) :
      MainMoved env a s { s with calls := cs }
  | resultDatabasePrintSummary {cs : List MainCall}
      (hc : s.calls = .resultDatabasePrintSummary :: cs) :
      MainMoved env a s
        { s with summary := resultDatabasePrintSummary s.database, calls := cs }
  | resultDatabaseClose {cs : List MainCall} (hc : s.calls = .resultDatabaseClose :: cs) :
      MainMoved env a s { s with database := resultDatabaseClose s.database, calls := cs }

theorem mainStep_cases {a : MainAnswer} (h : mainStep env a s = some s') :
    MainMoved env a s s' := by
  unfold mainStep at h
  split at h
  case h_1 => cases h
  case h_3 hc =>
    split at h <;> rename_i hinit <;> obtain rfl := Option.some.inj h
    · exact .responseQueueInit hc hinit
    · exact .queueInitFailed hc hinit
  case h_4 hc =>
    split at h <;> rename_i hopen <;> obtain rfl := Option.some.inj h
    · exact .resultDatabaseOpen hc hopen
    · exact .databaseOpenFailed hc hopen
  case h_5 hc =>
    split at h <;> rename_i hcreates <;> obtain rfl := Option.some.inj h
    · exact .responseWriterStart hc hcreates
    · exact .writerStartFailed hc (Bool.eq_false_iff.mpr hcreates)
  case h_6 hc =>
    split at h <;> rename_i hsock
    · obtain rfl := Option.some.inj h
      exact .rxWithoutSocket hc hsock
    · split at h <;> rename_i hcreates <;> obtain rfl := Option.some.inj h
      · exact .udpClientStartRxThread hc hsock hcreates
      · exact .rxStartFailed hc hsock (Bool.eq_false_iff.mpr hcreates)
  case h_8 hc =>
    by_cases hrunning : s.appRunning = true
    · rw [if_pos hrunning] at h
      obtain rfl := Option.some.inj h
      exact .round hc hrunning
    · rw [if_neg hrunning] at h
      obtain rfl := Option.some.inj h
      exact .afterLoop hc (Bool.eq_false_iff.mpr hrunning)
  case h_10 hc =>
    split at h <;> rename_i hsends <;> obtain rfl := Option.some.inj h
    · exact .udpClientSendCommand hc hsends
    · exact .sendFailed hc (Bool.eq_false_iff.mpr hsends)
  case h_14 hc =>
    split at h <;> rename_i hrunning <;> obtain rfl := Option.some.inj h
    · exact .udpClientStopRxThread hc hrunning
    · exact .rxNotRunning hc (Bool.eq_false_iff.mpr hrunning)
  case h_15 hc =>
    split at h
    · rename_i hexited
      obtain rfl := Option.some.inj h
      exact .joinRxThread hc hexited
    · cases h
  case h_18 hc =>
    split at h
    · rename_i hexited
      obtain rfl := Option.some.inj h
      exact .joinResponseWriter hc hexited
    · cases h
  all_goals
    rename_i hc
    obtain rfl := Option.some.inj h
  case h_2 => exact .udpClientOpen hc
  case h_7 => exact .commandGeneratorInit hc
  case h_9 => exact .commandGeneratorBuildNext hc
  case h_11 => exact .resultDatabaseInsertCommand hc
  case h_12 => exact .sleepDelay hc
  case h_13 => exact .sleepApplicationStopDelay hc
  case h_16 => exact .responseQueueShutdown hc
  case h_17 => exact .responseWriterStop hc
  case h_19 => exact .udpClientClose hc
  case h_20 => exact .resultDatabasePrintSummary hc
  case h_21 => exact .resultDatabaseClose hc

/-- The control flow of main. -/
theorem mainStep_calls {a : MainAnswer} (h : mainStep env a s = some s') :
    ∃ x cs, s.calls = x :: cs ∧
      (s'.calls = cs ∨ s'.calls ∈ x.exits ∨ ∃ y, x.join = some y ∧ s'.calls = y :: cs) := by
  cases mainStep_cases h
  case udpClientStopRxThread hc _ => exact ⟨_, _, hc, .inr (.inr ⟨_, rfl, rfl⟩)⟩
  case responseWriterStop hc => exact ⟨_, _, hc, .inr (.inr ⟨_, rfl, rfl⟩)⟩
  all_goals
    refine ⟨_, _, ‹s.calls = _›, ?_⟩
    first
    | exact .inl rfl
    | exact .inr (.inl (by simp [MainCall.exits]))

/-- A call of main touches the queue and the writer in three places only. -/
theorem mainStep_queue {a : MainAnswer} (h : mainStep env a s = some s') :
    s'.pushed = s.pushed ∧ s'.updates = s.updates ∧
      ((s.calls.head? ≠ some .responseQueueShutdown ∧ s'.queue = s.queue ∧
          s'.writer = s.writer) ∨
        (s.calls.head? = some .responseQueueInit ∧ s'.queue = responseQueueCleared ∧
          s'.writer = s.writer) ∨
        (s.calls.head? = some .responseWriterStart ∧ s'.queue = s.queue ∧ s'.writer = .test) ∨
        (s.calls.head? = some .responseQueueShutdown ∧
          s'.queue = responseQueueShutdown s.queue ∧ s'.writer = s.writer.signalled)) := by
  have hinit := responseQueueInit_snd (ρ := Received) env.mutexInit env.condInit
  cases mainStep_cases h
  case responseQueueInit hc hq =>
    rw [hq] at hinit
    exact ⟨rfl, rfl, .inr (.inl ⟨by rw [hc]; rfl, hinit, rfl⟩)⟩
  case queueInitFailed hc hq =>
    rw [hq] at hinit
    exact ⟨rfl, rfl, .inr (.inl ⟨by rw [hc]; rfl, hinit, rfl⟩)⟩
  case responseWriterStart hc _ =>
    exact ⟨rfl, rfl, .inr (.inr (.inl ⟨by rw [hc]; rfl, rfl, rfl⟩))⟩
  case responseQueueShutdown hc =>
    exact ⟨rfl, rfl, .inr (.inr (.inr ⟨by rw [hc]; rfl, rfl, rfl⟩))⟩
  all_goals exact ⟨rfl, rfl, .inl ⟨by simp [‹s.calls = _›], rfl, rfl⟩⟩

/-- A call of main starts the receive thread or leaves it alone. -/
theorem mainStep_rx {a : MainAnswer} (h : mainStep env a s = some s') :
    s'.rx = s.rx ∨ (s.calls.head? = some .udpClientStartRxThread ∧ s'.rx = .test) := by
  cases mainStep_cases h
  case udpClientStartRxThread hc _ _ => exact .inr ⟨by rw [hc]; rfl, rfl⟩
  all_goals exact .inl rfl

/-- A call of main sends a command, inserts one, or leaves both histories alone. -/
theorem mainStep_table {a : MainAnswer} (h : mainStep env a s = some s') :
    (s.calls.head? ≠ some .udpClientSendCommand ∧
      s.calls.head? ≠ some .resultDatabaseInsertCommand ∧ s'.sent = s.sent ∧
      s'.inserts = s.inserts ∧
      (s'.database.rows = s.database.rows ∨ s.calls.head? = some .resultDatabaseOpen)) ∨
    (s.calls.head? = some .udpClientSendCommand ∧ s'.inserts = s.inserts ∧
      s'.database = s.database ∧
      ((s'.sent = s.sent ++ [s.command] ∧ s'.command = s.command ∧ s'.calls = s.calls.tail) ∨
        (s'.sent = s.sent ∧ s'.calls = MainCall.sendFailed))) ∨
    (s.calls.head? = some .resultDatabaseInsertCommand ∧ s'.sent = s.sent ∧
      s'.calls = s.calls.tail ∧
      s'.database =
        (resultDatabaseInsertCommand s.database (some s.command) a.now a.sqlite).2 ∧
      s'.inserts = s.inserts ++ [(s.sent.length - 1,
        (resultDatabaseInsertCommand s.database (some s.command) a.now a.sqlite).1)]) := by
  cases mainStep_cases h
  case resultDatabaseOpen hc _ =>
    exact .inl ⟨by simp [hc], by simp [hc], rfl, rfl, .inr (by rw [hc]; rfl)⟩
  case databaseOpenFailed hc _ =>
    exact .inl ⟨by simp [hc], by simp [hc], rfl, rfl, .inr (by rw [hc]; rfl)⟩
  case udpClientSendCommand hc _ =>
    exact .inr (.inl ⟨by rw [hc]; rfl, rfl, rfl, .inl ⟨rfl, rfl, by rw [hc]; rfl⟩⟩)
  case sendFailed hc _ => exact .inr (.inl ⟨by rw [hc]; rfl, rfl, rfl, .inr ⟨rfl, rfl⟩⟩)
  case resultDatabaseInsertCommand hc =>
    exact .inr (.inr ⟨by rw [hc]; rfl, rfl, by rw [hc]; rfl, rfl, rfl⟩)
  all_goals
    exact .inl ⟨by simp [‹s.calls = _›], by simp [‹s.calls = _›], rfl, rfl, .inl rfl⟩

/-- The moves of the receive thread. -/
inductive RxMoved (s : Process) : RecvAnswer → Process → Prop
  | test {a : RecvAnswer} (hr : s.rx = .test) :
      RxMoved s a { s with rx := if s.rxThreadRunning then .recv else .exited }
  | discard {a : RecvAnswer} (hr : s.rx = .recv) : RxMoved s a { s with rx := .test }
  | receive {bytes : List UInt8} {origin : ℕ} {now : ℤ} (hr : s.rx = .recv)
      (hsize : (bytes.take Response.size).length = Response.size) :
      RxMoved s (.datagram bytes origin now)
        { s with rx := .push ⟨⟨Response.decode (bytes.take Response.size), now⟩, origin⟩ }
  | push {a : RecvAnswer} {r : Received} {q : ResponseQueue Received} (hr : s.rx = .push r)
      (hq : responseQueuePush s.queue (some r) = (.ok, q)) :
      RxMoved s a
        { s with
          queue := q
          writer := s.writer.signalled
          pushed := s.pushed ++ [r]
          rx := .test }
  | full {a : RecvAnswer} {r : Received} (hr : s.rx = .push r)
      (hq : responseQueuePush s.queue (some r) = (.fail, s.queue)) :
      RxMoved s a { s with rx := .test }

theorem rxStep_cases {a : RecvAnswer} (h : rxStep a s = some s') : RxMoved s a s' := by
  unfold rxStep at h
  split at h
  case h_1 => cases h
  case h_2 hr =>
    obtain rfl := Option.some.inj h
    exact .test hr
  case h_3 hr =>
    split at h
    · obtain rfl := Option.some.inj h
      exact .discard hr
    · simp only at h
      split at h <;> rename_i hsize <;> obtain rfl := Option.some.inj h
      · exact .receive hr hsize
      · exact .discard hr
  case h_4 hr =>
    split at h <;> rename_i hq <;> obtain rfl := Option.some.inj h
    · exact .push hr hq
    · obtain rfl := responseQueuePush_fail hq
      exact .full hr hq
  case h_5 => cases h

/-- What the receive thread never touches. -/
structure RxFrame (s s' : Process) : Prop where
  calls : s'.calls = s.calls
  sock : s'.sock = s.sock
  command : s'.command = s.command
  responseWriterRunning : s'.responseWriterRunning = s.responseWriterRunning
  rxThreadRunning : s'.rxThreadRunning = s.rxThreadRunning
  database : s'.database = s.database
  sent : s'.sent = s.sent
  inserts : s'.inserts = s.inserts
  updates : s'.updates = s.updates

theorem rxStep_frame {a : RecvAnswer} (h : rxStep a s = some s') : RxFrame s s' := by
  cases rxStep_cases h <;> constructor <;> rfl

/-- The receive thread moves only while it runs, and does no more to the writer than wake it. -/
theorem rxStep_running {a : RecvAnswer} (h : rxStep a s = some s') :
    s.rx ≠ .notStarted ∧ s.rx ≠ .exited ∧
      (s'.writer = s.writer ∨ s'.writer = s.writer.signalled) := by
  cases rxStep_cases h with
  | test hr | discard hr | receive hr | full hr => exact ⟨by simp [hr], by simp [hr], .inl rfl⟩
  | push hr => exact ⟨by simp [hr], by simp [hr], .inr rfl⟩

/-- The moves of the writer. -/
inductive WriterMoved (answer : SqliteAnswer) (s : Process) : Process → Prop
  | test (hw : s.writer = .test) :
      WriterMoved answer s
        { s with writer := if s.responseWriterRunning then .pop else .exited }
  | wait {q : ResponseQueue Received} (hw : s.writer = .pop)
      (hq : responseQueuePop s.queue = (.waiting, q)) :
      WriterMoved answer s { s with queue := q, writer := .waiting }
  | fail {q : ResponseQueue Received} (hw : s.writer = .pop)
      (hq : responseQueuePop s.queue = (.fail, q)) :
      WriterMoved answer s { s with queue := q, writer := .test }
  | pop {r : Received} {q : ResponseQueue Received} (hw : s.writer = .pop)
      (hq : responseQueuePop s.queue = (.record (some r), q)) :
      WriterMoved answer s { s with queue := q, writer := .update r }
  | update {r : Received} (hw : s.writer = .update r) :
      WriterMoved answer s
        { s with
          database := (resultDatabaseUpdateResponse s.database (some r.record) answer).2
          updates := s.updates ++
            [(r, (resultDatabaseUpdateResponse s.database (some r.record) answer).1)]
          writer := .test }

theorem writerStep_cases {answer : SqliteAnswer} (h : writerStep answer s = some s') :
    WriterMoved answer s s' := by
  unfold writerStep at h
  split at h
  case h_1 => cases h
  case h_2 hw =>
    obtain rfl := Option.some.inj h
    exact .test hw
  case h_3 hw =>
    split at h <;> rename_i hq
    · obtain rfl := Option.some.inj h
      exact .wait hw hq
    · obtain rfl := Option.some.inj h
      exact .fail hw hq
    · cases h
    · obtain rfl := Option.some.inj h
      exact .pop hw hq
  case h_4 => cases h
  case h_5 hw =>
    obtain rfl := Option.some.inj h
    exact .update hw
  case h_6 => cases h

/-- What the writer never touches. -/
structure WriterFrame (s s' : Process) : Prop where
  calls : s'.calls = s.calls
  sock : s'.sock = s.sock
  command : s'.command = s.command
  responseWriterRunning : s'.responseWriterRunning = s.responseWriterRunning
  rxThreadRunning : s'.rxThreadRunning = s.rxThreadRunning
  rx : s'.rx = s.rx
  sent : s'.sent = s.sent
  inserts : s'.inserts = s.inserts
  pushed : s'.pushed = s.pushed

theorem writerStep_frame {answer : SqliteAnswer} (h : writerStep answer s = some s') :
    WriterFrame s s' := by
  cases writerStep_cases h <;> constructor <;> rfl

/-- The writer moves only while it runs. -/
theorem writerStep_running {answer : SqliteAnswer} (h : writerStep answer s = some s') :
    s.writer ≠ .notStarted ∧ s.writer ≠ .exited := by
  cases writerStep_cases h with
  | test hw | wait hw | fail hw | pop hw | update hw => exact ⟨by simp [hw], by simp [hw]⟩

end PeripheralTester.Server
