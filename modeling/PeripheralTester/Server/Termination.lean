import PeripheralTester.Lib.Fairness
import PeripheralTester.Server.Deadlock

/-! # The end of the process

`never_deadlocked_iff` says that main is never stuck with the writer.  Here main returns: under weak
fairness, however long datagrams go on coming and whatever the calls answer, once Ctrl-C has been
pressed main leaves its loop, joins both threads and ends (`server_ends`).

What main has left to do is one of finitely many lists (`MainCall.points`), and where it is says
where each thread is (`Attended`).  Main waits for nobody but the thread it joins, so the rank is
the calls that are left, and below them what that thread does before its next loop test. -/

namespace PeripheralTester.Server

open Lib

/-! ### Where main can be -/

namespace MainCall

/-- The lists of calls main can have left. -/
def points : List (List MainCall) :=
  [start, queueInitFailed, databaseOpenFailed, writerStartFailed, rxStartFailed,
    joinResponseWriter :: rxStartFailed.tail, round, afterLoop,
    joinRxThread :: shutdown.tail, joinResponseWriter :: shutdown.drop 3].flatMap List.tails

/-- Where main can go on. -/
def successors : List MainCall → List (List MainCall)
  | [] => []
  | whileAppRunning :: _ => [round, afterLoop]
  | x :: cs => cs :: x.exits ++ x.join.toList.map (· :: cs)

/-- A bound on the calls that follow, another round of the loop apart. -/
def cost : MainCall → ℕ
  | whileAppRunning => 12
  | udpClientStopRxThread | responseWriterStop => 2
  | _ => 1

def costs (cs : List MainCall) : ℕ := (cs.map cost).sum

theorem successors_points : ∀ c ∈ points, ∀ c' ∈ successors c, c' ∈ points := by decide

theorem successors_cost : ∀ c ∈ points, ∀ c' ∈ successors c,
    costs c' < costs c ∨ c.head? = some whileAppRunning ∧ c' = round := by decide

end MainCall

/-! ### The threads -/

inductive ServerThread where
  | rx
  | writer
deriving DecidableEq, Repr

inductive ThreadState where
  | notStarted
  | alive
  | exited
deriving DecidableEq, Repr

/-- What main says of a thread by where it is. -/
inductive ThreadPhase where
  | fresh
  | running
  | joining
  | ended
deriving DecidableEq, Repr

def RxPc.state : RxPc → ThreadState
  | .notStarted => .notStarted
  | .exited => .exited
  | _ => .alive

def WriterPc.state : WriterPc → ThreadState
  | .notStarted => .notStarted
  | .exited => .exited
  | _ => .alive

namespace ServerThread

def start : ServerThread → MainCall
  | rx => .udpClientStartRxThread
  | writer => .responseWriterStart

def stop : ServerThread → MainCall
  | rx => .udpClientStopRxThread
  | writer => .responseWriterStop

def join : ServerThread → MainCall
  | rx => .joinRxThread
  | writer => .joinResponseWriter

/-- The flag its loop tests. -/
def running : ServerThread → Process → Bool
  | rx, s => s.rxThreadRunning
  | writer, s => s.responseWriterRunning

def state : ServerThread → Process → ThreadState
  | rx, s => s.rx.state
  | writer, s => s.writer.state

def phase (t : ServerThread) (c : List MainCall) : ThreadPhase :=
  if t.start ∈ c then .fresh
  else if t.join ∈ c then .joining
  else if .whileAppRunning ∈ c ∨ t.stop ∈ c then .running
  else .ended

theorem phase_start (t : ServerThread) : ∀ c ∈ MainCall.points, c.head? = some t.start →
    t.phase c = .fresh ∧ t.phase c.tail = .running := by
  cases t <;> decide

theorem phase_stop (t : ServerThread) : ∀ c ∈ MainCall.points, c.head? = some t.stop →
    t.phase c = .running ∧ t.phase (t.join :: c.tail) = .joining := by
  cases t <;> decide

theorem phase_join (t : ServerThread) : ∀ c ∈ MainCall.points, c.head? = some t.join →
    t.phase c = .joining ∧ t.phase c.tail = .ended := by
  cases t <;> decide

/-- The other calls do not start or end it. -/
theorem phase_other (t : ServerThread) : ∀ c ∈ MainCall.points, ∀ c' ∈ MainCall.successors c,
    c.head? ≠ some t.stop → c.head? ≠ some t.join →
    (c.head? = some t.start → t.phase c' = .ended) →
      t.phase c' = t.phase c ∨ t.phase c = .fresh ∧ t.phase c' = .ended := by
  cases t <;> decide

end ServerThread

namespace ThreadPhase

def Allows : ThreadPhase → Bool → ThreadState → Prop
  | fresh, _, t => t = .notStarted
  | running, b, t => b = true ∧ t = .alive
  | joining, b, t => b = false ∧ t ≠ .notStarted
  | ended, _, t => t ≠ .alive

end ThreadPhase

/-- Main knows where its threads are. -/
structure Attended (s : Process) : Prop where
  point : s.calls ∈ MainCall.points
  thread : ∀ t : ServerThread, (t.phase s.calls).Allows (t.running s) (t.state s)

variable {env : Startup} {s s' : Process}

theorem signalled_state (pc : WriterPc) : pc.signalled.state = pc.state := by
  cases pc <;> rfl

theorem mainStep_successors {a : MainAnswer} (h : mainStep env a s = some s') :
    s'.calls ∈ MainCall.successors s.calls := by
  cases mainStep_cases h
  all_goals
    rw [‹s.calls = _›]
    simp [MainCall.successors, MainCall.exits, MainCall.join]

/-- What a call of main does to a thread. -/
inductive ThreadMoved (t : ServerThread) (s s' : Process) : Prop
  | started (hc : s.calls.head? = some t.start) (hcs : s'.calls = s.calls.tail)
      (hrunning : t.running s' = true) (hstate : t.state s' = .alive)
  | stopped (hc : s.calls.head? = some t.stop) (hcs : s'.calls = t.join :: s.calls.tail)
      (hrunning : t.running s' = false) (hstate : t.state s' = t.state s)
  | notRunning (hc : s.calls.head? = some t.stop) (hrunning : t.running s = false)
  | joined (hc : s.calls.head? = some t.join) (hcs : s'.calls = s.calls.tail)
      (hexited : t.state s = .exited) (hstate : t.state s' = t.state s)
  | other (hstop : s.calls.head? ≠ some t.stop) (hjoin : s.calls.head? ≠ some t.join)
      (hstart : s.calls.head? = some t.start → t.phase s'.calls = .ended)
      (hrunning : t.running s' = t.running s ∨ s.calls.head? = some t.start)
      (hstate : t.state s' = t.state s)

theorem mainStep_thread {a : MainAnswer} (h : mainStep env a s = some s') (t : ServerThread) :
    ThreadMoved t s s' := by
  cases t
  · cases mainStep_cases h
    case udpClientStartRxThread hc _ _ => exact .started (by rw [hc]; rfl) (by rw [hc]; rfl) rfl rfl
    case rxWithoutSocket hc _ =>
      exact .other (by simp [hc, ServerThread.stop]) (by simp [hc, ServerThread.join])
        (fun _ => rfl) (.inl rfl) rfl
    case rxStartFailed hc _ _ =>
      exact .other (by simp [hc, ServerThread.stop]) (by simp [hc, ServerThread.join])
        (fun _ => rfl) (.inr (by rw [hc]; rfl)) rfl
    case udpClientStopRxThread hc _ => exact .stopped (by rw [hc]; rfl) (by rw [hc]; rfl) rfl rfl
    case rxNotRunning hc hrunning => exact .notRunning (by rw [hc]; rfl) hrunning
    case joinRxThread hc hexited =>
      exact .joined (by rw [hc]; rfl) (by rw [hc]; rfl)
        (by simp [ServerThread.state, hexited, RxPc.state]) rfl
    all_goals
      exact .other (by simp [‹s.calls = _›, ServerThread.stop])
        (by simp [‹s.calls = _›, ServerThread.join]) (by simp [‹s.calls = _›, ServerThread.start])
        (.inl rfl) rfl
  · cases mainStep_cases h
    case responseWriterStart hc _ => exact .started (by rw [hc]; rfl) (by rw [hc]; rfl) rfl rfl
    case writerStartFailed hc _ =>
      exact .other (by simp [hc, ServerThread.stop]) (by simp [hc, ServerThread.join])
        (fun _ => rfl) (.inr (by rw [hc]; rfl)) rfl
    case responseWriterStop hc => exact .stopped (by rw [hc]; rfl) (by rw [hc]; rfl) rfl rfl
    case joinResponseWriter hc hexited =>
      exact .joined (by rw [hc]; rfl) (by rw [hc]; rfl)
        (by simp [ServerThread.state, hexited, WriterPc.state]) rfl
    case responseQueueShutdown hc =>
      exact .other (by simp [hc, ServerThread.stop]) (by simp [hc, ServerThread.join])
        (by simp [hc, ServerThread.start]) (.inl rfl) (signalled_state s.writer)
    all_goals
      exact .other (by simp [‹s.calls = _›, ServerThread.stop])
        (by simp [‹s.calls = _›, ServerThread.join]) (by simp [‹s.calls = _›, ServerThread.start])
        (.inl rfl) rfl

theorem attended_mainStep {a : MainAnswer} (h : mainStep env a s = some s') (hs : Attended s) :
    Attended s' := by
  have hsucc := mainStep_successors h
  refine ⟨MainCall.successors_points _ hs.point _ hsucc, fun t => ?_⟩
  have hold := hs.thread t
  cases mainStep_thread h t with
  | started hc hcs hrunning hstate =>
      rw [hcs, (t.phase_start _ hs.point hc).2]
      exact ⟨hrunning, hstate⟩
  | stopped hc hcs hrunning hstate =>
      obtain ⟨hphase, hjoining⟩ := t.phase_stop _ hs.point hc
      rw [hphase] at hold
      rw [hcs, hjoining]
      exact ⟨hrunning, by rw [hstate, hold.2]; simp⟩
  | notRunning hc hrunning =>
      rw [(t.phase_stop _ hs.point hc).1] at hold
      exact absurd (hold.1.symm.trans hrunning) (by simp)
  | joined hc hcs hexited hstate =>
      rw [hcs, (t.phase_join _ hs.point hc).2]
      show t.state s' ≠ .alive
      rw [hstate, hexited]
      simp
  | other hstop hjoin hstart hrunning hstate =>
      rcases t.phase_other _ hs.point _ hsucc hstop hjoin hstart with hphase | ⟨hfresh, hended⟩
      · rw [hphase, hstate]
        rcases hrunning with hrunning | hc
        · rwa [hrunning]
        · rw [(t.phase_start _ hs.point hc).1] at hold ⊢
          exact hold
      · rw [hfresh] at hold
        rw [hended]
        show t.state s' ≠ .alive
        rw [hstate, show t.state s = .notStarted from hold]
        simp

/-- A thread does not end while its flag is set. -/
structure ThreadFrame (t : ServerThread) (s s' : Process) : Prop where
  running : t.running s' = t.running s
  state : t.state s' = t.state s ∨ t.state s = .alive ∧ t.running s = false ∧ t.state s' = .exited

theorem attended_of_frame (hs : Attended s) (hcalls : s'.calls = s.calls)
    (hframe : ∀ t, ThreadFrame t s s') : Attended s' := by
  refine ⟨hcalls ▸ hs.point, fun t => ?_⟩
  have hold := hs.thread t
  obtain ⟨hrunning, hstate⟩ := hframe t
  rw [hcalls, hrunning]
  rcases hstate with hstate | ⟨halive, hstopped, hexited⟩
  · rwa [hstate]
  · rw [halive, hstopped] at hold
    rw [hstopped, hexited]
    cases hphase : t.phase s.calls <;> rw [hphase] at hold
    · cases hold
    · cases hold.1
    · exact ⟨rfl, by simp⟩
    · exact absurd rfl hold

theorem rxStep_threadFrame {a : RecvAnswer} (h : rxStep a s = some s') (t : ServerThread) :
    ThreadFrame t s s' := by
  have hframe := rxStep_frame h
  cases t
  · refine ⟨hframe.rxThreadRunning, ?_⟩
    cases rxStep_cases h with
    | test hr =>
        cases hrunning : s.rxThreadRunning <;>
          simp [ServerThread.state, ServerThread.running, hr, hrunning, RxPc.state]
    | discard hr | receive hr | push hr | full hr =>
        exact .inl (by simp [ServerThread.state, hr, RxPc.state])
  · refine ⟨hframe.responseWriterRunning, .inl ?_⟩
    rcases (rxStep_running h).2.2 with hw | hw
    · exact congrArg WriterPc.state hw
    · exact (congrArg WriterPc.state hw).trans (signalled_state s.writer)

theorem writerStep_threadFrame {answer : SqliteAnswer} (h : writerStep answer s = some s')
    (t : ServerThread) : ThreadFrame t s s' := by
  have hframe := writerStep_frame h
  cases t
  · exact ⟨hframe.rxThreadRunning, .inl (congrArg RxPc.state hframe.rx)⟩
  · refine ⟨hframe.responseWriterRunning, ?_⟩
    cases writerStep_cases h with
    | test hw =>
        cases hrunning : s.responseWriterRunning <;>
          simp [ServerThread.state, ServerThread.running, hw, hrunning, WriterPc.state]
    | wait hw | fail hw | pop hw | update hw =>
        exact .inl (by simp [ServerThread.state, hw, WriterPc.state])

/-- What is not main's move leaves main where it is. -/
structure Aside (s s' : Process) : Prop where
  calls : s'.calls = s.calls
  appRunning : s.appRunning = false → s'.appRunning = false
  thread : ∀ t, ThreadFrame t s s'

theorem aside_of_step {a : Label} (h : step env s a = some s') (ha : ∀ m, a ≠ .main m) :
    Aside s s' := by
  cases a with
  | main m => exact absurd rfl (ha m)
  | rx a =>
      refine ⟨(rxStep_frame h).calls, ?_, rxStep_threadFrame h⟩
      cases rxStep_cases h <;> exact id
  | writer a =>
      refine ⟨(writerStep_frame h).calls, ?_, writerStep_threadFrame h⟩
      cases writerStep_cases h <;> exact id
  | wake =>
      simp only [step] at h
      split at h
      · rename_i hw
        obtain rfl := Option.some.inj h
        refine ⟨rfl, id, fun t => ?_⟩
        cases t
        · exact ⟨rfl, .inl rfl⟩
        · exact ⟨rfl, .inl (by simp [ServerThread.state, hw, WriterPc.state])⟩
      · cases h
  | sigint =>
      obtain rfl := Option.some.inj h
      exact ⟨rfl, fun _ => rfl, fun t => by cases t <;> exact ⟨rfl, .inl rfl⟩⟩

theorem attended_step {a : Label} (h : step env s a = some s') (hs : Attended s) :
    Attended s' := by
  by_cases ha : ∃ m, a = .main m
  · obtain ⟨m, rfl⟩ := ha
    exact attended_mainStep h hs
  · have haside := aside_of_step h (not_exists.mp ha)
    exact attended_of_frame hs haside.calls haside.thread

theorem attended_init (rows : List Row) : Attended (.init rows) := by
  refine ⟨show MainCall.start ∈ MainCall.points by decide, fun t => ?_⟩
  cases t <;> exact rfl

/-! ### The writer is awake -/

/-- Nobody waits at a queue that is shut down. -/
def Awake (s : Process) : Prop := s.queue.shutdownRequested = true → s.writer ≠ .waiting

theorem signalled_ne_waiting (pc : WriterPc) : pc.signalled ≠ .waiting := by
  cases pc <;> simp [WriterPc.signalled]

theorem awake_step {a : Label} (h : step env s a = some s') (hs : Awake s) : Awake s' := by
  cases a with
  | main a =>
      obtain ⟨-, -, ⟨-, hq, hw⟩ | ⟨-, hq, -⟩ | ⟨-, -, hw⟩ | ⟨-, -, hw⟩⟩ := mainStep_queue h
      · rwa [Awake, hq, hw]
      · intro hshut
        rw [hq] at hshut
        cases hshut
      · exact fun _ => by simp [hw]
      · exact fun _ => hw ▸ signalled_ne_waiting s.writer
  | rx a =>
      intro hshut
      rw [rxStep_shutdownRequested h] at hshut
      rcases (rxStep_running h).2.2 with hw | hw
      · rw [hw]
        exact hs hshut
      · rw [hw]
        exact signalled_ne_waiting s.writer
  | writer a =>
      intro hshut
      rw [writerStep_shutdownRequested h] at hshut
      cases writerStep_cases h with
      | wait _ hq =>
          unfold responseQueuePop at hq
          rw [if_neg (by simp [hshut])] at hq
          split at hq <;> cases hq
      | test => cases s.responseWriterRunning <;> simp
      | fail | pop | update => simp
  | wake =>
      simp only [step] at h
      split at h
      · obtain rfl := Option.some.inj h
        exact fun _ => by simp
      · cases h
  | sigint =>
      obtain rfl := Option.some.inj h
      exact hs

/-! ### Whose move it is -/

inductive Party where
  | main
  | thread (t : ServerThread)
  /-- Ctrl-C and spurious wake-ups. -/
  | outside
deriving DecidableEq, Repr

def Label.party : Label → Party
  | .main _ => .main
  | .rx _ => .thread .rx
  | .writer _ => .thread .writer
  | .wake | .sigint => .outside

/-- The party can move.  Nobody owes a Ctrl-C. -/
def Party.Ready (env : Startup) : Party → Process → Prop
  | .outside, _ => False
  | i, s => ∃ a, a.party = i ∧ (step env s a).isSome

/-- The moves of a thread from here to its loop test, and that test. -/
def ServerThread.left : ServerThread → Process → ℕ
  | rx, s =>
      match s.rx with
      | .recv => 3
      | .push _ => 2
      | .test => 1
      | _ => 0
  | writer, s =>
      match s.writer with
      | .pop => 3
      | .update _ => 2
      | .test => 1
      | _ => 0

/-- What keeps main from its end, apart from another round: main itself, or a thread it joins. -/
inductive Process.Pending (s : Process) : Party → ℕ → Prop
  | main (hcalls : s.calls ≠ [])
      (hloop : s.calls.head? = some .whileAppRunning → s.appRunning = false)
      (hjoin : ∀ t : ServerThread, s.calls.head? = some t.join → t.state s = .exited) :
      Pending s .main (4 * MainCall.costs s.calls)
  | thread {t : ServerThread} (hcalls : s.calls.head? = some t.join) (hstate : t.state s = .alive) :
      Pending s (.thread t) (4 * MainCall.costs s.calls + t.left s)

theorem RxPc.state_eq_exited {pc : RxPc} (h : pc.state = .exited) : pc = .exited := by
  cases pc <;> simp [RxPc.state] at h ⊢

theorem WriterPc.state_eq_exited {pc : WriterPc} (h : pc.state = .exited) : pc = .exited := by
  cases pc <;> simp [WriterPc.state] at h ⊢

theorem ServerThread.left_le (t : ServerThread) (s : Process) : t.left s ≤ 3 := by
  cases t <;> simp only [ServerThread.left] <;> split <;> omega

/-- What holds at every point of a process that does not take the exit without a receive thread. -/
structure Orderly (env : Startup) (s : Process) : Prop where
  attended : Attended s
  awake : Awake s
  guarded : Guarded env s.queue.shutdownRequested s.calls
  sound : Sound s

theorem orderly_of_reachable {rows : List Row}
    (henv : ¬ (env.queueInits ∧ env.databaseReady ∧ env.writerCreates = true ∧
      env.rxStartFails)) (h : Reachable (step env) (.init rows) s) : Orderly env s where
  attended := h.preserves (fun _ _ _ hs hstep => attended_step hstep hs) (attended_init rows)
  awake := h.preserves (fun _ _ _ hs hstep => awake_step hstep hs) nofun
  guarded := (guarded_of_reachable henv h).2
  sound := sound_of_reachable h

namespace Orderly

/-- A thread that main joins has been told to stop. -/
theorem stopped {t : ServerThread} (hs : Orderly env s) (hc : s.calls.head? = some t.join) :
    t.running s = false ∧ t.state s ≠ .notStarted := by
  have hold := hs.attended.thread t
  rwa [(t.phase_join _ hs.attended.point hc).1] at hold

/-- The writer does not wait when main joins it. -/
theorem writer_awake (hs : Orderly env s) (hc : s.calls.head? = some .joinResponseWriter) :
    s.queue.shutdownRequested = true ∧ s.writer ≠ .waiting := by
  obtain ⟨cs, hcs⟩ := List.head?_eq_some_iff.mp hc
  have hguarded := hs.guarded
  rw [hcs] at hguarded
  exact ⟨hguarded.1, hs.awake hguarded.1⟩

/-- Main is at its end, at the start of another round, or something is pending. -/
theorem exists_pending (hs : Orderly env s) :
    s.calls = [] ∨ s.calls.head? = some .whileAppRunning ∧ s.appRunning = true ∨
      ∃ i, ∃ r ≤ 4 * MainCall.costs s.calls + 3, s.Pending i r := by
  by_cases hjoin : ∃ t : ServerThread, s.calls.head? = some t.join ∧ t.state s ≠ .exited
  · obtain ⟨t, hc, hne⟩ := hjoin
    have halive : t.state s = .alive := by
      have hstarted := (hs.stopped hc).2
      cases hstate : t.state s <;> simp_all
    have hleft := t.left_le s
    exact .inr (.inr ⟨_, _, by omega, .thread hc halive⟩)
  · push Not at hjoin
    by_cases hcalls : s.calls = []
    · exact .inl hcalls
    by_cases hloop : s.calls.head? = some .whileAppRunning ∧ s.appRunning = true
    · exact .inr (.inl hloop)
    · refine .inr (.inr ⟨_, _, Nat.le_add_right _ 3, .main hcalls (fun hc => ?_) hjoin⟩)
      exact Bool.eq_false_iff.mpr fun hrunning => hloop ⟨hc, hrunning⟩

end Orderly

/-! ### Everybody can move -/

theorem mainStep_isSome (a : MainAnswer) (hcalls : s.calls ≠ [])
    (hjoin : ∀ t : ServerThread, s.calls.head? = some t.join → t.state s = .exited) :
    (mainStep env a s).isSome := by
  cases hc : s.calls with
  | nil => exact absurd hc hcalls
  | cons x cs =>
      rw [hc, List.head?_cons] at hjoin
      cases x
      case joinRxThread =>
        have hexited := RxPc.state_eq_exited (hjoin .rx rfl)
        simp [mainStep, hc, hexited]
      case joinResponseWriter =>
        have hexited := WriterPc.state_eq_exited (hjoin .writer rfl)
        simp [mainStep, hc, hexited]
      all_goals
        simp only [mainStep, hc]
        first
        | rfl
        | split <;> first | rfl | (split <;> rfl)

/-- A thread that is past its start and does not wait. -/
theorem Orderly.thread_isSome (hs : Orderly env s) {t : ServerThread}
    (hstate : t.state s = .alive) (hawake : t = .writer → s.writer ≠ .waiting) :
    ∃ a : Label, a.party = .thread t ∧ (step env s a).isSome := by
  cases t with
  | rx =>
      refine ⟨.rx .error, rfl, ?_⟩
      simp only [step, rxStep]
      cases hr : s.rx with
      | notStarted | exited => simp [ServerThread.state, hr, RxPc.state] at hstate
      | test | recv => rfl
      | push r =>
          dsimp only
          split <;> rfl
  | writer =>
      refine ⟨.writer .runs, rfl, ?_⟩
      simp only [step, writerStep]
      cases hw : s.writer with
      | notStarted | exited => simp [ServerThread.state, hw, WriterPc.state] at hstate
      | waiting => exact absurd hw (hawake rfl)
      | test | update => rfl
      | pop =>
          obtain ⟨c, hc⟩ := hs.sound.account
          cases hitems : c.items with
          | nil =>
              simp only [responseQueuePop_of_nil hc.queue hitems]
              cases c.closed <;> rfl
          | cons r rs =>
              have hpop := (responseQueuePop_of_cons hc.queue hitems).1
              rw [show responseQueuePop s.queue =
                (.record (some r), (responseQueuePop s.queue).2) from Prod.ext hpop rfl]
              rfl

theorem Orderly.ready (hs : Orderly env s) {i : Party} {r : ℕ} (hp : s.Pending i r) :
    i.Ready env s := by
  cases hp with
  | main hcalls _ hjoin =>
      exact ⟨.main ⟨true, 0, .runs⟩, rfl, mainStep_isSome _ hcalls hjoin⟩
  | thread hc hstate =>
      refine hs.thread_isSome hstate ?_
      rintro rfl
      exact (hs.writer_awake hc).2

/-! ### Every move counts -/

/-- The thread main joins comes nearer to its end. -/
theorem Orderly.thread_left (hs : Orderly env s) {t : ServerThread}
    (hc : s.calls.head? = some t.join) {a : Label} (ha : a.party = .thread t)
    (h : step env s a = some s') :
    s'.calls = s.calls ∧ t.state s' ≠ .notStarted ∧ t.left s' < t.left s := by
  have hstopped := (hs.stopped hc).1
  cases a with
  | main | wake | sigint => cases ha
  | rx a =>
      cases ha
      refine ⟨(rxStep_frame h).calls, ?_⟩
      cases rxStep_cases h with
      | test hr =>
          have hflag : s.rxThreadRunning = false := hstopped
          simp [ServerThread.state, ServerThread.left, hr, hflag, RxPc.state]
      | discard hr | receive hr | push hr | full hr =>
          simp [ServerThread.state, ServerThread.left, hr, RxPc.state]
  | writer a =>
      cases ha
      refine ⟨(writerStep_frame h).calls, ?_⟩
      cases writerStep_cases h with
      | test hw =>
          have hflag : s.responseWriterRunning = false := hstopped
          simp [ServerThread.state, ServerThread.left, hw, hflag, WriterPc.state]
      | wait hw hq =>
          have hshut := (hs.writer_awake hc).1
          unfold responseQueuePop at hq
          rw [if_neg (by simp [hshut])] at hq
          split at hq <;> cases hq
      | fail hw | pop hw | update hw =>
          simp [ServerThread.state, ServerThread.left, hw, WriterPc.state]

/-- Main does not move while it waits for a thread. -/
theorem mainStep_join {t : ServerThread} (hc : s.calls.head? = some t.join) {a : MainAnswer}
    (h : mainStep env a s = some s') : t.state s = .exited := by
  cases mainStep_thread h t with
  | started hc' | stopped hc' | notRunning hc' =>
      rw [hc] at hc'
      cases t <;> cases hc'
  | joined _ _ hexited => exact hexited
  | other _ hjoin => exact absurd hc hjoin

theorem mainStep_costs {a : MainAnswer} (h : mainStep env a s = some s')
    (hs : s.calls ∈ MainCall.points)
    (hloop : s.calls.head? = some .whileAppRunning → s.appRunning = false) :
    MainCall.costs s'.calls < MainCall.costs s.calls := by
  rcases MainCall.successors_cost _ hs _ (mainStep_successors h) with hless | ⟨hc, hround⟩
  · exact hless
  · cases mainStep_cases h
    case round hrunning => exact absurd (hrunning.symm.trans (hloop hc)) (by simp)
    case afterLoop => exact absurd hround (show MainCall.afterLoop ≠ MainCall.round by decide)
    all_goals simp [‹s.calls = _›] at hc

/-- The other threads leave the one that main waits for alone. -/
theorem Orderly.thread_aside (hs : Orderly env s) {t : ServerThread}
    (hc : s.calls.head? = some t.join) {a : Label} (h : step env s a = some s')
    (hmain : ∀ m, a ≠ .main m) (ha : a.party ≠ .thread t) :
    t.state s' = t.state s ∧ t.left s' = t.left s := by
  cases t with
  | rx =>
      have hrx : s'.rx = s.rx := by
        cases a with
        | main m => exact absurd rfl (hmain m)
        | rx => exact absurd rfl ha
        | writer => exact (writerStep_frame h).rx
        | wake =>
            simp only [step] at h
            split at h <;> cases h
            rfl
        | sigint =>
            cases h
            rfl
      simp [ServerThread.state, ServerThread.left, hrx]
  | writer =>
      have hwriter : s'.writer = s.writer := by
        have hawake := (hs.writer_awake hc).2
        cases a with
        | main m => exact absurd rfl (hmain m)
        | rx =>
            rcases (rxStep_running h).2.2 with hw | hw
            · exact hw
            · rw [hw]
              cases hpc : s.writer <;> simp_all [WriterPc.signalled]
        | writer => exact absurd rfl ha
        | wake =>
            simp only [step] at h
            rw [if_neg hawake] at h
            cases h
        | sigint =>
            cases h
            rfl
      simp [ServerThread.state, ServerThread.left, hwriter]

/-- Nobody else takes it away. -/
theorem Orderly.pending_aside (hs : Orderly env s) {i : Party} {r : ℕ} (hp : s.Pending i r)
    {a : Label} (h : step env s a = some s') (ha : a.party ≠ i) : s'.Pending i r := by
  cases hp with
  | main hcalls hloop hjoin =>
      have haside := aside_of_step h (by rintro m rfl; exact ha rfl)
      rw [← haside.calls] at hcalls hloop hjoin ⊢
      refine .main hcalls (fun hc => haside.appRunning (hloop hc)) fun t hc => ?_
      rcases (haside.thread t).state with hstate | ⟨halive, -⟩
      · rw [hstate]
        exact hjoin t hc
      · rw [hjoin t hc] at halive
        cases halive
  | @thread t hc hstate =>
      by_cases hmain : ∃ m, a = .main m
      · obtain ⟨m, rfl⟩ := hmain
        rw [mainStep_join hc h] at hstate
        cases hstate
      · have haside := aside_of_step h (not_exists.mp hmain)
        obtain ⟨hstate', hleft⟩ := hs.thread_aside hc h (not_exists.mp hmain) ha
        rw [← haside.calls] at hc ⊢
        rw [← hleft]
        exact .thread hc (hstate'.trans hstate)

/-- Whoever main waits for brings the end nearer. -/
theorem Orderly.pending_advances (hs : Orderly env s) (hs' : Orderly env s') {i : Party} {r : ℕ}
    (hp : s.Pending i r) {a : Label} (h : step env s a = some s') (ha : a.party = i) :
    (s'.calls = [] ∨ s'.calls.head? = some .whileAppRunning ∧ s'.appRunning = true) ∨
      ∃ i', ∃ r' < r, s'.Pending i' r' := by
  cases hp with
  | main hcalls hloop hjoin =>
      have hless : MainCall.costs s'.calls < MainCall.costs s.calls := by
        cases a with
        | main m => exact mainStep_costs h hs.attended.point hloop
        | rx | writer | wake | sigint => cases ha
      rcases hs'.exists_pending with hend | hround | ⟨i', r', hr', hp'⟩
      · exact .inl (.inl hend)
      · exact .inl (.inr hround)
      · exact .inr ⟨i', r', by omega, hp'⟩
  | @thread t hc hstate =>
      obtain ⟨hcalls, hstarted, hleft⟩ := hs.thread_left hc ha h
      have hc' : s'.calls.head? = some t.join := hcalls ▸ hc
      cases hstate' : t.state s' with
      | notStarted => exact absurd hstate' hstarted
      | alive =>
          refine .inr ⟨_, _, ?_, .thread hc' hstate'⟩
          rw [hcalls]
          omega
      | exited =>
          refine .inr ⟨_, _, ?_, .main (fun hnil => ?_) (fun hloop => ?_) fun u hu => ?_⟩
          · rw [hcalls]
            omega
          · rw [hnil] at hc'
            cases hc'
          · rw [hc'] at hloop
            cases t <;> cases hloop
          · have hut : t = u := by
              rw [hc'] at hu
              cases t <;> cases u <;> first | rfl | cases hu
            exact hut ▸ hstate'

/-! ### The end -/

/-- Main has returned and left no thread behind. -/
structure Process.Ended (s : Process) : Prop where
  calls : s.calls = []
  threads : ∀ t : ServerThread, t.state s ≠ .alive

theorem Orderly.ended (hs : Orderly env s) (hcalls : s.calls = []) : s.Ended := by
  refine ⟨hcalls, fun t => ?_⟩
  have hold := hs.attended.thread t
  rw [hcalls] at hold
  cases t <;> exact hold

/-- Then nobody moves any more. -/
theorem Process.Ended.quiet (h : s.Ended) (i : Party) : ¬ i.Ready env s := by
  cases i with
  | outside => exact id
  | main =>
      rintro ⟨a, ha, hsome⟩
      cases a with
      | main a => simp [step, mainStep, h.calls] at hsome
      | rx | writer | wake | sigint => cases ha
  | thread t =>
      have hstate := h.threads t
      rintro ⟨a, ha, hsome⟩
      obtain ⟨s', hs'⟩ := Option.isSome_iff_exists.mp hsome
      cases a with
      | main | wake | sigint => cases ha
      | rx a =>
          cases ha
          have hmoves := rxStep_running hs'
          cases hr : s.rx <;> simp_all [ServerThread.state, RxPc.state]
      | writer a =>
          cases ha
          have hmoves := writerStep_running hs'
          cases hw : s.writer <;> simp_all [ServerThread.state, WriterPc.state]

/-- Main ends, or comes to its loop and goes on. -/
theorem ends_or_loops {rows : List Row} {x : Execution (step env)}
    (hinit : x.state 0 = .init rows) (hfair : x.Fair (Party.Ready env) Label.party)
    (henv : ¬ (env.queueInits ∧ env.databaseReady ∧ env.writerCreates = true ∧
      env.rxStartFails)) (n : ℕ) :
    ∃ m ≥ n, (x.state m).calls = [] ∨
      (x.state m).calls.head? = some .whileAppRunning ∧ (x.state m).appRunning = true := by
  have hs : ∀ k, Orderly env (x.state k) := fun k =>
    orderly_of_reachable henv (hinit ▸ x.reachable k)
  rcases (hs n).exists_pending with hend | hround | ⟨i, r, -, hp⟩
  · exact ⟨n, le_rfl, .inl hend⟩
  · exact ⟨n, le_rfl, .inr hround⟩
  · refine hfair.leadsTo (G := fun s => s.calls = [] ∨
      s.calls.head? = some .whileAppRunning ∧ s.appRunning = true)
      (P := fun s => s.Pending) (fun k i r hp => (hs k).ready hp) ?_ ?_ hp
    · exact fun k a i r hp hstep ha => (hs k).pending_advances (hs (k + 1)) hp hstep ha
    · exact fun k a i r hp hstep ha => .inr ((hs k).pending_aside hp hstep ha)

/-- Nothing undoes Ctrl-C. -/
theorem appRunning_step {a : Label} (h : step env s a = some s') (hs : s.appRunning = false) :
    s'.appRunning = false := by
  by_cases hmain : ∃ m, a = .main m
  · obtain ⟨m, rfl⟩ := hmain
    cases mainStep_cases h <;> exact hs
  · exact (aside_of_step h (not_exists.mp hmain)).appRunning hs

/-- **The server ends**: in every fair execution that does not take the exit without a receive
thread, if Ctrl-C is pressed once main has come to its loop, main at last returns and has joined
every thread it started, whatever arrives and whatever the calls answer. -/
theorem server_ends {rows : List Row} {x : Execution (step env)}
    (hinit : x.state 0 = .init rows) (hfair : x.Fair (Party.Ready env) Label.party)
    (henv : ¬ (env.queueInits ∧ env.databaseReady ∧ env.writerCreates = true ∧
      env.rxStartFails))
    (hsigint : (∃ n, (x.state n).calls.head? = some .whileAppRunning) →
      ∃ n, (x.state n).appRunning = false) :
    ∃ n, (x.state n).Ended := by
  have hs : ∀ k, Orderly env (x.state k) := fun k =>
    orderly_of_reachable henv (hinit ▸ x.reachable k)
  obtain ⟨m, -, hend | ⟨hloop, -⟩⟩ := ends_or_loops hinit hfair henv 0
  · exact ⟨m, (hs m).ended hend⟩
  · obtain ⟨n, hn⟩ := hsigint ⟨m, hloop⟩
    obtain ⟨k, hk, hend | ⟨-, hrunning⟩⟩ := ends_or_loops hinit hfair henv n
    · exact ⟨k, (hs k).ended hend⟩
    · have hstopped : (x.state k).appRunning = false :=
        Execution.stays (fun _ _ _ hs hstep => appRunning_step hstep hs) hn hk
      rw [hstopped] at hrunning
      cases hrunning

/-- Ctrl-C after the first command; the writer records its response and both threads are joined. -/
def endingSchedule : List Label :=
  backlogSchedule ++ drainingSchedule ++ List.replicate 2 (.call 0)

theorem server_ends_draining : ∃ x : Execution (step .allSucceed),
    x.state 0 = .init [] ∧ ∃ n, (x.state n).Ended := by
  obtain ⟨s, hs, hview⟩ := Option.map_eq_some_iff.mp (show
    (exec (step .allSucceed) (.init []) endingSchedule).map
      (fun s => (s.calls, s.rx.state, s.writer.state, s.appRunning)) =
        some ([], .exited, .exited, false) by decide)
  simp only [Prod.mk.injEq] at hview
  obtain ⟨hcalls, hrx, hwriter, hrunning⟩ := hview
  have hended : s.Ended := ⟨hcalls, fun t => by
    cases t <;> simp [ServerThread.state, hrx, hwriter]⟩
  let x := Execution.ofRun (Run.of_exec hs)
  have henv : ¬ Startup.allSucceed.rxStartFails := by
    simp [Startup.rxStartFails, Startup.allSucceed]
  have hsigint : (x.state endingSchedule.length).appRunning = false := by
    rw [Execution.ofRun_end _ le_rfl]
    exact hrunning
  exact ⟨x, rfl, server_ends rfl (Execution.fair_ofRun _ hended.quiet)
    (fun hexit => henv hexit.2.2.2) fun _ => ⟨_, hsigint⟩⟩

end PeripheralTester.Server
