import PeripheralTester.Firmware.Order
import PeripheralTester.Server.Generation
import PeripheralTester.Server.Recording
import PeripheralTester.Testbed.Attribution

/-! # Where a recorded verdict comes from

The testbed with the test handlers in it: where a task of the firmware runs its test, `benchStep`
runs the backend it is built with, and records the result.  What the firmware does is then a run of
`targetStep`, and everything else a step of the testbed, so the invariants of both hold
(`Bench.Invariant`).  On the way of a verdict back nothing but the writer puts a result into the
table.

`recorded_verdict_sound` follows a row of the summary back through the table, the network and the
firmware to the measurements that were made for it. -/

namespace PeripheralTester

open Lib Firmware Server

/-- The testbed, with the commands accepted and the results computed by the firmware. -/
structure Bench where
  testbed : Testbed
  accepted : List (Job ℕ)
  computed : List (Computed ℕ)

def Bench.init (startup : Startup) (rows : List Row) (udpPcb : Bool) : Bench :=
  ⟨.init startup rows udpPcb, [], []⟩

/-- The firmware of the testbed. -/
def Bench.target (b : Bench) : Target ℕ := ⟨b.testbed.device, b.accepted, b.computed⟩

/-- Who moves; a task that runs its test finds a board and is answered by a recording. -/
inductive BenchMove where
  | action (a : Action)
  | test (p : Peripheral) (g : Board) (env : List Slot)

/-- The action is a task's that would end its test. -/
def Testbed.endsTest (s : Testbed) : Action → Bool
  | .device (.task p _) =>
      match s.device.task p with
      | .run _ => true
      | _ => false
  | _ => false

/-- The command that the action makes the firmware accept. -/
def Testbed.accepts (s : Testbed) : Action → List (Job ℕ)
  | .device .callback => s.device.accepting.toList
  | _ => []

def testMove (config : Config) (b : Bench) (p : Peripheral) (g : Board) (env : List Slot) :
    Option Bench :=
  match b.testbed.device.task p with
  | .run j =>
      ((config.backend p).test j.command g env).bind fun o =>
        (b.testbed.step (.device (.task p (o.value = appProtocolTestSuccess)))).map fun s =>
          { b with testbed := s, computed := b.computed ++ [⟨p, j, o.value⟩] }
  | _ => none

def benchStep (config : Config) (b : Bench) : BenchMove → Option Bench
  | .action a =>
      if b.testbed.endsTest a then none
      else (b.testbed.step a).map fun s =>
        { b with testbed := s, accepted := b.accepted ++ b.testbed.accepts a }
  | .test p g env => testMove config b p g env

/-- The action of the testbed that a move is. -/
inductive BenchMoved (config : Config) (b : Bench) : BenchMove → Bench → Prop
  | action {a : Action} {s : Testbed} (ha : b.testbed.endsTest a = false)
      (hs : b.testbed.step a = some s) :
      BenchMoved config b (.action a)
        { b with testbed := s, accepted := b.accepted ++ b.testbed.accepts a }
  | test {p : Peripheral} {g : Board} {env : List Slot} {j : Job ℕ} {s : Testbed}
      {o : Outcome Board Slot Act UInt8} (ht : b.testbed.device.task p = .run j)
      (ho : (config.backend p).test j.command g env = some o)
      (hs : b.testbed.step (.device (.task p (o.value = appProtocolTestSuccess))) = some s) :
      BenchMoved config b (.test p g env)
        { b with testbed := s, computed := b.computed ++ [⟨p, j, o.value⟩] }

variable {config : Config} {b b' : Bench} {m : BenchMove}

theorem benchStep_cases (h : benchStep config b m = some b') : BenchMoved config b m b' := by
  cases m with
  | action a =>
      simp only [benchStep] at h
      split at h
      · cases h
      · rename_i ha
        obtain ⟨s, hs, rfl⟩ := Option.map_eq_some_iff.mp h
        exact .action (Bool.eq_false_iff.mpr ha) hs
  | test p g env =>
      replace h : testMove config b p g env = some b' := h
      unfold testMove at h
      split at h
      · rename_i ht
        obtain ⟨o, ho, h⟩ := Option.bind_eq_some_iff.mp h
        obtain ⟨s, hs, rfl⟩ := Option.map_eq_some_iff.mp h
        exact .test ht ho hs
      · cases h

/-! ### The firmware of the bench -/

/-- What an action of the testbed does to the firmware. -/
theorem Testbed.step_device {s s' : Testbed} {a : Action} (h : s.step a = some s') :
    s'.device = s.device ∧ s.accepts a = [] ∨
      ∃ e, Firmware.step s.device e = some s'.device ∧
        (e = .callback ∧ s.accepts a = s.device.accepting.toList ∨
          s.accepts a = [] ∧ (s.endsTest a = false → Routine s.device e)) := by
  cases a with
  | main answer socket =>
      obtain ⟨server, hserver, rfl⟩ := Option.map_eq_some_iff.mp h
      rcases afterMain_cases socket hserver with he | he <;> rw [he] <;> exact .inl ⟨rfl, rfl⟩
  | rx | writer | wake =>
      obtain ⟨server, -, rfl⟩ := Option.map_eq_some_iff.mp h
      exact .inl ⟨rfl, rfl⟩
  | sigint | start | commandFault | responseFault =>
      obtain rfl := Option.some.inj h
      exact .inl ⟨rfl, rfl⟩
  | recv i now =>
      simp only [step] at h
      split at h
      · cases h
      · split at h
        · obtain ⟨server, -, rfl⟩ := Option.map_eq_some_iff.mp h
          exact .inl ⟨rfl, rfl⟩
        · cases h
  | deliver i chain =>
      simp only [step] at h
      split at h
      · cases h
      · split at h
        · obtain ⟨device, hdevice, rfl⟩ := Option.map_eq_some_iff.mp h
          exact .inr ⟨.udpReceive _, hdevice, .inr ⟨rfl, fun _ => trivial⟩⟩
        · cases h
  | device e =>
      cases e with
      | udpReceive d => cases h
      | callback =>
          obtain ⟨device, hdevice, rfl⟩ := Option.map_eq_some_iff.mp h
          exact .inr ⟨.callback, hdevice, .inl ⟨rfl, rfl⟩⟩
      | dispatcher | sender =>
          obtain ⟨device, hdevice, rfl⟩ := Option.map_eq_some_iff.mp h
          exact .inr ⟨_, hdevice, .inr ⟨rfl, fun _ => trivial⟩⟩
      | task p passed =>
          obtain ⟨device, hdevice, rfl⟩ := Option.map_eq_some_iff.mp h
          refine .inr ⟨_, hdevice, .inr ⟨rfl, fun hends j hj => ?_⟩⟩
          simp only [endsTest, hj, Bool.true_eq_false] at hends

/-- A move leaves the firmware alone, or is one of its moves. -/
theorem BenchMoved.target (h : BenchMoved config b m b') :
    b'.target = b.target ∨ TargetMoved config b.target b'.target := by
  cases h with
  | @action a s ha hs =>
      rcases Testbed.step_device hs with ⟨hdevice, haccepts⟩ | ⟨e, he, hcase⟩
      · left
        simp only [Bench.target, hdevice, haccepts, List.append_nil]
      · right
        rcases hcase with ⟨rfl, haccepts⟩ | ⟨haccepts, hroutine⟩
        · simp only [Bench.target, haccepts]
          exact .callback (t := b.target) he
        · simp only [Bench.target, haccepts, List.append_nil]
          exact .routine (t := b.target) (hroutine ha) he
  | @test p g env j s o ht ho hs =>
      right
      obtain ⟨device, hdevice, rfl⟩ := Option.map_eq_some_iff.mp hs
      exact .test (t := b.target) ht ho hdevice

theorem Bench.target_invariant (h : BenchMoved config b m b') (hb : b.target.Invariant config) :
    b'.target.Invariant config := by
  rcases h.target with he | hmoved
  · rw [he]
    exact hb
  · obtain ⟨e, he⟩ := hmoved.step
    exact ⟨hb.device.step he, fun p => hmoved.lane hb.device.placed p (hb.lane p),
      hmoved.attributed hb.device.placed hb.attributed⟩

/-! ### The server of the bench -/

/-- What an action does to the server: main or another thread moves, the next run begins, or
nothing. -/
inductive Testbed.Served (s s' : Testbed) : Prop
  | main {a : MainAnswer} {socket : Endpoint} {server : Process}
      (h : mainStep s.startup a s.server = some server) (hs : s' = s.afterMain server socket)
  | thread {l : Server.Label} (hl : ∀ a, l ≠ .main a)
      (h : Server.step s.startup s.server l = some s'.server) (hrun : s'.run = s.run)
      (hsends : s'.sends = s.sends)
  | start (hserver : s'.server = .init s.server.database.rows) (hsends : s'.sends = s.sends)
  | none (hserver : s'.server = s.server) (hrun : s'.run = s.run) (hsends : s'.sends = s.sends)

theorem Testbed.step_served {s s' : Testbed} {a : Action} (h : s.step a = some s') :
    s.Served s' := by
  cases a with
  | main answer socket =>
      obtain ⟨server, hserver, rfl⟩ := Option.map_eq_some_iff.mp h
      exact .main hserver rfl
  | rx =>
      obtain ⟨server, hserver, rfl⟩ := Option.map_eq_some_iff.mp h
      exact .thread (l := .rx .error) (fun a ha => by cases ha) hserver rfl rfl
  | writer answer =>
      obtain ⟨server, hserver, rfl⟩ := Option.map_eq_some_iff.mp h
      exact .thread (l := .writer answer) (fun a ha => by cases ha) hserver rfl rfl
  | wake =>
      obtain ⟨server, hserver, rfl⟩ := Option.map_eq_some_iff.mp h
      exact .thread (fun a ha => by cases ha) hserver rfl rfl
  | sigint =>
      obtain rfl := Option.some.inj h
      exact .thread (l := .sigint) (fun a ha => by cases ha) rfl rfl rfl
  | start =>
      obtain rfl := Option.some.inj h
      exact .start rfl rfl
  | commandFault | responseFault =>
      obtain rfl := Option.some.inj h
      exact .none rfl rfl rfl
  | recv i now =>
      simp only [step] at h
      split at h
      · cases h
      · split at h
        · obtain ⟨server, hserver, rfl⟩ := Option.map_eq_some_iff.mp h
          exact .thread (l := .rx (.datagram _ _ now)) (fun a ha => by cases ha) hserver rfl rfl
        · cases h
  | deliver i chain =>
      simp only [step] at h
      split at h
      · cases h
      · split at h
        · obtain ⟨device, -, rfl⟩ := Option.map_eq_some_iff.mp h
          exact .none rfl rfl rfl
        · cases h
  | device e =>
      cases e with
      | udpReceive d => cases h
      | callback | dispatcher | task | sender =>
          obtain ⟨device, -, rfl⟩ := Option.map_eq_some_iff.mp h
          exact .none rfl rfl rfl

/-- The server of a state after a call of main. -/
theorem Testbed.afterMain_server {s : Testbed} {a : MainAnswer} {server : Process}
    (socket : Endpoint) (h : mainStep s.startup a s.server = some server) :
    (s.afterMain server socket).server = server ∧ (s.afterMain server socket).run = s.run := by
  rcases afterMain_cases socket h with he | he <;> rw [he] <;> exact ⟨rfl, rfl⟩

theorem Testbed.Served.stage {s s' : Testbed} (h : s.Served s') (hs : Stage s.server) :
    Stage s'.server := by
  cases h with
  | @main a socket server h hs' =>
      rw [hs', (afterMain_server socket h).1]
      have hstep : Server.step s.startup s.server (.main a) = some server := h
      exact stage_step hstep hs
  | thread _ h => exact stage_step h hs
  | start h =>
      rw [h]
      exact stage_init _
  | none h =>
      rw [h]
      exact hs

/-- A thread other than main leaves main alone, and writes to the table if it is the writer. -/
theorem Server.step_thread {env : Startup} {s s' : Process} {l : Server.Label}
    (hl : ∀ a, l ≠ .main a) (h : Server.step env s l = some s') :
    s'.calls = s.calls ∧ s'.command = s.command ∧
      (s'.database = s.database ∨ ∃ answer, writerStep answer s = some s') := by
  cases l with
  | main a => exact absurd rfl (hl a)
  | rx a =>
      have hf := rxStep_frame h
      exact ⟨hf.calls, hf.command, .inl hf.database⟩
  | writer answer =>
      have hf := writerStep_frame h
      exact ⟨hf.calls, hf.command, .inr ⟨answer, h⟩⟩
  | wake =>
      simp only [Server.step] at h
      split at h
      · obtain rfl := Option.some.inj h
        exact ⟨rfl, rfl, .inl rfl⟩
      · cases h
  | sigint =>
      obtain rfl := Option.some.inj h
      exact ⟨rfl, rfl, .inl rfl⟩

/-- Main comes to a call of its loop, other than the first of a round, only from the one before
it. -/
theorem Server.head_after {env : Startup} {s s' : Process} {a : MainAnswer} {x y : MainCall}
    (hstart : y ∉ MainCall.start) (hclosing : y.isClosing = false)
    (hround : ∀ l ∈ MainCall.round.tails ++ MainCall.afterLoop.tails,
      l.tail.head? = some y → l.head? = some x)
    (hexits : ∀ z : MainCall, ∀ l ∈ z.exits, l.head? ≠ some y)
    (h : mainStep env a s = some s') (hs : Stage s) (hhead : s'.calls.head? = some y) :
    s.calls.head? = some x := by
  obtain ⟨z, cs, hc, hcs | hexit | ⟨w, hw, hcs⟩⟩ := mainStep_calls h
  · rw [hcs] at hhead
    have hmem : y ∈ cs := List.mem_of_mem_head? hhead
    cases hs with
    | startup hst =>
        rw [hc] at hst
        exact absurd (hst.subset (List.mem_cons_of_mem z hmem)) hstart
    | serving hst =>
        rw [hc] at hst ⊢
        refine hround (z :: cs) ?_ hhead
        rcases hst with hst | hst | hst
        · exact List.mem_append_left _ ((List.mem_tails _ _).mpr hst)
        · exact List.mem_append_right _ ((List.mem_tails _ _).mpr ⟨[], hst⟩)
        · exact List.mem_append_right _ ((List.mem_tails _ _).mpr ⟨[.sleepApplicationStopDelay],
            by rw [hst]; rfl⟩)
    | leaving hst =>
        have hy := hst y (by rw [hc]; exact List.mem_cons_of_mem z hmem)
        rw [hclosing] at hy
        cases hy
  · exact absurd hhead (hexits z _ hexit)
  · rw [hcs] at hhead
    obtain rfl := Option.some.inj hhead
    cases z <;> cases hw <;> cases hclosing

theorem Server.MainCall.exits_head (z : MainCall) {y : MainCall}
    (hy : y = .udpClientSendCommand ∨ y = .resultDatabaseInsertCommand) :
    ∀ l ∈ z.exits, l.head? ≠ some y := by
  rcases hy with rfl | rfl <;> cases z <;> decide

/-- A command is sent after it was built. -/
theorem Server.head_send {env : Startup} {s s' : Process} {a : MainAnswer}
    (h : mainStep env a s = some s') (hs : Stage s)
    (hhead : s'.calls.head? = some .udpClientSendCommand) :
    s.calls.head? = some .commandGeneratorBuildNext :=
  head_after (by decide) rfl (by decide) (fun z => z.exits_head (.inl rfl)) h hs hhead

/-- An open that leaves the table open has cleared it. -/
theorem Server.rows_of_opened {db db' : Database} {opens creates clears : Bool}
    {status : ResultDatabaseStatus}
    (h : resultDatabaseOpen db opens creates clears = (status, db')) (hopen : db'.isOpen = true) :
    db'.rows = [] := by
  unfold resultDatabaseOpen at h
  cases opens <;> cases creates <;> cases clears <;> obtain ⟨-, rfl⟩ := Prod.mk.inj h <;>
    first | rfl | cases hopen

/-- What becomes of an open table in a call of main. -/
theorem Server.mainStep_rows {env : Startup} {s s' : Process} {a : MainAnswer}
    (h : mainStep env a s = some s') (hopen : s'.database.isOpen = true) :
    s'.database.rows = [] ∨ s.database.isOpen = true ∧
      (s'.database.rows = s.database.rows ∨
        s.calls.head? = some .resultDatabaseInsertCommand ∧
          s'.database.rows = s.database.rows ++ [Row.ofCommand s.command a.now]) := by
  cases mainStep_cases h
  case resultDatabaseOpen hdb | databaseOpenFailed hdb => exact .inl (rows_of_opened hdb hopen)
  case resultDatabaseInsertCommand hc =>
    right
    rcases insert_cases s.database s.command a.now a.sqlite with heq | ⟨ho, -, -, heq⟩ <;>
      rw [heq] at hopen ⊢
    · exact ⟨hopen, .inl rfl⟩
    · exact ⟨ho, .inr ⟨by rw [hc]; rfl, rfl⟩⟩
  case resultDatabaseClose => cases hopen
  all_goals exact .inr ⟨hopen, .inl rfl⟩

/-! ### Rows and the commands and results behind them -/

/-- The row was inserted for a command sent in this run, and its result, if it has one, was
computed for a command sent in this run with the `test_id` of the row. -/
structure Bench.Backed (b : Bench) (row : Row) : Prop where
  inserted : ∃ (n : ℕ) (c : Command) (now : ℤ), b.testbed.sends[n]? = some (b.testbed.run, c) ∧
    (Row.ofCommand c now).Follows row
  judged : ∀ r, row.result = some r → row.status = statusOf r ∧ ∃ v ∈ b.computed, v.result = r ∧
    v.job.command.testId = row.testId ∧
      b.testbed.sends[v.job.origin]? = some (b.testbed.run, v.job.command)

/-- More is sent in the same run, and more computed. -/
theorem Bench.Backed.mono {row : Row} (h : b.Backed row) {l : List (ℕ × Command)}
    (hrun : b'.testbed.run = b.testbed.run) (hsends : b'.testbed.sends = b.testbed.sends ++ l)
    (hcomputed : b.computed ⊆ b'.computed) : b'.Backed row := by
  constructor
  · obtain ⟨n, c, now, hn, hrow⟩ := h.inserted
    exact ⟨n, c, now, by rw [hsends, hrun]; exact Testbed.getElem?_sends hn, hrow⟩
  · intro r hr
    obtain ⟨hstatus, v, hv, hresult, hid, hn⟩ := h.judged r hr
    exact ⟨hstatus, v, hcomputed hv, hresult, hid,
      by rw [hsends, hrun]; exact Testbed.getElem?_sends hn⟩

/-- A row whose result was computed for a command sent in this run with its `test_id`. -/
theorem Bench.Backed.record {row : Row} {r : ResponseRecord} (h : b.Backed row)
    {v : Computed ℕ} (hv : v ∈ b.computed) (hresult : v.result = r.response.result)
    (hid : v.job.command.testId = row.testId)
    (hn : b.testbed.sends[v.job.origin]? = some (b.testbed.run, v.job.command)) :
    b.Backed (row.record r) := by
  constructor
  · obtain ⟨n, c, now, hn, hrow⟩ := h.inserted
    exact ⟨n, c, now, hn, Row.Follows.trans _ _ _ hrow (row.follows_record r)⟩
  · intro r' hr'
    obtain rfl := Option.some.inj hr'
    exact ⟨rfl, v, hv, hresult, hid, hn⟩

/-- What is known of the bench. -/
structure Bench.Invariant (config : Config) (b : Bench) : Prop where
  genuine : b.testbed.Genuine
  owned : b.testbed.epochs.Owned
  target : b.target.Invariant config
  stage : Stage b.testbed.server
  /-- Main sends what it has built. -/
  sending : b.testbed.server.calls.head? = some .udpClientSendCommand →
    10 ≤ b.testbed.server.command.iterations
  /-- Main inserts what it has sent. -/
  inserting : b.testbed.server.calls.head? = some .resultDatabaseInsertCommand →
    ∃ n : ℕ, b.testbed.sends[n]? = some (b.testbed.run, b.testbed.server.command)
  asked : ∀ x ∈ b.testbed.sends, 10 ≤ x.2.iterations
  rows : b.testbed.server.database.isOpen = true →
    ∀ row ∈ b.testbed.server.database.rows, b.Backed row

theorem bench_invariant_init (startup : Startup) (rows : List Row) (udpPcb : Bool) :
    (Bench.init startup rows udpPcb).Invariant config where
  genuine := Testbed.genuine_init startup rows udpPcb
  owned := Epochs.owned_of_empty (Set.eq_empty_of_forall_notMem fun _ => not_holds_init _)
  target := target_invariant_init udpPcb
  stage := stage_init rows
  sending := fun h => by cases h
  inserting := fun h => by cases h
  asked := fun _ h => by cases h
  rows := fun h => by cases h

/-- The writer puts a result into the table that was computed for the command it was sent for. -/
theorem Bench.Invariant.written (hb : b.Invariant config) {answer : SqliteAnswer}
    {server : Process} (h : writerStep answer b.testbed.server = some server)
    (hopen : server.database.isOpen = true) : ∀ row ∈ server.database.rows, b.Backed row := by
  cases writerStep_cases h with
  | test | wait | fail | pop => exact hb.rows hopen
  | @update r hw =>
      rcases update_cases b.testbed.server.database r.record answer with heq | ⟨ho, -, heq⟩ <;>
        simp only [heq] at hopen ⊢
      · exact hb.rows hopen
      intro row hrow
      rcases mem_updateRows.mp hrow with ⟨hrow, -⟩ | ⟨old, hold, hid, rfl⟩
      · exact hb.rows ho row hrow
      · have hattributed := Testbed.attributed_of_owned hb.genuine hb.owned
        obtain ⟨a, ha, hresponse, hsend, horigin, haid⟩ :=
          hattributed r (by rw [hw]; exact List.mem_singleton_self r) ho old hold hid
        obtain ⟨p, hp⟩ := hb.target.attributed.responses a (List.mem_append_right _ ha)
        rw [← horigin] at hsend
        refine (hb.rows ho old hold).record hp ?_ haid hsend
        rw [hresponse]

/-- What a call of main builds asks for at least ten iterations. -/
theorem Server.mainStep_built {env : Startup} {s s' : Process} {a : MainAnswer}
    (h : mainStep env a s = some s') (hhead : s.calls.head? = some .commandGeneratorBuildNext) :
    10 ≤ s'.command.iterations := by
  cases mainStep_cases h
  case commandGeneratorBuildNext hc => exact (randomRange_mem (by decide) _).1
  all_goals
    rw [‹s.calls = _›] at hhead
    cases hhead

/-- What a call of main sends. -/
theorem Testbed.afterMain_sends {s : Testbed} {a : MainAnswer} {server : Process}
    (socket : Endpoint) (h : mainStep s.startup a s.server = some server) :
    (s.afterMain server socket).sends = s.sends ∧
        (s.server.calls.head? = some .udpClientSendCommand →
          server.calls = MainCall.sendFailed) ∨
      (s.afterMain server socket).sends = s.sends ++ [(s.run, s.server.command)] ∧
        s.server.calls.head? = some .udpClientSendCommand ∧
          server.command = s.server.command := by
  have hsame : server.sent = s.server.sent → (s.afterMain server socket).sends = s.sends := by
    intro hsent
    unfold afterMain
    rw [hsent, List.drop_length]
  rcases mainStep_table h with ⟨hsend, _, hsent, _⟩ |
    ⟨hhead, _, _, ⟨hsent, hcommand, _⟩ | ⟨hsent, hcalls⟩⟩ | ⟨hhead, hsent, _⟩
  · exact .inl ⟨hsame hsent, fun hhead => absurd hhead hsend⟩
  · refine .inr ⟨?_, hhead, hcommand⟩
    unfold afterMain
    rw [hsent, List.drop_left]
  · exact .inl ⟨hsame hsent, fun _ => hcalls⟩
  · refine .inl ⟨hsame hsent, fun hsend => ?_⟩
    rw [hhead] at hsend
    cases hsend

/-- Nothing is sent, or what main has built. -/
theorem Bench.Invariant.main_asked (hb : b.Invariant config) {a : MainAnswer} {server : Process}
    (socket : Endpoint) (h : mainStep b.testbed.startup a b.testbed.server = some server) :
    ∀ x ∈ (b.testbed.afterMain server socket).sends, 10 ≤ x.2.iterations := by
  rcases Testbed.afterMain_sends socket h with ⟨hsends, -⟩ | ⟨hsends, hhead, -⟩ <;> rw [hsends]
  · exact hb.asked
  · intro x hx
    rcases List.mem_append.mp hx with hx | hx
    · exact hb.asked x hx
    · rw [List.mem_singleton.mp hx]
      exact hb.sending hhead

/-- Main is about to insert the command it has sent. -/
theorem Bench.Invariant.main_inserting (hb : b.Invariant config) {a : MainAnswer}
    {server : Process} (socket : Endpoint)
    (h : mainStep b.testbed.startup a b.testbed.server = some server)
    (hhead : server.calls.head? = some .resultDatabaseInsertCommand) :
    ∃ n : ℕ, (b.testbed.afterMain server socket).sends[n]? =
      some (b.testbed.run, server.command) := by
  rcases Testbed.afterMain_sends socket h with ⟨-, hfailed⟩ | ⟨hsends, -, hcommand⟩
  · rw [hfailed (head_insert h hb.stage hhead)] at hhead
    cases hhead
  · rw [hsends, hcommand]
    exact ⟨_, List.getElem?_concat_length⟩

theorem Bench.Invariant.main_rows (hb : b.Invariant config) {a : MainAnswer} {server : Process}
    (socket : Endpoint) (h : mainStep b.testbed.startup a b.testbed.server = some server)
    (htestbed : b'.testbed = b.testbed.afterMain server socket)
    (hcomputed : b.computed ⊆ b'.computed) (hopen : server.database.isOpen = true) :
    ∀ row ∈ server.database.rows, b'.Backed row := by
  obtain ⟨l, hl⟩ : ∃ l, b'.testbed.sends = b.testbed.sends ++ l := by
    rw [htestbed]
    rcases Testbed.afterMain_sends socket h with ⟨hsends, -⟩ | ⟨hsends, -⟩ <;> rw [hsends]
    · exact ⟨[], (List.append_nil _).symm⟩
    · exact ⟨_, rfl⟩
  have hrun : b'.testbed.run = b.testbed.run := by
    rw [htestbed, (Testbed.afterMain_server socket h).2]
  have hold : ∀ row, b.Backed row → b'.Backed row := fun row hrow => hrow.mono hrun hl hcomputed
  rcases mainStep_rows h hopen with hrows | ⟨ho, hrows | ⟨hhead, hrows⟩⟩ <;> rw [hrows] <;>
    intro row hrow
  · cases hrow
  · exact hold row (hb.rows ho row hrow)
  · rcases List.mem_append.mp hrow with hrow | hrow
    · exact hold row (hb.rows ho row hrow)
    · -- the row of the command that was sent last
      obtain rfl := List.mem_singleton.mp hrow
      apply hold
      obtain ⟨n, hn⟩ := hb.inserting hhead
      exact ⟨⟨n, _, a.now, hn, .refl _⟩, fun r hr => by cases hr⟩

/-- The part of the invariant that the server's threads keep. -/
theorem Bench.Invariant.served (hb : b.Invariant config) (h : b.testbed.Served b'.testbed)
    (hcomputed : b.computed ⊆ b'.computed) :
    (b'.testbed.server.calls.head? = some .udpClientSendCommand →
      10 ≤ b'.testbed.server.command.iterations) ∧
    (b'.testbed.server.calls.head? = some .resultDatabaseInsertCommand →
      ∃ n : ℕ, b'.testbed.sends[n]? = some (b'.testbed.run, b'.testbed.server.command)) ∧
    (∀ x ∈ b'.testbed.sends, 10 ≤ x.2.iterations) ∧
    (b'.testbed.server.database.isOpen = true →
      ∀ row ∈ b'.testbed.server.database.rows, b'.Backed row) := by
  cases h with
  | @main a socket server h hs =>
      obtain ⟨hserver, hrun⟩ := Testbed.afterMain_server socket h
      have hrows := hb.main_rows socket h hs hcomputed
      rw [hs, hserver, hrun]
      exact ⟨fun hhead => mainStep_built h (head_send h hb.stage hhead),
        hb.main_inserting socket h, hb.main_asked socket h, hrows⟩
  | thread hl h hrun hsends =>
      obtain ⟨hcalls, hcommand, hdatabase⟩ := step_thread hl h
      rw [hcalls, hcommand, hsends, hrun]
      refine ⟨hb.sending, hb.inserting, hb.asked, fun hopen row hrow => ?_⟩
      refine Bench.Backed.mono (l := []) (b := b) ?_ hrun (by rw [hsends, List.append_nil])
        hcomputed
      rcases hdatabase with heq | ⟨answer, hwrite⟩
      · rw [heq] at hopen hrow
        exact hb.rows hopen row hrow
      · exact hb.written hwrite hopen row hrow
  | start hserver hsends =>
      rw [hserver, hsends]
      exact ⟨nofun, nofun, hb.asked, nofun⟩
  | none hserver hrun hsends =>
      rw [hserver, hsends, hrun]
      refine ⟨hb.sending, hb.inserting, hb.asked, fun hopen row hrow => ?_⟩
      exact (hb.rows hopen row hrow).mono (l := []) hrun (by rw [hsends, List.append_nil])
        hcomputed

/-! ### Runs -/

/-- Main inserts a row only when all commands under way with its `test_id` are of this run. -/
def InsertsFreshly (b : Bench) : BenchMove → Prop
  | .action a => b.testbed.InsertsFresh a
  | .test _ _ _ => True

instance (b : Bench) (m : BenchMove) : Decidable (InsertsFreshly b m) :=
  match m with
  | .action a => inferInstanceAs (Decidable (b.testbed.InsertsFresh a))
  | .test _ _ _ => .isTrue trivial

theorem Bench.Invariant.step (hb : b.Invariant config) (hfresh : InsertsFreshly b m)
    (h : benchStep config b m = some b') : b'.Invariant config := by
  have hmoved := benchStep_cases h
  obtain ⟨a, hstep, ha, hcomputed⟩ : ∃ a, b.testbed.step a = some b'.testbed ∧
      b.testbed.InsertsFresh a ∧ b.computed ⊆ b'.computed := by
    cases hmoved with
    | action _ hs => exact ⟨_, hs, hfresh, List.Subset.refl _⟩
    | test _ _ hs => exact ⟨_, hs, trivial, List.subset_append_left _ _⟩
  have hserved := Testbed.step_served hstep
  obtain ⟨hsending, hinserting, hasked, hrows⟩ := hb.served hserved hcomputed
  exact ⟨Testbed.genuine_step hstep hb.genuine,
    Testbed.owned_step hstep hb.genuine ha hb.owned, Bench.target_invariant hmoved hb.target,
    hserved.stage hb.stage, hsending, hinserting, hasked, hrows⟩

/-- The job was tested in the run `ms` from `b`: one of its moves is the test, it is made where the
task of the peripheral has the job, and it has the outcome `o`. -/
def TestedIn (config : Config) (b : Bench) (ms : List BenchMove) (p : Peripheral) (j : Job ℕ)
    (o : Outcome Board Slot Act UInt8) : Prop :=
  ∃ ms₁ g env ms₂ b₁, ms = ms₁ ++ .test p g env :: ms₂ ∧ Run (benchStep config) b ms₁ b₁ ∧
    b₁.testbed.device.task p = .run j ∧ (config.backend p).test j.command g env = some o

theorem TestedIn.cons {ms : List BenchMove} {p : Peripheral} {j : Job ℕ}
    {o : Outcome Board Slot Act UInt8} (hs : benchStep config b m = some b')
    (h : TestedIn config b' ms p j o) : TestedIn config b (m :: ms) p j o := by
  obtain ⟨ms₁, g, env, ms₂, b₁, rfl, hrun, htask, ho⟩ := h
  exact ⟨m :: ms₁, g, env, ms₂, b₁, rfl, .step hs hrun, htask, ho⟩

/-- A result was computed before the run, or by one of its test moves. -/
theorem computed_of_run {ms : List BenchMove} (h : Run (benchStep config) b ms b') :
    ∀ v ∈ b'.computed, v ∈ b.computed ∨
      ∃ o, TestedIn config b ms v.peripheral v.job o ∧ o.value = v.result := by
  induction h with
  | refl => exact fun v hv => .inl hv
  | @step b b₁ b' m ms hs _ ih =>
      intro v hv
      rcases ih v hv with hv | ⟨o, ho, hvalue⟩
      · cases benchStep_cases hs with
        | action => exact .inl hv
        | @test p g env j s o ht ho _ =>
            rcases List.mem_append.mp hv with hv | hv
            · exact .inl hv
            · obtain rfl := List.mem_singleton.mp hv
              exact .inr ⟨o, ⟨[], g, env, ms, b, rfl, .refl b, ht, ho⟩, rfl⟩
      · exact .inr ⟨o, ho.cons hs, hvalue⟩

/-- **Where a recorded verdict comes from**: in every run of the server, the network and the
firmware in which rows are inserted freshly, whatever the order of steps, losses, duplications,
restarts of the server and answers of the hardware, each row of the open table was inserted for a
command sent in the current run; and if it has a result, then one of the moves of the run is the
test that computed it: there the task of a peripheral had a command of at least ten iterations, for
this peripheral, which was sent in the current run with the `test_id` of the row, and the backend's
test of this command has this result.  If the row says `PASSED`, each of these iterations has left
its evidence in the trace of that test. -/
theorem recorded_verdict_sound {startup : Startup} {rows : List Row} {udpPcb : Bool}
    {ms : List BenchMove} (h : Run (benchStep config) (.init startup rows udpPcb) ms b)
    (hfresh : Meets (benchStep config) InsertsFreshly (.init startup rows udpPcb) ms)
    (hopen : b.testbed.server.database.isOpen = true) :
    ∀ row ∈ b.testbed.server.database.rows,
      (∃ (n : ℕ) (c : Command) (now : ℤ), b.testbed.sends[n]? = some (b.testbed.run, c) ∧
        (Row.ofCommand c now).Follows row) ∧
      ∀ r, row.result = some r → row.status = statusOf r ∧
        ∃ (p : Peripheral) (j : Job ℕ) (o : Outcome Board Slot Act UInt8),
          TestedIn config (.init startup rows udpPcb) ms p j o ∧ o.value = r ∧
          b.testbed.sends[j.origin]? = some (b.testbed.run, j.command) ∧
          j.command.testId = row.testId ∧ 10 ≤ j.command.iterations ∧
          Peripheral.ofCode j.command.peripheral = some p ∧
          (row.status = .passed → ∃ w,
            Completed ((config.backend p).Evidence j.command) j.command w ∧ w.Sublist o.trace) := by
  have hb : b.Invariant config := Run.invariant (I := Bench.Invariant config)
    (fun _ _ _ hb hm hstep => hb.step hm hstep) h hfresh (bench_invariant_init startup rows udpPcb)
  intro row hrow
  have hbacked := hb.rows hopen row hrow
  refine ⟨hbacked.inserted, fun r hr => ?_⟩
  obtain ⟨hstatus, v, hv, rfl, hid, hsend⟩ := hbacked.judged r hr
  have hperipheral := (hb.target.attributed.genuine v hv).peripheral
  obtain ⟨o, htested, hvalue⟩ := (computed_of_run h v hv).resolve_left (List.not_mem_nil)
  refine ⟨hstatus, v.peripheral, v.job, o, htested, hvalue, hsend, hid,
    hb.asked _ (List.mem_of_getElem? hsend), hperipheral, fun hpassed => ?_⟩
  obtain ⟨ms₁, g, env, ms₂, b₁, -, -, -, ho⟩ := htested
  apply ((config.backend v.peripheral).judges v.job.command).passed.post _ _ o ho
  rw [hstatus] at hpassed
  rw [hvalue]
  unfold statusOf at hpassed
  split at hpassed
  · assumption
  · cases hpassed

/-- One run up to the update of its first row: ten iterations of the timer test, each of which
measures exactly the delay. -/
def recordedRun : List BenchMove :=
  (Testbed.sending 1 ++ Testbed.arriving ++ Testbed.testing).map .action ++
    .test .timer restingBoard
      (List.replicate 10 [quietSlot 5, quietSlot 0, quietSlot 100005]).flatten ::
    (Action.device (.task .timer true) :: List.replicate 6 (Action.device (.sender true errOk)) ++
      Testbed.receiving ++ [Action.writer .runs]).map .action

theorem recorded_verdict_sound_timer :
    ∃ b : Bench, Run (benchStep appConfig) (.init .allSucceed [] true) recordedRun b ∧
      ∃ row ∈ b.testbed.server.database.rows, row.status = .passed ∧
        ∃ (j : Job ℕ) (o : Outcome Board Slot Act UInt8),
          TestedIn appConfig (.init .allSucceed [] true) recordedRun .timer j o ∧
            b.testbed.sends[j.origin]? = some (b.testbed.run, j.command) := by
  have hview : (exec (benchStep appConfig) (.init .allSucceed [] true) recordedRun).map
      (fun b => (b.testbed.server.database.isOpen,
        b.testbed.server.database.rows.map fun row => (row.result, row.status))) =
      some (true, [(some appProtocolTestSuccess, .passed)]) := by
    decide +kernel
  obtain ⟨b, hb, he⟩ := Option.map_eq_some_iff.mp hview
  obtain ⟨hopen, hrows⟩ := Prod.mk.inj he
  have hfresh : Meets (benchStep appConfig) InsertsFreshly (.init .allSucceed [] true)
      recordedRun := by
    decide +kernel
  obtain ⟨row, hrow, hresult⟩ : ∃ row ∈ b.testbed.server.database.rows,
      (row.result, row.status) = (some appProtocolTestSuccess, .passed) :=
    List.mem_map.mp (hrows ▸ List.mem_singleton_self _)
  obtain ⟨hresult, hstatus⟩ := Prod.mk.inj hresult
  obtain ⟨-, p, j, o, htested, -, hsend, -⟩ :=
    (recorded_verdict_sound (.of_exec hb) hfresh hopen row hrow).2 _ hresult
  -- the run has one test move, the timer's
  obtain rfl : p = .timer := by
    obtain ⟨ms₁, g, env, ms₂, -, hms, -⟩ := htested
    have hmem : BenchMove.test p g env ∈ recordedRun := by
      rw [hms]
      exact List.mem_append_right _ List.mem_cons_self
    simp only [recordedRun, List.mem_append, List.mem_cons, List.mem_map, reduceCtorEq, and_false,
      exists_false, false_or, or_false, BenchMove.test.injEq] at hmem
    exact hmem.1
  exact ⟨b, .of_exec hb, row, hrow, hstatus, j, o, htested, hsend⟩

end PeripheralTester
