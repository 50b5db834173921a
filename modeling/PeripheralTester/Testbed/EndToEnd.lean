import PeripheralTester.Firmware.Ideal
import PeripheralTester.Firmware.Order
import PeripheralTester.Server.Generation
import PeripheralTester.Testbed.WireFormat

/-! # Generated commands from end to end

A command goes from the generator of the server through the firmware and back into the table of the
server.  The two programs have to agree about all of it: the generator's ranges, the layout of the
bytes, the codes that the dispatcher knows, the lengths that the tests accept, and the result that
the server takes for a success.

**`generated_command_passes`**: every command that the generator builds is for a peripheral that
the dispatcher knows, is tested on ideal hardware with exactly the iterations it asks for, is
answered with its identifier and `APP_PROTOCOL_TEST_SUCCESS`, and is recorded as passed. -/

namespace PeripheralTester

open Lib Firmware Server

/-! ### The firmware -/

namespace Firmware

variable {ο : Type} {config : Config} {c : Command} {p : Peripheral}

/-- The tests of the command find ideal hardware. -/
def TestsIdeally (config : Config) (c : Command) (t : Target ο) : TargetMove ο → Prop
  | .task p g env => ∀ j, t.device.task p = .run j → j.command = c →
      (config.backend p).Ideal c g env
  | _ => True

/-- A move computes nothing, or the result of a test. -/
theorem targetStep_computed {t t' : Target ο} {m : TargetMove ο}
    (h : targetStep config t m = some t') :
    t'.computed = t.computed ∨ ∃ p g env j o, m = .task p g env ∧ t.device.task p = .run j ∧
      (config.backend p).test j.command g env = some o ∧
        t'.computed = t.computed ++ [⟨p, j, o.value⟩] := by
  cases m with
  | udpReceive d | callback | dispatcher | sender allocates err =>
      obtain ⟨s, _, rfl⟩ := Option.map_eq_some_iff.mp h
      exact .inl rfl
  | task p g env =>
      replace h : taskMove config t p g env = some t' := h
      unfold taskMove at h
      split at h
      · rename_i j hj
        obtain ⟨o, ho, h⟩ := Option.bind_eq_some_iff.mp h
        obtain ⟨s, _, rfl⟩ := Option.map_eq_some_iff.mp h
        exact .inr ⟨p, g, env, j, o, rfl, hj, ho, rfl⟩
      · obtain ⟨s, _, rfl⟩ := Option.map_eq_some_iff.mp h
        exact .inl rfl

/-- The command has a pattern if its test transfers it. -/
def Suits (config : Config) (c : Command) (p : Peripheral) : Prop :=
  c.peripheral = p.code ∧ ((config.backend p).loopback.isSome → c.patternLen ≠ 0)

theorem Suits.test (hc : Suits config c p) {g : Board} {env : List Slot}
    (h : (config.backend p).Ideal c g env) :
    ∃ o, (config.backend p).test c g env = some o ∧ o.value = appProtocolTestSuccess ∧
      (config.backend p).Performed c o.trace := by
  obtain ⟨g', w, hw, hperformed⟩ := Backend.plays_test hc.2 h
  exact ⟨_, hw.some, rfl, hperformed⟩

/-- In a run on ideal hardware every result for the command is a success, computed by the task of
its peripheral. -/
theorem Suits.computed (hc : Suits config c p) {udpPcb : Bool} {ls : List (TargetMove ο)}
    {t : Target ο} (h : Run (targetStep config) (.init udpPcb) ls t)
    (hideal : Meets (targetStep config) (TestsIdeally config c) (.init udpPcb) ls) :
    ∀ v ∈ t.computed, v.job.command = c → v.peripheral = p ∧ v.result = appProtocolTestSuccess := by
  refine (Run.invariant (I := fun t : Target ο => t.Invariant config ∧ ∀ v ∈ t.computed,
    v.job.command = c → v.peripheral = p ∧ v.result = appProtocolTestSuccess) ?_ h hideal
    ⟨target_invariant_init udpPcb, fun v hv => by cases hv⟩).2
  rintro t m t' ⟨ht, hall⟩ hm hstep
  have ht' := ht.step hstep
  refine ⟨ht', ?_⟩
  intro v hv hcommand
  have hgenuine := (ht'.attributed.genuine v hv).peripheral
  rw [hcommand, hc.1, Peripheral.ofCode_code, Option.some.injEq] at hgenuine
  refine ⟨hgenuine.symm, ?_⟩
  rcases targetStep_computed hstep with hsame | ⟨p', g, env, j, o, rfl, hj, ho, hcomputed⟩
  · rw [hsame] at hv
    exact (hall v hv hcommand).2
  · rw [hcomputed] at hv
    rcases List.mem_append.mp hv with hv | hv
    · exact (hall v hv hcommand).2
    · -- the test of this move
      obtain rfl := List.mem_singleton.mp hv
      obtain rfl : p = p' := hgenuine
      obtain ⟨o', ho', hvalue, _⟩ := hc.test (hm j hj hcommand)
      rw [show j.command = c from hcommand, ho'] at ho
      obtain rfl := Option.some.inj ho
      exact hvalue

/-- And so is every response. -/
theorem Suits.handed (hc : Suits config c p) {udpPcb : Bool} {ls : List (TargetMove ο)}
    {t : Target ο} (h : Run (targetStep config) (.init udpPcb) ls t)
    (hideal : Meets (targetStep config) (TestsIdeally config c) (.init udpPcb) ls) :
    ∀ a ∈ t.device.handed, a.job.command = c → a.response = ⟨c.testId, appProtocolTestSuccess⟩ := by
  intro a ha hcommand
  have ht : t.Invariant config :=
    h.preserves (fun _ _ _ hs hstep => hs.step hstep) (target_invariant_init udpPcb)
  have hmem : a ∈ t.device.responses := List.mem_append_right _ ha
  obtain ⟨p', hbacked⟩ := ht.attributed.responses a hmem
  have hid := ht.device.placed.responses a hmem
  have hresult : a.response.result = appProtocolTestSuccess :=
    (hc.computed h hideal _ hbacked hcommand).2
  rw [hcommand] at hid
  calc a.response = ⟨a.response.testId, a.response.result⟩ := rfl
    _ = ⟨c.testId, appProtocolTestSuccess⟩ := by rw [hid, hresult]

/-- The dispatcher passes the command to its task, if there is room. -/
theorem Suits.routed (hc : Suits config c p) {s : Device ο} {j : Job ο}
    {q : Fifo (Job ο) appQueueLength} (hj : s.dispatcher = some j) (hcommand : j.command = c)
    (hq : (s.queue p).push j = some q) :
    dispatcherStep s =
      some { s with queue := Function.update s.queue p q, dispatcher := none } := by
  have hp : Peripheral.ofCode j.command.peripheral = some p := by
    rw [hcommand]
    exact Peripheral.ofCode_eq_some_iff.mpr hc.1
  unfold dispatcherStep
  simp only [hj, hp, hq]

theorem appQueueLength_pos : 0 < appQueueLength := by decide

/-- Everybody waits; these commands wait for their tasks, and these responses for the sender. -/
structure Device.Waits (s : Device ο) (commands : Peripheral → Fifo (Job ο) appQueueLength)
    (responses : Fifo (Answer ο) appQueueLength) : Prop where
  udpPcb : s.udpPcb = true
  callback : s.callback = .idle
  commandQueue : s.commandQueue = .empty
  dispatcher : s.dispatcher = none
  queue : s.queue = commands
  task : s.task = fun _ => .idle
  responseQueue : s.responseQueue = responses
  sender : s.sender = .idle

/-- Nothing is under way. -/
def Device.Resting (s : Device ο) : Prop := s.Waits (fun _ => .empty) .empty

/-- The endpoint that responses go to. -/
def Device.AnswersTo (s : Device ο) (source : Endpoint) : Prop :=
  s.remoteValid = true ∧ (⟨s.remoteAddr, s.remotePort⟩ : Endpoint) = source

/-- The job of the datagram. -/
def Device.jobOf (s : Device ο) (c : Command) (d : Datagram ο) : Job ο :=
  ⟨c, s.arrived.length, d.source, d.origin⟩

/-- The datagram goes through the receive callback and the dispatcher. -/
theorem Device.Resting.arrives {s : Device ο} (hs : s.Resting)
    (hp : Peripheral.ofCode c.peripheral = some p) {d : Datagram ο}
    (hd : d.chain.flatten = c.encode) :
    ∃ s', Run step s (.udpReceive (some d) :: List.replicate 4 .callback ++
        List.replicate 2 .dispatcher) s' ∧
      s'.Waits (Function.update (fun _ => .empty) p (.single appQueueLength_pos (s.jobOf c d)))
        .empty ∧ s'.AnswersTo d.source ∧ s'.sends = s.sends := by
  have hlength : d.chain.flatten.length = Command.size := by rw [hd, Command.encode_length]
  have htot : d.totLen = Command.size := by rw [← hlength, List.length_flatten]; rfl
  have hdecode : Command.decode d.chain.flatten = c := by rw [hd, Command.decode_encode]
  simp only [← exec_eq_some_iff, List.replicate, List.cons_append, List.nil_append, exec, step,
    udpReceive, hs.udpPcb, hs.callback, if_true, Option.bind_some, callbackStep,
    pbufCopyPartial_command htot, htot, hlength, hdecode, ne_eq, not_true_eq_false, if_false,
    hs.commandQueue, Fifo.push_empty appQueueLength_pos, dispatcherStep, hs.dispatcher,
    Fifo.pop_single, Device.print, hp, hs.queue, Option.some.injEq, exists_eq_left']
  exact ⟨⟨rfl, rfl, rfl, rfl, rfl, hs.task, hs.responseQueue, hs.sender⟩, ⟨rfl, rfl⟩, trivial⟩

/-- The sender takes the response. -/
theorem Device.Waits.sends {s : Device ο} {a : Answer ο}
    (hs : s.Waits (fun _ => .empty) (.single appQueueLength_pos a)) {source : Endpoint}
    (hsource : s.AnswersTo source) :
    ∃ s', Run step s (List.replicate 6 (.sender true errOk)) s' ∧ s'.Resting ∧
      ∃ x : Sent ο, s'.sends = s.sends ++ [x] ∧ x.answer = a ∧ x.destination = source ∧
        x.err = errOk := by
  simp only [← exec_eq_some_iff, List.replicate, exec, step, senderStep, hs.sender,
    hs.responseQueue, Fifo.pop_single, Option.bind_some, Device.print, hs.udpPcb, hsource.1,
    Bool.not_true, Bool.or_false, Bool.false_eq_true, if_false, if_true, ne_eq, not_true_eq_false,
    Option.some.injEq, exists_eq_left']
  exact ⟨⟨rfl, hs.callback, hs.commandQueue, hs.dispatcher, hs.queue, hs.task, rfl, rfl⟩,
    _, rfl, rfl, hsource.2, rfl⟩

/-- The events of the parties that run no tests, as moves. -/
def Event.toMove : Event ο → TargetMove ο
  | .udpReceive d => .udpReceive d
  | .callback => .callback
  | .dispatcher => .dispatcher
  | .task p _ => .task p restingBoard []
  | .sender allocates err => .sender allocates err

/-- A run of these parties. -/
theorem lift_run (config : Config) {s s' : Device ο} {es : List (Event ο)} (h : Run step s es s')
    (hes : ∀ e ∈ es, ∀ p passed, e ≠ .task p passed) {t : Target ο} (ht : t.device = s) :
    ∃ t', Run (targetStep config) t (es.map Event.toMove) t' ∧ t'.device = s' ∧
      t'.computed = t.computed := by
  induction h generalizing t with
  | refl s => exact ⟨t, .refl t, ht, rfl⟩
  | @step s s₁ s' e es hs _ ih =>
      subst ht
      have hstep : ∃ t₁, targetStep config t e.toMove = some t₁ ∧ t₁.device = s₁ ∧
          t₁.computed = t.computed := by
        cases e with
        | udpReceive d | callback | dispatcher | sender allocates err =>
            exact ⟨_, Option.map_eq_some_iff.mpr ⟨s₁, hs, rfl⟩, rfl, rfl⟩
        | task p passed => exact absurd rfl (hes _ List.mem_cons_self p passed)
      obtain ⟨t₁, ht₁, hdevice, hcomputed⟩ := hstep
      obtain ⟨t', hrun, hdevice', hcomputed'⟩ :=
        ih (fun e he => hes e (List.mem_cons_of_mem _ he)) hdevice
      exact ⟨t', .step ht₁ hrun, hdevice', hcomputed'.trans hcomputed⟩

/-- The task takes the command, tests and responds. -/
theorem Device.Waits.tested {t : Target ο} {j : Job ο} (ht : t.device.Waits
      (Function.update (fun _ => .empty) p (.single appQueueLength_pos j)) .empty)
    {g : Board} {env : List Slot} {o : Outcome Board Slot Act UInt8}
    (ho : (config.backend p).test j.command g env = some o)
    (hvalue : o.value = appProtocolTestSuccess) :
    ∃ t', Run (targetStep config) t (List.replicate 3 (.task p g env)) t' ∧
      t'.device.Waits (fun _ => .empty) (.single appQueueLength_pos
        ⟨⟨j.command.testId, appProtocolTestSuccess⟩, j⟩) ∧
      t'.computed = t.computed ++ [⟨p, j, appProtocolTestSuccess⟩] ∧
      (∀ source, t.device.AnswersTo source → t'.device.AnswersTo source) ∧
      t'.device.sends = t.device.sends := by
  simp only [← exec_eq_some_iff, List.replicate, exec, targetStep, taskMove, taskStep, ht.task,
    ht.queue, Function.update_self, Fifo.pop_single, Option.map_some, Option.bind_some, ho, hvalue,
    Function.update_idem, ht.responseQueue, Fifo.push_empty appQueueLength_pos, Option.some.injEq,
    exists_eq_left', Job.answer, decide_true, if_true]
  exact ⟨⟨ht.udpPcb, ht.callback, ht.commandQueue, ht.dispatcher, Function.update_eq_self p _,
    Function.update_eq_self p _, rfl, ht.sender⟩, trivial, fun _ => id, trivial⟩

/-- A command comes, is tested, and its response goes. -/
def journey (d : Datagram ο) (p : Peripheral) (g : Board) (env : List Slot) :
    List (TargetMove ο) :=
  .udpReceive (some d) :: List.replicate 4 .callback ++ List.replicate 2 .dispatcher ++
    List.replicate 3 (.task p g env) ++ List.replicate 6 (.sender true errOk)

/-- **From rest** a command is answered with a success, and then everybody rests again. -/
theorem Suits.journey_run (hc : Suits config c p) {t : Target ο} (ht : t.device.Resting)
    {d : Datagram ο} (hd : d.chain.flatten = c.encode) {g : Board} {env : List Slot}
    (h : (config.backend p).Ideal c g env) :
    ∃ t', Run (targetStep config) t (journey d p g env) t' ∧ t'.device.Resting ∧
      t'.computed = t.computed ++ [⟨p, t.device.jobOf c d, appProtocolTestSuccess⟩] ∧
      ∃ x : Sent ο, t'.device.sends = t.device.sends ++ [x] ∧
        x.answer = ⟨⟨c.testId, appProtocolTestSuccess⟩, t.device.jobOf c d⟩ ∧
          x.destination = d.source ∧ x.err = errOk := by
  have hp : Peripheral.ofCode c.peripheral = some p := Peripheral.ofCode_eq_some_iff.mpr hc.1
  obtain ⟨o, ho, hvalue, _⟩ := hc.test h
  obtain ⟨s₁, hrun₁, hwaits₁, hremote₁, hsends₁⟩ := ht.arrives hp hd
  obtain ⟨t₁, hmoves₁, rfl, hcomputed₁⟩ := lift_run config hrun₁ (by simp) rfl
  obtain ⟨t₂, hmoves₂, hwaits₂, hcomputed₂, hremote₂, hsends₂⟩ := hwaits₁.tested ho hvalue
  obtain ⟨s₃, hrun₃, hrests, x, hsends₃, hx⟩ := hwaits₂.sends (hremote₂ _ hremote₁)
  obtain ⟨t₃, hmoves₃, rfl, hcomputed₃⟩ := lift_run config hrun₃ (by simp) rfl
  refine ⟨t₃, (hmoves₁.trans hmoves₂).trans hmoves₃, hrests, ?_, x, ?_, hx⟩
  · rw [hcomputed₃, hcomputed₂, hcomputed₁]
  · rw [hsends₃, hsends₂, hsends₁]

end Firmware

/-! ### The table -/

namespace Server

/-- An insert that succeeds has put the row into an open table. -/
theorem insert_ok {db db' : Database} {c : Command} {now : ℤ} {answer : SqliteAnswer}
    (h : resultDatabaseInsertCommand db (some c) now answer = (.ok, db')) :
    db'.isOpen = true ∧ Row.ofCommand c now ∈ db'.rows := by
  rcases insert_cases db c now answer with heq | ⟨hopen, _, _, heq⟩
  · rw [heq] at h
    cases h
  · rw [heq] at h
    cases h
    exact ⟨hopen, List.mem_append_right _ List.mem_cons_self⟩

/-- The row is recorded as passed, and it is the row of the command. -/
def Records (db : Database) (c : Command) (now : ℤ) : Prop :=
  (∃ row ∈ db.rows, (Row.ofCommand c now).Follows row) ∧
    ∀ row ∈ db.rows, row.testId = c.testId → row.status = .passed

/-- **A success is recorded** once the row has been inserted, whatever the other threads have
written to the table since. -/
theorem writerStep_records {db db' db'' : Database} {c : Command} {now time : ℤ}
    {answer : SqliteAnswer} {calls : List DatabaseCall}
    (hinsert : resultDatabaseInsertCommand db (some c) now answer = (.ok, db'))
    (hcalls : Run databaseStep db' calls db'') {s : Process} {origin : ℕ}
    (hwriter : s.writer = .update ⟨⟨⟨c.testId, appProtocolTestSuccess⟩, time⟩, origin⟩)
    (hdatabase : s.database = db'') :
    ∃ s', writerStep .runs s = some s' ∧ Records s'.database c now := by
  obtain ⟨hopen, hrow⟩ := insert_ok hinsert
  have hopen : db''.isOpen = true := hcalls.preserves (I := fun db => db.isOpen = true)
    (fun _ _ _ hi hs => isOpen_databaseStep hi hs) hopen
  obtain ⟨row, hmem, hfollows⟩ := (continues_run hcalls).exists_mem hrow
  have hupdate : resultDatabaseUpdateResponse db''
      (some ⟨⟨c.testId, appProtocolTestSuccess⟩, time⟩) .runs =
        (.ok, { db'' with
          rows := updateRows db''.rows ⟨⟨c.testId, appProtocolTestSuccess⟩, time⟩ }) := by
    simp only [resultDatabaseUpdateResponse, hopen, Bool.not_true, Bool.false_eq_true, if_false]
  refine ⟨_, by simp only [writerStep, hwriter, hdatabase, hupdate]; rfl, ?_, ?_⟩
  · exact ⟨row.record _, mem_updateRows.mpr (.inr ⟨row, hmem, hfollows.testId, rfl⟩),
      hfollows.trans _ _ _ (row.follows_record _)⟩
  · intro new hnew hid
    rcases mem_updateRows.mp hnew with ⟨_, hne⟩ | ⟨old, _, _, rfl⟩
    · exact absurd hid hne
    · rfl

end Server

/-! ### The whole way -/

/-- What makes a command a valid test of a peripheral. -/
structure ValidTest (ο : Type) (config : Config) (c : Command) (p : Peripheral) : Prop where
  /-- If the server's address parses, what it passes to `sendto` is the bytes of the command. -/
  sent : ∀ (sc : AppProtocolCommand) (sendto : List UInt8 → ℤ), sc.onDevice = c →
    (udpClientSendCommand (some sc) true sendto).2 = some c.encode
  /-- The dispatcher passes it to the task of the peripheral. -/
  routed : ∀ (s : Device ο) (j : Job ο) (q : Fifo (Job ο) appQueueLength),
    s.dispatcher = some j → j.command = c → (s.queue p).push j = some q →
      dispatcherStep s = some
        { s with queue := Function.update s.queue p q, dispatcher := none }
  /-- On ideal hardware the test is a success after exactly its iterations. -/
  tested : ∀ (g : Board) (env : List Slot), (config.backend p).Ideal c g env →
    ∃ o, (config.backend p).test c g env = some o ∧ o.value = appProtocolTestSuccess ∧
      (config.backend p).Performed c o.trace
  /-- In every run in which the tests of the command find ideal hardware, every result for it comes
  from the task of the peripheral, and every response to it is a success with its identifier. -/
  answered : ∀ (udpPcb : Bool) (ls : List (TargetMove ο)) (t : Target ο),
    Run (targetStep config) (.init udpPcb) ls t →
    Meets (targetStep config) (TestsIdeally config c) (.init udpPcb) ls →
      (∀ v ∈ t.computed, v.job.command = c →
        v.peripheral = p ∧ v.result = appProtocolTestSuccess) ∧
      ∀ a ∈ t.device.handed, a.job.command = c → a.response = ⟨c.testId, appProtocolTestSuccess⟩
  /-- With these bytes, in however many pieces, a firmware at rest does send its response. -/
  returned : ∀ (t : Target ο) (d : Datagram ο) (g : Board) (env : List Slot),
    t.device.Resting → d.chain.flatten = c.encode → (config.backend p).Ideal c g env →
      ∃ t', Run (targetStep config) t (journey d p g env) t' ∧ t'.device.Resting ∧
        t'.computed = t.computed ++ [⟨p, t.device.jobOf c d, appProtocolTestSuccess⟩] ∧
        ∃ x : Sent ο, t'.device.sends = t.device.sends ++ [x] ∧
          x.answer = ⟨⟨c.testId, appProtocolTestSuccess⟩, t.device.jobOf c d⟩ ∧
            x.destination = d.source ∧ x.err = errOk
  /-- The server records the response as passed, if the row was inserted before. -/
  recorded : ∀ (db db' db'' : Database) (now time : ℤ) (answer : SqliteAnswer)
    (calls : List DatabaseCall) (s s' : Process) (origin : ℕ),
    resultDatabaseInsertCommand db (some c) now answer = (.ok, db') →
    Run databaseStep db' calls db'' → s.rx = .recv →
      ∃ r, rxStep (.datagram (appNetUdpSendResponsePayload ⟨c.testId, appProtocolTestSuccess⟩)
          origin time) s = some { s with rx := .push r } ∧
        (s'.writer = .update r → s'.database = db'' →
          ∃ s'', writerStep .runs s' = some s'' ∧ Records s''.database c now)

/-- The timer and the ADC are tested without transfers. -/
theorem Firmware.Backend.peripheral_of_loopback {b : Backend} (h : b.loopback.isSome) :
    b.peripheral ≠ .timer ∧ b.peripheral ≠ .adc := by
  cases b with
  | timer | adc => cases h
  | uartIt | uartDma | spiIt | spiDma | i2cIt | i2cDma => exact ⟨by decide, by decide⟩

/-- A command from the generator has a pattern if its test transfers it. -/
theorem Server.Generated.suits {n : ℕ} {p : Peripheral} {c : Command} (h : Generated n p c)
    (config : Config) : Suits config c p := by
  refine ⟨h.peripheral, ?_⟩
  intro hbus hzero
  have hbackend := Backend.peripheral_of_loopback hbus
  rw [config.peripheral_backend] at hbackend
  rcases h.patternLen with hp | hp | hlength
  · exact hbackend.1 hp
  · exact hbackend.2 hp
  · rw [hzero] at hlength
    exact absurd hlength (by decide)

theorem Firmware.Suits.valid {ο : Type} {config : Config} {c : Command} {p : Peripheral}
    (hc : Suits config c p) : ValidTest ο config c p where
  sent := by
    intro sc sendto hsc
    rw [udpClientSendCommand_sends, Server.commandFormat_encode, hsc, Firmware.commandFormat_encode]
  routed := fun _ _ _ hj hcommand hq => hc.routed hj hcommand hq
  tested := fun _ _ h => hc.test h
  answered := fun _ _ _ h hideal => ⟨hc.computed h hideal, hc.handed h hideal⟩
  returned := fun _ _ _ _ ht hbytes h => hc.journey_run ht hbytes h
  recorded := by
    intro db db' db'' now time answer calls s s' origin hinsert hcalls hrx
    have hlength : (appNetUdpSendResponsePayload ⟨c.testId, appProtocolTestSuccess⟩).length =
        Response.size := Firmware.responseFormat.length_encode _
    refine ⟨_, rxStep_recv hrx hlength, ?_⟩
    rw [appNetUdpSendResponsePayload, Format.decode_encode]
    exact fun hwriter hdatabase => writerStep_records hinsert hcalls hwriter hdatabase

/-- **Every generated command is a valid test**: after any number of calls, whatever `rand()`
returns, the next command has the next identifier, is for the peripheral whose turn it is, asks for
at least ten iterations, and is a valid test of this peripheral. -/
theorem generated_command_passes {ο : Type} (config : Config) (rands : ℕ → RandStream) (n : ℕ) :
    ∃ p, commandGeneratorPeripherals[n % 5]? = some p ∧
      (generatedCommand rands n).testId = .ofNat (n + 1) ∧
      10 ≤ (generatedCommand rands n).iterations ∧
      (generatedCommand rands n).encode.length = 262 ∧
      ValidTest ο config (generatedCommand rands n) p := by
  obtain ⟨p, h⟩ := generated rands n
  exact ⟨p, h.turn, h.testId, h.iterations, Command.encode_length _, (h.suits config).valid⟩

/-- The second command, if `rand()` returns zeros: ten iterations of the UART test. -/
def secondCommand : AppProtocolCommand :=
  let c := generatedCommand (fun _ _ => 0) 1
  ⟨c.testId, c.peripheral, c.iterations, c.patternLen, c.pattern⟩

theorem generated_command_passes_second :
    ∃ (p : Peripheral) (env : List Slot) (payload : List UInt8) (t : Target Unit),
      (udpClientSendCommand (some secondCommand) true fun _ => 262).2 = some payload ∧
      Run (targetStep appConfig) (.init true)
        (journey ⟨⟨1, 2⟩, [payload], ()⟩ p restingBoard env) t ∧
      t.device.sends.map (·.answer.response) = [⟨2, appProtocolTestSuccess⟩] := by
  obtain ⟨p, _, hid, _, _, hvalid⟩ :=
    generated_command_passes (ο := Unit) appConfig (fun _ _ => 0) 1
  obtain ⟨env, hideal⟩ :=
    (appConfig.backend p).exists_ideal (generatedCommand (fun _ _ => 0) 1) restingBoard
  have hrest : (Target.init true : Target Unit).device.Resting :=
    ⟨rfl, rfl, rfl, rfl, rfl, rfl, rfl, rfl⟩
  have hbytes := hvalid.sent secondCommand (fun _ => 262) rfl
  obtain ⟨t, hrun, _, _, x, hsends, hanswer, _⟩ := hvalid.returned (.init true)
    ⟨⟨1, 2⟩, [(generatedCommand (fun _ _ => 0) 1).encode], ()⟩ restingBoard env hrest
    List.flatten_singleton hideal
  refine ⟨p, env, _, t, hbytes, hrun, ?_⟩
  rw [hsends, List.map_append, List.map_cons, hanswer, hid]
  rfl

end PeripheralTester
