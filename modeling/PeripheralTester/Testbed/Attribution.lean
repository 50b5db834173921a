import PeripheralTester.Firmware.UnderWay
import PeripheralTester.Server.Shutdown
import PeripheralTester.Server.UnderWay
import PeripheralTester.Testbed.Model

/-! # Verdicts and runs

Every run numbers its commands from 1 and starts with an empty table, while commands of earlier
runs may still be in the network and in the firmware.  A response carries nothing but the
`test_id`, so the response to an old command updates the row of a new one with the same number.

`attributed_of_fresh`: if a row is inserted only when no command of an earlier run with its
`test_id` is under way, every update records a verdict on the command of its row. -/

namespace PeripheralTester.Testbed

open Lib Firmware Server

/-! ### What is under way -/

/-- A datagram for this destination can reach the socket of the current run. -/
def reaches (s : Testbed) (destination : Endpoint) : Bool :=
  s.socket.all fun e => e = destination

/-- The responses that leave the firmware or are in flight, with their destinations. -/
def outgoing (s : Testbed) : List (Answer ℕ × Endpoint) :=
  s.device.sender.leaving.toList ++ s.toServer.map fun x => (x.answer, x.destination)

/-- What may still come to an update of the current run: the number and the `test_id` of each
command in flight, each job in the firmware, each response on its way to the socket and each record
in the server. -/
def underWay (s : Testbed) : List (ℕ × UInt32) :=
  s.toDevice.map (fun p => (p.origin, p.command.testId)) ++
    s.device.underWay.map (fun j => (j.origin, j.command.testId)) ++
    (s.outgoing.filter fun x => s.reaches x.2).map
      (fun x => (x.1.job.origin, x.1.job.command.testId)) ++
    s.server.records.map fun r => (r.origin, r.record.response.testId)

/-- The places where it is. -/
inductive UnderWay (s : Testbed) : ℕ → UInt32 → Prop
  | command (p : Packet) (h : p ∈ s.toDevice) : UnderWay s p.origin p.command.testId
  | job (j : Job ℕ) (h : s.device.UnderWay j) : UnderWay s j.origin j.command.testId
  | response (x : Answer ℕ × Endpoint) (h : x ∈ s.outgoing) (hx : s.reaches x.2 = true) :
      UnderWay s x.1.job.origin x.1.job.command.testId
  | record (r : Received) (h : r ∈ s.server.records) :
      UnderWay s r.origin r.record.response.testId

variable {s s' : Testbed}

theorem mem_underWay {n : ℕ} {testId : UInt32} :
    (n, testId) ∈ s.underWay ↔ s.UnderWay n testId := by
  unfold underWay
  constructor
  · intro h
    rcases List.mem_append.mp h with h | h
    · rcases List.mem_append.mp h with h | h
      · rcases List.mem_append.mp h with h | h
        · obtain ⟨p, hp, he⟩ := List.mem_map.mp h
          obtain ⟨rfl, rfl⟩ := Prod.mk.inj he
          exact .command p hp
        · obtain ⟨j, hj, he⟩ := List.mem_map.mp h
          obtain ⟨rfl, rfl⟩ := Prod.mk.inj he
          exact .job j (Firmware.mem_underWay.mp hj)
      · obtain ⟨x, hx, he⟩ := List.mem_map.mp h
        obtain ⟨rfl, rfl⟩ := Prod.mk.inj he
        obtain ⟨hmem, hreach⟩ := List.mem_filter.mp hx
        exact .response x hmem hreach
    · obtain ⟨r, hr, he⟩ := List.mem_map.mp h
      obtain ⟨rfl, rfl⟩ := Prod.mk.inj he
      exact .record r hr
  · intro h
    simp only [List.mem_append]
    cases h with
    | command p h => exact .inl (.inl (.inl (List.mem_map.mpr ⟨p, h, rfl⟩)))
    | job j h =>
        exact .inl (.inl (.inr (List.mem_map.mpr ⟨j, Firmware.mem_underWay.mpr h, rfl⟩)))
    | response x h hx =>
        exact .inl (.inr (List.mem_map.mpr ⟨x, List.mem_filter.mpr ⟨h, hx⟩, rfl⟩))
    | record r h => exact .inr (List.mem_map.mpr ⟨r, h, rfl⟩)

/-- The run that sent the command numbered `n`. -/
def runOf (s : Testbed) (n : ℕ) : Option ℕ := s.sends[n]?.map Prod.fst

/-- Main inserts a row only when all commands under way with its `test_id` are of this run. -/
def InsertsFresh (s : Testbed) : Action → Prop
  | .main a _ => s.server.calls.head? = some .resultDatabaseInsertCommand → a.sqlite = .runs →
      ∀ x ∈ s.underWay, x.2 = s.server.command.testId → s.runOf x.1 = some s.run
  | _ => True

instance (s : Testbed) (a : Action) : Decidable (s.InsertsFresh a) :=
  match a with
  | .main a _ => inferInstanceAs (Decidable (_ → a.sqlite = .runs → ∀ x ∈ s.underWay, _ → _))
  | .rx | .recv _ _ | .writer _ | .wake | .sigint | .start _ | .deliver _ _ | .device _
  | .commandFault _ | .responseFault _ => .isTrue trivial

/-- Every update that matches a row records a response that the firmware made for a command sent
in the same run with the `test_id` of the row. -/
def Attributed (s : Testbed) : Prop :=
  ∀ r ∈ s.server.writer.inHand, s.server.database.isOpen = true →
    ∀ row ∈ s.server.database.rows, row.testId = r.record.response.testId →
      ∃ a ∈ s.device.handed, a.response = r.record.response ∧
        s.sends[r.origin]? = some (s.run, a.job.command) ∧ a.job.origin = r.origin ∧
          a.job.command.testId = row.testId

/-! ### Commands, jobs and responses belong together -/

/-- What is in the network, the firmware and the server stems from the commands sent. -/
structure Genuine (s : Testbed) : Prop where
  device : s.device.Invariant
  handed : HandedOver s.device
  account : Sound s.server
  packets : ∀ p ∈ s.toDevice, ∃ k, s.sends[p.origin]? = some (k, p.command)
  arrived : ∀ d ∈ s.device.arrived, ∃ k c, s.sends[d.origin]? = some (k, c) ∧
    d.chain.flatten = c.encode
  responses : ∀ x ∈ s.toServer, x.answer ∈ s.device.handed
  records : ∀ r ∈ s.server.records, ∃ a ∈ s.device.handed, a.response = r.record.response ∧
    a.job.origin = r.origin

theorem genuine_init (startup : Startup) (rows : List Row) (udpPcb : Bool) :
    (init startup rows udpPcb).Genuine where
  device := invariant_init udpPcb
  handed := handedOver_init udpPcb
  account := sound_init rows
  packets := fun _ h => by cases h
  arrived := fun _ h => by cases h
  responses := fun _ h => by cases h
  records := fun _ h => by cases h

/-- The job of a datagram that carries a command has this command. -/
theorem commandOf_encode {d : Datagram ℕ} {c : Command} {n : ℕ} {j : Job ℕ}
    (hd : d.chain.flatten = c.encode) (hj : commandOf n d = some j) :
    j.command = c ∧ j.origin = d.origin := by
  unfold commandOf at hj
  split at hj
  · rw [← Option.some.inj hj]
    exact ⟨by rw [hd, Command.decode_encode], rfl⟩
  · cases hj

/-- A response that was handed over answers the command sent under its number. -/
theorem Genuine.answer (hs : s.Genuine) {a : Answer ℕ} (ha : a ∈ s.device.handed) :
    a.response.testId = a.job.command.testId ∧
      ∃ k, s.sends[a.job.origin]? = some (k, a.job.command) := by
  have hresponse : a ∈ s.device.responses := List.mem_append_right _ ha
  refine ⟨hs.device.placed.responses a hresponse, ?_⟩
  have hjob : a.job ∈ commandsOf s.device.arrived := by
    rw [← hs.device.heard]
    exact List.mem_append_left _ (hs.device.job_mem hresponse)
  obtain ⟨d, hd, hc⟩ := mem_commandsOf hjob
  obtain ⟨k, c, hsend, hchain⟩ := hs.arrived d (List.mem_of_getElem? hd)
  obtain ⟨hcommand, horigin⟩ := commandOf_encode hchain hc
  exact ⟨k, by rw [horigin, hcommand, hsend]⟩

/-- The state after a call of main: nothing was sent, or the command of main. -/
theorem afterMain_cases {a : MainAnswer} {server : Process} (socket : Endpoint)
    (h : mainStep s.startup a s.server = some server) :
    s.afterMain server socket = { s with server := server } ∨
      s.afterMain server socket = { s with
        server := server
        socket := some (s.socket.getD socket)
        toDevice := s.toDevice ++ [⟨s.socket.getD socket, s.server.command, s.sends.length⟩]
        sends := s.sends ++ [(s.run, s.server.command)] } := by
  have hsame : server.sent = s.server.sent →
      s.afterMain server socket = { s with server := server } := by
    intro hsent
    unfold afterMain
    rw [hsent, List.drop_length]
  rcases mainStep_table h with ⟨_, _, hsent, _⟩ | ⟨_, _, _, ⟨hsent, _⟩ | ⟨hsent, _⟩⟩ |
    ⟨_, hsent, _⟩
  · exact .inl (hsame hsent)
  · apply Or.inr
    unfold afterMain
    rw [hsent, List.drop_left]
  · exact .inl (hsame hsent)
  · exact .inl (hsame hsent)

/-- More commands sent. -/
theorem getElem?_sends {l : List (ℕ × Command)} {n : ℕ} {x : ℕ × Command}
    (h : s.sends[n]? = some x) : (s.sends ++ l)[n]? = some x := by
  rw [List.getElem?_append_left (List.getElem?_eq_some_iff.mp h).1]
  exact h

theorem Genuine.main (hs : s.Genuine) {a : MainAnswer} {server : Process} (socket : Endpoint)
    (h : mainStep s.startup a s.server = some server) : (s.afterMain server socket).Genuine := by
  have hsound := sound_mainStep h hs.account
  have hrecords := fun r hr => hs.records r (records_mainStep h hr)
  rcases afterMain_cases socket h with he | he <;> rw [he]
  · exact ⟨hs.device, hs.handed, hsound, hs.packets, hs.arrived, hs.responses, hrecords⟩
  · refine ⟨hs.device, hs.handed, hsound, ?_, ?_, hs.responses, hrecords⟩
    · intro p hp
      rcases List.mem_append.mp hp with hp | hp
      · obtain ⟨k, hk⟩ := hs.packets p hp
        exact ⟨k, getElem?_sends hk⟩
      · rw [List.mem_singleton.mp hp]
        exact ⟨s.run, List.getElem?_concat_length⟩
    · intro d hd
      obtain ⟨k, c, hk, hc⟩ := hs.arrived d hd
      exact ⟨k, c, getElem?_sends hk, hc⟩

theorem Genuine.server (hs : s.Genuine) {server : Process} {toServer : Network (Sent ℕ)}
    (h : s.ServerMove server toServer) :
    ({ s with server := server, toServer := toServer } : Testbed).Genuine := by
  refine ⟨hs.device, hs.handed, h.sound hs.account, hs.packets, hs.arrived,
    fun x hx => hs.responses x (h.responses x hx), ?_⟩
  intro r hr
  rcases h.records r hr with hr | ⟨x, hx, _, hresponse, horigin⟩
  · exact hs.records r hr
  · exact ⟨x.answer, hs.responses x hx, hresponse, horigin⟩

theorem Genuine.firmware (hs : s.Genuine) {e : Event ℕ} {device : Device ℕ}
    {toDevice : Network Packet} {toServer : Network (Sent ℕ)}
    (h : s.FirmwareMove e device toDevice toServer) :
    Testbed.Genuine { s with device := device, toDevice := toDevice, toServer := toServer } := by
  have hmove := step_move h.step
  have hhanded := hmove.handedOver hs.handed
  refine ⟨hs.device.step h.step, hhanded, hs.account, fun p hp => hs.packets p (h.packets p hp),
    ?_, ?_, ?_⟩
  · intro d hd
    rcases step_arrived h.step with harrived | ⟨d', rfl, harrived⟩ <;> simp only [harrived] at hd
    · exact hs.arrived d hd
    · rcases List.mem_append.mp hd with hd | hd
      · exact hs.arrived d hd
      · -- the datagram that arrived carries a command of the network
        rw [List.mem_singleton.mp hd]
        obtain ⟨p, hp, horigin, hchain⟩ := h.arrives d' rfl
        obtain ⟨k, hk⟩ := hs.packets p hp
        exact ⟨k, p.command, by rw [horigin, hk], hchain⟩
  · intro x hx
    rcases h.responses x hx with hx | hx
    · exact hmove.handed.subset (hs.responses x hx)
    · exact hhanded.sends x (List.mem_of_mem_drop hx)
  · intro r hr
    obtain ⟨a, ha, hresponse, horigin⟩ := hs.records r hr
    exact ⟨a, hmove.handed.subset ha, hresponse, horigin⟩

theorem genuine_step {a : Action} (h : s.step a = some s') (hs : s.Genuine) : s'.Genuine := by
  cases step_cases h with
  | main hmain => exact hs.main _ hmain
  | server hserver => exact hs.server hserver
  | start =>
      exact ⟨hs.device, hs.handed, sound_init _, hs.packets, hs.arrived, hs.responses,
        fun _ hr => by cases hr⟩
  | firmware hfirmware => exact hs.firmware hfirmware
  | network hpackets hresponses =>
      exact ⟨hs.device, hs.handed, hs.account, fun p hp => hs.packets p (hpackets p hp), hs.arrived,
        fun x hx => hs.responses x (hresponses x hx), hs.records⟩

/-! ### Runs of the server as epochs -/

/-- The commands sent as tickets under their identifiers, and the table as the register. -/
def epochs (s : Testbed) : Epochs ℕ UInt32 where
  epoch := s.run
  issued := s.runOf
  live := {x | s.UnderWay x.1 x.2}
  register := {testId | s.server.database.Holds testId}

theorem runOf_append {l : List (ℕ × Command)} {n k : ℕ} (h : s.runOf n = some k) :
    (s.sends ++ l)[n]?.map Prod.fst = some k := by
  obtain ⟨x, hx, rfl⟩ := Option.map_eq_some_iff.mp h
  rw [getElem?_sends hx]
  rfl

/-- A call of main brings nothing under way but the command it sends. -/
theorem underWay_afterMain {a : MainAnswer} {server : Process} {socket : Endpoint} {n : ℕ}
    {testId : UInt32} (h : mainStep s.startup a s.server = some server)
    (hn : (s.afterMain server socket).UnderWay n testId) :
    s.UnderWay n testId ∨
      (s.afterMain server socket).runOf n = some (s.afterMain server socket).run := by
  have hrecords : ∀ r ∈ server.records, s.UnderWay r.origin r.record.response.testId :=
    fun r hr => .record r (records_mainStep h hr)
  rcases afterMain_cases socket h with he | he <;> rw [he] at hn ⊢
  · cases hn with
    | command p hp => exact .inl (.command p hp)
    | job j hj => exact .inl (.job j hj)
    | response x hx hreach => exact .inl (.response x hx hreach)
    | record r hr => exact .inl (hrecords r hr)
  · cases hn with
    | command p hp =>
        rcases List.mem_append.mp hp with hp | hp
        · exact .inl (.command p hp)
        · apply Or.inr
          rw [List.mem_singleton.mp hp]
          show (s.sends ++ [(s.run, s.server.command)])[s.sends.length]?.map Prod.fst = some s.run
          rw [List.getElem?_concat_length]
          rfl
    | job j hj => exact .inl (.job j hj)
    | response x hx hreach =>
        refine .inl (.response x hx ?_)
        unfold reaches at hreach ⊢
        cases hsocket : s.socket with
        | none => rfl
        | some e =>
            rw [hsocket] at hreach
            exact hreach
    | record r hr => exact .inl (hrecords r hr)

theorem within_main {a : MainAnswer} {server : Process} {socket : Endpoint}
    (h : mainStep s.startup a s.server = some server) (hfresh : s.InsertsFresh (.main a socket)) :
    Epochs.Within s.epochs (s.afterMain server socket).epochs := by
  have hissued : ∀ n k, s.runOf n = some k → (s.afterMain server socket).runOf n = some k := by
    intro n k hn
    rcases afterMain_cases socket h with he | he <;> rw [he]
    · exact hn
    · exact runOf_append hn
  have hrun : (s.afterMain server socket).run = s.run := by
    rcases afterMain_cases socket h with he | he <;> rw [he]
  have hserver : (s.afterMain server socket).server = server := by
    rcases afterMain_cases socket h with he | he <;> rw [he]
  refine ⟨hrun, hissued, fun n testId => underWay_afterMain h, ?_⟩
  intro testId hid
  have hid : (s.afterMain server socket).server.database.Holds testId := hid
  rw [hserver] at hid
  refine (holds_mainStep h hid).imp_right fun hinsert n hn => ?_
  -- an insert: everything under way with the identifier is of this run
  rcases underWay_afterMain h hn with hn | hn
  · obtain ⟨hhead, hruns, htestId⟩ := hinsert
    have hn := hfresh hhead hruns (n, testId) (mem_underWay.mpr hn) htestId
    exact (hissued n s.run hn).trans (congrArg some hrun.symm)
  · exact hn

/-- Nothing comes under way, and no identifier into the table. -/
theorem within_of_le (hrun : s'.run = s.run) (hsends : s'.sends = s.sends)
    (hlive : ∀ n testId, s'.UnderWay n testId → s.UnderWay n testId)
    (hholds : ∀ testId, s'.server.database.Holds testId → s.server.database.Holds testId) :
    Epochs.Within s.epochs s'.epochs where
  epoch := hrun
  issued := by
    intro n k hn
    show s'.sends[n]?.map Prod.fst = some k
    rw [hsends]
    exact hn
  live := fun n testId hn => .inl (hlive n testId hn)
  register := fun testId hid => .inl (hholds testId hid)

/-- Nothing new leaves the firmware or comes into flight. -/
theorem outgoing_subset (hdevice : s'.device = s.device)
    (htoServer : ∀ x ∈ s'.toServer, x ∈ s.toServer) : s'.outgoing ⊆ s.outgoing := by
  intro x hx
  rcases List.mem_append.mp hx with hx | hx
  · rw [hdevice] at hx
    exact List.mem_append_left _ hx
  · obtain ⟨y, hy, rfl⟩ := List.mem_map.mp hx
    exact List.mem_append_right _ (List.mem_map.mpr ⟨y, htoServer y hy, rfl⟩)

theorem within_server (hs : s.Genuine) {server : Process} {toServer : Network (Sent ℕ)}
    (h : s.ServerMove server toServer) :
    Epochs.Within s.epochs (Testbed.epochs { s with server := server, toServer := toServer }) := by
  refine within_of_le rfl rfl ?_ h.holds
  intro n testId hn
  cases hn with
  | command p hp => exact .command p hp
  | job j hj => exact .job j hj
  | response x hx hreach =>
      have hsubset : x ∈ s.outgoing := outgoing_subset (by rfl) (by exact h.responses) hx
      exact .response x hsubset hreach
  | record r hr =>
      rcases h.records r hr with hr | ⟨x, hx, hsocket, hresponse, horigin⟩
      · exact .record r hr
      · -- the response was on its way to this socket
        have hanswer := (hs.answer (hs.responses x hx)).1
        rw [← hresponse, ← horigin, hanswer]
        refine .response (x.answer, x.destination) ?_ ?_
        · exact List.mem_append_right _ (List.mem_map.mpr ⟨x, hx, rfl⟩)
        · rw [reaches, hsocket]
          exact decide_eq_true rfl

theorem within_firmware {e : Event ℕ} {device : Device ℕ} {toDevice : Network Packet}
    {toServer : Network (Sent ℕ)} (h : s.FirmwareMove e device toDevice toServer) :
    Epochs.Within s.epochs
      (Testbed.epochs { s with device := device, toDevice := toDevice, toServer := toServer }) := by
  have hmove := step_move h.step
  refine within_of_le rfl rfl ?_ fun _ => id
  intro n testId hn
  cases hn with
  | command p hp => exact .command p (h.packets p hp)
  | job j hj =>
      rcases step_underWay h.step hj with hj | ⟨d, hd, hc⟩
      · exact .job j hj
      · -- the command of the datagram was in flight
        obtain ⟨p, hp, horigin, hchain⟩ := h.arrives d hd
        obtain ⟨hcommand, hjob⟩ := commandOf_encode hchain hc
        rw [hcommand, hjob, horigin]
        exact .command p hp
  | response x hx hreach =>
      rcases List.mem_append.mp hx with hx | hx
      · rcases hmove.leaving x (Option.mem_toList.mp hx) with hx | hx
        · exact .response x (List.mem_append_left _ (Option.mem_toList.mpr hx)) hreach
        · exact .job x.1.job (.sender hx)
      · obtain ⟨y, hy, rfl⟩ := List.mem_map.mp hx
        refine .response (y.answer, y.destination) ?_ hreach
        rcases h.responses y hy with hy | hy
        · exact List.mem_append_right _ (List.mem_map.mpr ⟨y, hy, rfl⟩)
        · -- what was sent was leaving
          apply List.mem_append_left
          rcases hmove.sends with hsends | ⟨z, hsends, hz⟩
          · rw [hsends, List.drop_length] at hy
            cases hy
          · rw [hsends, List.drop_left] at hy
            rw [List.mem_singleton.mp hy]
            exact Option.mem_toList.mpr hz
  | record r hr => exact .record r hr

theorem within_network {toDevice : Network Packet} {toServer : Network (Sent ℕ)}
    (hpackets : ∀ p ∈ toDevice, p ∈ s.toDevice) (hresponses : ∀ x ∈ toServer, x ∈ s.toServer) :
    Epochs.Within s.epochs
      ({ s with toDevice := toDevice, toServer := toServer } : Testbed).epochs := by
  refine within_of_le rfl rfl ?_ fun _ => id
  intro n testId hn
  cases hn with
  | command p hp => exact .command p (hpackets p hp)
  | job j hj => exact .job j hj
  | response x hx hreach =>
      have hsubset : x ∈ s.outgoing := outgoing_subset (by rfl) (by exact hresponses) hx
      exact .response x hsubset hreach
  | record r hr => exact .record r hr

/-- A step within a run keeps the table's identifiers to this run, and the next run starts with
none. -/
theorem owned_step {a : Action} (h : s.step a = some s') (hs : s.Genuine)
    (hfresh : s.InsertsFresh a) (howned : s.epochs.Owned) : s'.epochs.Owned := by
  cases step_cases h with
  | main hmain => exact howned.within (within_main hmain hfresh)
  | server hserver => exact howned.within (within_server hs hserver)
  | start =>
      apply Epochs.owned_of_empty
      exact Set.eq_empty_of_forall_notMem fun testId => not_holds_init _
  | firmware hfirmware => exact howned.within (within_firmware hfirmware)
  | network hpackets hresponses => exact howned.within (within_network hpackets hresponses)

theorem attributed_of_owned (hs : s.Genuine) (howned : s.epochs.Owned) : s.Attributed := by
  intro r hr hopen row hrow hid
  have hrecord := hs.account.inHand_mem hr
  obtain ⟨a, ha, hresponse, horigin⟩ := hs.records r hrecord
  obtain ⟨hanswer, k, hk⟩ := hs.answer ha
  rw [horigin] at hk
  refine ⟨a, ha, hresponse, ?_, horigin, ?_⟩
  · -- the record is under way and the table holds its identifier
    have hrun := howned r.origin r.record.response.testId (.record r hrecord)
      ⟨hopen, row, hrow, hid⟩
    have hrunOf : s.runOf r.origin = some s.run := hrun
    rw [runOf, hk, Option.map_some, Option.some.injEq] at hrunOf
    rw [hk, ← hrunOf]
  · rw [hid, ← hresponse, hanswer]

/-- **Verdicts are attributed to the right run, if every row is inserted only when no command of an
earlier run with its `test_id` is under way**: in every state of such a run, whatever the order of
steps, losses, duplications and restarts, an update records the response that the firmware made for
the command sent in the current run with the `test_id` of the row. -/
theorem attributed_of_fresh {startup : Startup} {rows : List Row} {udpPcb : Bool} {l : List Action}
    (h : Run step (init startup rows udpPcb) l s)
    (hfresh : Meets step InsertsFresh (init startup rows udpPcb) l) : s.Attributed := by
  have hinv : s.Genuine ∧ s.epochs.Owned := by
    apply Run.invariant (I := fun s => s.Genuine ∧ s.epochs.Owned) _ h hfresh
    · refine ⟨genuine_init startup rows udpPcb, Epochs.owned_of_empty ?_⟩
      exact Set.eq_empty_of_forall_notMem fun testId => not_holds_init _
    · intro s a s' hs hfresh hstep
      exact ⟨genuine_step hstep hs.1, owned_step hstep hs.1 hfresh hs.2⟩
  exact attributed_of_owned hinv.1 hinv.2

/-! ### Two runs -/

/-- A call of main that succeeds, with a socket on this port. -/
def call (port : UInt16) : Action := .main ⟨true, 0, .runs⟩ ⟨1, port⟩

/-- A run from its first call to its first insert: the timer test with the identifier 1. -/
def sending (port : UInt16) : List Action := List.replicate 10 (call port)

/-- The firmware receives the command. -/
def arriving : List Action :=
  .deliver 0 [(commandGeneratorBuildNext commandGeneratorInit Startup.allSucceed.rand).1.encode] ::
    List.replicate 4 (.device .callback)

/-- The timer task takes it. -/
def testing : List Action :=
  [.device .dispatcher, .device .dispatcher, .device (.task .timer true)]

/-- The test ends, and the firmware sends the response. -/
def answering : List Action :=
  List.replicate 2 (.device (.task .timer true)) ++
    List.replicate 6 (.device (.sender true errOk))

/-- The server receives it, and the writer is about to run the update. -/
def receiving : List Action := [.rx, .recv 0 1, .rx, .writer .runs, .writer .runs]

/-- Ctrl-C after the first command, and main comes to its end. -/
def ending (port : UInt16) : List Action :=
  call port :: .sigint :: List.replicate 3 (call port) ++ .rx :: List.replicate 3 (call port) ++
    .writer .runs :: List.replicate 4 (call port)

/-- The first run waits for its verdict before it ends. -/
def patientRuns : List Action :=
  sending 1 ++ arriving ++ testing ++ answering ++ receiving ++ [.writer .runs] ++
    .start .allSucceed :: sending 2 ++ arriving ++ testing ++ answering ++ receiving

/-- The first run ends while its test is running. -/
def hastyRuns : List Action :=
  sending 1 ++ arriving ++ testing ++ ending 1 ++
    .start .allSucceed :: sending 2 ++ arriving ++ answering ++ receiving

theorem attributed_of_fresh_patient :
    ∃ s : Testbed, Run step (init .allSucceed [] true) patientRuns s ∧ s.run = 1 ∧
      s.server.writer.inHand ≠ [] ∧ s.Attributed := by
  have hview : (exec step (init .allSucceed [] true) patientRuns).map
      (fun s => (s.run, s.server.writer.inHand.map Received.origin)) = some (1, [1]) := by
    decide +kernel
  obtain ⟨s, hs, he⟩ := Option.map_eq_some_iff.mp hview
  obtain ⟨hrun, hhand⟩ := Prod.mk.inj he
  have hfresh : Meets step InsertsFresh (init .allSucceed [] true) patientRuns := by
    decide +kernel
  refine ⟨s, .of_exec hs, hrun, ?_, attributed_of_fresh (.of_exec hs) hfresh⟩
  intro hnil
  rw [hnil] at hhand
  cases hhand

/-- The verdict on the command of the first run is about to be recorded as the second run's. -/
theorem old_verdict_recorded :
    ¬ ∀ (l : List Action) (s : Testbed),
      Run step (init .allSucceed [] true) l s → s.Attributed := by
  intro hclaim
  -- the writer holds the first command's record, and the second command's row is pending
  have hview : (exec step (init .allSucceed [] true) hastyRuns).map
      (fun s => (s.run, s.sends.map Prod.fst, s.server.writer.inHand.map fun r =>
        (r.origin, decide (s.server.database.isOpen = true ∧ ∃ row ∈ s.server.database.rows,
          row.testId = r.record.response.testId ∧ row.status = .pending)))) =
      some (1, [0, 1], [(0, true)]) := by decide +kernel
  obtain ⟨s, hs, he⟩ := Option.map_eq_some_iff.mp hview
  simp only [Prod.mk.injEq] at he
  obtain ⟨hrun, hsends, hhand⟩ := he
  obtain ⟨r, hr, hpair⟩ := List.mem_map.mp (hhand ▸ List.mem_singleton_self (0, true))
  obtain ⟨horigin, hmatches⟩ := Prod.mk.inj hpair
  obtain ⟨hopen, row, hrow, hid, _⟩ := of_decide_eq_true hmatches
  obtain ⟨a, _, _, hsend, _⟩ := hclaim _ s (.of_exec hs) r hr hopen row hrow hid
  have hzero : (s.sends.map Prod.fst)[0]? = some 1 := by
    rw [horigin] at hsend
    rw [List.getElem?_map, hsend, hrun]
    rfl
  rw [hsends] at hzero
  cases hzero

end PeripheralTester.Testbed
