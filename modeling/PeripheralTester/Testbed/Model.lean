import PeripheralTester.Firmware.Endpoint
import PeripheralTester.Lib.Network
import PeripheralTester.Server.UnderWay

/-! # The testbed

The firmware, which keeps running, the network, and one run of the server after the other.  Every
run is a new process on the database file of the last one, with a new socket; the previous process
may have ended or have been killed.  The socket has an endpoint once it has sent something, and a
datagram reaches the run whose socket has its destination.  Nothing else sends datagrams.

A command that is sent gets a number, its place in the list of all commands sent in any run.  It
goes with the command through the network and the firmware and back to the server, where
`Received.origin` has it, and nothing reads it. -/

namespace PeripheralTester

open Lib Firmware Server

/-- A command in flight. -/
structure Packet where
  source : Endpoint
  command : Command
  origin : ℕ

/-- The state of the testbed. -/
structure Testbed where
  /-- The run of the server, counted from 0. -/
  run : ℕ
  startup : Startup
  server : Process
  /-- The endpoint of its socket. -/
  socket : Option Endpoint
  device : Device ℕ
  toDevice : Network Packet
  toServer : Network (Sent ℕ)
  /-- The commands sent in all runs, with their run. -/
  sends : List (ℕ × Command)

/-- The first run begins. -/
def Testbed.init (startup : Startup) (rows : List Row) (udpPcb : Bool) : Testbed where
  run := 0
  startup := startup
  server := .init rows
  socket := none
  device := .init udpPcb
  toDevice := []
  toServer := []
  sends := []

/-- Who moves. -/
inductive Action where
  /-- A call of main; `socket` is the endpoint that a first `sendto` gives the socket. -/
  | main (a : MainAnswer) (socket : Endpoint)
  /-- The receive thread moves, and no datagram arrives. -/
  | rx
  /-- `recvfrom` takes a datagram from the network. -/
  | recv (i : ℕ) (now : ℤ)
  | writer (a : SqliteAnswer)
  | wake
  | sigint
  /-- The next run begins. -/
  | start (startup : Startup)
  /-- lwIP hands a command to the callback in a chain of pbufs. -/
  | deliver (i : ℕ) (chain : List (List UInt8))
  | device (e : Event ℕ)
  | commandFault (f : Fault)
  | responseFault (f : Fault)

namespace Testbed

/-- What a call of main has sent goes into the network. -/
def afterMain (s : Testbed) (server : Process) (socket : Endpoint) : Testbed :=
  match server.sent.drop s.server.sent.length with
  | [] => { s with server := server }
  | c :: _ =>
      let source := s.socket.getD socket
      { s with
        server := server
        socket := some source
        toDevice := s.toDevice ++ [⟨source, c, s.sends.length⟩]
        sends := s.sends ++ [(s.run, c)] }

/-- What the firmware has sent goes into the network. -/
def afterDevice (s : Testbed) (device : Device ℕ) : Testbed :=
  { s with
    device := device
    toServer := s.toServer ++
      (device.sends.drop s.device.sends.length).filter fun x => x.err = errOk }

def step (s : Testbed) : Action → Option Testbed
  | .main a socket =>
      (mainStep s.startup a s.server).map fun server => s.afterMain server socket
  | .rx => (rxStep .error s.server).map fun server => { s with server := server }
  | .recv i now =>
      match Network.deliver s.toServer i with
      | none => none
      | some (x, rest) =>
          if s.server.rx = .recv ∧ s.socket = some x.destination then
            (rxStep (.datagram x.answer.response.encode x.answer.job.origin now) s.server).map
              fun server => { s with server := server, toServer := rest }
          else none
  | .writer a => (writerStep a s.server).map fun server => { s with server := server }
  | .wake =>
      (Server.step s.startup s.server .wake).map fun server => { s with server := server }
  | .sigint =>
      (Server.step s.startup s.server .sigint).map fun server => { s with server := server }
  | .start startup =>
      some { s with
        run := s.run + 1
        startup := startup
        server := .init s.server.database.rows
        socket := none }
  | .deliver i chain =>
      match Network.deliver s.toDevice i with
      | none => none
      | some (p, rest) =>
          if chain.flatten = p.command.encode then
            (udpReceive s.device (some ⟨p.source, chain, p.origin⟩)).map fun device =>
              { s with device := device, toDevice := rest }
          else none
  | .device (.udpReceive _) => none
  | .device e => (Firmware.step s.device e).map s.afterDevice
  | .commandFault f => some { s with toDevice := Network.fault s.toDevice f }
  | .responseFault f => some { s with toServer := Network.fault s.toServer f }

/-! ### What a step can do -/

/-- A thread of the server moves; a record it receives is the response of a datagram for its
socket. -/
structure ServerMove (s : Testbed) (server : Process) (toServer : Network (Sent ℕ)) : Prop where
  sound : Sound s.server → Sound server
  responses : ∀ x ∈ toServer, x ∈ s.toServer
  records : ∀ r ∈ server.records, r ∈ s.server.records ∨ ∃ x ∈ s.toServer,
    s.socket = some x.destination ∧ x.answer.response = r.record.response ∧
      x.answer.job.origin = r.origin
  holds : ∀ testId, server.database.Holds testId → s.server.database.Holds testId

/-- The firmware moves; a datagram that arrives carries a command of the network. -/
structure FirmwareMove (s : Testbed) (e : Event ℕ) (device : Device ℕ)
    (toDevice : Network Packet) (toServer : Network (Sent ℕ)) : Prop where
  step : Firmware.step s.device e = some device
  packets : ∀ p ∈ toDevice, p ∈ s.toDevice
  arrives : ∀ d, e = .udpReceive (some d) →
    ∃ p ∈ s.toDevice, d.origin = p.origin ∧ d.chain.flatten = p.command.encode
  responses : ∀ x ∈ toServer, x ∈ s.toServer ∨ x ∈ device.sends.drop s.device.sends.length

/-- The kinds of steps. -/
inductive Move (s : Testbed) : Action → Testbed → Prop
  | main {a : MainAnswer} {socket : Endpoint} {server : Process}
      (h : mainStep s.startup a s.server = some server) :
      Move s (.main a socket) (s.afterMain server socket)
  | server {a : Action} {server : Process} {toServer : Network (Sent ℕ)}
      (h : s.ServerMove server toServer) :
      Move s a { s with server := server, toServer := toServer }
  | start {startup : Startup} :
      Move s (.start startup) { s with
        run := s.run + 1
        startup := startup
        server := .init s.server.database.rows
        socket := none }
  | firmware {a : Action} {e : Event ℕ} {device : Device ℕ} {toDevice : Network Packet}
      {toServer : Network (Sent ℕ)} (h : s.FirmwareMove e device toDevice toServer) :
      Move s a { s with device := device, toDevice := toDevice, toServer := toServer }
  | network {a : Action} {toDevice : Network Packet} {toServer : Network (Sent ℕ)}
      (hpackets : ∀ p ∈ toDevice, p ∈ s.toDevice) (hresponses : ∀ x ∈ toServer, x ∈ s.toServer) :
      Move s a { s with toDevice := toDevice, toServer := toServer }

variable {s s' : Testbed} {a : Action}

theorem serverMove_rx {server : Process} (h : rxStep .error s.server = some server) :
    s.ServerMove server s.toServer where
  sound := sound_rxStep h
  responses := fun _ => id
  records := by
    intro r hr
    rcases records_rxStep h hr with hr | ⟨_, _, _, ha, _⟩
    · exact .inl hr
    · cases ha
  holds := by
    rw [(rxStep_frame h).database]
    exact fun _ => id

theorem serverMove_recv {x : Sent ℕ} {i : ℕ} {rest : Network (Sent ℕ)} {now : ℤ}
    {server : Process} (hx : Network.deliver s.toServer i = some (x, rest))
    (hsocket : s.socket = some x.destination)
    (h : rxStep (.datagram x.answer.response.encode x.answer.job.origin now) s.server =
      some server) : s.ServerMove server rest where
  sound := sound_rxStep h
  responses := (Network.mem_of_deliver hx).2
  records := by
    intro r hr
    rcases records_rxStep h hr with hr | ⟨bytes, origin, now, ha, rfl⟩
    · exact .inl hr
    · cases ha
      refine .inr ⟨x, (Network.mem_of_deliver hx).1, hsocket, ?_, rfl⟩
      rw [List.take_of_length_le (by rw [Response.encode_length]), Response.decode_encode]
  holds := by
    rw [(rxStep_frame h).database]
    exact fun _ => id

theorem serverMove_writer {answer : SqliteAnswer} {server : Process}
    (h : writerStep answer s.server = some server) : s.ServerMove server s.toServer where
  sound := sound_writerStep h
  responses := fun _ => id
  records := fun _ hr => .inl (records_writerStep h hr)
  holds := fun _ => holds_writerStep h

/-- The writer wakes up, or the user presses Ctrl-C. -/
theorem serverMove_signal {l : Server.Label} {server : Process}
    (h : Server.step s.startup s.server l = some server) (hl : l = .wake ∨ l = .sigint) :
    s.ServerMove server s.toServer := by
  have hsame : server.rx = s.server.rx ∧ server.pushed = s.server.pushed ∧
      server.updates = s.server.updates ∧ server.database = s.server.database := by
    rcases hl with rfl | rfl
    · simp only [Server.step] at h
      split at h
      · obtain rfl := Option.some.inj h
        exact ⟨rfl, rfl, rfl, rfl⟩
      · cases h
    · obtain rfl := Option.some.inj h
      exact ⟨rfl, rfl, rfl, rfl⟩
  obtain ⟨hrx, hpushed, hupdates, hdatabase⟩ := hsame
  refine ⟨sound_step h, fun _ => id, fun r hr => .inl ?_, fun testId hid => ?_⟩
  · rw [Process.records, hrx, hpushed, hupdates] at hr
    exact hr
  · rw [hdatabase] at hid
    exact hid

/-- What the firmware has sent goes into the network. -/
theorem move_afterDevice {e : Event ℕ} {device : Device ℕ}
    (h : Firmware.step s.device e = some device) (he : ∀ d, e ≠ .udpReceive d) :
    s.Move a (s.afterDevice device) := by
  refine .firmware (e := e) ⟨h, fun _ => id, fun d hd => absurd hd (he _), ?_⟩
  intro x hx
  rcases List.mem_append.mp hx with hx | hx
  · exact .inl hx
  · exact .inr (List.mem_filter.mp hx).1

/-- Every step is of one of these kinds. -/
theorem step_cases (h : s.step a = some s') : s.Move a s' := by
  cases a with
  | main m socket =>
      obtain ⟨server, hserver, rfl⟩ := Option.map_eq_some_iff.mp h
      exact .main hserver
  | rx =>
      obtain ⟨server, hserver, rfl⟩ := Option.map_eq_some_iff.mp h
      exact .server (serverMove_rx hserver)
  | recv i now =>
      simp only [step] at h
      split at h
      · cases h
      · rename_i x rest hx
        split at h
        · rename_i hsocket
          obtain ⟨server, hserver, rfl⟩ := Option.map_eq_some_iff.mp h
          exact .server (serverMove_recv hx hsocket.2 hserver)
        · cases h
  | writer answer =>
      obtain ⟨server, hserver, rfl⟩ := Option.map_eq_some_iff.mp h
      exact .server (serverMove_writer hserver)
  | wake =>
      obtain ⟨server, hserver, rfl⟩ := Option.map_eq_some_iff.mp h
      exact .server (serverMove_signal hserver (.inl rfl))
  | sigint =>
      obtain rfl := Option.some.inj h
      exact .server (serverMove_signal (l := .sigint) rfl (.inr rfl))
  | start startup =>
      obtain rfl := Option.some.inj h
      exact .start
  | deliver i chain =>
      simp only [step] at h
      split at h
      · cases h
      · rename_i p rest hp
        split at h
        · rename_i hchain
          obtain ⟨device, hdevice, rfl⟩ := Option.map_eq_some_iff.mp h
          obtain ⟨hmem, hrest⟩ := Network.mem_of_deliver hp
          refine .firmware (e := .udpReceive (some ⟨p.source, chain, p.origin⟩))
            ⟨hdevice, hrest, ?_, fun _ => .inl⟩
          intro d hd
          cases hd
          exact ⟨p, hmem, rfl, hchain⟩
        · cases h
  | device e =>
      cases e with
      | udpReceive d => cases h
      | callback | dispatcher | task p passed | sender allocates err =>
          obtain ⟨device, hdevice, rfl⟩ := Option.map_eq_some_iff.mp h
          exact move_afterDevice hdevice fun d hd => by cases hd
  | commandFault f =>
      obtain rfl := Option.some.inj h
      exact .network (fun _ => Network.mem_of_mem_fault) fun _ => id
  | responseFault f =>
      obtain rfl := Option.some.inj h
      exact .network (fun _ => id) fun _ => Network.mem_of_mem_fault

end Testbed

end PeripheralTester
