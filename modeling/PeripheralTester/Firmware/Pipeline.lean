import PeripheralTester.Lib.Fifo
import PeripheralTester.Lib.Run
import PeripheralTester.Protocol

/-! # The command pipeline of the firmware

A datagram goes through the receive callback (`app_net.c`), the command queue, the dispatcher, the
queue and the task of its peripheral, the response queue and the response sender, and ends in
`udp_sendto`.  `step` interleaves these eight parties from the point where `MX_FREERTOS_Init` and
the default task have set everything up.

A queue is a `Fifo` of ten items.  `xQueueSend` waits 100 ms for a place, so it fails only on a
full queue; the party that waits is simply not chosen until then.  The receive callback is
several steps, since its three stores of the remote endpoint, its checks and its send can be
interleaved with the lower-priority tasks, and so is `app_net_udp_send_response`, which reads the
endpoint.  The verdict of a test is any `passed`: what decides it is not the pipeline's matter.

Jobs carry the number and the source of their datagram and a tag `ο` of the datagram's origin,
and the state keeps histories (`arrived` to `dropped`) of what happened.  Neither is read by the
code. -/

namespace PeripheralTester.Firmware

open Lib

/-! ### Datagrams and jobs -/

/-- An `ip_addr_t` and a port. -/
structure Endpoint where
  addr : UInt32
  port : UInt16
deriving DecidableEq, Repr

/-- A datagram as lwIP hands it to the callback: its source and the payloads of its pbuf chain. -/
structure Datagram (ο : Type) where
  source : Endpoint
  chain : List (List UInt8)
  origin : ο
deriving DecidableEq, Repr

/-- `p->tot_len`. -/
def Datagram.totLen {ο : Type} (d : Datagram ο) : ℕ := (d.chain.map List.length).sum

/-- `pbuf_copy_partial`: the bytes it copies; their number is what it returns. -/
def pbufCopyPartial : List (List UInt8) → ℕ → ℕ → List UInt8
  | [], _, _ => []
  | p :: next, len, offset =>
      if len = 0 then []
      else if offset ≠ 0 ∧ offset ≥ p.length then pbufCopyPartial next len (offset - p.length)
      else
        let copyLen := min (p.length - offset) len
        (p.drop offset).take copyLen ++ pbufCopyPartial next (len - copyLen) 0

/-- The copy is the wanted part of the chain's bytes in order, wherever the chain is split. -/
theorem pbufCopyPartial_eq (chain : List (List UInt8)) (len offset : ℕ) :
    pbufCopyPartial chain len offset = (chain.flatten.drop offset).take len := by
  induction chain generalizing len offset with
  | nil => simp [pbufCopyPartial]
  | cons p next ih =>
      unfold pbufCopyPartial
      split
      · rename_i h
        simp [h]
      · split
        · rename_i h
          rw [ih, List.flatten_cons, List.drop_append, List.drop_of_length_le h.2, List.nil_append]
        · rename_i h
          have hoff : offset ≤ p.length := by omega
          simp only [ih, List.drop_zero, List.flatten_cons]
          rw [List.drop_append_of_le_length hoff, List.take_append, List.length_drop]
          rcases Nat.le_total len (p.length - offset) with hle | hle
          · rw [Nat.min_eq_right hle, Nat.sub_self, Nat.sub_eq_zero_of_le hle]
          · have hp : (p.drop offset).length ≤ len := by rwa [List.length_drop]
            rw [Nat.min_eq_left hle, List.take_of_length_le hp]
            congr 1
            rw [← List.length_drop, List.take_length]

/-- A command with the number, source and origin of its datagram. -/
structure Job (ο : Type) where
  command : Command
  arrival : ℕ
  source : Endpoint
  origin : ο
deriving DecidableEq, Repr

/-- A response with the job it answers. -/
structure Answer (ο : Type) where
  response : Response
  job : Job ο
deriving DecidableEq, Repr

/-! ### Log lines -/

/-- `app_protocol_peripheral_to_string`. -/
def appProtocolPeripheralToString (peripheral : UInt8) : String :=
  match Peripheral.ofCode peripheral with
  | some .timer => "TIMER"
  | some .uart => "UART"
  | some .spi => "SPI"
  | some .i2c => "I2C"
  | some .adc => "ADC"
  | none => "UNKNOWN"

/-- The dispatcher's line for a command it received. -/
def commandLine (c : Command) : String :=
  "Command received: test_id=" ++ toString c.testId ++ " peripheral=" ++
    appProtocolPeripheralToString c.peripheral ++ " iterations=" ++ toString c.iterations ++
    " payload=" ++ toString c.patternLen ++ " bytes\r\n"

/-- The sender's line for a response it received. -/
def responseLine (r : Response) : String :=
  "Response: test_id=" ++ toString r.testId ++ " result=" ++
    (if r.result = appProtocolTestSuccess then "PASS" else "FAIL") ++ "\r\n"

/-- Where a command can be lost. -/
inductive DropPoint where
  | commandQueueFull
  | peripheralQueueFull (p : Peripheral)
  | unknownPeripheral (code : UInt8)
  | responseQueueFull (p : Peripheral)
deriving DecidableEq, Repr

/-- The name of a peripheral in the dispatcher's and the tasks' failure lines. -/
def failureName : Peripheral → String
  | .timer => "timer"
  | .uart => "UART"
  | .spi => "SPI"
  | .i2c => "I2C"
  | .adc => "ADC"

/-- The line logged at a point where a command is lost. -/
def DropPoint.line : DropPoint → String
  | .commandQueueFull => "UDP command queue send failed\r\n"
  | .peripheralQueueFull p => "Failed to send " ++ failureName p ++ " command\r\n"
  | .unknownPeripheral code => "Unknown peripheral: " ++ toString code ++ "\r\n"
  | .responseQueueFull p => "Failed to send " ++ failureName p ++ " response\r\n"

/-! ### State -/

/-- `APP_COMMAND_QUEUE_LENGTH`, `APP_RESPONSE_QUEUE_LENGTH` and the length of each peripheral's
queue. -/
def appQueueLength : ℕ := 10

/-- Where `app_net_udp_rx_callback` is with the datagram numbered `n`: before its second or third
store, before its checks, or before `app_command_queue_send`. -/
inductive CallbackPc (ο : Type) where
  | idle
  | storePort (d : Datagram ο) (n : ℕ)
  | storeValid (d : Datagram ο) (n : ℕ)
  | check (d : Datagram ο) (n : ℕ)
  | send (j : Job ο)

/-- Where the task of a peripheral is: waiting for a command, running the test, or before
`app_response_queue_send`. -/
inductive TaskPc (ο : Type) where
  | idle
  | run (j : Job ο)
  | respond (a : Answer ο)

/-- Where `app_response_sender_task` is: waiting, holding a response, or in
`app_net_udp_send_response` before its allocation, its two reads of the endpoint or
`udp_sendto`.  With what was read comes the number of the datagram it was stored from. -/
inductive SenderPc (ο : Type) where
  | idle
  | holding (a : Answer ο)
  | alloc (a : Answer ο)
  | readAddr (a : Answer ο)
  | readPort (a : Answer ο) (addr : UInt32) (addrFrom : Option ℕ)
  | sendto (a : Answer ο) (destination : Endpoint) (addrFrom portFrom : Option ℕ)

/-- A call of `udp_sendto`. -/
structure Sent (ο : Type) where
  answer : Answer ο
  destination : Endpoint
  addrFrom : Option ℕ
  portFrom : Option ℕ
  err : ℤ

/-- The state of the pipeline. -/
structure Device (ο : Type) where
  /-- `app_udp_pcb` is not `NULL`. -/
  udpPcb : Bool
  remoteAddr : UInt32
  remotePort : UInt16
  remoteValid : Bool
  callback : CallbackPc ο
  commandQueue : Fifo (Job ο) appQueueLength
  dispatcher : Option (Job ο)
  queue : Peripheral → Fifo (Job ο) appQueueLength
  task : Peripheral → TaskPc ο
  responseQueue : Fifo (Answer ο) appQueueLength
  sender : SenderPc ο
  log : List String
  /-- The datagrams the callback was called with; the number of a datagram is its place. -/
  arrived : List (Datagram ο)
  /-- The datagrams the address and the port were stored from. -/
  addrFrom : Option ℕ
  portFrom : Option ℕ
  /-- The commands the callback passed to the command queue. -/
  received : List (Job ο)
  /-- The responses passed to `app_net_udp_send_response`. -/
  handed : List (Answer ο)
  sends : List (Sent ο)
  dropped : List (DropPoint × Job ο)

variable {ο : Type}

/-- The state `app_net_init` leaves, with or without a PCB. -/
def Device.init (udpPcb : Bool) : Device ο where
  udpPcb := udpPcb
  remoteAddr := 0
  remotePort := 0
  remoteValid := false
  callback := .idle
  commandQueue := .empty
  dispatcher := none
  queue := fun _ => .empty
  task := fun _ => .idle
  responseQueue := .empty
  sender := .idle
  log := []
  arrived := []
  addrFrom := none
  portFrom := none
  received := []
  handed := []
  sends := []
  dropped := []

/-- A command is lost and the line of the point logged. -/
def Device.drop (s : Device ο) (point : DropPoint) (j : Job ο) : Device ο :=
  { s with log := s.log ++ [point.line], dropped := s.dropped ++ [(point, j)] }

def Device.print (s : Device ο) (line : String) : Device ο := { s with log := s.log ++ [line] }

/-! ### The receive callback -/

/-- lwIP calls the callback; `none` is a `NULL` pbuf. -/
def udpReceive (s : Device ο) (d : Option (Datagram ο)) : Option (Device ο) :=
  match s.callback, d with
  | .idle, none => if s.udpPcb then some s else none
  | .idle, some d =>
      if s.udpPcb then
        some { s with
          remoteAddr := d.source.addr
          addrFrom := some s.arrived.length
          callback := .storePort d s.arrived.length
          arrived := s.arrived ++ [d] }
      else none
  | _, _ => none

/-- The callback goes on. -/
def callbackStep (s : Device ο) : Option (Device ο) :=
  match s.callback with
  | .idle => none
  | .storePort d n =>
      some { s with
        remotePort := d.source.port
        portFrom := some n
        callback := .storeValid d n }
  | .storeValid d n => some { s with remoteValid := true, callback := .check d n }
  | .check d n =>
      let copied := pbufCopyPartial d.chain Command.size 0
      if d.totLen ≠ Command.size then some { s with callback := .idle }
      else if copied.length ≠ Command.size then
        some { s.print "UDP command copy failed\r\n" with callback := .idle }
      else some { s with callback := .send ⟨Command.decode copied, n, d.source, d.origin⟩ }
  | .send j =>
      match s.commandQueue.push j with
      | some q =>
          some { s with commandQueue := q, received := s.received ++ [j], callback := .idle }
      | none =>
          some { s.drop .commandQueueFull j with
            received := s.received ++ [j]
            callback := .idle }

/-! ### The tasks -/

/-- `app_dispatcher_task`; on an empty queue the receive has timed out. -/
def dispatcherStep (s : Device ο) : Option (Device ο) :=
  match s.dispatcher with
  | none =>
      match s.commandQueue.pop with
      | none => some (s.print "Dispatcher receive failed\r\n")
      | some (j, q) =>
          some { s.print (commandLine j.command) with commandQueue := q, dispatcher := some j }
  | some j =>
      match Peripheral.ofCode j.command.peripheral with
      | none =>
          some { s.drop (.unknownPeripheral j.command.peripheral) j with dispatcher := none }
      | some p =>
          match (s.queue p).push j with
          | some q => some { s with queue := Function.update s.queue p q, dispatcher := none }
          | none => some { s.drop (.peripheralQueueFull p) j with dispatcher := none }

/-- The response of a test. -/
def Job.answer (j : Job ο) (passed : Bool) : Answer ο :=
  ⟨⟨j.command.testId, if passed then appProtocolTestSuccess else appProtocolTestFail⟩, j⟩

/-- The task of a peripheral: `xQueueReceive`, the test with its verdict, and
`app_response_queue_send`. -/
def taskStep (s : Device ο) (p : Peripheral) (passed : Bool) : Option (Device ο) :=
  match s.task p with
  | .idle =>
      match (s.queue p).pop with
      | none => none
      | some (j, q) =>
          some { s with
            queue := Function.update s.queue p q
            task := Function.update s.task p (.run j) }
  | .run j => some { s with task := Function.update s.task p (.respond (j.answer passed)) }
  | .respond a =>
      match s.responseQueue.push a with
      | some q =>
          some { s with responseQueue := q, task := Function.update s.task p .idle }
      | none =>
          some { s.drop (.responseQueueFull p) a.job with
            task := Function.update s.task p .idle }

/-- `ERR_OK`. -/
def errOk : ℤ := 0

/-- `app_response_sender_task`; `allocates` says whether `pbuf_alloc` succeeds and `err` is what
`udp_sendto` returns, and on an empty queue the receive has timed out. -/
def senderStep (s : Device ο) (allocates : Bool) (err : ℤ) : Option (Device ο) :=
  match s.sender with
  | .idle =>
      match s.responseQueue.pop with
      | none => some (s.print "Response sender receive failed\r\n")
      | some (a, q) =>
          some { s.print (responseLine a.response) with responseQueue := q, sender := .holding a }
  | .holding a =>
      -- app_net_udp_send_response begins
      if !s.udpPcb || !s.remoteValid then
        some { s.print "UDP response send failed\r\n" with
          handed := s.handed ++ [a]
          sender := .idle }
      else some { s with handed := s.handed ++ [a], sender := .alloc a }
  | .alloc a =>
      if allocates then some { s with sender := .readAddr a }
      else
        some { (s.print "UDP response pbuf allocation failed\r\n").print
            "UDP response send failed\r\n" with sender := .idle }
  | .readAddr a => some { s with sender := .readPort a s.remoteAddr s.addrFrom }
  | .readPort a addr addrFrom =>
      some { s with sender := .sendto a ⟨addr, s.remotePort⟩ addrFrom s.portFrom }
  | .sendto a destination addrFrom portFrom =>
      let sent : Sent ο := ⟨a, destination, addrFrom, portFrom, err⟩
      if err ≠ errOk then
        some { (s.print ("UDP response send failed: err=" ++ toString err ++ "\r\n")).print
            "UDP response send failed\r\n" with
          sends := s.sends ++ [sent]
          sender := .idle }
      else some { s with sends := s.sends ++ [sent], sender := .idle }

/-! ### Interleaving -/

/-- Who moves. -/
inductive Event (ο : Type) where
  | udpReceive (d : Option (Datagram ο))
  | callback
  | dispatcher
  | task (p : Peripheral) (passed : Bool)
  | sender (allocates : Bool) (err : ℤ)

def step (s : Device ο) : Event ο → Option (Device ο)
  | .udpReceive d => udpReceive s d
  | .callback => callbackStep s
  | .dispatcher => dispatcherStep s
  | .task p passed => taskStep s p passed
  | .sender allocates err => senderStep s allocates err

/-! ### What a step can do -/

/-- The calls of the callback. -/
inductive UdpReceived (s : Device ο) : Option (Datagram ο) → Device ο → Prop
  | null (hpc : s.callback = .idle) : UdpReceived s none s
  | datagram {d : Datagram ο} (hpc : s.callback = .idle) :
      UdpReceived s (some d)
        { s with
          remoteAddr := d.source.addr
          addrFrom := some s.arrived.length
          callback := .storePort d s.arrived.length
          arrived := s.arrived ++ [d] }

/-- The moves of the callback; a datagram of the right size is copied completely. -/
inductive CallbackMoved (s : Device ο) : Device ο → Prop
  | storePort {d : Datagram ο} {n : ℕ} (hpc : s.callback = .storePort d n) :
      CallbackMoved s
        { s with
          remotePort := d.source.port
          portFrom := some n
          callback := .storeValid d n }
  | storeValid {d : Datagram ο} {n : ℕ} (hpc : s.callback = .storeValid d n) :
      CallbackMoved s { s with remoteValid := true, callback := .check d n }
  | badSize {d : Datagram ο} {n : ℕ} (hpc : s.callback = .check d n)
      (hsize : d.totLen ≠ Command.size) : CallbackMoved s { s with callback := .idle }
  | goodSize {d : Datagram ο} {n : ℕ} (hpc : s.callback = .check d n)
      (hsize : d.totLen = Command.size) :
      CallbackMoved s
        { s with callback := .send ⟨Command.decode d.chain.flatten, n, d.source, d.origin⟩ }
  | queued {j : Job ο} {q : Fifo (Job ο) appQueueLength} (hpc : s.callback = .send j)
      (hq : s.commandQueue.push j = some q) :
      CallbackMoved s
        { s with commandQueue := q, received := s.received ++ [j], callback := .idle }
  | full {j : Job ο} (hpc : s.callback = .send j) (hq : s.commandQueue.push j = none) :
      CallbackMoved s
        { s.drop .commandQueueFull j with received := s.received ++ [j], callback := .idle }

inductive DispatcherMoved (s : Device ο) : Device ο → Prop
  | timeout (hd : s.dispatcher = none) (hq : s.commandQueue.pop = none) :
      DispatcherMoved s (s.print "Dispatcher receive failed\r\n")
  | receive {j : Job ο} {q : Fifo (Job ο) appQueueLength} (hd : s.dispatcher = none)
      (hq : s.commandQueue.pop = some (j, q)) :
      DispatcherMoved s
        { s.print (commandLine j.command) with commandQueue := q, dispatcher := some j }
  | unknown {j : Job ο} (hd : s.dispatcher = some j)
      (hp : Peripheral.ofCode j.command.peripheral = none) :
      DispatcherMoved s
        { s.drop (.unknownPeripheral j.command.peripheral) j with dispatcher := none }
  | forward {j : Job ο} {p : Peripheral} {q : Fifo (Job ο) appQueueLength}
      (hd : s.dispatcher = some j) (hp : Peripheral.ofCode j.command.peripheral = some p)
      (hq : (s.queue p).push j = some q) :
      DispatcherMoved s { s with queue := Function.update s.queue p q, dispatcher := none }
  | full {j : Job ο} {p : Peripheral} (hd : s.dispatcher = some j)
      (hp : Peripheral.ofCode j.command.peripheral = some p) (hq : (s.queue p).push j = none) :
      DispatcherMoved s { s.drop (.peripheralQueueFull p) j with dispatcher := none }

inductive TaskMoved (s : Device ο) (p : Peripheral) (passed : Bool) : Device ο → Prop
  | receive {j : Job ο} {q : Fifo (Job ο) appQueueLength} (ht : s.task p = .idle)
      (hq : (s.queue p).pop = some (j, q)) :
      TaskMoved s p passed
        { s with
          queue := Function.update s.queue p q
          task := Function.update s.task p (.run j) }
  | run {j : Job ο} (ht : s.task p = .run j) :
      TaskMoved s p passed
        { s with task := Function.update s.task p (.respond (j.answer passed)) }
  | respond {a : Answer ο} {q : Fifo (Answer ο) appQueueLength} (ht : s.task p = .respond a)
      (hq : s.responseQueue.push a = some q) :
      TaskMoved s p passed
        { s with responseQueue := q, task := Function.update s.task p .idle }
  | full {a : Answer ο} (ht : s.task p = .respond a) (hq : s.responseQueue.push a = none) :
      TaskMoved s p passed
        { s.drop (.responseQueueFull p) a.job with task := Function.update s.task p .idle }

inductive SenderMoved (s : Device ο) (err : ℤ) : Device ο → Prop
  | timeout (hp : s.sender = .idle) (hq : s.responseQueue.pop = none) :
      SenderMoved s err (s.print "Response sender receive failed\r\n")
  | receive {a : Answer ο} {q : Fifo (Answer ο) appQueueLength} (hp : s.sender = .idle)
      (hq : s.responseQueue.pop = some (a, q)) :
      SenderMoved s err
        { s.print (responseLine a.response) with responseQueue := q, sender := .holding a }
  | notReady {a : Answer ο} (hp : s.sender = .holding a) :
      SenderMoved s err
        { s.print "UDP response send failed\r\n" with
          handed := s.handed ++ [a]
          sender := .idle }
  | hand {a : Answer ο} (hp : s.sender = .holding a) :
      SenderMoved s err { s with handed := s.handed ++ [a], sender := .alloc a }
  | allocated {a : Answer ο} (hp : s.sender = .alloc a) :
      SenderMoved s err { s with sender := .readAddr a }
  | notAllocated {a : Answer ο} (hp : s.sender = .alloc a) :
      SenderMoved s err
        { (s.print "UDP response pbuf allocation failed\r\n").print
            "UDP response send failed\r\n" with sender := .idle }
  | readAddr {a : Answer ο} (hp : s.sender = .readAddr a) :
      SenderMoved s err { s with sender := .readPort a s.remoteAddr s.addrFrom }
  | readPort {a : Answer ο} {addr : UInt32} {addrFrom : Option ℕ}
      (hp : s.sender = .readPort a addr addrFrom) :
      SenderMoved s err
        { s with sender := .sendto a ⟨addr, s.remotePort⟩ addrFrom s.portFrom }
  | notSent {a : Answer ο} {destination : Endpoint} {addrFrom portFrom : Option ℕ}
      (hp : s.sender = .sendto a destination addrFrom portFrom) :
      SenderMoved s err
        { (s.print ("UDP response send failed: err=" ++ toString err ++ "\r\n")).print
            "UDP response send failed\r\n" with
          sends := s.sends ++ [⟨a, destination, addrFrom, portFrom, err⟩]
          sender := .idle }
  | sent {a : Answer ο} {destination : Endpoint} {addrFrom portFrom : Option ℕ}
      (hp : s.sender = .sendto a destination addrFrom portFrom) :
      SenderMoved s err
        { s with
          sends := s.sends ++ [⟨a, destination, addrFrom, portFrom, err⟩]
          sender := .idle }

variable {s s' : Device ο}

theorem udpReceive_cases {d : Option (Datagram ο)} (h : udpReceive s d = some s') :
    UdpReceived s d s' := by
  unfold udpReceive at h
  split at h
  case h_1 hpc =>
    split at h
    · obtain rfl := Option.some.inj h
      exact .null hpc
    · cases h
  case h_2 hpc =>
    split at h
    · obtain rfl := Option.some.inj h
      exact .datagram hpc
    · cases h
  case h_3 => cases h

/-- What the callback copies from a datagram of the right size is the whole of it. -/
theorem pbufCopyPartial_command {d : Datagram ο} (h : d.totLen = Command.size) :
    pbufCopyPartial d.chain Command.size 0 = d.chain.flatten := by
  rw [pbufCopyPartial_eq, List.drop_zero, List.take_of_length_le]
  rw [List.length_flatten, ← h]
  rfl

theorem callbackStep_cases (h : callbackStep s = some s') : CallbackMoved s s' := by
  unfold callbackStep at h
  split at h
  case h_1 => cases h
  case h_2 hpc =>
    obtain rfl := Option.some.inj h
    exact .storePort hpc
  case h_3 hpc =>
    obtain rfl := Option.some.inj h
    exact .storeValid hpc
  case h_4 d n hpc =>
    simp only at h
    split at h
    · rename_i hsize
      obtain rfl := Option.some.inj h
      exact .badSize hpc hsize
    · rename_i hsize
      rw [not_not] at hsize
      have hlength : d.chain.flatten.length = Command.size := by
        rw [List.length_flatten, ← hsize]
        rfl
      rw [pbufCopyPartial_command hsize, if_neg (not_not.mpr hlength)] at h
      obtain rfl := Option.some.inj h
      exact .goodSize hpc hsize
  case h_5 hpc =>
    split at h <;> rename_i hq <;> obtain rfl := Option.some.inj h
    · exact .queued hpc hq
    · exact .full hpc hq

theorem dispatcherStep_cases (h : dispatcherStep s = some s') : DispatcherMoved s s' := by
  unfold dispatcherStep at h
  split at h
  case h_1 hd =>
    split at h <;> rename_i hq <;> obtain rfl := Option.some.inj h
    · exact .timeout hd hq
    · exact .receive hd hq
  case h_2 hd =>
    split at h
    · rename_i hp
      obtain rfl := Option.some.inj h
      exact .unknown hd hp
    · rename_i hp
      split at h <;> rename_i hq <;> obtain rfl := Option.some.inj h
      · exact .forward hd hp hq
      · exact .full hd hp hq

theorem taskStep_cases {p : Peripheral} {passed : Bool} (h : taskStep s p passed = some s') :
    TaskMoved s p passed s' := by
  unfold taskStep at h
  split at h
  case h_1 ht =>
    split at h
    · cases h
    · rename_i hq
      obtain rfl := Option.some.inj h
      exact .receive ht hq
  case h_2 ht =>
    obtain rfl := Option.some.inj h
    exact .run ht
  case h_3 ht =>
    split at h <;> rename_i hq <;> obtain rfl := Option.some.inj h
    · exact .respond ht hq
    · exact .full ht hq

theorem senderStep_cases {allocates : Bool} {err : ℤ}
    (h : senderStep s allocates err = some s') : SenderMoved s err s' := by
  unfold senderStep at h
  split at h
  case h_1 hp =>
    split at h <;> rename_i hq <;> obtain rfl := Option.some.inj h
    · exact .timeout hp hq
    · exact .receive hp hq
  case h_2 hp =>
    split at h <;> obtain rfl := Option.some.inj h
    · exact .notReady hp
    · exact .hand hp
  case h_3 hp =>
    split at h <;> obtain rfl := Option.some.inj h
    · exact .allocated hp
    · exact .notAllocated hp
  case h_4 hp =>
    obtain rfl := Option.some.inj h
    exact .readAddr hp
  case h_5 hp =>
    obtain rfl := Option.some.inj h
    exact .readPort hp
  case h_6 hp =>
    simp only at h
    split at h <;> obtain rfl := Option.some.inj h
    · exact .notSent hp
    · exact .sent hp

/-! ### What a step leaves alone -/

/-- What only the receive callback touches. -/
structure TaskFrame (s s' : Device ο) : Prop where
  udpPcb : s'.udpPcb = s.udpPcb
  remoteAddr : s'.remoteAddr = s.remoteAddr
  remotePort : s'.remotePort = s.remotePort
  remoteValid : s'.remoteValid = s.remoteValid
  callback : s'.callback = s.callback
  arrived : s'.arrived = s.arrived
  addrFrom : s'.addrFrom = s.addrFrom
  portFrom : s'.portFrom = s.portFrom
  received : s'.received = s.received

theorem dispatcherStep_frame (h : dispatcherStep s = some s') : TaskFrame s s' := by
  cases dispatcherStep_cases h <;> constructor <;> rfl

theorem taskStep_frame {p : Peripheral} {passed : Bool} (h : taskStep s p passed = some s') :
    TaskFrame s s' := by
  cases taskStep_cases h <;> constructor <;> rfl

theorem senderStep_frame {allocates : Bool} {err : ℤ}
    (h : senderStep s allocates err = some s') : TaskFrame s s' := by
  cases senderStep_cases h <;> constructor <;> rfl

/-- What only the sender touches. -/
structure SendFrame (s s' : Device ο) : Prop where
  sender : s'.sender = s.sender
  handed : s'.handed = s.handed
  sends : s'.sends = s.sends

theorem udpReceive_sendFrame {d : Option (Datagram ο)} (h : udpReceive s d = some s') :
    SendFrame s s' := by
  cases udpReceive_cases h <;> exact ⟨rfl, rfl, rfl⟩

theorem callbackStep_sendFrame (h : callbackStep s = some s') : SendFrame s s' := by
  cases callbackStep_cases h <;> exact ⟨rfl, rfl, rfl⟩

theorem dispatcherStep_sendFrame (h : dispatcherStep s = some s') : SendFrame s s' := by
  cases dispatcherStep_cases h <;> exact ⟨rfl, rfl, rfl⟩

theorem taskStep_sendFrame {p : Peripheral} {passed : Bool} (h : taskStep s p passed = some s') :
    SendFrame s s' := by
  cases taskStep_cases h <;> exact ⟨rfl, rfl, rfl⟩

/-- What the sender never touches. -/
structure SenderFrame (s s' : Device ο) : Prop where
  commandQueue : s'.commandQueue = s.commandQueue
  dispatcher : s'.dispatcher = s.dispatcher
  queue : s'.queue = s.queue
  task : s'.task = s.task
  dropped : s'.dropped = s.dropped
  log : s.log <+: s'.log

theorem senderStep_senderFrame {allocates : Bool} {err : ℤ}
    (h : senderStep s allocates err = some s') : SenderFrame s s' := by
  cases senderStep_cases h with
  | timeout | receive | notReady =>
      exact ⟨rfl, rfl, rfl, rfl, rfl, List.prefix_append _ _⟩
  | hand | allocated | readAddr | readPort | sent =>
      exact ⟨rfl, rfl, rfl, rfl, rfl, List.prefix_refl _⟩
  | notAllocated | notSent =>
      exact ⟨rfl, rfl, rfl, rfl, rfl, (List.prefix_append _ _).trans (List.prefix_append _ _)⟩

end PeripheralTester.Firmware
