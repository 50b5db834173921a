import PeripheralTester.Firmware.Pipeline
import PeripheralTester.Lib.Format
import PeripheralTester.Server.Program

/-! # The two wire formats

The server and the firmware have an `app_protocol.h` each, with packed structures and constants of
their own.  Here every structure is laid out from its own declaration (`commandFormat` and
`responseFormat` of either side), and the layouts are compared with what the two programs do with
the bytes: `udp_client_send_command` and `app_net_udp_rx_callback` for commands,
`app_net_udp_send_response` and the receive thread for responses.

**`wire_formats_agree`** is the round trip in both directions, for commands and for responses. -/

namespace PeripheralTester

open Lib

/-! ### The server's structures -/

namespace Server

/-- `APP_PROTOCOL_PATTERN_MAX_LEN`. -/
def appProtocolPatternMaxLen : ℕ := 255

/-- The server's `app_protocol_command_t`. -/
structure AppProtocolCommand where
  testId : UInt32
  peripheral : UInt8
  iterations : UInt8
  patternLen : UInt8
  pattern : Vector UInt8 appProtocolPatternMaxLen
deriving DecidableEq, Repr

/-- The server's `app_protocol_response_t`. -/
structure AppProtocolResponse where
  testId : UInt32
  result : UInt8
deriving DecidableEq, Repr

def commandFormat : Format UInt8 AppProtocolCommand :=
  (word32.seq (Format.word.seq (Format.word.seq (Format.word.seq
    (Format.array appProtocolPatternMaxLen))))).map
    { toFun := fun x => ⟨x.1, x.2.1, x.2.2.1, x.2.2.2.1, x.2.2.2.2⟩
      invFun := fun c => (c.testId, c.peripheral, c.iterations, c.patternLen, c.pattern)
      left_inv := fun _ => rfl
      right_inv := fun _ => rfl }

def responseFormat : Format UInt8 AppProtocolResponse :=
  (word32.seq Format.word).map
    { toFun := fun x => ⟨x.1, x.2⟩
      invFun := fun r => (r.testId, r.result)
      left_inv := fun _ => rfl
      right_inv := fun _ => rfl }

/-- `udp_client_status_t`. -/
inductive UdpClientStatus where
  | ok
  | fail
deriving DecidableEq, Repr

/-- `udp_client_send_command`: what it returns and the payload it passes to `sendto`, given whether
`inet_pton` parses the address and what `sendto` answers; `none` is a `NULL` command. -/
def udpClientSendCommand (command : Option AppProtocolCommand) (inetPton : Bool)
    (sendto : List UInt8 → ℤ) : UdpClientStatus × Option (List UInt8) :=
  match command with
  | none => (.fail, none)
  | some c =>
      if !inetPton then (.fail, none)
      else
        let payload := commandFormat.encode c
        if sendto payload ≠ commandFormat.size then (.fail, some payload)
        else (.ok, some payload)

theorem udpClientSendCommand_payload {c : AppProtocolCommand} {inetPton : Bool}
    {sendto : List UInt8 → ℤ} {payload : List UInt8}
    (h : (udpClientSendCommand (some c) inetPton sendto).2 = some payload) :
    payload = commandFormat.encode c := by
  unfold udpClientSendCommand at h
  cases inetPton with
  | false => cases h
  | true =>
      by_cases hsent : sendto (commandFormat.encode c) = commandFormat.size
      · simpa [hsent] using h.symm
      · simpa [hsent] using h.symm

/-- With an address that parses, the payload is the command, whatever `sendto` answers. -/
theorem udpClientSendCommand_sends (c : AppProtocolCommand) (sendto : List UInt8 → ℤ) :
    (udpClientSendCommand (some c) true sendto).2 = some (commandFormat.encode c) := by
  unfold udpClientSendCommand
  by_cases hsent : sendto (commandFormat.encode c) = commandFormat.size <;> simp [hsent]

end Server

/-! ### The firmware's structures -/

namespace Firmware

variable {ο : Type}

def commandFormat : Format UInt8 Command :=
  (word32.seq (Format.word.seq (Format.word.seq (Format.word.seq
    (Format.array appProtocolMaxPatternLen))))).map
    { toFun := fun x => ⟨x.1, x.2.1, x.2.2.1, x.2.2.2.1, x.2.2.2.2⟩
      invFun := fun c => (c.testId, c.peripheral, c.iterations, c.patternLen, c.pattern)
      left_inv := fun _ => rfl
      right_inv := fun _ => rfl }

def responseFormat : Format UInt8 Response :=
  (word32.seq Format.word).map
    { toFun := fun x => ⟨x.1, x.2⟩
      invFun := fun r => (r.testId, r.result)
      left_inv := fun _ => rfl
      right_inv := fun _ => rfl }

/-- The static assertions of the firmware's header. -/
theorem commandFormat_size : commandFormat.size = 262 := rfl

theorem responseFormat_size : responseFormat.size = 5 := rfl

/-- What `app_net_udp_send_response` copies into the pbuf it sends. -/
def appNetUdpSendResponsePayload (response : Response) : List UInt8 :=
  responseFormat.encode response

theorem encode32_eq_leEncode (x : UInt32) : encode32 x = leEncode 4 x.toNat := by
  simp only [encode32, leEncode, Nat.div_div_eq_div_mul]
  rfl

theorem commandFormat_encode (c : Command) : commandFormat.encode c = c.encode := by
  unfold Command.encode
  rw [encode32_eq_leEncode]
  rfl

theorem responseFormat_encode (r : Response) : responseFormat.encode r = r.encode := by
  unfold Response.encode
  rw [encode32_eq_leEncode]
  rfl

/-- The struct that overlays the bytes is the one the format reads. -/
theorem commandDecode_eq {bs : List UInt8} (h : bs.length = Command.size) :
    Command.decode bs = commandFormat.decode bs :=
  Format.decode_eq (fun c => by rw [commandFormat_encode, Command.decode_encode]) h

theorem responseDecode_eq {bs : List UInt8} (h : bs.length = Response.size) :
    Response.decode bs = responseFormat.decode bs :=
  Format.decode_eq (fun r => by rw [responseFormat_encode, Response.decode_encode]) h

/-- The callback reads a datagram of the right size as a command, wherever its chain is split. -/
theorem callbackStep_check {s : Device ο} {d : Datagram ο} {n : ℕ} (hpc : s.callback = .check d n)
    (hlength : d.chain.flatten.length = Command.size) :
    callbackStep s = some { s with
      callback := .send ⟨commandFormat.decode d.chain.flatten, n, d.source, d.origin⟩ } := by
  have htot : d.totLen = Command.size := by rw [← hlength, List.length_flatten]; rfl
  unfold callbackStep
  rw [hpc]
  simp only [pbufCopyPartial_command htot, htot, hlength, commandDecode_eq hlength, ne_eq,
    not_true_eq_false, if_false]

end Firmware

/-! ### Agreement -/

open Firmware

namespace Server

/-- The command as the firmware declares it. -/
def AppProtocolCommand.onDevice (c : AppProtocolCommand) : Command :=
  ⟨c.testId, c.peripheral, c.iterations, c.patternLen, c.pattern⟩

/-- The two layouts of a command are one. -/
theorem commandFormat_encode (c : AppProtocolCommand) :
    commandFormat.encode c = Firmware.commandFormat.encode c.onDevice := rfl

/-- The two layouts of a response are one. -/
theorem responseFormat_encode (r : AppProtocolResponse) :
    responseFormat.encode r = Firmware.responseFormat.encode ⟨r.testId, r.result⟩ := rfl

/-- The receive thread reads a datagram of the right size as a response. -/
theorem rxStep_recv {s : Process} {bytes : List UInt8} {origin : ℕ} {now : ℤ} (hrx : s.rx = .recv)
    (hlength : bytes.length = Response.size) :
    rxStep (.datagram bytes origin now) s =
      some { s with rx := .push ⟨⟨Firmware.responseFormat.decode bytes, now⟩, origin⟩ } := by
  unfold rxStep
  rw [hrx]
  have htake : bytes.take Response.size = bytes := List.take_of_length_le (le_of_eq hlength)
  simp only [htake, hlength, if_true, responseDecode_eq hlength]

end Server

open Server

/-- **The two programs agree on the wire format.**  Every command is sent as its 262 bytes if the
address parses, whatever becomes of them; it arrives field by field as it was sent, however its
datagram is split, and any 262 bytes are a command that has these bytes.  A response arrives as it
was sent, and any five bytes are a response that has these bytes. -/
theorem wire_formats_agree {ο : Type} :
    (∀ (c : AppProtocolCommand) (sendto : List UInt8 → ℤ),
      (udpClientSendCommand (some c) true sendto).2 = some (Server.commandFormat.encode c) ∧
        (Server.commandFormat.encode c).length = 262) ∧
    (∀ (c : AppProtocolCommand) (inetPton : Bool) (sendto : List UInt8 → ℤ) (d : Datagram ο)
      (s : Device ο) (n : ℕ),
      (udpClientSendCommand (some c) inetPton sendto).2 = some d.chain.flatten →
      s.callback = .check d n →
        ∃ j, callbackStep s = some { s with callback := .send j } ∧
          j.command.testId = c.testId ∧ j.command.peripheral = c.peripheral ∧
          j.command.iterations = c.iterations ∧ j.command.patternLen = c.patternLen ∧
          ∀ i (_ : i < 255), j.command.pattern.toList[i]? = c.pattern.toList[i]?) ∧
    (∀ (d : Datagram ο) (s : Device ο) (n : ℕ), d.chain.flatten.length = 262 →
      s.callback = .check d n →
        ∃ j, callbackStep s = some { s with callback := .send j } ∧
          Firmware.commandFormat.encode j.command = d.chain.flatten) ∧
    (∀ (r : Response) (s : Process) (origin : ℕ) (now : ℤ), s.rx = .recv →
      (appNetUdpSendResponsePayload r).length = 5 ∧
        ∃ x, rxStep (.datagram (appNetUdpSendResponsePayload r) origin now) s =
            some { s with rx := .push x } ∧
          x.record.response.testId = r.testId ∧ x.record.response.result = r.result) ∧
    ∀ (bytes : List UInt8) (s : Process) (origin : ℕ) (now : ℤ), bytes.length = 5 → s.rx = .recv →
      ∃ x, rxStep (.datagram bytes origin now) s = some { s with rx := .push x } ∧
        Server.responseFormat.encode ⟨x.record.response.testId, x.record.response.result⟩ =
          bytes := by
  refine ⟨?_, ?_, ?_, ?_, ?_⟩
  · intro c sendto
    exact ⟨udpClientSendCommand_sends c sendto, Server.commandFormat.length_encode c⟩
  · intro c inetPton sendto d s n hsent hpc
    have hbytes : d.chain.flatten = Firmware.commandFormat.encode c.onDevice :=
      udpClientSendCommand_payload hsent
    have hlength : d.chain.flatten.length = Command.size := by
      rw [hbytes]
      exact Firmware.commandFormat.length_encode _
    refine ⟨_, callbackStep_check hpc hlength, ?_⟩
    simp only [hbytes, Format.decode_encode]
    exact ⟨rfl, rfl, rfl, rfl, fun _ _ => rfl⟩
  · intro d s n hlength hpc
    exact ⟨_, callbackStep_check hpc hlength, Format.encode_decode _ _ hlength⟩
  · intro r s origin now hrx
    have hlength : (appNetUdpSendResponsePayload r).length = Response.size :=
      Firmware.responseFormat.length_encode r
    refine ⟨hlength, _, rxStep_recv hrx hlength, ?_⟩
    simp only [appNetUdpSendResponsePayload, Format.decode_encode, and_self]
  · intro bytes s origin now hlength hrx
    exact ⟨_, rxStep_recv hrx hlength,
      Firmware.responseFormat.encode_decode bytes hlength⟩

/-- A command in two pbufs, one of which ends within the pattern. -/
def splitCommand : AppProtocolCommand := ⟨0x01020304, 4, 10, 3, Vector.replicate _ 0x5A⟩

def splitDatagram : Datagram Unit :=
  let bytes := Server.commandFormat.encode splitCommand
  ⟨⟨1, 2⟩, [bytes.take 100, bytes.drop 100], ()⟩

theorem wire_formats_agree_split :
    (∃ j, callbackStep { Device.init true with callback := .check splitDatagram 0 } =
        some { Device.init true with callback := .send j } ∧
      j.command.testId = 0x01020304 ∧ Firmware.commandFormat.encode j.command =
        Server.commandFormat.encode splitCommand) ∧
    ∃ x, rxStep (.datagram (appNetUdpSendResponsePayload ⟨7, 1⟩) 0 100)
        { Process.init [] with rx := .recv } = some { Process.init [] with rx := .push x } ∧
      x.record.response.testId = 7 := by
  have hbytes : splitDatagram.chain.flatten = Server.commandFormat.encode splitCommand := by
    simp only [splitDatagram, List.flatten_cons, List.flatten_nil, List.append_nil,
      List.take_append_drop]
  obtain ⟨hsends, hcommand, hreencode, hresponse, _⟩ := wire_formats_agree (ο := Unit)
  obtain ⟨j, hj, hid, _⟩ := hcommand splitCommand true (fun _ => 262) splitDatagram
    { Device.init true with callback := .check splitDatagram 0 } 0
    (by rw [hbytes]; exact (hsends splitCommand _).1) rfl
  have hlength : splitDatagram.chain.flatten.length = 262 := by
    rw [hbytes]
    exact Server.commandFormat.length_encode splitCommand
  obtain ⟨j', hj', hre⟩ := hreencode splitDatagram
    { Device.init true with callback := .check splitDatagram 0 } 0 hlength rfl
  obtain ⟨_, x, hx, hxid, _⟩ := hresponse ⟨7, 1⟩ { Process.init [] with rx := .recv } 0 100 rfl
  have hsame : j = j' := by
    have := congrArg (Option.map Device.callback) (hj.symm.trans hj')
    simpa using this
  exact ⟨⟨j, hj, hid, by rw [hsame, hre, hbytes]⟩, x, hx, hxid⟩

end PeripheralTester
