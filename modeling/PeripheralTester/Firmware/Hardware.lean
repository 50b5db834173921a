import PeripheralTester.Lib.Replay
import PeripheralTester.Firmware.Callbacks
import PeripheralTester.Firmware.DataCompare
import PeripheralTester.Firmware.Pipeline

/-! # What a test handler sees of the hardware

A test handler runs in its task against the HAL, the tick, the interrupts and the other tasks.  It
is a program replayed against a recording: a `Slot` for each point where it calls the HAL, reads a
counter, compares, delays or tests a flag.  A slot says what has happened since the last one (bytes
written by running receptions, then callbacks) and what the call answers.  The trace lists what
the handler did and which callbacks fired.

`HAL_UART_ErrorCallback` only sets its flag here.  Its log line is left out, and with it that the
processor stops in there unless the interrupted task had suspended the scheduler (`Interrupts`).
`History` in `Waits` puts the stop back where it decides what a helper does; elsewhere a stop only
cuts a run short. -/

namespace PeripheralTester.Firmware

open Lib

/-! ### The board -/

/-- The handles of all three buses. -/
inductive Handle where
  | uart (h : UartHandle)
  | spi (h : SpiHandle)
  | i2c (h : I2cHandle)
deriving DecidableEq, Repr

/-- The static buffers of the test modules. -/
inductive Buffer where
  | appUartARx
  | appUartBRx
  | appSpiMasterRx
  | appSpiSlaveRx
  | appSpiMasterDummyTx
  | appSpiSlaveDummyTx
  | appSpiMasterDummyRx
  | appSpiSlaveDummyRx
  | appI2cMasterRx
  | appI2cSlaveRx
deriving DecidableEq, Repr

abbrev Bytes := Vector UInt8 appProtocolMaxPatternLen

/-- The start of the buffer is replaced. -/
def Bytes.overwrite (v : Bytes) (bytes : List UInt8) : Bytes :=
  Vector.ofFn fun i => bytes.getD i v[i]

/-- What a handler finds: the transfer flags, the buffers, the receptions under way with their
buffer and length, and the CRC unit. -/
structure Board where
  flags : Flags
  buffers : Buffer → Bytes
  receiving : Handle → Option (Buffer × ℕ)
  crc : UInt32

/-- The first `n` bytes of the buffer are the same. -/
def SameBytes (buffer : Buffer) (n : ℕ) (g₁ g₂ : Board) : Prop :=
  ∀ i : Fin appProtocolMaxPatternLen, i.val < n →
    (g₁.buffers buffer)[i] = (g₂.buffers buffer)[i]

/-- Interrupt or DMA mode. -/
inductive Mode where
  | it
  | dma
deriving DecidableEq, Repr

/-- A HAL call that starts a transfer on a handle: `Receive` with a buffer, `Transmit` with data,
`TransmitReceive` with both. -/
structure Operation where
  mode : Mode
  handle : Handle
  tx : Option (List UInt8)
  rx : Option Buffer
  length : ℕ
deriving DecidableEq, Repr

/-- What a handler does, and the callbacks that fire. -/
inductive Act where
  | callback (cb : Callback)
  | start (op : Operation) (ok : Bool)
  | abort (h : Handle)
  | deInit (h : Handle)
  | init (h : Handle)
  /-- A transfer helper returns OK. -/
  | completed (t : Transfer)
  | compared (c : Comparison) (status : UInt8)
  /-- The two counter readings of a timer iteration. -/
  | measured (startUs endUs : UInt32)
  | dacStart (ok : Bool)
  | dacSetValue (level : UInt16) (ok : Bool)
  | adcStart (ok : Bool)
  | adcPoll (ok : Bool)
  | adcStop
  /-- The reading at a level. -/
  | sampled (level : UInt16) (value : UInt32)
  | delay (ms : ℕ)
  | log (line : String)
  /-- `app_response_queue_send`. -/
  | respond (r : Response) (ok : Bool)
deriving DecidableEq, Repr

/-- An entry of a recording. -/
structure Slot where
  /-- The bytes that running receptions have written to their buffers. -/
  writes : List (Handle × List UInt8)
  fired : List Callback
  /-- The call returns `HAL_OK` (or `pdPASS`). -/
  ok : Bool
  /-- The tick, or the counter of TIM2. -/
  count : UInt32
  /-- `HAL_ADC_GetValue`. -/
  value : UInt32
  /-- What other tasks do to the CRC unit before each access of a comparison. -/
  others : List (List CrcOp)
deriving DecidableEq, Repr

/-- A reception never writes beyond its length. -/
def Board.write (b : Board) (w : Handle × List UInt8) : Board :=
  match b.receiving w.1 with
  | none => b
  | some (buffer, length) =>
      { b with
        buffers := Function.update b.buffers buffer
          ((b.buffers buffer).overwrite (w.2.take length)) }

def Board.fire (b : Board) (cb : Callback) : Board := { b with flags := cb.store b.flags }

/-- What has happened before a slot's answer. -/
def Board.advance (b : Board) (a : Slot) : Board :=
  a.fired.foldl Board.fire (a.writes.foldl Board.write b)

/-! ### Calls -/

/-- A handler, or a part of one. -/
abbrev Handler := Replay Board Slot Act

namespace Handler

/-- The next point of interruption. -/
def pause : Handler Slot := do
  let a ← Replay.next
  Replay.modify fun b => b.advance a
  Replay.emit (a.fired.map .callback)
  pure a

def act (x : Act) : Handler Unit := Replay.emit [x]

/-- `APP_LOG`. -/
def appLog (line : String) : Handler Unit := act (.log line)

/-- `APP_LOG` where the source has it. -/
def appLogIf : Option String → Handler Unit
  | some line => appLog line
  | none => pure ()

/-- `vTaskDelay(pdMS_TO_TICKS(ms))`. -/
def vTaskDelay (ms : ℕ) : Handler Unit := do
  act (.delay ms)
  let _ ← pause
  pure ()

/-- `HAL_GetTick`. -/
def halGetTick : Handler UInt32 := do
  let a ← pause
  pure a.count

/-- A call that starts a transfer. -/
def halStart (op : Operation) : Handler Bool := do
  let a ← pause
  act (.start op a.ok)
  Replay.modify fun b =>
    match op.rx with
    | some buffer =>
        if a.ok then
          { b with receiving := Function.update b.receiving op.handle (some (buffer, op.length)) }
        else b
    | none => b
  pure a.ok

/-- `HAL_…_Abort` or `HAL_…_DeInit`: it ends what the handle is doing. -/
def halStop (x : Handle → Act) (h : Handle) : Handler Unit := do
  let _ ← pause
  act (x h)
  Replay.modify fun b => { b with receiving := Function.update b.receiving h none }

/-- `HAL_…_Init`. -/
def halInit (h : Handle) : Handler Unit := do
  let _ ← pause
  act (.init h)

/-- Flags become `0U`. -/
def clearFlags (l : List Flag) : Handler Unit :=
  Replay.modify fun b => { b with flags := b.flags.clear l }

/-- `memset(buffer, value, length)`. -/
def memset (buffer : Buffer) (value : UInt8) (length : ℕ) : Handler Unit :=
  Replay.modify fun b =>
    { b with
      buffers := Function.update b.buffers buffer
        ((b.buffers buffer).overwrite (List.replicate length value)) }

/-- The bytes of a buffer. -/
def bytes (buffer : Buffer) : Handler (List UInt8) := do
  let b ← Replay.get
  pure (b.buffers buffer).toList

/-- A call of `app_data_compare`; whether it returns `APP_DATA_COMPARE_OK`. -/
def compare (expected actual : List UInt8) (length : UInt8) : Handler Bool := do
  let a ← pause
  let b ← Replay.get
  let c : Comparison := ⟨some expected, some actual, length⟩
  let result := (appDataCompare c).execAmong crcUnit a.others b.crc
  Replay.modify fun b => { b with crc := result.2 }
  act (.compared c result.1)
  pure (result.1 = appDataCompareOk)

/-- The end of `app_…_test_run`: the response goes to the response queue. -/
def respond (p : Peripheral) (r : Response) : Handler Unit := do
  let a ← pause
  act (.respond r a.ok)
  if a.ok then pure () else appLog (DropPoint.responseQueueFull p).line

end Handler

end PeripheralTester.Firmware
