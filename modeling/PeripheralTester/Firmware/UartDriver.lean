import PeripheralTester.Lib.Run

/-! # Two UARTs and the wire between them

`app_uart_test_transfer_it` down to the registers: the interrupt-driven part of
`stm32f7xx_hal_uart.c`, the helper that starts a transfer, polls and aborts, and the line.  The
helper is cut where an interrupt can come between: at each access to a register that the handler
also uses, and at each flag.

The line holds a byte in the data register, one in the shift register, and one that has arrived and
waits to be read.  A byte that arrives too early is lost and leaves the overrun flag; this is what a
late interrupt does.  The handler itself is one step.  Both UARTs have eight bits without parity, no
receiver timeout and no DMA, so the handler has neither a parity nor a timeout nor an idle branch
here.  `HAL_UART_ErrorCallback` only sets its flag: that the processor can stop in its log line is
left out, which cuts runs short and adds none. -/

namespace PeripheralTester.Firmware

/-! ### A UART -/

/-- The error bits of `ErrorCode` and of the `ISR` register. -/
structure UartErrors where
  fe : Bool
  ne : Bool
  ore : Bool
deriving DecidableEq, Repr

/-- `HAL_UART_ERROR_NONE`. -/
def UartErrors.none : UartErrors := ⟨false, false, false⟩

/-- `HAL_UART_StateTypeDef`. -/
inductive UartState where
  | reset
  | ready
  | busy
  | busyTx
  | busyRx
deriving DecidableEq, Repr

structure Uart where
  gState : UartState
  RxState : UartState
  /-- `UART_TxISR_8BIT`, or `NULL`. -/
  TxISR : Bool
  RxISR : Bool
  /-- The bytes from `pTxBuffPtr` on. -/
  pTxBuffPtr : List UInt8
  TxXferCount : ℕ
  /-- The bytes stored below `pRxBuffPtr` since the reception was started. -/
  stored : List UInt8
  RxXferCount : ℕ
  ErrorCode : UartErrors
  /-- `UE`, `TE` and `RE`. -/
  enabled : Bool
  TXEIE : Bool
  TCIE : Bool
  RXNEIE : Bool
  EIE : Bool
  /-- `TXE` is set if it is empty. -/
  TDR : Option UInt8
  shift : Option UInt8
  TC : Bool
  RDR : UInt8
  RXNE : Bool
  flags : UartErrors
deriving DecidableEq, Repr

inductive UartCallback where
  | txCplt
  | rxCplt
  | error
deriving DecidableEq, Repr

namespace Uart

/-! ### The interrupt handler -/

/-- `UART_TxISR_8BIT`. -/
def txIsr8bit (u : Uart) : Uart :=
  if u.gState = .busyTx then
    if u.TxXferCount = 0 then { u with TXEIE := false, TCIE := true }
    else
      { u with
        TDR := some (u.pTxBuffPtr.headD 0)
        TC := false
        pTxBuffPtr := u.pTxBuffPtr.tail
        TxXferCount := u.TxXferCount - 1 }
  else u

/-- `UART_EndTransmit_IT`, before the callback. -/
def endTransmitIt (u : Uart) : Uart :=
  { u with TCIE := false, gState := .ready, TxISR := false }

/-- `UART_RxISR_8BIT`, and whether it calls `HAL_UART_RxCpltCallback`. -/
def rxIsr8bit (u : Uart) : Uart × Bool :=
  if u.RxState = .busyRx then
    let u := { u with
      stored := u.stored ++ [u.RDR]
      RXNE := false
      RxXferCount := u.RxXferCount - 1 }
    if u.RxXferCount = 0 then
      ({ u with RXNEIE := false, EIE := false, RxState := .ready, RxISR := false }, true)
    else (u, false)
  else ({ u with RXNE := false }, false)

/-- `UART_EndRxTransfer`. -/
def endRxTransfer (u : Uart) : Uart :=
  { u with RXNEIE := false, EIE := false, RxState := .ready, RxISR := false }

/-- The errors whose interrupt is enabled move from the flags to `ErrorCode`. -/
def recordErrors (u : Uart) : Uart :=
  { u with
    ErrorCode :=
      ⟨u.ErrorCode.fe || u.flags.fe && u.EIE, u.ErrorCode.ne || u.flags.ne && u.EIE,
        u.ErrorCode.ore || u.flags.ore && (u.RXNEIE || u.EIE)⟩
    flags :=
      ⟨u.flags.fe && !u.EIE, u.flags.ne && !u.EIE, u.flags.ore && !(u.RXNEIE || u.EIE)⟩ }

/-- The part of `HAL_UART_IRQHandler` for errors. -/
def handleErrors (u : Uart) : Uart × List UartCallback :=
  let u₁ := u.recordErrors
  if u₁.ErrorCode ≠ .none then
    let (u₂, complete) :=
      if u.RXNE = true ∧ u.RXNEIE = true ∧ u₁.RxISR = true then u₁.rxIsr8bit else (u₁, false)
    let called := if complete then [.rxCplt] else []
    -- an overrun ends the reception, other errors do not
    if u₂.ErrorCode.ore then (u₂.endRxTransfer, called ++ [.error])
    else ({ u₂ with ErrorCode := .none }, called ++ [.error])
  else (u₁, [])

/-- `HAL_UART_IRQHandler`. -/
def irqHandler (u : Uart) : Uart × List UartCallback :=
  if u.flags = .none ∧ u.RXNE = true ∧ u.RXNEIE = true then
    if u.RxISR then
      let (u, complete) := u.rxIsr8bit
      (u, if complete then [.rxCplt] else [])
    else (u, [])
  else if u.flags ≠ .none ∧ (u.EIE = true ∨ u.RXNEIE = true) then u.handleErrors
  else if u.TDR = none ∧ u.TXEIE = true then
    if u.TxISR then (u.txIsr8bit, []) else (u, [])
  else if u.TC = true ∧ u.TCIE = true then (u.endTransmitIt, [.txCplt])
  else (u, [])

/-! ### The line -/

/-- A byte has arrived. -/
def receive (u : Uart) (b : UInt8) : Uart :=
  if u.enabled then
    if u.RXNE then { u with flags := { u.flags with ore := true } }
    else { u with RDR := b, RXNE := true }
  else u

/-- What arrives is not what was sent, or was not sent at all. -/
def receiveNoise (u : Uart) (b : UInt8) (e : UartErrors) : Uart :=
  if u.enabled then
    let u := u.receive b
    { u with flags := ⟨u.flags.fe || e.fe, u.flags.ne || e.ne, u.flags.ore || e.ore⟩ }
  else u

end Uart

/-! ### The transfer helper -/

/-- `APP_UART_TEST_A_UART` and `APP_UART_TEST_B_UART`. -/
inductive UartPort where
  | a
  | b
deriving DecidableEq, Repr

def UartPort.other : UartPort → UartPort
  | a => b
  | b => a

/-- A call of `app_uart_test_transfer_it`; the bytes are those of `tx_data` below `length`. -/
structure UartCall where
  tx : UartPort
  data : List UInt8
deriving DecidableEq, Repr

def UartCall.rx (c : UartCall) : UartPort := c.tx.other

/-- `app_uart_tx_done`, `app_uart_rx_done` and `app_uart_error`. -/
structure UartFlags where
  txDone : Bool
  rxDone : Bool
  error : Bool
deriving DecidableEq, Repr

def UartFlags.set (f : UartFlags) : UartCallback → UartFlags
  | .txCplt => { f with txDone := true }
  | .rxCplt => { f with rxDone := true }
  | .error => { f with error := true }

def UartFlags.clear (f : UartFlags) : UartCallback → UartFlags
  | .txCplt => { f with txDone := false }
  | .rxCplt => { f with rxDone := false }
  | .error => { f with error := false }

/-- The steps of the helper and of the HAL functions it calls. -/
inductive UartOp where
  | clearFlag (f : UartCallback)
  | errorCodeNone (p : UartPort)
  | clearErrorFlags (p : UartPort)
  /-- `HAL_UART_Receive_IT` up to the state `BUSY_RX`. -/
  | receiveIt
  | enableEie
  | setRxIsr
  | enableRxneie
  /-- `HAL_UART_Transmit_IT` up to `TxISR`. -/
  | transmitIt
  | enableTxeie
  | testTxDone
  | testRxDone
  | testError
  | testTime
  /-- `HAL_UART_Abort`: `CR1`, `CR3`, and the rest. -/
  | disableCr1 (p : UartPort)
  | disableEie (p : UartPort)
  | resetTransfer (p : UartPort)
  | deInit (p : UartPort)
  | init (p : UartPort)
deriving DecidableEq, Repr

namespace UartCall

/-- `app_uart_test_abort_transfer`. -/
def abortOps (c : UartCall) : List UartOp :=
  [.disableCr1 c.tx, .disableEie c.tx, .resetTransfer c.tx,
    .disableCr1 c.rx, .disableEie c.rx, .resetTransfer c.rx,
    .clearErrorFlags c.tx, .clearErrorFlags c.rx,
    .deInit c.tx, .init c.tx, .deInit c.rx, .init c.rx,
    .clearFlag .txCplt, .clearFlag .rxCplt, .clearFlag .error]

/-- The body of the loop and its test. -/
def waitOps : List UartOp := [.testError, .testTime, .testTxDone]

def startOps (c : UartCall) : List UartOp :=
  [.clearFlag .txCplt, .clearFlag .rxCplt, .clearFlag .error,
    .errorCodeNone c.tx, .errorCodeNone c.rx, .clearErrorFlags c.rx,
    .receiveIt, .enableEie, .setRxIsr, .enableRxneie, .transmitIt, .enableTxeie, .testTxDone]

end UartCall

/-- Both UARTs, the flags, and the call that is in progress, if there is one. -/
structure UartLink where
  uart : UartPort → Uart
  flags : UartFlags
  call : Option UartCall
  ops : List UartOp
  /-- The calls that returned `APP_UART_TEST_OK`, with the contents of `rx_data` then. -/
  delivered : List (UartCall × List UInt8)

namespace UartLink

def setUart (s : UartLink) (p : UartPort) (u : Uart) : UartLink :=
  { s with uart := Function.update s.uart p u }

/-- What the environment answers a step: whether the timeout has expired, and whether the UART
acknowledges `TE` and `RE` in time. -/
structure Answer where
  timedOut : Bool
  teack : Bool
  reack : Bool
deriving DecidableEq, Repr

/-- `HAL_UART_Init` after `HAL_UART_DeInit`. -/
def initUart (answer : Answer) (u : Uart) : Uart :=
  let u := { u with gState := .busy, enabled := true, ErrorCode := .none }
  if answer.teack then
    if answer.reack then { u with gState := .ready, RxState := .ready }
    else { u with RXNEIE := false, EIE := false, RxState := .ready }
  else { u with TXEIE := false, gState := .ready }

/-- What the step `op` of the call `c` does; `s.ops` are the steps after it. -/
def opStep (answer : Answer) (c : UartCall) (s : UartLink) : UartOp → UartLink
  | .clearFlag f => { s with flags := s.flags.clear f }
  | .errorCodeNone p => s.setUart p { s.uart p with ErrorCode := .none }
  | .clearErrorFlags p => s.setUart p { s.uart p with flags := .none }
  | .receiveIt =>
      let u := s.uart c.rx
      if u.RxState = .ready then
        s.setUart c.rx { u with
          stored := []
          RxXferCount := c.data.length
          RxISR := false
          ErrorCode := .none
          RxState := .busyRx }
      else { s with ops := c.abortOps }
  | .enableEie => s.setUart c.rx { s.uart c.rx with EIE := true }
  | .setRxIsr => s.setUart c.rx { s.uart c.rx with RxISR := true }
  | .enableRxneie => s.setUart c.rx { s.uart c.rx with RXNEIE := true }
  | .transmitIt =>
      let u := s.uart c.tx
      if u.gState = .ready then
        s.setUart c.tx { u with
          pTxBuffPtr := c.data
          TxXferCount := c.data.length
          ErrorCode := .none
          gState := .busyTx
          TxISR := true }
      else { s with ops := c.abortOps }
  | .enableTxeie => s.setUart c.tx { s.uart c.tx with TXEIE := true }
  | .testTxDone => { s with ops := if s.flags.txDone then [.testRxDone] else UartCall.waitOps }
  | .testRxDone =>
      if s.flags.rxDone then
        { s with call := none, delivered := s.delivered ++ [(c, (s.uart c.rx).stored)] }
      else { s with ops := UartCall.waitOps }
  | .testError => { s with ops := if s.flags.error then c.abortOps else s.ops }
  | .testTime => { s with ops := if answer.timedOut then c.abortOps else s.ops }
  | .disableCr1 p => s.setUart p { s.uart p with RXNEIE := false, TXEIE := false, TCIE := false }
  | .disableEie p => s.setUart p { s.uart p with EIE := false }
  | .resetTransfer p =>
      s.setUart p { s.uart p with
        TxXferCount := 0
        RxXferCount := 0
        flags := .none
        RXNE := false
        gState := .ready
        RxState := .ready
        ErrorCode := .none }
  | .deInit p =>
      s.setUart p { s.uart p with
        gState := .reset
        RxState := .reset
        ErrorCode := .none
        enabled := false
        TXEIE := false
        TCIE := false
        RXNEIE := false
        EIE := false
        TDR := none
        shift := none
        TC := true
        RXNE := false
        flags := .none }
  | .init p => s.setUart p (initUart answer (s.uart p))

/-- A step of the helper, or its return from an abort. -/
def taskStep (answer : Answer) (s : UartLink) : Option UartLink :=
  match s.call, s.ops with
  | some c, op :: ops => some (opStep answer c { s with ops := ops } op)
  | some _, [] => some { s with call := none }
  | none, _ => none

/-- The next call of the helper, which returns at once if `length` is 0. -/
def callStep (c : UartCall) (s : UartLink) : Option UartLink :=
  if s.call = none ∧ c.data ≠ [] then some { s with call := some c, ops := c.startOps } else none

/-- What can happen: the test task calls the helper or makes a step of it; an interrupt of a UART;
a byte goes from the data register to the shift register; it arrives; a disturbance of the line. -/
inductive Move where
  | call (c : UartCall)
  | task (answer : Answer)
  | irq (p : UartPort)
  | load (p : UartPort)
  | arrive (p : UartPort)
  | noise (p : UartPort) (b : UInt8) (e : UartErrors)
deriving DecidableEq, Repr

/-- The byte in the shift register of `p` has arrived at the other UART. -/
def arriveStep (p : UartPort) (s : UartLink) : Option UartLink :=
  match (s.uart p).shift with
  | none => none
  | some b =>
      let u := s.uart p
      let s := s.setUart p { u with shift := none, TC := u.TC || u.TDR.isNone }
      some (s.setUart p.other ((s.uart p.other).receive b))

def loadStep (p : UartPort) (s : UartLink) : Option UartLink :=
  let u := s.uart p
  match u.TDR, u.shift with
  | some b, none => some (s.setUart p { u with TDR := none, shift := some b })
  | _, _ => none

def irqStep (p : UartPort) (s : UartLink) : UartLink :=
  let (u, called) := (s.uart p).irqHandler
  { s.setUart p u with flags := called.foldl UartFlags.set s.flags }

def step (s : UartLink) : Move → Option UartLink
  | .call c => callStep c s
  | .task answer => taskStep answer s
  | .irq p => some (irqStep p s)
  | .load p => loadStep p s
  | .arrive p => arriveStep p s
  | .noise p b e => some (s.setUart p ((s.uart p).receiveNoise b e))

/-- After `MX_UART4_Init` and `MX_UART5_Init`. -/
def init : UartLink where
  uart _ :=
    { gState := .ready
      RxState := .ready
      TxISR := false
      RxISR := false
      pTxBuffPtr := []
      TxXferCount := 0
      stored := []
      RxXferCount := 0
      ErrorCode := .none
      enabled := true
      TXEIE := false
      TCIE := false
      RXNEIE := false
      EIE := false
      TDR := none
      shift := none
      TC := true
      RDR := 0
      RXNE := false
      flags := .none }
  flags := ⟨false, false, false⟩
  call := none
  ops := []
  delivered := []

/-- The line carries each byte as it was sent.  A UART that is about to be reset may still hear
anything. -/
def FaithfulLine (s : UartLink) : Move → Prop
  | .noise p _ _ => .deInit p ∈ s.ops
  | _ => True

instance (s : UartLink) : (m : Move) → Decidable (FaithfulLine s m)
  | .noise p _ _ => inferInstanceAs (Decidable (.deInit p ∈ s.ops))
  | .call _ | .task _ | .irq _ | .load _ | .arrive _ => isTrue trivial

end UartLink

end PeripheralTester.Firmware
