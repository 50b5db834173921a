import PeripheralTester.Firmware.UartInterrupts

/-! # What a UART transfer delivers

On a line that carries every byte, a call of the transfer helper that returns `APP_UART_TEST_OK` has
received what was sent, however late the interrupts come and whatever became of the calls before it.
A call that fails resets both UARTs, so nothing of it is left on the line.

`Flight` accounts for the bytes while a transfer is under way, `Aborting` says what each step of an
abort has put in order, and `Quiet` is a UART between two calls. -/

namespace PeripheralTester.Firmware

open Lib

variable {u : Uart} {b : UInt8} {p : UartPort}

/-! ### A call of the helper -/

theorem UartPort.other_ne (p : UartPort) : p.other ≠ p := by
  cases p <;> decide

theorem UartCall.tx_ne_rx (c : UartCall) : c.tx ≠ c.rx := c.tx.other_ne.symm

/-- A call uses both UARTs. -/
theorem UartCall.eq_tx_or_rx (c : UartCall) (p : UartPort) : p = c.tx ∨ p = c.rx := by
  unfold UartCall.rx
  cases c.tx <;> cases p <;> decide

namespace UartLink

variable {s s' : UartLink} {c : UartCall} {op : UartOp} {ops : List UartOp} {answer : Answer}

/-- The flags are being cleared. -/
structure Preparing (s : UartLink) (c : UartCall) : Prop where
  call : s.call = some c
  data : c.data ≠ []
  ops : s.ops <:+ c.startOps
  receiveIt : .receiveIt ∈ s.ops
  txDone : .clearFlag .txCplt ∉ s.ops → s.flags.txDone = false
  rxDone : .clearFlag .rxCplt ∉ s.ops → s.flags.rxDone = false
  quiet : ∀ p, (s.uart p).Quiet

/-- The reception is being started. -/
structure Opening (s : UartLink) (c : UartCall) : Prop where
  call : s.call = some c
  ops : s.ops <:+ [.enableEie, .setRxIsr, .enableRxneie, .transmitIt, .enableTxeie, .testTxDone]
  transmitIt : .transmitIt ∈ s.ops
  txDone : s.flags.txDone = false
  rxDone : s.flags.rxDone = false
  tx : (s.uart c.tx).Quiet
  rx : (s.uart c.rx).Still ∧ (s.uart c.rx).gState ≠ .busyTx ∧ (s.uart c.rx).stored = []
  /-- The receiver is ready, apart from what is still to be done. -/
  listening :
    { s.uart c.rx with
      EIE := (s.uart c.rx).EIE || decide (UartOp.enableEie ∈ s.ops)
      RxISR := (s.uart c.rx).RxISR || decide (UartOp.setRxIsr ∈ s.ops)
      RXNEIE := (s.uart c.rx).RXNEIE || decide (UartOp.enableRxneie ∈ s.ops) }.Listening c.data

/-- The sender is ready, its interrupt apart. -/
structure Loading (s : UartLink) (c : UartCall) : Prop where
  call : s.call = some c
  ops : s.ops = [.enableTxeie, .testTxDone]
  txDone : s.flags.txDone = false
  rxDone : s.flags.rxDone = false
  tx : (s.uart c.tx).Still ∧ (s.uart c.tx).pTxBuffPtr = c.data
  sending : { s.uart c.tx with TXEIE := true }.Sending false
  rx : (s.uart c.rx).Still ∧ (s.uart c.rx).gState ≠ .busyTx ∧ (s.uart c.rx).stored = []
  listening : (s.uart c.rx).Listening c.data

/-- The bytes of the call are stored, on the line, or still to be sent. -/
structure Flight (s : UartLink) (c : UartCall) : Prop where
  call : s.call = some c
  ops : s.ops = [.testTxDone] ∨ s.ops = [.testRxDone] ∧ s.flags.txDone = true ∨
    s.ops = UartCall.waitOps ∨ s.ops = UartCall.waitOps.tail
  tx : (s.uart c.tx).Sending s.flags.txDone
  rx : (s.uart c.rx).Receiving c.data (s.uart c.tx).transit s.flags.rxDone

/-- What an abort has put in order in the UART `u` at `p` if the steps `ops` are still to come. -/
structure Settling (ops : List UartOp) (p : UartPort) (u : Uart) : Prop where
  disableCr1 : .disableCr1 p ∉ ops → u.RXNEIE = false ∧ u.TXEIE = false ∧ u.TCIE = false
  disableEie : .disableEie p ∉ ops → u.EIE = false
  deInit : .deInit p ∉ ops → u.TDR = none ∧ u.shift = none ∧ u.RXNE = false ∧ u.flags = .none ∧
    u.gState ≠ .busyTx ∧ u.RxState ≠ .busyRx
  init : .init p ∉ ops → u.enabled = true

structure Aborting (s : UartLink) (c : UartCall) : Prop where
  call : s.call = some c
  ops : s.ops <:+ c.abortOps
  settling : ∀ p, Settling s.ops p (s.uart p)
  rx : (s.uart c.rx).Mute

/-- A call that returned `APP_UART_TEST_OK` has received what was sent. -/
def Intact (s : UartLink) : Prop := ∀ d ∈ s.delivered, d.2 = d.1.data

/-- Where the helper is. -/
inductive Phase (s : UartLink) : Prop
  | idle (hcall : s.call = none) (hops : s.ops = []) (hquiet : ∀ p, (s.uart p).Quiet)
  | preparing {c : UartCall} (h : s.Preparing c)
  | opening {c : UartCall} (h : s.Opening c)
  | loading {c : UartCall} (h : s.Loading c)
  | flight {c : UartCall} (h : s.Flight c)
  | aborting {c : UartCall} (h : s.Aborting c)

@[simp] theorem setUart_uart_self (s : UartLink) (p : UartPort) (u : Uart) :
    (s.setUart p u).uart p = u := Function.update_self _ _ _

theorem setUart_uart_of_ne {q : UartPort} (h : q ≠ p) (s : UartLink) (u : Uart) :
    (s.setUart p u).uart q = s.uart q := Function.update_of_ne h _ _

@[simp] theorem setUart_call (s : UartLink) (p : UartPort) (u : Uart) :
    (s.setUart p u).call = s.call := rfl

@[simp] theorem setUart_ops (s : UartLink) (p : UartPort) (u : Uart) :
    (s.setUart p u).ops = s.ops := rfl

@[simp] theorem setUart_flags (s : UartLink) (p : UartPort) (u : Uart) :
    (s.setUart p u).flags = s.flags := rfl

@[simp] theorem setUart_delivered (s : UartLink) (p : UartPort) (u : Uart) :
    (s.setUart p u).delivered = s.delivered := rfl

/-! ### Starting -/

theorem irqStep_eq (p : UartPort) (s : UartLink) :
    irqStep p s =
      { s.setUart p (s.uart p).irqHandler.1 with
        flags := (s.uart p).irqHandler.2.foldl UartFlags.set s.flags } := rfl

theorem irqStep_still (h : (s.uart p).Still) : irqStep p s = s := by
  simp [irqStep, h.irqHandler, setUart]

/-- An abort begins. -/
theorem aborting_start (hcall : s.call = some c) (hops : s.ops = c.abortOps)
    (hrx : (s.uart c.rx).Mute) : s.Aborting c := by
  refine ⟨hcall, hops ▸ List.suffix_refl _, fun p => ?_, hrx⟩
  rcases c.eq_tx_or_rx p with rfl | rfl
  all_goals exact ⟨fun h => by simp [hops, UartCall.abortOps] at h,
    fun h => by simp [hops, UartCall.abortOps] at h,
    fun h => by simp [hops, UartCall.abortOps] at h,
    fun h => by simp [hops, UartCall.abortOps] at h⟩

theorem loadStep_cases (hs : loadStep p s = some s') :
    ∃ b, (s.uart p).TDR = some b ∧ (s.uart p).shift = none ∧
      s' = s.setUart p { s.uart p with TDR := none, shift := some b } := by
  unfold loadStep at hs
  dsimp only at hs
  split at hs
  · rename_i b hTDR hshift
    exact ⟨b, hTDR, hshift, by simpa using hs.symm⟩
  · cases hs

theorem arriveStep_cases (hs : arriveStep p s = some s') :
    ∃ b, (s.uart p).shift = some b ∧
      s'.uart p = { s.uart p with
        shift := none, TC := (s.uart p).TC || (s.uart p).TDR.isNone } ∧
      s'.uart p.other = (s.uart p.other).receive b ∧
      s'.call = s.call ∧ s'.ops = s.ops ∧ s'.flags = s.flags ∧ s'.delivered = s.delivered := by
  unfold arriveStep at hs
  have hne := p.other_ne
  split at hs
  · cases hs
  · rename_i b hshift
    cases hs
    refine ⟨b, hshift, ?_, ?_, rfl, rfl, rfl, rfl⟩
    · rw [setUart_uart_of_ne hne.symm, setUart_uart_self]
    · rw [setUart_uart_self, setUart_uart_of_ne hne]

theorem Preparing.opStep (h : s.Preparing c) (hops : s.ops = op :: ops) :
    (opStep answer c { s with ops := ops } op).delivered = s.delivered ∧
      (opStep answer c { s with ops := ops } op).Phase := by
  have hsuffix := h.ops
  have hreceive := h.receiveIt
  have htx := h.txDone
  have hrx := h.rxDone
  rw [hops] at hsuffix hreceive htx hrx
  have hnext : ops <:+ c.startOps := (List.suffix_cons _ _).trans hsuffix
  cases op with
  | clearFlag f =>
      unfold UartLink.opStep
      refine ⟨rfl, .preparing ⟨h.call, h.data, hnext, by simpa using hreceive, ?_, ?_, h.quiet⟩⟩
      · intro hclear
        cases f <;> simp_all [UartFlags.clear]
      · intro hclear
        cases f <;> simp_all [UartFlags.clear]
  | errorCodeNone p =>
      unfold UartLink.opStep
      refine ⟨rfl, .preparing ⟨h.call, h.data, hnext, by simpa using hreceive, by simpa using htx,
        by simpa using hrx, fun q => ?_⟩⟩
      by_cases hq : q = p
      · rw [hq, setUart_uart_self]
        exact { h.quiet p with }
      · rw [setUart_uart_of_ne hq]
        exact h.quiet q
  | clearErrorFlags p =>
      unfold UartLink.opStep
      refine ⟨rfl, .preparing ⟨h.call, h.data, hnext, by simpa using hreceive, by simpa using htx,
        by simpa using hrx, fun q => ?_⟩⟩
      by_cases hq : q = p
      · rw [hq, setUart_uart_self]
        exact { h.quiet p with flags := rfl }
      · rw [setUart_uart_of_ne hq]
        exact h.quiet q
  | receiveIt =>
      have htail : ops = [.enableEie, .setRxIsr, .enableRxneie, .transmitIt, .enableTxeie,
          .testTxDone] := by
        simpa [UartCall.startOps, List.suffix_cons_iff] using hsuffix
      have hquiet := h.quiet c.rx
      unfold UartLink.opStep
      dsimp only
      split
      · refine ⟨rfl, .opening (c := c) ⟨h.call, ?_, ?_, ?_, ?_, ?_, ?_, ?_⟩⟩
        · rw [setUart_ops, htail]
        · simp [htail]
        · exact htx (by simp [htail])
        · exact hrx (by simp [htail])
        · rw [setUart_uart_of_ne c.tx_ne_rx]
          exact h.quiet c.tx
        · rw [setUart_uart_self]
          exact ⟨{ hquiet.toStill with }, hquiet.gState, rfl⟩
        · rw [setUart_uart_self]
          exact ⟨rfl, by simp [htail], by simp [htail], by simp [htail], by simp,
            List.length_pos_of_ne_nil h.data⟩
      · exact ⟨rfl, .aborting (aborting_start h.call rfl hquiet.toMute)⟩
  | _ => simp_all [UartCall.startOps, List.suffix_cons_iff]

/-- A step on the way to the receiver's interrupts. -/
theorem Opening.enable (h : s.Opening c) (hops : s.ops = op :: ops) (htransmit : .transmitIt ∈ ops)
    (hstill : u.Still) (hgState : u.gState ≠ .busyTx) (hstored : u.stored = [])
    (hlistening :
      { u with
        EIE := u.EIE || decide (UartOp.enableEie ∈ ops)
        RxISR := u.RxISR || decide (UartOp.setRxIsr ∈ ops)
        RXNEIE := u.RXNEIE || decide (UartOp.enableRxneie ∈ ops) }.Listening c.data) :
    ({ s with ops := ops }.setUart c.rx u).Opening c := by
  have hsuffix := h.ops
  rw [hops] at hsuffix
  refine ⟨h.call, (List.suffix_cons _ _).trans hsuffix, htransmit, h.txDone, h.rxDone, ?_, ?_, ?_⟩
  · rw [setUart_uart_of_ne c.tx_ne_rx]
    exact h.tx
  · rw [setUart_uart_self]
    exact ⟨hstill, hgState, hstored⟩
  · rw [setUart_uart_self]
    exact hlistening

theorem Opening.opStep (h : s.Opening c) (hops : s.ops = op :: ops) :
    (opStep answer c { s with ops := ops } op).delivered = s.delivered ∧
      (opStep answer c { s with ops := ops } op).Phase := by
  have hsuffix := h.ops
  have htransmit := h.transmitIt
  have hlistening := h.listening
  obtain ⟨hstill, hgState, hstored⟩ := h.rx
  have htx := h.tx
  rw [hops] at hsuffix htransmit hlistening
  cases op with
  | enableEie =>
      have htail : ops = [.setRxIsr, .enableRxneie, .transmitIt, .enableTxeie, .testTxDone] := by
        simpa [List.suffix_cons_iff] using hsuffix
      refine ⟨rfl, .opening (h.enable hops (by simp [htail]) { hstill with } hgState hstored ?_)⟩
      simpa [htail] using hlistening
  | setRxIsr =>
      have htail : ops = [.enableRxneie, .transmitIt, .enableTxeie, .testTxDone] := by
        simpa [List.suffix_cons_iff] using hsuffix
      refine ⟨rfl, .opening (h.enable hops (by simp [htail]) { hstill with } hgState hstored ?_)⟩
      simpa [htail] using hlistening
  | enableRxneie =>
      have htail : ops = [.transmitIt, .enableTxeie, .testTxDone] := by
        simpa [List.suffix_cons_iff] using hsuffix
      refine ⟨rfl, .opening (h.enable hops (by simp [htail]) { hstill with } hgState hstored ?_)⟩
      simpa [htail] using hlistening
  | transmitIt =>
      have htail : ops = [.enableTxeie, .testTxDone] := by
        simpa [List.suffix_cons_iff] using hsuffix
      unfold UartLink.opStep
      dsimp only
      split
      · refine ⟨rfl, .loading (c := c) ⟨h.call, htail, h.txDone, h.rxDone, ?_, ?_, ?_, ?_⟩⟩
        · rw [setUart_uart_self]
          exact ⟨{ htx.toStill with }, rfl⟩
        · rw [setUart_uart_self]
          exact
            { RXNE := htx.RXNE
              flags := htx.flags
              RXNEIE := htx.RXNEIE
              EIE := htx.EIE
              RxState := htx.RxState
              enabled := htx.enabled
              sent := fun _ => ⟨htx.TDR, htx.shift⟩
              TCIE := fun hTCIE => by
                rw [htx.TCIE] at hTCIE
                cases hTCIE
              count := rfl
              busy := fun _ => ⟨rfl, rfl⟩
              done := nofun }
        · rw [setUart_uart_of_ne c.tx_ne_rx.symm]
          exact ⟨hstill, hgState, hstored⟩
        · rw [setUart_uart_of_ne c.tx_ne_rx.symm]
          simpa [htail] using hlistening
      · exact ⟨rfl, .aborting (aborting_start h.call rfl hstill.toMute)⟩
  | _ => simp_all [List.suffix_cons_iff]

theorem Loading.opStep (h : s.Loading c) (hops : s.ops = op :: ops) :
    (opStep answer c { s with ops := ops } op).delivered = s.delivered ∧
      (opStep answer c { s with ops := ops } op).Phase := by
  obtain ⟨hstill, hdata⟩ := h.tx
  obtain ⟨hrx, hgState, hstored⟩ := h.rx
  obtain ⟨rfl, rfl⟩ : op = .enableTxeie ∧ ops = [.testTxDone] := by
    simpa [h.ops, eq_comm] using hops
  unfold UartLink.opStep
  refine ⟨rfl, .flight (c := c) ⟨h.call, .inl rfl, ?_, ?_⟩⟩
  · rw [setUart_uart_self, setUart_flags, h.txDone]
    exact h.sending
  · rw [setUart_uart_self, setUart_uart_of_ne c.tx_ne_rx.symm, setUart_flags, h.rxDone]
    have htransit : ({ s.uart c.tx with TXEIE := true } : Uart).transit = c.data := by
      simp [Uart.transit, hstill.TDR, hstill.shift, hdata]
    refine ⟨hrx.toMute, hgState, hrx.enabled, .intact h.listening hrx.flags ?_⟩
    simp [htransit, hstored, Uart.unread, hrx.RXNE]

/-! ### The transfer -/

/-- The transfer goes on, or is given up. -/
theorem Flight.wait (h : s.Flight c) {ops : List UartOp}
    (hops : ops = c.abortOps ∨ ops = [.testTxDone] ∨ ops = [.testRxDone] ∧ s.flags.txDone = true ∨
      ops = UartCall.waitOps ∨ ops = UartCall.waitOps.tail) : ({ s with ops := ops }).Phase := by
  rcases hops with habort | hops
  · exact .aborting (aborting_start h.call habort h.rx.toMute)
  · exact .flight ⟨h.call, hops, h.tx, h.rx⟩

/-- Both callbacks have been called: everything has arrived, and both UARTs are quiet. -/
theorem Flight.finish (h : s.Flight c) (htx : s.flags.txDone = true) (hrx : s.flags.rxDone = true) :
    (s.uart c.rx).stored = c.data ∧ ∀ p, (s.uart p).Quiet := by
  have hreception := h.rx.reception
  rw [hrx] at hreception
  cases hreception with
  | complete hquiet hstored hw =>
      refine ⟨hstored, fun p => ?_⟩
      rcases c.eq_tx_or_rx p with rfl | rfl
      · exact (h.tx.done htx).1
      · exact hquiet

theorem Flight.opStep (h : s.Flight c) (hintact : s.Intact) (hops : s.ops = op :: ops) :
    (opStep answer c { s with ops := ops } op).Intact ∧
      (opStep answer c { s with ops := ops } op).Phase := by
  rcases h.ops with htest | ⟨htest, htx⟩ | hwait | hwait
  · obtain ⟨rfl, rfl⟩ : op = .testTxDone ∧ ops = [] := by simpa [htest, eq_comm] using hops
    refine ⟨hintact, h.wait ?_⟩
    dsimp only
    split
    · exact .inr (.inr (.inl ⟨rfl, ‹_›⟩))
    · exact .inr (.inr (.inr (.inl rfl)))
  · obtain ⟨rfl, rfl⟩ : op = .testRxDone ∧ ops = [] := by simpa [htest, eq_comm] using hops
    unfold UartLink.opStep
    dsimp only
    split
    · obtain ⟨hstored, hquiet⟩ := h.finish htx ‹_›
      refine ⟨fun d hd => ?_, .idle rfl rfl hquiet⟩
      rcases List.mem_append.mp hd with hold | hnew
      · exact hintact d hold
      · rw [List.mem_singleton.mp hnew]
        exact hstored
    · exact ⟨hintact, h.wait (.inr (.inr (.inr (.inl rfl))))⟩
  · obtain ⟨rfl, rfl⟩ : op = .testError ∧ ops = UartCall.waitOps.tail := by
      simpa [hwait, UartCall.waitOps, eq_comm] using hops
    refine ⟨hintact, h.wait ?_⟩
    dsimp only
    split
    · exact .inl rfl
    · exact .inr (.inr (.inr (.inr rfl)))
  · obtain ⟨rfl, rfl⟩ : op = .testTime ∧ ops = [.testTxDone] := by
      simpa [hwait, UartCall.waitOps, eq_comm] using hops
    refine ⟨hintact, h.wait ?_⟩
    dsimp only
    split
    · exact .inl rfl
    · exact .inr (.inl rfl)

/-- The sender goes on, and the same bytes are still to arrive. -/
theorem Flight.sender (h : s.Flight c) {f : UartFlags} (hu : u.Sending f.txDone)
    (htransit : u.transit = (s.uart c.tx).transit) (htx : s.flags.txDone = true → f.txDone = true)
    (hrx : f.rxDone = s.flags.rxDone) :
    ({ s.setUart c.tx u with flags := f } : UartLink).Flight c := by
  refine ⟨h.call, ?_, ?_, ?_⟩
  · rcases h.ops with hops | ⟨hops, hdone⟩ | hops
    · exact .inl hops
    · exact .inr (.inl ⟨hops, htx hdone⟩)
    · exact .inr (.inr hops)
  · dsimp only
    rw [setUart_uart_self]
    exact hu
  · dsimp only
    rw [setUart_uart_self, setUart_uart_of_ne c.tx_ne_rx.symm, htransit, hrx]
    exact h.rx

theorem Flight.receiver (h : s.Flight c) {f : UartFlags}
    (hu : u.Receiving c.data (s.uart c.tx).transit f.rxDone) (htx : f.txDone = s.flags.txDone) :
    ({ s.setUart c.rx u with flags := f } : UartLink).Flight c := by
  refine ⟨h.call, ?_, ?_, ?_⟩
  · dsimp only
    rw [htx]
    exact h.ops
  · dsimp only
    rw [setUart_uart_of_ne c.tx_ne_rx, htx]
    exact h.tx
  · dsimp only
    rw [setUart_uart_self, setUart_uart_of_ne c.tx_ne_rx]
    exact hu

theorem Flight.irqStep (h : s.Flight c) (p : UartPort) : (irqStep p s).Flight c := by
  rw [irqStep_eq]
  rcases c.eq_tx_or_rx p with rfl | rfl
  · obtain ⟨htransit, ⟨hcalled, hnext⟩ | ⟨hcalled, hnext⟩⟩ := h.tx.irqHandler
    · rw [hcalled]
      exact h.sender hnext htransit id rfl
    · rw [hcalled]
      exact h.sender hnext htransit (fun _ => rfl) rfl
  · rcases h.rx.irqHandler with ⟨hcalled, hnext⟩ | ⟨hcalled, hnext⟩ | ⟨hcalled, hnext, hrx⟩
    · rw [hcalled]
      exact h.receiver hnext rfl
    · rw [hcalled]
      exact h.receiver hnext rfl
    · rw [hcalled]
      rw [← hrx] at hnext
      exact h.receiver hnext rfl

theorem Flight.loadStep (h : s.Flight c) (hs : loadStep p s = some s') : s'.Flight c := by
  obtain ⟨b, hTDR, hshift, rfl⟩ := loadStep_cases hs
  rcases c.eq_tx_or_rx p with rfl | rfl
  · exact h.sender (h.tx.load hTDR) (by simp [Uart.transit, hTDR, hshift]) id rfl
  · rw [h.rx.TDR] at hTDR
    cases hTDR

theorem Flight.arriveStep (h : s.Flight c) (hs : arriveStep p s = some s') : s'.Flight c := by
  obtain ⟨b, hshift, hself, hother, hcall, hops, hflags, -⟩ := arriveStep_cases hs
  rcases c.eq_tx_or_rx p with rfl | rfl
  · have htransit : (s.uart c.tx).transit = b :: (s'.uart c.tx).transit := by
      simp [Uart.transit, hshift, hself]
    have hrx := h.rx
    rw [htransit] at hrx
    have hreceive : s'.uart c.rx = (s.uart c.rx).receive b := hother
    refine ⟨hcall.trans h.call, ?_, ?_, ?_⟩
    · rw [hops, hflags]
      exact h.ops
    · rw [hself, hflags]
      exact h.tx.arrive hshift
    · rw [hreceive, hflags]
      exact hrx.receive
  · rw [h.rx.shift] at hshift
    cases hshift

/-! ### The abort -/

/-- The steps of an abort that come after a step which is still to come. -/
theorem abort_later {post : List UartOp} (hops : ops <:+ c.abortOps) (hpost : post <:+ c.abortOps)
    (hop : op ∈ ops) (hnot : op ∉ post) : post ⊆ ops := by
  rcases List.suffix_or_suffix_of_suffix hops hpost with h | h
  · exact absurd (h.subset hop) hnot
  · exact h.subset

/-- A UART is reset after its interrupts are disabled. -/
theorem deInit_of_disable (hops : ops <:+ c.abortOps)
    (h : .disableCr1 p ∈ ops ∨ .disableEie p ∈ ops) : .deInit p ∈ ops := by
  have hpost : c.abortOps.drop 8 <:+ c.abortOps := List.drop_suffix _ _
  have hmem : .deInit p ∈ c.abortOps.drop 8 := by
    rcases c.eq_tx_or_rx p with rfl | rfl <;> simp [UartCall.abortOps]
  rcases h with h | h
  · exact abort_later hops hpost h (by simp [UartCall.abortOps]) hmem
  · exact abort_later hops hpost h (by simp [UartCall.abortOps]) hmem

/-- The sender is reset before the receiver. -/
theorem deInit_rx_of_tx (hops : ops <:+ c.abortOps) (h : .deInit c.tx ∈ ops) :
    .deInit c.rx ∈ ops := by
  have hpost : c.abortOps.drop 9 <:+ c.abortOps := List.drop_suffix _ _
  exact abort_later hops hpost h (by simp [UartCall.abortOps, c.tx_ne_rx])
    (by simp [UartCall.abortOps])

/-- `HAL_UART_Init` leaves a UART enabled and its interrupts as they are, or disabled. -/
theorem Settling.initUart (h : Settling (.init p :: ops) p u) (answer : Answer) :
    Settling ops p (initUart answer u) := by
  refine ⟨fun hm => ?_, fun hm => ?_, fun hm => ?_, fun _ => ?_⟩
  · obtain ⟨hRXNEIE, hTXEIE, hTCIE⟩ := h.disableCr1 (by simpa using hm)
    unfold UartLink.initUart
    dsimp only
    split
    · split <;> simp [hRXNEIE, hTXEIE, hTCIE]
    · simp [hRXNEIE, hTCIE]
  · have hEIE := h.disableEie (by simpa using hm)
    unfold UartLink.initUart
    dsimp only
    split
    · split <;> simp [hEIE]
    · exact hEIE
  · obtain ⟨hTDR, hshift, hRXNE, hflags, -, hRxState⟩ := h.deInit (by simpa using hm)
    unfold UartLink.initUart
    dsimp only
    split
    · split <;> simp [hTDR, hshift, hRXNE, hflags]
    · simp [hTDR, hshift, hRXNE, hflags, hRxState]
  · unfold UartLink.initUart
    dsimp only
    split
    · split <;> rfl
    · rfl

theorem mute_initUart (h : u.Mute) (answer : Answer) : (initUart answer u).Mute := by
  unfold initUart
  dsimp only
  split
  · split
    · exact { h with }
    · exact { h with }
  · exact { h with TXEIE := rfl }

/-- A step on the UART at `p`. -/
theorem Aborting.update (h : s.Aborting c) (hops : s.ops = op :: ops)
    (hop : ∀ q, op = .disableCr1 q ∨ op = .disableEie q ∨ op = .deInit q ∨ op = .init q → q = p)
    (hu : Settling ops p u) (hrx : (s.uart p).Mute → u.Mute) :
    ({ s with ops := ops }.setUart p u).Aborting c := by
  have hsuffix := h.ops
  rw [hops] at hsuffix
  refine ⟨h.call, (List.suffix_cons _ _).trans hsuffix, fun q => ?_, ?_⟩
  · by_cases hq : q = p
    · rw [hq, setUart_uart_self]
      exact hu
    · rw [setUart_uart_of_ne hq]
      have hold := h.settling q
      rw [hops] at hold
      have hne (hc : op = .disableCr1 q ∨ op = .disableEie q ∨ op = .deInit q ∨ op = .init q) :
          False := hq (hop q hc)
      exact
        { disableCr1 := fun hm => hold.disableCr1 (List.not_mem_cons_of_ne_of_not_mem
            (fun heq => hne (.inl heq.symm)) hm)
          disableEie := fun hm => hold.disableEie (List.not_mem_cons_of_ne_of_not_mem
            (fun heq => hne (.inr (.inl heq.symm))) hm)
          deInit := fun hm => hold.deInit (List.not_mem_cons_of_ne_of_not_mem
            (fun heq => hne (.inr (.inr (.inl heq.symm)))) hm)
          init := fun hm => hold.init (List.not_mem_cons_of_ne_of_not_mem
            (fun heq => hne (.inr (.inr (.inr heq.symm)))) hm) }
  · by_cases hq : c.rx = p
    · rw [hq, setUart_uart_self]
      exact hrx (hq ▸ h.rx)
    · rw [setUart_uart_of_ne hq]
      exact h.rx

theorem Aborting.opStep (h : s.Aborting c) (hops : s.ops = op :: ops) :
    (opStep answer c { s with ops := ops } op).delivered = s.delivered ∧
      (opStep answer c { s with ops := ops } op).Aborting c := by
  have hsuffix := h.ops
  rw [hops] at hsuffix
  cases op with
  | disableCr1 p =>
      have hold := h.settling p
      rw [hops] at hold
      refine ⟨rfl, h.update hops (by simp) ?_ fun hm => { hm with TXEIE := rfl, TCIE := rfl }⟩
      exact ⟨fun _ => ⟨rfl, rfl, rfl⟩, by simpa using hold.disableEie, by simpa using hold.deInit,
        by simpa using hold.init⟩
  | disableEie p =>
      have hold := h.settling p
      rw [hops] at hold
      refine ⟨rfl, h.update hops (by simp) ?_ fun hm => { hm with }⟩
      exact ⟨by simpa using hold.disableCr1, fun _ => rfl, by simpa using hold.deInit,
        by simpa using hold.init⟩
  | resetTransfer p =>
      have hold := h.settling p
      rw [hops] at hold
      refine ⟨rfl, h.update hops (by simp) ?_ fun hm => { hm with }⟩
      refine ⟨by simpa using hold.disableCr1, by simpa using hold.disableEie, fun hm => ?_,
        by simpa using hold.init⟩
      obtain ⟨hTDR, hshift, -⟩ := hold.deInit (by simpa using hm)
      exact ⟨hTDR, hshift, rfl, rfl, by simp, by simp⟩
  | clearErrorFlags p =>
      have hold := h.settling p
      rw [hops] at hold
      refine ⟨rfl, h.update hops (by simp) ?_ fun hm => { hm with }⟩
      refine ⟨by simpa using hold.disableCr1, by simpa using hold.disableEie, fun hm => ?_,
        by simpa using hold.init⟩
      obtain ⟨hTDR, hshift, hRXNE, -, hstates⟩ := hold.deInit (by simpa using hm)
      exact ⟨hTDR, hshift, hRXNE, rfl, hstates⟩
  | deInit p =>
      have hold := h.settling p
      rw [hops] at hold
      refine ⟨rfl, h.update hops (by simp) ?_ fun _ => ⟨rfl, rfl, rfl, rfl⟩⟩
      have hinit : .init p ∈ ops := by
        rcases c.eq_tx_or_rx p with rfl | rfl
        · simp [UartCall.abortOps, List.suffix_cons_iff, c.tx_ne_rx] at hsuffix
          simp [hsuffix]
        · simp [UartCall.abortOps, List.suffix_cons_iff, c.tx_ne_rx.symm] at hsuffix
          simp [hsuffix]
      exact ⟨fun _ => ⟨rfl, rfl, rfl⟩, fun _ => rfl,
        fun _ => ⟨rfl, rfl, rfl, rfl, by simp, by simp⟩, fun hm => absurd hinit hm⟩
  | init p =>
      have hold := h.settling p
      rw [hops] at hold
      exact ⟨rfl, h.update hops (by simp) (hold.initUart answer) fun hm => mute_initUart hm answer⟩
  | clearFlag f =>
      have hnext := (List.suffix_cons _ _).trans hsuffix
      unfold UartLink.opStep
      refine ⟨rfl, h.call, hnext, fun p => ?_, h.rx⟩
      have hold := h.settling p
      rw [hops] at hold
      exact ⟨by simpa using hold.disableCr1, by simpa using hold.disableEie,
        by simpa using hold.deInit, by simpa using hold.init⟩
  | _ => simp_all [UartCall.abortOps, List.suffix_cons_iff]

/-- The abort has returned. -/
theorem Aborting.return (h : s.Aborting c) (hops : s.ops = []) (p : UartPort) :
    (s.uart p).Quiet := by
  have hold := h.settling p
  rw [hops] at hold
  obtain ⟨hRXNEIE, hTXEIE, hTCIE⟩ := hold.disableCr1 (by simp)
  obtain ⟨hTDR, hshift, hRXNE, hflags, hgState, hRxState⟩ := hold.deInit (by simp)
  exact ⟨⟨⟨hTXEIE, hTCIE, hTDR, hshift⟩, hRXNE, hflags, hold.init (by simp)⟩, hgState, hRxState,
    hRXNEIE, hold.disableEie (by simp)⟩

/-- An interrupt of a UART that is not reset yet. -/
theorem Settling.calms {v : Uart} (h : Settling ops p u) (hv : u.Calms v) (hmem : .deInit p ∈ ops) :
    Settling ops p v := by
  refine ⟨fun hm => ?_, fun hm => hv.EIE (h.disableEie hm), fun hm => absurd hmem hm,
    fun hm => hv.enabled.trans (h.init hm)⟩
  obtain ⟨hRXNEIE, hTXEIE, hTCIE⟩ := h.disableCr1 hm
  obtain ⟨hTXEIE', hTCIE', -⟩ := hv.mute hTXEIE hTCIE
  exact ⟨hv.RXNEIE hRXNEIE, hTXEIE', hTCIE'⟩

/-- Something happens to a UART that is not reset yet. -/
theorem Aborting.calms (h : s.Aborting c) (hu : (s.uart p).Calms u) (hmem : .deInit p ∈ s.ops)
    (f : UartFlags) : ({ s.setUart p u with flags := f } : UartLink).Aborting c := by
  refine ⟨h.call, h.ops, fun q => ?_, ?_⟩
  · dsimp only
    by_cases hq : q = p
    · rw [hq, setUart_uart_self]
      exact (h.settling p).calms hu hmem
    · rw [setUart_uart_of_ne hq]
      exact h.settling q
  · dsimp only
    by_cases hq : c.rx = p
    · rw [hq, setUart_uart_self]
      exact (hq ▸ h.rx).calms hu
    · rw [setUart_uart_of_ne hq]
      exact h.rx

theorem Aborting.irqStep (h : s.Aborting c) (p : UartPort) : (irqStep p s).Aborting c := by
  have hold := h.settling p
  by_cases hmem : .deInit p ∈ s.ops
  · rw [irqStep_eq]
    exact h.calms (s.uart p).irqHandler_calms hmem _
  -- its interrupts are disabled
  · obtain ⟨hRXNEIE, hTXEIE, hTCIE⟩ := hold.disableCr1 fun hm =>
      hmem (deInit_of_disable h.ops (.inl hm))
    have hEIE := hold.disableEie fun hm => hmem (deInit_of_disable h.ops (.inr hm))
    have hsame : UartLink.irqStep p s = s := by
      simp [irqStep_eq, Uart.irqHandler_disabled hTXEIE hTCIE hRXNEIE hEIE, setUart]
    rw [hsame]
    exact h

theorem Aborting.noise (h : s.Aborting c) (b : UInt8) (e : UartErrors) (hmem : .deInit p ∈ s.ops) :
    (s.setUart p ((s.uart p).receiveNoise b e)).Aborting c :=
  h.calms ((s.uart p).receiveNoise_calms b e) hmem s.flags

/-- Only the sender has bytes on the line, and it is not reset yet. -/
theorem Aborting.sender (h : s.Aborting c) (hp : (s.uart p).TDR ≠ none ∨ (s.uart p).shift ≠ none) :
    p = c.tx ∧ .deInit c.tx ∈ s.ops := by
  rcases c.eq_tx_or_rx p with rfl | rfl
  · refine ⟨rfl, Classical.not_not.mp fun hm => ?_⟩
    obtain ⟨hTDR, hshift, -⟩ := (h.settling c.tx).deInit hm
    rcases hp with hp | hp
    · exact hp hTDR
    · exact hp hshift
  · rcases hp with hp | hp
    · exact absurd h.rx.TDR hp
    · exact absurd h.rx.shift hp

theorem Aborting.loadStep (h : s.Aborting c) (hs : loadStep p s = some s') : s'.Aborting c := by
  obtain ⟨b, hTDR, hshift, rfl⟩ := loadStep_cases hs
  obtain ⟨rfl, hmem⟩ := h.sender (p := p) (.inl (by simp [hTDR]))
  have hold := h.settling c.tx
  refine ⟨h.call, h.ops, fun q => ?_, ?_⟩
  · by_cases hq : q = c.tx
    · rw [hq, setUart_uart_self]
      exact ⟨hold.disableCr1, hold.disableEie, fun hm => absurd hmem hm, hold.init⟩
    · rw [setUart_uart_of_ne hq]
      exact h.settling q
  · rw [setUart_uart_of_ne c.tx_ne_rx.symm]
    exact h.rx

theorem Aborting.arriveStep (h : s.Aborting c) (hs : arriveStep p s = some s') :
    s'.Aborting c := by
  obtain ⟨b, hshift, hself, hother, hcall, hops, -⟩ := arriveStep_cases hs
  obtain ⟨rfl, hmem⟩ := h.sender (p := p) (.inr (by simp [hshift]))
  have hreceive : s'.uart c.rx = (s.uart c.rx).receive b := hother
  have hcalms := (s.uart c.rx).receive_calms b
  refine ⟨hcall.trans h.call, hops ▸ h.ops, fun q => ?_, ?_⟩
  · rw [hops]
    rcases c.eq_tx_or_rx q with rfl | rfl
    · have hold := h.settling c.tx
      rw [hself]
      exact ⟨hold.disableCr1, hold.disableEie, fun hm => absurd hmem hm, hold.init⟩
    · rw [hreceive]
      exact (h.settling c.rx).calms hcalms (deInit_rx_of_tx h.ops hmem)
  · rw [hreceive]
    exact h.rx.calms hcalms

/-! ### The steps -/

/-- While both UARTs are still, only the helper does something. -/
theorem step_still (hstill : ∀ p, (s.uart p).Still) (hdeInit : ∀ p, .deInit p ∉ s.ops) {m : Move}
    (hfaithful : FaithfulLine s m) (hs : step s m = some s') :
    s' = s ∨ (∃ c, callStep c s = some s') ∨ ∃ answer, taskStep answer s = some s' := by
  cases m with
  | call c => exact .inr (.inl ⟨c, hs⟩)
  | task answer => exact .inr (.inr ⟨answer, hs⟩)
  | irq p =>
      cases hs
      exact .inl (irqStep_still (hstill p))
  | load p =>
      obtain ⟨b, hTDR, -⟩ := loadStep_cases hs
      rw [(hstill p).TDR] at hTDR
      cases hTDR
  | arrive p =>
      obtain ⟨b, hshift, -⟩ := arriveStep_cases hs
      rw [(hstill p).shift] at hshift
      cases hshift
  | noise p b e => exact absurd hfaithful (hdeInit p)

theorem callStep_cases (hs : callStep c s = some s') :
    s.call = none ∧ c.data ≠ [] ∧ s' = { s with call := some c, ops := c.startOps } := by
  unfold callStep at hs
  split at hs
  · exact ⟨(‹_ ∧ _› : _).1, (‹_ ∧ _› : _).2, by simpa using hs.symm⟩
  · cases hs

theorem taskStep_cases (hs : taskStep answer s = some s') :
    ∃ c, s.call = some c ∧
      ((∃ op ops, s.ops = op :: ops ∧ s' = opStep answer c { s with ops := ops } op) ∨
        s.ops = [] ∧ s' = { s with call := none }) := by
  unfold taskStep at hs
  split at hs
  · rename_i c op ops hcall hops
    exact ⟨c, hcall, .inl ⟨op, ops, hops, by simpa using hs.symm⟩⟩
  · rename_i c hcall hops
    exact ⟨c, hcall, .inr ⟨hops, by simpa using hs.symm⟩⟩
  · cases hs

theorem Intact.of_delivered (h : s.Intact) (hs : s'.delivered = s.delivered) : s'.Intact :=
  fun d hd => h d (hs ▸ hd)

/-- A move while the transfer is being started. -/
theorem Phase.step_starting (hphase : s.Phase) (hintact : s.Intact) (hcall : s.call = some c)
    (hne : s.ops ≠ []) (hstill : ∀ p, (s.uart p).Still) (hdeInit : ∀ p, .deInit p ∉ s.ops)
    (hop : ∀ op ops answer, s.ops = op :: ops →
      (opStep answer c { s with ops := ops } op).delivered = s.delivered ∧
        (opStep answer c { s with ops := ops } op).Phase)
    {m : Move} (hfaithful : FaithfulLine s m) (hs : step s m = some s') :
    s'.Intact ∧ s'.Phase := by
  rcases step_still hstill hdeInit hfaithful hs with rfl | ⟨d, hs⟩ | ⟨answer, hs⟩
  · exact ⟨hintact, hphase⟩
  · rw [(callStep_cases hs).1] at hcall
    cases hcall
  · obtain ⟨d, hcall', ⟨op, ops, hops, rfl⟩ | ⟨hops, -⟩⟩ := taskStep_cases hs
    · obtain rfl : c = d := Option.some.inj (hcall.symm.trans hcall')
      obtain ⟨hdelivered, hnext⟩ := hop op ops answer hops
      exact ⟨hintact.of_delivered hdelivered, hnext⟩
    · exact absurd hops hne

theorem Flight.step (h : s.Flight c) (hintact : s.Intact) {m : Move} (hfaithful : FaithfulLine s m)
    (hs : step s m = some s') : s'.Intact ∧ s'.Phase := by
  have hops : s.ops ≠ [] ∧ ∀ p, .deInit p ∉ s.ops := by
    rcases h.ops with hops | ⟨hops, -⟩ | hops | hops <;> simp [hops, UartCall.waitOps]
  cases m with
  | call d =>
      have hcall := h.call
      rw [(callStep_cases hs).1] at hcall
      cases hcall
  | task answer =>
      obtain ⟨d, hcall, ⟨op, ops, hcons, rfl⟩ | ⟨hnil, -⟩⟩ := taskStep_cases hs
      · obtain rfl : c = d := Option.some.inj (h.call.symm.trans hcall)
        exact h.opStep hintact hcons
      · exact absurd hnil hops.1
  | irq p =>
      cases hs
      exact ⟨hintact, .flight (h.irqStep p)⟩
  | load p =>
      obtain ⟨b, -, -, heq⟩ := loadStep_cases hs
      exact ⟨hintact.of_delivered (by rw [heq]; rfl), .flight (h.loadStep hs)⟩
  | arrive p =>
      obtain ⟨b, -, -, -, -, -, -, hdelivered⟩ := arriveStep_cases hs
      exact ⟨hintact.of_delivered hdelivered, .flight (h.arriveStep hs)⟩
  | noise p b e => exact absurd hfaithful (hops.2 p)

theorem Aborting.step (h : s.Aborting c) (hintact : s.Intact) {m : Move}
    (hfaithful : FaithfulLine s m) (hs : step s m = some s') : s'.Intact ∧ s'.Phase := by
  cases m with
  | call d =>
      have hcall := h.call
      rw [(callStep_cases hs).1] at hcall
      cases hcall
  | task answer =>
      obtain ⟨d, hcall, ⟨op, ops, hops, rfl⟩ | ⟨hops, rfl⟩⟩ := taskStep_cases hs
      · obtain rfl : c = d := Option.some.inj (h.call.symm.trans hcall)
        obtain ⟨hdelivered, hnext⟩ := h.opStep hops
        exact ⟨hintact.of_delivered hdelivered, .aborting hnext⟩
      · exact ⟨hintact, .idle rfl hops (h.return hops)⟩
  | irq p =>
      cases hs
      exact ⟨hintact, .aborting (h.irqStep p)⟩
  | load p =>
      obtain ⟨b, -, -, heq⟩ := loadStep_cases hs
      exact ⟨hintact.of_delivered (by rw [heq]; rfl), .aborting (h.loadStep hs)⟩
  | arrive p =>
      obtain ⟨b, -, -, -, -, -, -, hdelivered⟩ := arriveStep_cases hs
      exact ⟨hintact.of_delivered hdelivered, .aborting (h.arriveStep hs)⟩
  | noise p b e =>
      cases hs
      exact ⟨hintact, .aborting (h.noise b e hfaithful)⟩

theorem Phase.step (hphase : s.Phase) (hintact : s.Intact) {m : Move} (hfaithful : FaithfulLine s m)
    (hs : step s m = some s') : s'.Intact ∧ s'.Phase := by
  cases hphase with
  | idle hcall hops hquiet =>
      rcases step_still (fun p => (hquiet p).toStill) (by simp [hops]) hfaithful hs with
        rfl | ⟨c, hs⟩ | ⟨answer, hs⟩
      · exact ⟨hintact, .idle hcall hops hquiet⟩
      · obtain ⟨-, hdata, rfl⟩ := callStep_cases hs
        refine ⟨hintact, .preparing ⟨rfl, hdata, List.suffix_refl _, ?_, ?_, ?_, hquiet⟩⟩
        all_goals simp [UartCall.startOps]
      · obtain ⟨c, hcall', -⟩ := taskStep_cases hs
        rw [hcall] at hcall'
        cases hcall'
  | @preparing c h =>
      have hdeInit (p : UartPort) : .deInit p ∉ s.ops := fun hm => by
        have hstart := h.ops.subset hm
        simp [UartCall.startOps] at hstart
      exact (Phase.preparing h).step_starting hintact h.call (List.ne_nil_of_mem h.receiveIt)
        (fun p => (h.quiet p).toStill) hdeInit (fun _ _ _ hops => h.opStep hops) hfaithful hs
  | @opening c h =>
      have hdeInit (p : UartPort) : .deInit p ∉ s.ops := fun hm => by
        have hstart := h.ops.subset hm
        simp at hstart
      have hstill (p : UartPort) : (s.uart p).Still := by
        rcases c.eq_tx_or_rx p with rfl | rfl
        · exact h.tx.toStill
        · exact h.rx.1
      exact (Phase.opening h).step_starting hintact h.call (List.ne_nil_of_mem h.transmitIt)
        hstill hdeInit (fun _ _ _ hops => h.opStep hops) hfaithful hs
  | @loading c h =>
      have hstill (p : UartPort) : (s.uart p).Still := by
        rcases c.eq_tx_or_rx p with rfl | rfl
        · exact h.tx.1
        · exact h.rx.1
      exact (Phase.loading h).step_starting hintact h.call (by simp [h.ops]) hstill
        (by simp [h.ops]) (fun _ _ _ hops => h.opStep hops) hfaithful hs
  | flight h => exact h.step hintact hfaithful hs
  | aborting h => exact h.step hintact hfaithful hs

theorem Phase.quiet (h : s.Phase) (hcall : s.call = none) : ∀ p, (s.uart p).Quiet := by
  cases h with
  | idle _ _ hquiet => exact hquiet
  | _ h =>
      rw [h.call] at hcall
      cases hcall

/-! ### The buffers -/

/-- Both handlers stay in the buffers of the call. -/
structure InBounds (s : UartLink) : Prop where
  data : ∀ c, s.call = some c → c.data ≠ []
  uart : ∀ p, (s.uart p).InBounds s.call

theorem InBounds.setUart (h : s.InBounds) (hu : u.InBounds s.call) : (s.setUart p u).InBounds := by
  refine ⟨h.data, fun q => ?_⟩
  rw [setUart_call]
  by_cases hq : q = p
  · rw [hq, setUart_uart_self]
    exact hu
  · rw [setUart_uart_of_ne hq]
    exact h.uart q

/-- The steps of a call that goes on. -/
theorem InBounds.opStep (h : s.InBounds) (hcall : s.call = some c)
    (hnext : (opStep answer c s op).call ≠ none) : (opStep answer c s op).InBounds := by
  cases op with
  | receiveIt =>
      have hdata := h.data c hcall
      unfold UartLink.opStep
      dsimp only
      split
      · refine h.setUart ⟨(h.uart c.rx).tx, fun _ => ?_⟩
        exact ⟨List.length_pos_of_ne_nil hdata, c, hcall, by simp⟩
      · exact ⟨h.data, h.uart⟩
  | transmitIt =>
      unfold UartLink.opStep
      dsimp only
      split
      · exact h.setUart ⟨fun _ => ⟨rfl, c, hcall, List.suffix_refl _⟩, (h.uart c.tx).rx⟩
      · exact ⟨h.data, h.uart⟩
  | testRxDone =>
      unfold UartLink.opStep at hnext ⊢
      dsimp only at hnext ⊢
      split at hnext
      · exact absurd rfl hnext
      · rw [if_neg ‹_›]
        exact ⟨h.data, h.uart⟩
  | resetTransfer p => exact h.setUart ⟨nofun, nofun⟩
  | deInit p => exact h.setUart ⟨nofun, nofun⟩
  | init p =>
      refine h.setUart ?_
      have hold := h.uart p
      unfold UartLink.initUart
      dsimp only
      split
      · split <;> exact ⟨nofun, nofun⟩
      · exact ⟨nofun, hold.rx⟩
  | clearFlag f => exact ⟨h.data, h.uart⟩
  | testTxDone => exact ⟨h.data, h.uart⟩
  | testError => exact ⟨h.data, h.uart⟩
  | testTime => exact ⟨h.data, h.uart⟩
  | errorCodeNone p => exact h.setUart ⟨(h.uart p).tx, (h.uart p).rx⟩
  | clearErrorFlags p => exact h.setUart ⟨(h.uart p).tx, (h.uart p).rx⟩
  | disableCr1 p => exact h.setUart ⟨(h.uart p).tx, (h.uart p).rx⟩
  | disableEie p => exact h.setUart ⟨(h.uart p).tx, (h.uart p).rx⟩
  | enableEie => exact h.setUart ⟨(h.uart c.rx).tx, (h.uart c.rx).rx⟩
  | setRxIsr => exact h.setUart ⟨(h.uart c.rx).tx, (h.uart c.rx).rx⟩
  | enableRxneie => exact h.setUart ⟨(h.uart c.rx).tx, (h.uart c.rx).rx⟩
  | enableTxeie => exact h.setUart ⟨(h.uart c.tx).tx, (h.uart c.tx).rx⟩

theorem InBounds.step (h : s.InBounds) (hphase : s.Phase) (hphase' : s'.Phase) {m : Move}
    (hs : step s m = some s') : s'.InBounds := by
  by_cases hcall' : s'.call = none
  -- a call has returned, or none was in progress
  · exact ⟨fun c hc => by simp [hcall'] at hc, fun p => (hphase'.quiet hcall' p).inBounds _⟩
  · cases m with
    | call c =>
        obtain ⟨hcall, hdata, rfl⟩ := callStep_cases hs
        refine ⟨fun d hd => ?_, fun p => (hphase.quiet hcall p).inBounds _⟩
        rw [← Option.some.inj hd]
        exact hdata
    | task answer =>
        obtain ⟨c, hcall, ⟨op, ops, hops, rfl⟩ | ⟨hops, rfl⟩⟩ := taskStep_cases hs
        · exact InBounds.opStep (s := { s with ops := ops }) ⟨h.data, h.uart⟩ hcall hcall'
        · exact absurd rfl hcall'
    | irq p =>
        cases hs
        have hnext := h.setUart (p := p) (h.uart p).irqHandler
        exact ⟨hnext.data, hnext.uart⟩
    | load p =>
        obtain ⟨b, -, -, rfl⟩ := loadStep_cases hs
        exact h.setUart ⟨(h.uart p).tx, (h.uart p).rx⟩
    | arrive p =>
        have hs' : arriveStep p s = some s' := hs
        unfold arriveStep at hs'
        split at hs'
        · cases hs'
        · rename_i b hshift
          cases hs'
          have hself : (s.setUart p { s.uart p with
              shift := none, TC := (s.uart p).TC || (s.uart p).TDR.isNone }).InBounds :=
            h.setUart ⟨(h.uart p).tx, (h.uart p).rx⟩
          exact hself.setUart ((hself.uart p.other).receive b)
    | noise p b e =>
        cases hs
        exact h.setUart ((h.uart p).receiveNoise b e)

/-! ### Every run -/

theorem init_quiet (p : UartPort) : (init.uart p).Quiet :=
  ⟨⟨⟨rfl, rfl, rfl, rfl⟩, rfl, rfl, rfl⟩, by simp [init], by simp [init], rfl, rfl⟩

/-- On a line that carries every byte, a call of the helper that returned `APP_UART_TEST_OK` has
received what was sent.  The interrupt handlers never leave the buffers of the call that is in
progress, and between two calls they do nothing, nor is anything on the line. -/
theorem transfers_intact {ls : List Move} (h : Run step init ls s)
    (hline : Meets step FaithfulLine init ls) :
    s.Intact ∧ s.InBounds ∧
      (s.call = none → ∀ p, irqStep p s = s ∧ loadStep p s = none ∧ arriveStep p s = none) := by
  have hinit : init.Intact ∧ init.Phase ∧ init.InBounds :=
    ⟨by simp [Intact, init], .idle rfl rfl init_quiet, nofun, fun p => (init_quiet p).inBounds _⟩
  have hall : s.Intact ∧ s.Phase ∧ s.InBounds := by
    refine h.invariant (I := fun s => s.Intact ∧ s.Phase ∧ s.InBounds) ?_ hline hinit
    rintro s m s' ⟨hintact, hphase, hbounds⟩ hfaithful hs
    obtain ⟨hintact', hphase'⟩ := hphase.step hintact hfaithful hs
    exact ⟨hintact', hphase', hbounds.step hphase hphase' hs⟩
  obtain ⟨hintact, hphase, hbounds⟩ := hall
  refine ⟨hintact, hbounds, fun hcall p => ?_⟩
  have hstill := (hphase.quiet hcall p).toStill
  refine ⟨irqStep_still hstill, ?_, ?_⟩
  · simp [loadStep, hstill.TDR]
  · simp [arriveStep, hstill.shift]

/-- The interrupt of `UART5` is late, a byte is lost, and the call fails; something is heard on the
line before `UART5` is reset.  The next call succeeds. -/
def lateInterrupt : List Move :=
  let task : Move := .task ⟨false, true, true⟩
  .call ⟨.a, [0x55, 0xAA]⟩ :: List.replicate 12 task ++
    [.irq .a, .load .a, .irq .a, .arrive .a, .load .a, .arrive .a, .irq .b] ++
    List.replicate 2 task ++ [.noise .b 3 ⟨true, false, false⟩] ++ List.replicate 16 task ++
    .call ⟨.b, [7]⟩ :: List.replicate 12 task ++
    [.irq .b, .load .b, .arrive .b, .irq .a, .irq .b, .irq .b] ++ List.replicate 2 task

set_option maxRecDepth 4000 in
theorem transfers_intact_late : ∃ s, Run step init lateInterrupt s ∧
    s.delivered = [(⟨.b, [7]⟩, [7])] ∧ s.Intact ∧ s.InBounds ∧
      (s.call = none → ∀ p, irqStep p s = s ∧ loadStep p s = none ∧ arriveStep p s = none) := by
  have hrun : Run step init lateInterrupt _ := Run.of_exec rfl
  exact ⟨_, hrun, rfl, transfers_intact hrun (by decide)⟩

end UartLink

end PeripheralTester.Firmware
