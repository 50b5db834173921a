import PeripheralTester.Firmware.UartDriver

/-! # The interrupt handler of a UART

What `HAL_UART_IRQHandler` does to a UART that sends, to one that receives, and to one that is
being reset.  `Sending` and `Receiving` account for the bytes of a transfer; the byte that comes
too late is lost, and then the reception ends with an error and never completes. -/

namespace PeripheralTester.Firmware

variable {u : Uart} {d : List UInt8} {b : UInt8}

namespace Uart

/-! ### UARTs that nothing happens to -/

/-- It sends nothing, and no byte is on its way out of it. -/
structure Mute (u : Uart) : Prop where
  TXEIE : u.TXEIE = false
  TCIE : u.TCIE = false
  TDR : u.TDR = none
  shift : u.shift = none

/-- Nor does a byte wait in it. -/
structure Still (u : Uart) : Prop extends Mute u where
  RXNE : u.RXNE = false
  flags : u.flags = .none
  enabled : u.enabled = true

/-- Between two calls. -/
structure Quiet (u : Uart) : Prop extends Still u where
  gState : u.gState ≠ .busyTx
  RxState : u.RxState ≠ .busyRx
  RXNEIE : u.RXNEIE = false
  EIE : u.EIE = false

theorem Still.irqHandler (h : u.Still) : u.irqHandler = (u, []) := by
  simp [Uart.irqHandler, h.TXEIE, h.TCIE, h.RXNE, h.flags]

/-- Without its interrupts a UART does not disturb anybody. -/
theorem irqHandler_disabled (hTXEIE : u.TXEIE = false) (hTCIE : u.TCIE = false)
    (hRXNEIE : u.RXNEIE = false) (hEIE : u.EIE = false) : u.irqHandler = (u, []) := by
  simp [Uart.irqHandler, hTXEIE, hTCIE, hRXNEIE, hEIE]

/-- What an interrupt does not do: it enables no interrupt that was disabled, except that of `TC`
after that of `TXE`, and it does not touch the line. -/
structure Calms (u v : Uart) : Prop where
  enabled : v.enabled = u.enabled
  shift : v.shift = u.shift
  RXNEIE : u.RXNEIE = false → v.RXNEIE = false
  EIE : u.EIE = false → v.EIE = false
  mute : u.TXEIE = false → u.TCIE = false → v.TXEIE = false ∧ v.TCIE = false ∧ v.TDR = u.TDR

theorem Calms.refl (u : Uart) : u.Calms u := ⟨rfl, rfl, id, id, fun h h' => ⟨h, h', rfl⟩⟩

theorem Calms.trans {v w : Uart} (h : u.Calms v) (h' : v.Calms w) : u.Calms w := by
  refine ⟨h'.enabled.trans h.enabled, h'.shift.trans h.shift, fun hu => h'.RXNEIE (h.RXNEIE hu),
    fun hu => h'.EIE (h.EIE hu), fun hTXEIE hTCIE => ?_⟩
  obtain ⟨hTXEIE', hTCIE', hTDR⟩ := h.mute hTXEIE hTCIE
  obtain ⟨hTXEIE'', hTCIE'', hTDR'⟩ := h'.mute hTXEIE' hTCIE'
  exact ⟨hTXEIE'', hTCIE'', hTDR'.trans hTDR⟩

theorem rxIsr8bit_calms (u : Uart) : u.Calms u.rxIsr8bit.1 := by
  unfold rxIsr8bit
  dsimp only
  split
  · split
    · exact ⟨rfl, rfl, fun _ => rfl, fun _ => rfl, fun h h' => ⟨h, h', rfl⟩⟩
    · exact ⟨rfl, rfl, id, id, fun h h' => ⟨h, h', rfl⟩⟩
  · exact ⟨rfl, rfl, id, id, fun h h' => ⟨h, h', rfl⟩⟩

theorem txIsr8bit_calms (h : u.TXEIE = true) : u.Calms u.txIsr8bit := by
  have hmute (hTXEIE : u.TXEIE = false) : False := by simp [h] at hTXEIE
  unfold txIsr8bit
  split
  · split
    · exact ⟨rfl, rfl, id, id, fun hTXEIE => (hmute hTXEIE).elim⟩
    · exact ⟨rfl, rfl, id, id, fun hTXEIE => (hmute hTXEIE).elim⟩
  · exact .refl u

theorem endRxTransfer_calms (u : Uart) : u.Calms u.endRxTransfer :=
  ⟨rfl, rfl, fun _ => rfl, fun _ => rfl, fun h h' => ⟨h, h', rfl⟩⟩

theorem handleErrors_calms (u : Uart) : u.Calms u.handleErrors.1 := by
  have hrecord : u.Calms u.recordErrors := ⟨rfl, rfl, id, id, fun h h' => ⟨h, h', rfl⟩⟩
  have hclear (v : Uart) : v.Calms { v with ErrorCode := .none } :=
    ⟨rfl, rfl, id, id, fun h h' => ⟨h, h', rfl⟩⟩
  unfold handleErrors
  dsimp only
  split
  · split
    · have hread := hrecord.trans (rxIsr8bit_calms u.recordErrors)
      split
      · exact hread.trans (endRxTransfer_calms _)
      · exact hread.trans (hclear _)
    · split
      · exact hrecord.trans (endRxTransfer_calms _)
      · exact hrecord.trans (hclear _)
  · exact hrecord

theorem irqHandler_calms (u : Uart) : u.Calms u.irqHandler.1 := by
  unfold irqHandler
  split
  · split
    · exact rxIsr8bit_calms u
    · exact .refl u
  · split
    · exact handleErrors_calms u
    · split
      · rename_i hTXE
        split
        · exact txIsr8bit_calms hTXE.2
        · exact .refl u
      · split
        · exact ⟨rfl, rfl, id, id, fun h _ => ⟨h, rfl, rfl⟩⟩
        · exact .refl u

/-- Nor does a byte that arrives. -/
theorem receive_calms (u : Uart) (b : UInt8) : u.Calms (u.receive b) := by
  unfold receive
  split
  · split
    · exact ⟨rfl, rfl, id, id, fun h h' => ⟨h, h', rfl⟩⟩
    · exact ⟨rfl, rfl, id, id, fun h h' => ⟨h, h', rfl⟩⟩
  · exact .refl u

theorem receiveNoise_calms (u : Uart) (b : UInt8) (e : UartErrors) :
    u.Calms (u.receiveNoise b e) := by
  unfold receiveNoise
  split
  · exact (receive_calms u b).trans ⟨rfl, rfl, id, id, fun h h' => ⟨h, h', rfl⟩⟩
  · exact .refl u

theorem Mute.calms {v : Uart} (h : u.Mute) (hv : u.Calms v) : v.Mute := by
  obtain ⟨hTXEIE, hTCIE, hTDR⟩ := hv.mute h.TXEIE h.TCIE
  exact ⟨hTXEIE, hTCIE, hTDR.trans h.TDR, hv.shift.trans h.shift⟩

/-! ### The sender -/

/-- The bytes that have not arrived yet. -/
def transit (u : Uart) : List UInt8 := u.shift.toList ++ u.TDR.toList ++ u.pTxBuffPtr

structure Sending (u : Uart) (txDone : Bool) : Prop where
  RXNE : u.RXNE = false
  flags : u.flags = .none
  RXNEIE : u.RXNEIE = false
  EIE : u.EIE = false
  RxState : u.RxState ≠ .busyRx
  enabled : u.enabled = true
  sent : u.TC = true → u.TDR = none ∧ u.shift = none
  TCIE : u.TCIE = true → u.pTxBuffPtr = []
  /-- It never reads past the end of the data. -/
  count : u.TxXferCount = u.pTxBuffPtr.length
  busy : txDone = false → u.gState = .busyTx ∧ u.TxISR = true
  done : txDone = true → u.Quiet ∧ u.pTxBuffPtr = []

namespace Sending

variable {txDone : Bool}

/-- An interrupt loads the next byte, or asks for the last one's end, or announces it. -/
theorem irqHandler (h : u.Sending txDone) :
    u.irqHandler.1.transit = u.transit ∧
      (u.irqHandler.2 = [] ∧ u.irqHandler.1.Sending txDone ∨
        u.irqHandler.2 = [.txCplt] ∧ u.irqHandler.1.Sending true) := by
  cases txDone with
  | true =>
      rw [(h.done rfl).1.toStill.irqHandler]
      exact ⟨rfl, .inl ⟨rfl, h⟩⟩
  | false =>
      obtain ⟨hbusy, hisr⟩ := h.busy rfl
      unfold Uart.irqHandler
      rw [if_neg (by simp [h.RXNE]), if_neg (by simp [h.flags])]
      by_cases hempty : u.TDR = none ∧ u.TXEIE = true
      · rw [if_pos hempty, if_pos hisr]
        unfold txIsr8bit
        rw [if_pos hbusy]
        by_cases hcount : u.TxXferCount = 0
        · have hnil : u.pTxBuffPtr = [] :=
            List.length_eq_zero_iff.mp (h.count.symm.trans hcount)
          rw [if_pos hcount]
          exact ⟨rfl, .inl ⟨rfl, { h with TCIE := fun _ => hnil, done := nofun }⟩⟩
        · obtain ⟨b, w, hw⟩ : ∃ b w, u.pTxBuffPtr = b :: w :=
            List.exists_cons_of_length_pos (by rw [← h.count]; omega)
          have hlength : u.TxXferCount = w.length + 1 := by rw [h.count, hw, List.length_cons]
          rw [if_neg hcount]
          refine ⟨by simp [transit, hempty.1, hw], .inl ⟨rfl, ?_⟩⟩
          exact
            { h with
              sent := nofun
              TCIE := fun hTCIE => by
                have hnil := h.TCIE hTCIE
                rw [hw] at hnil
                cases hnil
              count := by simp [hlength, hw]
              done := nofun }
      · rw [if_neg hempty]
        by_cases hend : u.TC = true ∧ u.TCIE = true
        · rw [if_pos hend]
          obtain ⟨hTDR, hshift⟩ := h.sent hend.1
          have hTXEIE : u.TXEIE = false := Bool.eq_false_iff.mpr fun hTXEIE => hempty ⟨hTDR, hTXEIE⟩
          refine ⟨rfl, .inr ⟨rfl, ?_⟩⟩
          exact
            { h with
              TCIE := nofun
              busy := nofun
              done := fun _ => ⟨⟨⟨⟨hTXEIE, rfl, hTDR, hshift⟩, h.RXNE, h.flags, h.enabled⟩,
                by simp [endTransmitIt], h.RxState, h.RXNEIE, h.EIE⟩, h.TCIE hend.2⟩ }
        · rw [if_neg hend]
          exact ⟨rfl, .inl ⟨rfl, h⟩⟩

/-- The next byte starts its way. -/
theorem load (h : u.Sending txDone) (hTDR : u.TDR = some b) :
    { u with TDR := none, shift := some b }.Sending txDone := by
  have hTC : u.TC ≠ true := fun hTC => by
    rw [(h.sent hTC).1] at hTDR
    cases hTDR
  have hbusy : txDone ≠ true := fun hdone => by
    rw [(h.done hdone).1.TDR] at hTDR
    cases hTDR
  exact { h with sent := fun hTC' => absurd hTC' hTC, done := fun hdone => absurd hdone hbusy }

/-- It comes to its end. -/
theorem arrive (h : u.Sending txDone) (hshift : u.shift = some b) :
    { u with shift := none, TC := u.TC || u.TDR.isNone }.Sending txDone := by
  have hTC : u.TC = false := Bool.eq_false_iff.mpr fun hTC => by
    rw [(h.sent hTC).2] at hshift
    cases hshift
  have hbusy : txDone ≠ true := fun hdone => by
    rw [(h.done hdone).1.shift] at hshift
    cases hshift
  exact
    { h with
      sent := fun hTC' => ⟨by simpa [hTC] using hTC', rfl⟩
      done := fun hdone => absurd hdone hbusy }

end Sending

/-! ### The receiver -/

/-- What has arrived and was not read. -/
def unread (u : Uart) : List UInt8 := if u.RXNE then [u.RDR] else []

/-- A reception of `d` is in progress. -/
structure Listening (u : Uart) (d : List UInt8) : Prop where
  RxState : u.RxState = .busyRx
  RxISR : u.RxISR = true
  RXNEIE : u.RXNEIE = true
  EIE : u.EIE = true
  /-- It never stores past the end of the buffer. -/
  count : u.stored.length + u.RxXferCount = d.length
  pos : 0 < u.RxXferCount

/-- How far the reception of `d` is, of which `w` has not arrived. -/
inductive Reception (u : Uart) (d w : List UInt8) : Bool → Prop
  | intact (h : u.Listening d) (hflags : u.flags = .none)
      (hbytes : u.stored ++ u.unread ++ w = d) : Reception u d w false
  /-- A byte came too early, and the handler has not seen it yet. -/
  | lossy (lost : List UInt8) (h : u.Listening d) (hflags : u.flags = ⟨false, false, true⟩)
      (hRXNE : u.RXNE = true) (hlost : lost ≠ []) (hbytes : u.stored ++ u.RDR :: (lost ++ w) = d) :
      Reception u d w false
  | ended (hRxState : u.RxState ≠ .busyRx) (hRXNEIE : u.RXNEIE = false) (hEIE : u.EIE = false) :
      Reception u d w false
  | complete (hquiet : u.Quiet) (hstored : u.stored = d) (hw : w = []) : Reception u d w true

structure Receiving (u : Uart) (d w : List UInt8) (rxDone : Bool) : Prop extends Mute u where
  gState : u.gState ≠ .busyTx
  enabled : u.enabled = true
  reception : u.Reception d w rxDone

namespace Receiving

variable {w : List UInt8} {rxDone : Bool}

/-- The next byte arrives. -/
theorem receive (h : u.Receiving d (b :: w) rxDone) : (u.receive b).Receiving d w rxDone := by
  unfold Uart.receive
  rw [if_pos h.enabled]
  cases h.reception with
  | intact hl hflags hbytes =>
      by_cases hRXNE : u.RXNE = true
      · rw [if_pos hRXNE]
        refine { h with reception := .lossy [b] { hl with } ?_ hRXNE (by simp) ?_ }
        · simp [hflags, UartErrors.none]
        · simpa [unread, hRXNE] using hbytes
      · rw [if_neg hRXNE]
        refine { h with reception := .intact { hl with } hflags ?_ }
        simpa [unread, hRXNE] using hbytes
  | lossy lost hl hflags hRXNE hlost hbytes =>
      rw [if_pos hRXNE]
      refine { h with reception := .lossy (lost ++ [b]) { hl with } ?_ hRXNE (by simp) ?_ }
      · simp [hflags]
      · simpa using hbytes
  | ended hRxState hRXNEIE hEIE =>
      split
      · exact { h with reception := .ended hRxState hRXNEIE hEIE }
      · exact { h with reception := .ended hRxState hRXNEIE hEIE }
  | complete hquiet hstored hw => cases hw

/-- `UART_RxISR_8BIT` reads a byte, which may be the last. -/
theorem rxIsr8bit (h : u.Receiving d w rxDone) (hl : u.Listening d) (hflags : u.flags = .none)
    (hRXNE : u.RXNE = true) (hbytes : u.stored ++ u.unread ++ w = d) :
    u.rxIsr8bit.2 = false ∧ u.rxIsr8bit.1.Receiving d w false ∨
      u.rxIsr8bit.2 = true ∧ u.rxIsr8bit.1.Receiving d w true := by
  have hread : u.stored ++ [u.RDR] ++ w = d := by simpa [unread, hRXNE] using hbytes
  have hcount := hl.count
  have hpos := hl.pos
  unfold Uart.rxIsr8bit
  rw [if_pos hl.RxState]
  by_cases hlast : u.RxXferCount - 1 = 0
  · have hw : w = [] := by
      have hlength := congrArg List.length hread
      rw [List.length_append, List.length_append, List.length_singleton] at hlength
      exact List.length_eq_zero_iff.mp (by omega)
    rw [hw, List.append_nil] at hread
    rw [if_pos hlast]
    refine .inr ⟨rfl, { h with reception := .complete ?_ hread hw }⟩
    exact ⟨⟨{ h.toMute with }, rfl, hflags, h.enabled⟩, h.gState, by simp, rfl, rfl⟩
  · rw [if_neg hlast]
    refine .inl ⟨rfl, { h with reception := .intact { hl with count := ?_, pos := ?_ } hflags ?_ }⟩
    · simp only [List.length_append, List.length_singleton]
      omega
    · exact Nat.pos_of_ne_zero hlast
    · simpa [unread] using hread

/-- The handler finds the overrun, reads the byte before it, and gives up. -/
theorem handleErrors {lost : List UInt8} (h : u.Receiving d w rxDone) (hl : u.Listening d)
    (hflags : u.flags = ⟨false, false, true⟩) (hRXNE : u.RXNE = true) (hlost : lost ≠ [])
    (hbytes : u.stored ++ u.RDR :: (lost ++ w) = d) :
    u.handleErrors.2 = [.error] ∧ u.handleErrors.1.Receiving d w false := by
  -- the lost byte is missing, so this is not the last one
  have hmore : u.RxXferCount - 1 ≠ 0 := by
    have hlength := congrArg List.length hbytes
    have hlostLength := List.length_pos_of_ne_nil hlost
    have hcount := hl.count
    simp only [List.length_append, List.length_cons] at hlength
    omega
  simp [Uart.handleErrors, recordErrors, hflags, hl.EIE, hl.RXNEIE, hl.RxISR, hl.RxState, hRXNE,
    Uart.rxIsr8bit, UartErrors.none, hmore, endRxTransfer]
  exact ⟨{ h.toMute with }, h.gState, h.enabled, .ended (by simp) rfl rfl⟩

/-- Its interrupt reads a byte, completes the reception, or ends it with an error. -/
theorem irqHandler (h : u.Receiving d w rxDone) :
    u.irqHandler.2 = [] ∧ u.irqHandler.1.Receiving d w rxDone ∨
      u.irqHandler.2 = [.rxCplt] ∧ u.irqHandler.1.Receiving d w true ∨
      u.irqHandler.2 = [.error] ∧ u.irqHandler.1.Receiving d w false ∧ rxDone = false := by
  cases h.reception with
  | intact hl hflags hbytes =>
      by_cases hRXNE : u.RXNE = true
      · unfold Uart.irqHandler
        rw [if_pos ⟨hflags, hRXNE, hl.RXNEIE⟩, if_pos hl.RxISR]
        rcases h.rxIsr8bit hl hflags hRXNE hbytes with ⟨hmore, hnext⟩ | ⟨hlast, hnext⟩
        · exact .inl ⟨by simp [hmore], hnext⟩
        · exact .inr (.inl ⟨by simp [hlast], hnext⟩)
      · have hstill : u.Still :=
          ⟨h.toMute, Bool.eq_false_iff.mpr hRXNE, hflags, h.enabled⟩
        rw [hstill.irqHandler]
        exact .inl ⟨rfl, h⟩
  | lossy lost hl hflags hRXNE hlost hbytes =>
      obtain ⟨hcalled, hnext⟩ := h.handleErrors hl hflags hRXNE hlost hbytes
      have hne : u.flags ≠ .none := by simp [hflags, UartErrors.none]
      unfold Uart.irqHandler
      rw [if_neg (fun hc => hne hc.1), if_pos ⟨hne, .inl hl.EIE⟩]
      exact .inr (.inr ⟨hcalled, hnext, rfl⟩)
  | ended hRxState hRXNEIE hEIE =>
      rw [irqHandler_disabled h.TXEIE h.TCIE hRXNEIE hEIE]
      exact .inl ⟨rfl, h⟩
  | complete hquiet hstored hw =>
      rw [hquiet.toStill.irqHandler]
      exact .inl ⟨rfl, h⟩

end Receiving

/-! ### The buffers -/

/-- The handler touches nothing outside the buffers of `call`. -/
structure InBounds (u : Uart) (call : Option UartCall) : Prop where
  tx : u.gState = .busyTx → u.TxXferCount = u.pTxBuffPtr.length ∧
    ∃ c ∈ call, u.pTxBuffPtr <:+ c.data
  rx : u.RxState = .busyRx → 0 < u.RxXferCount ∧
    ∃ c ∈ call, u.stored.length + u.RxXferCount = c.data.length

namespace InBounds

variable {call : Option UartCall}

theorem rxIsr8bit (h : u.InBounds call) : u.rxIsr8bit.1.InBounds call := by
  unfold Uart.rxIsr8bit
  dsimp only
  split
  · obtain ⟨hpos, c, hc, hlength⟩ := h.rx ‹_›
    split
    · exact ⟨h.tx, nofun⟩
    · refine ⟨h.tx, fun _ => ⟨Nat.pos_of_ne_zero ‹_›, c, hc, ?_⟩⟩
      dsimp only
      rw [List.length_append, List.length_singleton]
      omega
  · exact ⟨h.tx, h.rx⟩

theorem txIsr8bit (h : u.InBounds call) : u.txIsr8bit.InBounds call := by
  unfold Uart.txIsr8bit
  split
  · obtain ⟨hcount, c, hc, hsuffix⟩ := h.tx ‹_›
    split
    · exact ⟨h.tx, h.rx⟩
    · refine ⟨fun _ => ⟨?_, c, hc, (List.tail_suffix _).trans hsuffix⟩, h.rx⟩
      rw [List.length_tail, hcount]
  · exact h

theorem handleErrors (h : u.InBounds call) : u.handleErrors.1.InBounds call := by
  have hrecord : u.recordErrors.InBounds call := ⟨h.tx, h.rx⟩
  unfold Uart.handleErrors
  dsimp only
  split
  · split
    · have hread := hrecord.rxIsr8bit
      split
      · exact ⟨hread.tx, nofun⟩
      · exact ⟨hread.tx, hread.rx⟩
    · split
      · exact ⟨h.tx, nofun⟩
      · exact ⟨h.tx, h.rx⟩
  · exact hrecord

theorem irqHandler (h : u.InBounds call) : u.irqHandler.1.InBounds call := by
  unfold Uart.irqHandler
  split
  · split
    · exact h.rxIsr8bit
    · exact h
  · split
    · exact h.handleErrors
    · split
      · split
        · exact h.txIsr8bit
        · exact h
      · split
        · exact ⟨nofun, h.rx⟩
        · exact h

theorem receive (h : u.InBounds call) (b : UInt8) : (u.receive b).InBounds call := by
  unfold Uart.receive
  split
  · split <;> exact ⟨h.tx, h.rx⟩
  · exact h

theorem receiveNoise (h : u.InBounds call) (b : UInt8) (e : UartErrors) :
    (u.receiveNoise b e).InBounds call := by
  unfold Uart.receiveNoise
  split
  · exact ⟨(h.receive b).tx, (h.receive b).rx⟩
  · exact h

end InBounds

theorem Quiet.inBounds (h : u.Quiet) (call : Option UartCall) : u.InBounds call :=
  ⟨fun hbusy => absurd hbusy h.gState, fun hbusy => absurd hbusy h.RxState⟩

end Uart

end PeripheralTester.Firmware
