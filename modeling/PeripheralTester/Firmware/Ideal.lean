import PeripheralTester.Firmware.TransferCalls
import PeripheralTester.Firmware.Verdict

/-! # Tests on ideal hardware

A recording is ideal for a test if nothing fails in it: every call of the HAL succeeds, no error
callback fires, no other task uses the CRC unit, every transfer completes in time and leaves the
data it was to transfer in the buffer of its receiver, and every measurement is in tolerance
(`Backend.Ideal`).  On an ideal recording a test comes to its end with
`APP_PROTOCOL_TEST_SUCCESS`, after exactly the iterations that the command asks for
(`Backend.plays_test`), and every command that has a pattern has an ideal recording
(`Backend.exists_ideal`). -/

namespace PeripheralTester.Firmware

open Lib Handler

/-! ### Slots -/

/-- The callback reports an error. -/
def Callback.isError : Callback → Bool
  | .halUartError _ | .halSpiError _ | .halI2cError _ => true
  | _ => false

/-- No error callback has fired. -/
def Slot.Fine (a : Slot) : Prop := ∀ cb ∈ a.fired, cb.isError = false

/-- No bytes have arrived, and nobody else uses the CRC unit. -/
structure Slot.Still (a : Slot) : Prop where
  writes : a.writes = []
  others : a.others = []

/-- A fine slot sets no error flag. -/
theorem Slot.Fine.signalled {a : Slot} (h : a.Fine) (t : Transfer) :
    signalled t.error (a.fired.map .callback) = false := by
  unfold Firmware.signalled
  rw [List.any_eq_false]
  intro x hx
  obtain ⟨cb, hcb, rfl⟩ := List.mem_map.mp hx
  have hfine := h cb hcb
  cases cb with
  | halUartError | halSpiError | halI2cError => cases hfine
  | halUartTxCplt | halUartRxCplt => cases t <;> simp [Act.sets, Callback.flag, Transfer.error]
  | halSpiTxRxCplt hspi => cases hspi <;> cases t <;> simp [Act.sets, Callback.flag, Transfer.error]
  | halI2cMasterTxCplt hi2c | halI2cMasterRxCplt hi2c | halI2cSlaveTxCplt hi2c
  | halI2cSlaveRxCplt hi2c =>
      cases hi2c <;> cases t <;> simp [Act.sets, Callback.flag, Transfer.error]

theorem Slot.Fine.advance {a : Slot} (h : a.Fine) (t : Transfer) {b : Board}
    (hb : b.flags t.error = false) : (b.advance a).flags t.error = false := by
  rw [flags_advance, hb, h.signalled t]
  rfl

theorem buffers_fire (l : List Callback) (b : Board) :
    (l.foldl Board.fire b).buffers = b.buffers := by
  induction l generalizing b with
  | nil => rfl
  | cons cb l ih => exact ih _

theorem Slot.Still.buffers {a : Slot} (h : a.Still) (b : Board) :
    (b.advance a).buffers = b.buffers := by
  rw [Board.advance, h.writes, List.foldl_nil, buffers_fire]

/-! ### Marks -/

/-- How many transfers, measurements and samples there are in a trace. -/
def marks (w : List Act) : ℕ := w.countP Act.isEvidence

@[simp] theorem marks_nil : marks [] = 0 := rfl

@[simp] theorem marks_append (w w' : List Act) : marks (w ++ w') = marks w + marks w' :=
  List.countP_append

@[simp] theorem marks_cons (x : Act) (w : List Act) :
    marks (x :: w) = marks w + if x.isEvidence then 1 else 0 := List.countP_cons

@[simp] theorem marks_callbacks (l : List Callback) : marks (l.map .callback) = 0 := by
  induction l with
  | nil => rfl
  | cons cb l ih => simpa [Act.isEvidence] using ih

/-! ### The wait loop -/

/-- The recording of a wait loop: rounds in time, until both completion callbacks have fired. -/
inductive Polls (t : Transfer) (startTick : UInt32) : Board → List Slot → Board → Prop
  | done {b : Board} {a : Slot} (ha : a.Fine) (hdone : t.completed (b.advance a).flags = true) :
      Polls t startTick b [a] (b.advance a)
  | round {b b' : Board} {a₁ a₂ a₃ : Slot} {env : List Slot} (h₁ : a₁.Fine) (h₂ : a₂.Fine)
      (h₃ : a₃.Fine) (hwait : t.completed (b.advance a₁).flags = false)
      (htime : timedOut startTick a₃.count = false)
      (hrest : Polls t startTick (((b.advance a₁).advance a₂).advance a₃) env b') :
      Polls t startTick b (a₁ :: a₂ :: a₃ :: env) b'

/-- The loop ends with `done`: the error flag stays down. -/
theorem Polls.plays {t : Transfer} {startTick : UInt32} {b b' : Board} {env : List Slot}
    (h : Polls t startTick b env b') (hb : b.flags t.error = false) :
    ∃ w, Replay.Plays (waitLoop t startTick : Handler Poll) b env .done b' w ∧ marks w = 0 := by
  induction h with
  | @done b a ha hdone =>
      refine ⟨a.fired.map .callback, fun rest => ?_, marks_callbacks _⟩
      rw [List.singleton_append, waitLoop.eq_def]
      exact if_pos hdone
  | @round b b' a₁ a₂ a₃ env h₁ h₂ h₃ hwait htime _ ih =>
      have hb₁ := h₁.advance t hb
      have hb₂ := h₂.advance t hb₁
      obtain ⟨w, hw, hmarks⟩ := ih (h₃.advance t hb₂)
      refine ⟨a₁.fired.map .callback ++ a₂.fired.map .callback ++ a₃.fired.map .callback ++
        .delay 1 :: w, fun rest => ?_, ?_⟩
      · have hrest : waitLoop t startTick (((b.advance a₁).advance a₂).advance a₃) (env ++ rest) =
            some ⟨.done, b', rest, w⟩ := hw rest
        rw [List.cons_append, List.cons_append, List.cons_append, waitLoop.eq_def]
        simp only [hwait, hb₂, htime, hrest, Bool.false_eq_true, if_false, Option.map_some]
      · simp [hmarks, Act.isEvidence]

/-! ### Parts without trouble -/

/-- A part of a handler that meets fine slots only leaves the error flags down and no marks. -/
structure Smooth {α : Type} (m : Handler α) : Prop where
  rest : ∀ b env o, m b env = some o → ∀ a ∈ o.rest, a ∈ env
  flags : ∀ b env o, m b env = some o → (∀ a ∈ env, a.Fine) →
    ∀ t : Transfer, b.flags t.error = false → o.state.flags t.error = false
  marks : ∀ b env o, m b env = some o → marks o.trace = 0

namespace Smooth

variable {α β : Type} {m : Handler α} {f : α → Handler β}

theorem bind (hm : Smooth m) (hf : ∀ a, Smooth (f a)) : Smooth (m >>= f) where
  rest := by
    intro b env o ho a ha
    obtain ⟨o₁, ho₁, o₂, ho₂, rfl⟩ := Replay.bind_some.mp ho
    exact hm.rest _ _ _ ho₁ a ((hf _).rest _ _ _ ho₂ a ha)
  flags := by
    intro b env o ho henv t hb
    obtain ⟨o₁, ho₁, o₂, ho₂, rfl⟩ := Replay.bind_some.mp ho
    have hrest : ∀ a ∈ o₁.rest, a.Fine := fun a ha => henv a (hm.rest _ _ _ ho₁ a ha)
    exact (hf _).flags _ _ _ ho₂ hrest t (hm.flags _ _ _ ho₁ henv t hb)
  marks := by
    intro b env o ho
    obtain ⟨o₁, ho₁, o₂, ho₂, rfl⟩ := Replay.bind_some.mp ho
    rw [marks_append, hm.marks _ _ _ ho₁, (hf _).marks _ _ _ ho₂]

/-- A part that meets no slots. -/
theorem of_eq {a : α} {g : Board → Board} {w : List Act}
    (hm : ∀ b env, m b env = some ⟨a, g b, env, w⟩)
    (hg : ∀ (b : Board) (t : Transfer), b.flags t.error = false → (g b).flags t.error = false)
    (hw : Firmware.marks w = 0) : Smooth m where
  rest := by
    intro b env o ho
    obtain rfl := Option.some.inj ((hm b env).symm.trans ho)
    exact fun _ => id
  flags := by
    intro b env o ho _ t hb
    obtain rfl := Option.some.inj ((hm b env).symm.trans ho)
    exact hg b t hb
  marks := by
    intro b env o ho
    obtain rfl := Option.some.inj ((hm b env).symm.trans ho)
    exact hw

theorem pure (a : α) : Smooth (Pure.pure a : Handler α) :=
  of_eq (fun _ _ => rfl) (fun _ _ => id) rfl

theorem ite {c : Prop} [Decidable c] {m' : Handler α} (hm : Smooth m) (hm' : Smooth m') :
    Smooth (if c then m else m') := by
  split
  · exact hm
  · exact hm'

/-- A change that raises no error flag. -/
theorem modify {g : Board → Board}
    (hg : ∀ (b : Board) (t : Transfer), b.flags t.error = false → (g b).flags t.error = false) :
    Smooth (Replay.modify g : Handler Unit) := of_eq (fun _ _ => rfl) hg rfl

theorem act {x : Act} (hx : x.isEvidence = false) : Smooth (Handler.act x) :=
  of_eq (fun _ _ => rfl) (fun _ _ => id) (by simp [hx])

theorem pause : Smooth Handler.pause where
  rest := by
    intro b env o ho
    cases env with
    | nil => cases ho
    | cons a env =>
        obtain rfl := Option.some.inj ho
        exact fun _ => List.mem_cons_of_mem a
  flags := by
    intro b env o ho henv t hb
    cases env with
    | nil => cases ho
    | cons a env =>
        obtain rfl := Option.some.inj ho
        exact (henv a List.mem_cons_self).advance t hb
  marks := by
    intro b env o ho
    cases env with
    | nil => cases ho
    | cons a env =>
        obtain rfl := Option.some.inj ho
        simp

theorem vTaskDelay (ms : ℕ) : Smooth (Handler.vTaskDelay ms) :=
  (act rfl).bind fun _ => pause.bind fun _ => pure ()

theorem halGetTick : Smooth Handler.halGetTick := pause.bind fun a => pure a.count

theorem halStart (op : Operation) : Smooth (Handler.halStart op) := by
  apply pause.bind
  intro a
  apply (act rfl).bind
  intro _
  refine (modify fun b t hb => ?_).bind fun _ => pure a.ok
  split
  · split <;> exact hb
  · exact hb

theorem halStop {x : Handle → Act} {h : Handle} (hx : (x h).isEvidence = false) :
    Smooth (Handler.halStop x h) :=
  pause.bind fun _ => (act hx).bind fun _ => modify fun _ _ hb => hb

theorem clearFlags (l : List Flag) : Smooth (Handler.clearFlags l) :=
  modify fun b t hb => by simp [Flags.clear, hb]

theorem memset (buffer : Buffer) (value : UInt8) (length : ℕ) :
    Smooth (Handler.memset buffer value length) := modify fun _ _ hb => hb

end Smooth

theorem Prepares.smooth {m : Handler Unit} (h : Prepares m) : Smooth m := by
  induction h with
  | pure => exact .pure ()
  | delay ms => exact .vTaskDelay ms
  | memset buffer value length => exact .memset buffer value length
  | after _ _ ih ih' => exact ih.bind fun _ => ih'

theorem Resets.smooth {m : Handler Unit} (h : Resets m) : Smooth m := by
  induction h with
  | pure => exact .pure ()
  | abort h | deInit h => exact .halStop rfl
  | init h => exact Smooth.pause.bind fun _ => .act rfl
  | delay ms => exact .vTaskDelay ms
  | clear l => exact Smooth.pause.bind fun _ => .clearFlags l
  | after _ _ ih ih' => exact ih.bind fun _ => ih'

/-! ### Transfers -/

/-- A transfer helper up to its wait loop. -/
def Helper.starting (x : Helper) : Handler (Except (Option String) UInt32) := do
  x.before
  clearFlags x.transfer.cleared
  x.prepare
  x.startUp

/-- The recording of a transfer that is delivered: both starts succeed, both operations complete in
time, and then the buffer of the receiver begins with the data. -/
inductive Helper.Delivers (x : Helper) (data : List UInt8) (rxData : Buffer) (length : UInt8)
    (b : Board) : List Slot → Board → Prop
  | mk {start polls : List Slot} {startTick : UInt32} {b₁ b' : Board} {w : List Act}
      (hfine : ∀ a ∈ start, a.Fine) (hstart : x.starting.Plays b start (.ok startTick) b₁ w)
      (hpolls : Polls x.transfer startTick b₁ polls b')
      (hintact : (b'.buffers rxData).toList.take length.toNat = data.take length.toNat) :
      Delivers x data rxData length b (start ++ polls) b'

/-- The parts of a helper that are its own cause no trouble. -/
structure Helper.Easy (x : Helper) : Prop where
  before : Smooth x.before
  prepare : Smooth x.prepare
  between : Smooth x.between

section

variable {x : Helper} {b b' : Board} {env : List Slot}

theorem Helper.smooth_startUp (hx : x.Easy) : Smooth x.startUp := by
  apply (Smooth.halStart x.first).bind
  intro started
  refine .ite (hx.between.bind fun _ => ?_) (.pure _)
  apply (Smooth.halStart x.second).bind
  intro started
  exact .ite (Smooth.halGetTick.bind fun startTick => .pure _) (.pure _)

theorem Helper.smooth_starting (hx : x.Easy) : Smooth x.starting :=
  hx.before.bind fun _ => (Smooth.clearFlags _).bind fun _ => hx.prepare.bind fun _ =>
    x.smooth_startUp hx

/-- The helper has cleared its error flag, and it stays down. -/
theorem Helper.starting_error (hx : x.Easy)
    {o : Outcome Board Slot Act (Except (Option String) UInt32)}
    (ho : x.starting b env = some o) (henv : ∀ a ∈ env, a.Fine) :
    o.state.flags x.transfer.error = false := by
  obtain ⟨o₁, ho₁, o', ho', rfl⟩ := Replay.bind_some.mp ho
  obtain ⟨o₂, ho₂, o₃, ho₃, rfl⟩ := Replay.bind_some.mp ho'
  obtain rfl := Option.some.inj ho₂
  have hrest : ∀ a ∈ o₁.rest, a.Fine := fun a ha => henv a (hx.before.rest _ _ _ ho₁ a ha)
  have hcleared : (o₁.state.flags.clear x.transfer.cleared) x.transfer.error = false := by
    simp [Flags.clear, Transfer.cleared]
  exact (hx.prepare.bind fun _ => x.smooth_startUp hx).flags _ _ _ ho₃ hrest _ hcleared

theorem Helper.run_eq_starting (x : Helper) {length : UInt8} (h : length ≠ 0) :
    x.run length = (x.starting >>= fun how =>
      match how with
      | .ok startTick => x.finish startTick
      | .error line => x.fail line) := by
  rw [x.run_eq h, Helper.starting, bind_assoc]
  refine congrArg _ (funext fun _ => ?_)
  rw [bind_assoc]
  refine congrArg _ (funext fun _ => ?_)
  exact (bind_assoc _ _ _).symm

/-- A transfer that is delivered makes its helper return OK. -/
theorem Helper.plays_run (hx : x.Easy) {data : List UInt8} {rxData : Buffer} {length : UInt8}
    (hlength : length ≠ 0) (h : x.Delivers data rxData length b env b') :
    ∃ w, (x.run length).Plays b env true b' w ∧ marks w = 1 := by
  cases h with
  | @mk start polls startTick b₁ _ w hfine hstart hpolls _ =>
      have herror := x.starting_error hx hstart.some hfine
      have hmarks := (x.smooth_starting hx).marks _ _ _ hstart.some
      obtain ⟨w', hw', hmarks'⟩ := hpolls.plays herror
      have hend : Replay.Plays (do
          act (.completed x.transfer)
          pure true : Handler Bool) b' [] true b' [.completed x.transfer] := fun _ => rfl
      have hfinish : (x.finish startTick).Plays b₁ polls true b' (w' ++ [.completed x.transfer]) :=
        hw'.ends hend
      refine ⟨w ++ (w' ++ [.completed x.transfer]), ?_, ?_⟩
      · rw [x.run_eq_starting hlength]
        exact hstart.bind hfinish
      · simp [hmarks, hmarks', Act.isEvidence]

theorem Helper.Delivers.intact {data : List UInt8} {rxData : Buffer} {length : UInt8}
    (h : x.Delivers data rxData length b env b') :
    (b'.buffers rxData).toList.take length.toNat = data.take length.toNat := by
  cases h with
  | mk _ _ _ hintact => exact hintact

end

/-- All ten helpers. -/
theorem TransferCall.helper_easy (txData : List UInt8) (rxData : Buffer) (length : UInt8)
    (c : TransferCall) : (c.helper txData rxData length).val.Easy :=
  have hplain := c.helper_plain txData rxData length
  ⟨hplain.before.smooth, hplain.prepare.smooth, hplain.between.smooth⟩

/-! ### Comparisons -/

/-- The board after a comparison. -/
def Board.compare (b : Board) (c : Comparison) (a : Slot) : Board :=
  { b.advance a with
    crc := ((appDataCompare c).execAmong crcUnit a.others (b.advance a).crc).2 }

/-- Two buffers that begin alike are found equal. -/
theorem appDataCompare_of_take {expected actual : List UInt8} {length : UInt8} (h : length ≠ 0)
    (heq : actual.take length.toNat = expected.take length.toNat) (crc : UInt32) :
    (appDataCompare ⟨some expected, some actual, length⟩).run crcUnit crc = appDataCompareOk := by
  rw [appDataCompare_congr heq]
  exact appDataCompare_self h crc

theorem plays_compare {expected actual : List UInt8} {length : UInt8} (hlength : length ≠ 0)
    (heq : actual.take length.toNat = expected.take length.toNat) {a : Slot} (ha : a.Still)
    (b : Board) :
    ∃ w, (compare expected actual length).Plays b [a] true
      (b.compare ⟨some expected, some actual, length⟩ a) w ∧ marks w = 0 := by
  have hresult : ((appDataCompare ⟨some expected, some actual, length⟩).execAmong crcUnit a.others
      (b.advance a).crc).1 = appDataCompareOk := by
    rw [ha.others, Prog.execAmong_nil]
    exact appDataCompare_of_take hlength heq _
  refine ⟨a.fired.map .callback ++
    [.compared ⟨some expected, some actual, length⟩ appDataCompareOk], fun rest => ?_, ?_⟩
  · have hplays : compare expected actual length b (a :: rest) = some
        ⟨((appDataCompare ⟨some expected, some actual, length⟩).execAmong crcUnit a.others
            (b.advance a).crc).1 = appDataCompareOk,
          b.compare ⟨some expected, some actual, length⟩ a, rest,
          a.fired.map .callback ++ [.compared ⟨some expected, some actual, length⟩
            ((appDataCompare ⟨some expected, some actual, length⟩).execAmong crcUnit a.others
              (b.advance a).crc).1]⟩ := by
      show some _ = some _
      simp [Board.compare]
    rw [List.singleton_append, hplays, hresult]
    rfl
  · simp [Act.isEvidence]

/-! ### Buses -/

/-- What a backend of a bus has of its own: what it does before its loop, before each iteration and
between the two halves, and its transfers and their receive buffers. -/
structure Loopback where
  start : Handler Unit
  prepare : Handler Unit
  between : Handler Unit
  forth : TransferCall
  back : TransferCall
  received : Buffer
  returned : Buffer

/-- A backend with these parts, whatever it logs. -/
def Loopback.test (x : Loopback) (failed : Fin 4 → String) (name : String) : BusTest where
  prepare := x.prepare
  between := x.between
  forth data buffer length := x.forth.run data buffer length
  back data buffer length := x.back.run data buffer length
  received := x.received
  returned := x.returned
  failed := failed
  name := name

/-- The parts that are not transfers cause no trouble. -/
structure Loopback.Easy (x : Loopback) : Prop where
  start : Smooth x.start
  prepare : Smooth x.prepare
  between : Smooth x.between
  intact : ∀ b env o, x.between b env = some o → (∀ a ∈ env, a.Still) →
    o.state.buffers = b.buffers

/-- The recording of an iteration: both transfers are delivered, and nothing happens to the data
between a transfer and the use that is made of it. -/
inductive Loopback.Ideal (x : Loopback) (c : Command) : Board → List Slot → Board → Prop
  | mk {g g₁ g₂ g₃ g₄ : Board} {before forth between back : List Slot} {a a' : Slot}
      {w w' : List Act}
      (hbefore : x.prepare.Plays g before () g₁ w)
      (hforth : (x.forth.helper c.pattern.toList x.received c.patternLen).val.Delivers
        c.pattern.toList x.received c.patternLen g₁ forth g₂)
      (ha : a.Still)
      (hbetween : x.between.Plays
        (g₂.compare ⟨some c.pattern.toList, some (g₂.buffers x.received).toList, c.patternLen⟩ a)
        between () g₃ w')
      (hstill : ∀ a ∈ between, a.Still)
      (hback : (x.back.helper (g₃.buffers x.received).toList x.returned c.patternLen).val.Delivers
        (g₃.buffers x.received).toList x.returned c.patternLen g₃ back g₄)
      (ha' : a'.Still) :
      Loopback.Ideal x c g (before ++ (forth ++ ([a] ++ (between ++ (back ++ [a'])))))
        (g₄.compare ⟨some c.pattern.toList, some (g₄.buffers x.returned).toList, c.patternLen⟩ a')

theorem plays_bytes (b : Board) (buffer : Buffer) :
    (bytes buffer).Plays b [] (b.buffers buffer).toList b [] := fun _ => rfl

/-- An ideal iteration passes. -/
theorem Loopback.plays_iteration {x : Loopback} (hx : x.Easy) {c : Command}
    (hlength : c.patternLen ≠ 0) {failed : Fin 4 → String} {name : String} {i : ℕ} {g g' : Board}
    {env : List Slot} (h : x.Ideal c g env g') :
    ∃ w, ((x.test failed name).iteration c i).Plays g env true g' w ∧ marks w = 2 := by
  cases h with
  | @mk g₁ g₂ g₃ g₄ before forth between back a a' w w' hbefore hforth ha hbetween hstill hback
      ha' =>
      have hsent : ((x.forth.run c.pattern.toList x.received c.patternLen) : Handler Bool) =
          (x.forth.helper c.pattern.toList x.received c.patternLen).val.run c.patternLen :=
        (x.forth.helper _ _ _).property
      have hreturned :
          ((x.back.run (g₃.buffers x.received).toList x.returned c.patternLen) : Handler Bool) =
            (x.back.helper (g₃.buffers x.received).toList x.returned c.patternLen).val.run
              c.patternLen := (x.back.helper _ _ _).property
      obtain ⟨w₁, hw₁, hmarks₁⟩ := Helper.plays_run (x.forth.helper_easy _ _ _) hlength hforth
      obtain ⟨w₂, hw₂, hmarks₂⟩ := plays_compare hlength hforth.intact ha g₂
      obtain ⟨w₃, hw₃, hmarks₃⟩ := Helper.plays_run (x.back.helper_easy _ _ _) hlength hback
      -- what is sent back is what was received
      have hkept : g₃.buffers x.received = g₂.buffers x.received := by
        have hbuffers := hx.intact _ _ _ hbetween.some hstill
        rw [show g₃.buffers = _ from hbuffers]
        exact congrFun (ha.buffers g₂) _
      have hintact : ((g₄.buffers x.returned).toList).take c.patternLen.toNat =
          c.pattern.toList.take c.patternLen.toNat := by
        rw [hback.intact, hkept, hforth.intact]
      obtain ⟨w₄, hw₄, hmarks₄⟩ := plays_compare hlength hintact ha' g₄
      rw [← hsent] at hw₁
      rw [← hreturned] at hw₃
      refine ⟨w ++ (w₁ ++ ([] ++ (w₂ ++ (w' ++ ([] ++ (w₃ ++ ([] ++ (w₄ ++ [])))))))), ?_, ?_⟩
      · refine hbefore.bind (hw₁.passed ((plays_bytes g₂ x.received).after ?_))
        refine Replay.Plays.passed hw₂ (hbetween.bind ?_)
        refine (plays_bytes g₃ x.received).after (hw₃.passed ?_)
        refine (plays_bytes g₄ x.returned).after ?_
        exact Replay.Plays.passed hw₄ (Replay.plays_pure _ true)
      · have hw := hx.prepare.marks _ _ _ hbefore.some
        have hw' := hx.between.marks _ _ _ hbetween.some
        simp [hw, hw', hmarks₁, hmarks₂, hmarks₃, hmarks₄]

/-- The backends of the buses. -/
def Backend.loopback : Backend → Option Loopback
  | .timer | .adc => none
  | .uartIt => some
      { start := pure ()
        prepare := pure ()
        between := vTaskDelay 1
        forth := .appUartTestTransferIt .huart4 .huart5
        back := .appUartTestTransferIt .huart5 .huart4
        received := .appUartBRx
        returned := .appUartARx }
  | .uartDma => some
      { start := pure ()
        prepare := do
          memset .appUartARx 0 appProtocolMaxPatternLen
          memset .appUartBRx 0 appProtocolMaxPatternLen
        between := pure ()
        forth := .appUartTestTransferDma .huart4 .huart5
        back := .appUartTestTransferDma .huart5 .huart4
        received := .appUartBRx
        returned := .appUartARx }
  | .spiIt => some
      { start := pure ()
        prepare := pure ()
        between := pure ()
        forth := .appSpiTestMasterToSlaveIt .hspi1 .hspi2
        back := .appSpiTestSlaveToMasterIt .hspi1 .hspi2
        received := .appSpiSlaveRx
        returned := .appSpiMasterRx }
  | .spiDma => some
      { start := pure ()
        prepare := pure ()
        between := pure ()
        forth := .appSpiTestMasterToSlaveDma .hspi1 .hspi2
        back := .appSpiTestSlaveToMasterDma .hspi1 .hspi2
        received := .appSpiSlaveRx
        returned := .appSpiMasterRx }
  | .i2cIt => some
      { start := pure ()
        prepare := pure ()
        between := pure ()
        forth := .appI2cTestMasterToSlaveIt .hi2c1 .hi2c2
        back := .appI2cTestSlaveToMasterIt .hi2c1 .hi2c2
        received := .appI2cSlaveRx
        returned := .appI2cMasterRx }
  | .i2cDma => some
      { start := vTaskDelay 2
        prepare := pure ()
        between := pure ()
        forth := .appI2cTestMasterToSlaveDma .hi2c1 .hi2c2
        back := .appI2cTestSlaveToMasterDma .hi2c1 .hi2c2
        received := .appI2cSlaveRx
        returned := .appI2cMasterRx }

/-- The parts of a backend that are not transfers. -/
structure Loopback.Plain (x : Loopback) : Prop where
  start : Prepares x.start
  prepare : Prepares x.prepare
  between : Prepares x.between

theorem Backend.loopback_plain {b : Backend} {x : Loopback} (h : b.loopback = some x) :
    x.Plain := by
  cases b with
  | timer | adc => cases h
  | uartIt =>
      obtain rfl := Option.some.inj h
      exact ⟨.pure, .pure, .delay 1⟩
  | uartDma =>
      obtain rfl := Option.some.inj h
      exact ⟨.pure, .after (.memset _ _ _) (.memset _ _ _), .pure⟩
  | spiIt | spiDma | i2cIt =>
      obtain rfl := Option.some.inj h
      exact ⟨.pure, .pure, .pure⟩
  | i2cDma =>
      obtain rfl := Option.some.inj h
      exact ⟨.delay 2, .pure, .pure⟩

/-- A delay leaves the buffers as they are if no bytes arrive. -/
theorem vTaskDelay_buffers {ms : ℕ} {g : Board} {env : List Slot}
    {o : Outcome Board Slot Act Unit} (ho : vTaskDelay ms g env = some o)
    (henv : ∀ a ∈ env, a.Still) : o.state.buffers = g.buffers := by
  cases env with
  | nil => cases ho
  | cons a env =>
      obtain rfl := Option.some.inj ho
      exact (henv a List.mem_cons_self).buffers g

theorem Backend.loopback_easy {b : Backend} {x : Loopback} (h : b.loopback = some x) :
    x.Easy := by
  have hplain := b.loopback_plain h
  refine ⟨hplain.start.smooth, hplain.prepare.smooth, hplain.between.smooth, ?_⟩
  intro g env o ho henv
  cases b with
  | timer | adc => cases h
  | uartIt =>
      obtain rfl := Option.some.inj h
      exact vTaskDelay_buffers ho henv
  | uartDma | spiIt | spiDma | i2cIt | i2cDma =>
      obtain rfl := Option.some.inj h
      rw [Replay.pure_some.mp ho]

/-- With a pattern, the test of a bus is its start and its loop. -/
theorem Backend.test_eq_loopback {b : Backend} {x : Loopback} (h : b.loopback = some x)
    {c : Command} (hlength : c.patternLen ≠ 0) :
    ∃ failed name, b.test c = (x.start >>= fun _ => (x.test failed name).run c) := by
  have hvalid : uartLengthValid c = true := uartLengthValid_iff.mpr hlength
  cases b with
  | timer | adc => cases h
  | uartIt =>
      obtain rfl := Option.some.inj h
      refine ⟨fun exit => "FAIL " ++ toString (exit.val + 1), "UART", ?_⟩
      simp only [Backend.test, appUartTestRunIt, hvalid, if_true, pure_bind]
      rfl
  | uartDma =>
      obtain rfl := Option.some.inj h
      refine ⟨fun _ => "FAIL", "UART", ?_⟩
      simp only [Backend.test, appUartTestRunDma, hvalid, if_true, pure_bind]
      rfl
  | spiIt | spiDma =>
      obtain rfl := Option.some.inj h
      refine ⟨fun _ => "FAIL", "SPI", ?_⟩
      simp only [pure_bind]
      rfl
  | i2cIt =>
      obtain rfl := Option.some.inj h
      refine ⟨fun _ => "FAIL", "I2C", ?_⟩
      simp only [pure_bind]
      rfl
  | i2cDma =>
      obtain rfl := Option.some.inj h
      exact ⟨fun _ => "FAIL", "I2C", rfl⟩

/-- Without a pattern, a test fails at once or is the same. -/
theorem Backend.test_cases {b : Backend} {x : Loopback} (h : b.loopback = some x) (c : Command) :
    (∃ failed name, b.test c = (x.start >>= fun _ => (x.test failed name).run c)) ∨
      c.patternLen = 0 ∧ b.test c = pure appProtocolTestFail := by
  by_cases hlength : c.patternLen = 0
  · have hinvalid : ¬ uartLengthValid c = true := by
      rw [uartLengthValid_iff]
      exact not_not.mpr hlength
    cases b with
    | timer | adc => cases h
    | uartIt | uartDma => exact .inr ⟨hlength, if_neg hinvalid⟩
    | spiIt | spiDma =>
        obtain rfl := Option.some.inj h
        refine .inl ⟨fun _ => "FAIL", "SPI", ?_⟩
        simp only [pure_bind]
        rfl
    | i2cIt =>
        obtain rfl := Option.some.inj h
        refine .inl ⟨fun _ => "FAIL", "I2C", ?_⟩
        simp only [pure_bind]
        rfl
    | i2cDma =>
        obtain rfl := Option.some.inj h
        exact .inl ⟨fun _ => "FAIL", "I2C", rfl⟩
  · exact .inl (Backend.test_eq_loopback h hlength)

/-! ### Measurements -/

/-- The recording of a timer iteration: the two readings of the counter, on either side of the
delay, are in tolerance. -/
inductive TimerIdeal : Board → List Slot → Board → Prop
  | mk (g : Board) {a₁ a₂ a₃ : Slot} (h : timerInTolerance (a₃.count - a₁.count) = true) :
      TimerIdeal g [a₁, a₂, a₃] (((g.advance a₁).advance a₂).advance a₃)

/-- The recording of a level of the ADC test: no call fails, and the value is in tolerance. -/
inductive AdcIdeal (level : UInt16) : Board → List Slot → Board → Prop
  | mk (g : Board) {set delay start poll value stop : Slot} (hset : set.ok = true)
      (hstart : start.ok = true) (hpoll : poll.ok = true)
      (hvalue : adcInTolerance level value.value = true) :
      AdcIdeal level g [set, delay, start, poll, value, stop]
        (([set, delay, start, poll, value, stop] : List Slot).foldl Board.advance g)

theorem plays_timerIteration {i : ℕ} {g g' : Board} {env : List Slot} (h : TimerIdeal g env g') :
    ∃ w, (timerIteration i).Plays g env true g' w ∧ marks w = 1 := by
  cases h with
  | @mk a₁ a₂ a₃ htolerance =>
      refine ⟨a₁.fired.map .callback ++ (.delay 100 :: a₂.fired.map .callback) ++
        (a₃.fired.map .callback ++ [.measured a₁.count a₃.count]), fun rest => ?_, ?_⟩
      · show some _ = some _
        simp [htolerance]
      · simp [Act.isEvidence]

theorem plays_vTaskDelay (b : Board) (a : Slot) (ms : ℕ) :
    (vTaskDelay ms).Plays b [a] () (b.advance a) (.delay ms :: a.fired.map .callback) := by
  intro rest
  show some _ = some _
  simp

theorem plays_adcCall (g : Board) (x : Bool → Act) {a : Slot} {ok : Bool} (ha : a.ok = ok) :
    (adcCall x).Plays g [a] ok (g.advance a) (a.fired.map .callback ++ [x ok]) := by
  intro rest
  show some _ = some _
  simp [ha]

theorem plays_halAdcStop (g : Board) (a : Slot) :
    halAdcStop.Plays g [a] () (g.advance a) (a.fired.map .callback ++ [.adcStop]) := by
  intro rest
  show some _ = some _
  simp

theorem plays_halAdcGetValue (g : Board) (a : Slot) :
    halAdcGetValue.Plays g [a] a.value (g.advance a) (a.fired.map .callback) := by
  intro rest
  show some _ = some _
  simp

theorem plays_adcLevel {i : ℕ} {level : UInt16} {g g' : Board} {env : List Slot}
    (h : AdcIdeal level g env g') :
    ∃ w, (adcLevel i level).Plays g env true g' w ∧ marks w = 1 := by
  cases h with
  | @mk set delay start poll value stop hset hstart hpoll hvalue =>
      have hend : ∀ b : Board, Replay.Plays (do
          act (.sampled level value.value)
          if adcInTolerance level value.value then pure true
          else failWith (adcFailLine i (adcOutOfTolerance level value.value)) : Handler Bool)
          b [] true b [.sampled level value.value] := by
        intro b
        rw [if_pos hvalue]
        exact fun _ => rfl
      refine ⟨_, (plays_adcCall g _ hset).passed <| (plays_vTaskDelay _ delay 5).bind <|
        (plays_adcCall _ _ hstart).passed <| (plays_adcCall _ _ hpoll).passed <|
        (plays_halAdcGetValue _ value).bind <| (plays_halAdcStop _ stop).bind (hend _), ?_⟩
      simp [Act.isEvidence]

/-! ### Tests -/

/-- The recording of a test in which nothing fails. -/
inductive Backend.Ideal (c : Command) : Backend → Board → List Slot → Prop
  | timer {g g' : Board} {env : List Slot}
      (h : Replay.Series (fun _ : ℕ => TimerIdeal) (List.range c.iterations.toNat) g env g') :
      Backend.Ideal c .timer g env
  | adc {g g' : Board} {start : Slot} {env : List Slot} (hstart : start.ok = true)
      (h : Replay.Series (fun _ : ℕ => Replay.Series AdcIdeal appAdcTestValues)
        (List.range c.iterations.toNat) (g.advance start) env g') :
      Backend.Ideal c .adc g (start :: env)
  | bus {b : Backend} {x : Loopback} (hx : b.loopback = some x) {g g₁ g' : Board}
      {start env : List Slot} {w : List Act} (hstart : x.start.Plays g start () g₁ w)
      (h : Replay.Series (fun _ : ℕ => x.Ideal c) (List.range c.iterations.toNat) g₁ env g') :
      Backend.Ideal c b g (start ++ env)

/-- The transfers, measurements or samples of an iteration. -/
def Backend.marksPerIteration : Backend → ℕ
  | .timer => 1
  | .adc => appAdcTestValues.length
  | _ => 2

/-- A trace of exactly the iterations that the command asks for: each has left its evidence, and
there is no more than that. -/
structure Backend.Performed (b : Backend) (c : Command) (w : List Act) : Prop where
  evidence : ∃ w', Completed (b.Evidence c) c w' ∧ w'.Sublist w
  marks : marks w = c.iterations.toNat * b.marksPerIteration

theorem marks_flatten {ι : Type} {k : ℕ} {l : List ι} {ws : List (List Act)}
    (h : List.Forall₂ (fun _ w => marks w = k) l ws) : marks ws.flatten = l.length * k := by
  induction h with
  | nil => simp
  | cons hw _ ih =>
      rw [List.flatten_cons, marks_append, hw, ih, List.length_cons]
      ring

/-- A loop of ideal iterations passes. -/
theorem plays_iterations {c : Command} (body : ℕ → Handler Bool)
    {P : Board → List Slot → Board → Prop} {k : ℕ}
    (h : ∀ i g env g', P g env g' → ∃ w, (body i).Plays g env true g' w ∧ marks w = k)
    {g g' : Board} {env : List Slot}
    (hs : Replay.Series (fun _ : ℕ => P) (List.range c.iterations.toNat) g env g') :
    ∃ w, (iterations c body).Plays g env true g' w ∧ marks w = c.iterations.toNat * k := by
  obtain ⟨ws, hws, hmarks⟩ := Replay.Series.plays h hs
  refine ⟨ws.flatten, hws, ?_⟩
  rw [marks_flatten hmarks, List.length_range]

theorem plays_adcIteration {i : ℕ} {g g' : Board} {env : List Slot}
    (h : Replay.Series AdcIdeal appAdcTestValues g env g') :
    ∃ w, (adcIteration i).Plays g env true g' w ∧ marks w = appAdcTestValues.length := by
  have hlevel : ∀ level g env g', AdcIdeal level g env g' →
      ∃ w, (adcLevel i level).Plays g env true g' w ∧ marks w = 1 := fun _ _ _ _ => plays_adcLevel
  obtain ⟨ws, hws, hmarks⟩ := Replay.Series.plays hlevel h
  exact ⟨ws.flatten, hws, (marks_flatten hmarks).trans (Nat.mul_one _)⟩

/-- **On an ideal recording a test passes**, after exactly the iterations its command asks for. -/
theorem Backend.plays_test {b : Backend} {c : Command}
    (hlength : b.loopback.isSome → c.patternLen ≠ 0) {g : Board} {env : List Slot}
    (h : b.Ideal c g env) :
    ∃ g' w, (b.test c).Plays g env appProtocolTestSuccess g' w ∧ b.Performed c w := by
  have hplays : ∃ g' w, (b.test c).Plays g env appProtocolTestSuccess g' w ∧
      marks w = c.iterations.toNat * b.marksPerIteration := by
    cases h with
    | @timer _ g' _ h =>
        obtain ⟨w, hw, hmarks⟩ :=
          plays_iterations timerIteration (fun _ _ _ _ => plays_timerIteration) h
        refine ⟨g', w ++ [], hw.ends fun _ => rfl, ?_⟩
        rw [List.append_nil, hmarks]
        rfl
    | @adc _ g' start env hstart h =>
        obtain ⟨w, hw, hmarks⟩ :=
          plays_iterations adcIteration (fun _ _ _ _ => plays_adcIteration) h
        refine ⟨g', _, (plays_adcCall g _ hstart).passed (hw.ends fun _ => rfl), ?_⟩
        simpa [Act.isEvidence, Backend.marksPerIteration] using hmarks
    | @bus _ x hx _ g₁ g' start env w hstart h =>
        have heasy := Backend.loopback_easy hx
        have hpattern := hlength (Option.isSome_iff_exists.mpr ⟨x, hx⟩)
        obtain ⟨failed, name, htest⟩ := Backend.test_eq_loopback hx hpattern
        obtain ⟨w', hw', hmarks⟩ :=
          plays_iterations ((x.test failed name).iteration c)
            (fun _ _ _ _ => Loopback.plays_iteration heasy hpattern) h
        refine ⟨g', w ++ (w' ++ []), ?_, ?_⟩
        · rw [htest]
          exact hstart.bind (hw'.ends fun _ => rfl)
        · have hbus : b.marksPerIteration = 2 := by
            cases b with
            | timer | adc => cases hx
            | uartIt | uartDma | spiIt | spiDma | i2cIt | i2cDma => rfl
          have hquiet := heasy.start.marks _ _ _ hstart.some
          simpa [hquiet, hbus] using hmarks
  obtain ⟨g', w, hw, hmarks⟩ := hplays
  exact ⟨g', w, hw, (b.judges c).passed.post _ _ _ hw.some rfl, hmarks⟩

/-! ### Ideal recordings -/

/-- What was written stands at the start of the buffer. -/
theorem overwrite_take (v : Bytes) {data : List UInt8} {n : ℕ} (hn : n ≤ data.length)
    (hmax : n ≤ appProtocolMaxPatternLen) :
    (v.overwrite (data.take n)).toList.take n = data.take n := by
  apply List.ext_getElem
  · simp [hn, hmax]
  · intro i hi hi'
    have hlt : i < (data.take n).length := hi'
    simp only [Bytes.overwrite, List.getElem_take, Vector.getElem_toList, Vector.getElem_ofFn]
    rw [List.getD_eq_getElem?_getD, List.getElem?_eq_getElem hlt, Option.getD_some,
      List.getElem_take]

/-- The receptions under way after a call that starts a transfer. -/
def Operation.receive (op : Operation) (r : Handle → Option (Buffer × ℕ)) :
    Handle → Option (Buffer × ℕ) :=
  match op.rx with
  | some buffer => Function.update r op.handle (some (buffer, op.length))
  | none => r

theorem plays_halStart (op : Operation) (b : Board) :
    ∃ w, (halStart op).Plays b [quietSlot 0] true { b with receiving := op.receive b.receiving }
      w := by
  refine ⟨[.start op true], fun rest => ?_⟩
  show some _ = some _
  unfold Operation.receive
  cases op.rx <;> rfl

/-- Some quiet slots. -/
def quiet (n : ℕ) : List Slot := List.replicate n (quietSlot 0)

theorem fine_of_quiet {n : ℕ} {a : Slot} (h : a ∈ quiet n) : a.Fine := by
  rw [List.eq_of_mem_replicate h]
  exact fun _ hcb => by cases hcb

theorem still_of_quiet {n : ℕ} {a : Slot} (h : a ∈ quiet n) : a.Still := by
  rw [List.eq_of_mem_replicate h]
  exact ⟨rfl, rfl⟩

/-- The part comes to its end on some quiet slots. -/
def Runs (m : Handler Unit) : Prop := ∀ b : Board, ∃ n b' w, m.Plays b (quiet n) () b' w

/-- And leaves the board as it was. -/
def RunsIdle (m : Handler Unit) : Prop := ∀ b : Board, ∃ n w, m.Plays b (quiet n) () b w

theorem RunsIdle.runs {m : Handler Unit} (h : RunsIdle m) : Runs m := by
  intro b
  obtain ⟨n, w, hw⟩ := h b
  exact ⟨n, b, w, hw⟩

theorem runsIdle_pure : RunsIdle (pure ()) := fun b => ⟨0, [], Replay.plays_pure b ()⟩

theorem runsIdle_vTaskDelay (ms : ℕ) : RunsIdle (vTaskDelay ms) :=
  fun b => ⟨1, _, plays_vTaskDelay b (quietSlot 0) ms⟩

theorem runs_memset (buffer : Buffer) (value : UInt8) (length : ℕ) :
    Runs (memset buffer value length) := fun b => ⟨0, _, [], Replay.plays_modify b _⟩

theorem runs_halStop (x : Handle → Act) (h : Handle) : Runs (halStop x h) := by
  intro b
  refine ⟨1, { b with receiving := Function.update b.receiving h none }, [x h], fun rest => rfl⟩

theorem Runs.bind {m m' : Handler Unit} (hm : Runs m) (hm' : Runs m') :
    Runs (m >>= fun _ => m') := by
  intro b
  obtain ⟨n, b₁, w, hw⟩ := hm b
  obtain ⟨n', b₂, w', hw'⟩ := hm' b₁
  refine ⟨n + n', b₂, w ++ w', ?_⟩
  rw [quiet, List.replicate_add]
  exact hw.bind hw'

/-- The callbacks that complete a transfer. -/
def Transfer.completions : Transfer → List Callback
  | .uart => [.halUartTxCplt .huart4, .halUartRxCplt .huart5]
  | .spi => [.halSpiTxRxCplt .hspi1, .halSpiTxRxCplt .hspi2]
  | .i2cMasterToSlave => [.halI2cMasterTxCplt .hi2c1, .halI2cSlaveRxCplt .hi2c2]
  | .i2cSlaveToMaster => [.halI2cMasterRxCplt .hi2c1, .halI2cSlaveTxCplt .hi2c2]

/-- All data arrives, and then the transfer completes. -/
def arrivalSlot (t : Transfer) (h : Handle) (data : List UInt8) : Slot :=
  { quietSlot 0 with writes := [(h, data)], fired := t.completions }

theorem Transfer.completions_fine (t : Transfer) : ∀ cb ∈ t.completions, cb.isError = false := by
  cases t <;> decide

theorem Transfer.completed_completions (t : Transfer) (b : Board) :
    t.completed (t.completions.foldl Board.fire b).flags = true := by
  cases t <;> simp [Transfer.completions, Board.fire, Callback.store, Callback.flag,
    Transfer.completed, Transfer.done]

theorem arrivalSlot_fine (t : Transfer) (h : Handle) (data : List UInt8) :
    (arrivalSlot t h data).Fine := t.completions_fine

theorem completed_arrivalSlot (t : Transfer) (h : Handle) (data : List UInt8) (b : Board) :
    t.completed (b.advance (arrivalSlot t h data)).flags = true :=
  t.completed_completions (b.write (h, data))

/-- The data is in the buffer of the reception. -/
theorem buffers_arrivalSlot (t : Transfer) {h : Handle} {data : List UInt8} {rxData : Buffer}
    {length : UInt8} (hdata : length.toNat ≤ data.length) {b : Board}
    (hreceiving : b.receiving h = some (rxData, length.toNat)) :
    (((b.advance (arrivalSlot t h data)).buffers rxData).toList).take length.toNat =
      data.take length.toNat := by
  have hwrite : (b.advance (arrivalSlot t h data)).buffers rxData =
      (b.buffers rxData).overwrite (data.take length.toNat) := by
    show ((t.completions.foldl Board.fire (b.write (h, data))).buffers rxData) = _
    rw [buffers_fire, Board.write, hreceiving]
    exact Function.update_self _ _ _
  have hmax := length.toNat_lt
  rw [hwrite, overwrite_take _ hdata (Nat.le_of_lt_succ hmax)]

/-- A helper that starts a reception into the buffer can deliver any data. -/
theorem Helper.exists_delivers {x : Helper} (hbefore : Runs x.before) (hprepare : Runs x.prepare)
    (hbetween : RunsIdle x.between) {h : Handle} {data : List UInt8} {rxData : Buffer}
    {length : UInt8} (hdata : length.toNat ≤ data.length)
    (hreceive : ∀ r, x.second.receive (x.first.receive r) h = some (rxData, length.toNat))
    (b : Board) : ∃ env b', x.Delivers data rxData length b env b' := by
  obtain ⟨n₁, b₁, w₁, hw₁⟩ := hbefore b
  obtain ⟨n₂, b₂, w₂, hw₂⟩ := hprepare { b₁ with flags := b₁.flags.clear x.transfer.cleared }
  obtain ⟨w₃, hw₃⟩ := plays_halStart x.first b₂
  obtain ⟨n₄, w₄, hw₄⟩ := hbetween { b₂ with receiving := x.first.receive b₂.receiving }
  obtain ⟨w₅, hw₅⟩ :=
    plays_halStart x.second { b₂ with receiving := x.first.receive b₂.receiving }
  have htick : Replay.Plays (do
      let startTick ← halGetTick
      pure (.ok startTick) : Handler (Except (Option String) UInt32))
      { b₂ with receiving := x.second.receive (x.first.receive b₂.receiving) } [quietSlot 0] (.ok 0)
      { b₂ with receiving := x.second.receive (x.first.receive b₂.receiving) } [] := fun _ => rfl
  have hstart : x.starting.Plays b (quiet n₁ ++ (quiet n₂ ++ ([quietSlot 0] ++ (quiet n₄ ++
      ([quietSlot 0] ++ [quietSlot 0]))))) (.ok 0)
      { b₂ with receiving := x.second.receive (x.first.receive b₂.receiving) }
      (w₁ ++ ([] ++ (w₂ ++ (w₃ ++ (w₄ ++ (w₅ ++ [])))))) := by
    refine hw₁.bind ((Replay.plays_modify b₁ _).after (hw₂.bind ?_))
    exact hw₃.passed (hw₄.bind (hw₅.passed htick))
  have hfine : ∀ a ∈ quiet n₁ ++ (quiet n₂ ++ ([quietSlot 0] ++ (quiet n₄ ++ ([quietSlot 0] ++
      [quietSlot 0])))), a.Fine := by
    intro a ha
    simp only [List.mem_append] at ha
    rcases ha with ha | ha | ha | ha | ha | ha
    · exact fine_of_quiet ha
    · exact fine_of_quiet ha
    · exact fine_of_quiet (n := 1) ha
    · exact fine_of_quiet ha
    · exact fine_of_quiet (n := 1) ha
    · exact fine_of_quiet (n := 1) ha
  exact ⟨_, _, .mk hfine hstart
    (.done (arrivalSlot_fine x.transfer h data) (completed_arrivalSlot x.transfer h data _))
    (buffers_arrivalSlot x.transfer hdata (hreceive b₂.receiving))⟩

/-- The other handle receives into another buffer. -/
theorem receive_of_ne {h h' : SpiHandle} (hne : [Handle.spi h, .spi h'].Nodup)
    {r : Handle → Option (Buffer × ℕ)} {p p' : Option (Buffer × ℕ)} :
    Function.update (Function.update r (.spi h') p) (.spi h) p' (.spi h') = p := by
  have hne : Handle.spi h' ≠ .spi h := by
    intro he
    rw [he] at hne
    simp at hne
  rw [Function.update_of_ne hne, Function.update_self]

/-- All ten helpers, between two handles. -/
theorem TransferCall.exists_delivers (call : TransferCall) (hcall : call.handles.Nodup)
    {data : List UInt8} (rxData : Buffer) {length : UInt8} (hdata : length.toNat ≤ data.length)
    (b : Board) :
    ∃ env b', (call.helper data rxData length).val.Delivers data rxData length b env b' := by
  have hmemsets : ∀ (b b' : Buffer) (v v' : UInt8) (n n' : ℕ), Runs (do
      memset b v n
      memset b' v' n') := fun _ _ _ _ _ _ => (runs_memset _ _ _).bind (runs_memset _ _ _)
  have hidle := runsIdle_pure
  cases call with
  | appUartTestTransferIt txUart rxUart =>
      refine Helper.exists_delivers hidle.runs hidle.runs hidle (h := .uart rxUart) hdata ?_ b
      exact fun r => Function.update_self _ _ _
  | appUartTestTransferDma txUart rxUart =>
      refine Helper.exists_delivers ((runs_halStop _ _).bind (runs_halStop _ _)) hidle.runs hidle
        (h := .uart rxUart) hdata ?_ b
      exact fun r => Function.update_self _ _ _
  | appSpiTestMasterToSlaveIt masterSpi slaveSpi =>
      refine Helper.exists_delivers hidle.runs (hmemsets _ _ _ _ _ _) hidle (h := .spi slaveSpi)
        hdata ?_ b
      exact fun r => receive_of_ne hcall
  | appSpiTestMasterToSlaveDma masterSpi slaveSpi =>
      refine Helper.exists_delivers hidle.runs (hmemsets _ _ _ _ _ _) (runsIdle_vTaskDelay 1)
        (h := .spi slaveSpi) hdata ?_ b
      exact fun r => receive_of_ne hcall
  | appSpiTestSlaveToMasterIt masterSpi slaveSpi =>
      refine Helper.exists_delivers hidle.runs (hmemsets _ _ _ _ _ _) hidle (h := .spi masterSpi)
        hdata ?_ b
      exact fun r => Function.update_self _ _ _
  | appSpiTestSlaveToMasterDma masterSpi slaveSpi =>
      refine Helper.exists_delivers hidle.runs (hmemsets _ _ _ _ _ _) (runsIdle_vTaskDelay 1)
        (h := .spi masterSpi) hdata ?_ b
      exact fun r => Function.update_self _ _ _
  | appI2cTestMasterToSlaveIt masterI2c slaveI2c =>
      refine Helper.exists_delivers hidle.runs hidle.runs hidle (h := .i2c .hi2c2) hdata ?_ b
      exact fun r => rfl
  | appI2cTestMasterToSlaveDma masterI2c slaveI2c =>
      refine Helper.exists_delivers hidle.runs hidle.runs hidle (h := .i2c slaveI2c) hdata ?_ b
      exact fun r => Function.update_self _ _ _
  | appI2cTestSlaveToMasterIt masterI2c slaveI2c =>
      refine Helper.exists_delivers hidle.runs hidle.runs hidle (h := .i2c .hi2c1) hdata ?_ b
      exact fun r => rfl
  | appI2cTestSlaveToMasterDma masterI2c slaveI2c =>
      refine Helper.exists_delivers hidle.runs hidle.runs hidle (h := .i2c masterI2c) hdata ?_ b
      exact fun r => Function.update_self _ _ _

/-- The parts of a backend come to their ends, and its transfers are between two handles. -/
structure Loopback.Feasible (x : Loopback) : Prop where
  start : Runs x.start
  prepare : Runs x.prepare
  between : RunsIdle x.between
  forth : x.forth.handles.Nodup
  back : x.back.handles.Nodup

theorem Backend.loopback_feasible {b : Backend} {x : Loopback} (h : b.loopback = some x) :
    x.Feasible := by
  have hidle := runsIdle_pure
  cases b with
  | timer | adc => cases h
  | uartIt =>
      obtain rfl := Option.some.inj h
      exact ⟨hidle.runs, hidle.runs, runsIdle_vTaskDelay 1, by decide, by decide⟩
  | uartDma =>
      obtain rfl := Option.some.inj h
      exact ⟨hidle.runs, (runs_memset _ _ _).bind (runs_memset _ _ _), hidle, by decide, by decide⟩
  | spiIt | spiDma | i2cIt =>
      obtain rfl := Option.some.inj h
      exact ⟨hidle.runs, hidle.runs, hidle, by decide, by decide⟩
  | i2cDma =>
      obtain rfl := Option.some.inj h
      exact ⟨(runsIdle_vTaskDelay 2).runs, hidle.runs, hidle, by decide, by decide⟩

theorem Loopback.exists_ideal {x : Loopback} (hx : x.Feasible) (c : Command) (g : Board) :
    ∃ env g', x.Ideal c g env g' := by
  have hfits : ∀ v : Bytes, c.patternLen.toNat ≤ v.toList.length := by
    intro v
    have hmax := c.patternLen.toNat_lt
    rw [Vector.length_toList]
    exact Nat.le_of_lt_succ hmax
  have hstill : (quietSlot 0).Still := ⟨rfl, rfl⟩
  obtain ⟨n, g₁, w, hbefore⟩ := hx.prepare g
  obtain ⟨forth, g₂, hforth⟩ :=
    x.forth.exists_delivers hx.forth x.received (hfits c.pattern) g₁
  obtain ⟨n', w', hbetween⟩ := hx.between (g₂.compare
    ⟨some c.pattern.toList, some (g₂.buffers x.received).toList, c.patternLen⟩ (quietSlot 0))
  obtain ⟨back, g₄, hback⟩ := x.back.exists_delivers hx.back x.returned (hfits _) _
  exact ⟨_, _, .mk hbefore hforth hstill hbetween (fun _ => still_of_quiet) hback hstill⟩

/-- Every command has an ideal recording, whatever the test finds. -/
theorem Backend.exists_ideal (b : Backend) (c : Command) (g : Board) : ∃ env, b.Ideal c g env := by
  have hbus : ∀ x, b.loopback = some x → ∃ env, b.Ideal c g env := by
    intro x hx
    have hfeasible := Backend.loopback_feasible hx
    obtain ⟨n, g₁, w, hstart⟩ := hfeasible.start g
    obtain ⟨env, g', h⟩ := Replay.exists_series (l := List.range c.iterations.toNat)
      (fun _ _ g => Loopback.exists_ideal hfeasible c g) g₁
    exact ⟨_, .bus hx hstart h⟩
  cases b with
  | timer =>
      obtain ⟨env, g', h⟩ := Replay.exists_series (l := List.range c.iterations.toNat)
        (P := fun _ => TimerIdeal) (fun _ _ g => ⟨[quietSlot 0, quietSlot 0, quietSlot 100000], _,
          .mk g (by decide)⟩) g
      exact ⟨env, .timer h⟩
  | adc =>
      have hlevel : ∀ level ∈ appAdcTestValues, ∀ g, ∃ env g', AdcIdeal level g env g' := by
        intro level hlevel g
        have hvalue : (appAdcTestValues.all fun v => adcInTolerance v v.toUInt32) = true := rfl
        exact ⟨[quietSlot 0, quietSlot 0, quietSlot 0, quietSlot 0,
          { quietSlot 0 with value := level.toUInt32 }, quietSlot 0], _,
          .mk g rfl rfl rfl (List.all_eq_true.mp hvalue level hlevel)⟩
      obtain ⟨env, g', h⟩ := Replay.exists_series (l := List.range c.iterations.toNat)
        (fun _ _ g => Replay.exists_series hlevel g) (g.advance (quietSlot 0))
      exact ⟨quietSlot 0 :: env, .adc rfl h⟩
  | uartIt | uartDma | spiIt | spiDma | i2cIt | i2cDma => exact hbus _ rfl

end PeripheralTester.Firmware
