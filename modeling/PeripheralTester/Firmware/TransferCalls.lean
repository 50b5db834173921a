import PeripheralTester.Firmware.Parts

/-! # Calls of the transfer helpers

The ten transfer helpers as one type, `TransferCall`, and what a call does to the flags and to its
two handles, whatever callbacks fire: between two stores of the task a flag is set if it was set
before or one of the callbacks in the trace sets it (`Records`), and a call that fails once its
flags are cleared has aborted (`Helper.afterClear_cases`). -/

namespace PeripheralTester.Firmware

open Lib Handler

/-! ### Flags and the callbacks of a trace -/

/-- The act is a callback that sets the flag. -/
def Act.sets (f : Flag) : Act → Bool
  | .callback cb => cb.flag = some f
  | _ => false

/-- A callback of the trace sets the flag. -/
def signalled (f : Flag) (trace : List Act) : Bool := trace.any (Act.sets f)

@[simp] theorem signalled_nil (f : Flag) : signalled f [] = false := rfl

@[simp] theorem signalled_append (f : Flag) (w w' : List Act) :
    signalled f (w ++ w') = (signalled f w || signalled f w') := List.any_append

@[simp] theorem signalled_cons (f : Flag) (x : Act) (w : List Act) :
    signalled f (x :: w) = (x.sets f || signalled f w) := rfl

theorem flags_fire (b : Board) (cb : Callback) (f : Flag) :
    (b.fire cb).flags f = (b.flags f || decide (cb.flag = some f)) := by
  unfold Board.fire Callback.store
  cases hcb : cb.flag with
  | none => simp
  | some x =>
      by_cases hx : f = x
      · subst hx
        simp
      · simp [Function.update_of_ne hx, Ne.symm hx]

@[simp] theorem flags_write (b : Board) (w : Handle × List UInt8) :
    (b.write w).flags = b.flags := by
  unfold Board.write
  split <;> rfl

theorem flags_advance (b : Board) (a : Slot) (f : Flag) :
    (b.advance a).flags f = (b.flags f || signalled f (a.fired.map .callback)) := by
  unfold Board.advance
  have hwrites : ∀ (l : List (Handle × List UInt8)) (b : Board),
      (l.foldl Board.write b).flags = b.flags := by
    intro l
    induction l with
    | nil => exact fun _ => rfl
    | cons w l ih => exact fun b => (ih _).trans (flags_write b w)
  have hfired : ∀ (l : List Callback) (b : Board),
      (l.foldl Board.fire b).flags f = (b.flags f || signalled f (l.map .callback)) := by
    intro l
    induction l with
    | nil => exact fun b => (Bool.or_false _).symm
    | cons cb l ih =>
        intro b
        rw [List.foldl_cons, ih, flags_fire, List.map_cons, signalled_cons, Bool.or_assoc]
        rfl
  rw [hfired, hwrites]

/-- A flag is set after the part if it was set before or a callback in between sets it. -/
def Records {α : Type} (m : Handler α) : Prop :=
  ∀ b env o, m b env = some o → ∀ f, o.state.flags f = (b.flags f || signalled f o.trace)

namespace Records

variable {α β : Type} {m : Handler α}

theorem bind {g : α → Handler β} (hm : Records m) (hg : ∀ a, Records (g a)) :
    Records (m >>= g) := by
  intro b env o ho f
  obtain ⟨o₁, ho₁, o₂, ho₂, rfl⟩ := Replay.bind_some.mp ho
  rw [hg _ _ _ _ ho₂ f, hm _ _ _ ho₁ f, signalled_append, Bool.or_assoc]

theorem pure (a : α) : Records (Pure.pure a : Handler α) := by
  intro b env o ho f
  rw [Replay.pure_some.mp ho, signalled_nil, Bool.or_false]

/-- A change that is not one of the flags. -/
theorem modify {g : Board → Board} (hg : ∀ b, (g b).flags = b.flags) :
    Records (Replay.modify g : Handler Unit) := by
  intro b env o ho f
  obtain rfl := Option.some.inj ho
  simp [hg]

theorem act {x : Act} (hx : ∀ f, x.sets f = false) : Records (Handler.act x) := by
  intro b env o ho f
  obtain rfl := Option.some.inj ho
  simp [hx]

theorem pause : Records Handler.pause := by
  intro b env o ho f
  cases env with
  | nil => cases ho
  | cons a env =>
      obtain rfl := Option.some.inj ho
      simpa using flags_advance b a f

theorem vTaskDelay (ms : ℕ) : Records (Handler.vTaskDelay ms) :=
  (act fun _ => rfl).bind fun _ => pause.bind fun _ => pure ()

theorem halGetTick : Records Handler.halGetTick := pause.bind fun a => pure a.count

theorem halStart (op : Operation) : Records (Handler.halStart op) := by
  apply pause.bind
  intro a
  apply (act fun _ => rfl).bind
  intro _
  refine (modify fun b => ?_).bind fun _ => pure a.ok
  split
  · split <;> rfl
  · rfl

theorem memset (buffer : Buffer) (value : UInt8) (length : ℕ) :
    Records (Handler.memset buffer value length) := modify fun _ => rfl

end Records

theorem Prepares.records {m : Handler Unit} (h : Prepares m) : Records m := by
  induction h with
  | pure => exact .pure ()
  | delay ms => exact .vTaskDelay ms
  | memset buffer value length => exact .memset buffer value length
  | after _ _ ih ih' => exact ih.bind fun _ => ih'

/-! ### How a call goes on once its flags are cleared -/

/-- The helper's code from the first start to the wait loop: the tick it waits from, or the line of
the start that failed. -/
def Helper.startUp (x : Helper) : Handler (Except (Option String) UInt32) := do
  let started ← halStart x.first
  if started then do
    x.between
    let started ← halStart x.second
    if started then do
      let startTick ← halGetTick
      pure (.ok startTick)
    else pure (.error x.secondFailed)
  else pure (.error x.firstFailed)

/-! ### How the wait loop ends -/

theorem records_waitLoop (t : Transfer) (startTick : UInt32) :
    Records (waitLoop t startTick : Handler Poll) := by
  intro b env
  fun_induction waitLoop t startTick b env with
  | case1 | case3 | case5 =>
      intro o ho
      cases ho
  | case2 b a₁ env b₁ acts₁ =>
      intro o ho f
      obtain rfl := Option.some.inj ho
      exact flags_advance b a₁ f
  | case4 b a₁ b₁ acts₁ _ a₂ env b₂ acts₂ =>
      intro o ho f
      obtain rfl := Option.some.inj ho
      simp only [b₂, b₁, acts₂, acts₁, flags_advance, signalled_append, Bool.or_assoc]
  | case6 b a₁ b₁ acts₁ _ a₂ b₂ acts₂ _ a₃ env b₃ acts₃ =>
      intro o ho f
      obtain rfl := Option.some.inj ho
      simp only [b₃, b₂, b₁, acts₃, acts₂, acts₁, flags_advance, signalled_append, Bool.or_assoc]
  | case7 b a₁ b₁ acts₁ _ a₂ b₂ acts₂ _ a₃ env b₃ acts₃ _ ih =>
      intro o ho f
      obtain ⟨o', ho', rfl⟩ := Option.map_eq_some_iff.mp ho
      have hdelay : (Act.delay 1).sets f = false := rfl
      rw [ih o' ho' f]
      simp only [b₃, b₂, b₁, acts₃, acts₂, acts₁, flags_advance, signalled_append, signalled_cons,
        hdelay, Bool.false_or, Bool.or_assoc]

/-- The loop ends with `done` when it finds both completion flags set. -/
theorem waitLoop_done {t : Transfer} {startTick : UInt32} {b : Board} {env : List Slot} :
    ∀ o : Outcome Board Slot Act Poll, waitLoop t startTick b env = some o → o.value = .done →
      t.completed o.state.flags = true := by
  fun_induction waitLoop t startTick b env with
  | case1 | case3 | case5 =>
      intro o h
      cases h
  | case2 b a₁ env b₁ acts₁ hc =>
      intro o h _
      obtain rfl := Option.some.inj h
      exact hc
  | case4 | case6 =>
      intro o h hdone
      obtain rfl := Option.some.inj h
      cases hdone
  | case7 b a₁ b₁ acts₁ hc a₂ b₂ acts₂ he a₃ env b₃ acts₃ ht ih =>
      intro o h hdone
      obtain ⟨o', ho', rfl⟩ := Option.map_eq_some_iff.mp h
      exact ih o' ho' hdone

/-! ### How a call ends -/

/-- The callback with which the HAL reports an error of a handle. -/
def Handle.errorCallback : Handle → Callback
  | .uart huart => .halUartError huart
  | .spi hspi => .halSpiError hspi
  | .i2c hi2c => .halI2cError hi2c

/-- The abort function has ended what the handles do, and set them up again. -/
def Aborted (handles : List Handle) (trace : List Act) : Prop :=
  ∀ h ∈ handles, .deInit h ∈ trace ∧ .init h ∈ trace

/-- What the proof needs of the parts that are a helper's own. -/
structure Helper.Proper (x : Helper) (handles : List Handle) : Prop where
  prepare : Records x.prepare
  between : Records x.between
  abort : x.abort.Ensures fun o => Aborted handles o.trace
  error : ∀ h ∈ handles, h.errorCallback.flag = some x.transfer.error

section

variable {x : Helper} {handles : List Handle}

theorem Helper.records_startUp (hx : x.Proper handles) : Records x.startUp := by
  apply (Records.halStart x.first).bind
  intro started
  split
  · apply hx.between.bind
    intro _
    apply (Records.halStart x.second).bind
    intro started
    split
    · exact Records.halGetTick.bind fun startTick => Records.pure _
    · exact Records.pure _
  · exact Records.pure _

/-- A call from the moment it has cleared its flags. -/
def Helper.afterClear (x : Helper) : Handler Bool := do
  x.prepare
  let how ← x.startUp
  match how with
  | .ok startTick => x.finish startTick
  | .error line => x.fail line

theorem Helper.run_eq (x : Helper) {length : UInt8} (h : length ≠ 0) :
    x.run length = (do
      x.before
      clearFlags x.transfer.cleared
      x.afterClear) := by
  unfold Helper.run Helper.afterClear Helper.startUp
  rw [if_neg h]
  simp only [bind_assoc]
  congr 1; funext _
  congr 1; funext _
  congr 1; funext _
  congr 1; funext started
  cases started with
  | false => simp
  | true =>
      simp only [if_true, bind_assoc]
      congr 1; funext _
      congr 1; funext started
      cases started <;> simp

theorem Helper.fail_spec (hx : x.Proper handles) {line : Option String} {b : Board}
    {env : List Slot} {o : Outcome Board Slot Act Bool} (ho : x.fail line b env = some o) :
    o.value = false ∧ Aborted handles o.trace := by
  obtain ⟨o₁, _, o', ho', rfl⟩ := Replay.bind_some.mp ho
  obtain ⟨o₂, ho₂, o₃, ho₃, rfl⟩ := Replay.bind_some.mp ho'
  obtain rfl := Replay.pure_some.mp ho₃
  refine ⟨rfl, fun handle hh => ?_⟩
  have habort := hx.abort.post _ _ _ ho₂ handle hh
  simp only [List.append_nil, List.mem_append]
  exact ⟨.inr habort.1, .inr habort.2⟩

/-- What a call can do once its flags are cleared: fail and abort, or return OK after a loop test
that finds both completion flags set. -/
inductive Returned (x : Helper) (handles : List Handle) (b : Board)
    (o : Outcome Board Slot Act Bool) : Prop
  | failed (hvalue : o.value = false) (haborted : Aborted handles o.trace)
  | completed (last : Board) (hvalue : o.value = true)
      (hrecords : ∀ f, last.flags f = (b.flags f || signalled f o.trace))
      (hcompleted : x.transfer.completed last.flags = true)

theorem Helper.afterClear_cases (hx : x.Proper handles) {b : Board} {env : List Slot}
    {o : Outcome Board Slot Act Bool} (ho : x.afterClear b env = some o) :
    Returned x handles b o := by
  unfold Helper.afterClear at ho
  rw [← bind_assoc] at ho
  obtain ⟨o₁, ho₁, o₂, ho₂, rfl⟩ := Replay.bind_some.mp ho
  have hrecords := hx.prepare.bind (fun _ => Helper.records_startUp hx) b env o₁ ho₁
  obtain ⟨how, s₁, env₁, w₁⟩ := o₁
  cases how with
  | error line =>
      obtain ⟨hvalue, haborted⟩ := Helper.fail_spec hx ho₂
      refine .failed hvalue fun handle hh => ?_
      simp only [List.mem_append]
      exact ⟨.inr (haborted handle hh).1, .inr (haborted handle hh).2⟩
  | ok startTick =>
      obtain ⟨o₃, ho₃, o₄, ho₄, rfl⟩ := Replay.bind_some.mp ho₂
      have hdone := waitLoop_done o₃ ho₃
      have hrecordsLoop := records_waitLoop x.transfer startTick s₁ env₁ o₃ ho₃
      -- an exit other than `done`
      have hfail : ∀ line, x.fail line o₃.state o₃.rest = some o₄ →
          Returned x handles b
            ⟨o₄.value, o₄.state, o₄.rest, w₁ ++ (o₃.trace ++ o₄.trace)⟩ := by
        intro line ho₄
        obtain ⟨hvalue, haborted⟩ := Helper.fail_spec hx ho₄
        refine .failed hvalue fun handle hh => ?_
        simp only [List.mem_append]
        exact ⟨.inr (.inr (haborted handle hh).1), .inr (.inr (haborted handle hh).2)⟩
      obtain ⟨how, s₃, env₃, w₃⟩ := o₃
      cases how with
      | done =>
          obtain ⟨o₅, ho₅, o₆, ho₆, rfl⟩ := Replay.bind_some.mp ho₄
          obtain rfl := Option.some.inj ho₅
          obtain rfl := Replay.pure_some.mp ho₆
          refine .completed s₃ rfl (fun f => ?_) (hdone rfl)
          rw [hrecordsLoop f, hrecords f]
          simp [Act.sets, Bool.or_assoc]
      | error => exact hfail x.errorSeen ho₄
      | timeout => exact hfail x.timeoutSeen ho₄
      | delay => exact hfail x.timeoutSeen ho₄

end

/-! ### The ten helpers -/

/-- A part that does something. -/
def Does {α : Type} (x : Act) (m : Handler α) : Prop := m.Ensures fun o => x ∈ o.trace

theorem Does.now {α β : Type} {a : Act} {m : Handler α} {f : α → Handler β} (h : Does a m) :
    Does a (m >>= f) := by
  constructor
  intro b env o ho
  obtain ⟨o₁, ho₁, o₂, _, rfl⟩ := Replay.bind_some.mp ho
  exact List.mem_append_left _ (h.post b env o₁ ho₁)

theorem Does.later {α β : Type} {a : Act} {m : Handler α} {f : α → Handler β}
    (h : ∀ r, Does a (f r)) : Does a (m >>= f) :=
  Replay.ensures_after h fun _ _ hmem => List.mem_append_right _ hmem

theorem does_act (a : Act) : Does a (act a) := by
  constructor
  intro b env o ho
  obtain rfl := Option.some.inj ho
  exact List.mem_singleton_self a

theorem does_halStop (a : Handle → Act) (h : Handle) : Does (a h) (halStop a h) :=
  Does.later fun _ => (does_act _).now

theorem does_halInit (h : Handle) : Does (.init h) (halInit h) := Does.later fun _ => does_act _

theorem aborted_of_does {m : Handler Unit} {h₁ h₂ : Handle} (hd₁ : Does (.deInit h₁) m)
    (hi₁ : Does (.init h₁) m) (hd₂ : Does (.deInit h₂) m) (hi₂ : Does (.init h₂) m) :
    m.Ensures fun o => Aborted [h₁, h₂] o.trace := by
  constructor
  intro b env o ho h hh
  rcases List.mem_cons.mp hh with rfl | hh
  · exact ⟨hd₁.post b env o ho, hi₁.post b env o ho⟩
  · obtain rfl := List.mem_singleton.mp hh
    exact ⟨hd₂.post b env o ho, hi₂.post b env o ho⟩

theorem appUartTestAbortTransfer_aborts (txUart rxUart : UartHandle) :
    (appUartTestAbortTransfer txUart rxUart).Ensures fun o =>
      Aborted [.uart txUart, .uart rxUart] o.trace :=
  aborted_of_does
    (.later fun _ => .later fun _ => (does_halStop .deInit _).now)
    (.later fun _ => .later fun _ => .later fun _ => (does_halInit _).now)
    (.later fun _ => .later fun _ => .later fun _ => .later fun _ => (does_halStop .deInit _).now)
    (.later fun _ => .later fun _ => .later fun _ => .later fun _ => .later fun _ =>
      (does_halInit _).now)

theorem appSpiTestAbortTransfer_aborts (masterSpi slaveSpi : SpiHandle) :
    (appSpiTestAbortTransfer masterSpi slaveSpi).Ensures fun o =>
      Aborted [.spi masterSpi, .spi slaveSpi] o.trace :=
  aborted_of_does
    (.later fun _ => .later fun _ => .later fun _ => (does_halStop .deInit _).now)
    (.later fun _ => .later fun _ => .later fun _ => .later fun _ => .later fun _ => .later fun _ =>
      (does_halInit _).now)
    (.later fun _ => .later fun _ => (does_halStop .deInit _).now)
    (.later fun _ => .later fun _ => .later fun _ => .later fun _ => .later fun _ =>
      (does_halInit _).now)

theorem appI2cTestAbortTransfer_aborts (masterI2c slaveI2c : I2cHandle) :
    (appI2cTestAbortTransfer masterI2c slaveI2c).Ensures fun o =>
      Aborted [.i2c masterI2c, .i2c slaveI2c] o.trace :=
  aborted_of_does
    (.later fun _ => (does_halStop .deInit _).now)
    (.later fun _ => .later fun _ => (does_halInit _).now)
    (.later fun _ => .later fun _ => .later fun _ => (does_halStop .deInit _).now)
    (.later fun _ => .later fun _ => .later fun _ => .later fun _ => (does_halInit _).now)

/-- A call of one of the transfer helpers, with the two handles it is given. -/
inductive TransferCall where
  | appUartTestTransferIt (txUart rxUart : UartHandle)
  | appUartTestTransferDma (txUart rxUart : UartHandle)
  | appSpiTestMasterToSlaveIt (masterSpi slaveSpi : SpiHandle)
  | appSpiTestMasterToSlaveDma (masterSpi slaveSpi : SpiHandle)
  | appSpiTestSlaveToMasterIt (masterSpi slaveSpi : SpiHandle)
  | appSpiTestSlaveToMasterDma (masterSpi slaveSpi : SpiHandle)
  | appI2cTestMasterToSlaveIt (masterI2c slaveI2c : I2cHandle)
  | appI2cTestMasterToSlaveDma (masterI2c slaveI2c : I2cHandle)
  | appI2cTestSlaveToMasterIt (masterI2c slaveI2c : I2cHandle)
  | appI2cTestSlaveToMasterDma (masterI2c slaveI2c : I2cHandle)
deriving DecidableEq, Repr

namespace TransferCall

def handles : TransferCall → List Handle
  | appUartTestTransferIt h h' | appUartTestTransferDma h h' => [.uart h, .uart h']
  | appSpiTestMasterToSlaveIt h h' | appSpiTestMasterToSlaveDma h h'
  | appSpiTestSlaveToMasterIt h h' | appSpiTestSlaveToMasterDma h h' => [.spi h, .spi h']
  | appI2cTestMasterToSlaveIt h h' | appI2cTestMasterToSlaveDma h h'
  | appI2cTestSlaveToMasterIt h h' | appI2cTestSlaveToMasterDma h h' => [.i2c h, .i2c h']

/-- The helper's code. -/
def run (txData : List UInt8) (rxData : Buffer) : TransferCall → UInt8 → Handler Bool
  | appUartTestTransferIt h h' => Firmware.appUartTestTransferIt h h' txData rxData
  | appUartTestTransferDma h h' => Firmware.appUartTestTransferDma h h' txData rxData
  | appSpiTestMasterToSlaveIt h h' => Firmware.appSpiTestMasterToSlaveIt h h' txData rxData
  | appSpiTestMasterToSlaveDma h h' => Firmware.appSpiTestMasterToSlaveDma h h' txData rxData
  | appSpiTestSlaveToMasterIt h h' => Firmware.appSpiTestSlaveToMasterIt h h' txData rxData
  | appSpiTestSlaveToMasterDma h h' => Firmware.appSpiTestSlaveToMasterDma h h' txData rxData
  | appI2cTestMasterToSlaveIt h h' => Firmware.appI2cTestMasterToSlaveIt h h' txData rxData
  | appI2cTestMasterToSlaveDma h h' => Firmware.appI2cTestMasterToSlaveDma h h' txData rxData
  | appI2cTestSlaveToMasterIt h h' => Firmware.appI2cTestSlaveToMasterIt h h' txData rxData
  | appI2cTestSlaveToMasterDma h h' => Firmware.appI2cTestSlaveToMasterDma h h' txData rxData

/-- What the helper fills the common code with, for a length. -/
def helper (txData : List UInt8) (rxData : Buffer) (length : UInt8) :
    (c : TransferCall) → { x : Helper // c.run txData rxData length = x.run length }
  | appUartTestTransferIt _ _ => ⟨_, rfl⟩
  | appUartTestTransferDma _ _ => ⟨_, rfl⟩
  | appSpiTestMasterToSlaveIt _ _ => ⟨_, rfl⟩
  | appSpiTestMasterToSlaveDma _ _ => ⟨_, rfl⟩
  | appSpiTestSlaveToMasterIt _ _ => ⟨_, rfl⟩
  | appSpiTestSlaveToMasterDma _ _ => ⟨_, rfl⟩
  | appI2cTestMasterToSlaveIt _ _ => ⟨_, rfl⟩
  | appI2cTestMasterToSlaveDma _ _ => ⟨_, rfl⟩
  | appI2cTestSlaveToMasterIt _ _ => ⟨_, rfl⟩
  | appI2cTestSlaveToMasterDma _ _ => ⟨_, rfl⟩

/-- The flags it waits for. -/
def transfer : TransferCall → Transfer
  | appUartTestTransferIt _ _ | appUartTestTransferDma _ _ => .uart
  | appSpiTestMasterToSlaveIt _ _ | appSpiTestMasterToSlaveDma _ _
  | appSpiTestSlaveToMasterIt _ _ | appSpiTestSlaveToMasterDma _ _ => .spi
  | appI2cTestMasterToSlaveIt _ _ | appI2cTestMasterToSlaveDma _ _ => .i2cMasterToSlave
  | appI2cTestSlaveToMasterIt _ _ | appI2cTestSlaveToMasterDma _ _ => .i2cSlaveToMaster

theorem helper_transfer (txData : List UInt8) (rxData : Buffer) (length : UInt8)
    (c : TransferCall) : (c.helper txData rxData length).val.transfer = c.transfer := by
  cases c <;> rfl

theorem errorCallback_flag (c : TransferCall) :
    ∀ h ∈ c.handles, h.errorCallback.flag = some c.transfer.error := by
  cases c <;> simp [handles, Handle.errorCallback, Callback.flag, transfer, Transfer.error]

/-- The own parts of all ten helpers. -/
theorem helper_plain (txData : List UInt8) (rxData : Buffer) (length : UInt8) (c : TransferCall) :
    (c.helper txData rxData length).val.Plain := by
  cases c with
  | appUartTestTransferIt h h' =>
      exact ⟨.pure, .pure, .pure, resets_appUartTestAbortTransfer h h'⟩
  | appUartTestTransferDma h h' =>
      exact ⟨.after (.abort _) (.abort _), .pure, .pure, resets_appUartTestAbortTransfer h h'⟩
  | appSpiTestMasterToSlaveIt h h' | appSpiTestSlaveToMasterIt h h' =>
      exact ⟨.pure, .after (.memset _ _ _) (.memset _ _ _), .pure,
        resets_appSpiTestAbortTransfer h h'⟩
  | appSpiTestMasterToSlaveDma h h' | appSpiTestSlaveToMasterDma h h' =>
      exact ⟨.pure, .after (.memset _ _ _) (.memset _ _ _), .delay 1,
        resets_appSpiTestAbortTransfer h h'⟩
  | appI2cTestMasterToSlaveIt h h' | appI2cTestMasterToSlaveDma h h'
  | appI2cTestSlaveToMasterIt h h' | appI2cTestSlaveToMasterDma h h' =>
      exact ⟨.pure, .pure, .pure, resets_appI2cTestAbortTransfer h h'⟩

theorem helper_aborts (txData : List UInt8) (rxData : Buffer) (length : UInt8) (c : TransferCall) :
    (c.helper txData rxData length).val.abort.Ensures fun o => Aborted c.handles o.trace := by
  cases c with
  | appUartTestTransferIt h h' | appUartTestTransferDma h h' =>
      exact appUartTestAbortTransfer_aborts h h'
  | appSpiTestMasterToSlaveIt h h' | appSpiTestSlaveToMasterIt h h'
  | appSpiTestMasterToSlaveDma h h' | appSpiTestSlaveToMasterDma h h' =>
      exact appSpiTestAbortTransfer_aborts h h'
  | appI2cTestMasterToSlaveIt h h' | appI2cTestMasterToSlaveDma h h'
  | appI2cTestSlaveToMasterIt h h' | appI2cTestSlaveToMasterDma h h' =>
      exact appI2cTestAbortTransfer_aborts h h'

theorem helper_proper (txData : List UInt8) (rxData : Buffer) (length : UInt8) (c : TransferCall) :
    (c.helper txData rxData length).val.Proper c.handles := by
  have hplain := c.helper_plain txData rxData length
  refine ⟨hplain.prepare.records, hplain.between.records, c.helper_aborts txData rxData length, ?_⟩
  rw [helper_transfer]
  exact c.errorCallback_flag

end TransferCall

end PeripheralTester.Firmware
