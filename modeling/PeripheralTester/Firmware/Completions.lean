import PeripheralTester.Lib.Outstanding
import PeripheralTester.Firmware.Stages

/-! # Which completions a transfer relies on

A completion callback only sets a flag, so a transfer helper cannot tell its own completions from
those of an operation that an earlier call left behind.  The HAL promises that a completion
callback fires at most once, only for an operation that was started, and not once the handle has
been set up again; this is the `LawfulLog` of the trace's events.  With it, a task that has executed
any commands has nothing outstanding on its bus whenever a helper starts its operations, and a
helper that returns OK has seen exactly the completions of its own two operations
(`no_stale_completions`). -/

namespace PeripheralTester.Firmware

open Lib Handler

/-! ### Events of the HAL -/

/-- The bus whose operations the callback completes. -/
def Callback.completes : Callback → Option Peripheral
  | .halUartTxCplt _ | .halUartRxCplt _ => some .uart
  | .halSpiTxRxCplt _ => some .spi
  | .halI2cMasterTxCplt _ | .halI2cMasterRxCplt _ | .halI2cSlaveTxCplt _ | .halI2cSlaveRxCplt _ =>
      some .i2c
  | .halUartError _ | .halSpiError _ | .halI2cError _ => none

/-- The callback with which the HAL reports that an operation is complete. -/
def Operation.completion (op : Operation) : Callback :=
  match op.handle, op.rx with
  | .uart huart, some _ => .halUartRxCplt huart
  | .uart huart, none => .halUartTxCplt huart
  | .spi hspi, _ => .halSpiTxRxCplt hspi
  | .i2c .hi2c1, some _ => .halI2cMasterRxCplt .hi2c1
  | .i2c .hi2c1, none => .halI2cMasterTxCplt .hi2c1
  | .i2c .hi2c2, some _ => .halI2cSlaveRxCplt .hi2c2
  | .i2c .hi2c2, none => .halI2cSlaveTxCplt .hi2c2

abbrev HalEvent := DeviceEvent Operation Callback Handle

/-- What an act means for the operations on a bus.  An abort has taken effect when the handle is
set up again. -/
def Act.event (p : Peripheral) : Act → Option HalEvent
  | .start op true => some (.start op)
  | .callback cb => if cb.completes = some p then some (.complete cb) else none
  | .init h => some (.cancel h)
  | _ => none

/-- The events of a trace. -/
def events (p : Peripheral) (w : List Act) : List HalEvent := w.filterMap (Act.event p)

@[simp] theorem events_nil (p : Peripheral) : events p [] = [] := rfl

@[simp] theorem events_append (p : Peripheral) (w w' : List Act) :
    events p (w ++ w') = events p w ++ events p w' := List.filterMap_append

/-- The operations outstanding on the bus after a trace. -/
def underway (p : Peripheral) (w : List Act) : List Operation :=
  outstanding Operation.completion Operation.handle [] (events p w)

/-- The HAL completes started operations only, once, and not after they have been cancelled. -/
def KeepsRules (p : Peripheral) (w : List Act) : Prop :=
  LawfulLog Operation.completion Operation.handle [] (events p w)

instance (p : Peripheral) (w : List Act) : Decidable (KeepsRules p w) :=
  inferInstanceAs (Decidable (LawfulLog _ _ _ _))

/-- The operation that the act tries to start. -/
def Act.attempt : Act → Option Operation
  | .start op _ => some op
  | _ => none

/-- The operations that a trace tries to start. -/
def attempts (w : List Act) : List Operation := w.filterMap Act.attempt

@[simp] theorem attempts_append (w w' : List Act) :
    attempts (w ++ w') = attempts w ++ attempts w' := List.filterMap_append

@[simp] theorem attempts_start (op : Operation) (ok : Bool) (w : List Act) :
    attempts (.start op ok :: w) = op :: attempts w := rfl

theorem mem_attempts {w : List Act} {op : Operation} {ok : Bool} (h : .start op ok ∈ w) :
    op ∈ attempts w := List.mem_filterMap.mpr ⟨_, h, rfl⟩

theorem mem_events_start {p : Peripheral} {w : List Act} {op : Operation} :
    .start op ∈ events p w ↔ .start op true ∈ w := by
  unfold events
  rw [List.mem_filterMap]
  constructor
  · rintro ⟨x, hx, hevent⟩
    cases x with
    | start op' ok =>
        cases ok with
        | true =>
            obtain rfl := DeviceEvent.start.inj (Option.some.inj hevent)
            exact hx
        | false => cases hevent
    | callback cb =>
        simp only [Act.event] at hevent
        split at hevent <;> cases hevent
    | _ => cases hevent
  · intro h
    exact ⟨_, h, rfl⟩

/-- An operation under way has been started. -/
theorem mem_underway {p : Peripheral} {w : List Act} {op : Operation} (h : op ∈ underway p w) :
    .start op true ∈ w := by
  rcases mem_outstanding h with h | h
  · cases h
  · exact mem_events_start.mp h

theorem mem_events_complete {p : Peripheral} {w : List Act} {cb : Callback} :
    .complete cb ∈ events p w ↔ .callback cb ∈ w ∧ cb.completes = some p := by
  unfold events
  rw [List.mem_filterMap]
  constructor
  · rintro ⟨x, hx, hevent⟩
    cases x with
    | callback cb' =>
        simp only [Act.event] at hevent
        split at hevent
        · next hp =>
            obtain rfl := DeviceEvent.complete.inj (Option.some.inj hevent)
            exact ⟨hx, hp⟩
        · cases hevent
    | start op ok => cases ok <;> cases hevent
    | _ => cases hevent
  · rintro ⟨h, hp⟩
    exact ⟨_, h, if_pos hp⟩

/-- A trace without an attempt to start an operation. -/
def Idle (w : List Act) : Prop := attempts w = []

theorem Idle.append {w w' : List Act} (hw : Idle w) (hw' : Idle w') : Idle (w ++ w') := by
  unfold Idle at *
  rw [attempts_append, hw, hw', List.append_nil]

theorem Idle.started {p : Peripheral} {w : List Act} (hw : Idle w) :
    ∀ e ∈ events p w, e.started = none := by
  intro e he
  cases e with
  | start op =>
      have hx := List.filterMap_eq_nil_iff.mp hw _ (mem_events_start.mp he)
      cases hx
  | complete | cancel => rfl

theorem idle_of_isControl {w : List Act} (h : ∀ x ∈ w, x.isControl = true) : Idle w := by
  apply List.filterMap_eq_nil_iff.mpr
  intro x hx
  have hcontrol := h x hx
  cases x with
  | start => cases hcontrol
  | _ => rfl

theorem Controls.idle {α : Type} {m : Handler α} (h : Controls m) :
    m.Ensures fun o => Idle o.trace := Replay.Ensures.mono h fun _ => idle_of_isControl

/-! ### The course of a call -/

/-- The parts of a helper that are its own start nothing. -/
structure Helper.Controlled (x : Helper) : Prop where
  before : Controls x.before
  prepare : Controls x.prepare
  between : Controls x.between
  abort : Controls x.abort

/-- How a call of a transfer helper can go: its trace and what it returns. -/
inductive Helper.Course (x : Helper) (handles : List Handle) : List Act → Bool → Prop
  | refused : Course x handles [] false
  | firstFailed {w v : List Act} (hw : Idle w) (hv : Idle v) (habort : Aborted handles v) :
      Course x handles (w ++ .start x.first false :: v) false
  | secondFailed {w w' v : List Act} (hw : Idle w) (hw' : Idle w') (hv : Idle v)
      (habort : Aborted handles v) :
      Course x handles (w ++ .start x.first true :: (w' ++ .start x.second false :: v)) false
  | waitFailed {w w' v : List Act} (hw : Idle w) (hw' : Idle w') (hv : Idle v)
      (habort : Aborted handles v) :
      Course x handles (w ++ .start x.first true :: (w' ++ .start x.second true :: v)) false
  | completed {w w' v : List Act} (hw : Idle w) (hw' : Idle w') (hv : Idle v)
      (hdone : ∀ f, f = x.transfer.done.1 ∨ f = x.transfer.done.2 → signalled f
        (w ++ .start x.first true :: (w' ++ .start x.second true :: v)) = true) :
      Course x handles (w ++ .start x.first true :: (w' ++ .start x.second true :: v)) true

theorem halStart_some {op : Operation} {b : Board} {env : List Slot}
    {o : Outcome Board Slot Act Bool} (h : halStart op b env = some o) :
    ∃ w, Idle w ∧ o.trace = w ++ [.start op o.value] := by
  obtain ⟨o₁, ho₁, o₂, ho₂, rfl⟩ := Replay.bind_some.mp h
  obtain ⟨o₃, ho₃, o₄, ho₄, rfl⟩ := Replay.bind_some.mp ho₂
  obtain ⟨o₅, ho₅, o₆, ho₆, rfl⟩ := Replay.bind_some.mp ho₄
  obtain rfl := Option.some.inj ho₃
  obtain rfl := Option.some.inj ho₅
  obtain rfl := Replay.pure_some.mp ho₆
  exact ⟨o₁.trace, controls_pause.idle.post _ _ _ ho₁, rfl⟩

section

variable {x : Helper} {handles : List Handle} {b : Board} {env : List Slot}
  {o : Outcome Board Slot Act Bool}

theorem Helper.fail_idle (hx : x.Controlled) {line : Option String}
    (ho : x.fail line b env = some o) : Idle o.trace :=
  ((controls_appLogIf line).bind fun _ => hx.abort.bind fun _ =>
    controls_pure false).idle.post _ _ _ ho

/-- From the wait loop on nothing is started. -/
theorem Helper.finish_idle (hx : x.Controlled) {startTick : UInt32}
    (ho : x.finish startTick b env = some o) : Idle o.trace := by
  obtain ⟨o₁, ho₁, o₂, ho₂, rfl⟩ := Replay.bind_some.mp ho
  refine ((controls_waitLoop _ _).idle.post _ _ _ ho₁).append ?_
  cases hhow : o₁.value with
  | done =>
      rw [hhow] at ho₂
      obtain ⟨o₃, ho₃, o₄, ho₄, rfl⟩ := Replay.bind_some.mp ho₂
      obtain rfl := Option.some.inj ho₃
      obtain rfl := Replay.pure_some.mp ho₄
      rfl
  | error | timeout | delay =>
      rw [hhow] at ho₂
      exact Helper.fail_idle hx ho₂

/-- The wait loop ends with an abort unless the call returns OK. -/
theorem Helper.finish_aborted (hx : x.Proper handles) {startTick : UInt32}
    (ho : x.finish startTick b env = some o) (hvalue : o.value = false) :
    Aborted handles o.trace := by
  obtain ⟨o₁, ho₁, o₂, ho₂, rfl⟩ := Replay.bind_some.mp ho
  cases hhow : o₁.value with
  | done =>
      rw [hhow] at ho₂
      obtain ⟨o₃, ho₃, o₄, ho₄, rfl⟩ := Replay.bind_some.mp ho₂
      obtain rfl := Replay.pure_some.mp ho₄
      cases hvalue
  | error | timeout | delay =>
      rw [hhow] at ho₂
      intro handle hh
      have haborted := (Helper.fail_spec hx ho₂).2 handle hh
      exact ⟨List.mem_append_right _ haborted.1, List.mem_append_right _ haborted.2⟩

/-- A call that returns OK has seen both completion flags set by callbacks. -/
theorem Helper.signalled_of_run (hx : x.Proper handles) {length : UInt8}
    (ho : x.run length b env = some o) (hvalue : o.value = true) :
    ∀ f, f = x.transfer.done.1 ∨ f = x.transfer.done.2 → signalled f o.trace = true := by
  have hlength : length ≠ 0 := by
    rintro rfl
    rw [Replay.pure_some.mp ho] at hvalue
    cases hvalue
  rw [x.run_eq hlength] at ho
  obtain ⟨o₁, ho₁, o', ho', rfl⟩ := Replay.bind_some.mp ho
  obtain ⟨o₂, ho₂, o₃, ho₃, rfl⟩ := Replay.bind_some.mp ho'
  obtain rfl := Option.some.inj ho₂
  intro f hf
  cases Helper.afterClear_cases hx ho₃ with
  | failed hfalse =>
      have hvalue' : o₃.value = true := hvalue
      rw [hfalse] at hvalue'
      cases hvalue'
  | completed last _ hrecords hcompleted =>
      rw [Transfer.completed, Bool.and_eq_true] at hcompleted
      have hset : last.flags f = true := by
        rcases hf with rfl | rfl
        · exact hcompleted.1
        · exact hcompleted.2
      have hcleared : f ∈ x.transfer.cleared := by
        rcases hf with rfl | rfl <;> simp [Transfer.cleared]
      have hlast := hrecords f
      rw [hset] at hlast
      simp only [Flags.clear, hcleared, if_true, Bool.false_or] at hlast
      simp [← hlast]

theorem Helper.course (hx : x.Controlled) (hp : x.Proper handles) {length : UInt8}
    (ho : x.run length b env = some o) : x.Course handles o.trace o.value := by
  have hdone := Helper.signalled_of_run hp ho
  unfold Helper.run at ho
  split at ho
  · rw [Replay.pure_some.mp ho]
    exact .refused
  · obtain ⟨o₁, ho₁, p₁, hp₁, rfl⟩ := Replay.bind_some.mp ho
    obtain ⟨o₂, ho₂, p₂, hp₂, rfl⟩ := Replay.bind_some.mp hp₁
    obtain ⟨o₃, ho₃, p₃, hp₃, rfl⟩ := Replay.bind_some.mp hp₂
    obtain ⟨o₄, ho₄, p₄, hp₄, rfl⟩ := Replay.bind_some.mp hp₃
    obtain rfl := Option.some.inj ho₂
    obtain ⟨w₁, hw₁, htrace₁⟩ := halStart_some ho₄
    have hw : Idle (o₁.trace ++ (o₃.trace ++ w₁)) :=
      (hx.before.idle.post _ _ _ ho₁).append ((hx.prepare.idle.post _ _ _ ho₃).append hw₁)
    cases hfirst : o₄.value with
    | false =>
        rw [hfirst] at hp₄ htrace₁
        have hv := Helper.fail_idle hx hp₄
        obtain ⟨hvalue, habort⟩ := Helper.fail_spec hp hp₄
        have hcourse := Helper.Course.firstFailed (x := x) hw hv habort
        rw [show p₄.value = false from hvalue, htrace₁]
        simpa using hcourse
    | true =>
        rw [hfirst] at hp₄ htrace₁
        obtain ⟨o₅, ho₅, p₅, hp₅, rfl⟩ := Replay.bind_some.mp hp₄
        obtain ⟨o₆, ho₆, p₆, hp₆, rfl⟩ := Replay.bind_some.mp hp₅
        obtain ⟨w₂, hw₂, htrace₂⟩ := halStart_some ho₆
        have hw' : Idle (o₅.trace ++ w₂) := (hx.between.idle.post _ _ _ ho₅).append hw₂
        cases hsecond : o₆.value with
        | false =>
            rw [hsecond] at hp₆ htrace₂
            have hv := Helper.fail_idle hx hp₆
            obtain ⟨hvalue, habort⟩ := Helper.fail_spec hp hp₆
            have hcourse := Helper.Course.secondFailed (x := x) hw hw' hv habort
            rw [show p₆.value = false from hvalue, htrace₁, htrace₂]
            simpa using hcourse
        | true =>
            rw [hsecond] at hp₆ htrace₂
            obtain ⟨o₇, ho₇, p₇, hp₇, rfl⟩ := Replay.bind_some.mp hp₆
            have htick : Idle o₇.trace :=
              (controls_pause.bind fun a => controls_pure a.count).idle.post _ _ _ ho₇
            have hv : Idle (o₇.trace ++ p₇.trace) := htick.append (Helper.finish_idle hx hp₇)
            have htrace : o₁.trace ++ ([] ++ (o₃.trace ++ (o₄.trace ++ (o₅.trace ++
                (o₆.trace ++ (o₇.trace ++ p₇.trace)))))) =
                (o₁.trace ++ (o₃.trace ++ w₁)) ++ .start x.first true :: ((o₅.trace ++ w₂) ++
                  .start x.second true :: (o₇.trace ++ p₇.trace)) := by
              simp [htrace₁, htrace₂]
            show x.Course handles (o₁.trace ++ ([] ++ _)) p₇.value
            cases hvalue : p₇.value with
            | false =>
                rw [htrace]
                refine .waitFailed hw hw' hv fun handle hh => ?_
                have haborted := Helper.finish_aborted hp hp₇ hvalue handle hh
                exact ⟨List.mem_append_right _ haborted.1, List.mem_append_right _ haborted.2⟩
            | true =>
                have hsignalled := hdone hvalue
                rw [htrace] at hsignalled ⊢
                exact .completed hw hw' hv hsignalled

/-! ### What a call relies on -/

/-- The operations of a helper are those of a bus, each on a handle of its own, and its two
completion flags are theirs. -/
structure Helper.OnBus (x : Helper) (p : Peripheral) (handles : List Handle) : Prop where
  first : x.first.completion.flag = some x.transfer.done.2
  second : x.second.completion.flag = some x.transfer.done.1
  firstHandle : x.first.handle ∈ handles
  secondHandle : x.second.handle ∈ handles
  distinct : x.first.handle ≠ x.second.handle
  completes : ∀ (cb : Callback) f,
    f = x.transfer.done.1 ∨ f = x.transfer.done.2 → cb.flag = some f →
    cb.completes = some p

/-- The operation was started and completed, and its completion alone has set the flag. -/
structure Relied (op : Operation) (f : Flag) (w : List Act) : Prop where
  completed : [.start op true, .callback op.completion].Sublist w
  only : w.filter (Act.sets f) = [.callback op.completion]

theorem Helper.Course.attempts_prefix {w : List Act} {returned : Bool}
    (h : x.Course handles w returned) : attempts w <+: [x.first, x.second] := by
  cases h with
  | refused => exact List.nil_prefix
  | firstFailed hw hv =>
      rw [attempts_append, attempts_start, hw, hv]
      exact List.prefix_append [x.first] [x.second]
  | secondFailed hw hw' hv | waitFailed hw hw' hv | completed hw hw' hv =>
      rw [attempts_append, attempts_start, attempts_append, attempts_start, hw, hw', hv]
      exact List.prefix_rfl

theorem Helper.Course.op_eq {w : List Act} {returned : Bool} (h : x.Course handles w returned)
    {op : Operation} {ok : Bool} (hop : .start op ok ∈ w) : op = x.first ∨ op = x.second := by
  simpa using h.attempts_prefix.subset (mem_attempts hop)

/-- A call that fails ends with an abort, unless it has started nothing. -/
theorem Helper.Course.aborted {w : List Act} (h : x.Course handles w false) :
    w = [] ∨ ∃ u v, w = u ++ v ∧ Idle v ∧ Aborted handles v := by
  cases h with
  | refused => exact .inl rfl
  | @firstFailed w v _ hv habort => exact .inr ⟨w ++ [.start x.first false], v, by simp, hv, habort⟩
  | @secondFailed w w' v _ _ hv habort =>
      exact .inr ⟨w ++ .start x.first true :: (w' ++ [.start x.second false]), v, by simp, hv,
        habort⟩
  | @waitFailed w w' v _ _ hv habort =>
      exact .inr ⟨w ++ .start x.first true :: (w' ++ [.start x.second true]), v, by simp, hv,
        habort⟩

theorem Helper.Course.signalled {w : List Act} (h : x.Course handles w true) :
    ∀ f, f = x.transfer.done.1 ∨ f = x.transfer.done.2 → signalled f w = true := by
  cases h with
  | completed _ _ _ hdone => exact hdone

/-- When a call starts an operation, its handle is free. -/
theorem Helper.Course.handle_free {p : Peripheral} (hb : x.OnBus p handles) {w : List Act}
    {returned : Bool} (h : x.Course handles w returned) {w₁ w₂ : List Act} {op : Operation}
    {ok : Bool} (hw : w = w₁ ++ .start op ok :: w₂) :
    ∀ op' ∈ underway p w₁, op'.handle ≠ op.handle := by
  intro op' hop'
  have hmem := mem_attempts (mem_underway hop')
  have hprefix := h.attempts_prefix
  rw [hw, attempts_append, attempts_start] at hprefix
  match hw₁ : attempts w₁ with
  | [] =>
      rw [hw₁] at hmem
      cases hmem
  | [op₁] =>
      rw [hw₁] at hmem hprefix
      obtain ⟨rfl, hrest⟩ := List.cons_prefix_cons.mp hprefix
      obtain ⟨rfl, _⟩ := List.cons_prefix_cons.mp hrest
      rw [List.mem_singleton.mp hmem]
      exact hb.distinct
  | op₁ :: op₂ :: ops =>
      have hlength := hprefix.length_le
      rw [hw₁] at hlength
      simp only [List.length_append, List.length_cons, List.length_nil] at hlength
      omega

theorem Transfer.done_ne (t : Transfer) : t.done.1 ≠ t.done.2 := by
  cases t <;> decide

/-- A completion flag of a helper and the operation that it stands for. -/
inductive Helper.Awaits (x : Helper) : Operation → Flag → Prop
  | first : Awaits x x.first x.transfer.done.2
  | second : Awaits x x.second x.transfer.done.1

theorem Helper.Awaits.flag_mem {op : Operation} {f : Flag} (h : x.Awaits op f) :
    f = x.transfer.done.1 ∨ f = x.transfer.done.2 := by
  cases h with
  | first => exact .inr rfl
  | second => exact .inl rfl

theorem Helper.Awaits.flag {p : Peripheral} (hb : x.OnBus p handles) {op : Operation} {f : Flag}
    (h : x.Awaits op f) : op.completion.flag = some f := by
  cases h with
  | first => exact hb.first
  | second => exact hb.second

/-- The flag tells the two operations apart. -/
theorem Helper.Awaits.unique {p : Peripheral} (hb : x.OnBus p handles) {op op' : Operation}
    {f : Flag} (h : x.Awaits op f) (hop' : op' = x.first ∨ op' = x.second)
    (hf : op'.completion.flag = some f) : op' = op := by
  rcases hop' with rfl | rfl
  · rw [hb.first] at hf
    cases h with
    | first => rfl
    | second => exact absurd (Option.some.inj hf).symm x.transfer.done_ne
  · rw [hb.second] at hf
    cases h with
    | first => exact absurd (Option.some.inj hf) x.transfer.done_ne
    | second => rfl

section

variable {p : Peripheral} {w : List Act} {returned : Bool} {op : Operation} {f : Flag}

/-- In a call, a completion flag is set by the completion of the operation that it stands for,
after that was started. -/
theorem Helper.Course.callback_eq (hb : x.OnBus p handles) (h : x.Course handles w returned)
    (hrules : KeepsRules p w) (hop : x.Awaits op f) {cb : Callback} (hf : cb.flag = some f)
    {w₁ w₂ : List Act} (hw : w = w₁ ++ .callback cb :: w₂) :
    cb = op.completion ∧ .start op true ∈ w₁ := by
  have hcompletes := hb.completes cb f hop.flag_mem hf
  have hevents : events p w = events p w₁ ++ .complete cb :: events p w₂ := by
    rw [hw, events_append]
    exact congrArg _ (List.filterMap_cons_some (if_pos hcompletes))
  rw [KeepsRules, hevents] at hrules
  obtain ⟨op', rfl, hnone | hstart⟩ := hrules.exists_start
  · cases hnone
  · have hmem := mem_events_start.mp hstart
    have hstarted : .start op' true ∈ w := by
      rw [hw]
      exact List.mem_append_left _ hmem
    obtain rfl := hop.unique hb (h.op_eq hstarted) hf
    exact ⟨rfl, hmem⟩

/-- A trace starts no more operations with a completion than it tries to. -/
theorem starts_le_attempts (p : Peripheral) (w : List Act) (cb : Callback) :
    (events p w).countP (DeviceEvent.starts Operation.completion cb) ≤
      (attempts w).countP (·.completion = cb) := by
  induction w with
  | nil => exact le_rfl
  | cons y w ih =>
      cases y with
      | start op ok =>
          rw [attempts_start, List.countP_cons]
          cases ok with
          | true =>
              show List.countP _ (.start op :: events p w) ≤ _
              rw [List.countP_cons]
              exact Nat.add_le_add_right ih _
          | false => exact ih.trans (Nat.le_add_right _ _)
      | callback cb' =>
          by_cases hp : cb'.completes = some p
          · have hevents : events p (.callback cb' :: w) = .complete cb' :: events p w :=
              List.filterMap_cons_some (if_pos hp)
            rw [hevents, List.countP_cons]
            exact ih
          · have hevents : events p (.callback cb' :: w) = events p w :=
              List.filterMap_cons_none (if_neg hp)
            rw [hevents]
            exact ih
      | init h =>
          show List.countP _ (.cancel h :: events p w) ≤ _
          rw [List.countP_cons]
          exact ih
      | _ => exact ih

/-- In a call, each of the two operations is completed at most once. -/
theorem Helper.Course.completions_le (hb : x.OnBus p handles) (h : x.Course handles w returned)
    (hrules : KeepsRules p w) (hop : x.Awaits op f) :
    (underway p w).countP (·.completion = op.completion) +
      (events p w).countP (DeviceEvent.completes op.completion) ≤ 1 := by
  have hstarts : (attempts w).countP (·.completion = op.completion) ≤ 1 := by
    have hne : x.first.completion ≠ x.second.completion := by
      intro heq
      have hflag := hb.first
      rw [heq, hb.second] at hflag
      exact x.transfer.done_ne (Option.some.inj hflag)
    refine (h.attempts_prefix.sublist.countP_le).trans ?_
    cases hop with
    | first => simp [hne.symm]
    | second => simp [hne]
  have hlawful := LawfulLog.completions_le hrules op.completion
  have hattempts := starts_le_attempts p w op.completion
  simp only [List.countP_nil, zero_add] at hlawful
  exact hlawful.trans (hattempts.trans hstarts)

theorem exists_of_signalled (h : Firmware.signalled f w = true) :
    ∃ cb, cb.flag = some f ∧ .callback cb ∈ w := by
  obtain ⟨y, hy, hsets⟩ := List.any_eq_true.mp h
  cases y with
  | callback cb => exact ⟨cb, of_decide_eq_true hsets, hy⟩
  | _ => cases hsets

/-- A call that returns OK relies on the completions of its own two operations. -/
theorem Helper.Course.relied (hb : x.OnBus p handles) (h : x.Course handles w true)
    (hrules : KeepsRules p w) (hop : x.Awaits op f) : Relied op f w := by
  obtain ⟨cb, hf, hcb⟩ := exists_of_signalled (h.signalled f hop.flag_mem)
  obtain ⟨w₁, w₂, hw⟩ := List.append_of_mem hcb
  obtain ⟨rfl, hstart⟩ := h.callback_eq hb hrules hop hf hw
  constructor
  · rw [hw]
    have hcompletion : [.callback op.completion].Sublist (.callback op.completion :: w₂) :=
      List.singleton_sublist.mpr List.mem_cons_self
    exact (List.singleton_sublist.mpr hstart).append hcompletion
  · have hone : (w.filter (Act.sets f)).length ≤ 1 := by
      have hevents : w.countP (Act.sets f) ≤
          (events p w).countP (DeviceEvent.completes op.completion) := by
        rw [events, List.countP_filterMap]
        apply List.countP_mono_left
        intro y hy hsets
        cases y with
        | callback cb' =>
            have hf' : cb'.flag = some f := of_decide_eq_true hsets
            obtain ⟨w₁', w₂', hw'⟩ := List.append_of_mem hy
            obtain ⟨rfl, _⟩ := h.callback_eq hb hrules hop hf' hw'
            simp [Act.event, hb.completes _ _ hop.flag_mem hf', DeviceEvent.completes]
        | _ => cases hsets
      rw [← List.countP_eq_length_filter]
      exact hevents.trans ((Nat.le_add_left _ _).trans (h.completions_le hb hrules hop))
    have hmem : .callback op.completion ∈ w.filter (Act.sets f) :=
      List.mem_filter.mpr ⟨hcb, decide_eq_true hf⟩
    cases hfilter : w.filter (Act.sets f) with
    | nil =>
        rw [hfilter] at hmem
        cases hmem
    | cons y ys =>
        cases ys with
        | nil =>
            rw [hfilter] at hmem
            rw [List.mem_singleton.mp hmem]
        | cons _ _ =>
            rw [hfilter] at hone
            simp at hone

/-- When a call returns, nothing that it has started is outstanding. -/
theorem Helper.Course.nothing_left (hb : x.OnBus p handles) (h : x.Course handles w returned)
    (hrules : KeepsRules p w) : underway p w = [] := by
  apply List.eq_nil_iff_forall_not_mem.mpr
  intro op hop
  have hstarted := h.op_eq (mem_underway hop)
  cases returned with
  | false =>
      rcases h.aborted with rfl | ⟨u, v, rfl, hv, habort⟩
      · cases hop
      · have hhandle : op.handle ∈ handles := by
          rcases hstarted with rfl | rfl
          · exact hb.firstHandle
          · exact hb.secondHandle
        have hcancel : .cancel op.handle ∈ events p v :=
          List.mem_filterMap.mpr ⟨_, (habort op.handle hhandle).2, rfl⟩
        rw [underway, events_append, outstanding_append] at hop
        exact outstanding_cancelled hv.started hcancel op hop rfl
  | true =>
      obtain ⟨f, hawaits⟩ : ∃ f, x.Awaits op f := by
        rcases hstarted with rfl | rfl
        · exact ⟨_, .first⟩
        · exact ⟨_, .second⟩
      have hrelied := h.relied hb hrules hawaits
      have hcompleted : .complete op.completion ∈ events p w := by
        apply mem_events_complete.mpr
        refine ⟨hrelied.completed.subset (by simp), ?_⟩
        exact hb.completes _ f hawaits.flag_mem (hawaits.flag hb)
      have hcompletions : 0 < (events p w).countP (DeviceEvent.completes op.completion) :=
        List.countP_pos_iff.mpr ⟨_, hcompleted, decide_eq_true rfl⟩
      have hunderway : 0 < (underway p w).countP (·.completion = op.completion) :=
        List.countP_pos_iff.mpr ⟨op, hop, decide_eq_true rfl⟩
      have hle := h.completions_le hb hrules hawaits
      omega

end

end

/-! ### The helpers of the backends -/

/-- All ten helpers. -/
theorem TransferCall.helper_controlled (txData : List UInt8) (rxData : Buffer) (length : UInt8)
    (c : TransferCall) : (c.helper txData rxData length).val.Controlled :=
  have hplain := c.helper_plain txData rxData length
  ⟨hplain.before.controls, hplain.prepare.controls, hplain.between.controls,
    hplain.abort.controls⟩

/-- The bus of a transfer. -/
def Transfer.peripheral : Transfer → Peripheral
  | .uart => .uart
  | .spi => .spi
  | .i2cMasterToSlave | .i2cSlaveToMaster => .i2c

/-- The bus of a completion flag. -/
def Flag.completes : Flag → Option Peripheral
  | .appUartTxDone | .appUartRxDone => some .uart
  | .appSpiMasterDone | .appSpiSlaveDone => some .spi
  | .appI2cMasterTxDone | .appI2cMasterRxDone | .appI2cSlaveTxDone | .appI2cSlaveRxDone =>
      some .i2c
  | .appUartError | .appSpiError | .appI2cError => none

theorem completes_of_flag {cb : Callback} {f : Flag} (h : cb.flag = some f) :
    cb.completes = f.completes := by
  cases cb with
  | halSpiTxRxCplt hspi => cases hspi <;> (cases h; rfl)
  | halI2cMasterTxCplt hi2c | halI2cMasterRxCplt hi2c | halI2cSlaveTxCplt hi2c
  | halI2cSlaveRxCplt hi2c =>
      cases hi2c
      all_goals cases h
      all_goals rfl
  | _ =>
      cases h
      rfl

theorem Transfer.completes_done {t : Transfer} {f : Flag} (hf : f = t.done.1 ∨ f = t.done.2) :
    f.completes = some t.peripheral := by
  rcases hf with rfl | rfl
  · cases t <;> rfl
  · cases t <;> rfl

/-- The calls of a backend. -/
def Loopback.calls (x : Loopback) : List TransferCall := [x.forth, x.back]

theorem Backend.helper_onBus {b : Backend} {x : Loopback} (hx : b.loopback = some x)
    {c : TransferCall} (hc : c ∈ x.calls) (txData : List UInt8) (rxData : Buffer)
    (length : UInt8) :
    (c.helper txData rxData length).val.OnBus b.peripheral c.handles := by
  have hcompletes : ∀ {t : Transfer}, t.peripheral = b.peripheral → ∀ (cb : Callback) f,
      f = t.done.1 ∨ f = t.done.2 → cb.flag = some f → cb.completes = some b.peripheral := by
    intro t ht cb f hf hcb
    rw [completes_of_flag hcb, Transfer.completes_done hf, ht]
  cases b with
  | timer | adc => cases hx
  | uartIt | uartDma | spiIt | spiDma | i2cIt | i2cDma =>
      obtain rfl := Option.some.inj hx
      simp only [Loopback.calls, List.mem_cons, List.not_mem_nil, or_false] at hc
      -- the first operation is on the second of the two handles
      rcases hc with rfl | rfl
      · exact ⟨rfl, rfl, List.mem_cons_of_mem _ List.mem_cons_self, List.mem_cons_self,
          (fun h => by cases h), hcompletes rfl⟩
      · exact ⟨rfl, rfl, List.mem_cons_of_mem _ List.mem_cons_self, List.mem_cons_self,
          (fun h => by cases h), hcompletes rfl⟩

/-- The parts of a backend that are not transfers start nothing. -/
structure Loopback.Controlled (x : Loopback) : Prop where
  start : Controls x.start
  prepare : Controls x.prepare
  between : Controls x.between

theorem Backend.loopback_controlled {b : Backend} {x : Loopback} (hx : b.loopback = some x) :
    x.Controlled :=
  have hplain := b.loopback_plain hx
  ⟨hplain.start.controls, hplain.prepare.controls, hplain.between.controls⟩

/-! ### Histories -/

/-- What a task does with the commands it receives. -/
def Backend.serve (b : Backend) : List Command → Handler Unit
  | [] => pure ()
  | c :: cs => do
      -- xQueueReceive
      let _ ← pause
      b.execute c
      b.serve cs

/-- A call of a transfer helper in a run: from what, and with what outcome. -/
structure HelperCall where
  callee : TransferCall
  txData : List UInt8
  rxData : Buffer
  length : UInt8
  board : Board
  recording : List Slot
  outcome : Outcome Board Slot Act Bool
  returns : callee.run txData rxData length board recording = some outcome

/-- The helper of a call. -/
def HelperCall.helper (c : HelperCall) : Helper := (c.callee.helper c.txData c.rxData c.length).val

/-- A piece of a trace: a call of a transfer helper, or acts between two calls. -/
inductive Piece where
  | call (c : HelperCall)
  | between (w : List Act)

def Piece.trace : Piece → List Act
  | .call c => c.outcome.trace
  | .between w => w

/-- The trace of some pieces. -/
def traceOf (pieces : List Piece) : List Act := pieces.flatMap Piece.trace

/-- The pieces of a trace: calls of these helpers, and nothing is started between two calls. -/
structure Pieces (calls : List TransferCall) (w : List Act) (pieces : List Piece) : Prop where
  trace : w = traceOf pieces
  callee : ∀ c, .call c ∈ pieces → c.callee ∈ calls
  idle : ∀ w, .between w ∈ pieces → Idle w

/-- The trace of the part can be taken to pieces. -/
def HasPieces {α : Type} (calls : List TransferCall) (m : Handler α) : Prop :=
  m.Ensures fun o => ∃ pieces, Pieces calls o.trace pieces

namespace HasPieces

variable {calls : List TransferCall} {α β : Type} {m : Handler α}

theorem bind {f : α → Handler β} (hm : HasPieces calls m) (hf : ∀ a, HasPieces calls (f a)) :
    HasPieces calls (m >>= f) := by
  apply Replay.Ensures.bind hm
  rintro o₁ ⟨pieces₁, h₁⟩
  apply (hf o₁.value).mono
  rintro o₂ ⟨pieces₂, h₂⟩
  refine ⟨pieces₁ ++ pieces₂, ?_, ?_, ?_⟩
  · rw [traceOf, List.flatMap_append, h₁.trace, h₂.trace]
    rfl
  · intro c hc
    rcases List.mem_append.mp hc with hc | hc
    · exact h₁.callee c hc
    · exact h₂.callee c hc
  · intro w hw
    rcases List.mem_append.mp hw with hw | hw
    · exact h₁.idle w hw
    · exact h₂.idle w hw

/-- A part that starts nothing is one piece. -/
theorem idle (h : m.Ensures fun o => Idle o.trace) : HasPieces calls m := by
  apply Replay.Ensures.mono h
  intro o ho
  refine ⟨[.between o.trace], by simp [traceOf, Piece.trace], by simp, ?_⟩
  intro w hw
  obtain rfl := Piece.between.inj (List.mem_singleton.mp hw)
  exact ho

theorem controls (h : Controls m) : HasPieces calls m := idle h.idle

theorem pure (a : α) : HasPieces calls (Pure.pure a : Handler α) := controls (controls_pure a)

theorem ite {c : Prop} [Decidable c] {m' : Handler α} (hm : HasPieces calls m)
    (hm' : HasPieces calls m') : HasPieces calls (if c then m else m') := by
  split
  · exact hm
  · exact hm'

theorem allOf {ι : Type} {body : ι → Handler Bool} (h : ∀ i, HasPieces calls (body i))
    (l : List ι) : HasPieces calls (Replay.allOf l body) := by
  induction l with
  | nil => exact pure true
  | cons i l ih =>
      rw [Replay.allOf_cons]
      exact (h i).bind fun passed => ite ih (pure false)

/-- A call of a helper is one piece. -/
theorem call {c : TransferCall} (hc : c ∈ calls) (txData : List UInt8) (rxData : Buffer)
    (length : UInt8) : HasPieces calls (c.run txData rxData length) := by
  constructor
  intro b env o ho
  refine ⟨[.call ⟨c, txData, rxData, length, b, env, o, ho⟩], by simp [traceOf, Piece.trace],
    ?_, by simp⟩
  intro c' hc'
  obtain rfl := Piece.call.inj (List.mem_singleton.mp hc')
  exact hc

/-- An act that is no start. -/
theorem act {x : Act} (hx : x.attempt = none) : HasPieces calls (Handler.act x) := by
  apply idle
  constructor
  intro b env o ho
  obtain rfl := Option.some.inj ho
  exact List.filterMap_cons_none hx

theorem compare (expected actual : List UInt8) (length : UInt8) :
    HasPieces calls (Handler.compare expected actual length) := by
  apply (controls controls_pause).bind
  intro a
  apply HasPieces.bind (m := Replay.get) (controls Replay.emits_get)
  intro b
  exact (controls (controls_modify _)).bind fun _ => (act rfl).bind fun _ => pure _

theorem failWith (line : String) : HasPieces calls (Firmware.failWith line) :=
  (act rfl).bind fun _ => pure false

theorem controls_bytes (buffer : Buffer) : Controls (bytes buffer) :=
  Replay.Emits.bind Replay.emits_get fun b => controls_pure (b.buffers buffer).toList

/-- A stage of an iteration has at most one call. -/
theorem stage {x : Loopback} (hx : x.Controlled) (c : Command) (stage : Stage) :
    HasPieces x.calls (x.stage c stage) := by
  have hcompare : ∀ buffer, HasPieces x.calls (comparePattern c buffer) := fun buffer =>
    bind (m := bytes buffer) (controls (controls_bytes _)) fun actual => compare _ _ _
  cases stage with
  | forth => exact (controls hx.prepare).bind fun _ => call List.mem_cons_self _ _ _
  | forthCompared => exact hcompare x.received
  | back =>
      apply (controls hx.between).bind
      intro _
      apply bind (m := bytes x.received) (controls (controls_bytes _))
      intro there
      exact call (List.mem_cons_of_mem _ List.mem_cons_self) _ _ _
  | backCompared => exact hcompare x.returned

theorem iteration {x : Loopback} (hx : x.Controlled) (failed : Fin 4 → String) (name : String)
    (c : Command) (i : ℕ) : HasPieces x.calls ((x.test failed name).iteration c i) := by
  rw [x.iteration_eq]
  apply allOf
  intro stage
  exact (HasPieces.stage hx c stage).bind fun passed => ite (pure true) (failWith _)

theorem test {b : Backend} {x : Loopback} (hx : b.loopback = some x) (c : Command) :
    HasPieces x.calls (b.test c) := by
  rcases b.test_cases hx c with ⟨failed, name, htest⟩ | ⟨_, htest⟩
  · rw [htest]
    have hparts := b.loopback_controlled hx
    apply (controls hparts.start).bind
    intro _
    have hloop : HasPieces x.calls (iterations c ((x.test failed name).iteration c)) :=
      allOf (fun i => iteration hparts failed name c i) _
    exact hloop.bind fun passed => pure (verdict passed)
  · rw [htest]
    exact pure _

theorem respond {calls : List TransferCall} (p : Peripheral) (r : Response) :
    HasPieces calls (Handler.respond p r) := by
  apply (controls controls_pause).bind
  intro a
  exact (act rfl).bind fun _ => ite (pure ()) (act rfl)

theorem serve {b : Backend} {x : Loopback} (hx : b.loopback = some x) (cs : List Command) :
    HasPieces x.calls (b.serve cs) := by
  induction cs with
  | nil => exact pure ()
  | cons c cs ih =>
      apply (controls controls_pause).bind
      intro _
      have hexecute : HasPieces x.calls (b.execute c) :=
        (test hx c).bind fun result => respond b.peripheral ⟨c.testId, result⟩
      exact hexecute.bind fun _ => ih

end HasPieces

/-- The completions that a call sees, after a trace, are its own. -/
structure Fresh (p : Peripheral) (before : List Act) (c : HelperCall) : Prop where
  /-- When the call begins, nothing is outstanding on the bus. -/
  clear : underway p before = []
  /-- Whatever the call tries to start, nothing is outstanding on the handle. -/
  free : ∀ w₁ op ok w₂, c.outcome.trace = w₁ ++ .start op ok :: w₂ →
    ∀ op' ∈ underway p (before ++ w₁), op'.handle ≠ op.handle
  /-- What a call that returns OK relies on are the completions of its own two operations. -/
  relied : c.outcome.value = true →
    Relied c.helper.first c.helper.transfer.done.2 c.outcome.trace ∧
      Relied c.helper.second c.helper.transfer.done.1 c.outcome.trace

section

variable {p : Peripheral}

/-- After a trace that leaves nothing outstanding. -/
theorem underway_append {w w' : List Act} (hw : underway p w = []) :
    underway p (w ++ w') = underway p w' := by
  unfold underway at *
  rw [events_append, outstanding_append, hw]

theorem keepsRules_append {w w' : List Act} (hw : underway p w = []) :
    KeepsRules p (w ++ w') ↔ KeepsRules p w ∧ KeepsRules p w' := by
  unfold KeepsRules underway at *
  rw [events_append, lawful_append, hw]

theorem KeepsRules.of_append {w w' : List Act} (h : KeepsRules p (w ++ w')) : KeepsRules p w := by
  unfold KeepsRules at *
  rw [events_append, lawful_append] at h
  exact h.1

/-- The step: a call. -/
theorem HelperCall.fresh {c : HelperCall} {handles : List Handle} (hb : c.helper.OnBus p handles)
    (hproper : c.helper.Proper handles) {before : List Act} (hclear : underway p before = [])
    (hrules : KeepsRules p (before ++ c.outcome.trace)) :
    Fresh p before c ∧ underway p (before ++ c.outcome.trace) = [] := by
  have hrun : c.helper.run c.length c.board c.recording = some c.outcome := by
    rw [← c.returns]
    exact (congrFun (congrFun (c.callee.helper c.txData c.rxData c.length).property _) _).symm
  have hcourse := Helper.course (c.callee.helper_controlled _ _ _) hproper hrun
  have hown := ((keepsRules_append hclear).mp hrules).2
  refine ⟨⟨hclear, ?_, ?_⟩, ?_⟩
  · intro w₁ op ok w₂ hw
    rw [underway_append hclear]
    exact hcourse.handle_free hb hw
  · intro hvalue
    rw [hvalue] at hcourse
    exact ⟨hcourse.relied hb hown .first, hcourse.relied hb hown .second⟩
  · rw [underway_append hclear]
    exact hcourse.nothing_left hb hown

/-- Nothing is started between two calls. -/
theorem Idle.underway {w : List Act} (hw : Idle w) : underway p w = [] := by
  apply List.eq_nil_iff_forall_not_mem.mpr
  intro op hop
  have hmem := mem_attempts (mem_underway hop)
  rw [hw] at hmem
  cases hmem

end

theorem traceOf_append (pieces pieces' : List Piece) :
    traceOf (pieces ++ pieces') = traceOf pieces ++ traceOf pieces' := List.flatMap_append

/-- The run: after any pieces of a trace nothing is outstanding. -/
theorem Pieces.clear {b : Backend} {x : Loopback} (hx : b.loopback = some x) {pieces : List Piece}
    {w : List Act} (h : Pieces x.calls w pieces) (hrules : KeepsRules b.peripheral w) :
    underway b.peripheral w = [] := by
  induction pieces using List.reverseRecOn generalizing w with
  | nil =>
      rw [h.trace]
      rfl
  | append_singleton pieces piece ih =>
      have hw : w = traceOf pieces ++ piece.trace := by
        rw [h.trace, traceOf_append]
        simp [traceOf]
      have hinit : Pieces x.calls (traceOf pieces) pieces :=
        ⟨rfl, fun c hc => h.callee c (List.mem_append_left _ hc),
          fun w hw => h.idle w (List.mem_append_left _ hw)⟩
      rw [hw] at hrules ⊢
      have hbefore := ih hinit ((KeepsRules.of_append hrules))
      have hlast : piece ∈ pieces ++ [piece] := List.mem_append_right _ List.mem_cons_self
      cases piece with
      | call c =>
          exact (c.fresh (b.helper_onBus hx (h.callee c hlast) _ _ _)
            (c.callee.helper_proper _ _ _) hbefore hrules).2
      | between w =>
          rw [underway_append hbefore]
          exact (h.idle w hlast).underway

/-- **No stale completions**: after any history of commands, with any mix of successful and failed
transfers, no operation of an earlier call is outstanding when a transfer helper starts its
operations, and the completions that a helper relies on when it returns OK are those of its own two
operations. -/
theorem no_stale_completions {b : Backend} {x : Loopback} (hx : b.loopback = some x)
    (cs : List Command) {g : Board} {env : List Slot} {o : Outcome Board Slot Act Unit}
    (ho : b.serve cs g env = some o) (hrules : KeepsRules b.peripheral o.trace) :
    ∃ pieces, Pieces x.calls o.trace pieces ∧
      ∀ before c after, pieces = before ++ .call c :: after →
        Fresh b.peripheral (traceOf before) c := by
  obtain ⟨pieces, hpieces⟩ := (HasPieces.serve hx cs).post _ _ _ ho
  refine ⟨pieces, hpieces, ?_⟩
  rintro before c after rfl
  have hw : o.trace = (traceOf before ++ c.outcome.trace) ++ traceOf after := by
    rw [hpieces.trace, traceOf_append, List.append_assoc]
    rfl
  rw [hw] at hrules
  have hcall := hrules.of_append
  have hbefore : Pieces x.calls (traceOf before) before :=
    ⟨rfl, fun c hc => hpieces.callee c (List.mem_append_left _ hc),
      fun w hw => hpieces.idle w (List.mem_append_left _ hw)⟩
  have hcallee : c.callee ∈ x.calls :=
    hpieces.callee c (List.mem_append_right _ List.mem_cons_self)
  exact (c.fresh (b.helper_onBus hx hcallee _ _ _) (c.callee.helper_proper _ _ _)
    (hbefore.clear hx hcall.of_append) hcall).1

/-- A command of the SPI: one byte, once. -/
def spiCommand (testId : UInt32) : Command :=
  ⟨testId, Peripheral.spi.code, 1, 1, Vector.replicate appProtocolMaxPatternLen 0x55⟩

/-- In the first command the slave reports an error while its transfer is outstanding; the second
command passes. -/
def mixedHistory : List Slot :=
  let quiet := quietSlot 0
  let failed := [quiet, quiet, quiet,
    { quiet with
      writes := [(.spi .hspi1, [0xFF])]
      fired := [.halSpiTxRxCplt .hspi1, .halSpiError .hspi2] }]
  let abort := List.replicate 9 quiet
  let forth := [quiet, quiet, quiet,
    { quiet with
      writes := [(.spi .hspi2, [0x55]), (.spi .hspi1, [0xFF])]
      fired := [.halSpiTxRxCplt .hspi2, .halSpiTxRxCplt .hspi1] }]
  let back := [quiet, quiet, quiet,
    { quiet with
      writes := [(.spi .hspi2, [0xFF]), (.spi .hspi1, [0x55])]
      fired := [.halSpiTxRxCplt .hspi2, .halSpiTxRxCplt .hspi1] }]
  [quiet] ++ failed ++ abort ++ [quiet] ++ [quiet] ++ forth ++ [quiet] ++ back ++ [quiet, quiet]

theorem no_stale_completions_mixed :
    ∃ x o, Backend.spiIt.loopback = some x ∧
      Backend.spiIt.serve [spiCommand 1, spiCommand 2] restingBoard mixedHistory = some o ∧
      ∃ pieces, Pieces x.calls o.trace pieces ∧
        ∀ before c after, pieces = before ++ .call c :: after →
          Fresh .spi (traceOf before) c := by
  obtain ⟨o, ho, hrules⟩ := Option.map_eq_some_iff.mp (show
    (Backend.spiIt.serve [spiCommand 1, spiCommand 2] restingBoard mixedHistory).map
      (fun o => decide (KeepsRules .spi o.trace)) = some true by decide +kernel)
  exact ⟨_, o, rfl, ho,
    no_stale_completions rfl [spiCommand 1, spiCommand 2] ho (of_decide_eq_true hrules)⟩

end PeripheralTester.Firmware
