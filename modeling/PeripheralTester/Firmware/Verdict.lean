import PeripheralTester.Firmware.Handlers
import PeripheralTester.Firmware.TransferCalls

/-! # What a PASS says

A handler that reports `APP_PROTOCOL_TEST_SUCCESS` has completed all its iterations
(`passed_completed`): in its trace each of them left its `Evidence`.  This says nothing when the
command asks for no iterations; a command comes unvalidated from the network, and no handler looks
at the field.  `pass_tested_iff` is the exact condition under which a PASS means that something was
tested. -/

namespace PeripheralTester.Firmware

open Lib Handler

/-! ### Parts that send no response -/

def Act.isResponse : Act → Bool
  | .respond _ _ => true
  | _ => false

/-- The part of a handler sends no response. -/
def Silent {α : Type} (m : Handler α) : Prop := m.Emits fun x => x.isResponse = false

theorem Silent.bind {α β : Type} {m : Handler α} {f : α → Handler β} (hm : Silent m)
    (hf : ∀ a, Silent (f a)) : Silent (m >>= f) := Replay.Emits.bind hm hf

theorem silent_pure {α : Type} (a : α) : Silent (pure a : Handler α) := Replay.emits_pure a

theorem silent_ite {α : Type} {c : Prop} [Decidable c] {m m' : Handler α} (hm : Silent m)
    (hm' : Silent m') : Silent (if c then m else m') := Replay.emits_ite hm hm'

theorem silent_modify (f : Board → Board) : Silent (Replay.modify f : Handler Unit) :=
  Replay.emits_modify f

theorem emits_callbacks {P : Act → Prop} (hP : ∀ cb, P (.callback cb)) (l : List Callback) :
    ∀ x ∈ l.map Act.callback, P x := by
  intro x hx
  obtain ⟨cb, _, rfl⟩ := List.mem_map.mp hx
  exact hP cb

theorem emits_pause {P : Act → Prop} (hP : ∀ cb, P (.callback cb)) : pause.Emits P := by
  apply Replay.Emits.bind Replay.emits_next
  intro a
  apply Replay.Emits.bind (Replay.emits_modify _)
  intro _
  apply Replay.Emits.bind (Replay.emits_emit (emits_callbacks hP a.fired))
  exact fun _ => Replay.emits_pure a

theorem emits_act {P : Act → Prop} {x : Act} (h : P x) : (act x).Emits P := by
  apply Replay.emits_emit
  intro y hy
  rw [List.mem_singleton.mp hy]
  exact h

theorem emits_vTaskDelay {P : Act → Prop} (hP : ∀ cb, P (.callback cb)) {ms : ℕ}
    (hms : P (.delay ms)) : (vTaskDelay ms).Emits P :=
  (emits_act hms).bind fun _ => (emits_pause hP).bind fun _ => Replay.emits_pure ()

/-- An act by which a handler sets up its hardware, waits or logs, or a callback. -/
def Act.isControl : Act → Bool
  | .callback _ | .abort _ | .deInit _ | .init _ | .delay _ | .log _ => true
  | _ => false

/-- The part of a handler does nothing but such acts. -/
def Controls {α : Type} (m : Handler α) : Prop := m.Emits fun x => x.isControl = true

theorem Controls.bind {α β : Type} {m : Handler α} {f : α → Handler β} (hm : Controls m)
    (hf : ∀ a, Controls (f a)) : Controls (m >>= f) := Replay.Emits.bind hm hf

theorem Controls.silent {α : Type} {m : Handler α} (h : Controls m) : Silent m := by
  apply Replay.Ensures.mono h
  intro o ho x hx
  have hcontrol := ho x hx
  cases x with
  | respond => cases hcontrol
  | _ => rfl

theorem controls_pure {α : Type} (a : α) : Controls (pure a : Handler α) := Replay.emits_pure a

theorem controls_modify (f : Board → Board) : Controls (Replay.modify f : Handler Unit) :=
  Replay.emits_modify f

theorem controls_pause : Controls pause := emits_pause fun _ => rfl

theorem controls_appLogIf (line : Option String) : Controls (appLogIf line) := by
  cases line with
  | none => exact controls_pure ()
  | some line => exact emits_act rfl

theorem controls_vTaskDelay (ms : ℕ) : Controls (vTaskDelay ms) :=
  emits_vTaskDelay (fun _ => rfl) rfl

theorem controls_halStop {x : Handle → Act} {h : Handle} (hx : (x h).isControl = true) :
    Controls (halStop x h) :=
  controls_pause.bind fun _ => Controls.bind (emits_act hx) fun _ => controls_modify _

theorem controls_halInit (h : Handle) : Controls (halInit h) :=
  controls_pause.bind fun _ => emits_act rfl

theorem Prepares.controls {m : Handler Unit} (h : Prepares m) : Controls m := by
  induction h with
  | pure => exact controls_pure ()
  | delay ms => exact controls_vTaskDelay ms
  | memset => exact controls_modify _
  | after _ _ ih ih' => exact ih.bind fun _ => ih'

theorem Resets.controls {m : Handler Unit} (h : Resets m) : Controls m := by
  induction h with
  | pure => exact controls_pure ()
  | abort h | deInit h => exact controls_halStop rfl
  | init h => exact controls_halInit h
  | delay ms => exact controls_vTaskDelay ms
  | clear l => exact controls_pause.bind fun _ => controls_modify _
  | after _ _ ih ih' => exact ih.bind fun _ => ih'

theorem silent_pause : Silent pause := emits_pause fun _ => rfl

theorem silent_act {x : Act} (h : x.isResponse = false) : Silent (act x) := emits_act h

theorem silent_vTaskDelay (ms : ℕ) : Silent (vTaskDelay ms) := emits_vTaskDelay (fun _ => rfl) rfl

theorem silent_appLog (line : String) : Silent (appLog line) := silent_act rfl

theorem silent_appLogIf (line : Option String) : Silent (appLogIf line) :=
  (controls_appLogIf line).silent

theorem silent_halGetTick : Silent halGetTick := silent_pause.bind fun a => silent_pure a.count

theorem silent_halStart (op : Operation) : Silent (halStart op) := by
  apply Silent.bind silent_pause
  intro a
  apply Silent.bind (silent_act rfl)
  intro _
  exact (silent_modify _).bind fun _ => silent_pure a.ok

theorem silent_bytes (buffer : Buffer) : Silent (bytes buffer) :=
  Silent.bind Replay.emits_get fun b => silent_pure (b.buffers buffer).toList

theorem silent_compare (expected actual : List UInt8) (length : UInt8) :
    Silent (compare expected actual length) := by
  apply Silent.bind silent_pause
  intro a
  apply Silent.bind Replay.emits_get
  intro b
  apply Silent.bind (silent_modify _)
  intro _
  exact (silent_act rfl).bind fun _ => silent_pure _

/-! ### Transfers -/

theorem controls_waitLoop (t : Transfer) (startTick : UInt32) :
    Controls (waitLoop t startTick : Handler Poll) := by
  have hcallbacks : ∀ l : List Callback, ∀ x ∈ l.map Act.callback, x.isControl = true :=
    emits_callbacks fun _ => rfl
  have happend : ∀ {l l' : List Act}, (∀ x ∈ l, x.isControl = true) →
      (∀ x ∈ l', x.isControl = true) → ∀ x ∈ l ++ l', x.isControl = true :=
    fun hl hl' => List.forall_mem_append.mpr ⟨hl, hl'⟩
  constructor
  intro b env
  fun_induction waitLoop t startTick b env with
  | case1 | case3 | case5 =>
      intro o ho
      cases ho
  | case2 b a₁ env b₁ acts₁ =>
      intro o ho
      obtain rfl := Option.some.inj ho
      exact hcallbacks a₁.fired
  | case4 b a₁ b₁ acts₁ _ a₂ env b₂ acts₂ =>
      intro o ho
      obtain rfl := Option.some.inj ho
      exact happend (hcallbacks a₁.fired) (hcallbacks a₂.fired)
  | case6 b a₁ b₁ acts₁ _ a₂ b₂ acts₂ _ a₃ env b₃ acts₃ =>
      intro o ho
      obtain rfl := Option.some.inj ho
      exact happend (happend (hcallbacks a₁.fired) (hcallbacks a₂.fired)) (hcallbacks a₃.fired)
  | case7 b a₁ b₁ acts₁ _ a₂ b₂ acts₂ _ a₃ env b₃ acts₃ _ ih =>
      intro o ho
      obtain ⟨o', ho', rfl⟩ := Option.map_eq_some_iff.mp ho
      have hacts₃ := happend (happend (hcallbacks a₁.fired) (hcallbacks a₂.fired))
        (hcallbacks a₃.fired)
      exact happend hacts₃ (List.forall_mem_cons.mpr ⟨rfl, ih o' ho'⟩)

/-- The parts of a transfer helper that are its own send no response. -/
structure Helper.Quiet (x : Helper) : Prop where
  before : Silent x.before
  prepare : Silent x.prepare
  between : Silent x.between
  abort : Silent x.abort

theorem Helper.silent_fail {x : Helper} (hx : x.Quiet) (line : Option String) :
    Silent (x.fail line) :=
  (silent_appLogIf line).bind fun _ => hx.abort.bind fun _ => silent_pure false

theorem Helper.silent_finish {x : Helper} (hx : x.Quiet) (startTick : UInt32) :
    Silent (x.finish startTick) := by
  apply Silent.bind (controls_waitLoop _ _).silent
  intro how
  split
  · exact (silent_act rfl).bind fun _ => silent_pure true
  · exact Helper.silent_fail hx _
  · exact Helper.silent_fail hx _

theorem Helper.silent_run {x : Helper} (hx : x.Quiet) (length : UInt8) : Silent (x.run length) := by
  apply silent_ite (silent_pure false)
  apply Silent.bind hx.before
  intro _
  apply Silent.bind (silent_modify _)
  intro _
  apply Silent.bind hx.prepare
  intro _
  apply Silent.bind (silent_halStart _)
  intro started
  apply silent_ite _ (Helper.silent_fail hx _)
  apply Silent.bind hx.between
  intro _
  apply Silent.bind (silent_halStart _)
  intro started
  apply silent_ite _ (Helper.silent_fail hx _)
  exact silent_halGetTick.bind fun startTick => Helper.silent_finish hx startTick

/-! ### Evidence -/

/-- A part that passes leaves some evidence in its trace. -/
def Leaves (E : List Act → Prop) (m : Handler Bool) : Prop :=
  m.Ensures fun o => o.value = true → ∃ w, E w ∧ w.Sublist o.trace

variable {E E₁ E₂ : List Act → Prop}

theorem leaves_false : Leaves E (pure false) :=
  Replay.ensures_pure fun _ _ h => by cases h

theorem leaves_true (h : E []) : Leaves E (pure true) :=
  Replay.ensures_pure fun _ _ _ => ⟨[], h, List.nil_sublist _⟩

theorem leaves_ite {c : Prop} [Decidable c] {m m' : Handler Bool} (hm : Leaves E m)
    (hm' : Leaves E m') : Leaves E (if c then m else m') := by
  split
  · exact hm
  · exact hm'

/-- What comes last is enough. -/
theorem leaves_after {α : Type} {m : Handler α} {f : α → Handler Bool}
    (hf : ∀ a, Leaves E (f a)) : Leaves E (m >>= f) := by
  apply Replay.ensures_after hf
  intro w o ho hvalue
  obtain ⟨w', hw', hsub⟩ := ho hvalue
  exact ⟨w', hw', hsub.trans (List.sublist_append_right _ _)⟩

/-- An act before the rest. -/
theorem leaves_act {x : Act} {m : Handler Bool} (hm : Leaves E₁ m) (hE : ∀ w, E₁ w → E (x :: w)) :
    Leaves E (act x >>= fun _ => m) := by
  constructor
  intro s env o ho hvalue
  obtain ⟨o₁, ho₁, o₂, ho₂, rfl⟩ := Replay.bind_some.mp ho
  obtain rfl := Option.some.inj ho₁
  obtain ⟨w, hw, hsub⟩ := hm.post _ _ o₂ ho₂ hvalue
  exact ⟨x :: w, hE w hw, hsub.cons_cons x⟩

/-- Evidence, and then more. -/
def Both (E₁ E₂ : List Act → Prop) (w : List Act) : Prop :=
  ∃ w₁ w₂, E₁ w₁ ∧ E₂ w₂ ∧ w = w₁ ++ w₂

/-- A part that must pass before the rest. -/
theorem Leaves.andThen {m f g : Handler Bool} (hm : Leaves E₁ m) (hf : Leaves E₂ f)
    (hg : Leaves (Both E₁ E₂) g) :
    Leaves (Both E₁ E₂) (m >>= fun passed => if passed then f else g) := by
  constructor
  intro s env o ho hvalue
  obtain ⟨o₁, ho₁, o₂, ho₂, rfl⟩ := Replay.bind_some.mp ho
  by_cases hpassed : o₁.value = true
  · rw [if_pos hpassed] at ho₂
    obtain ⟨w₁, hw₁, hsub₁⟩ := hm.post _ _ o₁ ho₁ hpassed
    obtain ⟨w₂, hw₂, hsub₂⟩ := hf.post _ _ o₂ ho₂ hvalue
    exact ⟨w₁ ++ w₂, ⟨w₁, w₂, hw₁, hw₂, rfl⟩, hsub₁.append hsub₂⟩
  · rw [if_neg hpassed] at ho₂
    obtain ⟨w, hw, hsub⟩ := hg.post _ _ o₂ ho₂ hvalue
    exact ⟨w, hw, hsub.trans (List.sublist_append_right _ _)⟩

/-- The last part that must pass. -/
theorem Leaves.atLast {m g : Handler Bool} (hm : Leaves E m) (hg : Leaves E g) :
    Leaves E (m >>= fun passed => if passed then pure true else g) := by
  constructor
  intro s env o ho hvalue
  obtain ⟨o₁, ho₁, o₂, ho₂, rfl⟩ := Replay.bind_some.mp ho
  by_cases hpassed : o₁.value = true
  · obtain ⟨w, hw, hsub⟩ := hm.post _ _ o₁ ho₁ hpassed
    exact ⟨w, hw, hsub.trans (List.sublist_append_left _ _)⟩
  · rw [if_neg hpassed] at ho₂
    obtain ⟨w, hw, hsub⟩ := hg.post _ _ o₂ ho₂ hvalue
    exact ⟨w, hw, hsub.trans (List.sublist_append_right _ _)⟩

theorem leaves_failWith (line : String) : Leaves E (failWith line) :=
  leaves_after fun _ => leaves_false

/-! ### What the parts of a test leave -/

/-- A completed transfer. -/
def IsCompleted (w : List Act) : Prop := ∃ t, w = [.completed t]

theorem Helper.leaves_fail (x : Helper) (line : Option String) : Leaves E (x.fail line) :=
  leaves_after fun _ => leaves_after fun _ => leaves_false

theorem Helper.leaves_finish (x : Helper) (startTick : UInt32) :
    Leaves IsCompleted (x.finish startTick) := by
  apply leaves_after
  intro how
  split
  · apply leaves_act (leaves_true (E := fun w => w = []) rfl)
    intro w hw
    rw [hw]
    exact ⟨x.transfer, rfl⟩
  · exact x.leaves_fail _
  · exact x.leaves_fail _

/-- A transfer helper that returns OK has completed a transfer. -/
theorem Helper.leaves_run (x : Helper) (length : UInt8) : Leaves IsCompleted (x.run length) := by
  apply leaves_ite leaves_false
  apply leaves_after
  intro _
  apply leaves_after
  intro _
  apply leaves_after
  intro _
  apply leaves_after
  intro started
  apply leaves_ite _ (x.leaves_fail _)
  apply leaves_after
  intro _
  apply leaves_after
  intro started
  apply leaves_ite _ (x.leaves_fail _)
  exact leaves_after fun startTick => x.leaves_finish startTick

theorem TransferCall.leaves_run (c : TransferCall) (txData : List UInt8) (rxData : Buffer)
    (length : UInt8) : Leaves IsCompleted (c.run txData rxData length) := by
  rw [(c.helper txData rxData length).property]
  exact Helper.leaves_run _ length

/-- A comparison with the command's pattern that found no difference. -/
def IsCompared (c : Command) (w : List Act) : Prop :=
  ∃ actual, w = [.compared ⟨some c.pattern.toList, some actual, c.patternLen⟩ appDataCompareOk]

theorem leaves_compare (c : Command) (actual : List UInt8) :
    Leaves (IsCompared c) (compare c.pattern.toList actual c.patternLen) := by
  constructor
  intro s env o ho hvalue
  obtain ⟨o₁, _, o₂, ho₂, rfl⟩ := Replay.bind_some.mp ho
  obtain ⟨o₃, _, o₄, ho₄, rfl⟩ := Replay.bind_some.mp ho₂
  obtain ⟨o₅, _, o₆, ho₆, rfl⟩ := Replay.bind_some.mp ho₄
  obtain ⟨o₇, ho₇, o₈, ho₈, rfl⟩ := Replay.bind_some.mp ho₆
  obtain rfl := Option.some.inj ho₇
  obtain rfl := Replay.pure_some.mp ho₈
  refine ⟨_, ⟨actual, rfl⟩, ?_⟩
  rw [← of_decide_eq_true hvalue]
  simp only [List.append_nil]
  exact ((List.sublist_append_right _ _).trans (List.sublist_append_right _ _)).trans
    (List.sublist_append_right _ _)

/-- A measurement of the delay, in tolerance. -/
def IsMeasured (w : List Act) : Prop :=
  ∃ startUs endUs, w = [.measured startUs endUs] ∧ timerInTolerance (endUs - startUs) = true

theorem leaves_timerIteration (i : ℕ) : Leaves IsMeasured (timerIteration i) := by
  apply leaves_after
  intro startUs
  apply leaves_after
  intro _
  apply leaves_after
  intro endUs
  constructor
  intro s env o ho hvalue
  obtain ⟨o₁, ho₁, o₂, ho₂, rfl⟩ := Replay.bind_some.mp ho
  obtain rfl := Option.some.inj ho₁
  obtain rfl := Replay.pure_some.mp ho₂
  exact ⟨_, ⟨startUs, endUs, rfl, hvalue⟩, List.sublist_append_left _ _⟩

/-- A reading at a level, in tolerance. -/
def IsSampled (level : UInt16) (w : List Act) : Prop :=
  ∃ value, w = [.sampled level value] ∧ adcInTolerance level value = true

theorem leaves_adcLevel (i : ℕ) (level : UInt16) :
    Leaves (IsSampled level) (adcLevel i level) := by
  apply leaves_after
  intro set
  apply leaves_ite _ (leaves_failWith _)
  apply leaves_after
  intro _
  apply leaves_after
  intro started
  apply leaves_ite _ (leaves_failWith _)
  apply leaves_after
  intro converted
  apply leaves_ite _ (leaves_after fun _ => leaves_failWith _)
  apply leaves_after
  intro value
  apply leaves_after
  intro _
  by_cases htolerance : adcInTolerance level value = true
  · apply leaves_act (leaves_ite (leaves_true (E := fun w => w = []) rfl) (leaves_failWith _))
    intro w hw
    rw [hw]
    exact ⟨value, rfl, htolerance⟩
  · apply leaves_after
    intro _
    rw [if_neg htolerance]
    exact leaves_failWith _

/-- Several parts, each of them leaving its evidence, in order. -/
def InOrder {ι : Type} (E : ι → List Act → Prop) (l : List ι) (w : List Act) : Prop :=
  ∃ ws, List.Forall₂ E l ws ∧ w = ws.flatten

theorem leaves_allOf {ι : Type} {E : ι → List Act → Prop} {body : ι → Handler Bool}
    (h : ∀ i, Leaves (E i) (body i)) (l : List ι) :
    Leaves (InOrder E l) (Replay.allOf l body) := by
  apply (Replay.ensures_allOf h l).mono
  intro o ho hvalue
  obtain ⟨ws, hws, hsub⟩ := ho hvalue
  exact ⟨ws.flatten, ⟨ws, hws, rfl⟩, hsub⟩

/-- A full iteration of the ADC test: a reading in tolerance at each of its levels. -/
theorem leaves_adcIteration (i : ℕ) :
    Leaves (InOrder IsSampled appAdcTestValues) (adcIteration i) :=
  leaves_allOf (leaves_adcLevel i) appAdcTestValues

/-! ### Buses -/

/-- What the transfers of a backend leave, and that nothing in it sends a response. -/
structure BusTest.Sound (x : BusTest) : Prop where
  prepare : Silent x.prepare
  between : Silent x.between
  forth : ∀ data buffer length, Silent (x.forth data buffer length)
  back : ∀ data buffer length, Silent (x.back data buffer length)
  forth_completed : ∀ data buffer length, Leaves IsCompleted (x.forth data buffer length)
  back_completed : ∀ data buffer length, Leaves IsCompleted (x.back data buffer length)

/-- A pair of transfers, each completed and then compared with the command's pattern. -/
def IsPair (c : Command) : List Act → Prop :=
  Both IsCompleted (Both (IsCompared c) (Both IsCompleted (IsCompared c)))

/-- An iteration that passes leaves a pair of completed and compared transfers. -/
theorem BusTest.leaves_iteration {x : BusTest} (hx : x.Sound) (c : Command) (i : ℕ) :
    Leaves (IsPair c) (x.iteration c i) := by
  apply leaves_after
  intro _
  apply (hx.forth_completed _ _ _).andThen _ (leaves_failWith _)
  apply leaves_after
  intro there
  apply (leaves_compare c there).andThen _ (leaves_failWith _)
  apply leaves_after
  intro _
  apply leaves_after
  intro there
  apply (hx.back_completed _ _ _).andThen _ (leaves_failWith _)
  apply leaves_after
  intro back
  exact (leaves_compare c back).atLast (leaves_failWith _)

theorem silent_failWith (line : String) : Silent (failWith line) :=
  (silent_appLog line).bind fun _ => silent_pure false

theorem BusTest.silent_iteration {x : BusTest} (hx : x.Sound) (c : Command) (i : ℕ) :
    Silent (x.iteration c i) := by
  apply hx.prepare.bind
  intro _
  apply (hx.forth _ _ _).bind
  intro sent
  apply silent_ite _ (silent_failWith _)
  apply (silent_bytes _).bind
  intro there
  apply (silent_compare _ _ _).bind
  intro same
  apply silent_ite _ (silent_failWith _)
  apply hx.between.bind
  intro _
  apply (silent_bytes _).bind
  intro there
  apply (hx.back _ _ _).bind
  intro sent
  apply silent_ite _ (silent_failWith _)
  apply (silent_bytes _).bind
  intro back
  apply (silent_compare _ _ _).bind
  intro same
  exact silent_ite (silent_pure true) (silent_failWith _)

/-! ### The helpers of the three buses -/

theorem Helper.Plain.quiet {x : Helper} (h : x.Plain) : x.Quiet :=
  ⟨h.before.controls.silent, h.prepare.controls.silent, h.between.controls.silent,
    h.abort.controls.silent⟩

theorem TransferCall.silent_run (c : TransferCall) (txData : List UInt8) (rxData : Buffer)
    (length : UInt8) : Silent (c.run txData rxData length) := by
  rw [(c.helper txData rxData length).property]
  exact Helper.silent_run (c.helper_plain txData rxData length).quiet length

/-! ### Loops -/

/-- Everything a command's iterations leave. -/
def Completed (E : List Act → Prop) (c : Command) : List Act → Prop :=
  InOrder (fun _ => E) (List.range c.iterations.toNat)

theorem leaves_iterations {c : Command} {body : ℕ → Handler Bool} (h : ∀ i, Leaves E (body i)) :
    Leaves (Completed E c) (iterations c body) :=
  leaves_allOf h _

theorem silent_iterations {c : Command} {body : ℕ → Handler Bool} (h : ∀ i, Silent (body i)) :
    Silent (iterations c body) :=
  Replay.emits_allOf h _

/-- What at least one iteration has left is in the evidence of the loop. -/
theorem Completed.exists_sublist {c : Command} {w : List Act} (h : Completed E c w)
    (hc : c.iterations ≠ 0) : ∃ w', E w' ∧ w'.Sublist w := by
  obtain ⟨ws, hws, rfl⟩ := h
  have hlength : ws.length = c.iterations.toNat := by
    rw [← hws.length_eq, List.length_range]
  cases ws with
  | nil =>
      exfalso
      apply hc
      exact UInt8.toNat_inj.mp hlength.symm
  | cons w' ws =>
      refine ⟨w', ?_, List.sublist_append_left _ _⟩
      cases hl : List.range c.iterations.toNat with
      | nil =>
          rw [hl] at hws
          cases hws
      | cons i l =>
          rw [hl] at hws
          cases hws with
          | cons hw' _ => exact hw'

/-! ### The tests -/

/-- What a full iteration of a test leaves: an in-tolerance measurement, in-tolerance readings at
all levels, or a pair of completed and compared transfers. -/
def Backend.Evidence : Backend → Command → List Act → Prop
  | .timer, _ => IsMeasured
  | .adc, _ => InOrder IsSampled appAdcTestValues
  | _, c => IsPair c

/-- A test that judges by its evidence: it sends no response of its own, and if it passes, all
iterations have left their evidence. -/
structure Judges (E : List Act → Prop) (c : Command) (m : Handler UInt8) : Prop where
  silent : Silent m
  passed : m.Ensures fun o =>
    o.value = appProtocolTestSuccess → ∃ w, Completed E c w ∧ w.Sublist o.trace

variable {c : Command}

theorem judges_fail : Judges E c (pure appProtocolTestFail) where
  silent := silent_pure _
  passed := Replay.ensures_pure fun _ _ h => by cases h

theorem verdict_eq_success {passed : Bool} :
    verdict passed = appProtocolTestSuccess ↔ passed = true := by
  cases passed <;> decide

/-- A loop and its verdict. -/
theorem judges_iterations {body : ℕ → Handler Bool} {f : Bool → Handler UInt8}
    (hbody : ∀ i, Silent (body i) ∧ Leaves E (body i)) (hf : ∀ passed, Silent (f passed))
    (hverdict : ∀ passed, (f passed).Ensures fun o => o.value = verdict passed) :
    Judges E c (iterations c body >>= f) where
  silent := (silent_iterations fun i => (hbody i).1).bind hf
  passed := by
    apply (leaves_iterations fun i => (hbody i).2).bind
    intro o₁ ho₁
    apply (hverdict o₁.value).mono
    intro o₂ ho₂ hpass
    obtain ⟨w, hw, hsub⟩ := ho₁ (verdict_eq_success.mp (ho₂ ▸ hpass))
    exact ⟨w, hw, hsub.trans (List.sublist_append_left _ _)⟩

theorem judges_after {α : Type} {m : Handler α} {f : α → Handler UInt8} (hm : Silent m)
    (hf : ∀ a, Judges E c (f a)) : Judges E c (m >>= f) where
  silent := hm.bind fun a => (hf a).silent
  passed := by
    apply Replay.ensures_after fun a => (hf a).passed
    intro w o ho hpass
    obtain ⟨w', hw', hsub⟩ := ho hpass
    exact ⟨w', hw', hsub.trans (List.sublist_append_right _ _)⟩

theorem judges_ite {p : Prop} [Decidable p] {m m' : Handler UInt8} (hm : Judges E c m)
    (hm' : Judges E c m') : Judges E c (if p then m else m') := by
  split
  · exact hm
  · exact hm'

theorem silent_adcCall {x : Bool → Act} (hx : ∀ ok, (x ok).isResponse = false) :
    Silent (adcCall x) :=
  silent_pause.bind fun a => (silent_act (hx a.ok)).bind fun _ => silent_pure a.ok

theorem silent_timerIteration (i : ℕ) : Silent (timerIteration i) := by
  have htime : Silent appTimerTimeUs := silent_pause.bind fun a => silent_pure a.count
  apply htime.bind
  intro startUs
  apply (silent_vTaskDelay _).bind
  intro _
  apply htime.bind
  intro endUs
  exact (silent_act rfl).bind fun _ => silent_pure _

theorem silent_adcLevel (i : ℕ) (level : UInt16) : Silent (adcLevel i level) := by
  have hstop : Silent halAdcStop := silent_pause.bind fun _ => silent_act rfl
  apply (silent_adcCall fun _ => rfl).bind
  intro set
  apply silent_ite _ (silent_failWith _)
  apply (silent_vTaskDelay _).bind
  intro _
  apply (silent_adcCall fun _ => rfl).bind
  intro started
  apply silent_ite _ (silent_failWith _)
  apply (silent_adcCall fun _ => rfl).bind
  intro converted
  apply silent_ite _ (hstop.bind fun _ => silent_failWith _)
  apply Silent.bind (silent_pause.bind fun a => silent_pure a.value)
  intro value
  apply hstop.bind
  intro _
  apply (silent_act rfl).bind
  intro _
  exact silent_ite (silent_pure true) (silent_failWith _)

theorem judges_timerResult (c : Command) : Judges IsMeasured c (timerResult c) := by
  apply judges_iterations fun i => ⟨silent_timerIteration i, leaves_timerIteration i⟩
  · intro passed
    exact silent_ite (silent_pure _) ((silent_appLog _).bind fun _ => silent_pure _)
  · intro passed
    cases passed with
    | true => exact Replay.ensures_pure fun _ _ => rfl
    | false =>
        apply Replay.ensures_after (m := appLog _)
        · exact fun _ => Replay.ensures_pure fun _ _ => rfl
        · exact fun _ _ ho => ho

theorem judges_verdict {body : ℕ → Handler Bool}
    (hbody : ∀ i, Silent (body i) ∧ Leaves E (body i)) :
    Judges E c (iterations c body >>= fun passed => pure (verdict passed)) :=
  judges_iterations hbody (fun _ => silent_pure _) fun _ => Replay.ensures_pure fun _ _ => rfl

theorem judges_appAdcTestRunPolling (c : Command) :
    Judges (InOrder IsSampled appAdcTestValues) c (appAdcTestRunPolling c) := by
  apply judges_after (silent_adcCall fun _ => rfl)
  intro started
  apply judges_ite
  · apply judges_verdict
    exact fun i => ⟨Replay.emits_allOf (silent_adcLevel i) _, leaves_adcIteration i⟩
  · exact judges_after (silent_appLog _) fun _ => judges_fail

theorem BusTest.judges_run {x : BusTest} (hx : x.Sound) (c : Command) :
    Judges (IsPair c) c (x.run c) :=
  judges_verdict fun i => ⟨BusTest.silent_iteration hx c i, BusTest.leaves_iteration hx c i⟩

/-- A backend whose transfers are calls of transfer helpers. -/
theorem BusTest.sound {x : BusTest} (forth back : TransferCall)
    (hforth : x.forth = fun data buffer length => forth.run data buffer length)
    (hback : x.back = fun data buffer length => back.run data buffer length)
    (hprepare : Prepares x.prepare) (hbetween : Prepares x.between) : x.Sound where
  prepare := hprepare.controls.silent
  between := hbetween.controls.silent
  forth data buffer length := by
    rw [hforth]
    exact forth.silent_run data buffer length
  back data buffer length := by
    rw [hback]
    exact back.silent_run data buffer length
  forth_completed data buffer length := by
    rw [hforth]
    exact forth.leaves_run data buffer length
  back_completed data buffer length := by
    rw [hback]
    exact back.leaves_run data buffer length

/-- **Every test judges by its evidence.** -/
theorem Backend.judges (b : Backend) (c : Command) : Judges (b.Evidence c) c (b.test c) := by
  cases b with
  | timer => exact judges_timerResult c
  | adc => exact judges_appAdcTestRunPolling c
  | uartIt =>
      apply judges_ite _ judges_fail
      apply BusTest.judges_run
      exact BusTest.sound (.appUartTestTransferIt .huart4 .huart5)
        (.appUartTestTransferIt .huart5 .huart4) rfl rfl .pure (.delay 1)
  | uartDma =>
      apply judges_ite _ judges_fail
      apply BusTest.judges_run
      exact BusTest.sound (.appUartTestTransferDma .huart4 .huart5)
        (.appUartTestTransferDma .huart5 .huart4) rfl rfl
        (.after (.memset _ _ _) (.memset _ _ _)) .pure
  | spiIt =>
      apply BusTest.judges_run
      exact BusTest.sound (.appSpiTestMasterToSlaveIt .hspi1 .hspi2)
        (.appSpiTestSlaveToMasterIt .hspi1 .hspi2) rfl rfl .pure .pure
  | spiDma =>
      apply BusTest.judges_run
      exact BusTest.sound (.appSpiTestMasterToSlaveDma .hspi1 .hspi2)
        (.appSpiTestSlaveToMasterDma .hspi1 .hspi2) rfl rfl .pure .pure
  | i2cIt =>
      apply BusTest.judges_run
      exact BusTest.sound (.appI2cTestMasterToSlaveIt .hi2c1 .hi2c2)
        (.appI2cTestSlaveToMasterIt .hi2c1 .hi2c2) rfl rfl .pure .pure
  | i2cDma =>
      apply judges_after (silent_vTaskDelay 2)
      intro _
      apply BusTest.judges_run
      exact BusTest.sound (.appI2cTestMasterToSlaveDma .hi2c1 .hi2c2)
        (.appI2cTestSlaveToMasterDma .hi2c1 .hi2c2) rfl rfl .pure .pure

/-! ### Commands that ask for no iterations -/

/-- A measurement, a reading or a completed transfer. -/
def Act.isEvidence : Act → Bool
  | .measured _ _ | .sampled _ _ | .completed _ => true
  | _ => false

/-- Every full iteration leaves such an act. -/
theorem Backend.Evidence.exists_mem {b : Backend} {w : List Act} (h : b.Evidence c w) :
    ∃ x ∈ w, x.isEvidence = true := by
  have hpair : IsPair c w → ∃ x ∈ w, x.isEvidence = true := by
    intro hw
    obtain ⟨w₁, w₂, ⟨t, rfl⟩, _, rfl⟩ := hw
    exact ⟨.completed t, List.mem_cons_self, rfl⟩
  cases b with
  | timer =>
      obtain ⟨startUs, endUs, rfl, _⟩ := h
      exact ⟨.measured startUs endUs, List.mem_cons_self, rfl⟩
  | adc =>
      obtain ⟨ws, hws, rfl⟩ := h
      cases hws with
      | cons hw _ =>
          obtain ⟨value, rfl, _⟩ := hw
          exact ⟨.sampled 128 value, List.mem_cons_self, rfl⟩
  | uartIt | uartDma | spiIt | spiDma | i2cIt | i2cDma => exact hpair h

/-- The checks of a test before its loop: the length for the UART, `HAL_DAC_Start` for the ADC. -/
def Backend.Accepts (c : Command) (env : List Slot) : Backend → Prop
  | .adc => ∃ a ∈ env.head?, a.ok = true
  | .uartIt | .uartDma => c.patternLen ≠ 0
  | _ => True

theorem uartLengthValid_iff : uartLengthValid c = true ↔ c.patternLen ≠ 0 := by
  have h := c.patternLen.toNat_lt
  have hmax : ¬ c.patternLen.toNat > appProtocolMaxPatternLen := by
    show ¬ c.patternLen.toNat > 255
    omega
  unfold uartLengthValid
  simp only [Bool.not_eq_true', Bool.or_eq_false_iff, decide_eq_false_iff_not, ne_eq, hmax,
    not_false_eq_true, and_true]

section

variable (hc : c.iterations = 0)

include hc

theorem iterations_eq_pure (body : ℕ → Handler Bool) : iterations c body = pure true := by
  unfold iterations
  rw [hc]
  rfl

theorem timerResult_eq_pure : timerResult c = pure appProtocolTestSuccess := by
  unfold timerResult
  rw [iterations_eq_pure hc]
  rfl

theorem BusTest.run_eq_pure (x : BusTest) : x.run c = pure appProtocolTestSuccess := by
  unfold BusTest.run
  rw [iterations_eq_pure hc]
  rfl

theorem appAdcTestRunPolling_eq : appAdcTestRunPolling c = (adcCall .dacStart >>= fun started =>
    if started then pure appProtocolTestSuccess
    else appLog "ADC test FAIL: DAC start failed\r\n" >>= fun _ => pure appProtocolTestFail) := by
  unfold appAdcTestRunPolling
  rw [iterations_eq_pure hc]
  rfl

theorem uart_eq_pure (x : BusTest) :
    (if uartLengthValid c then x.run c else pure appProtocolTestFail) =
      pure (verdict (uartLengthValid c)) := by
  rw [BusTest.run_eq_pure hc]
  cases uartLengthValid c <;> rfl

/-- A test without iterations measures, reads and transfers nothing. -/
theorem Backend.emits_test (b : Backend) : (b.test c).Emits fun x => x.isEvidence = false := by
  have hpure : ∀ r : UInt8, (pure r : Handler UInt8).Emits fun x => x.isEvidence = false :=
    Replay.emits_pure
  have hact : ∀ x : Act, x.isEvidence = false → (act x).Emits fun x => x.isEvidence = false :=
    fun _ hx => emits_act hx
  cases b with
  | timer =>
      show (timerResult c).Emits _
      rw [timerResult_eq_pure hc]
      exact hpure _
  | adc =>
      show (appAdcTestRunPolling c).Emits _
      rw [appAdcTestRunPolling_eq hc]
      apply Replay.Emits.bind
      · apply (emits_pause fun _ => rfl).bind
        intro a
        exact (hact _ rfl).bind fun _ => Replay.emits_pure a.ok
      · intro started
        exact Replay.emits_ite (hpure _) ((hact _ rfl).bind fun _ => hpure _)
  | uartIt =>
      show (appUartTestRunIt c).Emits _
      rw [appUartTestRunIt, uart_eq_pure hc]
      exact hpure _
  | uartDma =>
      show (appUartTestRunDma c).Emits _
      rw [appUartTestRunDma, uart_eq_pure hc]
      exact hpure _
  | spiIt | spiDma | i2cIt =>
      show (BusTest.run _ c).Emits _
      rw [BusTest.run_eq_pure hc]
      exact hpure _
  | i2cDma =>
      show (appI2cTestRunDma c).Emits _
      rw [appI2cTestRunDma, BusTest.run_eq_pure hc]
      apply Replay.Emits.bind (m := vTaskDelay 2)
      · exact emits_vTaskDelay (fun _ => rfl) rfl
      · exact fun _ => hpure _

/-- The ADC test passes if the DAC starts. -/
theorem appAdcTestRunPolling_value_iff {g : Board} {env : List Slot}
    {o : Outcome Board Slot Act UInt8} (h : appAdcTestRunPolling c g env = some o) :
    o.value = appProtocolTestSuccess ↔ ∃ a ∈ env.head?, a.ok = true := by
  rw [appAdcTestRunPolling_eq hc] at h
  cases env with
  | nil => cases h
  | cons a env =>
      obtain ⟨o₁, ho₁, o₂, ho₂, rfl⟩ := Replay.bind_some.mp h
      obtain rfl := Option.some.inj ho₁
      show o₂.value = appProtocolTestSuccess ↔ ∃ a' ∈ some a, a'.ok = true
      cases hok : a.ok with
      | true =>
          simp only [hok, if_true] at ho₂
          rw [Replay.pure_some.mp ho₂]
          exact iff_of_true rfl ⟨a, rfl, hok⟩
      | false =>
          simp only [hok] at ho₂
          obtain ⟨o₃, _, o₄, ho₄, rfl⟩ := Replay.bind_some.mp ho₂
          rw [Replay.pure_some.mp ho₄]
          apply iff_of_false
          · intro hvalue
            cases hvalue
          · intro hex
            obtain ⟨a', ha', hok'⟩ := hex
            obtain rfl := Option.some.inj ha'
            rw [hok] at hok'
            cases hok'

/-- A test without iterations passes if and only if it accepts the command. -/
theorem Backend.value_eq_success_iff {b : Backend} {g : Board} {env : List Slot}
    {o : Outcome Board Slot Act UInt8} (h : b.test c g env = some o) :
    o.value = appProtocolTestSuccess ↔ b.Accepts c env := by
  have hpure : ∀ {r : UInt8}, (pure r : Handler UInt8) g env = some o → o.value = r :=
    fun ho => by rw [Replay.pure_some.mp ho]
  have huart : (pure (verdict (uartLengthValid c)) : Handler UInt8) g env = some o →
      (o.value = appProtocolTestSuccess ↔ c.patternLen ≠ 0) := by
    intro ho
    rw [hpure ho, verdict_eq_success]
    exact uartLengthValid_iff
  cases b with
  | timer =>
      have ho : timerResult c g env = some o := h
      rw [timerResult_eq_pure hc] at ho
      exact iff_of_true (hpure ho) trivial
  | adc =>
      have ho : appAdcTestRunPolling c g env = some o := h
      exact appAdcTestRunPolling_value_iff hc ho
  | uartIt =>
      have ho : appUartTestRunIt c g env = some o := h
      rw [appUartTestRunIt, uart_eq_pure hc] at ho
      exact huart ho
  | uartDma =>
      have ho : appUartTestRunDma c g env = some o := h
      rw [appUartTestRunDma, uart_eq_pure hc] at ho
      exact huart ho
  | spiIt | spiDma | i2cIt =>
      have ho : BusTest.run _ c g env = some o := h
      rw [BusTest.run_eq_pure hc] at ho
      exact iff_of_true (hpure ho) trivial
  | i2cDma =>
      have ho : appI2cTestRunDma c g env = some o := h
      rw [appI2cTestRunDma, BusTest.run_eq_pure hc] at ho
      obtain ⟨o₁, _, o₂, ho₂, rfl⟩ := Replay.bind_some.mp ho
      rw [Replay.pure_some.mp ho₂]
      exact iff_of_true rfl trivial

end

/-! ### Responses -/

/-- What a test task does with a command, taken apart. -/
theorem Backend.execute_some {b : Backend} {g : Board} {env : List Slot}
    {o : Outcome Board Slot Act Unit} (h : b.execute c g env = some o) :
    ∃ o₁, b.test c g env = some o₁ ∧ ∃ w, o.trace = o₁.trace ++ w ∧
      (∃ ok, .respond ⟨c.testId, o₁.value⟩ ok ∈ w) ∧
      (∀ r ok, .respond r ok ∈ w → r = ⟨c.testId, o₁.value⟩) ∧
      ∀ x ∈ w, x.isEvidence = false := by
  obtain ⟨o₁, ho₁, o₂, ho₂, rfl⟩ := Replay.bind_some.mp h
  refine ⟨o₁, ho₁, o₂.trace, rfl, ?_⟩
  obtain ⟨o₃, ho₃, o₄, ho₄, rfl⟩ := Replay.bind_some.mp ho₂
  obtain ⟨o₅, ho₅, o₆, ho₆, rfl⟩ := Replay.bind_some.mp ho₄
  obtain rfl := Option.some.inj ho₅
  have hfired := (emits_pause (P := fun x => x.isResponse = false ∧ x.isEvidence = false)
    fun _ => ⟨rfl, rfl⟩).post _ _ o₃ ho₃
  have hlog : Replay.Emits (if o₃.value.ok = true then pure () else
      appLog (DropPoint.responseQueueFull b.peripheral).line)
      fun x => x.isResponse = false ∧ x.isEvidence = false :=
    Replay.emits_ite (Replay.emits_pure ()) (emits_act ⟨rfl, rfl⟩)
  have hend := hlog.post _ _ o₆ ho₆
  refine ⟨⟨o₃.value.ok, by simp⟩, ?_, ?_⟩
  · intro r ok hr
    simp only [List.mem_append, List.mem_singleton] at hr
    rcases hr with hr | hr | hr
    · exact absurd (hfired _ hr).1 (by simp [Act.isResponse])
    · injection hr
    · exact absurd (hend _ hr).1 (by simp [Act.isResponse])
  · intro x hx
    simp only [List.mem_append, List.mem_singleton] at hx
    rcases hx with hx | rfl | hx
    · exact (hfired x hx).2
    · rfl
    · exact (hend x hx).2

/-- Some full iteration of the test has left its evidence. -/
def Backend.Tested (b : Backend) (c : Command) (trace : List Act) : Prop :=
  ∃ w, b.Evidence c w ∧ w.Sublist trace

/-- **What a PASS says**: all iterations that the command asks for have left their evidence. -/
theorem passed_completed {b : Backend} {g : Board} {env : List Slot} {ok : Bool}
    {o : Outcome Board Slot Act Unit} (h : b.execute c g env = some o)
    (hpass : .respond ⟨c.testId, appProtocolTestSuccess⟩ ok ∈ o.trace) :
    ∃ w, Completed (b.Evidence c) c w ∧ w.Sublist o.trace := by
  obtain ⟨o₁, ho₁, w, hw, _, hresponse, _⟩ := Backend.execute_some h
  have hjudges := b.judges c
  rw [hw] at hpass ⊢
  rcases List.mem_append.mp hpass with hpass | hpass
  · cases hjudges.silent.post _ _ o₁ ho₁ _ hpass
  · obtain ⟨w', hw', hsub⟩ := hjudges.passed.post _ _ o₁ ho₁
      (Response.mk.inj (hresponse _ _ hpass)).2.symm
    exact ⟨w', hw', hsub.trans (List.sublist_append_left _ _)⟩

/-- **When a PASS means that something was tested**: unless the command asks for no iterations
and passes the checks before the loop. -/
theorem pass_tested_iff (b : Backend) (c : Command) {g : Board} {env : List Slot}
    {o : Outcome Board Slot Act Unit} (h : b.execute c g env = some o) :
    ((∃ ok, .respond ⟨c.testId, appProtocolTestSuccess⟩ ok ∈ o.trace) → b.Tested c o.trace) ↔
      ¬ (c.iterations = 0 ∧ b.Accepts c env) := by
  obtain ⟨o₁, ho₁, w, hw, ⟨ok, hok⟩, hresponse, hevidence⟩ := Backend.execute_some h
  constructor
  · intro htested hidle
    obtain ⟨hc, haccepts⟩ := hidle
    have hvalue := (Backend.value_eq_success_iff hc ho₁).mpr haccepts
    rw [hvalue] at hok
    rw [hw] at htested
    obtain ⟨w', hw', hsub⟩ := htested ⟨ok, List.mem_append_right _ hok⟩
    obtain ⟨x, hx, hxe⟩ := hw'.exists_mem
    rcases List.mem_append.mp (hsub.subset hx) with hx | hx
    · rw [(Backend.emits_test hc b).post _ _ o₁ ho₁ x hx] at hxe
      cases hxe
    · rw [hevidence x hx] at hxe
      cases hxe
  · intro hbusy hpass
    obtain ⟨ok', hok'⟩ := hpass
    by_cases hc : c.iterations = 0
    · exfalso
      apply hbusy
      refine ⟨hc, (Backend.value_eq_success_iff hc ho₁).mp ?_⟩
      rw [hw] at hok'
      rcases List.mem_append.mp hok' with hr | hr
      · cases (b.judges c).silent.post _ _ o₁ ho₁ _ hr
      · exact (Response.mk.inj (hresponse _ _ hr)).2.symm
    · obtain ⟨w', hw', hsub⟩ := passed_completed h hok'
      obtain ⟨w'', hw'', hsub'⟩ := hw'.exists_sublist hc
      exact ⟨w'', hw'', hsub'.trans hsub⟩

/-- A board before any test. -/
def restingBoard : Board :=
  ⟨fun _ => false, fun _ => Vector.replicate appProtocolMaxPatternLen 0, fun _ => none, 0⟩

def quietSlot (count : UInt32) : Slot := ⟨[], [], true, count, 0, []⟩

/-- Commands of the timer. -/
def timerCommand (iterations : UInt8) : Command :=
  ⟨7, Peripheral.timer.code, iterations, 0, Vector.replicate appProtocolMaxPatternLen 0⟩

/-- One iteration, which measures exactly the delay. -/
theorem pass_tested_iff_once :
    ∃ o, Backend.timer.execute (timerCommand 1) restingBoard
        [quietSlot 5, quietSlot 0, quietSlot 100005, quietSlot 0] = some o ∧
      .respond ⟨7, appProtocolTestSuccess⟩ true ∈ o.trace ∧
        Backend.timer.Tested (timerCommand 1) o.trace := by
  have hrun : (Backend.timer.execute (timerCommand 1) restingBoard
      [quietSlot 5, quietSlot 0, quietSlot 100005, quietSlot 0]).map Outcome.trace =
        some [.delay 100, .measured 5 100005, .respond ⟨7, appProtocolTestSuccess⟩ true] := by
    decide +kernel
  obtain ⟨o, ho, htrace⟩ := Option.map_eq_some_iff.mp hrun
  have hpass : .respond ⟨7, appProtocolTestSuccess⟩ true ∈ o.trace := by
    rw [htrace]
    decide
  have hbusy : (timerCommand 1).iterations ≠ 0 := by decide
  exact ⟨o, ho, hpass,
    (pass_tested_iff .timer (timerCommand 1) ho).mpr (fun hidle => hbusy hidle.1) ⟨true, hpass⟩⟩

/-- No iterations: the answer is a PASS, and nothing was measured. -/
theorem pass_untested :
    ∃ o, Backend.timer.execute (timerCommand 0) restingBoard [quietSlot 0] = some o ∧
      .respond ⟨7, appProtocolTestSuccess⟩ true ∈ o.trace ∧
        ¬ Backend.timer.Tested (timerCommand 0) o.trace := by
  have hrun : (Backend.timer.execute (timerCommand 0) restingBoard [quietSlot 0]).map
      Outcome.trace = some [.respond ⟨7, appProtocolTestSuccess⟩ true] := by
    decide +kernel
  obtain ⟨o, ho, htrace⟩ := Option.map_eq_some_iff.mp hrun
  refine ⟨o, ho, ?_⟩
  rw [htrace]
  refine ⟨by decide, ?_⟩
  intro htested
  obtain ⟨w, ⟨startUs, endUs, rfl, _⟩, hsub⟩ := htested
  cases List.mem_singleton.mp (hsub.subset List.mem_cons_self)

end PeripheralTester.Firmware
