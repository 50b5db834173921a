import PeripheralTester.Firmware.Completions
import PeripheralTester.Firmware.Timeouts

/-! # The verdict of a loopback test

A run of a loopback test is described by its steps, the stages that it performed.  It passes if and
only if every stage of every iteration that the command asks for was performed and passed; the first
step that fails is the last; and the verdict depends on nothing but the outcomes of the steps, so
that interrupt mode and DMA mode agree (`loopback_verdict`). -/

namespace PeripheralTester.Firmware

open Lib Handler
open Lib.Replay (Ends Step Steps)

/-! ### Steps -/

/-- The stages of a test: an iteration and a stage of it. -/
def script (c : Command) : List (ℕ × Stage) := List.range c.iterations.toNat ×ˢ Stage.all

theorem mem_script {c : Command} {i : ℕ} {stage : Stage} :
    (i, stage) ∈ script c ↔ i < c.iterations.toNat := by
  unfold script
  rw [List.mem_product, List.mem_range]
  exact and_iff_left stage.mem_all

theorem script_nodup (c : Command) : (script c).Nodup :=
  List.Nodup.product List.nodup_range (by decide)

/-- A stage of some iteration that was performed. -/
abbrev Loopback.Step (x : Loopback) (c : Command) : Type :=
  Replay.Step fun k : ℕ × Stage => x.stage c k.2

/-- The steps of a run: none if the command is refused for its length, else the stages in their
order, each from where the one before it ended, up to the first that fails. -/
inductive Loopback.Performs (x : Loopback) (c : Command) (g : Board) (env : List Slot) :
    List (x.Step c) → Prop
  | refused (hlength : c.patternLen = 0) : Performs x c g env []
  | tested {ps : List (x.Step c)} {o : Outcome Board Slot Act Unit}
      (hstart : x.start g env = some o)
      (hsteps : Steps (fun k : ℕ × Stage => x.stage c k.2) (script c) o.state o.rest ps) :
      Performs x c g env ps

theorem ensures_failWith (line : String) :
    (failWith line).Ensures fun o => o.value = false ∧ ∀ x ∈ o.trace, x.isControl = true := by
  constructor
  intro b env o ho
  obtain rfl := Option.some.inj ho
  exact ⟨rfl, by simp [Act.isControl]⟩

/-- The loop of a backend. -/
theorem Loopback.iterations_steps {x : Loopback} {failed : Fin 4 → String} {name : String}
    {c : Command} {g : Board} {env : List Slot} {o : Outcome Board Slot Act Bool}
    (ho : iterations c ((x.test failed name).iteration c) g env = some o) :
    ∃ ps w, Steps (fun k : ℕ × Stage => x.stage c k.2) (script c) g env ps ∧
      o.value = ps.all Step.passed ∧
      o.trace = (ps.map fun p => p.outcome.trace).flatten ++ w ∧ Idle w := by
  have hloop : iterations c ((x.test failed name).iteration c) =
      Replay.allOf (script c) fun k =>
        Replay.checked (x.stage c k.2) ((x.test failed name).fail k.1 k.2.exit) := by
    unfold iterations script
    rw [Replay.allOf_product]
    exact congrArg _ (funext fun i => x.iteration_eq failed name c i)
  rw [hloop] at ho
  obtain ⟨ps, w, hps, hvalue, htrace, hw⟩ :=
    Replay.allOf_steps (fun k : ℕ × Stage => ensures_failWith _) ho
  exact ⟨ps, w, hps, hvalue, htrace, idle_of_isControl hw⟩

/-- A run and its steps. -/
structure Loopback.Judged (x : Loopback) (c : Command) (g : Board) (env : List Slot)
    (o : Outcome Board Slot Act UInt8) (ps : List (x.Step c)) : Prop where
  performs : x.Performs c g env ps
  /-- Every stage of every iteration was performed and passed. -/
  passes_iff : o.value = appProtocolTestSuccess ↔
    ∀ i < c.iterations.toNat, ∀ stage, ∃ p ∈ ps, p.index = (i, stage) ∧ p.passed = true
  fails : o.value ≠ appProtocolTestSuccess → o.value = appProtocolTestFail
  /-- What the run starts, its steps start. -/
  starts : attempts o.trace = ps.flatMap fun p => attempts p.outcome.trace
  /-- After a step that fails nothing is started. -/
  stops : ∀ p ∈ ps, p.passed = false → ∃ w w', o.trace = w ++ p.outcome.trace ++ w' ∧ Idle w'

theorem attempts_flatten (ws : List (List Act)) :
    attempts ws.flatten = (ws.map attempts).flatten := List.filterMap_flatten

theorem iterations_pos {c : Command} (hc : c.iterations ≠ 0) : 0 < c.iterations.toNat :=
  Nat.pos_of_ne_zero fun h => hc (UInt8.toNat_inj.mp h)

/-- A command that is refused fails, and has no steps. -/
theorem Loopback.judged_refused (x : Loopback) {c : Command} (hc : c.iterations ≠ 0)
    (hlength : c.patternLen = 0) (g : Board) (env : List Slot) :
    x.Judged c g env ⟨appProtocolTestFail, g, env, []⟩ [] where
  performs := .refused hlength
  passes_iff := by
    apply iff_of_false
    · intro hvalue
      cases hvalue
    · intro hall
      obtain ⟨p, hp, _⟩ := hall 0 (iterations_pos hc) .forth
      cases hp
  fails _ := rfl
  starts := rfl
  stops p hp := by cases hp

/-- A backend that has been started, and its loop. -/
theorem Loopback.judged_tested {x : Loopback} (hx : x.Controlled) {failed : Fin 4 → String}
    {name : String} {c : Command} {g : Board} {env : List Slot}
    {o : Outcome Board Slot Act UInt8}
    (ho : (x.start >>= fun _ => (x.test failed name).run c) g env = some o) :
    ∃ ps, x.Judged c g env o ps := by
  obtain ⟨o₁, ho₁, o', ho', rfl⟩ := Replay.bind_some.mp ho
  obtain ⟨o₂, ho₂, o₃, ho₃, rfl⟩ := Replay.bind_some.mp ho'
  obtain rfl := Replay.pure_some.mp ho₃
  obtain ⟨ps, w, hps, hvalue, htrace, hw⟩ := x.iterations_steps ho₂
  have hstart : Idle o₁.trace := hx.start.idle.post _ _ _ ho₁
  refine ⟨ps, .tested ho₁ hps, ?_, ?_, ?_, ?_⟩
  · show verdict o₂.value = _ ↔ _
    rw [verdict_eq_success, hvalue, List.all_eq_true, hps.forall_passed_iff (script_nodup c)]
    constructor
    · intro hall i hi stage
      exact hall (i, stage) (mem_script.mpr hi)
    · rintro hall ⟨i, stage⟩ hi
      exact hall i (mem_script.mp hi) stage
  · show verdict o₂.value ≠ _ → verdict o₂.value = _
    cases o₂.value with
    | true => exact fun h => absurd rfl h
    | false => exact fun _ => rfl
  · show attempts (o₁.trace ++ (o₂.trace ++ [])) = _
    rw [htrace, attempts_append, hstart, List.append_nil, attempts_append, hw, attempts_flatten]
    simp [List.flatMap_def, Function.comp_def]
  · intro p hp hfailed
    obtain ⟨init, rfl⟩ := hps.last hp hfailed
    refine ⟨o₁.trace ++ (init.map fun p => p.outcome.trace).flatten, w, ?_, hw⟩
    show o₁.trace ++ (o₂.trace ++ []) = _
    rw [htrace]
    simp

/-- **Every run of a test has its steps.** -/
theorem Backend.judged {b : Backend} {x : Loopback} (hx : b.loopback = some x) {c : Command}
    (hc : c.iterations ≠ 0) {g : Board} {env : List Slot} {o : Outcome Board Slot Act UInt8}
    (ho : b.test c g env = some o) : ∃ ps, x.Judged c g env o ps := by
  rcases b.test_cases hx c with ⟨failed, name, htest⟩ | ⟨hlength, htest⟩
  · rw [htest] at ho
    exact Loopback.judged_tested (b.loopback_controlled hx) ho
  · rw [htest] at ho
    obtain rfl := Replay.pure_some.mp ho
    exact ⟨[], x.judged_refused hc hlength g env⟩

/-! ### Equal outcomes -/

/-- The buffer that a stage compares. -/
def Loopback.compares (x : Loopback) : Stage → Option Buffer
  | .forth | .back => none
  | .forthCompared => some x.received
  | .backCompared => some x.returned

/-- The step compares these bytes, and nobody else uses the CRC unit. -/
structure Loopback.Step.Compares {x : Loopback} {c : Command} (p : x.Step c)
    (actual : List UInt8) : Prop where
  bytes : ∃ buffer, x.compares p.index.2 = some buffer ∧
    actual = (p.state.buffers buffer).toList.take c.patternLen.toNat
  alone : ∀ a ∈ p.env.head?, a.others = []

/-- Steps of two runs have the same outcome: they return the same, or the same bytes are
compared. -/
inductive SameOutcome {x x' : Loopback} {c : Command} (p : x.Step c) (q : x'.Step c) : Prop
  | returned (h : q.passed = p.passed)
  | compared {actual : List UInt8} (hp : p.Compares actual) (hq : q.Compares actual)

theorem comparePattern_value {c : Command} {buffer : Buffer} {g : Board} {env : List Slot}
    {o : Outcome Board Slot Act Bool} (ho : comparePattern c buffer g env = some o)
    (halone : ∀ a ∈ env.head?, a.others = []) :
    o.value = decide ((appDataCompare ⟨some c.pattern.toList,
      some ((g.buffers buffer).toList.take c.patternLen.toNat), c.patternLen⟩).run crcUnit 0 =
        appDataCompareOk) := by
  cases env with
  | nil => cases ho
  | cons a env =>
      obtain rfl := Option.some.inj ho
      show decide (((appDataCompare _).execAmong crcUnit a.others (g.advance a).crc).1 = _) = _
      have htake : (g.buffers buffer).toList.take c.patternLen.toNat =
          ((g.buffers buffer).toList.take c.patternLen.toNat).take c.patternLen.toNat := by
        rw [List.take_take, Nat.min_self]
      rw [halone a rfl, Prog.execAmong_nil, appDataCompare_congr htake]
      exact congrArg (fun status => decide (status = appDataCompareOk))
        ((appDataCompare_bracketed _).run_eq _ _)

theorem Loopback.Step.Compares.passed_eq {x : Loopback} {c : Command} {p : x.Step c}
    {actual : List UInt8} (h : p.Compares actual) :
    p.passed = decide ((appDataCompare ⟨some c.pattern.toList, some actual, c.patternLen⟩).run
      crcUnit 0 = appDataCompareOk) := by
  obtain ⟨⟨buffer, hbuffer, rfl⟩, halone⟩ := h
  obtain ⟨⟨i, stage⟩, g, env, o, hperformed⟩ := p
  cases stage with
  | forth | back => cases hbuffer
  | forthCompared | backCompared =>
      obtain rfl := Option.some.inj hbuffer
      exact comparePattern_value hperformed halone

theorem SameOutcome.passed_eq {x x' : Loopback} {c : Command} {p : x.Step c} {q : x'.Step c}
    (h : SameOutcome p q) : q.passed = p.passed := by
  cases h with
  | returned h => exact h
  | compared hp hq => rw [hp.passed_eq, hq.passed_eq]

/-- No transfer without a pattern. -/
theorem Loopback.Step.patternLen_ne_zero {x : Loopback} {c : Command} {p : x.Step c} {i : ℕ}
    (hindex : p.index = (i, .forth)) (hpassed : p.passed = true) : c.patternLen ≠ 0 := by
  intro hlength
  obtain ⟨_, g, env, o, hperformed⟩ := p
  subst hindex
  obtain ⟨o₁, _, o₂, ho₂, rfl⟩ := Replay.bind_some.mp hperformed
  rw [(x.forth.helper _ _ _).property, Helper.run, if_pos hlength] at ho₂
  obtain rfl := Replay.pure_some.mp ho₂
  cases hpassed

/-- A run that passes, and another with the same outcomes. -/
theorem Loopback.Judged.passes_of_same {x x' : Loopback} {c : Command} (hc : c.iterations ≠ 0)
    {g g' : Board} {env env' : List Slot} {o o' : Outcome Board Slot Act UInt8}
    {ps : List (x.Step c)} {ps' : List (x'.Step c)} (h : x.Judged c g env o ps)
    (h' : x'.Judged c g' env' o' ps')
    (hsame : ∀ p ∈ ps, ∀ q ∈ ps', p.index = q.index → q.passed = p.passed)
    (hpass : o.value = appProtocolTestSuccess) : o'.value = appProtocolTestSuccess := by
  have hall := h.passes_iff.mp hpass
  obtain ⟨p, _, hindex, hpassed⟩ := hall 0 (iterations_pos hc) .forth
  cases h'.performs with
  | refused hlength => exact absurd hlength (Loopback.Step.patternLen_ne_zero hindex hpassed)
  | tested hstart hsteps =>
      have hpassed' : ∀ q ∈ ps', q.passed = true := by
        intro q hq
        have hmem := hsteps.isPrefix.subset (List.mem_map_of_mem hq)
        obtain ⟨p, hp, hindex, hpassed⟩ := hall q.index.1 (mem_script.mp hmem) q.index.2
        rw [hsame p hp q hq hindex, hpassed]
      have hevery := (hsteps.forall_passed_iff (script_nodup c)).mp hpassed'
      exact h'.passes_iff.mpr fun i hi stage => hevery (i, stage) (mem_script.mpr hi)

/-- **The verdict of a loopback test**: for every command that asks for iterations, and whatever
the transfers return and receive, a test comes to its end.  It passes if and only if in every
iteration the transfer forth returned OK and its buffer was accepted, and so for the transfer back;
after the first step that fails no transfer is started.  A run of any other backend with the same
outcomes, such as that of the peripheral's other mode, comes to the same verdict. -/
theorem loopback_verdict {b : Backend} {x : Loopback} (hx : b.loopback = some x) {c : Command}
    (hc : c.iterations ≠ 0) :
    Ends ticking (b.test c) ∧
      (∀ g env o, b.test c g env = some o → ∃ ps, x.Judged c g env o ps) ∧
      ∀ (b' : Backend) (x' : Loopback), b'.loopback = some x' → ∀ g env o ps g' env' o' ps',
        b.test c g env = some o → x.Judged c g env o ps →
        b'.test c g' env' = some o' → x'.Judged c g' env' o' ps' →
          (∀ p ∈ ps, ∀ q ∈ ps', p.index = q.index → SameOutcome p q) → o'.value = o.value := by
  refine ⟨b.ends_test c, fun g env o ho => b.judged hx hc ho, ?_⟩
  intro b' x' _ g env o ps g' env' o' ps' _ h _ h' hsame
  by_cases hpass : o.value = appProtocolTestSuccess
  · rw [hpass]
    exact h.passes_of_same hc h' (fun p hp q hq hi => (hsame p hp q hq hi).passed_eq) hpass
  · by_cases hpass' : o'.value = appProtocolTestSuccess
    · refine absurd (h'.passes_of_same hc h (fun q hq p hp hi => ?_) hpass') hpass
      exact (hsame p hp q hq hi.symm).passed_eq.symm
    · rw [h.fails hpass, h'.fails hpass']

/-- A recording in which nothing happens, an entry each millisecond. -/
def silence (n : ℕ) : Slot := quietSlot (UInt32.ofNat n)

theorem ticking_silence : ticking.admits silence :=
  ⟨id, fun _ => rfl, monotone_id, fun t => ⟨t, le_rfl⟩, fun n => Nat.add_le_add_left (by decide) n⟩

/-- One byte goes forth and back; and nothing ever arrives. -/
theorem loopback_verdict_spi :
    (∃ k a g w, (Backend.spiIt.test (spiCommand 2)).Plays restingBoard (upTo silence k) a g w) ∧
      ∃ x o ps, Backend.spiIt.loopback = some x ∧
        Backend.spiIt.test (spiCommand 2) restingBoard (mixedHistory.drop 16) = some o ∧
        x.Judged (spiCommand 2) restingBoard (mixedHistory.drop 16) o ps ∧
        o.value = appProtocolTestSuccess ∧
        ∀ stage, ∃ p ∈ ps, p.index = (0, stage) ∧ p.passed = true := by
  have hbusy : (spiCommand 2).iterations ≠ 0 := by decide
  obtain ⟨hends, hsteps, _⟩ := loopback_verdict (b := .spiIt) rfl hbusy
  obtain ⟨o, ho, hvalue⟩ := Option.map_eq_some_iff.mp (show
    (Backend.spiIt.test (spiCommand 2) restingBoard (mixedHistory.drop 16)).map (·.value) =
      some appProtocolTestSuccess by decide +kernel)
  obtain ⟨ps, hps⟩ := hsteps _ _ o ho
  exact ⟨hends restingBoard silence ticking_silence, _, o, ps, rfl, ho, hps, hvalue,
    hps.passes_iff.mp hvalue 0 (by decide)⟩

end PeripheralTester.Firmware
