import PeripheralTester.Lib.Endless
import PeripheralTester.Lib.Release
import PeripheralTester.Firmware.Ideal

/-! # The verdict of the ADC test

At a level the HAL is asked for three statuses and a reading (`AdcAnswer`), and the test accepts
them if the calls succeed and the reading differs from the level by 50 at most.  The two comparisons
of the code are made modulo 2³², and they accept the same readings (`adcInTolerance_iff`).  The test
passes if and only if the answers of every level of every iteration are accepted, and however it
ends, the converter has been stopped once for each time it was started (`adc_verdict_exact`). -/

namespace PeripheralTester.Firmware

open Lib Handler
open Lib.Replay (Decides InTurn)

/-! ### Answers -/

/-- The level's tolerance, without wrapping: the first sum does not reach 2³², and where the second
one wraps, the first comparison has already failed. -/
theorem adcInTolerance_iff (level : UInt16) (reading : UInt32) :
    adcInTolerance level reading = true ↔ |(reading.toNat : ℤ) - level.toNat| ≤ 50 := by
  have hlevel : level.toNat < 2 ^ 16 := level.toNat_lt
  have hreading : reading.toNat < 2 ^ 32 := reading.toNat_lt
  have htolerance : appAdcTestToleranceRaw.toNat = 50 := rfl
  unfold adcInTolerance
  simp only [Bool.not_eq_true', Bool.or_eq_false_iff, decide_eq_false_iff_not, gt_iff_lt,
    UInt32.lt_iff_toNat_lt, UInt32.toNat_add, UInt16.toNat_toUInt32, htolerance, not_lt]
  rw [abs_sub_le_iff]
  omega

/-- What the HAL answers at a level. -/
structure AdcAnswer where
  /-- `HAL_DAC_SetValue`, `HAL_ADC_Start` and `HAL_ADC_PollForConversion` return `HAL_OK`. -/
  dacSet : Bool
  adcStarted : Bool
  converted : Bool
  /-- `HAL_ADC_GetValue`. -/
  reading : UInt32
deriving DecidableEq, Repr

structure AdcAnswer.Accepted (a : AdcAnswer) (level : UInt16) : Prop where
  dacSet : a.dacSet = true
  adcStarted : a.adcStarted = true
  converted : a.converted = true
  inTolerance : |(a.reading.toNat : ℤ) - level.toNat| ≤ 50

/-- A level that is passed reads six entries: the DAC is set, the task delays, the ADC is started,
polled, read and stopped. -/
def adcLevelSlots : ℕ := 6

def AdcAnswer.read (env : ℕ → Slot) : AdcAnswer :=
  ⟨(env 0).ok, (env 2).ok, (env 3).ok, (env 4).value⟩

/-- The answers at a level of an iteration, after the answer to `HAL_DAC_Start`. -/
def adcAnswer (env : ℕ → Slot) (iteration valueIndex : ℕ) : AdcAnswer :=
  .read (later env (1 + adcLevelSlots * (appAdcTestValues.length * iteration + valueIndex)))

/-! ### The converter -/

def Act.isAdcStart : Act → Bool
  | .adcStart _ => true
  | _ => false

/-- `HAL_ADC_Start` takes the converter, `HAL_ADC_Stop` releases it. -/
def converter : Resource Act where
  attempts := Act.isAdcStart
  takes x := x == .adcStart true
  releases x := x == .adcStop
  attempts_of_takes := by
    intro x hx
    rw [eq_of_beq hx]
    rfl
  releases_of_attempts := by
    intro x hx
    cases x with
    | adcStart ok => rfl
    | _ => cases hx

theorem ignores_callbacks (l : List Callback) :
    ∀ x ∈ l.map Act.callback, converter.Ignores x := by
  intro x hx
  obtain ⟨cb, _, rfl⟩ := List.mem_map.mp hx
  exact ⟨rfl, rfl⟩

/-- A call of another unit. -/
theorem ignores_call (l : List Callback) {x : Act} (hx : converter.Ignores x) :
    ∀ y ∈ l.map Act.callback ++ [x], converter.Ignores y :=
  List.forall_mem_append.mpr ⟨ignores_callbacks l, List.forall_mem_singleton.mpr hx⟩

/-! ### A level -/

theorem plays_failWith (line : String) (b : Board) :
    (failWith line).Plays b [] false b [.log line] := fun _ => rfl

/-- A level from the conversion on. -/
def adcConversion (iteration : ℕ) (dacValue : UInt16) : Handler Bool := do
  let converted ← adcCall .adcPoll
  if converted then do
    let adcValue ← halAdcGetValue
    halAdcStop
    act (.sampled dacValue adcValue)
    if adcInTolerance dacValue adcValue then pure true
    else failWith (adcFailLine iteration (adcOutOfTolerance dacValue adcValue))
  else do
    halAdcStop
    failWith (adcFailLine iteration "ADC timeout")

/-- The end of a level, with a line for a reading out of tolerance. -/
theorem plays_sampled (i : ℕ) (level : UInt16) (reading : UInt32) (b : Board) :
    ∃ w, Replay.Plays (do
        act (.sampled level reading)
        if adcInTolerance level reading then pure true
        else failWith (adcFailLine i (adcOutOfTolerance level reading)) : Handler Bool)
      b [] (adcInTolerance level reading) b w ∧ ∀ x ∈ w, converter.Ignores x := by
  have hsampled : (act (.sampled level reading)).Plays b [] () b [.sampled level reading] :=
    fun _ => rfl
  cases adcInTolerance level reading with
  | true =>
      exact ⟨_, hsampled.after (Replay.plays_pure b true),
        List.forall_mem_singleton.mpr ⟨rfl, rfl⟩⟩
  | false =>
      refine ⟨_, hsampled.after (plays_failWith _ b), List.forall_mem_append.mpr ⟨?_, ?_⟩⟩
      · exact List.forall_mem_singleton.mpr ⟨rfl, rfl⟩
      · exact List.forall_mem_singleton.mpr ⟨rfl, rfl⟩

/-- **A conversion stops the converter**, in time or not. -/
theorem adcConversion_plays (i : ℕ) (level : UInt16) (b : Board) (env : ℕ → Slot) :
    ∃ k passed b' inner rest,
      (adcConversion i level).Plays b (upTo env k) passed b' (inner ++ [.adcStop] ++ rest) ∧
      (passed = true ↔ (env 0).ok = true ∧ |((env 1).value.toNat : ℤ) - level.toNat| ≤ 50) ∧
      (passed = true → k = 3) ∧ (∀ x ∈ inner, converter.Ignores x) ∧
      ∀ x ∈ rest, converter.Ignores x := by
  cases hpoll : (env 0).ok with
  | false =>
      have hplays : (adcConversion i level).Plays b (upTo env 2) false _ _ :=
        (plays_adcCall b _ hpoll).failed <| (plays_halAdcStop _ (env 1)).bind (plays_failWith _ _)
      rw [← List.append_assoc, ← List.append_assoc] at hplays
      refine ⟨2, false, _, _, _, hplays, by simp, by simp, ?_,
        List.forall_mem_singleton.mpr ⟨rfl, rfl⟩⟩
      exact List.forall_mem_append.mpr ⟨ignores_call _ ⟨rfl, rfl⟩, ignores_callbacks _⟩
  | true =>
      obtain ⟨w, hsampled, hw⟩ :=
        plays_sampled i level (env 1).value (((b.advance (env 0)).advance (env 1)).advance (env 2))
      have hplays : (adcConversion i level).Plays b (upTo env 3) _ _ _ :=
        (plays_adcCall b _ hpoll).passed <| (plays_halAdcGetValue _ (env 1)).bind <|
          (plays_halAdcStop _ (env 2)).bind hsampled
      rw [← List.append_assoc, ← List.append_assoc, ← List.append_assoc] at hplays
      refine ⟨3, _, _, _, _, hplays, ?_, fun _ => rfl, ?_, hw⟩
      · rw [adcInTolerance_iff]
        exact (and_iff_right rfl).symm
      · refine List.forall_mem_append.mpr ⟨?_, ignores_callbacks _⟩
        exact List.forall_mem_append.mpr ⟨ignores_call _ ⟨rfl, rfl⟩, ignores_callbacks _⟩

/-- The five ways through a level. -/
theorem decides_adcLevel (i : ℕ) (level : UInt16) :
    Decides (adcLevel i level) adcLevelSlots (fun env => (AdcAnswer.read env).Accepted level)
      converter.Closed := by
  intro b env
  have hrejected : ∀ {P : Prop}, ¬ P → (false = true ↔ P) := fun h => by simpa using h
  cases hdac : (env 0).ok with
  | false =>
      have hplays : (adcLevel i level).Plays b (upTo env 1) false _ _ :=
        (plays_adcCall b _ hdac).failed (plays_failWith _ _)
      refine ⟨1, false, _, _, hplays, hrejected fun h => ?_, by simp, ?_⟩
      · exact Bool.false_ne_true (hdac.symm.trans h.dacSet)
      · exact (Resource.closed_of_ignored (ignores_call _ ⟨rfl, rfl⟩)).append
          (.ignored ⟨rfl, rfl⟩ .nil)
  | true =>
      have hdelay := plays_vTaskDelay (b.advance (env 0)) (env 1) 5
      have hdelayed : ∀ x ∈ Act.delay 5 :: (env 1).fired.map .callback, converter.Ignores x :=
        List.forall_mem_cons.mpr ⟨⟨rfl, rfl⟩, ignores_callbacks _⟩
      cases hstart : (env 2).ok with
      | false =>
          have hplays : (adcLevel i level).Plays b (upTo env 3) false _ _ :=
            (plays_adcCall b _ hdac).passed <| hdelay.bind <|
              (plays_adcCall _ _ hstart).failed (plays_failWith _ _)
          refine ⟨3, false, _, _, hplays, hrejected fun h => ?_, by simp, ?_⟩
          · exact Bool.false_ne_true (hstart.symm.trans h.adcStarted)
          · refine (Resource.closed_of_ignored (ignores_call _ ⟨rfl, rfl⟩)).append ?_
            refine (Resource.closed_of_ignored hdelayed).append ?_
            refine ((Resource.closed_of_ignored (ignores_callbacks _)).append ?_).append ?_
            · exact .failed rfl rfl .nil
            · exact .ignored ⟨rfl, rfl⟩ .nil
      | true =>
          obtain ⟨k, passed, b', inner, rest, hconversion, hpassed, hk, hinner, hrest⟩ :=
            adcConversion_plays i level (((b.advance (env 0)).advance (env 1)).advance (env 2))
              (later env 3)
          have hplays : (adcLevel i level).Plays b
              ([env 0] ++ ([env 1] ++ ([env 2] ++ upTo (later env 3) k))) passed _ _ :=
            (plays_adcCall b _ hdac).passed <| hdelay.bind <|
              (plays_adcCall _ _ hstart).passed hconversion
          have hslots : upTo env (3 + k) = _ := upTo_add env 3 k
          refine ⟨3 + k, passed, _, _, hslots ▸ hplays, ?_, ?_, ?_⟩
          · rw [hpassed]
            exact ⟨fun h => ⟨hdac, hstart, h.1, h.2⟩, fun h => ⟨h.converted, h.inTolerance⟩⟩
          · exact fun h => congrArg (3 + ·) (hk h)
          · refine (Resource.closed_of_ignored (ignores_call _ ⟨rfl, rfl⟩)).append ?_
            refine (Resource.closed_of_ignored hdelayed).append ?_
            exact Resource.closed_used (ignores_callbacks _) rfl hinner rfl hrest

/-! ### The test -/

theorem decides_adcIteration (i : ℕ) :
    Decides (adcIteration i) (adcLevelSlots * appAdcTestValues.length)
      (InTurn (fun level env => (AdcAnswer.read env).Accepted level) adcLevelSlots
        appAdcTestValues) converter.Closed :=
  Decides.allOf (decides_adcLevel i) .nil (fun _ _ h h' => h.append h') _

/-- The answers of the iterations are where the loops read them. -/
theorem inTurn_iterations {n : ℕ} {env : ℕ → Slot} :
    InTurn (fun _ : ℕ => InTurn (fun level env => (AdcAnswer.read env).Accepted level)
        adcLevelSlots appAdcTestValues) (adcLevelSlots * appAdcTestValues.length)
        (List.range n) (later env 1) ↔
      ∀ i < n, ∀ j (hj : j < appAdcTestValues.length),
        (adcAnswer env i j).Accepted appAdcTestValues[j] := by
  have hplace : ∀ i j, AdcAnswer.read (later (later (later env 1)
      (adcLevelSlots * appAdcTestValues.length * i)) (adcLevelSlots * j)) = adcAnswer env i j := by
    intro i j
    rw [later_later, later_later, Nat.mul_assoc, ← Nat.mul_add]
    rfl
  unfold InTurn
  simp only [hplace, List.length_range]

/-- **The verdict of the ADC test is exact, and the converter is left stopped**: whatever the HAL
answers, the test comes to its end; it passes if and only if the DAC is started and the answers of
every level of every iteration are accepted; and each time the converter has been started, it is
stopped once before it is started again and before the end. -/
theorem adc_verdict_exact (c : Command) (b : Board) (env : ℕ → Slot) :
    ∃ k result b' w, (appAdcTestRunPolling c).Plays b (upTo env k) result b' w ∧
      (result = appProtocolTestSuccess ↔ (env 0).ok = true ∧
        ∀ i < c.iterations.toNat, ∀ j (hj : j < appAdcTestValues.length),
          (adcAnswer env i j).Accepted appAdcTestValues[j]) ∧
      (result ≠ appProtocolTestSuccess → result = appProtocolTestFail) ∧
      ∀ before rest, w = before ++ .adcStart true :: rest →
        (converter.untilNext rest).count .adcStop = 1 := by
  have hstart : ∀ ok, converter.Closed ((env 0).fired.map .callback ++ [.dacStart ok]) :=
    fun ok => Resource.closed_of_ignored (ignores_call _ ⟨rfl, rfl⟩)
  cases hdac : (env 0).ok with
  | false =>
      have hfail : Replay.Plays (do
          appLog "ADC test FAIL: DAC start failed\r\n"
          pure appProtocolTestFail : Handler UInt8) (b.advance (env 0)) [] appProtocolTestFail
          (b.advance (env 0)) [.log "ADC test FAIL: DAC start failed\r\n"] := fun _ => rfl
      have hplays : (appAdcTestRunPolling c).Plays b (upTo env 1) appProtocolTestFail _ _ :=
        (plays_adcCall b _ hdac).failed hfail
      have hline : converter.Closed [.log "ADC test FAIL: DAC start failed\r\n"] :=
        .ignored ⟨rfl, rfl⟩ .nil
      have hclosed := (hstart false).append hline
      refine ⟨1, _, _, _, hplays, ?_, fun _ => rfl, ?_⟩
      · exact iff_of_false (by decide) fun h => Bool.false_ne_true h.1
      · exact fun before rest hw => hclosed.released_once hw rfl
  | true =>
      have hloop : Decides (iterations c adcIteration) _ _ converter.Closed :=
        Decides.allOf decides_adcIteration .nil (fun _ _ h h' => h.append h') _
      obtain ⟨k, passed, b', w, hiterations, hpassed, _, hclosed⟩ :=
        hloop (b.advance (env 0)) (later env 1)
      rw [inTurn_iterations] at hpassed
      have hplays : (appAdcTestRunPolling c).Plays b ([env 0] ++ upTo (later env 1) k)
          (verdict passed) b' _ :=
        (plays_adcCall b _ hdac).passed (hiterations.ends (Replay.plays_pure b' (verdict passed)))
      have hslots : upTo env (1 + k) = _ := upTo_add env 1 k
      refine ⟨1 + k, verdict passed, b', _, hslots ▸ hplays, ?_, ?_, fun before rest hw => ?_⟩
      · rw [verdict_eq_success, hpassed]
        exact (and_iff_right rfl).symm
      · cases passed with
        | true => exact fun h => absurd rfl h
        | false => exact fun _ => rfl
      · rw [List.append_nil] at hw
        exact ((hstart true).append hclosed).released_once hw rfl

end PeripheralTester.Firmware
