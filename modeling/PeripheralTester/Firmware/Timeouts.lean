import PeripheralTester.Lib.Endless
import PeripheralTester.Firmware.Stages

/-! # Every test comes to its end

A test waits in only one place for something that may never happen: in the loop of a transfer helper
for the completion callbacks.  That loop ends when `APP_…_TEST_TIMEOUT_MS` have passed, if the tick
goes on and the task is not kept from reading it until it has wrapped (`ticking`).  On every such
recording, whatever else happens in it, every test ends (`Backend.ends_test`). -/

namespace PeripheralTester.Firmware

open Lib Handler
open Lib.Replay (Ends)

/-! ### The tick -/

/-- The tick at each entry of an endless recording, in milliseconds since the start.  `HAL_GetTick`
gives its low 32 bits. -/
structure Ticks (env : ℕ → Slot) (ms : ℕ → ℕ) : Prop where
  count : ∀ n, (env n).count = UInt32.ofNat (ms n)
  mono : Monotone ms
  unbounded : ∀ t, ∃ n, t ≤ ms n
  /-- Twelve days; the counter wraps after four times that. -/
  gap : ∀ n, ms (n + 1) ≤ ms n + 2 ^ 30

/-- The recordings in which the tick goes on. -/
def ticking : Endless Slot where
  admits env := ∃ ms, Ticks env ms
  admits_later := by
    rintro env k ⟨ms, h⟩
    refine ⟨fun n => ms (k + n), fun n => h.count (k + n), ?_, ?_, fun n => h.gap (k + n)⟩
    · exact fun m n hmn => h.mono (Nat.add_le_add_left hmn k)
    · intro t
      obtain ⟨n, hn⟩ := h.unbounded t
      exact ⟨n, hn.trans (h.mono (Nat.le_add_left n k))⟩

/-- Every third entry is a reading of the wait loop: one of them finds that the time is over,
whatever tick the loop waits from. -/
theorem Ticks.exists_timedOut {env : ℕ → Slot} {ms : ℕ → ℕ} (h : Ticks env ms)
    (startTick : UInt32) : ∃ n, timedOut startTick (env (3 * n + 2)).count = true := by
  -- the first reading beyond the end of the time, in some turn of the counter
  have hex : ∃ n, ms 2 * 2 ^ 32 + startTick.toNat + 1001 ≤ ms (3 * n + 2) := by
    obtain ⟨n, hn⟩ := h.unbounded (ms 2 * 2 ^ 32 + startTick.toNat + 1001)
    exact ⟨n, hn.trans (h.mono (by omega))⟩
  have hover := Nat.find_spec hex
  have hbefore : ∀ {m}, m < Nat.find hex → _ := Nat.find_min hex
  generalize Nat.find hex = n at hover hbefore
  refine ⟨n, ?_⟩
  cases n with
  | zero =>
      have hzero : ms 2 * 2 ^ 32 + startTick.toNat + 1001 ≤ ms 2 := hover
      omega
  | succ m =>
      have hnot := hbefore m.lt_succ_self
      have hround : ms (3 * m + 5) ≤ ms (3 * m + 2) + 3 * 2 ^ 30 := by
        have hgap₁ : ms (3 * m + 3) ≤ ms (3 * m + 2) + 2 ^ 30 := h.gap _
        have hgap₂ : ms (3 * m + 4) ≤ ms (3 * m + 3) + 2 ^ 30 := h.gap _
        have hgap₃ : ms (3 * m + 5) ≤ ms (3 * m + 4) + 2 ^ 30 := h.gap _
        omega
      rw [show 3 * (m + 1) + 2 = 3 * m + 5 by ring] at hover ⊢
      obtain ⟨d, hd⟩ := Nat.exists_eq_add_of_le hover
      have hms : ms (3 * m + 5) = ms 2 * 2 ^ 32 + startTick.toNat + (1001 + d) := by
        rw [hd, Nat.add_assoc]
      rw [h.count, hms, ofNat_turns, timedOut_add startTick (by omega)]
      omega

/-! ### The wait loop -/

section

variable {t : Transfer} {startTick : UInt32} {b : Board} {env : ℕ → Slot}

/-- What a round decides. -/
def waitRound (t : Transfer) (startTick : UInt32) (b : Board) (env : ℕ → Slot) : Poll :=
  if t.completed (b.advance (env 0)).flags then .done
  else if ((b.advance (env 0)).advance (env 1)).flags t.error then .error
  else if timedOut startTick (env 2).count then .timeout
  else .delay

theorem delays_callbacks (l : List Callback) : (l.map Act.callback).count (.delay 1) = 0 := by
  rw [List.count_eq_zero]
  intro h
  obtain ⟨cb, _, hcb⟩ := List.mem_map.mp h
  cases hcb

/-- How many tests a round makes that comes to a decision. -/
def Poll.tests : Poll → ℕ
  | .done => 1
  | .error => 2
  | .timeout | .delay => 3

/-- A round that does not delay is the last. -/
theorem waitLoop_exit {how : Poll} (h : waitRound t startTick b env = how) (hhow : how ≠ .delay) :
    ∃ b' w, Replay.Plays (waitLoop t startTick : Handler Poll) b (upTo env how.tests) how b' w ∧
      w.count (.delay 1) = 0 := by
  unfold waitRound at h
  by_cases hdone : t.completed (b.advance (env 0)).flags = true
  · obtain rfl := (if_pos hdone).symm.trans h
    refine ⟨b.advance (env 0), (env 0).fired.map .callback, fun rest => ?_, delays_callbacks _⟩
    show waitLoop t startTick b (env 0 :: rest) = _
    rw [waitLoop.eq_def]
    exact if_pos hdone
  rw [if_neg hdone] at h
  by_cases herror : ((b.advance (env 0)).advance (env 1)).flags t.error = true
  · obtain rfl := (if_pos herror).symm.trans h
    refine ⟨(b.advance (env 0)).advance (env 1),
      (env 0).fired.map .callback ++ (env 1).fired.map .callback, fun rest => ?_, ?_⟩
    · show waitLoop t startTick b (env 0 :: env 1 :: rest) = _
      rw [waitLoop.eq_def]
      exact (if_neg hdone).trans (if_pos herror)
    · rw [List.count_append, delays_callbacks, delays_callbacks]
  rw [if_neg herror] at h
  by_cases htime : timedOut startTick (env 2).count = true
  · obtain rfl := (if_pos htime).symm.trans h
    refine ⟨((b.advance (env 0)).advance (env 1)).advance (env 2),
      (env 0).fired.map .callback ++ (env 1).fired.map .callback ++
        (env 2).fired.map .callback, fun rest => ?_, ?_⟩
    · show waitLoop t startTick b (env 0 :: env 1 :: env 2 :: rest) = _
      rw [waitLoop.eq_def]
      exact (if_neg hdone).trans ((if_neg herror).trans (if_pos htime))
    · rw [List.count_append, List.count_append, delays_callbacks, delays_callbacks,
        delays_callbacks]
  · rw [if_neg htime] at h
    exact absurd h.symm hhow

/-- After a round that delays the loop goes on. -/
theorem waitLoop_goes_on (h : waitRound t startTick b env = .delay) :
    ∃ w, Replay.Reaches (waitLoop t startTick : Handler Poll) b (upTo env 3)
        (waitLoop t startTick) (((b.advance (env 0)).advance (env 1)).advance (env 2)) w ∧
      w.count (.delay 1) = 1 := by
  unfold waitRound at h
  split_ifs at h with hdone herror htime
  refine ⟨(env 0).fired.map .callback ++ (env 1).fired.map .callback ++
    (env 2).fired.map .callback ++ [.delay 1], fun rest => ?_, ?_⟩
  · show waitLoop t startTick b (env 0 :: env 1 :: env 2 :: rest) = _
    rw [waitLoop.eq_def]
    refine (if_neg hdone).trans ((if_neg herror).trans ((if_neg htime).trans ?_))
    refine congrArg (fun g => Option.map g _) (funext fun o => ?_)
    simp only [List.append_assoc, List.singleton_append]
  · rw [List.count_append, List.count_append, List.count_append, delays_callbacks,
      delays_callbacks, delays_callbacks, List.count_singleton_self]

/-- A round ends the loop, or the time is not over and the loop goes on. -/
theorem waitLoop_round (t : Transfer) (startTick : UInt32) (b : Board) (env : ℕ → Slot) :
    (∃ k how b' w,
      Replay.Plays (waitLoop t startTick : Handler Poll) b (upTo env k) how b' w) ∨
    timedOut startTick (env 2).count = false ∧
      ∀ l how b' w, Replay.Plays (waitLoop t startTick : Handler Poll)
        (((b.advance (env 0)).advance (env 1)).advance (env 2)) l how b' w →
        ∃ w', Replay.Plays (waitLoop t startTick : Handler Poll) b (upTo env 3 ++ l) how b' w' := by
  by_cases hdelay : waitRound t startTick b env = .delay
  · refine .inr ⟨?_, fun l how b' w h => ?_⟩
    · unfold waitRound at hdelay
      split_ifs at hdelay with _ _ htime
      simpa using htime
    · obtain ⟨w', hw', _⟩ := waitLoop_goes_on hdelay
      exact ⟨w' ++ w, hw'.plays h⟩
  · obtain ⟨b', w, hplays, _⟩ := waitLoop_exit rfl hdelay
    exact .inl ⟨_, _, b', w, hplays⟩

/-- If the time is over after some rounds, the loop ends. -/
theorem waitLoop_plays {n : ℕ} (h : timedOut startTick (env (3 * n + 2)).count = true) :
    ∃ k how b' w,
      Replay.Plays (waitLoop t startTick : Handler Poll) b (upTo env k) how b' w := by
  induction n generalizing b env with
  | zero =>
      obtain hends | ⟨htime, _⟩ := waitLoop_round t startTick b env
      · exact hends
      · rw [htime] at h
        cases h
  | succ n ih =>
      obtain hends | ⟨_, hround⟩ := waitLoop_round t startTick b env
      · exact hends
      · have hlater : timedOut startTick (later env 3 (3 * n + 2)).count = true := by
          rw [← h, later, show 3 + (3 * n + 2) = 3 * (n + 1) + 2 by ring]
        obtain ⟨k, how, b', w, hplays⟩ := ih hlater
        obtain ⟨w', hw'⟩ := hround _ _ _ _ hplays
        rw [← upTo_add] at hw'
        exact ⟨3 + k, how, b', w', hw'⟩

theorem ends_waitLoop (t : Transfer) (startTick : UInt32) :
    Ends ticking (waitLoop t startTick : Handler Poll) := by
  rintro b env ⟨ms, hms⟩
  obtain ⟨n, hn⟩ := hms.exists_timedOut startTick
  exact waitLoop_plays hn

end

/-! ### Transfers -/

theorem ends_pause : Ends ticking pause :=
  Replay.ends_next.bind fun a => (Replay.ends_modify _).bind fun _ =>
    (Replay.ends_emit _).bind fun _ => Replay.ends_pure a

theorem ends_act (x : Act) : Ends ticking (act x) := Replay.ends_emit [x]

theorem ends_appLogIf (line : Option String) : Ends ticking (appLogIf line) := by
  cases line with
  | none => exact Replay.ends_pure ()
  | some line => exact ends_act _

theorem ends_vTaskDelay (ms : ℕ) : Ends ticking (vTaskDelay ms) :=
  (ends_act _).bind fun _ => ends_pause.bind fun _ => Replay.ends_pure ()

theorem ends_halStart (op : Operation) : Ends ticking (halStart op) :=
  ends_pause.bind fun a => (ends_act _).bind fun _ =>
    (Replay.ends_modify _).bind fun _ => Replay.ends_pure a.ok

theorem ends_halStop (x : Handle → Act) (h : Handle) : Ends ticking (halStop x h) :=
  ends_pause.bind fun _ => (ends_act _).bind fun _ => Replay.ends_modify _

theorem ends_halInit (h : Handle) : Ends ticking (halInit h) :=
  ends_pause.bind fun _ => ends_act _

theorem Prepares.ends {m : Handler Unit} (h : Prepares m) : Ends ticking m := by
  induction h with
  | pure => exact Replay.ends_pure ()
  | delay ms => exact ends_vTaskDelay ms
  | memset => exact Replay.ends_modify _
  | after _ _ ih ih' => exact ih.bind fun _ => ih'

theorem Resets.ends {m : Handler Unit} (h : Resets m) : Ends ticking m := by
  induction h with
  | pure => exact Replay.ends_pure ()
  | abort h | deInit h => exact ends_halStop _ h
  | init h => exact ends_halInit h
  | delay ms => exact ends_vTaskDelay ms
  | clear l => exact ends_pause.bind fun _ => Replay.ends_modify _
  | after _ _ ih ih' => exact ih.bind fun _ => ih'

section

variable {x : Helper}

theorem Helper.ends_fail (hx : x.Plain) (line : Option String) : Ends ticking (x.fail line) :=
  (ends_appLogIf line).bind fun _ => hx.abort.ends.bind fun _ => Replay.ends_pure false

theorem Helper.ends_finish (hx : x.Plain) (startTick : UInt32) :
    Ends ticking (x.finish startTick) := by
  apply (ends_waitLoop _ _).bind
  intro how
  cases how with
  | done => exact (ends_act _).bind fun _ => Replay.ends_pure true
  | error | timeout | delay => exact Helper.ends_fail hx _

/-- **A transfer helper comes to its end.** -/
theorem Helper.ends_run (hx : x.Plain) (length : UInt8) : Ends ticking (x.run length) := by
  apply Replay.ends_ite (Replay.ends_pure false)
  apply hx.before.ends.bind
  intro _
  apply (Replay.ends_modify _).bind
  intro _
  apply hx.prepare.ends.bind
  intro _
  apply (ends_halStart _).bind
  intro started
  apply Replay.ends_ite _ (Helper.ends_fail hx _)
  apply hx.between.ends.bind
  intro _
  apply (ends_halStart _).bind
  intro started
  apply Replay.ends_ite _ (Helper.ends_fail hx _)
  apply (ends_pause.bind fun a => Replay.ends_pure a.count).bind
  exact fun startTick => Helper.ends_finish hx startTick

end

theorem TransferCall.ends_run (c : TransferCall) (txData : List UInt8) (rxData : Buffer)
    (length : UInt8) : Ends ticking (c.run txData rxData length) := by
  rw [(c.helper txData rxData length).property]
  exact Helper.ends_run (c.helper_plain txData rxData length) length

/-! ### Tests -/

theorem ends_bytes (buffer : Buffer) : Ends ticking (bytes buffer) :=
  Replay.ends_get.bind fun b => Replay.ends_pure (b.buffers buffer).toList

theorem ends_compare (expected actual : List UInt8) (length : UInt8) :
    Ends ticking (compare expected actual length) :=
  ends_pause.bind fun _ => Replay.ends_get.bind fun _ => (Replay.ends_modify _).bind fun _ =>
    (ends_act _).bind fun _ => Replay.ends_pure _

theorem ends_failWith (line : String) : Ends ticking (failWith line) :=
  (ends_act _).bind fun _ => Replay.ends_pure false

theorem ends_adcCall (x : Bool → Act) : Ends ticking (adcCall x) :=
  ends_pause.bind fun a => (ends_act _).bind fun _ => Replay.ends_pure a.ok

theorem ends_halAdcStop : Ends ticking halAdcStop := ends_pause.bind fun _ => ends_act _

theorem ends_timerIteration (i : ℕ) : Ends ticking (timerIteration i) := by
  have htime : Ends ticking appTimerTimeUs := ends_pause.bind fun a => Replay.ends_pure a.count
  refine htime.bind fun _ => (ends_vTaskDelay 100).bind fun _ => htime.bind fun _ => ?_
  exact (ends_act _).bind fun _ => Replay.ends_pure _

theorem ends_adcLevel (i : ℕ) (level : UInt16) : Ends ticking (adcLevel i level) := by
  apply (ends_adcCall _).bind
  intro set
  apply Replay.ends_ite _ (ends_failWith _)
  apply (ends_vTaskDelay 5).bind
  intro _
  apply (ends_adcCall _).bind
  intro started
  apply Replay.ends_ite _ (ends_failWith _)
  apply (ends_adcCall _).bind
  intro converted
  apply Replay.ends_ite _ (ends_halAdcStop.bind fun _ => ends_failWith _)
  apply (ends_pause.bind fun a => Replay.ends_pure a.value).bind
  intro value
  apply ends_halAdcStop.bind
  intro _
  exact (ends_act _).bind fun _ => Replay.ends_ite (Replay.ends_pure true) (ends_failWith _)

theorem Loopback.ends_stage {x : Loopback} (hx : x.Plain) (c : Command) (stage : Stage) :
    Ends ticking (x.stage c stage) := by
  have hcompare : ∀ buffer, Ends ticking (comparePattern c buffer) := fun buffer =>
    (ends_bytes buffer).bind fun actual => ends_compare _ _ _
  cases stage with
  | forth => exact hx.prepare.ends.bind fun _ => x.forth.ends_run _ _ _
  | forthCompared => exact hcompare x.received
  | back =>
      apply hx.between.ends.bind
      intro _
      exact (ends_bytes x.received).bind fun there => x.back.ends_run _ _ _
  | backCompared => exact hcompare x.returned

theorem Loopback.ends_iteration {x : Loopback} (hx : x.Plain) (failed : Fin 4 → String)
    (name : String) (c : Command) (i : ℕ) :
    Ends ticking ((x.test failed name).iteration c i) := by
  rw [x.iteration_eq]
  apply Replay.ends_allOf
  intro stage
  apply (x.ends_stage hx c stage).bind
  exact fun passed => Replay.ends_ite (Replay.ends_pure true) (ends_failWith _)

theorem ends_iterations {body : ℕ → Handler Bool} (h : ∀ i, Ends ticking (body i)) (c : Command) :
    Ends ticking (iterations c body) := Replay.ends_allOf h _

/-- **Every test comes to its end.** -/
theorem Backend.ends_test (b : Backend) (c : Command) : Ends ticking (b.test c) := by
  have hverdict : ∀ passed, Ends ticking (pure (verdict passed) : Handler UInt8) :=
    fun passed => Replay.ends_pure (verdict passed)
  cases hx : b.loopback with
  | none =>
      cases b with
      | timer =>
          apply (ends_iterations ends_timerIteration c).bind
          intro passed
          exact Replay.ends_ite (hverdict passed) ((ends_act _).bind fun _ => hverdict passed)
      | adc =>
          apply (ends_adcCall _).bind
          intro started
          apply Replay.ends_ite
          · have hlevels : ∀ i, Ends ticking (adcIteration i) :=
              fun i => Replay.ends_allOf (ends_adcLevel i) _
            exact (ends_iterations hlevels c).bind hverdict
          · exact (ends_act _).bind fun _ => Replay.ends_pure appProtocolTestFail
      | _ => cases hx
  | some x =>
      have hplain := b.loopback_plain hx
      rcases b.test_cases hx c with ⟨failed, name, htest⟩ | ⟨_, htest⟩
      · rw [htest]
        apply hplain.start.ends.bind
        intro _
        exact (ends_iterations (Loopback.ends_iteration hplain failed name c) c).bind hverdict
      · rw [htest]
        exact Replay.ends_pure appProtocolTestFail

end PeripheralTester.Firmware
