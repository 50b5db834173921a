import PeripheralTester.Firmware.Ideal

/-! # The timer test and the true time

TIM2 counts microseconds in a 32-bit register that starts again at 0, about every 71 minutes
(`tim2Counter`).  A measurement is the unsigned difference of two readings, which is the true
elapsed time whenever that is below 2³² µs, also when the register has started again in between
(`elapsed_exact`).  So the verdict of the test depends on the true times alone, and it measures no
iteration after the first one out of tolerance (`timer_verdict_exact`). -/

namespace PeripheralTester.Firmware

open Lib Handler

/-! ### The counter -/

/-- `htim2.Init.Period` in `MX_TIM2_Init`. -/
def tim2Period : UInt32 := 4294967295

/-- A microsecond of TIM2, which counts up to its period. -/
def tim2Tick (count : UInt32) : UInt32 := if count = tim2Period then 0 else count + 1

/-- The counter some microseconds after it was at `initial`. -/
def tim2Counter (initial : UInt32) (us : ℕ) : UInt32 := tim2Tick^[us] initial

/-- The period is the largest value of the register. -/
theorem tim2Tick_eq (count : UInt32) : tim2Tick count = count + 1 := by
  unfold tim2Tick
  split
  · next h =>
      rw [h]
      rfl
  · rfl

theorem tim2Counter_eq (initial : UInt32) (us : ℕ) :
    tim2Counter initial us = initial + UInt32.ofNat us := by
  induction us with
  | zero => exact (UInt32.add_zero initial).symm
  | succ us ih =>
      rw [tim2Counter, Function.iterate_succ_apply', ← tim2Counter, ih, tim2Tick_eq,
        UInt32.ofNat_add, UInt32.add_assoc]
      rfl

/-- **The measurement across the wrap**: the difference of two readings is the time between
them. -/
theorem elapsed_exact (initial : UInt32) (start : ℕ) {elapsed : ℕ} (h : elapsed < 2 ^ 32) :
    (tim2Counter initial (start + elapsed) - tim2Counter initial start).toNat = elapsed := by
  have hsum : tim2Counter initial (start + elapsed) =
      tim2Counter initial start + UInt32.ofNat elapsed := by
    rw [tim2Counter_eq, tim2Counter_eq, UInt32.ofNat_add, UInt32.add_assoc]
  rw [hsum, toNat_add_sub _ h]

/-- The tolerance on a true elapsed time. -/
def Within (elapsed : ℕ) : Prop := 99000 ≤ elapsed ∧ elapsed ≤ 101000

instance (elapsed : ℕ) : Decidable (Within elapsed) := inferInstanceAs (Decidable (_ ∧ _))

theorem timerInTolerance_iff (deltaUs : UInt32) :
    timerInTolerance deltaUs = true ↔ Within deltaUs.toNat := by
  have hlow : (appTimerTestExpectedUs - appTimerTestToleranceUs).toNat = 99000 := rfl
  have hhigh : (appTimerTestExpectedUs + appTimerTestToleranceUs).toNat = 101000 := rfl
  unfold timerInTolerance Within
  simp only [Bool.not_eq_true', Bool.or_eq_false_iff, decide_eq_false_iff_not, gt_iff_lt,
    UInt32.lt_iff_toNat_lt, hlow, hhigh, not_lt]

/-! ### Recordings of the true time -/

/-- When the iterations of a test read the counter: each for the first time at `start`, and again
when `elapsed` has passed. -/
structure Schedule where
  start : ℕ → ℕ
  elapsed : ℕ → ℕ

/-- The schedule without its first iteration. -/
def Schedule.tail (x : Schedule) : Schedule :=
  ⟨fun i => x.start (i + 1), fun i => x.elapsed (i + 1)⟩

/-- The two readings of an iteration. -/
def Schedule.reading (x : Schedule) (initial : UInt32) (i : ℕ) : UInt32 × UInt32 :=
  (tim2Counter initial (x.start i), tim2Counter initial (x.start i + x.elapsed i))

/-- The slots of an iteration, if it is reached, answer with the counter. -/
structure Schedule.Recorded (x : Schedule) (initial : UInt32) (n : ℕ) (env : List Slot) : Prop where
  length : 3 * n ≤ env.length
  readings : ∀ i < n, (∀ j < i, Within (x.elapsed j)) →
    (env[3 * i]?).map Slot.count = some (x.reading initial i).1 ∧
      (env[3 * i + 2]?).map Slot.count = some (x.reading initial i).2

/-- Of `n` iterations only the first `k` are measured: nothing comes after one that is out of
tolerance. -/
structure Schedule.StopsAfter (x : Schedule) (n k : ℕ) : Prop where
  le : k ≤ n
  passed : ∀ i, i + 1 < k → Within (x.elapsed i)
  failed : k < n → ∃ i, k = i + 1 ∧ ¬ Within (x.elapsed i)

theorem Schedule.StopsAfter.succ {x : Schedule} {n k : ℕ} (h : x.tail.StopsAfter n k)
    (hfirst : Within (x.elapsed 0)) : x.StopsAfter (n + 1) (k + 1) where
  le := Nat.succ_le_succ h.le
  passed := by
    intro i hi
    cases i with
    | zero => exact hfirst
    | succ i => exact h.passed i (Nat.lt_of_succ_lt_succ hi)
  failed := by
    intro hk
    obtain ⟨i, rfl, hi⟩ := h.failed (Nat.lt_of_succ_lt_succ hk)
    exact ⟨i + 1, rfl, hi⟩

/-- An iteration that passes leaves the recording of the others. -/
theorem Schedule.Recorded.tail {x : Schedule} {initial : UInt32} {n : ℕ} {a₁ a₂ a₃ : Slot}
    {env : List Slot} (h : x.Recorded initial (n + 1) (a₁ :: a₂ :: a₃ :: env))
    (hfirst : Within (x.elapsed 0)) : x.tail.Recorded initial n env where
  length := by
    have hlength := h.length
    simp only [List.length_cons] at hlength
    omega
  readings := by
    intro i hi hbefore
    refine h.readings (i + 1) (Nat.succ_lt_succ hi) fun j hj => ?_
    cases j with
    | zero => exact hfirst
    | succ j => exact hbefore j (Nat.lt_of_succ_lt_succ hj)

/-! ### The loop -/

/-- A measurement in a trace. -/
def Act.measurement : Act → Option (UInt32 × UInt32)
  | .measured startUs endUs => some (startUs, endUs)
  | _ => none

/-- A response in a trace. -/
def Act.response : Act → Option Response
  | .respond r _ => some r
  | _ => none

theorem filterMap_callbacks {β : Type} {f : Act → Option β} (hf : ∀ cb, f (.callback cb) = none)
    (l : List Callback) : (l.map Act.callback).filterMap f = [] := by
  rw [List.filterMap_eq_nil_iff]
  intro x hx
  obtain ⟨cb, _, rfl⟩ := List.mem_map.mp hx
  exact hf cb

theorem measurements_callbacks (l : List Callback) :
    (l.map Act.callback).filterMap Act.measurement = [] := filterMap_callbacks (fun _ => rfl) l

theorem responses_callbacks (l : List Callback) :
    (l.map Act.callback).filterMap Act.response = [] := filterMap_callbacks (fun _ => rfl) l

/-- What an iteration makes of its three slots. -/
theorem timerIteration_slots (i : ℕ) (g : Board) (a₁ a₂ a₃ : Slot) (env : List Slot) :
    ∃ o, timerIteration i g (a₁ :: a₂ :: a₃ :: env) = some o ∧
      o.value = timerInTolerance (a₃.count - a₁.count) ∧ o.rest = env ∧
        o.trace.filterMap Act.measurement = [(a₁.count, a₃.count)] := by
  refine ⟨_, rfl, rfl, rfl, ?_⟩
  simp only [List.filterMap_append, List.filterMap_cons, List.filterMap_nil, List.append_nil,
    List.nil_append, measurements_callbacks, Act.measurement]

/-- The loop of the test on a recording of true times. -/
structure Schedule.Measured (x : Schedule) (initial : UInt32) (n : ℕ) (env : List Slot)
    (o : Outcome Board Slot Act Bool) : Prop where
  value : o.value = true ↔ ∀ i < n, Within (x.elapsed i)
  rest : env.length ≤ 3 * n + o.rest.length
  measured : ∃ k, x.StopsAfter n k ∧
    o.trace.filterMap Act.measurement = (List.range k).map (x.reading initial)

theorem Schedule.measured {x : Schedule} {initial : UInt32} {l : List ℕ}
    (hx : ∀ i < l.length, x.elapsed i < 2 ^ 32) {g : Board} {env : List Slot}
    (h : x.Recorded initial l.length env) :
    ∃ o, Replay.allOf l timerIteration g env = some o ∧ x.Measured initial l.length env o := by
  induction l generalizing x g env with
  | nil => exact ⟨⟨true, g, env, []⟩, rfl, by simp, by simp, 0, ⟨le_rfl, by simp, by simp⟩, rfl⟩
  | cons i l ih =>
      obtain ⟨a₁, a₂, a₃, env', rfl⟩ : ∃ a₁ a₂ a₃ env', env = a₁ :: a₂ :: a₃ :: env' := by
        have hlength := h.length
        match env, hlength with
        | a₁ :: a₂ :: a₃ :: env', _ => exact ⟨a₁, a₂, a₃, env', rfl⟩
      obtain ⟨hstart, hend⟩ := h.readings 0 (Nat.succ_pos _) (by simp)
      have hcount₁ : a₁.count = (x.reading initial 0).1 := Option.some.inj hstart
      have hcount₃ : a₃.count = (x.reading initial 0).2 := Option.some.inj hend
      obtain ⟨o₁, ho₁, hvalue₁, hrest₁, htrace₁⟩ := timerIteration_slots i g a₁ a₂ a₃ env'
      have hwithin : o₁.value = true ↔ Within (x.elapsed 0) := by
        rw [hvalue₁, timerInTolerance_iff, hcount₁, hcount₃]
        exact (congrArg Within (elapsed_exact initial (x.start 0) (hx 0 (Nat.succ_pos _)))).to_iff
      rw [hcount₁, hcount₃] at htrace₁
      rw [Replay.allOf_cons]
      by_cases hfirst : Within (x.elapsed 0)
      · have hxtail : ∀ i < l.length, x.tail.elapsed i < 2 ^ 32 := fun i hi =>
          hx (i + 1) (Nat.succ_lt_succ hi)
        obtain ⟨o₂, ho₂, hm⟩ := ih hxtail (h.tail hfirst) (g := o₁.state)
        obtain ⟨k, hk, hreadings⟩ := hm.measured
        refine ⟨_, Replay.bind_some.mpr ⟨o₁, ho₁, o₂, ?_, rfl⟩, ?_, ?_, k + 1, hk.succ hfirst, ?_⟩
        · rw [if_pos (hwithin.mpr hfirst), hrest₁]
          exact ho₂
        · show o₂.value = true ↔ _
          rw [hm.value, List.length_cons, Nat.forall_lt_succ_left]
          exact (and_iff_right hfirst).symm
        · have hrest := hm.rest
          simp only [List.length_cons]
          omega
        · rw [List.filterMap_append, htrace₁, hreadings, List.range_succ_eq_map, List.map_cons,
            List.map_map]
          rfl
      · have hfailed : ¬ o₁.value = true := fun hvalue => hfirst (hwithin.mp hvalue)
        refine ⟨_, Replay.bind_some.mpr ⟨o₁, ho₁, ⟨false, o₁.state, o₁.rest, []⟩, ?_, rfl⟩,
          ?_, ?_, 1, ⟨by simp, by omega, fun _ => ⟨0, rfl, hfirst⟩⟩, ?_⟩
        · rw [if_neg hfailed]
          rfl
        · refine iff_of_false Bool.false_ne_true fun hall => hfirst (hall 0 ?_)
          exact Nat.succ_pos _
        · show _ ≤ _ + o₁.rest.length
          rw [hrest₁]
          simp only [List.length_cons]
          omega
        · simpa using htrace₁

/-! ### The verdict -/

theorem plays_pause (g : Board) (a : Slot) :
    pause.Plays g [a] a (g.advance a) (a.fired.map .callback) := by
  intro rest
  show some _ = some _
  simp

/-- The end of a test: one response, and a log line if the queue is full. -/
theorem plays_respond (p : Peripheral) (r : Response) (g : Board) (a : Slot) :
    (respond p r).Plays g [a] () (g.advance a) (a.fired.map .callback ++
      .respond r a.ok :: if a.ok then [] else [.log (DropPoint.responseQueueFull p).line]) := by
  apply (plays_pause g a).ends
  intro rest
  cases a.ok <;> rfl

/-- The result follows the loop, with a log line for a FAIL. -/
theorem timerResult_some {c : Command} {g : Board} {env : List Slot}
    {o : Outcome Board Slot Act Bool} (h : iterations c timerIteration g env = some o) :
    ∃ w, timerResult c g env = some ⟨verdict o.value, o.state, o.rest, o.trace ++ w⟩ ∧
      w.filterMap Act.measurement = [] := by
  cases hvalue : o.value with
  | true =>
      refine ⟨[], Replay.bind_some.mpr ⟨o, h, ⟨_, o.state, o.rest, []⟩, ?_, rfl⟩, rfl⟩
      rw [hvalue]
      rfl
  | false =>
      refine ⟨[.log "Timer test FAIL\r\n"],
        Replay.bind_some.mpr ⟨o, h, ⟨_, o.state, o.rest, _⟩, ?_, rfl⟩, rfl⟩
      rw [hvalue]
      rfl

theorem responses_of_silent {w : List Act} (h : ∀ x ∈ w, x.isResponse = false) :
    w.filterMap Act.response = [] := by
  rw [List.filterMap_eq_nil_iff]
  intro x hx
  have hsilent := h x hx
  cases x with
  | respond r ok => cases hsilent
  | _ => rfl

/-- **The verdict of the timer test is exact**: wherever the counter starts and wraps, the one
response carries the command's id and reports a PASS if and only if the true time of every
iteration is in tolerance, and nothing is measured after the first iteration that is not. -/
theorem timer_verdict_exact (c : Command) (g : Board) (initial : UInt32) (x : Schedule)
    (hx : ∀ i < c.iterations.toNat, x.elapsed i < 2 ^ 32) {env : List Slot}
    (henv : x.Recorded initial c.iterations.toNat env)
    (hend : 3 * c.iterations.toNat < env.length) :
    ∃ o result, appTimerTestRun c g env = some o ∧
      o.trace.filterMap Act.response = [⟨c.testId, result⟩] ∧
      (result = appProtocolTestSuccess ↔ ∀ i < c.iterations.toNat, Within (x.elapsed i)) ∧
      ∃ k, x.StopsAfter c.iterations.toNat k ∧
        o.trace.filterMap Act.measurement = (List.range k).map (x.reading initial) := by
  rw [← List.length_range (n := c.iterations.toNat)] at hx henv
  obtain ⟨o₁, ho₁, hm⟩ := Schedule.measured hx henv (g := g)
  rw [List.length_range] at hm
  obtain ⟨w, ho₂, hw⟩ := timerResult_some ho₁
  obtain ⟨a, rest, hrest⟩ : ∃ a rest, o₁.rest = a :: rest := by
    apply List.exists_cons_of_length_pos
    have hlength := hm.rest
    omega
  have hrespond := plays_respond .timer ⟨c.testId, verdict o₁.value⟩ o₁.state a rest
  rw [List.singleton_append, ← hrest] at hrespond
  have hsilent := responses_of_silent ((judges_timerResult c).silent.post _ _ _ ho₂)
  refine ⟨_, verdict o₁.value, Replay.bind_some.mpr ⟨_, ho₂, _, hrespond, rfl⟩, ?_, ?_, ?_⟩
  · rw [List.filterMap_append, hsilent, List.filterMap_append, responses_callbacks]
    cases a.ok <;> rfl
  · exact verdict_eq_success.trans hm.value
  · obtain ⟨k, hk, hreadings⟩ := hm.measured
    refine ⟨k, hk, ?_⟩
    rw [List.filterMap_append, List.filterMap_append, hreadings, hw, List.filterMap_append,
      measurements_callbacks]
    cases a.ok <;> simp [Act.measurement]

/-- Two iterations: the counter wraps during the first, and the second takes a microsecond too
long. -/
def wrappingSchedule : Schedule :=
  ⟨fun i => 200000 * i, fun i => if i = 0 then 100000 else 101001⟩

theorem timer_verdict_exact_wrapped :
    ∃ o result, appTimerTestRun (timerCommand 2) restingBoard
        ([4294917296, 0, 50000, 150000, 0, 251001, 0].map quietSlot) = some o ∧
      o.trace.filterMap Act.response = [⟨7, result⟩] ∧
      (result = appProtocolTestSuccess ↔ ∀ i < 2, Within (wrappingSchedule.elapsed i)) ∧
      ∃ k, wrappingSchedule.StopsAfter 2 k ∧ o.trace.filterMap Act.measurement =
        (List.range k).map (wrappingSchedule.reading 4294917296) := by
  refine timer_verdict_exact (timerCommand 2) restingBoard 4294917296 wrappingSchedule ?_
    ⟨by decide, ?_⟩ (by decide)
  · intro i _
    show (if i = 0 then 100000 else 101001) < 2 ^ 32
    split <;> norm_num
  · intro i hi _
    rw [Schedule.reading, tim2Counter_eq, tim2Counter_eq]
    match i, hi with
    | 0, _ | 1, _ => decide

end PeripheralTester.Firmware
