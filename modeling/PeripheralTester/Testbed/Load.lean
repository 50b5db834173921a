import PeripheralTester.Lib.Queueing
import PeripheralTester.Firmware.Verdict
import PeripheralTester.Server.Program

/-! # The load on the timer task

The server sends a command and sleeps for one to five seconds, and every fifth command is for the
timer, whose test takes 100 ms for each of ten to 255 iterations.  So the timer task is a single
server with a bounded queue, and main's loop decides what arrives at it and when.

Time is in milliseconds.  Only the sleeps of main and the delays of the timer test take time
(`timerResult_delays`); a command is at the dispatcher when it is sent.  `ClockedDevice` connects
the timed queue to the firmware. -/

namespace PeripheralTester

open Lib Lib.TimedQueue Firmware Server

/-! ### The rounds of main's loop -/

/-- A round: the command that is built and the delay that is drawn. -/
structure Round where
  command : Command
  delaySec : UInt8

def mainRound (g : CommandGenerator) (rand : RandStream) :
    Round × CommandGenerator × RandStream :=
  let (command, g, rand) := commandGeneratorBuildNext g rand
  (⟨command, commandGeneratorRandomRange minDelaySec maxDelaySec (rand 0)⟩, g, rand.skip 1)

/-- The first rounds. -/
def mainRounds : ℕ → CommandGenerator → RandStream → List Round
  | 0, _, _ => []
  | n + 1, g, rand =>
      let (r, g, rand) := mainRound g rand
      r :: mainRounds n g rand

/-- A round is what main does between two tests of its loop. -/
theorem mainRound_run (env : Startup) {a : MainAnswer} {s : Process}
    (hcalls : s.calls = [.whileAppRunning]) (hrunning : s.appRunning = true)
    (hsends : a.sends = true) :
    ∃ s', Run (fun s a => mainStep env a s) s (List.replicate 5 a) s' ∧
      s'.calls = [.whileAppRunning] ∧ s'.appRunning = true ∧
      s'.sent = s.sent ++ [(mainRound s.generator s.rand).1.command] ∧
      s'.delaySec = (mainRound s.generator s.rand).1.delaySec ∧
      s'.generator = (mainRound s.generator s.rand).2.1 ∧
      s'.rand = (mainRound s.generator s.rand).2.2 := by
  simp only [← exec_eq_some_iff, List.replicate, exec, mainStep, hcalls, hrunning, hsends, if_true,
    MainCall.round, Option.bind_some, Option.some.injEq, exists_eq_left', true_and]
  exact ⟨rfl, rfl, rfl, rfl⟩

/-- The commands sent while main is in its loop are those of its rounds. -/
theorem mainRounds_run {env : Startup} {a : MainAnswer} (hsends : a.sends = true) (n : ℕ)
    {s : Process} (hcalls : s.calls = [.whileAppRunning]) (hrunning : s.appRunning = true) :
    ∃ s', Run (fun s a => mainStep env a s) s (List.replicate (n * 5) a) s' ∧
      s'.sent = s.sent ++ (mainRounds n s.generator s.rand).map Round.command := by
  induction n generalizing s with
  | zero => exact ⟨s, by simpa using Run.refl s, by simp [mainRounds]⟩
  | succ n ih =>
      obtain ⟨s₁, hrun₁, hcalls₁, hrunning₁, hsent₁, _, hg, hrand⟩ :=
        mainRound_run env hcalls hrunning hsends
      obtain ⟨s₂, hrun₂, hsent₂⟩ := ih hcalls₁ hrunning₁
      refine ⟨s₂, ?_, ?_⟩
      · rw [Nat.succ_mul, Nat.add_comm, List.replicate_add]
        exact hrun₁.trans hrun₂
      · rw [hsent₂, hsent₁, hg, hrand]
        simp [mainRounds]

/-- The delay of a round is one to five seconds. -/
theorem mainRound_delay (g : CommandGenerator) (rand : RandStream) :
    1 ≤ (mainRound g rand).1.delaySec.toNat ∧ (mainRound g rand).1.delaySec.toNat ≤ 5 := by
  simp only [mainRound, commandGeneratorRandomRange, minDelaySec, maxDelaySec]
  have hspan : ((5 : UInt8).toUInt32 - (1 : UInt8).toUInt32 + 1).toNat = 5 := by decide
  rw [hspan, UInt8.toNat_ofNat']
  have hmin : (1 : UInt8).toNat = 1 := rfl
  rw [hmin]
  omega

/-! ### The timer task -/

/-- `APP_TIMER_QUEUE_SEND_WAIT_MS` and `APP_TIMER_TEST_DELAY_MS`. -/
def appTimerQueueSendWaitMs : ℕ := 100
def appTimerTestDelayMs : ℕ := 100

/-- `APPLICATION_STOP_DELAY_SEC`. -/
def applicationStopDelaySec : ℕ := 20

/-- When the commands of the rounds are sent, from a time on. -/
def sendTimes (t : ℕ) : List Round → List (ℕ × Command)
  | [] => []
  | r :: rs => (t, r.command) :: sendTimes (t + 1000 * r.delaySec.toNat) rs

/-- What the dispatcher makes of a command for the timer. -/
def timerWork (x : ℕ × Command) : Option Work :=
  if Peripheral.ofCode x.2.peripheral = some .timer then
    some ⟨x.1, appTimerTestDelayMs * x.2.iterations.toNat⟩
  else none

/-- The jobs of the timer task. -/
def timerWorks (rs : List Round) : List Work := (sendTimes 0 rs).filterMap timerWork

/-- What becomes of each timer command when it is sent. -/
def timerEntries (rs : List Round) : List Entry :=
  entries appQueueLength appTimerQueueSendWaitMs empty (timerWorks rs)

/-- The timer commands that got a place. -/
def timerAdmitted (rs : List Round) : List Work :=
  empty.admitted appQueueLength appTimerQueueSendWaitMs (timerWorks rs)

/-- When the timer commands are done that are pending at the time `t`. -/
def timerPending (rs : List Round) (t : ℕ) : List ℕ :=
  (empty.after appQueueLength appTimerQueueSendWaitMs (timerWorks rs)).pending t

/-! ### The time of a timer test -/

/-- How long an act delays its task. -/
def delayMs : Act → ℕ
  | .delay ms => ms
  | _ => 0

/-- The delays in a trace. -/
def delays (w : List Act) : ℕ := (w.map delayMs).sum

/-- The part of a handler delays its task for so long. -/
def Takes {α : Type} (m : Handler α) (ms : ℕ) : Prop := m.Ensures fun o => delays o.trace = ms

theorem delays_append (w w' : List Act) : delays (w ++ w') = delays w + delays w' := by
  simp [delays]

theorem Takes.bind {α β : Type} {m : Handler α} {f : α → Handler β} {ms ms' : ℕ} (hm : Takes m ms)
    (hf : ∀ a, Takes (f a) ms') : Takes (m >>= f) (ms + ms') := by
  apply Replay.Ensures.bind hm
  intro o₁ ho₁
  apply (hf o₁.value).mono
  intro o₂ ho₂
  rw [delays_append, ho₁, ho₂]

theorem takes_pure {α : Type} (a : α) : Takes (pure a) 0 := Replay.ensures_pure fun _ _ => rfl

theorem takes_act (x : Act) : Takes (Handler.act x) (delayMs x) := by
  constructor
  intro s env o ho
  obtain rfl := Option.some.inj ho
  exact Nat.add_zero _

/-- Callbacks do not delay the task. -/
theorem takes_pause : Takes Handler.pause 0 := by
  constructor
  intro b env o ho
  have hcallbacks := (emits_pause (P := fun x => delayMs x = 0) fun _ => rfl).post _ _ o ho
  rw [delays, List.sum_eq_zero]
  intro ms hms
  obtain ⟨x, hx, rfl⟩ := List.mem_map.mp hms
  exact hcallbacks x hx

theorem takes_vTaskDelay (ms : ℕ) : Takes (Handler.vTaskDelay ms) ms :=
  (takes_act (.delay ms)).bind fun _ => takes_pause.bind fun _ => takes_pure ()

theorem takes_timerIteration (i : ℕ) : Takes (timerIteration i) appTimerTestDelayMs := by
  have htime : Takes appTimerTimeUs 0 := takes_pause.bind fun a => takes_pure a.count
  have hend : ∀ startUs endUs : UInt32, Takes (do
      Handler.act (.measured startUs endUs)
      pure (timerInTolerance (endUs - startUs))) 0 :=
    fun startUs endUs => (takes_act _).bind fun _ => takes_pure _
  exact htime.bind fun startUs => (takes_vTaskDelay _).bind fun _ => htime.bind fun endUs =>
    hend startUs endUs

/-- A loop takes the time of its iterations, of all of them if it passes. -/
theorem takes_allOf {ι : Type} {body : ι → Handler Bool} {ms : ℕ} (h : ∀ i, Takes (body i) ms)
    (l : List ι) : (Replay.allOf l body).Ensures fun o =>
      delays o.trace ≤ ms * l.length ∧ (o.value = true → delays o.trace = ms * l.length) := by
  induction l with
  | nil => exact Replay.ensures_pure fun _ _ => ⟨le_rfl, fun _ => rfl⟩
  | cons i l ih =>
      rw [Replay.allOf_cons]
      apply Replay.Ensures.bind (h i)
      intro o₁ ho₁
      rw [List.length_cons, Nat.mul_succ, Nat.add_comm (ms * l.length)]
      split
      · apply ih.mono
        intro o₂ ho₂
        rw [delays_append, ho₁]
        exact ⟨by omega, fun hvalue => by rw [ho₂.2 hvalue]⟩
      · apply Replay.ensures_pure
        intro _ _
        rw [delays_append, ho₁]
        exact ⟨Nat.add_le_add_left (Nat.zero_le _) _, fun hvalue => by cases hvalue⟩

/-- **The time of a timer test**: 100 ms for each iteration, if it passes, and otherwise less. -/
theorem timerResult_delays (c : Command) : (timerResult c).Ensures fun o =>
    delays o.trace ≤ appTimerTestDelayMs * c.iterations.toNat ∧
      (o.value = appProtocolTestSuccess →
        delays o.trace = appTimerTestDelayMs * c.iterations.toNat) := by
  apply Replay.Ensures.bind (takes_allOf takes_timerIteration (List.range c.iterations.toNat))
  intro o₁ ho₁
  rw [List.length_range] at ho₁
  by_cases hpassed : o₁.value = true
  · rw [hpassed]
    apply Replay.ensures_pure
    intro _ _
    rw [delays_append, ho₁.2 hpassed]
    exact ⟨le_rfl, fun _ => rfl⟩
  · rw [Bool.not_eq_true] at hpassed
    rw [hpassed]
    constructor
    intro s env o ho
    obtain ⟨o₂, ho₂, o₃, ho₃, rfl⟩ := Replay.bind_some.mp ho
    obtain rfl := Option.some.inj ho₂
    obtain rfl := Replay.pure_some.mp ho₃
    rw [delays_append]
    exact ⟨by simpa [delays, delayMs] using ho₁.1, fun hvalue => by cases hvalue⟩

/-! ### Arrivals -/

theorem sendTimes_le {t : ℕ} {rs : List Round} : ∀ x ∈ sendTimes t rs, t ≤ x.1 := by
  induction rs generalizing t with
  | nil => simp [sendTimes]
  | cons r rs ih =>
      intro x hx
      rcases List.mem_cons.mp hx with rfl | hx
      · exact le_rfl
      · have := ih x hx
        omega

/-- The commands are sent at least a second apart. -/
theorem sendTimes_spaced (t n : ℕ) (g : CommandGenerator) (rand : RandStream) :
    (sendTimes t (mainRounds n g rand)).Pairwise fun x y => x.1 + 1000 ≤ y.1 := by
  induction n generalizing t g rand with
  | zero => exact List.Pairwise.nil
  | succ n ih =>
      have hdelay := (mainRound_delay g rand).1
      refine List.Pairwise.cons ?_ (ih _ _ _)
      intro y hy
      have hle : t + 1000 * (mainRound g rand).1.delaySec.toNat ≤ y.1 := sendTimes_le y hy
      show t + 1000 ≤ y.1
      omega

theorem timerWork_arrival {x : ℕ × Command} {w : Work} (h : timerWork x = some w) :
    w.arrival = x.1 := by
  unfold timerWork at h
  split at h
  · rw [← Option.some.inj h]
  · cases h

theorem timerWorks_spaced (n : ℕ) (rand : RandStream) :
    Spaced appTimerQueueSendWaitMs (timerWorks (mainRounds n commandGeneratorInit rand)) := by
  apply List.Pairwise.filterMap timerWork _ (sendTimes_spaced 0 n commandGeneratorInit rand)
  intro x y hxy w hw v hv
  rw [timerWork_arrival hw, timerWork_arrival hv]
  have hwait : appTimerQueueSendWaitMs = 100 := rfl
  omega

/-! ### The queue of the timer task -/

/-- **The load on the timer queue**: at most ten timer commands wait exactly if, for every timer
command, no run of timer commands that ends eleven before it takes longer than the time between
sending the first of them and sending the command; and none is dropped for lack of space exactly if
no such run takes 100 ms longer than that. -/
theorem timer_load_iff (n : ℕ) (rand : RandStream) :
    let rs := mainRounds n commandGeneratorInit rand
    ((∀ e ∈ timerEntries rs, e.inLine ≤ appQueueLength) ↔
      ∀ before a run ahead w rest, timerWorks rs = before ++ a :: run ++ ahead ++ w :: rest →
        ahead.length = 10 → a.arrival + load (a :: run) ≤ w.arrival) ∧
    ((∀ e ∈ timerEntries rs, e.admission ≠ .refused) ↔
      ∀ before a run ahead w rest, timerWorks rs = before ++ a :: run ++ ahead ++ w :: rest →
        ahead.length = 10 → a.arrival + load (a :: run) ≤ w.arrival + 100) := by
  intro rs
  have hcapacity : 0 < appQueueLength := by decide
  have hspaced := timerWorks_spaced n rand
  exact ⟨inLine_le_iff hcapacity hspaced, not_refused_iff hcapacity hspaced⟩

/-- The longest tests and the shortest delays: `rand()` returns a number that gives 255 iterations
and a delay of one second. -/
def steadyRand : RandStream := fun _ => 245

/-- In 66 rounds, which take 65 seconds, the fourteenth timer command finds ten others waiting and
is dropped. -/
theorem timer_overload :
    let rs := mainRounds 66 commandGeneratorInit steadyRand
    (¬ ∀ e ∈ timerEntries rs, e.inLine ≤ appQueueLength) ∧
      ¬ ∀ e ∈ timerEntries rs, e.admission ≠ .refused := by
  decide +kernel

/-! ### The wait before shutdown -/

/-- When the last command is sent. -/
def lastSend (rs : List Round) : ℕ := (sendTimes 0 rs).getLast?.elim 0 Prod.fst

/-- **The wait before shutdown**: let main leave its loop some time after its last command, when
the sleep ends or is interrupted.  The timer commands that are pending then are all done within the
20 seconds of main's wait exactly if no run of the last timer commands that got a place takes
longer than from sending the first of them to the end of the wait. -/
theorem shutdown_wait_iff (n : ℕ) (rand : RandStream) (slept : ℕ) :
    let rs := mainRounds n commandGeneratorInit rand
    let left := lastSend rs + slept
    (∀ done ∈ timerPending rs left, done ≤ left + 1000 * applicationStopDelaySec) ↔
      ∀ a run, (a :: run) <:+ timerAdmitted rs →
        a.arrival + load (a :: run) ≤ left + 1000 * applicationStopDelaySec := by
  intro rs left
  exact pending_after_iff (by decide) (timerWorks_spaced n rand) (Nat.le_add_right _ _)

/-- A single timer test of 255 iterations takes 25.5 seconds. -/
theorem shutdown_wait_too_short :
    ¬ ∀ (n : ℕ) (rand : RandStream) (slept : ℕ), let rs := mainRounds n commandGeneratorInit rand
      ∀ done ∈ timerPending rs (lastSend rs + slept),
        done ≤ lastSend rs + slept + 1000 * applicationStopDelaySec := by
  intro hall
  have hdone := hall 1 steadyRand 0
  revert hdone
  decide +kernel

end PeripheralTester
