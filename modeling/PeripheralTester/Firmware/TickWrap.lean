import PeripheralTester.Firmware.Waits

/-! # Waiting across the wrap of the tick

`HAL_GetTick` counts milliseconds in 32 bits and starts again at 0 after 49 days.  A wait loop takes
the unsigned difference of its reading and its start tick, which is the true elapsed time as long as
that is below 2³² ms (`timedOut_add`).  A loop that has not timed out by one poll has been waiting
for a second at most, so if the next poll comes within 2³² - 1001 ms, its difference is true again.
With every delay the tick advances, and so a call delays 1001 times at most and takes the exit that
is due, unless `HAL_UART_ErrorCallback` stops the processor before (`wait_exact_iff`). -/

namespace PeripheralTester.Firmware

open Lib Handler

/-! ### The true time -/

/-- The times of a wait in milliseconds: its start, when the start tick is read, and each poll.  The
tick advances with every delay, and the task is never kept from its next poll for 49 days. -/
structure WaitTimes (c : TransferCall) (startMs : ℕ) (pollMs : ℕ → ℕ) (env : ℕ → Slot) : Prop where
  start : c.startTick env = UInt32.ofNat startMs
  /-- A round reads the tick at its third entry. -/
  count : ∀ n, (env (c.waitFrom + 3 * n + 2)).count = UInt32.ofNat (pollMs n)
  started : startMs ≤ pollMs 0
  advances : ∀ n, pollMs n + 1 ≤ pollMs (n + 1)
  firstGap : pollMs 0 - startMs < 2 ^ 32 - 1001
  gap : ∀ n, pollMs (n + 1) - pollMs n < 2 ^ 32 - 1001

/-- More than the timeout has truly elapsed. -/
def Late (startMs : ℕ) (pollMs : ℕ → ℕ) (n : ℕ) : Prop := 1000 < pollMs n - startMs

variable {c : TransferCall} {startMs : ℕ} {pollMs : ℕ → ℕ} {env : ℕ → Slot} {n : ℕ}

section

variable (h : WaitTimes c startMs pollMs env)
include h

/-- Each delay adds a millisecond. -/
theorem WaitTimes.elapsed (n : ℕ) : startMs + n ≤ pollMs n := by
  induction n with
  | zero => exact h.started
  | succ n ih =>
      have hadvances := h.advances n
      omega

/-- The difference is true at every poll up to the first that is late. -/
theorem WaitTimes.timeOver_iff_late (hn : ∀ m < n, ¬ Late startMs pollMs m) :
    c.TimeOver env n ↔ Late startMs pollMs n := by
  have helapsed := h.elapsed n
  have hshort : pollMs n - startMs < 2 ^ 32 := by
    cases n with
    | zero =>
        have hgap := h.firstGap
        omega
    | succ n =>
        have hgap := h.gap n
        have hbefore : ¬ 1000 < pollMs n - startMs := hn n n.lt_succ_self
        omega
  have hpoll : pollMs n = startMs + (pollMs n - startMs) := by omega
  unfold Late TransferCall.TimeOver
  rw [h.start, h.count, ← timedOut_add (UInt32.ofNat startMs) hshort, ← UInt32.ofNat_add, ← hpoll]

theorem WaitTimes.late : Late startMs pollMs 1001 := by
  have helapsed := h.elapsed 1001
  unfold Late
  omega

end

/-! ### Polls -/

/-- Poll `n` finds the completion flags not both set and the error flag not set. -/
def FindsNothing (c : TransferCall) (env : ℕ → Slot) (n : ℕ) : Prop :=
  ¬ c.BothDone env n ∧ ¬ c.ErrorSeen env n

/-- Poll `n` is the first that finds nothing and is late. -/
def FirstTimeout (c : TransferCall) (startMs : ℕ) (pollMs : ℕ → ℕ) (env : ℕ → Slot) (n : ℕ) :
    Prop :=
  FindsNothing c env n ∧ Late startMs pollMs n ∧
    ∀ m < n, FindsNothing c env m ∧ ¬ Late startMs pollMs m

/-- The exit that is due at poll `n`. -/
def Due (c : TransferCall) (startMs : ℕ) (pollMs : ℕ → ℕ) (env : ℕ → Slot) (n : ℕ) : Poll → Prop
  | .done => c.BothDone env n
  | .error => ¬ c.BothDone env n ∧ c.ErrorSeen env n
  | .timeout => FindsNothing c env n ∧ Late startMs pollMs n
  | .delay => False

/-- With the true times, a poll that does not delay takes the exit that is due. -/
theorem due_of_pollIs (hlate : c.TimeOver env n ↔ Late startMs pollMs n) {how : Poll}
    (h : c.PollIs env n how) (hhow : how ≠ .delay) : Due c startMs pollMs env n how := by
  cases how with
  | done | error => exact h
  | timeout => exact ⟨⟨h.1, h.2.1⟩, hlate.mp h.2.2⟩
  | delay => exact absurd rfl hhow

/-- The test in entry `j` of the call ends its wait: a loop test that finds both completion flags
set, a test of the error flag that finds it set, or a test of the time that finds it over. -/
def EndsIn (c : TransferCall) (startMs : ℕ) (pollMs : ℕ → ℕ) (env : ℕ → Slot) (j : ℕ) : Prop :=
  ∃ n, j = c.waitFrom + 3 * n ∧ c.BothDone env n ∨
    j = c.waitFrom + 3 * n + 1 ∧ c.ErrorSeen env n ∨
    j = c.waitFrom + 3 * n + 2 ∧ Late startMs pollMs n

/-- The exit that is due is taken in an entry that ends the wait. -/
theorem Due.endsIn {how : Poll} (h : Due c startMs pollMs env n how) :
    EndsIn c startMs pollMs env (c.waitFrom + (3 * n + how.tests) - 1) := by
  refine ⟨n, ?_⟩
  cases how with
  | done => exact .inl ⟨by simp only [Poll.tests]; omega, h⟩
  | error => exact .inr (.inl ⟨by simp only [Poll.tests]; omega, h.2⟩)
  | timeout => exact .inr (.inr ⟨by simp only [Poll.tests]; omega, h.2⟩)
  | delay => exact h.elim

/-- It is the first such entry, if the polls before find nothing and are not late. -/
theorem Due.first {how : Poll} (h : Due c startMs pollMs env n how)
    (hbefore : ∀ m < n, FindsNothing c env m ∧ ¬ Late startMs pollMs m) {j : ℕ}
    (hj : EndsIn c startMs pollMs env j) : c.waitFrom + (3 * n + how.tests) ≤ j + 1 := by
  obtain ⟨m, hm⟩ := hj
  have hnm : n ≤ m := by
    by_contra hlt
    obtain ⟨⟨hdone, herror⟩, hlate⟩ := hbefore m (not_le.mp hlt)
    rcases hm with ⟨_, hends⟩ | ⟨_, hends⟩ | ⟨_, hends⟩
    · exact hdone hends
    · exact herror hends
    · exact hlate hends
  have htests : how.tests ≤ 3 := by cases how <;> decide
  rcases hnm.lt_or_eq with hlt | rfl
  · rcases hm with ⟨rfl, _⟩ | ⟨rfl, _⟩ | ⟨rfl, _⟩ <;> omega
  -- in the poll itself, the tests before the one that ends it find nothing
  cases how with
  | done => rcases hm with ⟨rfl, _⟩ | ⟨rfl, _⟩ | ⟨rfl, _⟩ <;> simp only [Poll.tests] <;> omega
  | error =>
      rcases hm with ⟨_, hends⟩ | ⟨rfl, _⟩ | ⟨rfl, _⟩
      · exact absurd hends h.1
      · exact le_rfl
      · simp only [Poll.tests]
        omega
  | timeout =>
      rcases hm with ⟨_, hends⟩ | ⟨_, hends⟩ | ⟨rfl, _⟩
      · exact absurd hends h.1.1
      · exact absurd hends h.1.2
      · exact le_rfl
  | delay => exact h.elim

/-! ### The wait of a call -/

/-- The wait of a call ends at poll `n`, after a delay in each poll before it, with the exit that is
due, and before the processor stops; and the call returns OK if this is the exit of a transfer that
has completed. -/
structure WaitEnds (c : TransferCall) (txData : List UInt8) (rxData : Buffer) (length : UInt8)
    (startMs : ℕ) (pollMs : ℕ → ℕ) (H : History) (b : Board) (n : ℕ) (how : Poll) : Prop where
  exits : ∃ b' w,
    Replay.Reaches (c.run txData rxData length) b (upTo H.env (c.waitFrom + (3 * n + how.tests)))
      (c.exit txData rxData length how) b' w ∧
    w.count (.delay 1) = c.pauses + n
  returns : ∀ k passed b' w, (c.run txData rxData length).Plays b (upTo H.env k) passed b' w →
    (passed = true ↔ how = .done)
  due : Due c startMs pollMs H.env n how
  lives : H.Lives (c.waitFrom + (3 * n + how.tests))

/-- A call with a history of true times: its wait ends after 1001 delays at most, and it takes the
timeout exit at the first poll that finds nothing and is late, and nowhere else. -/
def WaitsExactly (c : TransferCall) (txData : List UInt8) (rxData : Buffer) (length : UInt8)
    (startMs : ℕ) (pollMs : ℕ → ℕ) (H : History) (b : Board) : Prop :=
  ∃ n how, WaitEnds c txData rxData length startMs pollMs H b n how ∧ n ≤ 1001 ∧
    ∀ m, how = .timeout ∧ m = n ↔ FirstTimeout c startMs pollMs H.env m

/-- The first poll that does not go on. -/
theorem WaitTimes.exists_due (h : WaitTimes c startMs pollMs env) :
    ∃ n how, n ≤ 1001 ∧ (∀ m < n, c.PollIs env m .delay) ∧ c.PollIs env n how ∧ how ≠ .delay ∧
      (∀ m < n, FindsNothing c env m ∧ ¬ Late startMs pollMs m) ∧
      Due c startMs pollMs env n how := by
  classical
  have hex : ∃ n, ¬ (FindsNothing c env n ∧ ¬ Late startMs pollMs n) :=
    ⟨1001, fun hwaits => hwaits.2 h.late⟩
  have hends := Nat.find_spec hex
  have hgoes : ∀ m < Nat.find hex, FindsNothing c env m ∧ ¬ Late startMs pollMs m :=
    fun m hm => not_not.mp (Nat.find_min hex hm)
  have hbound : Nat.find hex ≤ 1001 := Nat.find_min' hex fun hwaits => hwaits.2 h.late
  generalize Nat.find hex = n at hends hgoes hbound
  have htrue : ∀ m ≤ n, c.TimeOver env m ↔ Late startMs pollMs m :=
    fun m hm => h.timeOver_iff_late fun j hj => (hgoes j (hj.trans_le hm)).2
  have hdelays : ∀ m < n, c.PollIs env m .delay := fun m hm =>
    ⟨(hgoes m hm).1.1, (hgoes m hm).1.2, mt (htrue m hm.le).mp (hgoes m hm).2⟩
  obtain ⟨how, hexit⟩ := c.exists_pollIs env n
  have hhow : how ≠ .delay := by
    rintro rfl
    exact hends ⟨⟨hexit.1, hexit.2.1⟩, mt (htrue n le_rfl).mpr hexit.2.2⟩
  exact ⟨n, how, hbound, hdelays, hexit, hhow, hgoes, due_of_pollIs (htrue n le_rfl) hexit hhow⟩

/-- The timeout exit is taken at the first timeout, and nowhere else. -/
theorem Due.timeout_iff {how : Poll} (h : Due c startMs pollMs env n how)
    (hbefore : ∀ m < n, FindsNothing c env m ∧ ¬ Late startMs pollMs m) (m : ℕ) :
    how = .timeout ∧ m = n ↔ FirstTimeout c startMs pollMs env m := by
  constructor
  · rintro ⟨rfl, rfl⟩
    exact ⟨h.1, h.2, hbefore⟩
  · rintro ⟨hnothing, hlate, hgoes⟩
    -- no poll before the exit is late, and none after it is the first
    have hge : n ≤ m := by
      by_contra hlt
      exact (hbefore m (not_le.mp hlt)).2 hlate
    have hle : m ≤ n := by
      by_contra hlt
      obtain ⟨hnothing', hlate'⟩ := hgoes n (not_le.mp hlt)
      cases how with
      | done => exact hnothing'.1 h
      | error => exact hnothing'.2 h.2
      | timeout => exact hlate' h.2
      | delay => exact h
    obtain rfl := le_antisymm hle hge
    refine ⟨?_, rfl⟩
    cases how with
    | done => exact absurd h hnothing.1
    | error => exact absurd h.2 hnothing.2
    | timeout => rfl
    | delay => exact h.elim

/-- **Every transfer helper times out correctly across the wrap of the tick**, exactly if the
processor does not stop before a test that ends the wait. -/
theorem wait_exact_iff (c : TransferCall) (txData : List UInt8) (rxData : Buffer)
    {length : UInt8} (hlength : length ≠ 0) {startMs : ℕ} {pollMs : ℕ → ℕ} (H : History)
    (hstarts : c.Starts H.env) (h : WaitTimes c startMs pollMs H.env) (b : Board) :
    WaitsExactly c txData rxData length startMs pollMs H b ↔
      ∀ k, H.stop = some k → ∃ j < k, EndsIn c startMs pollMs H.env j := by
  constructor
  · rintro ⟨n, how, hends, _, _⟩ k hk
    have htests : 1 ≤ how.tests := by cases how <;> decide
    have hlast := hends.lives k hk
    exact ⟨_, by omega, hends.due.endsIn⟩
  · intro hstop
    obtain ⟨n, how, hbound, hdelays, hexit, hhow, hbefore, hdue⟩ := h.exists_due
    have hexits := TransferCall.run_exits txData rxData hlength hstarts hdelays hexit hhow b
    refine ⟨n, how, ⟨hexits, fun k passed b' w hplays => ?_, hdue, fun k hk => ?_⟩, hbound,
      hdue.timeout_iff hbefore⟩
    · obtain ⟨_, _, hreaches, _⟩ := hexits
      obtain ⟨o, ho, hvalue, _⟩ := hplays.continues hreaches
      rw [← hvalue]
      exact (TransferCall.exit_spec txData rxData ho).1
    · obtain ⟨j, hjk, hj⟩ := hstop k hk
      exact (hdue.first hbefore hj).trans hjk

/-! ### A wait that begins half a second before the tick wraps -/

def wrappingStartMs : ℕ := 2 ^ 32 - 500

/-- Nothing but polls. -/
def wrappingSlots (k : ℕ) : Slot := quietSlot (UInt32.ofNat (wrappingStartMs + (k - 2) / 3))

def wrappingCall : TransferCall := .appUartTestTransferIt .huart4 .huart5

theorem wrapping_times (hcount : ∀ k, (env k).count = (wrappingSlots k).count) :
    WaitTimes wrappingCall wrappingStartMs (fun n => wrappingStartMs + 1 + n) env where
  start := hcount 2
  count n := by
    have hround : (3 + 3 * n + 2 - 2) / 3 = 1 + n := by omega
    show (env (3 + 3 * n + 2)).count = _
    rw [hcount, wrappingSlots, hround, Nat.add_assoc]
    rfl
  started := Nat.le_succ _
  advances _ := le_rfl
  firstGap := by norm_num [wrappingStartMs]
  gap n := by
    norm_num [wrappingStartMs]
    omega

theorem wait_exact_iff_wrapping :
    WaitsExactly wrappingCall [1] .appUartBRx 1 wrappingStartMs
      (fun n => wrappingStartMs + 1 + n) ⟨wrappingSlots, none, fun _ h => by cases h⟩
      restingBoard :=
  (wait_exact_iff wrappingCall [1] .appUartBRx (by decide) ⟨wrappingSlots, none, _⟩ ⟨rfl, rfl⟩
    (wrapping_times fun _ => rfl) restingBoard).mpr fun _ h => by cases h

/-- The receiver's error callback fires before the first poll, and the processor stops in it. -/
def stoppedHistory : History where
  env k := if k = 3 then { wrappingSlots 3 with fired := [.halUartError .huart5] }
    else wrappingSlots k
  stop := some 3
  logs k hk := by
    obtain rfl := Option.some.inj hk
    exact ⟨_, rfl, rfl⟩

/-- Then the wait does not end. -/
theorem wait_stopped :
    ¬ ∀ (c : TransferCall) (txData : List UInt8) (rxData : Buffer) (length : UInt8) (startMs : ℕ)
      (pollMs : ℕ → ℕ) (H : History) (b : Board), length ≠ 0 → c.Starts H.env →
        WaitTimes c startMs pollMs H.env →
          WaitsExactly c txData rxData length startMs pollMs H b := by
  intro hall
  have hcount : ∀ k, (stoppedHistory.env k).count = (wrappingSlots k).count := by
    intro k
    by_cases hk : k = 3
    · rw [hk]
      rfl
    · exact congrArg Slot.count (if_neg hk)
  obtain ⟨n, how, hends, _, _⟩ := hall wrappingCall [1] .appUartBRx 1 _ _ stoppedHistory
    restingBoard (by decide) ⟨rfl, rfl⟩ (wrapping_times hcount)
  have hlast : 3 + (3 * n + how.tests) ≤ 3 := hends.lives 3 rfl
  have htests : 1 ≤ how.tests := by cases how <;> decide
  omega

end PeripheralTester.Firmware
