import PeripheralTester.Firmware.Waits

/-! # Errors during a transfer

A transfer helper learns of an error from a flag, which it tests in its wait loop, and only while
one of the two completions is missing.  An error callback that fires after the last such test goes
unseen: with the last completion, or between the last loop test and the return.  And the error
callback of the UART can stop the processor, so that the helper does not return at all.
**`transfer_reports_errors_iff`** says that these are the only ways to miss one. -/

namespace PeripheralTester.Firmware

open Lib Handler

namespace TransferCall

/-! ### Calls and what is promised of them -/

section

variable (c : TransferCall) (txData : List UInt8) (rxData : Buffer) (length : UInt8)

/-- A call up to its return, before which it can be interrupted once more. -/
def call : Handler Bool := do
  let returned ← c.run txData rxData length
  let _ ← pause
  pure returned

/-- How a call ends: it returns after the first `n` entries, or the processor stops in the last of
them and it has not returned before. -/
inductive Ends (b : Board) (H : History) : Option Bool → ℕ → List Act → Prop
  | returned {passed : Bool} {n : ℕ} {b' : Board} {w : List Act}
      (hplays : (c.call txData rxData length).Plays b (upTo H.env n) passed b' w)
      (hlives : H.Lives n) : Ends b H (some passed) n w
  | stopped {k : ℕ} (hk : H.stop = some k)
      (hrunning : ∀ n ≤ k, ∀ passed b' w,
        ¬ (c.call txData rxData length).Plays b (upTo H.env n) passed b' w) :
      Ends b H none (k + 1) []

end

/-- An error callback of one of the two handles fires after the call has cleared its flags. -/
def ErrorIn (c : TransferCall) (env : ℕ → Slot) (n : ℕ) : Prop :=
  ∃ k, c.lead ≤ k ∧ k < n ∧ ∃ h ∈ c.handles, h.errorCallback ∈ (env k).fired

/-- What the callers of a helper are promised of a call of `n` entries: an error of one of its
handles after it has cleared its flags makes it return `FAIL` and abort, and it returns OK only when
both completion flags were set and no error was signalled. -/
structure ReportsErrors (c : TransferCall) (length : UInt8) (env : ℕ → Slot)
    (returned : Option Bool) (n : ℕ) (w : List Act) : Prop where
  error : length ≠ 0 → c.ErrorIn env n → returned = some false ∧ Aborted c.handles w
  ok : returned = some true →
    FiredIn c.transfer.done.1 env c.lead n ∧ FiredIn c.transfer.done.2 env c.lead n ∧
      ¬ FiredIn c.transfer.error env c.lead n

/-- When no error can be missed: if the processor stops in the call, no error callback of the two
handles has fired in it; and if it does not, and the call gets to a poll by whose loop test both
completion flags have been set, no error callback has fired by the return that follows. -/
def Unmissed (c : TransferCall) (length : UInt8) (H : History) (n : ℕ) : Prop :=
  length ≠ 0 →
    (∀ k < n, H.stop = some k → ¬ c.ErrorIn H.env n) ∧
    (H.Lives n → c.Starts H.env → ∀ i, (∀ j < i, c.PollIs H.env j .delay) → c.BothDone H.env i →
      ¬ FiredIn c.transfer.error H.env c.lead (c.waitFrom + 3 * i + 2))

/-! ### Calls that return -/

variable {c : TransferCall} {txData : List UInt8} {rxData : Buffer} {length : UInt8} {b b' : Board}
  {env : ℕ → Slot} {n i : ℕ} {passed : Bool} {w : List Act}

theorem ErrorIn.fired (h : c.ErrorIn env n) : FiredIn c.transfer.error env c.lead n := by
  obtain ⟨k, hfirst, hlast, handle, hh, hmem⟩ := h
  refine ⟨k, hfirst, hlast, List.any_eq_true.mpr ⟨_, hmem, ?_⟩⟩
  exact decide_eq_true (c.errorCallback_flag handle hh)

/-- A part of a call goes on to the point of interruption before the return. -/
theorem call_reaches {k : ℕ} {m : Handler Bool}
    (h : Replay.Reaches (c.run txData rxData length) b (upTo env k) m b' w) :
    Replay.Reaches (c.call txData rxData length) b (upTo env k)
      (m >>= fun returned => do
        let _ ← pause
        pure returned) b' w :=
  h.bind

/-- A call that returns has gone through each of its parts, and returns what the part does. -/
theorem call_continues {k : ℕ} {m : Handler Bool} {b₁ : Board} {w₁ : List Act}
    (hplays : (c.call txData rxData length).Plays b (upTo env n) passed b' w)
    (h : Replay.Reaches (c.run txData rxData length) b (upTo env k) m b₁ w₁) :
    ∃ l o, m b₁ l = some o ∧ o.value = passed ∧ ∀ x ∈ o.trace, x ∈ w := by
  obtain ⟨o, ho, hvalue, htrace⟩ := hplays.continues (call_reaches h)
  obtain ⟨o₁, ho₁, o₂, ho₂, rfl⟩ := Replay.bind_some.mp ho
  obtain ⟨o₃, _, o₄, ho₄, rfl⟩ := Replay.bind_some.mp ho₂
  obtain rfl := Replay.pure_some.mp ho₄
  refine ⟨_, o₁, ho₁, hvalue, fun x hx => ?_⟩
  rw [htrace]
  exact List.mem_append_right _ (List.mem_append_left _ hx)

/-- A call that waits comes to the first poll that does not delay. -/
theorem exists_exit (hlength : length ≠ 0) (hstarts : c.Starts env)
    (hplays : (c.call txData rxData length).Plays b (upTo env n) passed b' w) :
    ∃ i how, (∀ j < i, c.PollIs env j .delay) ∧ c.PollIs env i how ∧ how ≠ .delay := by
  classical
  have hex : ∃ i, ¬ c.PollIs env i .delay := by
    by_contra hall
    have hdelays : ∀ j < n, c.PollIs env j .delay := fun j _ =>
      not_not.mp fun hj => hall ⟨j, hj⟩
    obtain ⟨b₁, w₁, hreaches⟩ := run_waits_on txData rxData hlength hstarts hdelays b
    -- there are not enough entries for so many polls
    obtain ⟨o, ho, _⟩ := hplays.continues (call_reaches hreaches)
    rw [Nat.sub_eq_zero_of_le (by omega), upTo_zero] at ho
    cases ho
  obtain ⟨how, hhow⟩ := c.exists_pollIs env (Nat.find hex)
  refine ⟨Nat.find hex, how, fun j hj => not_not.mp (Nat.find_min hex hj), hhow, ?_⟩
  rintro rfl
  exact Nat.find_spec hex hhow

/-- A call that completes returns right after the loop test that finds both flags. -/
theorem plays_completed (hlength : length ≠ 0) (hstarts : c.Starts env)
    (hbefore : ∀ j < i, c.PollIs env j .delay) (hdone : c.BothDone env i) (b : Board) :
    ∃ b' w,
      (c.call txData rxData length).Plays b (upTo env (c.waitFrom + 3 * i + 2)) true b' w := by
  have hexit : c.PollIs env i .done := hdone
  obtain ⟨b₁, w₁, hreaches, _⟩ := run_exits txData rxData hlength hstarts hbefore hexit (by simp) b
  have hreturns : Takes (c.exit txData rxData length .done >>= fun returned => do
      let _ ← pause
      pure returned) (later env (c.waitFrom + (3 * i + 1))) 1 true 0 :=
    Takes.of_eq (((Takes.act rfl).bind (Takes.pure true)).bind
      (Takes.pause.bind (Takes.pure true))) rfl rfl
  obtain ⟨b₂, w₂, hplays, _, _⟩ := hreturns b₁
  refine ⟨b₂, w₁ ++ w₂, ?_⟩
  have hentries : c.waitFrom + 3 * i + 2 = c.waitFrom + (3 * i + 1) + 1 := by omega
  rw [hentries, upTo_add]
  exact (call_reaches hreaches).plays hplays

/-- The poll that finds both flags is the one the call ends with. -/
theorem eq_of_bothDone {i j : ℕ} {how : Poll} (hbefore : ∀ m < i, c.PollIs env m .delay)
    (hexit : c.PollIs env i how) (hhow : how ≠ .delay)
    (hbefore' : ∀ m < j, c.PollIs env m .delay) (hdone : c.BothDone env j) :
    j = i ∧ how = .done := by
  have hle : i ≤ j := by
    by_contra hlt
    exact (hbefore j (not_le.mp hlt)).1 hdone
  have hge : j ≤ i := by
    by_contra hlt
    have hdelay := hbefore' i (not_le.mp hlt)
    cases how with
    | done => exact hdelay.1 hexit
    | error => exact hdelay.2.1 hexit.2
    | timeout => exact hdelay.2.2 hexit.2.2
    | delay => exact hhow rfl
  obtain rfl := le_antisymm hge hle
  refine ⟨rfl, ?_⟩
  cases how with
  | done => rfl
  | error | timeout | delay => exact absurd hdone hexit.1

/-- A call that goes on to a part that fails and aborts keeps the promise. -/
theorem reports_of_failing {k : ℕ} {m : Handler Bool} {b₁ : Board} {w₁ : List Act}
    (hplays : (c.call txData rxData length).Plays b (upTo env n) passed b' w)
    (h : Replay.Reaches (c.run txData rxData length) b (upTo env k) m b₁ w₁)
    (hfails : ∀ l o, m b₁ l = some o → o.value = false ∧ Aborted c.handles o.trace) :
    ReportsErrors c length env (some passed) n w := by
  obtain ⟨l, o, ho, rfl, htrace⟩ := call_continues hplays h
  obtain ⟨hvalue, haborted⟩ := hfails l o ho
  rw [hvalue]
  refine ⟨fun _ _ => ⟨rfl, fun handle hh => ?_⟩, fun h => by cases h⟩
  exact ⟨htrace _ (haborted handle hh).1, htrace _ (haborted handle hh).2⟩

theorem reports_iff_of_returned (hlength : length ≠ 0)
    (hplays : (c.call txData rxData length).Plays b (upTo env n) passed b' w) :
    ReportsErrors c length env (some passed) n w ↔
      (c.Starts env → ∀ i, (∀ j < i, c.PollIs env j .delay) → c.BothDone env i →
        ¬ FiredIn c.transfer.error env c.lead (c.waitFrom + 3 * i + 2)) := by
  by_cases hstarts : c.Starts env
  · obtain ⟨i, how, hbefore, hexit, hhow⟩ := exists_exit hlength hstarts hplays
    rw [forall_prop_of_true hstarts]
    by_cases hdone : how = .done
    · -- the call has returned OK, and its last entry is the one before the return
      subst hdone
      obtain ⟨_, _, hcompleted⟩ := plays_completed hlength hstarts hbefore hexit b
      obtain ⟨rfl, rfl, _⟩ := hplays.unique hcompleted
      constructor
      · intro hreports j hbefore' hdone
        obtain ⟨rfl, _⟩ := eq_of_bothDone hbefore hexit hhow hbefore' hdone
        exact (hreports.ok rfl).2.2
      · intro hcond
        have hquiet := hcond i hbefore hexit
        refine ⟨fun _ herror => absurd herror.fired hquiet, fun _ => ⟨?_, ?_, hquiet⟩⟩
        · exact hexit.1.mono (Nat.le_succ _)
        · exact hexit.2.mono (Nat.le_succ _)
    · obtain ⟨_, _, hreaches, _⟩ :=
        run_exits txData rxData hlength hstarts hbefore hexit hhow b
      have hreports := reports_of_failing hplays hreaches fun l o ho => by
        obtain ⟨hpassed, haborted⟩ := exit_spec txData rxData ho
        exact ⟨Bool.eq_false_iff.mpr (mt hpassed.mp hdone), haborted hdone⟩
      refine iff_of_true hreports fun j hbefore' hboth => ?_
      exact absurd (eq_of_bothDone hbefore hexit hhow hbefore' hboth).2 hdone
  · obtain ⟨_, _, _, _, hreaches⟩ := run_start_fails txData rxData hlength hstarts b
    have hreports := reports_of_failing hplays hreaches fun l o => fail_spec txData rxData
    exact iff_of_true hreports fun h => absurd h hstarts

/-- A call of no bytes fails at once. -/
theorem passed_of_zero (hplays : (c.call txData rxData 0).Plays b (upTo env n) passed b' w) :
    passed = false := by
  have hrun : c.run txData rxData 0 = pure false :=
    (c.helper txData rxData 0).property.trans (if_pos rfl)
  have hcall := hplays.some
  rw [call, hrun, pure_bind] at hcall
  obtain ⟨o₁, _, o₂, ho₂, heq⟩ := Replay.bind_some.mp hcall
  obtain rfl := Replay.pure_some.mp ho₂
  exact congrArg Outcome.value heq

end TransferCall

/-- **Errors during a transfer**: with every history of callbacks, a call of a transfer helper
reports every error exactly if none can be missed. -/
theorem transfer_reports_errors_iff (c : TransferCall) (txData : List UInt8) (rxData : Buffer)
    (length : UInt8) {b : Board} {H : History} {returned : Option Bool} {n : ℕ} {w : List Act}
    (h : c.Ends txData rxData length b H returned n w) :
    c.ReportsErrors length H.env returned n w ↔ c.Unmissed length H n := by
  cases h with
  | @returned passed n b' w hplays hlives =>
      have hruns : ∀ k < n, H.stop = some k → ¬ c.ErrorIn H.env n := fun k hk hstop =>
        absurd (hlives k hstop) (not_le.mpr hk)
      unfold TransferCall.Unmissed
      by_cases hlength : length = 0
      · subst hlength
        obtain rfl := TransferCall.passed_of_zero hplays
        refine iff_of_true ⟨fun hne => absurd rfl hne, fun h => by cases h⟩ fun hne => ?_
        exact absurd rfl hne
      · rw [TransferCall.reports_iff_of_returned hlength hplays, forall_prop_of_true hlength,
          and_iff_right hruns, forall_prop_of_true hlives]
  | @stopped k hk hrunning =>
      constructor
      · intro hreports hlength
        refine ⟨fun _ _ _ herror => ?_, fun hlives => ?_⟩
        · cases (hreports.error hlength herror).1
        · exact absurd (hlives k hk) (not_le.mpr k.lt_succ_self)
      · intro hcond
        refine ⟨fun hlength herror => ?_, fun h => by cases h⟩
        exact absurd herror ((hcond hlength).1 k k.lt_succ_self hk)

/-! ### A transfer from SPI1 to SPI2 -/

def spiCall : TransferCall := .appSpiTestMasterToSlaveIt .hspi1 .hspi2

/-- The starts succeed, and the callbacks fire before the first loop test. -/
def promptHistory (fired : List Callback) : History where
  env k := if k = 3 then { quietSlot 0 with fired := fired } else quietSlot 0
  stop := none
  logs _ h := by cases h

theorem promptHistory_ends (fired : List Callback)
    (hdone : .halSpiTxRxCplt .hspi1 ∈ fired ∧ .halSpiTxRxCplt .hspi2 ∈ fired) :
    ∃ w, spiCall.Ends [0x55] .appSpiSlaveRx 1 restingBoard (promptHistory fired)
      (some true) 5 w := by
  have hboth : spiCall.BothDone (promptHistory fired).env 0 :=
    ⟨⟨3, by decide, by decide, List.any_eq_true.mpr ⟨_, hdone.1, rfl⟩⟩,
      ⟨3, by decide, by decide, List.any_eq_true.mpr ⟨_, hdone.2, rfl⟩⟩⟩
  have hlength : (1 : UInt8) ≠ 0 := by decide
  have hstarts : spiCall.Starts (promptHistory fired).env := ⟨rfl, rfl⟩
  obtain ⟨b', w, hplays⟩ := TransferCall.plays_completed hlength hstarts
    (fun j hj => absurd hj (Nat.not_lt_zero j)) hboth restingBoard
  exact ⟨w, .returned hplays fun _ h => by cases h⟩

/-- Both completions and no error. -/
theorem transfer_reports_errors_iff_prompt :
    ∃ w, spiCall.ReportsErrors 1
      (promptHistory [.halSpiTxRxCplt .hspi1, .halSpiTxRxCplt .hspi2]).env (some true) 5 w := by
  obtain ⟨w, hends⟩ := promptHistory_ends [.halSpiTxRxCplt .hspi1, .halSpiTxRxCplt .hspi2]
    (by decide)
  refine ⟨w, (transfer_reports_errors_iff spiCall _ _ _ hends).mpr fun _ => ⟨?_, ?_⟩⟩
  · intro k _ hk
    cases hk
  · rintro _ _ i _ _ ⟨k, _, _, hk⟩
    by_cases h3 : k = 3
    · subst h3
      cases hk
    · have hquiet : (promptHistory [.halSpiTxRxCplt .hspi1, .halSpiTxRxCplt .hspi2]).env k =
          quietSlot 0 := if_neg h3
      rw [hquiet] at hk
      cases hk

/-- The error of the slave comes with the last completion: the helper returns OK. -/
theorem late_error_unreported :
    ¬ ∀ (c : TransferCall) (txData : List UInt8) (rxData : Buffer) (length : UInt8) (b : Board)
      (H : History) (returned : Option Bool) (n : ℕ) (w : List Act),
      c.Ends txData rxData length b H returned n w →
        c.ReportsErrors length H.env returned n w := by
  intro hclaim
  obtain ⟨w, hends⟩ := promptHistory_ends
    [.halSpiTxRxCplt .hspi1, .halSpiError .hspi2, .halSpiTxRxCplt .hspi2] (by decide)
  have herror : spiCall.ErrorIn (promptHistory
      [.halSpiTxRxCplt .hspi1, .halSpiError .hspi2, .halSpiTxRxCplt .hspi2]).env 5 :=
    ⟨3, by decide, by decide, .spi .hspi2, by decide, by decide⟩
  have hfalse := ((hclaim _ _ _ _ _ _ _ _ _ hends).error (by decide) herror).1
  cases hfalse

end PeripheralTester.Firmware
