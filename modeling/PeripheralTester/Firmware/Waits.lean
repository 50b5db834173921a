import PeripheralTester.Firmware.Timeouts

/-! # The entries of a call

A call of a transfer helper reads its recording at fixed places: what comes before it clears its
flags, the two starts and what is between them, the start tick, and three entries for each round of
its wait loop.  So what a round finds can be said of the recording: which flags the callbacks have
set by then (`FiredIn`) and which tick it reads (`TransferCall.PollIs`).  `TransferCall.run_exits`
follows the code of the helper to the exit that the first round takes which does not delay.

The board of a recording takes every callback for its stores alone.  `HAL_UART_ErrorCallback` also
calls `APP_LOG`, and unless it has interrupted a task that had suspended the scheduler, an assertion
in there stops the processor (`Interrupts`).  A `History` is a recording together with the entry in
which this happens, if it does. -/

namespace PeripheralTester.Firmware

open Lib Handler

/-! ### Histories -/

/-- A recording, and the entry in whose last callback the processor stops: a callback that logs. -/
structure History where
  env : ℕ → Slot
  stop : Option ℕ
  logs : ∀ k, stop = some k → ∃ cb, (env k).fired.getLast? = some cb ∧ cb.logs = true

/-- The processor does not stop in the first `n` entries. -/
def History.Lives (H : History) (n : ℕ) : Prop := ∀ k, H.stop = some k → n ≤ k

/-- A callback of the entry sets the flag. -/
def Slot.fires (f : Flag) (a : Slot) : Bool := a.fired.any fun cb => cb.flag = some f

/-- A callback sets the flag in an entry from `first` on and before `last`. -/
def FiredIn (f : Flag) (env : ℕ → Slot) (first last : ℕ) : Prop :=
  ∃ k, first ≤ k ∧ k < last ∧ (env k).fires f = true

variable {f : Flag} {env : ℕ → Slot} {b : Board} {k l n : ℕ}

theorem FiredIn.mono {first last last' : ℕ} (h : FiredIn f env first last) (hle : last ≤ last') :
    FiredIn f env first last' := by
  obtain ⟨k, hfirst, hlast, hk⟩ := h
  exact ⟨k, hfirst, hlast.trans_le hle, hk⟩

theorem not_firedIn_self (f : Flag) (env : ℕ → Slot) (n : ℕ) : ¬ FiredIn f env n n := by
  rintro ⟨k, hfirst, hlast, _⟩
  omega

theorem firedIn_later : FiredIn f (later env n) 0 k ↔ FiredIn f env n (n + k) := by
  constructor
  · rintro ⟨i, _, hlast, hi⟩
    exact ⟨n + i, Nat.le_add_right n i, by omega, hi⟩
  · rintro ⟨i, hfirst, hlast, hi⟩
    refine ⟨i - n, Nat.zero_le _, by omega, ?_⟩
    rw [later, Nat.add_sub_cancel' hfirst]
    exact hi

theorem firedIn_split {first : ℕ} (hkl : first ≤ k) (hle : k ≤ l) :
    FiredIn f env first l ↔ FiredIn f env first k ∨ FiredIn f env k l := by
  constructor
  · rintro ⟨i, hfirst, hlast, hi⟩
    rcases Nat.lt_or_ge i k with hik | hki
    · exact .inl ⟨i, hfirst, hik, hi⟩
    · exact .inr ⟨i, hki, hlast, hi⟩
  · rintro (h | ⟨i, hfirst, hlast, hi⟩)
    · exact h.mono hle
    · exact ⟨i, hkl.trans hfirst, hlast, hi⟩

theorem firedIn_one : FiredIn f env 0 1 ↔ (env 0).fires f = true := by
  constructor
  · rintro ⟨i, _, hlast, hi⟩
    obtain rfl := Nat.lt_one_iff.mp hlast
    exact hi
  · exact fun h => ⟨0, le_rfl, Nat.zero_lt_one, h⟩

theorem flags_advance_iff (a : Slot) :
    (b.advance a).flags f = true ↔ b.flags f = true ∨ a.fires f = true := by
  have hfires : signalled f (a.fired.map .callback) = a.fires f := by
    unfold signalled Slot.fires
    rw [List.any_map]
    rfl
  rw [flags_advance, hfires, Bool.or_eq_true]

/-! ### Parts of a call -/

/-- On the recording the part reads `k` entries, returns `a` and delays for a tick `d` times; it
stores no flags. -/
def Takes {α : Type} (m : Handler α) (env : ℕ → Slot) (k : ℕ) (a : α) (d : ℕ) : Prop :=
  ∀ b, ∃ b' w, m.Plays b (upTo env k) a b' w ∧
    (∀ f, b'.flags f = true ↔ b.flags f = true ∨ FiredIn f env 0 k) ∧ w.count (.delay 1) = d

namespace Takes

variable {α β : Type} {m : Handler α} {g : α → Handler β} {a : α} {a' : β} {d d' k' : ℕ}

theorem pure (a : α) : Takes (Pure.pure a) env 0 a 0 := by
  intro b
  refine ⟨b, [], Replay.plays_pure b a, fun f => ?_, rfl⟩
  simp [not_firedIn_self]

theorem of_eq (h : Takes m env k a d) (hk : k = k') (hd : d = d') : Takes m env k' a d' :=
  hk ▸ hd ▸ h

/-- Entries and delays add up. -/
theorem bind (hm : Takes m env k a d) (hg : Takes (g a) (later env k) k' a' d') :
    Takes (m >>= g) env (k + k') a' (d + d') := by
  intro b
  obtain ⟨b₁, w₁, hplays₁, hflags₁, hcount₁⟩ := hm b
  obtain ⟨b₂, w₂, hplays₂, hflags₂, hcount₂⟩ := hg b₁
  refine ⟨b₂, w₁ ++ w₂, ?_, fun f => ?_, by rw [List.count_append, hcount₁, hcount₂]⟩
  · rw [upTo_add]
    exact hplays₁.bind hplays₂
  · rw [hflags₂, hflags₁, firedIn_later, or_assoc,
      ← firedIn_split (Nat.zero_le k) (Nat.le_add_right k k')]

theorem modify {g : Board → Board} (hg : ∀ b, (g b).flags = b.flags) :
    Takes (Replay.modify g : Handler Unit) env 0 () 0 := by
  intro b
  refine ⟨g b, [], Replay.plays_modify b g, fun f => ?_, rfl⟩
  simp [hg, not_firedIn_self]

theorem act {x : Act} (hd : List.count (.delay 1) [x] = d) :
    Takes (Handler.act x) env 0 () d := by
  intro b
  refine ⟨b, [x], fun _ => rfl, fun f => ?_, hd⟩
  simp [not_firedIn_self]

theorem pause : Takes Handler.pause env 1 (env 0) 0 := by
  intro b
  refine ⟨b.advance (env 0), (env 0).fired.map .callback, fun rest => ?_, fun f => ?_,
    delays_callbacks _⟩
  · show some _ = _
    simp
  · rw [flags_advance_iff, firedIn_one]

theorem vTaskDelay_one : Takes (Handler.vTaskDelay 1) env 1 () 1 :=
  of_eq ((act rfl).bind (pause.bind (pure ()))) rfl rfl

theorem halGetTick : Takes Handler.halGetTick env 1 (env 0).count 0 :=
  of_eq (pause.bind (pure (env 0).count)) rfl rfl

theorem halStart (op : Operation) : Takes (Handler.halStart op) env 1 (env 0).ok 0 := by
  refine of_eq (pause.bind ((act rfl).bind ((modify fun b => ?_).bind (pure (env 0).ok)))) rfl rfl
  split
  · split <;> rfl
  · rfl

/-- A start that succeeds. -/
theorem started {op : Operation} {m m' : Handler α} (hok : (env 0).ok = true)
    (hm : Takes m (later env 1) k a d) :
    Takes (Handler.halStart op >>= fun started => if started then m else m') env (k + 1) a d := by
  refine of_eq ((halStart op).bind ?_) (Nat.add_comm 1 k) (Nat.zero_add d)
  rw [hok, if_pos rfl]
  exact hm

/-- A start that fails. -/
theorem notStarted {op : Operation} {m m' : Handler α} (hok : (env 0).ok = false)
    (hm : Takes m' (later env 1) k a d) :
    Takes (Handler.halStart op >>= fun started => if started then m else m') env (k + 1) a d := by
  refine of_eq ((halStart op).bind ?_) (Nat.add_comm 1 k) (Nat.zero_add d)
  rw [hok, if_neg Bool.false_ne_true]
  exact hm

theorem halStop_abort (h : Handle) : Takes (Handler.halStop .abort h) env 1 () 0 :=
  of_eq (pause.bind ((act rfl).bind (modify fun _ => rfl))) rfl rfl

theorem memset (buffer : Buffer) (value : UInt8) (length : ℕ) :
    Takes (Handler.memset buffer value length) env 0 () 0 := modify fun _ => rfl

end Takes

/-! ### Up to the wait loop -/

/-- How many entries the helper reads before it clears its flags, and for how many ticks it delays
between its two starts. -/
structure Helper.Paced (x : Helper) (lead pauses : ℕ) : Prop where
  before : ∀ env, Takes x.before env lead () 0
  prepare : ∀ env, Takes x.prepare env 0 () 0
  between : ∀ env, Takes x.between env pauses () pauses

section

variable {x : Helper} {lead pauses : ℕ}

theorem Helper.takes_startUp (hx : x.Paced lead pauses) (hfirst : (env 0).ok = true)
    (hsecond : (env (1 + pauses)).ok = true) :
    Takes x.startUp env (pauses + 3) (.ok (env (1 + pauses + 1)).count) pauses := by
  have htick : Takes (do
      let startTick ← halGetTick
      pure (.ok startTick) : Handler (Except (Option String) UInt32))
      (later env (1 + pauses + 1)) 1 (.ok (env (1 + pauses + 1)).count) 0 :=
    Takes.of_eq (Takes.halGetTick.bind (Takes.pure _)) rfl rfl
  refine Takes.started hfirst (Takes.of_eq ((hx.between _).bind ?_) rfl (Nat.add_zero _))
  rw [later_later]
  refine Takes.started hsecond ?_
  rw [later_later]
  exact htick

theorem Helper.takes_startUp_first (x : Helper) (hfirst : (env 0).ok = false) :
    Takes x.startUp env 1 (.error x.firstFailed) 0 := Takes.notStarted hfirst (Takes.pure _)

theorem Helper.takes_startUp_second (hx : x.Paced lead pauses) (hfirst : (env 0).ok = true)
    (hsecond : (env (1 + pauses)).ok = false) :
    Takes x.startUp env (pauses + 2) (.error x.secondFailed) pauses := by
  refine Takes.started hfirst (Takes.of_eq ((hx.between _).bind ?_) rfl (Nat.add_zero _))
  rw [later_later]
  exact Takes.notStarted hsecond (Takes.pure _)

/-- A call up to its wait loop, from what its starts come to: of the flags it waits for, those are
set that a callback has set since it cleared them. -/
theorem Helper.plays_starting (hx : x.Paced lead pauses) {r : Except (Option String) UInt32}
    {d : ℕ} (h : Takes x.startUp (later env lead) k r d) (b : Board) :
    ∃ b₁ w, x.starting.Plays b (upTo env (lead + k)) r b₁ w ∧
      (∀ f ∈ x.transfer.cleared, b₁.flags f = true ↔ FiredIn f env lead (lead + k)) ∧
      w.count (.delay 1) = d := by
  have hrest : Takes (x.prepare >>= fun _ => x.startUp) (later env lead) k r d :=
    Takes.of_eq ((hx.prepare _).bind (by rwa [later_later])) (Nat.zero_add k) (Nat.zero_add d)
  obtain ⟨b₀, w₀, hplays₀, _, hcount₀⟩ := hx.before env b
  obtain ⟨b₁, w₁, hplays₁, hflags₁, hcount₁⟩ :=
    hrest { b₀ with flags := b₀.flags.clear x.transfer.cleared }
  refine ⟨b₁, w₀ ++ ([] ++ w₁), ?_, fun f hf => ?_, ?_⟩
  · rw [upTo_add]
    exact hplays₀.bind ((Replay.plays_modify _ _).after hplays₁)
  · rw [hflags₁, firedIn_later]
    simp [Flags.clear, hf]
  · rw [List.nil_append, List.count_append, hcount₀, hcount₁, Nat.zero_add]

end

/-! ### The rounds of the wait loop -/

/-- The board after the first entries of a recording. -/
def boardAfter (b : Board) (env : ℕ → Slot) (k : ℕ) : Board := (upTo env k).foldl Board.advance b

theorem boardAfter_add (b : Board) (env : ℕ → Slot) (k l : ℕ) :
    boardAfter b env (k + l) = boardAfter (boardAfter b env k) (later env k) l := by
  unfold boardAfter
  rw [upTo_add, List.foldl_append]

theorem flags_boardAfter :
    (boardAfter b env k).flags f = true ↔ b.flags f = true ∨ FiredIn f env 0 k := by
  induction k with
  | zero => simp [boardAfter, upTo, not_firedIn_self]
  | succ k ih =>
      have hlast : FiredIn f env k (k + 1) ↔ (env k).fires f = true :=
        firedIn_later.symm.trans firedIn_one
      rw [boardAfter_add, firedIn_split (Nat.zero_le k) k.le_succ, hlast, ← or_assoc, ← ih]
      exact flags_advance_iff (env k)

/-- The round of poll `n`. -/
def roundAt (t : Transfer) (tick : UInt32) (b : Board) (env : ℕ → Slot) (n : ℕ) : Poll :=
  waitRound t tick (boardAfter b env (3 * n)) (later env (3 * n))

variable {t : Transfer} {tick : UInt32}

/-- A round tests the flags of its poll, and then the tick. -/
theorem roundAt_eq : roundAt t tick b env n =
    if t.completed (boardAfter b env (3 * n + 1)).flags then .done
    else if (boardAfter b env (3 * n + 2)).flags t.error then .error
    else if timedOut tick (env (3 * n + 2)).count then .timeout
    else .delay := by
  rw [boardAfter_add, boardAfter_add]
  rfl

/-- As long as the rounds delay, the loop goes on. -/
theorem waitLoop_reaches (h : ∀ m < n, roundAt t tick b env m = .delay) :
    ∃ w, Replay.Reaches (waitLoop t tick : Handler Poll) b (upTo env (3 * n))
        (waitLoop t tick) (boardAfter b env (3 * n)) w ∧
      w.count (.delay 1) = n := by
  induction n with
  | zero => exact ⟨[], Replay.reaches_refl _ b, rfl⟩
  | succ n ih =>
      obtain ⟨w, hreaches, hcount⟩ := ih fun m hm => h m (Nat.lt_succ_of_lt hm)
      obtain ⟨w', hreaches', hcount'⟩ := waitLoop_goes_on (h n n.lt_succ_self)
      refine ⟨w ++ w', ?_, by rw [List.count_append, hcount, hcount']⟩
      rw [Nat.mul_succ, upTo_add, boardAfter_add]
      exact hreaches.trans hreaches'

/-- The loop ends in the first round that does not delay. -/
theorem waitLoop_rounds {how : Poll} (h : ∀ m < n, roundAt t tick b env m = .delay)
    (hexit : roundAt t tick b env n = how) (hhow : how ≠ .delay) :
    ∃ b' w, Replay.Plays (waitLoop t tick : Handler Poll) b (upTo env (3 * n + how.tests)) how
        b' w ∧
      w.count (.delay 1) = n := by
  obtain ⟨w, hreaches, hcount⟩ := waitLoop_reaches h
  obtain ⟨b', w', hplays, hcount'⟩ := waitLoop_exit hexit hhow
  refine ⟨b', w ++ w', ?_, by rw [List.count_append, hcount, hcount', Nat.add_zero]⟩
  rw [upTo_add]
  exact hreaches.plays hplays

/-! ### The exits of a call -/

/-- What a helper does when its wait loop has ended. -/
def Helper.exit (x : Helper) : Poll → Handler Bool
  | .done => do
      act (.completed x.transfer)
      pure true
  | .error => x.fail x.errorSeen
  | .timeout | .delay => x.fail x.timeoutSeen

theorem Helper.finish_eq (x : Helper) (startTick : UInt32) :
    x.finish startTick = waitLoop x.transfer startTick >>= x.exit := by
  unfold Helper.finish
  refine congrArg _ (funext fun how => ?_)
  cases how <;> rfl

theorem Helper.reaches_wait {x : Helper} {length : UInt8} (hlength : length ≠ 0)
    {l : List Slot} {tick : UInt32} {b₁ : Board} {w : List Act}
    (h : x.starting.Plays b l (.ok tick) b₁ w) :
    (x.run length).Reaches b l (waitLoop x.transfer tick >>= x.exit) b₁ w := by
  rw [x.run_eq_starting hlength, ← x.finish_eq]
  exact h.reaches

theorem Helper.reaches_fail {x : Helper} {length : UInt8} (hlength : length ≠ 0)
    {l : List Slot} {line : Option String} {b₁ : Board} {w : List Act}
    (h : x.starting.Plays b l (.error line) b₁ w) :
    (x.run length).Reaches b l (x.fail line) b₁ w := by
  rw [x.run_eq_starting hlength]
  exact h.reaches

namespace TransferCall

/-- How many entries a call reads before it clears its flags: it may first abort its two handles. -/
def lead : TransferCall → ℕ
  | appUartTestTransferDma _ _ => 2
  | _ => 0

/-- For how many ticks a call delays between its two starts. -/
def pauses : TransferCall → ℕ
  | appSpiTestMasterToSlaveDma _ _ | appSpiTestSlaveToMasterDma _ _ => 1
  | _ => 0

/-- The entry of a call that its wait loop begins with, after the two starts and the start tick. -/
def waitFrom (c : TransferCall) : ℕ := c.lead + (c.pauses + 3)

/-- Both starts return `HAL_OK`. -/
def Starts (c : TransferCall) (env : ℕ → Slot) : Prop :=
  (env c.lead).ok = true ∧ (env (c.lead + (1 + c.pauses))).ok = true

/-- The tick from which a call waits. -/
def startTick (c : TransferCall) (env : ℕ → Slot) : UInt32 :=
  (env (c.lead + (1 + c.pauses + 1))).count

/-- By the loop test of poll `n` both completion flags have been set since the call cleared them. -/
def BothDone (c : TransferCall) (env : ℕ → Slot) (n : ℕ) : Prop :=
  FiredIn c.transfer.done.1 env c.lead (c.waitFrom + 3 * n + 1) ∧
    FiredIn c.transfer.done.2 env c.lead (c.waitFrom + 3 * n + 1)

/-- By the test of the error flag of poll `n` it has been set. -/
def ErrorSeen (c : TransferCall) (env : ℕ → Slot) (n : ℕ) : Prop :=
  FiredIn c.transfer.error env c.lead (c.waitFrom + 3 * n + 2)

/-- Poll `n` finds the time over. -/
def TimeOver (c : TransferCall) (env : ℕ → Slot) (n : ℕ) : Prop :=
  timedOut (c.startTick env) (env (c.waitFrom + 3 * n + 2)).count = true

/-- What poll `n` decides. -/
def PollIs (c : TransferCall) (env : ℕ → Slot) (n : ℕ) : Poll → Prop
  | .done => c.BothDone env n
  | .error => ¬ c.BothDone env n ∧ c.ErrorSeen env n
  | .timeout => ¬ c.BothDone env n ∧ ¬ c.ErrorSeen env n ∧ c.TimeOver env n
  | .delay => ¬ c.BothDone env n ∧ ¬ c.ErrorSeen env n ∧ ¬ c.TimeOver env n

theorem exists_pollIs (c : TransferCall) (env : ℕ → Slot) (n : ℕ) : ∃ how, c.PollIs env n how := by
  by_cases hdone : c.BothDone env n
  · exact ⟨.done, hdone⟩
  by_cases herror : c.ErrorSeen env n
  · exact ⟨.error, hdone, herror⟩
  by_cases htime : c.TimeOver env n
  · exact ⟨.timeout, hdone, herror, htime⟩
  · exact ⟨.delay, hdone, herror, htime⟩

section

variable (c : TransferCall) (txData : List UInt8) (rxData : Buffer) (length : UInt8)

/-- What a call does when its wait loop has ended. -/
def exit : Poll → Handler Bool := (c.helper txData rxData length).val.exit

theorem helper_paced : (c.helper txData rxData length).val.Paced c.lead c.pauses := by
  cases c with
  | appUartTestTransferDma h h' =>
      exact ⟨fun env => .of_eq ((Takes.halStop_abort _).bind (.halStop_abort _)) rfl rfl,
        fun env => .pure (), fun env => .pure ()⟩
  | appSpiTestMasterToSlaveIt h h' | appSpiTestSlaveToMasterIt h h' =>
      exact ⟨fun env => .pure (),
        fun env => .of_eq ((Takes.memset _ _ _).bind (.memset _ _ _)) rfl rfl, fun env => .pure ()⟩
  | appSpiTestMasterToSlaveDma h h' | appSpiTestSlaveToMasterDma h h' =>
      exact ⟨fun env => .pure (),
        fun env => .of_eq ((Takes.memset _ _ _).bind (.memset _ _ _)) rfl rfl,
        fun env => .vTaskDelay_one⟩
  | appUartTestTransferIt h h' | appI2cTestMasterToSlaveIt h h' | appI2cTestMasterToSlaveDma h h'
  | appI2cTestSlaveToMasterIt h h' | appI2cTestSlaveToMasterDma h h' =>
      exact ⟨fun env => .pure (), fun env => .pure (), fun env => .pure ()⟩

variable {c length}

/-- A call that gets to its wait loop. -/
theorem run_waits (hlength : length ≠ 0) (hstarts : c.Starts env) (b : Board) :
    ∃ b₁ w, Replay.Reaches (c.run txData rxData length) b (upTo env c.waitFrom)
        (waitLoop c.transfer (c.startTick env) >>= c.exit txData rxData length) b₁ w ∧
      (∀ f ∈ c.transfer.cleared, b₁.flags f = true ↔ FiredIn f env c.lead c.waitFrom) ∧
      w.count (.delay 1) = c.pauses := by
  have hpaced := c.helper_paced txData rxData length
  obtain ⟨b₁, w, hplays, hflags, hcount⟩ :=
    Helper.plays_starting hpaced (Helper.takes_startUp hpaced hstarts.1 hstarts.2) b
  have hreaches := Helper.reaches_wait hlength hplays
  rw [helper_transfer] at hflags hreaches
  exact ⟨b₁, w, hreaches.of_eq (c.helper txData rxData length).property, hflags, hcount⟩

/-- What the callbacks have set of its flags while the call waits. -/
theorem flags_while_waiting {b₁ : Board}
    (hflags : ∀ f ∈ c.transfer.cleared, b₁.flags f = true ↔ FiredIn f env c.lead c.waitFrom)
    (hf : f ∈ c.transfer.cleared) :
    (boardAfter b₁ (later env c.waitFrom) k).flags f = true ↔
      FiredIn f env c.lead (c.waitFrom + k) := by
  rw [flags_boardAfter, hflags f hf, firedIn_later]
  exact (firedIn_split (Nat.le_add_right _ _) (Nat.le_add_right _ _)).symm

theorem roundAt_of_pollIs {b₁ : Board} {how : Poll}
    (hflags : ∀ f ∈ c.transfer.cleared, b₁.flags f = true ↔ FiredIn f env c.lead c.waitFrom)
    (h : c.PollIs env n how) :
    roundAt c.transfer (c.startTick env) b₁ (later env c.waitFrom) n = how := by
  have hdone : c.transfer.completed
      (boardAfter b₁ (later env c.waitFrom) (3 * n + 1)).flags = true ↔ c.BothDone env n := by
    rw [Transfer.completed, Bool.and_eq_true,
      flags_while_waiting hflags (by simp [Transfer.cleared]),
      flags_while_waiting hflags (by simp [Transfer.cleared])]
    rfl
  have herror : (boardAfter b₁ (later env c.waitFrom) (3 * n + 2)).flags c.transfer.error = true ↔
      c.ErrorSeen env n := flags_while_waiting hflags (by simp [Transfer.cleared])
  have htime : timedOut (c.startTick env) (later env c.waitFrom (3 * n + 2)).count = true ↔
      c.TimeOver env n := by
    unfold TimeOver later
    rw [Nat.add_assoc]
  unfold PollIs at h
  rw [← hdone, ← herror, ← htime] at h
  rw [roundAt_eq]
  cases how with
  | done => exact if_pos h
  | error => exact (if_neg h.1).trans (if_pos h.2)
  | timeout => exact (if_neg h.1).trans ((if_neg h.2.1).trans (if_pos h.2.2))
  | delay => exact (if_neg h.1).trans ((if_neg h.2.1).trans (if_neg h.2.2))

/-- As long as the polls delay, the call waits. -/
theorem run_waits_on (hlength : length ≠ 0) (hstarts : c.Starts env)
    (hbefore : ∀ m < n, c.PollIs env m .delay) (b : Board) :
    ∃ b' w, Replay.Reaches (c.run txData rxData length) b (upTo env (c.waitFrom + 3 * n))
      (waitLoop c.transfer (c.startTick env) >>= c.exit txData rxData length) b' w := by
  obtain ⟨b₁, w₁, hreaches, hflags, _⟩ := run_waits txData rxData hlength hstarts b
  obtain ⟨w, hloop, _⟩ := waitLoop_reaches fun m hm => roundAt_of_pollIs hflags (hbefore m hm)
  refine ⟨boardAfter b₁ (later env c.waitFrom) (3 * n), w₁ ++ w, ?_⟩
  rw [upTo_add]
  exact hreaches.trans hloop.bind

/-- **How a call ends its wait**: it takes the exit of the first poll that does not delay. -/
theorem run_exits (hlength : length ≠ 0) (hstarts : c.Starts env)
    (hbefore : ∀ m < n, c.PollIs env m .delay) {how : Poll} (hexit : c.PollIs env n how)
    (hhow : how ≠ .delay) (b : Board) :
    ∃ b' w, Replay.Reaches (c.run txData rxData length) b
        (upTo env (c.waitFrom + (3 * n + how.tests))) (c.exit txData rxData length how) b' w ∧
      w.count (.delay 1) = c.pauses + n := by
  obtain ⟨b₁, w₁, hreaches, hflags, hcount₁⟩ := run_waits txData rxData hlength hstarts b
  obtain ⟨b', w, hloop, hcount⟩ := waitLoop_rounds
    (fun m hm => roundAt_of_pollIs hflags (hbefore m hm)) (roundAt_of_pollIs hflags hexit) hhow
  refine ⟨b', w₁ ++ w, ?_, by rw [List.count_append, hcount₁, hcount]⟩
  rw [upTo_add]
  exact hreaches.trans hloop.reaches

/-- A call one of whose starts fails. -/
theorem run_start_fails (hlength : length ≠ 0) (hstarts : ¬ c.Starts env) (b : Board) :
    ∃ k line b₁ w, Replay.Reaches (c.run txData rxData length) b (upTo env k)
      ((c.helper txData rxData length).val.fail line) b₁ w := by
  have hpaced := c.helper_paced txData rxData length
  have hstart : ∃ k line d, Takes (c.helper txData rxData length).val.startUp (later env c.lead) k
      (.error line) d := by
    cases hfirst : (env c.lead).ok with
    | false => exact ⟨_, _, _, Helper.takes_startUp_first _ hfirst⟩
    | true =>
        have hsecond : (env (c.lead + (1 + c.pauses))).ok = false :=
          Bool.eq_false_iff.mpr fun h => hstarts ⟨hfirst, h⟩
        exact ⟨_, _, _, Helper.takes_startUp_second hpaced hfirst hsecond⟩
  obtain ⟨k, line, d, htakes⟩ := hstart
  obtain ⟨b₁, w, hplays, _, _⟩ := Helper.plays_starting hpaced htakes b
  have hreaches := Helper.reaches_fail hlength hplays
  exact ⟨c.lead + k, line, b₁, w, hreaches.of_eq (c.helper txData rxData length).property⟩

theorem fail_spec {line : Option String} {l : List Slot} {o : Outcome Board Slot Act Bool}
    (ho : (c.helper txData rxData length).val.fail line b l = some o) :
    o.value = false ∧ Aborted c.handles o.trace :=
  Helper.fail_spec (c.helper_proper txData rxData length) ho

/-- An exit returns OK, or it returns `FAIL` and has aborted. -/
theorem exit_spec {how : Poll} {l : List Slot} {o : Outcome Board Slot Act Bool}
    (ho : c.exit txData rxData length how b l = some o) :
    (o.value = true ↔ how = .done) ∧ (how ≠ .done → Aborted c.handles o.trace) := by
  cases how with
  | done =>
      obtain ⟨_, _, o₂, ho₂, rfl⟩ := Replay.bind_some.mp ho
      obtain rfl := Replay.pure_some.mp ho₂
      exact ⟨iff_of_true rfl rfl, fun h => absurd rfl h⟩
  | error | timeout | delay =>
      obtain ⟨hvalue, haborted⟩ := c.fail_spec txData rxData ho
      exact ⟨iff_of_false (by simp [hvalue]) (by simp), fun _ => haborted⟩

end

end TransferCall

end PeripheralTester.Firmware
