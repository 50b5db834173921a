import PeripheralTester.Server.Program

/-! # Accounting for the received records

`Accounted s c`: the response queue of `s` represents the channel `c`, and the records pushed so
far are, in order, the records passed to the database, the one in the writer's hand and the
content of the channel.  Every step keeps the account (`accounted_rxStep`,
`accounted_writerStep`, `accounted_mainStep`), and `Sound` is the invariant that carries it from
the start of the process through every run (`sound_of_reachable`). -/

namespace PeripheralTester.Server

open Lib

/-- The record the writer has popped and not yet passed to the database. -/
def WriterPc.inHand : WriterPc → List Received
  | .update r => [r]
  | _ => []

@[simp] theorem inHand_signalled (pc : WriterPc) : pc.signalled.inHand = pc.inHand := by
  cases pc <;> rfl

structure Accounted (s : Process) (c : Channel Received responseQueueCapacity) : Prop where
  queue : Represents s.queue c
  pushed : s.pushed = s.updates.map Prod.fst ++ s.writer.inHand ++ c.items

variable {env : Startup} {s s' : Process} {c : Channel Received responseQueueCapacity}

theorem accounted_rxStep {a : RecvAnswer} (h : rxStep a s = some s') (hs : Accounted s c) :
    ∃ c', Accounted s' c' ∧ c'.closed = c.closed := by
  cases rxStep_cases h with
  | test | discard | receive | full => exact ⟨c, ⟨hs.queue, hs.pushed⟩, rfl⟩
  | push _ hq =>
      obtain ⟨hrep, hitems, hclosed⟩ := hs.queue.of_push_ok hq
      refine ⟨_, ⟨hrep, ?_⟩, hclosed⟩
      rw [hitems]
      simp only [inHand_signalled, hs.pushed, List.append_assoc]

theorem accounted_writerStep {answer : SqliteAnswer} (h : writerStep answer s = some s')
    (hs : Accounted s c) : ∃ c', Accounted s' c' ∧ c'.closed = c.closed := by
  have hp := hs.pushed
  cases writerStep_cases h with
  | test hw =>
      refine ⟨c, ⟨hs.queue, ?_⟩, rfl⟩
      simp only [hw, WriterPc.inHand] at hp
      cases hr : s.responseWriterRunning <;> simpa [hr, WriterPc.inHand] using hp
  | wait hw hq =>
      obtain ⟨rfl, _, _⟩ := hs.queue.of_pop_waiting hq
      refine ⟨c, ⟨hs.queue, ?_⟩, rfl⟩
      simpa [hw, WriterPc.inHand] using hp
  | fail hw hq =>
      obtain ⟨rfl, _, _⟩ := hs.queue.of_pop_fail hq
      refine ⟨c, ⟨hs.queue, ?_⟩, rfl⟩
      simpa [hw, WriterPc.inHand] using hp
  | pop hw hq =>
      obtain ⟨hrep, hitems, hclosed⟩ := hs.queue.of_pop_record hq
      refine ⟨_, ⟨hrep, ?_⟩, hclosed⟩
      rw [hw, hitems] at hp
      simpa [WriterPc.inHand] using hp
  | update hw =>
      refine ⟨c, ⟨hs.queue, ?_⟩, rfl⟩
      simpa [hw, WriterPc.inHand] using hp

/-! ### From the start of the process -/

/-- The calls main makes once, before its loop. -/
def MainCall.isStartup : MainCall → Bool
  | .udpClientOpen | .responseQueueInit | .resultDatabaseOpen | .responseWriterStart
  | .udpClientStartRxThread | .commandGeneratorInit => true
  | _ => false

/-- The account together with what it needs of the startup sequence: the queue is not used
before it is initialised, and no thread runs before it is started. -/
structure Sound (s : Process) : Prop where
  calls : s.calls <:+ MainCall.start ∨ ∀ x ∈ s.calls, x.isStartup = false
  queueInit : .responseQueueInit ∈ s.calls → s.queue = responseQueueCleared
  writerStart : .responseWriterStart ∈ s.calls → s.writer = .notStarted
  rxStart : .udpClientStartRxThread ∈ s.calls → s.rx = .notStarted
  account : ∃ c, Accounted s c

theorem sound_init (rows : List Row) : Sound (.init rows) where
  calls := .inl (List.suffix_refl _)
  queueInit := fun _ => rfl
  writerStart := fun _ => rfl
  rxStart := fun _ => rfl
  account := ⟨.empty, represents_cleared, rfl⟩

/-- The exits of main make no startup call. -/
theorem isStartup_of_mem_exits {x y : MainCall} {l : List MainCall} (hl : l ∈ x.exits)
    (hy : y ∈ l) : y.isStartup = false := by
  have hall : ∀ x : MainCall, ∀ l ∈ x.exits, ∀ y ∈ l, y.isStartup = false := by
    intro x
    cases x <;> decide
  exact hall x l hl y hy

theorem isStartup_of_join {x y : MainCall} (h : x.join = some y) :
    x ∉ MainCall.start ∧ y.isStartup = false := by
  cases x <;> cases h <;> decide

/-- The startup calls main has left are among those it had left before. -/
theorem startup_mem {a : MainAnswer} {y : MainCall} (h : mainStep env a s = some s')
    (hy : y ∈ s'.calls) (hst : y.isStartup = true) : y ∈ s.calls.tail := by
  obtain ⟨x, cs, hc, hcs | hex | ⟨z, hz, hcs⟩⟩ := mainStep_calls h
  · rw [hcs] at hy
    rw [hc]
    exact hy
  · rw [isStartup_of_mem_exits hex hy] at hst
    cases hst
  · rw [hcs, List.mem_cons] at hy
    rcases hy with rfl | hy
    · rw [(isStartup_of_join hz).2] at hst
      cases hst
    · rw [hc]
      exact hy

theorem calls_mainStep {a : MainAnswer} (h : mainStep env a s = some s')
    (hs : s.calls <:+ MainCall.start ∨ ∀ x ∈ s.calls, x.isStartup = false) :
    s'.calls <:+ MainCall.start ∨ ∀ x ∈ s'.calls, x.isStartup = false := by
  obtain ⟨x, cs, hc, hcs | hex | ⟨z, hz, hcs⟩⟩ := mainStep_calls h
  · rw [hc] at hs
    rw [hcs]
    rcases hs with hs | hs
    · exact .inl ((List.suffix_cons x cs).trans hs)
    · exact .inr fun y hy => hs y (List.mem_cons_of_mem x hy)
  · exact .inr fun y hy => isStartup_of_mem_exits hex hy
  · rw [hc] at hs
    rcases hs with hs | hs
    · exact absurd (hs.subset List.mem_cons_self) (isStartup_of_join hz).1
    · rw [hcs]
      refine .inr fun y hy => ?_
      rcases List.mem_cons.mp hy with rfl | hy
      · exact (isStartup_of_join hz).2
      · exact hs y (List.mem_cons_of_mem x hy)

/-- A startup call comes after the others in the list only as `main` writes it. -/
theorem startup_order {l : List MainCall} (h : l <:+ MainCall.start) :
    (.responseQueueInit ∈ l → .responseWriterStart ∈ l ∧ .udpClientStartRxThread ∈ l) ∧
      (.responseQueueInit ∈ l.tail → l.head? = some .udpClientOpen) ∧
      (.responseWriterStart ∈ l → .udpClientStartRxThread ∈ l) ∧
      (.responseWriterStart ∈ l.tail → l.head? ≠ some .responseWriterStart) ∧
      (.udpClientStartRxThread ∈ l.tail → l.head? ≠ some .udpClientStartRxThread) := by
  have hall : ∀ l ∈ MainCall.start.tails,
      (.responseQueueInit ∈ l → .responseWriterStart ∈ l ∧ .udpClientStartRxThread ∈ l) ∧
      (.responseQueueInit ∈ l.tail → l.head? = some .udpClientOpen) ∧
      (.responseWriterStart ∈ l → .udpClientStartRxThread ∈ l) ∧
      (.responseWriterStart ∈ l.tail → l.head? ≠ some .responseWriterStart) ∧
      (.udpClientStartRxThread ∈ l.tail → l.head? ≠ some .udpClientStartRxThread) := by
    decide
  exact hall l ((List.mem_tails _ _).mpr h)

/-- A startup call that is left means the startup sequence is still being followed. -/
theorem Sound.suffix (hs : Sound s) {x : MainCall} (hx : x ∈ s.calls) (hst : x.isStartup = true) :
    s.calls <:+ MainCall.start := by
  rcases hs.calls with h | h
  · exact h
  · rw [h x hx] at hst
    cases hst

/-- `main` closes the channel or leaves it alone, and it holds no record itself. -/
theorem accounted_mainStep {a : MainAnswer} (h : mainStep env a s = some s') (hs : Sound s)
    (hc : Accounted s c) : ∃ c', Accounted s' c' := by
  obtain ⟨hpush, hupd, hcase⟩ := mainStep_queue h
  rcases hcase with ⟨_, hq, hw⟩ | ⟨hi, hq, hw⟩ | ⟨hi, hq, hw⟩ | ⟨_, hq, hw⟩
  · exact ⟨c, hq ▸ hc.queue, by rw [hpush, hupd, hw, hc.pushed]⟩
  · -- the queue that is initialised is still the cleared one
    have hq' : s'.queue = s.queue := by
      rw [hq, hs.queueInit (List.mem_of_mem_head? hi)]
    exact ⟨c, hq' ▸ hc.queue, by rw [hpush, hupd, hw, hc.pushed]⟩
  · have hw' := hs.writerStart (List.mem_of_mem_head? hi)
    refine ⟨c, hq ▸ hc.queue, ?_⟩
    rw [hpush, hupd, hw, hc.pushed, hw']
    rfl
  · refine ⟨c.close, hq ▸ represents_shutdown hc.queue, ?_⟩
    rw [hpush, hupd, hw, inHand_signalled, hc.pushed]
    rfl

theorem sound_mainStep {a : MainAnswer} (h : mainStep env a s = some s') (hs : Sound s) :
    Sound s' := by
  have hmem : ∀ y ∈ s'.calls, y.isStartup = true → y ∈ s.calls.tail := fun y hy hst =>
    startup_mem h hy hst
  obtain ⟨_, _, hcase⟩ := mainStep_queue h
  obtain ⟨c, hc⟩ := hs.account
  refine ⟨calls_mainStep h hs.calls, ?_, ?_, ?_, accounted_mainStep h hs hc⟩
  · intro hy
    have hy' := hmem _ hy rfl
    have hin := List.mem_of_mem_tail hy'
    -- the call just made was the first one, so the queue is as it was
    have hhead := (startup_order (hs.suffix hin rfl)).2.1 hy'
    rcases hcase with ⟨_, hq, _⟩ | ⟨hi, _⟩ | ⟨hi, _⟩ | ⟨hi, _⟩
    · rw [hq, hs.queueInit hin]
    all_goals rw [hhead] at hi; cases hi
  · intro hy
    have hy' := hmem _ hy rfl
    have hin := List.mem_of_mem_tail hy'
    have hne := (startup_order (hs.suffix hin rfl)).2.2.2.1 hy'
    rcases hcase with ⟨_, _, hw⟩ | ⟨_, _, hw⟩ | ⟨hi, _⟩ | ⟨_, _, hw⟩
    · rw [hw, hs.writerStart hin]
    · rw [hw, hs.writerStart hin]
    · exact absurd hi hne
    · rw [hw, hs.writerStart hin]
      rfl
  · intro hy
    have hy' := hmem _ hy rfl
    have hin := List.mem_of_mem_tail hy'
    have hne := (startup_order (hs.suffix hin rfl)).2.2.2.2 hy'
    rcases mainStep_rx h with hr | ⟨hi, _⟩
    · rw [hr, hs.rxStart hin]
    · exact absurd hi hne

theorem sound_rxStep {a : RecvAnswer} (h : rxStep a s = some s') (hs : Sound s) : Sound s' := by
  obtain ⟨c, hc⟩ := hs.account
  obtain ⟨c', hc', _⟩ := accounted_rxStep h hc
  have hcalls := (rxStep_frame h).calls
  have hne := (rxStep_running h).1
  -- the thread runs, so both startup calls are behind
  have hstarted : .udpClientStartRxThread ∉ s.calls := fun hy => hne (hs.rxStart hy)
  have hinit : .responseQueueInit ∉ s.calls := fun hy =>
    hstarted ((startup_order (hs.suffix hy rfl)).1 hy).2
  have hwriter : .responseWriterStart ∉ s.calls := fun hy =>
    hstarted ((startup_order (hs.suffix hy rfl)).2.2.1 hy)
  exact ⟨hcalls ▸ hs.calls, fun hy => absurd (hcalls ▸ hy) hinit,
    fun hy => absurd (hcalls ▸ hy) hwriter, fun hy => absurd (hcalls ▸ hy) hstarted, c', hc'⟩

theorem sound_writerStep {answer : SqliteAnswer} (h : writerStep answer s = some s')
    (hs : Sound s) : Sound s' := by
  obtain ⟨c, hc⟩ := hs.account
  obtain ⟨c', hc', _⟩ := accounted_writerStep h hc
  have hcalls := (writerStep_frame h).calls
  have hrx := (writerStep_frame h).rx
  have hne := (writerStep_running h).1
  have hstarted : .responseWriterStart ∉ s.calls := fun hy => hne (hs.writerStart hy)
  have hinit : .responseQueueInit ∉ s.calls := fun hy =>
    hstarted ((startup_order (hs.suffix hy rfl)).1 hy).1
  exact ⟨hcalls ▸ hs.calls, fun hy => absurd (hcalls ▸ hy) hinit,
    fun hy => absurd (hcalls ▸ hy) hstarted, fun hy => hrx ▸ hs.rxStart (hcalls ▸ hy), c', hc'⟩

theorem sound_step {a : Label} (h : step env s a = some s') (hs : Sound s) : Sound s' := by
  cases a with
  | main a => exact sound_mainStep h hs
  | rx a => exact sound_rxStep h hs
  | writer a => exact sound_writerStep h hs
  | wake =>
      simp only [step] at h
      split at h
      · rename_i hw
        obtain rfl := Option.some.inj h
        obtain ⟨c, hc⟩ := hs.account
        refine ⟨hs.calls, hs.queueInit, fun hy => ?_, hs.rxStart, c, hc.queue, ?_⟩
        · rw [hs.writerStart hy] at hw
          cases hw
        · simpa [hw, WriterPc.inHand] using hc.pushed
      · cases h
  | sigint =>
      obtain rfl := Option.some.inj h
      obtain ⟨c, hc⟩ := hs.account
      exact ⟨hs.calls, hs.queueInit, hs.writerStart, hs.rxStart, c, hc.queue, hc.pushed⟩

/-- **Every pushed record is accounted for** in every state of every run of the process. -/
theorem sound_of_reachable {rows : List Row} (h : Reachable (step env) (.init rows) s) :
    Sound s :=
  h.preserves (fun _ _ _ hs hstep => sound_step hstep hs) (sound_init rows)

end PeripheralTester.Server
