import PeripheralTester.Lib.LinkedRing
import PeripheralTester.Lib.Run
import PeripheralTester.Lib.WakeUp

/-! # Blocking on a kernel queue

Any number of tasks that send to and receive from one queue with `xQueueGenericSend` and
`xQueueReceive` (or give and take a semaphore), and interrupts that do so with the `FromISR`
functions, in any interleaving.  A step is a critical section, or what a task does between two of
them; an interrupt can come before each.

A task that finds no item suspends the scheduler and locks the queue before it looks again and
joins the event list.  While the queue is locked an interrupt does not touch the event lists; it
counts in `cTxLock` and `cRxLock` what it has done, and `prvUnlockQueue` wakes as many tasks.  The
two sides of a queue are alike: who receives waits for messages, and who sends waits for spaces.

`Sound` is the invariant.  The last sections say what the parts of a move do to it. -/

namespace PeripheralTester.Firmware

open Lib

/-- Who takes something from a queue: `send` takes a space, `receive` a message. -/
inductive Side where
  | send
  | receive
deriving DecidableEq, Repr

namespace Side

/-- Who waits for what this side leaves. -/
def other : Side → Side
  | send => receive
  | receive => send

theorem other_ne (d : Side) : d.other ≠ d := by
  cases d <;> decide

theorem eq_other {d e : Side} (h : e ≠ d) : e = d.other := by
  cases d <;> cases e <;> first | rfl | exact absurd rfl h

end Side

/-- What a task does after it has unlocked the queue: sleep, try again, or give up with its
timeout expired; a receiver that gives up looks once more, and `wait` says whether any of its time
is left then. -/
inductive AfterUnlock where
  | block
  | retry
  | giveUp (wait : Bool)
deriving DecidableEq, Repr

/-- Where a task is in `xQueueGenericSend` or `xQueueReceive`: before the critical section, before
`vTaskSuspendAll`, `prvLockQueue`, `xTaskCheckForTimeOut`, `prvIsQueueFull` or `prvIsQueueEmpty`,
`vTaskPlaceOnEventList`, the two critical sections of `prvUnlockQueue`, `xTaskResumeAll`, asleep, or
before the last look of a receiver. -/
inductive CallPc where
  | idle
  | attempt (d : Side) (wait : Bool)
  | suspend (d : Side)
  | lock (d : Side)
  | check (d : Side)
  | look (d : Side)
  | place (d : Side)
  | unlockTx (d : Side) (after : AfterUnlock)
  | unlockRx (d : Side) (after : AfterUnlock)
  | resume (d : Side) (after : AfterUnlock)
  | blocked (d : Side)
  | recheck (wait : Bool)
deriving DecidableEq, Repr

namespace CallPc

/-- The task has suspended the scheduler. -/
def suspends : CallPc → Bool
  | lock _ | check _ | look _ | place _ | unlockTx _ _ | unlockRx _ _ | resume _ _ => true
  | _ => false

/-- It has locked the queue for the interrupts that serve this side. -/
def locks (e : Side) : CallPc → Bool
  | check _ | look _ | place _ | unlockTx _ _ => true
  | unlockRx _ _ => e = .send
  | _ => false

/-- It has joined the event list of the side and has not gone on since. -/
def sleeps (e : Side) : CallPc → Bool
  | unlockTx d .block | unlockRx d .block | resume d .block | blocked d => d = e
  | _ => false

/-- It is about to try. -/
def attempts (e : Side) : CallPc → Bool
  | attempt d _ => d = e
  | _ => false

theorem suspends_of_locks {pc : CallPc} {e : Side} (h : pc.locks e = true) :
    pc.suspends = true := by
  cases pc <;> first | rfl | cases h

theorem attempts_of_sleeps {pc : CallPc} {d e : Side} (h : pc.sleeps d = true) :
    pc.attempts e = false := by
  cases pc <;> first | rfl | cases h

theorem sleeps_unlockRx (d e : Side) (after : AfterUnlock) :
    (unlockRx d after).sleeps e = (unlockTx d after).sleeps e := by
  cases after <;> rfl

theorem sleeps_resume (d e : Side) (after : AfterUnlock) :
    (resume d after).sleeps e = (unlockRx d after).sleeps e := by
  cases after <;> rfl

theorem locks_unlockRx (d e : Side) (after : AfterUnlock) :
    (unlockRx d after).locks e = true ↔ (unlockTx d after).locks e = true ∧ e ≠ .receive := by
  cases e <;> simp [locks]

theorem locks_resume (d e : Side) (after : AfterUnlock) :
    (resume d after).locks e = true ↔ (unlockRx d after).locks e = true ∧ e ≠ .send := by
  cases e <;> simp [locks]

end CallPc

/-- `queueUNLOCKED` and `queueLOCKED_UNMODIFIED`. -/
def queueUnlocked : ℤ := -1
def queueLockedUnmodified : ℤ := 0

/-- The cast to `int8_t`. -/
def toInt8 (x : ℤ) : ℤ := (x + 128) % 256 - 128

/-- A queue with the tasks that use it. -/
structure QueueState (ι : Type) where
  uxLength : ℕ
  uxMessagesWaiting : ℕ
  /-- `cTxLock` for those who receive, `cRxLock` for those who send. -/
  lock : Side → ℤ
  /-- `xTasksWaitingToReceive` and `xTasksWaitingToSend`, the first to be woken first. -/
  waiting : Side → List ι
  /-- The task that has suspended the scheduler. -/
  suspended : Option ι
  task : ι → CallPc

variable {ι : Type}

namespace QueueState

/-- What a side can take. -/
def units (s : QueueState ι) : Side → ℕ
  | .receive => s.uxMessagesWaiting
  | .send => s.uxLength - s.uxMessagesWaiting

/-- The side takes one: an item is copied in or out. -/
def copy (s : QueueState ι) (d : Side) : QueueState ι :=
  { s with
    uxMessagesWaiting :=
      match d with
      | .send => s.uxMessagesWaiting + 1
      | .receive => s.uxMessagesWaiting - 1 }

/-- `xTaskRemoveFromEventList`, if the list is not empty. -/
def wakeFirst (s : QueueState ι) (d : Side) : QueueState ι :=
  { s with waiting := Function.update s.waiting d (s.waiting d).tail }

def setTask [DecidableEq ι] (s : QueueState ι) (t : ι) (pc : CallPc) : QueueState ι :=
  { s with task := Function.update s.task t pc }

/-- The loop of `prvUnlockQueue`: one task is woken for each that was counted. -/
def wakeCounted : ℕ → List ι → List ι
  | _, [] => []
  | 0, w => w
  | n + 1, _ :: w => wakeCounted n w

/-- One of the two critical sections of `prvUnlockQueue`. -/
def unlock (s : QueueState ι) (e : Side) : QueueState ι :=
  { s with
    waiting := Function.update s.waiting e (wakeCounted (s.lock e).toNat (s.waiting e))
    lock := Function.update s.lock e queueUnlocked }

end QueueState

/-- What `xTaskCheckForTimeOut` answers; it sets the time left to 0 on one of its two ways to find
the timeout expired. -/
inductive TimeOutCheck where
  | notExpired
  | expired (wait : Bool)
deriving DecidableEq, Repr

/-- Who moves: a task calls one of the two functions (`wait` if `xTicksToWait` is not 0), or goes
on in it; the tick ends a task's sleep; an interrupt sends or receives. -/
inductive QueueMove (ι : Type) where
  | call (t : ι) (d : Side) (wait : Bool)
  | go (t : ι) (a : TimeOutCheck)
  | expire (t : ι)
  | isr (d : Side)
deriving DecidableEq, Repr

namespace QueueState

/-- The task goes on.  `value` is what its `xEventListItem` is sorted by, `configMAX_PRIORITIES`
less its priority. -/
def goOn [DecidableEq ι] (value : ι → ℕ) (s : QueueState ι) (t : ι) (a : TimeOutCheck) :
    Option (QueueState ι) :=
  match s.task t with
  | .idle => none
  | .attempt d wait =>
      if s.units d > 0 then some (((s.copy d).wakeFirst d.other).setTask t .idle)
      else if wait then some (s.setTask t (.suspend d))
      else some (s.setTask t .idle)
  | .suspend d => some { s.setTask t (.lock d) with suspended := some t }
  | .lock d =>
      some { s.setTask t (.check d) with
        lock := fun e => if s.lock e = queueUnlocked then queueLockedUnmodified else s.lock e }
  | .check d =>
      match a with
      | .notExpired => some (s.setTask t (.look d))
      | .expired wait => some (s.setTask t (.unlockTx d (.giveUp wait)))
  | .look d =>
      if s.units d = 0 then some (s.setTask t (.place d))
      else some (s.setTask t (.unlockTx d .retry))
  | .place d =>
      some { s.setTask t (.unlockTx d .block) with
        waiting := Function.update s.waiting d (insertBehind value t (s.waiting d)) }
  | .unlockTx d after => some ((s.unlock .receive).setTask t (.unlockRx d after))
  | .unlockRx d after => some ((s.unlock .send).setTask t (.resume d after))
  | .resume d after =>
      let pc : CallPc :=
        match after with
        | .block => .blocked d
        | .retry => .attempt d true
        | .giveUp wait => if d = .receive then .recheck wait else .idle
      some { s.setTask t pc with suspended := none }
  | .blocked d => if t ∈ s.waiting d then none else some (s.setTask t (.attempt d true))
  | .recheck wait =>
      if s.units .receive = 0 then some (s.setTask t .idle)
      else some (s.setTask t (.attempt .receive wait))

/-- `xQueueGenericSendFromISR`, `xQueueGiveFromISR` and `xQueueReceiveFromISR`. -/
def fromIsr (s : QueueState ι) (d : Side) : QueueState ι :=
  if s.units d > 0 then
    if s.lock d.other = queueUnlocked then (s.copy d).wakeFirst d.other
    else
      { s.copy d with lock := Function.update s.lock d.other (toInt8 (s.lock d.other + 1)) }
  else s

/-- No other task has suspended the scheduler. -/
def MayRun (s : QueueState ι) (t : ι) : Prop := s.suspended = none ∨ s.suspended = some t

instance [DecidableEq ι] (s : QueueState ι) (t : ι) : Decidable (s.MayRun t) :=
  inferInstanceAs (Decidable (_ ∨ _))

def step [DecidableEq ι] (value : ι → ℕ) (s : QueueState ι) : QueueMove ι → Option (QueueState ι)
  | .call t d wait =>
      if s.MayRun t ∧ s.task t = .idle then some (s.setTask t (.attempt d wait)) else none
  | .go t a => if s.MayRun t then s.goOn value t a else none
  | .expire t =>
      match s.task t with
      | .blocked d =>
          -- while the scheduler is suspended the ticks are pended
          if s.suspended = none ∧ t ∈ s.waiting d then
            some { s with waiting := Function.update s.waiting d ((s.waiting d).erase t) }
          else none
      | _ => none
  | .isr d => some (s.fromIsr d)

/-- A new queue, and no task in a call. -/
def init (length messages : ℕ) : QueueState ι where
  uxLength := length
  uxMessagesWaiting := messages
  lock := fun _ => queueUnlocked
  waiting := fun _ => []
  suspended := none
  task := fun _ => .idle

/-- `cTxLock` and `cRxLock` are `int8_t`, and an interrupt that counts does not wrap them. -/
def Unsaturated (s : QueueState ι) : QueueMove ι → Prop
  | .isr d => s.units d > 0 → s.lock d.other < 127
  | _ => True

instance (s : QueueState ι) (a : QueueMove ι) : Decidable (s.Unsaturated a) := by
  cases a <;> unfold Unsaturated <;> infer_instance

/-! ### Who is awake -/

/-- The task will look for something to take: it is at its first critical section, or it was
removed from the event list and is on its way there. -/
def Awake (s : QueueState ι) (d : Side) (t : ι) : Prop :=
  (s.task t).attempts d = true ∨ (s.task t).sleeps d = true ∧ t ∉ s.waiting d

instance [DecidableEq ι] (s : QueueState ι) (d : Side) : DecidablePred (s.Awake d) :=
  fun _ => inferInstanceAs (Decidable (_ ∨ _))

def awake [Fintype ι] [DecidableEq ι] (s : QueueState ι) (d : Side) : Finset ι :=
  Finset.univ.filter (s.Awake d)

/-- The side of a queue as a crowd: what it counts while the queue is locked are the notes. -/
def crowd [Fintype ι] [DecidableEq ι] (s : QueueState ι) (d : Side) : Crowd ι :=
  ⟨s.units d, s.waiting d, s.awake d, (s.lock d).toNat⟩

/-! ### The invariant -/

/-- The one who has suspended the scheduler, and the two locks. -/
structure Held (s : QueueState ι) : Prop where
  holder : ∀ t, (s.task t).suspends = true ↔ s.suspended = some t
  locked : ∀ t d, (s.task t).locks d = true → queueLockedUnmodified ≤ s.lock d
  unlocked : ∀ d, (∀ t, (s.task t).locks d = false) → s.lock d = queueUnlocked

/-- An event list: only sleepers, each once, the most urgent first. -/
structure InLine (value : ι → ℕ) (s : QueueState ι) (d : Side) : Prop where
  sleeps : ∀ t ∈ s.waiting d, (s.task t).sleeps d = true
  nodup : (s.waiting d).Nodup
  sorted : (s.waiting d).Pairwise fun t u => value t ≤ value u

structure Sound [Fintype ι] [DecidableEq ι] (value : ι → ℕ) (s : QueueState ι) : Prop where
  bound : s.uxMessagesWaiting ≤ s.uxLength
  held : s.Held
  inLine : ∀ d, InLine value s d
  fed : ∀ d, (s.crowd d).Fed
  /-- What came since the last look is counted. -/
  placed : ∀ t d, s.task t = .place d → s.units d ≤ (s.lock d).toNat

variable {value : ι → ℕ} {s s' : QueueState ι} {t u : ι} {d e : Side} {pc : CallPc}
  {w : List ι}

/-! ### The scheduler and the locks -/

theorem suspended_eq (h : s.Held) (hrun : s.MayRun t) :
    s.suspended = if (s.task t).suspends = true then some t else none := by
  by_cases ht : (s.task t).suspends = true
  · rw [if_pos ht]
    exact (h.holder t).mp ht
  · rw [if_neg ht]
    exact hrun.resolve_right fun hsome => ht ((h.holder t).mpr hsome)

/-- While a task can move, no other has locked the queue. -/
theorem not_suspends_of_mayRun (h : s.Held) (hrun : s.MayRun t) (hu : u ≠ t) :
    (s.task u).suspends = false := by
  by_contra hsuspends
  have hholder := (h.holder u).mp (Bool.eq_true_of_not_eq_false hsuspends)
  rcases hrun with hnone | hsome
  · rw [hnone] at hholder
    cases hholder
  · rw [hsome] at hholder
    exact hu (Option.some.inj hholder).symm

theorem lock_eq_of_mayRun (h : s.Held) (hrun : s.MayRun t) (ht : (s.task t).locks d = false) :
    s.lock d = queueUnlocked := by
  refine h.unlocked d fun u => ?_
  by_cases hu : u = t
  · rw [hu]
    exact ht
  · by_contra hlocks
    have hsuspends := CallPc.suspends_of_locks (Bool.eq_true_of_not_eq_false hlocks)
    rw [not_suspends_of_mayRun h hrun hu] at hsuspends
    cases hsuspends

theorem lock_nonneg (h : s.Held) (hlock : s.lock d ≠ queueUnlocked) : 0 ≤ s.lock d := by
  by_contra hneg
  refine hlock (h.unlocked d fun u => ?_)
  by_contra hlocks
  exact hneg (h.locked u d (Bool.eq_true_of_not_eq_false hlocks))

/-- A task that can move goes to `pc`, and the scheduler and the locks are as they are there. -/
theorem Held.goes [DecidableEq ι] (h : s.Held) (hrun : s.MayRun t)
    (htask : s'.task = Function.update s.task t pc)
    (hsuspended : s'.suspended = if pc.suspends = true then some t else none)
    (hlocked : ∀ d, pc.locks d = true → queueLockedUnmodified ≤ s'.lock d)
    (hunlocked : ∀ d, pc.locks d = false → s'.lock d = queueUnlocked) : s'.Held := by
  have hpc : s'.task t = pc := by rw [htask, Function.update_self]
  have hother {u : ι} (hu : u ≠ t) : (s'.task u).suspends = false := by
    rw [htask, Function.update_of_ne hu]
    exact not_suspends_of_mayRun h hrun hu
  refine ⟨fun u => ?_, fun u d hlocks => ?_, fun d hnone => ?_⟩
  · by_cases hu : u = t
    · subst hu
      rw [hpc, hsuspended]
      split <;> simp_all
    · rw [hother hu, hsuspended]
      split <;> simp [Ne.symm hu]
  · by_cases hu : u = t
    · subst hu
      rw [hpc] at hlocks
      exact hlocked d hlocks
    · have hsuspends := CallPc.suspends_of_locks hlocks
      rw [hother hu] at hsuspends
      cases hsuspends
  · have ht := hnone t
    rw [hpc] at ht
    exact hunlocked d ht

/-! ### The event lists -/

/-- Tasks were removed from an event list, and nobody in it moved. -/
theorem InLine.sublist (h : InLine value s d) (hsub : (s'.waiting d).Sublist (s.waiting d))
    (hsleeps : ∀ t ∈ s'.waiting d, (s.task t).sleeps d = true → (s'.task t).sleeps d = true) :
    InLine value s' d where
  sleeps t ht := hsleeps t ht (h.sleeps t (hsub.subset ht))
  nodup := h.nodup.sublist hsub
  sorted := h.sorted.sublist hsub

theorem not_awake_of_mem (h : InLine value s d) (ht : t ∈ s.waiting d) : ¬s.Awake d t := by
  rintro (hattempts | ⟨-, hnot⟩)
  · rw [CallPc.attempts_of_sleeps (h.sleeps t ht)] at hattempts
    cases hattempts
  · exact hnot ht

theorem awake_of_not_mem (ht : (s.task t).sleeps d = true) (hnot : t ∉ s.waiting d) :
    s.Awake d t := .inr ⟨ht, hnot⟩

theorem looks_of_awake (h : s.Awake d t) :
    (s.task t).attempts d = true ∨ (s.task t).sleeps d = true :=
  h.imp_right And.left

/-- A task that is not in the event list is put where its priority belongs. -/
theorem InLine.place (h : InLine value s d) (hwaiting : s'.waiting d =
      insertBehind value t (s.waiting d)) (hpc : (s'.task t).sleeps d = true)
    (hother : ∀ u, u ≠ t → s'.task u = s.task u) (hnot : t ∉ s.waiting d) :
    InLine value s' d := by
  refine ⟨fun u hu => ?_, ?_, ?_⟩
  · rw [hwaiting, mem_insertBehind] at hu
    by_cases heq : u = t
    · rw [heq]
      exact hpc
    · rw [hother u heq]
      exact h.sleeps u (hu.resolve_left heq)
  · rw [hwaiting, (insertBehind_perm value t _).nodup_iff]
    exact List.nodup_cons.mpr ⟨hnot, h.nodup⟩
  · rw [hwaiting]
    exact insertBehind_sorted h.sorted

theorem wakeCounted_eq_drop (n : ℕ) (w : List ι) : wakeCounted n w = w.drop n := by
  induction w generalizing n with
  | nil => rw [wakeCounted, List.drop_nil]
  | cons t w ih =>
      cases n with
      | zero => rfl
      | succ n => rw [wakeCounted, List.drop_succ_cons, ih]

/-! ### Items and spaces -/

theorem bound_copy (hbound : s.uxMessagesWaiting ≤ s.uxLength) (hunits : 0 < s.units d) :
    (s.copy d).uxMessagesWaiting ≤ (s.copy d).uxLength := by
  cases d with
  | send => exact Nat.lt_of_sub_pos hunits
  | receive => exact (Nat.sub_le _ 1).trans hbound

theorem units_copy (hunits : 0 < s.units d) : s.units d = (s.copy d).units d + 1 := by
  cases d with
  | send =>
      change _ = s.uxLength - (s.uxMessagesWaiting + 1) + 1
      change 0 < s.uxLength - s.uxMessagesWaiting at hunits
      change s.uxLength - s.uxMessagesWaiting = _
      omega
  | receive => exact (Nat.sub_add_cancel hunits).symm

theorem units_copy_other (hbound : s.uxMessagesWaiting ≤ s.uxLength) (hunits : 0 < s.units d) :
    (s.copy d).units d.other = s.units d.other + 1 := by
  cases d with
  | send => rfl
  | receive =>
      change 0 < s.uxMessagesWaiting at hunits
      change s.uxLength - (s.uxMessagesWaiting - 1) = s.uxLength - s.uxMessagesWaiting + 1
      omega

/-! ### Short queues -/

/-- A short queue, and what `cTxLock` counts are items in it. -/
def Short (s : QueueState ι) : Prop :=
  s.uxLength ≤ 127 ∧ s.lock .receive ≤ s.uxMessagesWaiting

theorem Short.goOn [DecidableEq ι] {a : TimeOutCheck} (h : s.Short) (hheld : s.Held)
    (hrun : s.MayRun t) (hs : s.goOn value t a = some s') : s'.Short := by
  -- while the queue is not locked there is nothing to count
  have hunlocked (ht : (s.task t).locks .receive = false) (n : ℕ) : s.lock .receive ≤ n := by
    rw [lock_eq_of_mayRun hheld hrun ht]
    exact (show queueUnlocked ≤ 0 by decide).trans (Int.natCast_nonneg n)
  unfold QueueState.goOn at hs
  split at hs
  case h_1 => cases hs
  case h_2 ht =>
    split at hs
    · obtain rfl := Option.some.inj hs
      exact ⟨h.1, hunlocked (by rw [ht]; rfl) _⟩
    · split at hs
      · obtain rfl := Option.some.inj hs
        exact h
      · obtain rfl := Option.some.inj hs
        exact h
  case h_4 ht =>
    obtain rfl := Option.some.inj hs
    have hlock := lock_eq_of_mayRun (d := .receive) hheld hrun (by rw [ht]; rfl)
    exact ⟨h.1, (if_pos hlock).trans_le (Int.natCast_nonneg _)⟩
  case h_8 =>
    obtain rfl := Option.some.inj hs
    refine ⟨h.1, ?_⟩
    change Function.update s.lock .receive queueUnlocked .receive ≤ _
    rw [Function.update_self]
    exact (show queueUnlocked ≤ 0 by decide).trans (Int.natCast_nonneg _)
  case h_11 =>
    split at hs
    · cases hs
    · obtain rfl := Option.some.inj hs
      exact h
  all_goals
    repeat' split at hs
    all_goals
      obtain rfl := Option.some.inj hs
      exact h

theorem Short.unsaturated {a : QueueMove ι} (h : s.Short) (ha : a ≠ .isr .receive) :
    s.Unsaturated a := by
  cases a with
  | isr d =>
      cases d with
      | receive => exact absurd rfl ha
      | send =>
          intro hunits
          obtain ⟨hshort, hcount⟩ := h
          change 0 < s.uxLength - s.uxMessagesWaiting at hunits
          change s.lock .receive < 127
          omega
  | _ => trivial

/-! ### What the moves do to those who wait -/

theorem awake_goes [DecidableEq ι] (htask : s'.task = Function.update s.task t pc)
    (ht : s.Awake d t → pc.attempts d = true ∨ pc.sleeps d = true) (u : ι) (hu : s.Awake d u) :
    (s'.task u).attempts d = true ∨ (s'.task u).sleeps d = true := by
  rw [htask]
  by_cases heq : u = t
  · subst heq
    rw [Function.update_self]
    exact ht hu
  · rw [Function.update_of_ne heq]
    exact looks_of_awake hu

theorem sleeps_goes [DecidableEq ι] (htask : s'.task = Function.update s.task t pc)
    (ht : t ∈ w → pc.sleeps d = true) (u : ι) (hmem : u ∈ w) (hu : (s.task u).sleeps d = true) :
    (s'.task u).sleeps d = true := by
  rw [htask]
  by_cases heq : u = t
  · subst heq
    rw [Function.update_self]
    exact ht hmem
  · rw [Function.update_of_ne heq]
    exact hu

theorem not_awake_of_attempt {wait : Bool} (ht : s.task t = .attempt d wait) (he : e ≠ d) :
    ¬s.Awake e t := by
  intro hu
  have hlooks := looks_of_awake hu
  rw [ht] at hlooks
  rcases hlooks with hlooks | hlooks
  · exact he (of_decide_eq_true hlooks).symm
  · cases hlooks

/-- An event list from which the first task is removed, if it is that of the side. -/
theorem waiting_wakeFirst (s : QueueState ι) (d e : Side) :
    ((s.wakeFirst d).waiting e).Sublist (s.waiting e) := by
  change (Function.update s.waiting d (s.waiting d).tail e).Sublist (s.waiting e)
  by_cases he : e = d
  · subst he
    rw [Function.update_self]
    exact List.tail_sublist _
  · rw [Function.update_of_ne he]

end QueueState

end PeripheralTester.Firmware
