import PeripheralTester.Testbed.Load

/-! # The firmware with a clock

`Load` follows the timer task with a `TimedQueue`.  Here the firmware of `Firmware.step` runs
against a clock of milliseconds, and `timerEntries_run` says that the timed queue is what becomes of
its timer stage: in every run the commands that the dispatcher has taken for the timer are put into
the timer queue at once, put there later or dropped as `timerEntries` says, and what is pending is
done when `timerPending` says.

Only the timer stage takes time.  A test lasts 100 ms for each iteration, and the dispatcher waits
up to 100 ms for a place in the timer queue.  Whoever can go on does so before the clock does. -/

namespace PeripheralTester

open Lib Lib.TimedQueue Firmware Server

variable {ο : Type}

/-! ### Moves with times -/

/-- How long the test of a timer command takes. -/
def timerTestMs (c : Command) : ℕ := appTimerTestDelayMs * c.iterations.toNat

structure ClockedDevice (ο : Type) where
  device : Device ο
  now : ℕ
  /-- When the dispatcher took the command it holds. -/
  takenAt : ℕ
  /-- When the timer test in progress is done. -/
  doneAt : ℕ
  /-- The timer commands that the dispatcher has taken, and what has become of them. -/
  works : List Work
  admissions : List Admission

namespace ClockedDevice

def init (udpPcb : Bool) : ClockedDevice ο := ⟨.init udpPcb, 0, 0, 0, [], []⟩

/-- The timer command that the dispatcher holds. -/
def held (s : ClockedDevice ο) : Option Work :=
  s.device.dispatcher.bind fun j => timerWork (s.takenAt, j.command)

/-- The timer queue has no place. -/
def Full (s : ClockedDevice ο) : Prop := (s.device.queue .timer).items.length = appQueueLength

/-- The timer task can go on. -/
def TaskDue (s : ClockedDevice ο) : Prop :=
  match s.device.task .timer with
  | .idle => (s.device.queue .timer).items ≠ []
  | .run _ => s.doneAt ≤ s.now
  | .respond _ => True

/-- The dispatcher has waited long enough for a place in the timer queue. -/
def Expired (s : ClockedDevice ο) : Prop := s.takenAt + appTimerQueueSendWaitMs ≤ s.now

/-- The dispatcher can go on with a timer command. -/
def DispatcherDue (s : ClockedDevice ο) : Prop := s.held.isSome ∧ (¬ s.Full ∨ s.Expired)

/-- A test is done when its time is over.  The dispatcher drops a timer command when its wait is
over, unless the timer task makes a place at that moment. -/
def Timely (s : ClockedDevice ο) : Event ο → Prop
  | .task .timer _ =>
      match s.device.task .timer with
      | .run _ => s.doneAt ≤ s.now
      | _ => True
  | .dispatcher => s.held.isSome → s.Full → s.Expired ∧ ¬ s.TaskDue
  | _ => True

instance (s : ClockedDevice ο) : Decidable s.Full := inferInstanceAs (Decidable (_ = _))

instance (s : ClockedDevice ο) : Decidable s.Expired := inferInstanceAs (Decidable (_ ≤ _))

instance (s : ClockedDevice ο) : Decidable s.TaskDue := by
  unfold TaskDue
  split
  · exact decidable_of_iff ((s.device.queue .timer).items.isEmpty = false) (by simp)
  · infer_instance
  · infer_instance

instance (s : ClockedDevice ο) : Decidable s.DispatcherDue := inferInstanceAs (Decidable (_ ∧ _))

instance (s : ClockedDevice ο) (e : Event ο) : Decidable (s.Timely e) := by
  unfold Timely
  split
  · split <;> infer_instance
  · infer_instance
  · infer_instance

/-- What has become of the timer command that the dispatcher lets go. -/
def admission (s : ClockedDevice ο) : Admission :=
  if s.Full then .refused else if s.takenAt = s.now then .entered else .delayed

/-- A move of the firmware to `d`, and the times and commands to keep. -/
def moveTo (s : ClockedDevice ο) (d : Device ο) : ClockedDevice ο where
  device := d
  now := s.now
  takenAt := if s.device.dispatcher.isNone then s.now else s.takenAt
  doneAt :=
    match s.device.task .timer, d.task .timer with
    | .idle, .run j => s.now + timerTestMs j.command
    | _, _ => s.doneAt
  works :=
    match s.device.dispatcher, d.dispatcher with
    | none, some j => s.works ++ (timerWork (s.now, j.command)).toList
    | _, _ => s.works
  admissions :=
    match s.held, d.dispatcher with
    | some _, none => s.admissions ++ [s.admission]
    | _, _ => s.admissions

end ClockedDevice

/-- The clock ticks, or somebody moves. -/
inductive ClockedMove (ο : Type) where
  | tick
  | move (e : Event ο)

/-- The clock waits for whoever can go on. -/
def clockedStep (s : ClockedDevice ο) : ClockedMove ο → Option (ClockedDevice ο)
  | .tick => if s.TaskDue ∨ s.DispatcherDue then none else some { s with now := s.now + 1 }
  | .move e => if s.Timely e then (step s.device e).map s.moveTo else none

namespace ClockedDevice

/-! ### The timed queue of a state -/

/-- The timer task and its queue. -/
def queue (s : ClockedDevice ο) : TimedQueue where
  freeAt :=
    match s.device.task .timer with
    | .run _ => s.doneAt
    | _ => s.now
  waiting := (s.device.queue .timer).items.map fun j => timerTestMs j.command

/-- The timed queue after the commands that have been decided on. -/
def decidedQueue (decided : List Work) : TimedQueue :=
  empty.after appQueueLength appTimerQueueSendWaitMs decided

/-- A command that the dispatcher holds for longer than a moment has found the queue full, and the
place it waits for has not been made before now. -/
structure Waits (now : ℕ) (q : TimedQueue) (w : Work) : Prop where
  arrived : w.arrival ≤ now
  patient : now ≤ w.arrival + appTimerQueueSendWaitMs
  full : w.arrival < now → (q.standing w.arrival).waiting.length = appQueueLength ∧
    now ≤ (q.standing w.arrival).freeAt

/-- The timer stage stands as the timed queue does, which has been offered the commands that the
dispatcher has let go. -/
structure Follows (s : ClockedDevice ο) (decided : List Work) : Prop where
  works : s.works = decided ++ s.held.toList
  admissions : s.admissions =
    (entries appQueueLength appTimerQueueSendWaitMs empty decided).map Entry.admission
  standing : s.queue.standing s.now = (decidedQueue decided).standing s.now
  busy : s.now ≤ s.queue.freeAt
  waits : ∀ w ∈ s.held, Waits s.now (decidedQueue decided) w

variable {s s' : ClockedDevice ο} {d : Device ο} {decided : List Work} {w : Work} {j : Job ο}
  {p : Peripheral}

theorem follows_init (udpPcb : Bool) : (init udpPcb : ClockedDevice ο).Follows [] :=
  ⟨rfl, rfl, rfl, le_rfl, fun _ h => by cases h⟩

theorem timerWork_some {x : ℕ × Command} (h : timerWork x = some w) :
    Peripheral.ofCode x.2.peripheral = some .timer ∧ w = ⟨x.1, timerTestMs x.2⟩ := by
  unfold timerWork at h
  split at h
  · rename_i hp
    exact ⟨hp, (Option.some.inj h).symm⟩
  · cases h

theorem timerWork_of_timer {t : ℕ} {c : Command}
    (h : Peripheral.ofCode c.peripheral = some .timer) :
    timerWork (t, c) = some ⟨t, timerTestMs c⟩ := if_pos h

theorem freeAt_of_run (h : s.device.task .timer = .run j) : s.queue.freeAt = s.doneAt := by
  simp only [queue, h]

/-- A full queue whose task is not due has a test in progress. -/
theorem Full.standing (hfull : s.Full) (hdue : ¬ s.TaskDue) :
    s.now < s.queue.freeAt ∧ s.queue.standing s.now = s.queue ∧
      s.queue.waiting.length = appQueueLength := by
  have hlength : s.queue.waiting.length = appQueueLength := by
    rw [queue, List.length_map]
    exact hfull
  have hlate : s.now < s.queue.freeAt := by
    unfold TaskDue at hdue
    split at hdue
    · rw [not_not] at hdue
      rw [Full, hdue] at hfull
      cases hfull
    · rename_i hrun
      rw [freeAt_of_run hrun]
      exact Nat.not_le.mp hdue
    · exact absurd trivial hdue
  exact ⟨hlate, standing_of_lt hlate, hlength⟩

/-- A command that still waits at a full queue has found it full, and no place has been made. -/
theorem Follows.still_full (h : s.Follows decided) (hw : w ∈ s.held) (hfull : s.Full)
    (hdue : ¬ s.TaskDue) :
    ((decidedQueue decided).standing w.arrival).waiting.length = appQueueLength ∧
      s.now < ((decidedQueue decided).standing w.arrival).freeAt := by
  obtain ⟨hlate, hsame, hlength⟩ := hfull.standing hdue
  have hstanding := h.standing
  rw [hsame] at hstanding
  obtain ⟨harrived, _, hwaits⟩ := h.waits w hw
  rcases harrived.eq_or_lt with hnow | hbefore
  · rw [hnow, ← hstanding]
    exact ⟨hlength, hlate⟩
  · have hfound := (hwaits hbefore).1
    refine ⟨hfound, lt_freeAt_of_length ?_ ?_⟩
    · intro hnil
      rw [hnil] at hfound
      cases hfound
    · rw [standing_standing harrived, ← hstanding, hlength, hfound]

/-! ### What a move does to the stage -/

/-- The dispatcher and the timer stage are as before. -/
structure Frame (d d' : Device ο) : Prop where
  dispatcher : d'.dispatcher = d.dispatcher
  queue : d'.queue .timer = d.queue .timer
  task : d'.task .timer = d.task .timer

/-- What is kept while the dispatcher holds on to its command, or to none. -/
theorem moveTo_of_same (h : d.dispatcher = s.device.dispatcher) :
    (s.moveTo d).held = s.held ∧ (s.moveTo d).works = s.works ∧
      (s.moveTo d).admissions = s.admissions := by
  cases hd : s.device.dispatcher with
  | none => simp [held, moveTo, h, hd]
  | some j =>
      refine ⟨by simp [held, moveTo, h, hd], by simp [moveTo, hd], ?_⟩
      unfold moveTo
      dsimp only
      rw [h, hd]
      split
      · cases ‹some j = none›
      · rfl

/-- A move that leaves the queue of the stage as it stands. -/
theorem Follows.moved (h : s.Follows decided) (hsame : d.dispatcher = s.device.dispatcher)
    (hstanding : (s.moveTo d).queue.standing s.now = s.queue.standing s.now)
    (hbusy : s.now ≤ (s.moveTo d).queue.freeAt) : (s.moveTo d).Follows decided := by
  obtain ⟨hheld, hworks, hadmissions⟩ := moveTo_of_same hsame
  refine ⟨?_, hadmissions.trans h.admissions, hstanding.trans h.standing, hbusy, ?_⟩
  · rw [hworks, hheld]
    exact h.works
  · rw [hheld]
    exact h.waits

/-- A move that leaves the stage alone. -/
theorem queue_moveTo (hqueue : d.queue .timer = s.device.queue .timer)
    (htask : d.task .timer = s.device.task .timer) : (s.moveTo d).queue = s.queue := by
  unfold queue moveTo
  dsimp only
  rw [hqueue, htask]
  cases s.device.task .timer <;> rfl

theorem Follows.framed (h : s.Follows decided) (hframe : Frame s.device d) :
    (s.moveTo d).Follows decided := by
  have hqueue := queue_moveTo hframe.queue hframe.task
  exact h.moved hframe.dispatcher (by rw [hqueue]) (by rw [hqueue]; exact h.busy)

/-- **The timer task**: that a command is taken from the queue, or done, is what the timed queue
says of this moment. -/
theorem Follows.task (h : s.Follows decided) {passed : Bool}
    (htimely : s.Timely (.task .timer passed)) (hd : taskStep s.device .timer passed = some d) :
    (s.moveTo d).Follows decided := by
  cases taskStep_cases hd with
  | @receive j q ht hq =>
      have hbefore : s.queue = ⟨s.now, timerTestMs j.command ::
          q.items.map fun j => timerTestMs j.command⟩ := by
        rw [queue, ht, Fifo.pop_eq_some_iff.mp hq]
        rfl
      have hafter : (s.moveTo { s.device with
          queue := Function.update s.device.queue .timer q
          task := Function.update s.device.task .timer (.run j) }).queue =
            ⟨s.now + timerTestMs j.command, q.items.map fun j => timerTestMs j.command⟩ := by
        simp [queue, moveTo, ht]
      refine h.moved rfl ?_ ?_
      · rw [hbefore, hafter]
        exact standing_begin.symm
      · rw [hafter]
        exact Nat.le_add_right _ _
  | @run j ht =>
      have hdone : s.doneAt ≤ s.now := by simpa [Timely, ht] using htimely
      have hbusy := h.busy
      rw [freeAt_of_run ht] at hbusy
      have hqueue : (s.moveTo { s.device with
          task := Function.update s.device.task .timer (.respond (j.answer passed)) }).queue =
            s.queue := by
        simp [queue, moveTo, ht, hdone.antisymm hbusy]
      exact h.moved rfl (by rw [hqueue]) (by rw [hqueue]; exact h.busy)
  | @respond a q ht hq =>
      have hqueue : (s.moveTo { s.device with
          responseQueue := q
          task := Function.update s.device.task .timer .idle }).queue = s.queue := by
        simp [queue, moveTo, ht]
      exact h.moved rfl (by rw [hqueue]) (by rw [hqueue]; exact h.busy)
  | @full a ht hq =>
      have hqueue : (s.moveTo { s.device.drop (.responseQueueFull .timer) a.job with
          task := Function.update s.device.task .timer .idle }).queue = s.queue := by
        simp [queue, moveTo, Device.drop, ht]
      exact h.moved rfl (by rw [hqueue]) (by rw [hqueue]; exact h.busy)

/-- A command that is not for the timer is not followed. -/
theorem held_of_dispatcher (hd : s.device.dispatcher = some j) :
    s.held = timerWork (s.takenAt, j.command) := by
  rw [held, hd]
  rfl

theorem held_of_none (hd : s.device.dispatcher = none) : s.held = none := by
  rw [held, hd]
  rfl

/-- The dispatcher lets go of a command that is not for the timer. -/
theorem Follows.passed (h : s.Follows decided) (hheld : s.held = none)
    (hd : s.device.dispatcher.isSome) (hd' : d.dispatcher = none)
    (hqueue : d.queue .timer = s.device.queue .timer)
    (htask : d.task .timer = s.device.task .timer) : (s.moveTo d).Follows decided := by
  have hq := queue_moveTo hqueue htask
  have hheld' : (s.moveTo d).held = none := held_of_none hd'
  obtain ⟨j, hj⟩ := Option.isSome_iff_exists.mp hd
  have hworks : (s.moveTo d).works = s.works := by simp only [moveTo, hj]
  have hadmissions : (s.moveTo d).admissions = s.admissions := by simp only [moveTo, hheld]
  refine ⟨?_, hadmissions.trans h.admissions, ?_, ?_, ?_⟩
  · rw [hworks, hheld', h.works, hheld]
  · rw [hq]
    exact h.standing
  · rw [hq]
    exact h.busy
  · rw [hheld']
    rintro w ⟨⟩

/-- The dispatcher takes a command. -/
theorem Follows.taken (h : s.Follows decided) (hd : s.device.dispatcher = none)
    (hd' : d.dispatcher = some j) (hqueue : d.queue .timer = s.device.queue .timer)
    (htask : d.task .timer = s.device.task .timer) : (s.moveTo d).Follows decided := by
  have hq := queue_moveTo hqueue htask
  have hheld : s.held = none := held_of_none hd
  have hheld' : (s.moveTo d).held = timerWork (s.now, j.command) := by
    rw [held_of_dispatcher hd']
    simp [moveTo, hd]
  refine ⟨?_, ?_, ?_, ?_, ?_⟩
  · rw [hheld']
    simp [moveTo, hd, hd', h.works, hheld]
  · rw [← h.admissions]
    simp only [moveTo, hheld]
  · rw [hq]
    exact h.standing
  · rw [hq]
    exact h.busy
  · rw [hheld']
    intro w hw
    obtain ⟨-, rfl⟩ := timerWork_some hw
    exact ⟨le_rfl, Nat.le_add_right _ _, fun hlt => absurd hlt (Nat.lt_irrefl _)⟩

/-- The dispatcher lets go of a timer command: the timed queue decides as it does. -/
theorem Follows.decide (h : s.Follows decided) (hheld : s.held = some w)
    (hd : s.device.dispatcher.isSome) (hd' : d.dispatcher = none)
    (hadmission : s.admission =
      ((decidedQueue decided).offer appQueueLength appTimerQueueSendWaitMs w).1)
    (hstanding : (s.moveTo d).queue.standing s.now =
      ((decidedQueue decided).offer appQueueLength appTimerQueueSendWaitMs w).2.standing s.now)
    (hbusy : s.now ≤ (s.moveTo d).queue.freeAt) : (s.moveTo d).Follows (decided ++ [w]) := by
  have hheld' : (s.moveTo d).held = none := held_of_none hd'
  obtain ⟨j, hj⟩ := Option.isSome_iff_exists.mp hd
  refine ⟨?_, ?_, ?_, hbusy, ?_⟩
  · rw [hheld']
    simp [moveTo, hj, h.works, hheld]
  · rw [entries_concat, List.map_append, ← h.admissions]
    simp only [moveTo, hheld, hd', hadmission]
    rfl
  · rw [decidedQueue, after_concat]
    exact hstanding
  · rw [hheld']
    rintro w ⟨⟩

/-- A timer command gets a place. -/
theorem Follows.placed (h : s.Follows decided) (hheld : s.held = some w)
    (hd : s.device.dispatcher = some j) {q : Fifo (Job ο) appQueueLength}
    (hq : (s.device.queue .timer).push j = some q) :
    (s.moveTo { s.device with
      queue := Function.update s.device.queue .timer q
      dispatcher := none }).Follows (decided ++ [w]) := by
  obtain ⟨hroom, hitems⟩ := Fifo.push_eq_some_iff.mp hq
  have hfull : ¬ s.Full := hroom.ne
  have hwork := hheld
  rw [held_of_dispatcher hd] at hwork
  obtain ⟨-, rfl⟩ := timerWork_some hwork
  have hjoin : (s.moveTo { s.device with
      queue := Function.update s.device.queue .timer q
      dispatcher := none }).queue = s.queue.join (timerTestMs j.command) := by
    unfold queue moveTo
    cases s.device.task .timer <;> simp [hitems, join]
  have hjoined : (s.queue.join (timerTestMs j.command)).standing s.now =
      (((decidedQueue decided).standing s.now).join (timerTestMs j.command)).standing s.now := by
    rw [standing_join h.busy, h.standing]
  have hless : ((decidedQueue decided).standing s.now).waiting.length < appQueueLength := by
    rw [← h.standing]
    refine length_standing_le.trans_lt ?_
    rw [queue, List.length_map]
    exact hroom
  obtain ⟨harrived, hpatient, hwaits⟩ := h.waits _ hheld
  rcases harrived.eq_or_lt with hnow | hbefore
  · -- at once
    change s.takenAt = s.now at hnow
    obtain ⟨hentered, hoffer⟩ := offer_room appTimerQueueSendWaitMs (q := decidedQueue decided)
      (w := ⟨s.takenAt, timerTestMs j.command⟩) (hnow ▸ hless)
    refine h.decide hheld (by rw [hd]; rfl) rfl ?_ ?_ ?_
    · rw [hentered, admission, if_neg hfull, if_pos hnow]
    · rw [hjoin, hjoined, ← hnow]
      exact hoffer.symm
    · rw [hjoin]
      exact h.busy
  · -- the timer task has just made the place
    obtain ⟨hfound, hlate⟩ := hwaits hbefore
    have hmade : ((decidedQueue decided).standing s.takenAt).freeAt = s.now := by
      refine le_antisymm ?_ hlate
      by_contra hlt
      have hstill := standing_of_lt (Nat.not_le.mp hlt)
      rw [standing_standing harrived] at hstill
      rw [hstill] at hless
      exact hless.ne hfound
    obtain ⟨hdelayed, hoffer⟩ := offer_delayed (w := ⟨s.takenAt, timerTestMs j.command⟩)
      hfound (by decide) (hmade.trans_le hpatient)
    rw [hmade] at hoffer
    refine h.decide hheld (by rw [hd]; rfl) rfl ?_ ?_ ?_
    · rw [hdelayed, admission, if_neg hfull, if_neg (Nat.ne_of_lt hbefore)]
    · rw [hjoin, hjoined]
      exact hoffer.symm
    · rw [hjoin]
      exact h.busy

/-- A timer command is dropped. -/
theorem Follows.dropped (h : s.Follows decided) (hheld : s.held = some w)
    (hd : s.device.dispatcher.isSome) (hfull : s.Full) (htimely : s.Timely .dispatcher)
    (hd' : d.dispatcher = none) (hqueue : d.queue .timer = s.device.queue .timer)
    (htask : d.task .timer = s.device.task .timer) :
    (s.moveTo d).Follows (decided ++ [w]) := by
  obtain ⟨hexpired, hdue⟩ := htimely (by rw [hheld]; rfl) hfull
  obtain ⟨hfound, hlate⟩ := h.still_full hheld hfull hdue
  obtain ⟨j, hj⟩ := Option.isSome_iff_exists.mp hd
  have hwork := hheld
  rw [held_of_dispatcher hj] at hwork
  obtain ⟨-, rfl⟩ := timerWork_some hwork
  obtain ⟨harrived, -, -⟩ := h.waits _ hheld
  obtain ⟨hrefused, hoffer⟩ := offer_refused hfound (by decide) (hexpired.trans_lt hlate) harrived
  have hq := queue_moveTo hqueue htask
  refine h.decide hheld hd hd' ?_ ?_ ?_
  · rw [hrefused, admission, if_pos hfull]
  · rw [hq, hoffer]
    exact h.standing
  · rw [hq]
    exact h.busy

/-- **The dispatcher** decides on a timer command as the timed queue does. -/
theorem Follows.dispatcher (h : s.Follows decided) (htimely : s.Timely .dispatcher)
    (hd : dispatcherStep s.device = some d) :
    ∃ decided', (s.moveTo d).Follows decided' := by
  cases dispatcherStep_cases hd with
  | timeout hnone hq => exact ⟨decided, h.framed ⟨rfl, rfl, rfl⟩⟩
  | receive hnone hq => exact ⟨decided, h.taken hnone rfl rfl rfl⟩
  | @unknown j hj hp =>
      have hheld : s.held = none := by
        rw [held_of_dispatcher hj]
        simp [timerWork, hp]
      exact ⟨decided, h.passed hheld (by rw [hj]; rfl) rfl rfl rfl⟩
  | @forward j p q hj hp hq =>
      by_cases hpt : p = .timer
      · subst hpt
        exact ⟨_, h.placed ((held_of_dispatcher hj).trans (timerWork_of_timer hp)) hj hq⟩
      · have hheld : s.held = none := by
          rw [held_of_dispatcher hj]
          simp [timerWork, hp, hpt]
        exact ⟨decided, h.passed hheld (by rw [hj]; rfl) rfl
          (Function.update_of_ne (Ne.symm hpt) _ _) rfl⟩
  | @full j p hj hp hq =>
      by_cases hpt : p = .timer
      · subst hpt
        exact ⟨_, h.dropped ((held_of_dispatcher hj).trans (timerWork_of_timer hp))
          (by rw [hj]; rfl) (Fifo.push_eq_none_iff.mp hq) htimely rfl rfl rfl⟩
      · have hheld : s.held = none := by
          rw [held_of_dispatcher hj]
          simp [timerWork, hp, hpt]
        exact ⟨decided, h.passed hheld (by rw [hj]; rfl) rfl rfl rfl⟩

/-- **A tick**: nobody's turn has been missed. -/
theorem Follows.tick (h : s.Follows decided) (hdue : ¬ s.TaskDue) (hwaits : ¬ s.DispatcherDue) :
    ({ s with now := s.now + 1 } : ClockedDevice ο).Follows decided := by
  have hnext : s.now ≤ s.now + 1 := Nat.le_succ _
  have hqueue : ({ s with now := s.now + 1 } : ClockedDevice ο).queue.standing (s.now + 1) =
      s.queue.standing (s.now + 1) ∧
      s.now + 1 ≤ ({ s with now := s.now + 1 } : ClockedDevice ο).queue.freeAt := by
    unfold TaskDue at hdue
    split at hdue
    · rename_i hidle
      rw [not_not] at hdue
      have hold : s.queue = ⟨s.now, []⟩ := by simp [queue, hidle, hdue]
      have hnew : ({ s with now := s.now + 1 } : ClockedDevice ο).queue = ⟨s.now + 1, []⟩ := by
        simp [queue, hidle, hdue]
      rw [hold, hnew, standing_idle le_rfl, standing_idle hnext]
      exact ⟨rfl, le_rfl⟩
    · rename_i hrun
      have hnew : ({ s with now := s.now + 1 } : ClockedDevice ο).queue = s.queue := by
        simp [queue, hrun]
      rw [hnew, freeAt_of_run hrun]
      exact ⟨rfl, Nat.not_le.mp hdue⟩
    · exact absurd trivial hdue
  refine ⟨h.works, h.admissions, ?_, hqueue.2, fun w hw => ?_⟩
  · rw [hqueue.1, ← standing_standing hnext, h.standing, standing_standing hnext]
  · change w ∈ s.held at hw
    obtain ⟨harrived, hpatient, -⟩ := h.waits w hw
    have hheld : s.held.isSome := Option.isSome_iff_exists.mpr ⟨w, hw⟩
    have hfull : s.Full := by
      by_contra hroom
      exact hwaits ⟨hheld, .inl hroom⟩
    have hearly : s.now < s.takenAt + appTimerQueueSendWaitMs :=
      Nat.not_le.mp fun hexpired => hwaits ⟨hheld, .inr hexpired⟩
    obtain ⟨j, -, hj⟩ := Option.bind_eq_some_iff.mp (show s.held = some w from hw)
    obtain ⟨-, rfl⟩ := timerWork_some hj
    exact ⟨harrived.trans hnext, hearly, fun _ => h.still_full hw hfull hdue⟩

/-- **One move.** -/
theorem Follows.step (h : s.Follows decided) {mv : ClockedMove ο}
    (hs : clockedStep s mv = some s') : ∃ decided', s'.Follows decided' := by
  cases mv with
  | tick =>
      rw [clockedStep] at hs
      split at hs
      · cases hs
      · rename_i hdue
        rw [not_or] at hdue
        obtain rfl := Option.some.inj hs
        exact ⟨decided, h.tick hdue.1 hdue.2⟩
  | move e =>
      rw [clockedStep] at hs
      split at hs
      · rename_i htimely
        obtain ⟨d, hd, rfl⟩ := Option.map_eq_some_iff.mp hs
        cases e with
        | udpReceive x =>
            refine ⟨decided, h.framed ?_⟩
            cases udpReceive_cases hd <;> exact ⟨rfl, rfl, rfl⟩
        | callback =>
            refine ⟨decided, h.framed ?_⟩
            cases callbackStep_cases hd <;> exact ⟨rfl, rfl, rfl⟩
        | dispatcher => exact h.dispatcher htimely hd
        | task p passed =>
            by_cases hp : p = .timer
            · subst hp
              exact ⟨decided, h.task htimely hd⟩
            · refine ⟨decided, h.framed ?_⟩
              have hne := Ne.symm hp
              cases taskStep_cases hd <;>
                refine ⟨rfl, ?_, ?_⟩ <;> first | rfl | exact Function.update_of_ne hne _ _
        | sender allocates err =>
            have hframe := senderStep_senderFrame hd
            exact ⟨decided, h.framed ⟨hframe.dispatcher, by rw [hframe.queue],
              by rw [hframe.task]⟩⟩
      · cases hs

theorem follows_run {udpPcb : Bool} {ls : List (ClockedMove ο)}
    (h : Run clockedStep (init udpPcb) ls s) : ∃ decided, s.Follows decided := by
  refine h.preserves (I := fun s => ∃ decided, s.Follows decided) ?_ ⟨[], follows_init udpPcb⟩
  rintro s mv s' ⟨decided, hfollows⟩ hs
  exact hfollows.step hs

end ClockedDevice

/-- **The timed queue is the timer stage of the firmware**: in every run in which the dispatcher
takes the timer commands when main's rounds send them, what becomes of them is what `timerEntries`
says, and what is pending is done when `timerPending` says.  At most ten are ever in line exactly
if each gets its place at once. -/
theorem timerEntries_run {udpPcb : Bool} {ls : List (ClockedMove ο)} {s : ClockedDevice ο}
    (h : Run clockedStep (.init udpPcb) ls s) (hheld : s.held = none) {rs : List Round}
    (hworks : s.works = timerWorks rs) :
    s.admissions = (timerEntries rs).map Entry.admission ∧
      timerPending rs s.now = s.queue.pending s.now ∧
      ((∀ e ∈ timerEntries rs, e.inLine ≤ appQueueLength) ↔ ∀ a ∈ s.admissions, a = .entered) := by
  obtain ⟨decided, hfollows⟩ := ClockedDevice.follows_run h
  have hdecided : decided = timerWorks rs := by
    have hall := hfollows.works
    rw [hheld, hworks] at hall
    simpa using hall.symm
  subst hdecided
  refine ⟨hfollows.admissions, ?_, ?_⟩
  · rw [timerPending, pending_eq, pending_eq, hfollows.standing]
    rfl
  · rw [hfollows.admissions]
    simp only [List.forall_mem_map]
    exact forall₂_congr fun e he => inLine_le_iff_of_mem he

/-- A command of three iterations gets its place at once, and its test is done after 300 ms. -/
example :
    let moves : List (Event Unit) :=
      .udpReceive (some ⟨⟨1, 2⟩, [(timerCommand 3).encode], ()⟩) :: List.replicate 4 .callback ++
        List.replicate 2 .dispatcher ++ [.task .timer true]
    (exec clockedStep (.init true) (moves.map .move ++ List.replicate 299 .tick)).map
      (fun s => (s.works, s.admissions, s.now, s.queue.pending s.now)) =
        some (timerWorks [⟨timerCommand 3, 1⟩], [.entered], 299, [300]) := by
  decide +kernel

end PeripheralTester
