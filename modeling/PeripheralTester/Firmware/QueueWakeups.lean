import PeripheralTester.Firmware.QueueBlocking

/-! # No wake-up is lost

Each move of a queue keeps `Sound`.  A task that takes an item wakes one that waits for the space,
an interrupt that finds the queue locked counts instead, and `prvUnlockQueue` wakes as many; a task
joins an event list only when all that came since it last looked is counted.

`no_lost_wakeup` is what this is for: no task sleeps on a queue that has what it waits for, unless
enough others are awake that will take it. -/

namespace PeripheralTester.Firmware

open Lib

namespace QueueState

variable {ι : Type} [Fintype ι] [DecidableEq ι] {value : ι → ℕ} {s s' : QueueState ι} {t u : ι}
  {d e : Side} {pc : CallPc} {w : List ι}

theorem mem_awake : t ∈ s.awake d ↔ s.Awake d t := by
  rw [awake, Finset.mem_filter, and_iff_right (Finset.mem_univ t)]

/-- Who was awake still looks for the same, and nobody has joined the line. -/
theorem awake_subset (h : InLine value s d) (hsub : s'.waiting d ⊆ s.waiting d)
    (hawake : ∀ u, s.Awake d u → (s'.task u).attempts d = true ∨ (s'.task u).sleeps d = true) :
    s.awake d ⊆ s'.awake d := by
  intro u hu
  rw [mem_awake] at hu ⊢
  have hnot : u ∉ s'.waiting d := fun hmem => not_awake_of_mem h (hsub hmem) hu
  exact (hawake u hu).imp_right fun hsleeps => ⟨hsleeps, hnot⟩

/-- The first of the line is woken for a new unit. -/
theorem fed_supplied (h : InLine value s d) (hfed : (s.crowd d).Fed)
    (hwaiting : s'.waiting d = (s.waiting d).tail) (hunits : s'.units d = s.units d + 1)
    (hlock : s'.lock d = s.lock d)
    (hawake : ∀ u, s.Awake d u → (s'.task u).attempts d = true ∨ (s'.task u).sleeps d = true)
    (hsleeps : ∀ u ∈ s.waiting d, (s'.task u).sleeps d = true) : (s'.crowd d).Fed := by
  refine hfed.supply hwaiting hunits ?_ ?_ (by rw [crowd, crowd, hlock])
  · refine awake_subset h ?_ hawake
    rw [hwaiting]
    exact List.tail_subset _
  · intro u hu
    have hmem : u ∈ s.waiting d := List.mem_of_mem_head? hu
    have hnot : u ∉ s'.waiting d := by
      obtain ⟨w, hw⟩ := List.head?_eq_some_iff.mp hu
      have hnodup := h.nodup
      rw [hwaiting, show s.waiting d = u :: w from hw, List.tail_cons]
      rw [show s.waiting d = u :: w from hw] at hnodup
      exact (List.nodup_cons.mp hnodup).1
    refine ⟨mem_awake.mpr (awake_of_not_mem (hsleeps u hmem) hnot), fun hin => ?_⟩
    exact not_awake_of_mem h hmem (mem_awake.mp hin)

/-- Those that were counted are woken. -/
theorem fed_unlocked (h : InLine value s d) (hfed : (s.crowd d).Fed)
    (hwaiting : s'.waiting d = wakeCounted (s.lock d).toNat (s.waiting d))
    (hunits : s'.units d = s.units d)
    (hawake : ∀ u, s.Awake d u → (s'.task u).attempts d = true ∨ (s'.task u).sleeps d = true)
    (hsleeps : ∀ u ∈ s.waiting d, (s'.task u).sleeps d = true) : (s'.crowd d).Fed := by
  rw [wakeCounted_eq_drop] at hwaiting
  refine hfed.flush h.nodup hwaiting hunits ?_ ?_
  · refine awake_subset h ?_ hawake
    rw [hwaiting]
    exact List.drop_subset _ _
  · intro u hu
    have hmem : u ∈ s.waiting d := List.mem_of_mem_take hu
    have hnot : u ∉ s'.waiting d := by
      rw [hwaiting]
      exact List.disjoint_take_drop h.nodup le_rfl hu
    refine ⟨mem_awake.mpr (awake_of_not_mem (hsleeps u hmem) hnot), fun hin => ?_⟩
    exact not_awake_of_mem h hmem (mem_awake.mp hin)

/-- Nothing comes, and nobody who is awake goes. -/
theorem fed_kept (h : InLine value s d) (hfed : (s.crowd d).Fed)
    (hwaiting : (s'.waiting d).Sublist (s.waiting d)) (hunits : s'.units d ≤ s.units d)
    (hlock : (s.lock d).toNat ≤ (s'.lock d).toNat)
    (hawake : ∀ u, s.Awake d u → (s'.task u).attempts d = true ∨ (s'.task u).sleeps d = true) :
    (s'.crowd d).Fed := by
  refine hfed.mono (fun hne hnil => hne ?_) hunits (awake_subset h hwaiting.subset hawake) hlock
  exact List.eq_nil_of_sublist_nil (hnil ▸ hwaiting)

/-! ### One move -/

/-- A task that can move goes to `pc`; what it does to the queue is left open. -/
theorem Sound.of_goes (h : Sound value s) (hrun : s.MayRun t)
    (htask : s'.task = Function.update s.task t pc)
    (hsuspended : s'.suspended = if pc.suspends = true then some t else none)
    (hbound : s'.uxMessagesWaiting ≤ s'.uxLength)
    (hlocked : ∀ d, pc.locks d = true → queueLockedUnmodified ≤ s'.lock d)
    (hunlocked : ∀ d, pc.locks d = false → s'.lock d = queueUnlocked)
    (hline : ∀ d, InLine value s' d) (hfed : ∀ d, (s'.crowd d).Fed)
    (hplace : ∀ d, pc = .place d → s'.units d ≤ (s'.lock d).toNat) : Sound value s' := by
  refine ⟨hbound, h.held.goes hrun htask hsuspended hlocked hunlocked, hline, hfed, ?_⟩
  intro u d hu
  rw [htask] at hu
  by_cases heq : u = t
  · subst heq
    rw [Function.update_self] at hu
    exact hplace d hu
  · rw [Function.update_of_ne heq] at hu
    have hsuspends := not_suspends_of_mayRun h.held hrun heq
    rw [hu] at hsuspends
    cases hsuspends

/-- A task that can move goes to `pc`, and nothing else happens. -/
theorem Sound.goes (h : Sound value s) (hrun : s.MayRun t)
    (htask : s'.task = Function.update s.task t pc)
    (hsuspended : s'.suspended = if pc.suspends = true then some t else none)
    (hunits : s'.units = s.units) (hbound : s'.uxMessagesWaiting ≤ s'.uxLength)
    (hlock : s'.lock = s.lock) (hwaiting : s'.waiting = s.waiting)
    (hlocks : ∀ d, pc.locks d = (s.task t).locks d)
    (hsleeps : ∀ d, t ∈ s.waiting d → pc.sleeps d = true)
    (hawake : ∀ d, s.units d ≠ 0 → s.Awake d t → pc.attempts d = true ∨ pc.sleeps d = true)
    (hplace : ∀ d, pc = .place d → s.units d = 0) : Sound value s' := by
  refine h.of_goes hrun htask hsuspended hbound (fun d hd => ?_) (fun d hd => ?_) (fun d => ?_)
    (fun d => ?_) fun d hd => ?_
  · rw [hlock]
    exact h.held.locked t d ((hlocks d).symm.trans hd)
  · rw [hlock]
    exact lock_eq_of_mayRun h.held hrun ((hlocks d).symm.trans hd)
  · refine (h.inLine d).sublist (by rw [hwaiting]) (sleeps_goes htask fun hmem => ?_)
    rw [hwaiting] at hmem
    exact hsleeps d hmem
  · by_cases hzero : s.units d = 0
    · refine Crowd.fed_of_units ?_
      rw [crowd, hunits, hzero]
      exact Nat.zero_le _
    · exact fed_kept (h.inLine d) (h.fed d) (by rw [hwaiting]) (by rw [hunits]) (by rw [hlock])
        (awake_goes htask (hawake d hzero))
  · rw [hunits, hplace d hd]
    exact Nat.zero_le _

/-- A task takes what it came for, and wakes one that waits for what it leaves. -/
theorem Sound.takes {wait : Bool} (h : Sound value s) (hrun : s.MayRun t)
    (ht : s.task t = .attempt d wait) (hunits : 0 < s.units d) :
    Sound value (((s.copy d).wakeFirst d.other).setTask t .idle) := by
  have htask : (((s.copy d).wakeFirst d.other).setTask t .idle).task =
      Function.update s.task t .idle := rfl
  have hnone : s.suspended = none := by rw [suspended_eq h.held hrun, ht]; rfl
  have hunlocked (e : Side) : s.lock e = queueUnlocked :=
    lock_eq_of_mayRun h.held hrun (by rw [ht]; rfl)
  have hasleep (e : Side) : t ∉ s.waiting e := by
    intro hmem
    have hsleeps := (h.inLine e).sleeps t hmem
    rw [ht] at hsleeps
    cases hsleeps
  have hattempts : (s.task t).attempts d = true := by rw [ht]; exact decide_eq_true rfl
  have hsub (e : Side) := waiting_wakeFirst (s.copy d) d.other e
  refine h.of_goes hrun htask hnone (bound_copy h.bound hunits) (fun e he => by cases he)
    (fun e _ => hunlocked e) (fun e => ?_) (fun e => ?_) (fun e he => by cases he)
  · exact (h.inLine e).sublist (hsub e)
      (sleeps_goes htask fun hmem => absurd ((hsub e).subset hmem) (hasleep e))
  · by_cases he : e = d
    · subst he
      have hwaiting : ((s.copy e).wakeFirst e.other).waiting e = s.waiting e :=
        Function.update_of_ne (Side.other_ne e).symm _ _
      refine (h.fed e).take (mem_awake.mpr (.inl hattempts)) hwaiting (units_copy hunits)
        (fun u hu => ?_) rfl
      obtain ⟨hne, hmem⟩ := Finset.mem_erase.mp hu
      have hawake := mem_awake.mp hmem
      refine mem_awake.mpr ?_
      rw [Awake, htask, Function.update_of_ne hne]
      exact hawake.imp_right fun hsleeps => ⟨hsleeps.1, hwaiting ▸ hsleeps.2⟩
    · obtain rfl := Side.eq_other he
      exact fed_supplied (h.inLine _) (h.fed _) (Function.update_self _ _ _)
        (units_copy_other h.bound hunits) rfl
        (awake_goes htask fun hawake => absurd hawake (not_awake_of_attempt ht he))
        fun u hu => sleeps_goes htask (fun hmem => absurd hmem (hasleep _)) u hu
          ((h.inLine _).sleeps u hu)

/-- An interrupt takes something while the queue is not locked. -/
theorem Sound.isrTakes (h : Sound value s) (hunits : 0 < s.units d)
    (hlock : s.lock d.other = queueUnlocked) :
    Sound value ((s.copy d).wakeFirst d.other) := by
  refine ⟨bound_copy h.bound hunits, ⟨h.held.holder, h.held.locked, h.held.unlocked⟩,
    fun e => ?_, fun e => ?_, fun u e hu => ?_⟩
  · exact (h.inLine e).sublist (waiting_wakeFirst (s.copy d) d.other e) fun _ _ hu => hu
  · by_cases he : e = d
    · subst he
      refine fed_kept (h.inLine e) (h.fed e) (waiting_wakeFirst (s.copy e) e.other e) ?_ le_rfl
        fun u hu => looks_of_awake (s := s) hu
      exact (Nat.le_succ _).trans_eq (units_copy hunits).symm
    · obtain rfl := Side.eq_other he
      exact fed_supplied (h.inLine _) (h.fed _) (Function.update_self _ _ _)
        (units_copy_other h.bound hunits) rfl (fun u hu => looks_of_awake (s := s) hu)
        (h.inLine _).sleeps
  · -- a task that is about to wait has locked the queue
    have hle := h.held.locked u d.other (by rw [show s.task u = _ from hu]; rfl)
    rw [hlock] at hle
    exact absurd hle (by decide)

/-- An interrupt takes something while the queue is locked, and counts it. -/
theorem Sound.isrCounts (h : Sound value s) (hunits : 0 < s.units d)
    (hlock : s.lock d.other ≠ queueUnlocked) (hmax : s.lock d.other < 127) :
    Sound value { s.copy d with
      lock := Function.update s.lock d.other (toInt8 (s.lock d.other + 1)) } := by
  have hle := lock_nonneg h.held hlock
  have hcount : toInt8 (s.lock d.other + 1) = s.lock d.other + 1 := by
    rw [toInt8]
    omega
  have hpending (e : Side) : (Function.update s.lock d.other (s.lock d.other + 1) e).toNat =
      (s.lock e).toNat + if e = d.other then 1 else 0 := by
    by_cases he : e = d.other
    · subst he
      rw [Function.update_self, if_pos rfl]
      omega
    · rw [Function.update_of_ne he, if_neg he, Nat.add_zero]
  have hfew (e : Side) : (s.copy d).units e ≤ s.units e + if e = d.other then 1 else 0 := by
    by_cases he : e = d
    · subst he
      exact (Nat.le_succ _).trans ((units_copy hunits).symm.trans_le (Nat.le_add_right _ _))
    · obtain rfl := Side.eq_other he
      rw [if_pos rfl, units_copy_other h.bound hunits]
  have hlocked (e : Side) (he : queueLockedUnmodified ≤ s.lock e) :
      queueLockedUnmodified ≤ Function.update s.lock d.other (s.lock d.other + 1) e := by
    by_cases heq : e = d.other
    · subst heq
      rw [Function.update_self]
      exact he.trans (Int.le_add_one le_rfl)
    · rw [Function.update_of_ne heq]
      exact he
  have hunlocked (e : Side) (he : s.lock e = queueUnlocked) :
      Function.update s.lock d.other (s.lock d.other + 1) e = queueUnlocked := by
    have hne : e ≠ d.other := by
      rintro rfl
      exact hlock he
    rw [Function.update_of_ne hne]
    exact he
  rw [hcount]
  refine ⟨bound_copy h.bound hunits, ⟨h.held.holder, fun u e hu => ?_, fun e he => ?_⟩,
    fun e => ?_, fun e => ?_, fun u e hu => ?_⟩
  · exact hlocked e (h.held.locked u e hu)
  · exact hunlocked e (h.held.unlocked e he)
  · exact (h.inLine e).sublist (.refl _) fun _ _ hu => hu
  · by_cases he : e = d
    · subst he
      refine fed_kept (h.inLine e) (h.fed e) (.refl _) ?_ ?_ fun u hu => looks_of_awake (s := s) hu
      · exact (Nat.le_succ _).trans_eq (units_copy hunits).symm
      · exact (Nat.le_add_right _ _).trans_eq (hpending e).symm
    · obtain rfl := Side.eq_other he
      refine (h.fed _).note rfl (units_copy_other h.bound hunits) ?_ ?_
      · exact awake_subset (h.inLine _) (List.Subset.refl _) fun u hu => looks_of_awake (s := s) hu
      · exact (hpending _).trans (by rw [if_pos rfl]; rfl)
  · exact (hfew e).trans
      ((Nat.add_le_add_right (h.placed u e hu) _).trans_eq (hpending e).symm)

/-- `prvLockQueue`. -/
theorem Sound.locksQueue (h : Sound value s) (hrun : s.MayRun t) (ht : s.task t = .lock d) :
    Sound value { s.setTask t (.check d) with
      lock := fun e => if s.lock e = queueUnlocked then queueLockedUnmodified else s.lock e } := by
  have hsuspended : s.suspended = some t := by rw [suspended_eq h.held hrun, ht]; rfl
  have hunlocked (e : Side) : s.lock e = queueUnlocked :=
    lock_eq_of_mayRun h.held hrun (by rw [ht]; rfl)
  have hasleep (e : Side) : (s.task t).sleeps e ≠ true := by
    rw [ht]
    exact Bool.false_ne_true
  refine h.of_goes hrun rfl hsuspended h.bound (fun e _ => ?_) (fun e he => by cases he)
    (fun e => ?_) (fun e => ?_) (fun e he => by cases he)
  · exact (if_pos (hunlocked e)).symm.le
  · exact (h.inLine e).sublist (.refl _)
      (sleeps_goes rfl fun hmem => absurd ((h.inLine e).sleeps t hmem) (hasleep e))
  · refine fed_kept (h.inLine e) (h.fed e) (.refl _) le_rfl ?_ (awake_goes rfl fun hawake => ?_)
    · rw [hunlocked e]
      exact Nat.zero_le _
    · have hlooks := looks_of_awake hawake
      rw [ht] at hlooks
      exact absurd hlooks (by simp [CallPc.attempts, CallPc.sleeps])

/-- `vTaskPlaceOnEventList`. -/
theorem Sound.places (h : Sound value s) (hrun : s.MayRun t) (ht : s.task t = .place d) :
    Sound value { s.setTask t (.unlockTx d .block) with
      waiting := Function.update s.waiting d (insertBehind value t (s.waiting d)) } := by
  have hsuspended : s.suspended = some t := by rw [suspended_eq h.held hrun, ht]; rfl
  have hlocked (e : Side) : queueLockedUnmodified ≤ s.lock e :=
    h.held.locked t e (by rw [ht]; rfl)
  have hasleep (e : Side) : (s.task t).sleeps e ≠ true := by
    rw [ht]
    exact Bool.false_ne_true
  have hnot (e : Side) : t ∉ s.waiting e := fun hmem => hasleep e ((h.inLine e).sleeps t hmem)
  have hsame (e : Side) (he : e ≠ d) :
      Function.update s.waiting d (insertBehind value t (s.waiting d)) e = s.waiting e :=
    Function.update_of_ne he _ _
  refine h.of_goes hrun rfl hsuspended h.bound (fun e _ => hlocked e) (fun e he => by cases he)
    (fun e => ?_) (fun e => ?_) (fun e he => by cases he)
  · by_cases he : e = d
    · subst he
      refine (h.inLine e).place (Function.update_self _ _ _) ?_ ?_ (hnot e)
      · change (Function.update s.task t (.unlockTx e .block) t).sleeps e = true
        rw [Function.update_self]
        exact decide_eq_true rfl
      · exact fun u hu => Function.update_of_ne hu _ _
    · refine (h.inLine e).sublist (hsame e he ▸ .refl _) (sleeps_goes rfl fun hmem => ?_)
      exact absurd (hsame e he ▸ hmem) (hnot e)
  · by_cases he : e = d
    · subst he
      exact Crowd.fed_of_units (h.placed t e ht)
    · refine fed_kept (h.inLine e) (h.fed e) (hsame e he ▸ .refl _) le_rfl le_rfl
        (awake_goes rfl fun hawake => ?_)
      have hlooks := looks_of_awake hawake
      rw [ht] at hlooks
      exact absurd hlooks (by simp [CallPc.attempts, CallPc.sleeps])

/-- One critical section of `prvUnlockQueue`. -/
theorem Sound.unlocks (h : Sound value s) (hrun : s.MayRun t)
    (hsuspends : (s.task t).suspends = true ∧ pc.suspends = true)
    (hlocks : ∀ d, pc.locks d = true ↔ (s.task t).locks d = true ∧ d ≠ e)
    (hattempts : ∀ d, (s.task t).attempts d = false)
    (hsleeps : ∀ d, pc.sleeps d = (s.task t).sleeps d) (hplace : ∀ d, pc ≠ .place d) :
    Sound value ((s.unlock e).setTask t pc) := by
  have htask : ((s.unlock e).setTask t pc).task = Function.update s.task t pc := rfl
  have hsuspended : s.suspended = if pc.suspends = true then some t else none := by
    rw [suspended_eq h.held hrun, hsuspends.1, hsuspends.2]
  have hsub (d : Side) : ((s.unlock e).waiting d).Sublist (s.waiting d) := by
    change (Function.update s.waiting e _ d).Sublist _
    by_cases hd : d = e
    · subst hd
      rw [Function.update_self, wakeCounted_eq_drop]
      exact List.drop_sublist _ _
    · rw [Function.update_of_ne hd]
  have hkept (d : Side) (hmem : t ∈ s.waiting d) : pc.sleeps d = true := by
    rw [hsleeps]
    exact (h.inLine d).sleeps t hmem
  have hawake (d : Side) (hd : s.Awake d t) : pc.attempts d = true ∨ pc.sleeps d = true := by
    have hlooks := looks_of_awake hd
    rw [hattempts, hsleeps] at *
    exact .inr (hlooks.resolve_left Bool.false_ne_true)
  refine h.of_goes hrun htask hsuspended h.bound (fun d hd => ?_) (fun d hd => ?_) (fun d => ?_)
    (fun d => ?_) (fun d hd => absurd hd (hplace d))
  · change _ ≤ Function.update s.lock e queueUnlocked d
    rw [Function.update_of_ne ((hlocks d).mp hd).2]
    exact h.held.locked t d ((hlocks d).mp hd).1
  · change Function.update s.lock e queueUnlocked d = _
    by_cases hde : d = e
    · rw [hde, Function.update_self]
    · rw [Function.update_of_ne hde]
      refine lock_eq_of_mayRun h.held hrun ?_
      by_contra hlocked
      rw [(hlocks d).mpr ⟨Bool.eq_true_of_not_eq_false hlocked, hde⟩] at hd
      cases hd
  · exact (h.inLine d).sublist (hsub d)
      (sleeps_goes htask fun hmem => hkept d ((hsub d).subset hmem))
  · by_cases hde : d = e
    · subst hde
      exact fed_unlocked (h.inLine d) (h.fed d) (Function.update_self _ _ _) rfl
        (awake_goes htask (hawake d))
        fun u hu => sleeps_goes htask (hkept d) u hu ((h.inLine d).sleeps u hu)
    · refine fed_kept (h.inLine d) (h.fed d) (hsub d) le_rfl ?_ (awake_goes htask (hawake d))
      change _ ≤ (Function.update s.lock e queueUnlocked d).toNat
      rw [Function.update_of_ne hde]

/-- The time of a task that waits is up. -/
theorem Sound.expires (h : Sound value s) :
    Sound value { s with waiting := Function.update s.waiting d ((s.waiting d).erase t) } := by
  have hsub (e : Side) :
      (Function.update s.waiting d ((s.waiting d).erase t) e).Sublist (s.waiting e) := by
    by_cases he : e = d
    · subst he
      rw [Function.update_self]
      exact List.erase_sublist
    · rw [Function.update_of_ne he]
  refine ⟨h.bound, ⟨h.held.holder, h.held.locked, h.held.unlocked⟩, fun e => ?_, fun e => ?_,
    h.placed⟩
  · exact (h.inLine e).sublist (hsub e) fun _ _ hu => hu
  · exact fed_kept (h.inLine e) (h.fed e) (hsub e) le_rfl le_rfl
      fun u hu => looks_of_awake (s := s) hu

theorem Sound.goOn {a : TimeOutCheck} (h : Sound value s) (hrun : s.MayRun t)
    (hs : s.goOn value t a = some s') : Sound value s' := by
  have hsuspended := suspended_eq h.held hrun
  -- a task that is in none of the event lists goes to `pc`, and nothing else happens
  have hstep {pc : CallPc} {b : Option ι} (hsleeps : ∀ d, (s.task t).sleeps d = false)
      (hb : b = if pc.suspends = true then some t else none)
      (hlocks : ∀ d, pc.locks d = (s.task t).locks d)
      (hawake : ∀ d, s.units d ≠ 0 → (s.task t).attempts d = true → pc.attempts d = true)
      (hplace : ∀ d, pc = .place d → s.units d = 0) :
      Sound value { s.setTask t pc with suspended := b } := by
    refine h.goes hrun rfl hb rfl h.bound rfl rfl hlocks (fun d hmem => ?_) (fun d hne hd => ?_)
      hplace
    · have hasleep := (h.inLine d).sleeps t hmem
      rw [hsleeps d] at hasleep
      cases hasleep
    · refine .inl (hawake d hne ((looks_of_awake hd).resolve_right fun hasleep => ?_))
      rw [hsleeps d] at hasleep
      cases hasleep
  unfold QueueState.goOn at hs
  cases hpc : s.task t with
  | idle =>
      rw [hpc] at hs
      cases hs
  | attempt d wait =>
      simp only [hpc] at hs hsuspended hstep
      have hnothing (hzero : ¬s.units d > 0) (e : Side) (hne : s.units e ≠ 0) : d ≠ e :=
        fun heq => hzero (Nat.pos_of_ne_zero (heq ▸ hne))
      split at hs
      · rename_i hunits
        obtain rfl := Option.some.inj hs
        exact h.takes hrun hpc hunits
      · rename_i hzero
        have hattempts (e : Side) (hne : s.units e ≠ 0) (he : decide (d = e) = true)
            (b : Bool) : b = true := absurd (of_decide_eq_true he) (hnothing hzero e hne)
        split at hs
        · obtain rfl := Option.some.inj hs
          exact hstep (fun _ => rfl) hsuspended (fun _ => rfl)
            (fun e hne he => hattempts e hne he _) fun e he => by cases he
        · obtain rfl := Option.some.inj hs
          exact hstep (fun _ => rfl) hsuspended (fun _ => rfl)
            (fun e hne he => hattempts e hne he _) fun e he => by cases he
  | suspend d =>
      simp only [hpc] at hs hsuspended hstep
      obtain rfl := Option.some.inj hs
      exact hstep (fun _ => rfl) rfl (fun _ => rfl) (fun e _ he => by cases he)
        fun e he => by cases he
  | lock d =>
      simp only [hpc] at hs
      obtain rfl := Option.some.inj hs
      exact h.locksQueue hrun hpc
  | check d =>
      simp only [hpc] at hs hsuspended hstep
      cases a with
      | notExpired =>
          obtain rfl := Option.some.inj hs
          exact hstep (fun _ => rfl) hsuspended (fun _ => rfl) (fun e _ he => by cases he)
            fun e he => by cases he
      | expired wait =>
          obtain rfl := Option.some.inj hs
          exact hstep (fun _ => rfl) hsuspended (fun _ => rfl) (fun e _ he => by cases he)
            fun e he => by cases he
  | look d =>
      simp only [hpc] at hs hsuspended hstep
      split at hs
      · rename_i hzero
        obtain rfl := Option.some.inj hs
        refine hstep (fun _ => rfl) hsuspended (fun _ => rfl) (fun e _ he => by cases he)
          fun e he => ?_
        obtain rfl := CallPc.place.inj he
        exact hzero
      · obtain rfl := Option.some.inj hs
        exact hstep (fun _ => rfl) hsuspended (fun _ => rfl) (fun e _ he => by cases he)
          fun e he => by cases he
  | place d =>
      simp only [hpc] at hs
      obtain rfl := Option.some.inj hs
      exact h.places hrun hpc
  | unlockTx d after =>
      simp only [hpc] at hs
      obtain rfl := Option.some.inj hs
      refine h.unlocks hrun ?_ ?_ ?_ ?_ fun e he => by cases he
      · rw [hpc]
        exact ⟨rfl, rfl⟩
      · intro e
        rw [hpc]
        exact CallPc.locks_unlockRx d e after
      · intro e
        rw [hpc]
        rfl
      · intro e
        rw [hpc]
        exact CallPc.sleeps_unlockRx d e after
  | unlockRx d after =>
      simp only [hpc] at hs
      obtain rfl := Option.some.inj hs
      refine h.unlocks hrun ?_ ?_ ?_ ?_ fun e he => by cases he
      · rw [hpc]
        exact ⟨rfl, rfl⟩
      · intro e
        rw [hpc]
        exact CallPc.locks_resume d e after
      · intro e
        rw [hpc]
        rfl
      · intro e
        rw [hpc]
        exact CallPc.sleeps_resume d e after
  | resume d after =>
      simp only [hpc] at hs hsuspended hstep
      cases after with
      | block =>
          obtain rfl := Option.some.inj hs
          refine h.goes hrun rfl rfl rfl h.bound rfl rfl (fun e => by rw [hpc]; rfl)
            (fun e hmem => ?_) (fun e _ he => ?_) fun e he => by cases he
          · have hasleep := (h.inLine e).sleeps t hmem
            rw [hpc] at hasleep
            exact hasleep
          · have hlooks := looks_of_awake he
            rw [hpc] at hlooks
            exact hlooks
      | retry =>
          obtain rfl := Option.some.inj hs
          exact hstep (fun _ => rfl) rfl (fun _ => rfl) (fun e _ he => by cases he)
            fun e he => by cases he
      | giveUp wait =>
          obtain rfl := Option.some.inj hs
          by_cases hd : d = .receive
          · simp only [if_pos hd]
            exact hstep (fun _ => rfl) rfl (fun _ => rfl) (fun e _ he => by cases he)
              fun e he => by cases he
          · simp only [if_neg hd]
            exact hstep (fun _ => rfl) rfl (fun _ => rfl) (fun e _ he => by cases he)
              fun e he => by cases he
  | blocked d =>
      simp only [hpc] at hs hsuspended
      split at hs
      · cases hs
      · rename_i hnot
        obtain rfl := Option.some.inj hs
        refine h.goes hrun rfl hsuspended rfl h.bound rfl rfl (fun e => by rw [hpc]; rfl)
          (fun e hmem => ?_) (fun e _ he => ?_) fun e he => by cases he
        · have hasleep := (h.inLine e).sleeps t hmem
          rw [hpc] at hasleep
          obtain rfl := of_decide_eq_true hasleep
          exact absurd hmem hnot
        · have hlooks := looks_of_awake he
          rw [hpc] at hlooks
          exact .inl (hlooks.resolve_left Bool.false_ne_true)
  | recheck wait =>
      simp only [hpc] at hs hsuspended hstep
      split at hs
      · obtain rfl := Option.some.inj hs
        exact hstep (fun _ => rfl) hsuspended (fun _ => rfl) (fun e _ he => by cases he)
          fun e he => by cases he
      · obtain rfl := Option.some.inj hs
        exact hstep (fun _ => rfl) hsuspended (fun _ => rfl) (fun e _ he => by cases he)
          fun e he => by cases he

theorem Sound.step {a : QueueMove ι} (h : Sound value s) (hunsaturated : s.Unsaturated a)
    (hs : s.step value a = some s') : Sound value s' := by
  cases a with
  | call t d wait =>
      simp only [QueueState.step] at hs
      split at hs
      · rename_i hcan
        obtain ⟨hrun, hidle⟩ := hcan
        obtain rfl := Option.some.inj hs
        have hsuspended := suspended_eq h.held hrun
        rw [hidle] at hsuspended
        refine h.goes hrun rfl hsuspended rfl h.bound rfl rfl (fun e => by rw [hidle]; rfl)
          (fun e hmem => ?_) (fun e _ he => ?_) fun e he => by cases he
        · have hasleep := (h.inLine e).sleeps t hmem
          rw [hidle] at hasleep
          cases hasleep
        · have hlooks := looks_of_awake he
          rw [hidle] at hlooks
          exact absurd hlooks (by simp [CallPc.attempts, CallPc.sleeps])
      · cases hs
  | go t a =>
      simp only [QueueState.step] at hs
      split at hs
      · rename_i hrun
        exact h.goOn hrun hs
      · cases hs
  | expire t =>
      simp only [QueueState.step] at hs
      split at hs
      · split at hs
        · obtain rfl := Option.some.inj hs
          exact h.expires
        · cases hs
      · cases hs
  | isr d =>
      obtain rfl := Option.some.inj hs
      rw [fromIsr]
      split
      · rename_i hunits
        split
        · rename_i hlock
          exact h.isrTakes hunits hlock
        · rename_i hlock
          exact h.isrCounts hunits hlock (hunsaturated hunits)
      · exact h

theorem sound_init {length messages : ℕ} (hle : messages ≤ length) :
    Sound value (init length messages : QueueState ι) where
  bound := hle
  held := ⟨fun t => ⟨fun h => (by cases h), fun h => (by cases h)⟩, fun t d h => (by cases h),
    fun d _ => rfl⟩
  inLine d := ⟨fun t ht => (by cases ht), List.nodup_nil, .nil⟩
  fed d hne := absurd rfl hne
  placed t d h := by cases h

/-! ### Runs -/

variable {ls : List (QueueMove ι)} {length messages : ℕ}

theorem Short.step {a : QueueMove ι} (h : s.Short) (hsound : Sound value s)
    (ha : a ≠ .isr .receive) (hs : s.step value a = some s') : s'.Short := by
  cases a with
  | call t d wait =>
      simp only [QueueState.step] at hs
      split at hs
      · obtain rfl := Option.some.inj hs
        exact h
      · cases hs
  | go t a =>
      simp only [QueueState.step] at hs
      split at hs
      · rename_i hrun
        exact h.goOn hsound.held hrun hs
      · cases hs
  | expire t =>
      simp only [QueueState.step] at hs
      split at hs
      · split at hs
        · obtain rfl := Option.some.inj hs
          exact h
        · cases hs
      · cases hs
  | isr d =>
      obtain rfl := Option.some.inj hs
      cases d with
      | receive => exact absurd rfl ha
      | send =>
          obtain ⟨hshort, hcount⟩ := h
          rw [fromIsr]
          split
          · split
            · exact ⟨hshort, hcount.trans (Int.ofNat_le.mpr (Nat.le_succ _))⟩
            · rename_i hunits hlock
              have hle := lock_nonneg hsound.held hlock
              change 0 < s.uxLength - s.uxMessagesWaiting at hunits
              change 0 ≤ s.lock .receive at hle
              refine ⟨hshort, ?_⟩
              change Function.update s.lock .receive (toInt8 (s.lock .receive + 1)) .receive ≤
                ((s.uxMessagesWaiting + 1 : ℕ) : ℤ)
              rw [Function.update_self, toInt8]
              omega
          · exact ⟨hshort, hcount⟩

/-- `Unsaturated` is kept by itself in a short queue from which no interrupt receives: what an
interrupt has counted is still there. -/
theorem unsaturated_of_short (hle : messages ≤ length) (hshort : length ≤ 127)
    (hls : Meets (step value) (fun _ a => a ≠ .isr .receive) (init length messages) ls)
    (hrun : Run (step value) (init length messages) ls s) :
    Meets (step value) Unsaturated (init length messages) ls := by
  have hstep (s : QueueState ι) (a : QueueMove ι) (s' : QueueState ι)
      (h : Sound value s ∧ s.Short) (ha : a ≠ .isr .receive) (hs : s.step value a = some s') :
      Sound value s' ∧ s'.Short :=
    ⟨h.1.step (h.2.unsaturated ha) hs, h.2.step h.1 ha hs⟩
  have hinit : (init length messages : QueueState ι).Short :=
    ⟨hshort, (show queueUnlocked ≤ 0 by decide).trans (Int.natCast_nonneg _)⟩
  exact hrun.meets hstep (fun s a s' h ha _ => h.2.unsaturated ha) hls ⟨sound_init hle, hinit⟩

/-- **No wake-up is lost.**  Whatever the order of calls, interrupts and ticks: while the scheduler
is not suspended, the event lists are sorted by priority, and if one of them is not empty then for
every item, or space, that its tasks wait for there is a task that is awake and will look for it.
So if nobody is awake, receivers sleep only at an empty queue and senders only at a full one. -/
theorem no_lost_wakeup (hle : messages ≤ length)
    (hrun : Run (step value) (init length messages) ls s)
    (hmeets : Meets (step value) Unsaturated (init length messages) ls)
    (hresumed : s.suspended = none) (d : Side) :
    (s.waiting d ≠ [] → s.units d ≤ (s.awake d).card) ∧
      (s.waiting d).Pairwise (fun t u => value t ≤ value u) ∧ (s.waiting d).Nodup := by
  have h : Sound value s :=
    hrun.invariant (fun s a s' hi hc hs => Sound.step hi hc hs) hmeets (sound_init hle)
  refine ⟨fun hne => ?_, (h.inLine d).sorted, (h.inLine d).nodup⟩
  have hlock : s.lock d = queueUnlocked := by
    refine h.held.unlocked d fun t => ?_
    by_contra hlocks
    have hholder := (h.held.holder t).mp
      (CallPc.suspends_of_locks (Bool.eq_true_of_not_eq_false hlocks))
    rw [hresumed] at hholder
    cases hholder
  have hfed := h.fed d hne
  rw [crowd, hlock] at hfed
  exact hfed

/-- Two receivers of a semaphore; an interrupt gives it while the second one has the queue locked,
and `prvUnlockQueue` wakes the first. -/
def handover : List (QueueMove (Fin 2)) :=
  .call 0 .receive true :: List.replicate 9 (.go 0 .notExpired) ++
    .call 1 .receive true :: List.replicate 6 (.go 1 .notExpired) ++
    .isr .send :: List.replicate 3 (.go 1 .notExpired)

theorem no_lost_wakeup_handover :
    ∃ s : QueueState (Fin 2), Run (step fun _ => 0) (init 1 0) handover s ∧
      s.waiting .receive = [1] ∧ s.units .receive ≤ (s.awake .receive).card := by
  obtain ⟨s, hs, hview⟩ := Option.map_eq_some_iff.mp (show
    (exec (step fun _ => 0) (init 1 0) handover).map
      (fun s => (s.suspended, s.waiting .receive)) = some (none, [1]) by decide +kernel)
  obtain ⟨hresumed, hwaiting⟩ := Prod.mk.inj hview
  have hmeets : Meets (step fun _ => 0) Unsaturated (init 1 0) handover := by decide +kernel
  have hne : s.waiting .receive ≠ [] := by
    rw [hwaiting]
    exact List.cons_ne_nil _ _
  exact ⟨s, .of_exec hs, hwaiting,
    (no_lost_wakeup (Nat.zero_le 1) (.of_exec hs) hmeets hresumed .receive).1 hne⟩

end QueueState

end PeripheralTester.Firmware
