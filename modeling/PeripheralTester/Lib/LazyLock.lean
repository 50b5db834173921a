import Mathlib.Tactic

/-! # A lock that is created by its first user

A pointer to a lock starts out null.  A party that wants to use what the lock protects tests the
pointer, creates a lock and stores it if the test finds null, takes the lock the pointer names,
and gives it back.  The test and the store are separate steps, so two parties that test before
either stores create a lock each.  A creation can fail; the party then goes on without a lock.

* `LazyLock.Moves` are the steps of a party, with the pointer read again wherever the code does.
* `LazyLock.Alone` is the condition on a test that finds null: no other party is past its own
  test.
* `LazyLock.Ordered` is the invariant of the runs whose tests meet it (`Ordered.moves`).  It has
  two phases.  In the first the pointer is null and one party at most is past its test; in the
  second there is one lock, and its holder is the party that uses it.
* `LazyLock.Exclusive` is what the lock is for, and `Ordered.exclusive` the result. -/

namespace PeripheralTester.Lib

variable {τ : Type*}

/-- Where a party is, from its test on. -/
inductive LazyLock.Place where
  | creating
  | storing (h : Option ℕ)
  | checking
  | entering
  | taking (h : ℕ)
  | busy
  | leaving
  | giving
deriving DecidableEq, Repr

/-- The pointer, the locks created so far, each with its holder, and the parties past their
test. -/
structure LazyLock (τ : Type*) where
  pointer : Option ℕ
  holders : List (Option τ)
  place : τ → Option LazyLock.Place

namespace LazyLock

/-- No lock and no party. -/
def init : LazyLock τ := ⟨none, [], fun _ => none⟩

variable [DecidableEq τ] {l l' : LazyLock τ} {t u : τ}

/-- The party goes on at another place; `none` is in front of the next test. -/
def goto (l : LazyLock τ) (t : τ) (p : Option Place) : LazyLock τ :=
  { l with place := Function.update l.place t p }

/-- The steps of the party `t`. -/
inductive Moves (t : τ) (l : LazyLock τ) : LazyLock τ → Prop
  | testNull (hpointer : l.pointer = none) (hp : l.place t = none) :
      Moves t l (l.goto t (some .creating))
  | test (hpointer : l.pointer ≠ none) (hp : l.place t = none) :
      Moves t l (l.goto t (some .checking))
  | createFails (hp : l.place t = some .creating) : Moves t l (l.goto t (some (.storing none)))
  | create (hp : l.place t = some .creating) :
      Moves t l ({ l with holders := l.holders ++ [none] }.goto t
        (some (.storing (some l.holders.length))))
  | store {h : Option ℕ} (hp : l.place t = some (.storing h)) :
      Moves t l ({ l with pointer := h }.goto t (some .checking))
  | check (hpointer : l.pointer ≠ none) (hp : l.place t = some .checking) :
      Moves t l (l.goto t (some .entering))
  | checkNull (hpointer : l.pointer = none) (hp : l.place t = some .checking) :
      Moves t l (l.goto t (some .busy))
  | enter {h : ℕ} (hpointer : l.pointer = some h) (hp : l.place t = some .entering) :
      Moves t l (l.goto t (some (.taking h)))
  | take {h : ℕ} (hfree : l.holders[h]? = some none) (hp : l.place t = some (.taking h)) :
      Moves t l ({ l with holders := l.holders.set h (some t) }.goto t (some .busy))
  | finish (hp : l.place t = some .busy) : Moves t l (l.goto t (some .leaving))
  | leave (hpointer : l.pointer ≠ none) (hp : l.place t = some .leaving) :
      Moves t l (l.goto t (some .giving))
  | leaveNull (hpointer : l.pointer = none) (hp : l.place t = some .leaving) :
      Moves t l (l.goto t none)
  | give {h : ℕ} (hpointer : l.pointer = some h) (hheld : l.holders[h]? = some (some t))
      (hp : l.place t = some .giving) :
      Moves t l ({ l with holders := l.holders.set h none }.goto t none)
  | giveFree {h : ℕ} (hpointer : l.pointer = some h) (hfree : ∀ u, l.holders[h]? ≠ some (some u))
      (hp : l.place t = some .giving) : Moves t l (l.goto t none)

/-- If the party is about to find null, no other one is past its test. -/
def Alone (l : LazyLock τ) (t : τ) : Prop :=
  l.pointer = none → l.place t = none → ∀ u, l.place u = none

/-! ### What the lock is for -/

/-- From the take to the give. -/
def Place.Inside : Place → Prop
  | .busy | .leaving | .giving => True
  | _ => False

/-- One party at a time is inside, there is one lock at most, and a party that gives holds what
it gives. -/
structure Exclusive (l : LazyLock τ) : Prop where
  inside : ∀ t u p q, l.place t = some p → l.place u = some q → p.Inside → q.Inside → t = u
  created : l.holders.length ≤ 1
  installed : ∀ h, l.pointer = some h → h = 0
  gives : ∀ t, l.place t = some .giving →
    ∃ h, l.pointer = some h ∧ l.holders[h]? = some (some t)

/-! ### The invariant -/

/-- What the only party past its test has created so far. -/
def Creates (holders : List (Option τ)) : Place → Prop
  | .creating | .storing none | .checking | .busy | .leaving => holders = []
  | .storing (some h) => h = 0 ∧ holders = [none]
  | .entering | .taking _ | .giving => False

/-- Where a party can be, with the lock held by `holder`. -/
def Uses (holder : Option τ) (t : τ) : Option Place → Prop
  | none | some .checking | some .entering => holder ≠ some t
  | some (.taking h) => h = 0 ∧ holder ≠ some t
  | some .busy | some .leaving | some .giving => holder = some t
  | some .creating | some (.storing _) => False

/-- The two phases: before the lock is installed, and after. -/
inductive Ordered (l : LazyLock τ) : Prop
  | before (hpointer : l.pointer = none) (hidle : (∀ t, l.place t = none) → l.holders = [])
      (halone : ∀ t p, l.place t = some p → Creates l.holders p ∧
        ∀ u, u ≠ t → l.place u = none)
  | after {holder : Option τ} (hpointer : l.pointer = some 0) (hholders : l.holders = [holder])
      (huses : ∀ t, Uses holder t (l.place t))

omit [DecidableEq τ] in
theorem ordered_init : (init : LazyLock τ).Ordered :=
  .before rfl (fun _ => rfl) fun _ _ hp => nomatch hp

section Phases

variable {holders : List (Option τ)} {holder holder' : Option τ} {p : Option Place} {q : Place}

omit [DecidableEq τ]

theorem Creates.length_le (h : Creates holders q) : holders.length ≤ 1 := by
  cases q with
  | storing n =>
      cases n with
      | none => exact (congrArg List.length (show holders = [] from h)).trans_le (by simp)
      | some n => exact (congrArg List.length h.2).le
  | creating | checking | busy | leaving =>
      exact (congrArg List.length (show holders = [] from h)).trans_le (by simp)
  | entering | taking | giving => cases h

theorem Uses.holder_eq (h : Uses holder t (some q)) (hq : q.Inside) : holder = some t := by
  cases q with
  | busy | leaving | giving => exact h
  | creating | storing | checking | entering | taking => cases hq

/-- A party that does not hold the lock does not mind who else does. -/
theorem Uses.change (h : Uses holder t p) (hne : holder ≠ some t) (hne' : holder' ≠ some t) :
    Uses holder' t p := by
  cases p with
  | none => exact hne'
  | some q =>
      cases q with
      | checking | entering => exact hne'
      | taking n => exact ⟨h.1, hne'⟩
      | busy | leaving | giving => exact absurd h hne
      | creating | storing => exact h

theorem Ordered.exclusive (h : l.Ordered) : l.Exclusive := by
  cases h with
  | before hpointer hidle halone =>
      refine ⟨fun t u p q hp hq _ _ => ?_, ?_, fun h hh => ?_, fun t hp => ?_⟩
      · by_contra hne
        have hnone := (halone t p hp).2 u (Ne.symm hne)
        rw [hnone] at hq
        cases hq
      · by_cases hsome : ∃ t p, l.place t = some p
        · obtain ⟨t, p, hp⟩ := hsome
          exact (halone t p hp).1.length_le
        · rw [hidle fun t => Option.eq_none_iff_forall_ne_some.mpr fun p hp => hsome ⟨t, p, hp⟩]
          exact Nat.zero_le _
      · rw [hpointer] at hh
        cases hh
      · exact (halone t _ hp).1.elim
  | after hpointer hholders huses =>
      refine ⟨fun t u p q hp hq hin hin' => ?_, ?_, fun h hh => ?_, fun t hp => ?_⟩
      · have ht := huses t
        have hu := huses u
        rw [hp] at ht
        rw [hq] at hu
        exact Option.some.inj ((ht.holder_eq hin).symm.trans (hu.holder_eq hin'))
      · rw [hholders]
        exact le_rfl
      · exact Option.some.inj (hh.symm.trans hpointer)
      · have ht := huses t
        rw [hp] at ht
        refine ⟨0, hpointer, ?_⟩
        rw [hholders, ht.holder_eq trivial]
        rfl

end Phases

/-! ### Steps -/

section Steps

variable {holders : List (Option τ)} {place : τ → Option Place} {holder : Option τ} {q : Place}
  {p : Option Place}

/-- In the first phase the party goes on, and the others have not tested. -/
theorem ordered_creates (hothers : ∀ u, u ≠ t → place u = none) (hcreates : Creates holders q) :
    (LazyLock.mk none holders (Function.update place t (some q))).Ordered := by
  refine .before rfl (fun hall => ?_) fun u p hp => ?_
  · have ht := hall t
    simp only [Function.update_self] at ht
    cases ht
  · by_cases hu : u = t
    · subst hu
      simp only [Function.update_self, Option.some.injEq] at hp
      subst hp
      refine ⟨hcreates, fun v hv => ?_⟩
      simp only [Function.update_of_ne hv]
      exact hothers v hv
    · simp only [Function.update_of_ne hu, hothers u hu] at hp
      cases hp

/-- The party is back in front of its test, and no lock is created. -/
theorem ordered_returns (hothers : ∀ u, u ≠ t → place u = none) :
    (LazyLock.mk none [] (Function.update place t none)).Ordered := by
  refine .before rfl (fun _ => rfl) fun u p hp => ?_
  by_cases hu : u = t
  · subst hu
    simp only [Function.update_self] at hp
    cases hp
  · simp only [Function.update_of_ne hu, hothers u hu] at hp
    cases hp

/-- In the second phase the party goes on, and the lock changes hands or not. -/
theorem ordered_uses (huses : Uses holder t p) (hothers : ∀ u, u ≠ t → Uses holder u (place u)) :
    (LazyLock.mk (some 0) [holder] (Function.update place t p)).Ordered := by
  refine .after rfl rfl fun u => ?_
  by_cases hu : u = t
  · subst hu
    simp only [Function.update_self]
    exact huses
  · simp only [Function.update_of_ne hu]
    exact hothers u hu

end Steps

/-- A step of a party whose test is made alone. -/
theorem Ordered.moves (h : l.Ordered) (halone : l.Alone t) (hm : Moves t l l') : l'.Ordered := by
  obtain ⟨pointer, holders, place⟩ := l
  cases h with
  | before hpointer hidle hfirst =>
      obtain rfl : pointer = none := hpointer
      have hothers {q : Place} (hp : place t = some q) := (hfirst t q hp).2
      have hcreates {q : Place} (hp : place t = some q) := (hfirst t q hp).1
      cases hm with
      | testNull _ hp =>
          have hnone := halone rfl hp
          exact ordered_creates (fun u _ => hnone u) (hidle hnone)
      | test hset | check hset | leave hset => exact absurd rfl hset
      | createFails hp =>
          have hnil : holders = [] := hcreates hp
          exact ordered_creates (hothers hp) hnil
      | create hp =>
          obtain rfl : holders = [] := hcreates hp
          exact ordered_creates (hothers hp) ⟨rfl, rfl⟩
      | @store h hp =>
          cases h with
          | none =>
              have hnil : holders = [] := hcreates hp
              exact ordered_creates (hothers hp) hnil
          | some h =>
              obtain ⟨rfl, rfl⟩ : h = 0 ∧ holders = [none] := hcreates hp
              refine ordered_uses (fun he => nomatch he) fun u hu => ?_
              rw [hothers hp u hu]
              exact fun he => nomatch he
      | checkNull _ hp | finish hp =>
          have hnil : holders = [] := hcreates hp
          exact ordered_creates (hothers hp) hnil
      | enter _ hp | take _ hp | give _ _ hp | giveFree _ _ hp => exact (hcreates hp).elim
      | leaveNull _ hp =>
          obtain rfl : holders = [] := hcreates hp
          exact ordered_returns (hothers hp)
  | @after holder hpointer hholders huses =>
      obtain rfl : pointer = some 0 := hpointer
      obtain rfl : holders = [holder] := hholders
      have ht : Uses holder t (place t) := huses t
      have hstays {p : Option Place} (hp : Uses holder t p) :
          (LazyLock.mk (some 0) [holder] (Function.update place t p)).Ordered :=
        ordered_uses hp fun u _ => huses u
      cases hm with
      | testNull hnull | checkNull hnull | leaveNull hnull => cases hnull
      | createFails hp | create hp | store hp =>
          rw [show place t = _ from hp] at ht
          cases ht
      | test _ hp | check _ hp | finish hp | leave _ hp =>
          rw [show place t = _ from hp] at ht
          exact hstays ht
      | enter hset hp =>
          rw [show place t = _ from hp] at ht
          exact hstays ⟨(Option.some.inj hset).symm, ht⟩
      | take hfree hp =>
          rw [show place t = _ from hp] at ht
          obtain ⟨rfl, -⟩ := ht
          obtain rfl : holder = none := Option.some.inj hfree
          refine ordered_uses rfl fun u hu => (huses u).change (fun he => nomatch he) fun he => ?_
          exact hu (Option.some.inj he).symm
      | give hset hheld hp =>
          obtain rfl := Option.some.inj hset
          rw [show place t = _ from hp] at ht
          obtain rfl : holder = some t := ht
          refine ordered_uses (fun he => nomatch he) fun u hu =>
            (huses u).change (fun he => ?_) fun he => nomatch he
          exact hu (Option.some.inj he).symm
      | giveFree hset hfree hp =>
          obtain rfl := Option.some.inj hset
          rw [show place t = _ from hp] at ht
          obtain rfl : holder = some t := ht
          exact absurd rfl (hfree t)

/-- The second phase does not end, whatever the parties do. -/
theorem Ordered.pointer_moves (h : l.Ordered) (hset : l.pointer ≠ none) (hm : Moves t l l') :
    l'.pointer ≠ none := by
  cases h with
  | before hpointer => exact absurd hpointer hset
  | after _ _ huses =>
      cases hm with
      | store hp =>
          have ht := huses t
          rw [hp] at ht
          cases ht
      | _ => exact hset

end LazyLock

end PeripheralTester.Lib
