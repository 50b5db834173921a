import PeripheralTester.Lib.Reorder
import PeripheralTester.Server.ResultTable

/-! # Reordering the calls on the result table

Main inserts and the writer updates, and how the two threads take turns is up to the scheduler.
Calls on different tests commute up to the order of the rows (`commutes_of_ne`), so two orders in
which no update comes before the insert of its own test leave the same rows
(**`reordering_harmless`**), and the summary is the same to its last line (`reordered_summary`).
-/

namespace PeripheralTester.Server

open Lib

variable {db db₁ db₂ : Database} {a b : DatabaseCall} {calls calls₁ calls₂ : List DatabaseCall}

/-! ### The test of a call -/

/-- The test a call inserts. -/
def DatabaseCall.insertedId : DatabaseCall → Option UInt32
  | .insertCommand (some c) _ _ => some c.testId
  | _ => none

/-- The test a call updates. -/
def DatabaseCall.updatedId : DatabaseCall → Option UInt32
  | .updateResponse (some r) _ => some r.response.testId
  | _ => none

/-- The two calls are about one test. -/
def SameTest (a b : DatabaseCall) : Prop :=
  ∃ k, (a.insertedId = some k ∨ a.updatedId = some k) ∧
    (b.insertedId = some k ∨ b.updatedId = some k)

/-- The first call inserts the test that the second updates. -/
def InsertsFor (a b : DatabaseCall) : Prop := ∃ k ∈ a.insertedId, b.updatedId = some k

instance : Decidable (InsertsFor a b) :=
  inferInstanceAs (Decidable (∃ k ∈ a.insertedId, b.updatedId = some k))

/-! ### Effects -/

/-- What a call does to the rows of an open table. -/
def DatabaseCall.effect : DatabaseCall → List Row → List Row
  | .insertCommand (some c) now .runs => insertNew Row.testId (Row.ofCommand c now)
  | .updateResponse (some r) .runs => modify Row.testId r.response.testId (·.record r)
  | _ => id

/-- The table after a call. -/
def DatabaseCall.after (db : Database) (call : DatabaseCall) : Database := (call.run db).2

theorem after_of_open (hopen : db.isOpen = true) (call : DatabaseCall) :
    call.after db = { db with rows := call.effect db.rows } := by
  obtain ⟨isOpen, rows⟩ := db
  obtain rfl : isOpen = true := hopen
  cases call with
  | insertCommand command now answer =>
      cases command with
      | none => rfl
      | some c =>
          cases answer with
          | prepareFails | stepFails =>
              simp [DatabaseCall.after, DatabaseCall.run, resultDatabaseInsertCommand,
                DatabaseCall.effect]
          | runs =>
              simp only [DatabaseCall.after, DatabaseCall.run, resultDatabaseInsertCommand,
                DatabaseCall.effect, insertNew]
              by_cases htaken : ∃ row ∈ rows, row.testId = c.testId
              · simp [htaken, Row.ofCommand]
              · simp [htaken, Row.ofCommand]
  | updateResponse record answer =>
      cases record with
      | none => rfl
      | some r =>
          cases answer <;>
            simp [DatabaseCall.after, DatabaseCall.run, resultDatabaseUpdateResponse,
              DatabaseCall.effect, updateRows_eq_modify]

theorem after_of_closed (hclosed : db.isOpen = false) (call : DatabaseCall) :
    call.after db = db := by
  cases call with
  | insertCommand command now answer =>
      cases command <;>
        simp [DatabaseCall.after, DatabaseCall.run, resultDatabaseInsertCommand, hclosed]
  | updateResponse record answer =>
      cases record <;>
        simp [DatabaseCall.after, DatabaseCall.run, resultDatabaseUpdateResponse, hclosed]

/-- A run of calls, as the fold of their effects. -/
theorem run_iff_foldl :
    Run databaseStep db calls db₁ ↔ db₁ = calls.foldl DatabaseCall.after db := by
  induction calls generalizing db with
  | nil =>
      constructor
      · rintro ⟨⟩
        rfl
      · rintro rfl
        exact .refl _
  | cons call calls ih =>
      rw [List.foldl_cons, ← ih]
      constructor
      · rintro ⟨⟩
        rename_i hs hrun
        obtain rfl := Option.some.inj hs
        exact hrun
      · exact fun hrun => .step rfl hrun

/-- Nothing, a row under the constraint, or a change to the rows of one test. -/
theorem effect_cases (call : DatabaseCall) :
    call.effect = id ∨
      (∃ row, call.insertedId = some row.testId ∧ call.effect = insertNew Row.testId row) ∨
      ∃ r : ResponseRecord, call.updatedId = some r.response.testId ∧
        call.effect = modify Row.testId r.response.testId (·.record r) := by
  cases call with
  | insertCommand command now answer =>
      cases command with
      | none => exact .inl rfl
      | some c =>
          cases answer with
          | prepareFails | stepFails => exact .inl rfl
          | runs => exact .inr (.inl ⟨Row.ofCommand c now, rfl, rfl⟩)
  | updateResponse record answer =>
      cases record with
      | none => exact .inl rfl
      | some r =>
          cases answer with
          | prepareFails | stepFails => exact .inl rfl
          | runs => exact .inr (.inr ⟨r, rfl, rfl⟩)

theorem effect_perm {rows₁ rows₂ : List Row} (h : rows₁.Perm rows₂) (call : DatabaseCall) :
    (call.effect rows₁).Perm (call.effect rows₂) := by
  rcases effect_cases call with he | ⟨row, _, he⟩ | ⟨r, _, he⟩ <;> rw [he]
  · exact h
  · exact Perm.insertNew h
  · exact h.map _

theorem testId_record (r : ResponseRecord) (row : Row) (h : row.testId = r.response.testId) :
    (row.record r).testId = r.response.testId := h

/-- The effects of calls on different tests commute. -/
theorem effect_comm (hne : ¬SameTest a b) (rows : List Row) :
    (b.effect (a.effect rows)).Perm (a.effect (b.effect rows)) := by
  rcases effect_cases a with ha | ⟨row, hida, ha⟩ | ⟨r, hida, ha⟩ <;>
    rcases effect_cases b with hb | ⟨row', hidb, hb⟩ | ⟨r', hidb, hb⟩ <;> rw [ha, hb]
  case inr.inl.inr.inl =>
    have hids : row'.testId ≠ row.testId := fun he => hne ⟨_, .inl hida, .inl (by rw [hidb, he])⟩
    exact insertNew_comm hids
  case inr.inl.inr.inr =>
    have hids : row.testId ≠ r'.response.testId := fun he =>
      hne ⟨_, .inl hida, .inr (by rw [hidb, he])⟩
    rw [insertNew_modify hids (testId_record r')]
  case inr.inr.inr.inl =>
    have hids : row'.testId ≠ r.response.testId := fun he =>
      hne ⟨_, .inr hida, .inl (by rw [hidb, he])⟩
    rw [insertNew_modify hids (testId_record r)]
  case inr.inr.inr.inr =>
    have hids : r.response.testId ≠ r'.response.testId := fun he =>
      hne ⟨_, .inr hida, .inr (by rw [hidb, he])⟩
    rw [modify_comm hids (testId_record r) (testId_record r')]
  all_goals exact .refl _

/-! ### Tables up to the order of their rows -/

/-- The same handle on the same rows. -/
structure SameTable (db₁ db₂ : Database) : Prop where
  isOpen : db₁.isOpen = db₂.isOpen
  rows : db₁.rows.Perm db₂.rows

theorem respects_after : Respects DatabaseCall.after SameTable where
  equivalence :=
    { refl := fun _ => ⟨rfl, .refl _⟩
      symm := fun h => ⟨h.isOpen.symm, h.rows.symm⟩
      trans := fun h₁ h₂ => ⟨h₁.isOpen.trans h₂.isOpen, h₁.rows.trans h₂.rows⟩ }
  congr := by
    intro db₁ db₂ call h
    cases hopen : db₁.isOpen with
    | false =>
        rw [after_of_closed hopen, after_of_closed (h.isOpen ▸ hopen)]
        exact h
    | true =>
        rw [after_of_open hopen, after_of_open (h.isOpen ▸ hopen)]
        exact ⟨h.isOpen, effect_perm h.rows call⟩

theorem commutes_of_ne (hne : ¬SameTest a b) : Commutes DatabaseCall.after SameTable a b := by
  intro db
  cases hopen : db.isOpen with
  | false =>
      simp only [after_of_closed hopen]
      exact ⟨rfl, .refl _⟩
  | true =>
      have hopen' (rows : List Row) : (Database.mk db.isOpen rows).isOpen = true := hopen
      rw [after_of_open hopen a, after_of_open hopen b, after_of_open (hopen' _),
        after_of_open (hopen' _)]
      exact ⟨rfl, effect_comm hne db.rows⟩

/-! ### Orders of a collection of calls -/

/-- A collection of inserts and responses: no test is inserted twice, and none has two
responses. -/
structure OneEach (calls : List DatabaseCall) : Prop where
  inserts : (calls.filterMap DatabaseCall.insertedId).Nodup
  updates : (calls.filterMap DatabaseCall.updatedId).Nodup

/-- Of two members that agree on an identifier that occurs once, there is one. -/
theorem eq_of_filterMap_nodup {f : DatabaseCall → Option UInt32} {k : UInt32}
    (h : (calls.filterMap f).Nodup) (ha : a ∈ calls) (hb : b ∈ calls) (hak : f a = some k)
    (hbk : f b = some k) : a = b := by
  induction calls with
  | nil => cases ha
  | cons c calls ih =>
      have hmem : ∀ x ∈ calls, f x = some k → f c ≠ some k := by
        intro x hx hxk hck
        rw [List.filterMap_cons_some hck, List.nodup_cons] at h
        exact h.1 (List.mem_filterMap.mpr ⟨x, hx, hxk⟩)
      have htail : (calls.filterMap f).Nodup := by
        cases hc : f c with
        | none => rwa [List.filterMap_cons_none hc] at h
        | some j =>
            rw [List.filterMap_cons_some hc, List.nodup_cons] at h
            exact h.2
      rcases List.mem_cons.mp ha with rfl | ha' <;> rcases List.mem_cons.mp hb with rfl | hb'
      · rfl
      · exact absurd hak (hmem b hb' hbk)
      · exact absurd hbk (hmem a ha' hak)
      · exact ih htail ha' hb'

/-- Two members about one test are the insert and the response of that test. -/
theorem OneEach.insertsFor (h : OneEach calls) (ha : a ∈ calls) (hb : b ∈ calls) (hne : a ≠ b)
    (hsame : SameTest a b) : InsertsFor a b ∨ InsertsFor b a := by
  obtain ⟨k, hka | hka, hkb | hkb⟩ := hsame
  · exact absurd (eq_of_filterMap_nodup h.inserts ha hb hka hkb) hne
  · exact .inl ⟨k, hka, hkb⟩
  · exact .inr ⟨k, hkb, hka⟩
  · exact absurd (eq_of_filterMap_nodup h.updates ha hb hka hkb) hne

/-- The four counts of the summary. -/
def Summary.counts (sum : Summary) : ℕ × ℕ × ℕ × ℕ :=
  (sum.total, sum.passed, sum.failed, sum.pending)

theorem SameTable.counts (h : SameTable db₁ db₂) :
    (resultDatabasePrintSummary db₁).map Summary.counts =
      (resultDatabasePrintSummary db₂).map Summary.counts := by
  have hcount (st : TestStatus) : countStatus db₁.rows st = countStatus db₂.rows st :=
    h.rows.countP_eq _
  unfold resultDatabasePrintSummary
  rw [h.isOpen]
  cases db₂.isOpen with
  | false => rfl
  | true => simp [Summary.counts, hcount, h.rows.length_eq]

/-- Two orders of a collection leave tables that differ in the order of their rows only. -/
theorem sameTable_of_perm (db : Database) (hsame : calls₁.Perm calls₂) (hone : OneEach calls₁)
    (h₁ : Keeps InsertsFor calls₁) (h₂ : Keeps InsertsFor calls₂)
    (hrun₁ : Run databaseStep db calls₁ db₁) (hrun₂ : Run databaseStep db calls₂ db₂) :
    SameTable db₁ db₂ := by
  have hswaps : Swaps (Commutes DatabaseCall.after SameTable) calls₂ calls₁ := by
    refine Swaps.of_perm hsame h₁ h₂ fun a ha b hb hne hab hba => commutes_of_ne fun hid => ?_
    exact (hone.insertsFor ha hb hne hid).elim hab hba
  obtain rfl := run_iff_foldl.mp hrun₁
  obtain rfl := run_iff_foldl.mp hrun₂
  exact respects_after.equivalence.symm (respects_after.foldl_swaps hswaps db)

/-- **The order of the calls on different tests makes no difference**: whatever the table held,
two orders of a collection in which each response comes after the insert of its own test leave
the same rows and the same counts. -/
theorem reordering_harmless (db : Database) (hsame : calls₁.Perm calls₂) (hone : OneEach calls₁)
    (h₁ : Keeps InsertsFor calls₁) (h₂ : Keeps InsertsFor calls₂)
    (hrun₁ : Run databaseStep db calls₁ db₁) (hrun₂ : Run databaseStep db calls₂ db₂) :
    db₁.rows.Perm db₂.rows ∧
      (resultDatabasePrintSummary db₁).map Summary.counts =
        (resultDatabasePrintSummary db₂).map Summary.counts := by
  have htable := sameTable_of_perm db hsame hone h₁ h₂ hrun₁ hrun₂
  exact ⟨htable.rows, htable.counts⟩

/-- The timer's and the UART's test, one after the other. -/
def inTurn : List DatabaseCall :=
  [.insertCommand (some ⟨1, 1, 10, 0, .replicate 255 0⟩) 100 .runs,
    .updateResponse (some ⟨⟨1, 1⟩, 101⟩) .runs,
    .insertCommand (some ⟨2, 2, 10, 50, .replicate 255 0⟩) 102 .runs,
    .updateResponse (some ⟨⟨2, 0xFF⟩, 103⟩) .runs]

/-- The same calls, with both tests under way at a time. -/
def overlapping : List DatabaseCall :=
  [.insertCommand (some ⟨2, 2, 10, 50, .replicate 255 0⟩) 102 .runs,
    .insertCommand (some ⟨1, 1, 10, 0, .replicate 255 0⟩) 100 .runs,
    .updateResponse (some ⟨⟨2, 0xFF⟩, 103⟩) .runs,
    .updateResponse (some ⟨⟨1, 1⟩, 101⟩) .runs]

theorem inTurn_perm_overlapping : inTurn.Perm overlapping :=
  ((List.Perm.swap _ _ _).cons _).trans
    ((List.Perm.swap _ _ _).trans (((List.Perm.swap _ _ _).cons _).cons _))

theorem reordering_harmless_overlapping :
    (inTurn.foldl DatabaseCall.after ⟨true, []⟩).rows.Perm
        (overlapping.foldl DatabaseCall.after ⟨true, []⟩).rows ∧
      (resultDatabasePrintSummary (inTurn.foldl DatabaseCall.after ⟨true, []⟩)).map
          Summary.counts =
        (resultDatabasePrintSummary (overlapping.foldl DatabaseCall.after ⟨true, []⟩)).map
          Summary.counts :=
  reordering_harmless ⟨true, []⟩ inTurn_perm_overlapping ⟨by decide, by decide⟩ (by decide)
    (by decide) (run_iff_foldl.mpr rfl) (run_iff_foldl.mpr rfl)

/-! ### The whole summary -/

/-- The tests a summary lists do not depend on the order of the rows. -/
theorem firstTests_perm {rows₁ rows₂ : List Row} (h : rows₁.Perm rows₂)
    (hkeyed : Keyed Row.testId rows₁) (st : TestStatus) :
    firstTests rows₁ st = firstTests rows₂ st := by
  have hsorted (rows : List Row) : ((rows.filter (·.status = st)).mergeSort
      (·.testId ≤ ·.testId)).Pairwise fun x y => x.testId ≤ y.testId := by
    refine (List.pairwise_mergeSort (fun x y z hxy hyz => ?_) (fun x y => ?_) _).imp
      fun hle => of_decide_eq_true hle
    · simp only [decide_eq_true_eq] at hxy hyz ⊢
      exact UInt32.le_trans hxy hyz
    · simp only [Bool.or_eq_true, decide_eq_true_eq]
      exact UInt32.le_total _ _
  have hperm : ((rows₁.filter (·.status = st)).mergeSort (·.testId ≤ ·.testId)).Perm
      ((rows₂.filter (·.status = st)).mergeSort (·.testId ≤ ·.testId)) :=
    ((List.mergeSort_perm _ _).trans (h.filter _)).trans (List.mergeSort_perm _ _).symm
  have hmem {row : Row} (hrow : row ∈ (rows₁.filter (·.status = st)).mergeSort
      (·.testId ≤ ·.testId)) : row ∈ rows₁ :=
    List.mem_of_mem_filter ((List.mergeSort_perm _ _).subset hrow)
  unfold firstTests
  rw [List.Perm.eq_of_pairwise ?_ (hsorted rows₁) (hsorted rows₂) hperm]
  intro x y hx hy hxy hyx
  exact hkeyed.eq_of_key_eq (hmem hx) (hmem (hperm.symm.subset hy)) (UInt32.le_antisymm hxy hyx)

/-- On a table opened by the server the two orders print the same summary. -/
theorem reordered_summary (file : Database) (hsame : calls₁.Perm calls₂) (hone : OneEach calls₁)
    (h₁ : Keeps InsertsFor calls₁) (h₂ : Keeps InsertsFor calls₂)
    (hrun₁ : Run databaseStep file.opened calls₁ db₁)
    (hrun₂ : Run databaseStep file.opened calls₂ db₂) :
    resultDatabasePrintSummary db₁ = resultDatabasePrintSummary db₂ := by
  have htable := sameTable_of_perm file.opened hsame hone h₁ h₂ hrun₁ hrun₂
  have hkeyed : Keyed Row.testId db₁.rows :=
    (hrun₁.preserves (fun _ _ _ hi hs => consistent_databaseStep hi hs)
      (consistent_opened file)).keyed
  have hcount (st : TestStatus) : countStatus db₁.rows st = countStatus db₂.rows st :=
    htable.rows.countP_eq _
  unfold resultDatabasePrintSummary
  rw [htable.isOpen, htable.rows.length_eq]
  simp only [hcount, firstTests_perm htable.rows hkeyed]

end PeripheralTester.Server
