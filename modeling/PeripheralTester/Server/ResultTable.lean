import PeripheralTester.Lib.KeyedTable
import PeripheralTester.Lib.Run
import PeripheralTester.Server.ResultDatabase

/-! # The result table over a run of calls

The server calls `result_database_insert_command` and `result_database_update_response` in
whatever order its threads reach them.  `Consistent` is what holds of the table after any such
sequence: the test identifiers are distinct, and the three columns an update writes tell the
same story (`Row.Consistent`).  `Row.Follows` says how a row may change, and
**`resultTable_consistent`** puts both together with the summary, whose query has string literals
of its own.

Seen as a map from identifiers to rows, the table is changed by a call at one point
(`lookup_insertCommand`, `lookup_updateResponse`). -/

namespace PeripheralTester.Server

open Lib

/-- A call that writes to the table. -/
inductive DatabaseCall where
  | insertCommand (command : Option Command) (now : ℤ) (answer : SqliteAnswer)
  | updateResponse (record : Option ResponseRecord) (answer : SqliteAnswer)
deriving DecidableEq, Repr

/-- What the call returns and leaves. -/
def DatabaseCall.run (db : Database) : DatabaseCall → ResultDatabaseStatus × Database
  | .insertCommand command now answer => resultDatabaseInsertCommand db command now answer
  | .updateResponse record answer => resultDatabaseUpdateResponse db record answer

/-- A call is always possible. -/
def databaseStep (db : Database) (call : DatabaseCall) : Option Database :=
  some (call.run db).2

/-- What a call can do: nothing, append a pending row for a new identifier, or record a response
in the rows of its identifier. -/
inductive TableMoved (db : Database) : Database → Prop
  | nothing : TableMoved db db
  | insert (c : Command) (now : ℤ) :
      (∀ row ∈ db.rows, row.testId ≠ c.testId) →
        TableMoved db { db with rows := db.rows ++ [Row.ofCommand c now] }
  | update (r : ResponseRecord) : TableMoved db { db with rows := updateRows db.rows r }

theorem databaseStep_cases {db db' : Database} {call : DatabaseCall}
    (h : databaseStep db call = some db') : TableMoved db db' := by
  obtain rfl := Option.some.inj h
  cases call with
  | insertCommand command now answer =>
      cases command with
      | none => exact .nothing
      | some c =>
          rcases insert_cases db c now answer with heq | ⟨_, _, hnew, heq⟩
          · simpa only [DatabaseCall.run, heq] using TableMoved.nothing
          · simpa only [DatabaseCall.run, heq] using TableMoved.insert c now hnew
  | updateResponse record answer =>
      cases record with
      | none => exact .nothing
      | some r =>
          rcases update_cases db r answer with heq | ⟨_, _, heq⟩
          · simpa only [DatabaseCall.run, heq] using TableMoved.nothing
          · simpa only [DatabaseCall.run, heq] using TableMoved.update r

theorem updateRows_eq_modify (rows : List Row) (r : ResponseRecord) :
    updateRows rows r = modify Row.testId r.response.testId (·.record r) rows := rfl

/-! ### The table as a map -/

/-- An insert that succeeds binds a new identifier, and no other. -/
theorem lookup_insertCommand {db db' : Database} {c : Command} {now : ℤ} {answer : SqliteAnswer}
    (h : resultDatabaseInsertCommand db (some c) now answer = (.ok, db')) :
    lookup Row.testId db'.rows =
      Function.update (lookup Row.testId db.rows) c.testId (some (Row.ofCommand c now)) := by
  rcases insert_cases db c now answer with heq | ⟨_, _, hnew, heq⟩
  · rw [heq] at h
    cases h
  · rw [heq] at h
    cases h
    exact lookup_append hnew

/-- An update that succeeds records the response at its identifier, and nowhere else. -/
theorem lookup_updateResponse {db db' : Database} {r : ResponseRecord} {answer : SqliteAnswer}
    (h : resultDatabaseUpdateResponse db (some r) answer = (.ok, db')) :
    lookup Row.testId db'.rows =
      Function.update (lookup Row.testId db.rows) r.response.testId
        ((lookup Row.testId db.rows r.response.testId).map (·.record r)) := by
  rcases update_cases db r answer with heq | ⟨_, _, heq⟩
  · rw [heq] at h
    cases h
  · rw [heq] at h
    cases h
    rw [updateRows_eq_modify]
    exact lookup_modify fun _ hx => hx

/-- The table as `result_database_open` leaves it. -/
def Database.opened (file : Database) : Database := (resultDatabaseOpen file true true true).2

/-! ### What an update reports -/

/-- The three columns that an update writes stand in the row as the record has them. -/
structure Row.Holds (row : Row) (r : ResponseRecord) : Prop where
  receivedTime : row.receivedTime = some r.receivedTime
  result : row.result = some r.response.result
  status : row.status = statusOf r.response.result

theorem Row.holds_record (row : Row) (r : ResponseRecord) : (row.record r).Holds r :=
  ⟨rfl, rfl, rfl⟩

/-- The table has a row with the identifier of the record. -/
def Database.Has (db : Database) (r : ResponseRecord) : Prop :=
  ∃ row, lookup Row.testId db.rows r.response.testId = some row

/-- And that row holds the record. -/
def Database.Records (db : Database) (r : ResponseRecord) : Prop :=
  ∃ row, lookup Row.testId db.rows r.response.testId = some row ∧ row.Holds r

/-- What the writer thread is told by the return value of `result_database_update_response`: the
result is recorded, or nothing has changed. -/
structure ReportsUpdate (db : Database) (r : ResponseRecord) (answer : SqliteAnswer) : Prop where
  ok : (resultDatabaseUpdateResponse db (some r) answer).1 = .ok ↔
    db.Has r ∧ (resultDatabaseUpdateResponse db (some r) answer).2.Records r
  fail : (resultDatabaseUpdateResponse db (some r) answer).1 ≠ .ok →
    resultDatabaseUpdateResponse db (some r) answer = (.fail, db)

/-- Where the statement runs to its end. -/
def Database.Serves (db : Database) (answer : SqliteAnswer) : Prop :=
  db.isOpen = true ∧ answer = .runs

theorem update_of_serves {db : Database} {answer : SqliteAnswer} (h : db.Serves answer)
    (r : ResponseRecord) : resultDatabaseUpdateResponse db (some r) answer =
      (.ok, { db with rows := updateRows db.rows r }) := by
  obtain ⟨hopen, rfl⟩ := h
  simp [resultDatabaseUpdateResponse, hopen]

theorem update_of_not_serves {db : Database} {answer : SqliteAnswer} (h : ¬db.Serves answer)
    (r : ResponseRecord) : resultDatabaseUpdateResponse db (some r) answer = (.fail, db) := by
  rcases update_cases db r answer with heq | ⟨hopen, hruns, _⟩
  · exact heq
  · exact absurd ⟨hopen, hruns⟩ h

/-- An update that runs records the response if there is a row for it. -/
theorem records_of_serves {db : Database} {answer : SqliteAnswer} (h : db.Serves answer)
    {r : ResponseRecord} (hrow : db.Has r) :
    (resultDatabaseUpdateResponse db (some r) answer).2.Records r := by
  obtain ⟨row, hrow⟩ := hrow
  refine ⟨row.record r, ?_, row.holds_record r⟩
  rw [lookup_updateResponse (Prod.ext (by rw [update_of_serves h]) rfl), Function.update_self,
    hrow, Option.map_some]

/-- **When the return value of an update is right**: if the statement runs, there must be a row
for it to change; if it does not run, the record must not stand in the table already. -/
theorem update_reports_iff (db : Database) (r : ResponseRecord) (answer : SqliteAnswer) :
    ReportsUpdate db r answer ↔
      (db.Serves answer → db.Has r) ∧ (¬db.Serves answer → ¬db.Records r) := by
  by_cases hserves : db.Serves answer
  · have hok := congrArg Prod.fst (update_of_serves hserves r)
    constructor
    · intro hreports
      exact ⟨fun _ => (hreports.ok.mp hok).1, fun hnot => absurd hserves hnot⟩
    · rintro ⟨hhas, _⟩
      exact ⟨iff_of_true hok ⟨hhas hserves, records_of_serves hserves (hhas hserves)⟩,
        fun hne => absurd hok hne⟩
  · have heq := update_of_not_serves hserves r
    constructor
    · intro hreports
      refine ⟨fun h => absurd h hserves, fun _ hrecords => ?_⟩
      have hok := hreports.ok.mpr ⟨⟨_, hrecords.choose_spec.1⟩, by rw [heq]; exact hrecords⟩
      rw [heq] at hok
      cases hok
    · rintro ⟨_, hnot⟩
      refine ⟨⟨fun hok => ?_, fun hrecords => ?_⟩, fun _ => heq⟩
      · rw [heq] at hok
        cases hok
      · rw [heq] at hrecords
        exact absurd hrecords.2 (hnot hserves)

/-- A response for a test that is not in the table: the answer is `ok`. -/
theorem unmatched_update_reports_ok :
    ¬ ∀ (db : Database) (r : ResponseRecord) (answer : SqliteAnswer),
      ReportsUpdate db r answer := by
  intro hall
  obtain ⟨⟨row, hrow⟩, _⟩ := (hall (Database.opened ⟨false, []⟩) ⟨⟨7, 1⟩, 100⟩ .runs).ok.mp rfl
  cases hrow

/-! ### The invariant -/

/-- The columns `status`, `result` and `received_time` agree. -/
def Row.Consistent (row : Row) : Prop :=
  match row.status with
  | .pending => row.result = none ∧ row.receivedTime = none
  | .passed => row.result = some appProtocolTestSuccess ∧ row.receivedTime ≠ none
  | .failed =>
      (∃ result, row.result = some result ∧ result ≠ appProtocolTestSuccess) ∧
        row.receivedTime ≠ none

theorem consistent_ofCommand (c : Command) (now : ℤ) : (Row.ofCommand c now).Consistent :=
  ⟨rfl, rfl⟩

theorem consistent_record (row : Row) (r : ResponseRecord) : (row.record r).Consistent := by
  by_cases hr : r.response.result = appProtocolTestSuccess
  · simp [Row.Consistent, Row.record, statusOf, hr]
  · simp [Row.Consistent, Row.record, statusOf, hr]

/-- What holds of the table at any time. -/
structure Consistent (db : Database) : Prop where
  keyed : Keyed Row.testId db.rows
  rows : ∀ row ∈ db.rows, row.Consistent

theorem consistent_databaseStep {db db' : Database} {call : DatabaseCall} (hi : Consistent db)
    (h : databaseStep db call = some db') : Consistent db' := by
  cases databaseStep_cases h with
  | nothing => exact hi
  | insert c now hnew =>
      refine ⟨hi.keyed.append hnew, ?_⟩
      intro row hrow
      rcases List.mem_append.mp hrow with hrow | hrow
      · exact hi.rows row hrow
      · obtain rfl := List.mem_singleton.mp hrow
        exact consistent_ofCommand c now
  | update r =>
      refine ⟨?_, ?_⟩
      · rw [updateRows_eq_modify]
        exact hi.keyed.modify fun _ hx => hx
      · intro row hrow
        rcases mem_updateRows.mp hrow with ⟨hrow, _⟩ | ⟨old, _, _, rfl⟩
        · exact hi.rows row hrow
        · exact consistent_record old r

theorem consistent_opened (file : Database) : Consistent file.opened where
  keyed := keyed_nil
  rows := fun _ hrow => absurd hrow List.not_mem_nil

/-! ### A row over time -/

/-- How a row may change: the columns of the insert stay, and a judged row stays judged. -/
structure Row.Follows (old new : Row) : Prop where
  testId : new.testId = old.testId
  peripheral : new.peripheral = old.peripheral
  iterations : new.iterations = old.iterations
  payloadLen : new.payloadLen = old.payloadLen
  sentTime : new.sentTime = old.sentTime
  judged : old.status ≠ .pending → new.status ≠ .pending

theorem Row.Follows.refl (row : Row) : row.Follows row := ⟨rfl, rfl, rfl, rfl, rfl, id⟩

theorem Row.Follows.trans (a b c : Row) (h₁ : a.Follows b) (h₂ : b.Follows c) : a.Follows c where
  testId := h₂.testId.trans h₁.testId
  peripheral := h₂.peripheral.trans h₁.peripheral
  iterations := h₂.iterations.trans h₁.iterations
  payloadLen := h₂.payloadLen.trans h₁.payloadLen
  sentTime := h₂.sentTime.trans h₁.sentTime
  judged := fun h => h₂.judged (h₁.judged h)

theorem Row.record_status_ne_pending (row : Row) (r : ResponseRecord) :
    (row.record r).status ≠ .pending := by
  unfold Row.record statusOf
  split <;> simp

theorem Row.follows_record (row : Row) (r : ResponseRecord) : row.Follows (row.record r) :=
  ⟨rfl, rfl, rfl, rfl, rfl, fun _ => row.record_status_ne_pending r⟩

theorem continues_databaseStep {db db' : Database} {call : DatabaseCall}
    (h : databaseStep db call = some db') : Continues Row.Follows db.rows db'.rows := by
  cases databaseStep_cases h with
  | nothing => exact .refl Row.Follows.refl _
  | insert c now => exact .append Row.Follows.refl _ _
  | update r =>
      refine .map (fun row => ?_) db.rows
      by_cases hid : row.testId = r.response.testId
      · rw [if_pos hid]
        exact row.follows_record r
      · rw [if_neg hid]
        exact .refl row

/-- Over a run no row is gone, and what is in its place follows it. -/
theorem continues_run {db db' : Database} {calls : List DatabaseCall}
    (h : Run databaseStep db calls db') : Continues Row.Follows db.rows db'.rows := by
  induction h with
  | refl => exact .refl Row.Follows.refl _
  | step hs _ ih => exact (continues_databaseStep hs).trans Row.Follows.trans ih

/-- An update leaves the rows of the other identifiers alone. -/
theorem mem_update_iff_of_ne (db : Database) (r : ResponseRecord) (answer : SqliteAnswer)
    {row : Row} (hne : row.testId ≠ r.response.testId) :
    row ∈ (resultDatabaseUpdateResponse db (some r) answer).2.rows ↔ row ∈ db.rows := by
  rcases update_cases db r answer with heq | ⟨_, _, heq⟩
  · rw [heq]
  · rw [heq, mem_updateRows]
    constructor
    · rintro (⟨hrow, _⟩ | ⟨old, _, he, rfl⟩)
      · exact hrow
      · exact absurd he hne
    · exact fun hrow => .inl ⟨hrow, hne⟩

/-! ### The summary -/

/-- `RESULT_DATABASE_STATUS_PENDING` and its siblings, the texts the two statements bind. -/
def TestStatus.text : TestStatus → String
  | .pending => "PENDING"
  | .passed => "PASSED"
  | .failed => "FAILED"

/-- `SUM(status='...')`. -/
def sumStatus (rows : List Row) (literal : String) : ℕ :=
  rows.countP fun row => row.status.text = literal

/-- The literals of the summary's query are the texts the statements bind. -/
theorem sumStatus_text (rows : List Row) (st : TestStatus) :
    sumStatus rows st.text = countStatus rows st := by
  refine List.countP_congr fun row _ => ?_
  cases row.status <;> cases st <;> decide

theorem length_eq_countStatus (rows : List Row) :
    rows.length =
      countStatus rows .passed + countStatus rows .failed + countStatus rows .pending := by
  induction rows with
  | nil => rfl
  | cons row rows ih =>
      simp only [countStatus, List.countP_cons, List.length_cons] at ih ⊢
      cases row.status <;> simp <;> omega

/-- `sqlite3_column_int` reads the low 32 bits of a count. -/
def sqlite3ColumnInt (count : ℕ) : Int32 := Int32.ofNat count

/-- The four numbers the summary prints. -/
structure Summary.Adds (sum : Summary) : Prop where
  counts : sum.total = sum.passed + sum.failed + sum.pending
  printed : sqlite3ColumnInt sum.total =
    sqlite3ColumnInt sum.passed + sqlite3ColumnInt sum.failed + sqlite3ColumnInt sum.pending

theorem summary_adds {db : Database} (hopen : db.isOpen = true) :
    ∃ sum, resultDatabasePrintSummary db = some sum ∧ sum.Adds ∧
      sum.passed = sumStatus db.rows "PASSED" ∧ sum.failed = sumStatus db.rows "FAILED" ∧
      sum.pending = sumStatus db.rows "PENDING" := by
  have hcounts := length_eq_countStatus db.rows
  refine ⟨_, by simp only [resultDatabasePrintSummary, hopen]; rfl, ⟨hcounts, ?_⟩,
    (sumStatus_text db.rows .passed).symm, (sumStatus_text db.rows .failed).symm,
    (sumStatus_text db.rows .pending).symm⟩
  simp only [sqlite3ColumnInt, hcounts, Int32.ofNat_add]

/-! ### Every run of calls -/

theorem isOpen_databaseStep {db db' : Database} {call : DatabaseCall} (hi : db.isOpen = true)
    (h : databaseStep db call = some db') : db'.isOpen = true := by
  cases databaseStep_cases h with
  | nothing | insert | update => exact hi

/-- **The table stays consistent**: after any calls on an opened table the identifiers are
distinct, the columns of each row agree and the summary adds up; over any further calls a row
stays, keeps the columns of its insert and never goes back to pending; and an update leaves the
rows of other identifiers alone. -/
theorem resultTable_consistent (file : Database) {calls later : List DatabaseCall}
    {db db' : Database} (h : Run databaseStep file.opened calls db)
    (h' : Run databaseStep db later db') :
    (db.rows.map Row.testId).Nodup ∧
      (∀ row ∈ db.rows, row.Consistent) ∧
      (∀ row ∈ db.rows, (∃ new ∈ db'.rows, new.testId = row.testId) ∧
        ∀ new ∈ db'.rows, new.testId = row.testId → row.Follows new) ∧
      (∀ (r : ResponseRecord) (answer : SqliteAnswer) (row : Row),
        row.testId ≠ r.response.testId →
          (row ∈ (resultDatabaseUpdateResponse db (some r) answer).2.rows ↔ row ∈ db.rows)) ∧
      ∃ sum, resultDatabasePrintSummary db = some sum ∧ sum.Adds ∧
        sum.passed = sumStatus db.rows "PASSED" ∧ sum.failed = sumStatus db.rows "FAILED" ∧
        sum.pending = sumStatus db.rows "PENDING" := by
  have hinv : Consistent db :=
    h.preserves (fun _ _ _ hi hs => consistent_databaseStep hi hs) (consistent_opened file)
  have hinv' : Consistent db' :=
    h'.preserves (fun _ _ _ hi hs => consistent_databaseStep hi hs) hinv
  have hopen : db.isOpen = true :=
    h.preserves (I := fun db => db.isOpen = true) (fun _ _ _ hi hs => isOpen_databaseStep hi hs) rfl
  refine ⟨hinv.keyed, hinv.rows, ?_, ?_, summary_adds hopen⟩
  · intro row hrow
    obtain ⟨new, hnew, hfollows⟩ := (continues_run h').exists_mem hrow
    refine ⟨⟨new, hnew, hfollows.testId⟩, ?_⟩
    intro other hother hid
    rw [hinv'.keyed.eq_of_key_eq hother hnew (hid.trans hfollows.testId.symm)]
    exact hfollows
  · exact fun r answer _ hne => mem_update_iff_of_ne db r answer hne

/-- A command inserted twice, a response for an unknown test and the response, twice. -/
def judgedTwice : List DatabaseCall :=
  let command : Command := ⟨7, 2, 10, 3, Vector.replicate 255 0⟩
  [.insertCommand (some command) 100 .runs, .insertCommand (some command) 101 .runs,
    .updateResponse (some ⟨⟨8, 1⟩, 102⟩) .runs, .updateResponse (some ⟨⟨7, 1⟩, 103⟩) .runs,
    .updateResponse (some ⟨⟨7, 0xFF⟩, 104⟩) .runs]

/-- The one row they leave. -/
def judgedRow : Row := ⟨7, 2, 10, 3, 100, some 104, some 0xFF, .failed⟩

theorem resultTable_consistent_judgedTwice :
    judgedRow.Consistent ∧ ∃ sum, resultDatabasePrintSummary ⟨true, [judgedRow]⟩ = some sum ∧
      sum.Adds := by
  have hrun : Run databaseStep (Database.opened ⟨false, []⟩) judgedTwice ⟨true, [judgedRow]⟩ :=
    .of_exec (by decide +kernel)
  obtain ⟨_, hrows, _, _, sum, hsum, hadds, _⟩ :=
    resultTable_consistent ⟨false, []⟩ hrun (.refl _)
  exact ⟨hrows judgedRow List.mem_cons_self, sum, hsum, hadds⟩

end PeripheralTester.Server
