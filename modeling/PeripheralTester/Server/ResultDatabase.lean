import PeripheralTester.Protocol

/-! # The server's result table

`result_database.c` keeps one SQLite table, `test_results`, with a `UNIQUE` test identifier.  The
table is a list of rows in insertion order.  A statement is atomic: it takes effect as a whole
or not at all, and `SqliteAnswer` says which.

An `UPDATE` whose `WHERE` clause matches no row is a statement SQLite completes, so
`resultDatabaseUpdateResponse` answers `ok` on a table without the row
(`update_of_not_mem`). -/

namespace PeripheralTester.Server

/-- `response_record_t`. -/
structure ResponseRecord where
  response : Response
  receivedTime : ℤ
deriving DecidableEq, Repr

/-- The record of zero bytes. -/
instance : Inhabited ResponseRecord := ⟨⟨⟨0, 0⟩, 0⟩⟩

/-- The text of the `status` column: `PENDING`, `PASSED` or `FAILED`. -/
inductive TestStatus where
  | pending
  | passed
  | failed
deriving DecidableEq, Repr

/-- The status an update writes for a result byte. -/
def statusOf (result : UInt8) : TestStatus :=
  if result = appProtocolTestSuccess then .passed else .failed

/-- A row of `test_results`; `none` is `NULL`. -/
structure Row where
  testId : UInt32
  peripheral : UInt8
  iterations : UInt8
  payloadLen : UInt8
  sentTime : ℤ
  receivedTime : Option ℤ
  result : Option UInt8
  status : TestStatus
deriving DecidableEq, Repr

/-- The database file and whether `result_database` is a handle on it. -/
structure Database where
  isOpen : Bool
  rows : List Row
deriving DecidableEq, Repr

/-- `result_database_status_t`. -/
inductive ResultDatabaseStatus where
  | ok
  | fail
deriving DecidableEq, Repr

/-- How SQLite serves a statement: it is not prepared, its step does not answer `SQLITE_DONE`,
or it runs as far as the table's constraint lets it. -/
inductive SqliteAnswer where
  | prepareFails
  | stepFails
  | runs
deriving DecidableEq, Repr

/-! ### The functions -/

/-- `result_database_open`, given which of its three SQLite calls succeed: opening the file,
creating the table, deleting the rows of the previous run.  A file that does not open replaces the
handle by one that serves no statement. -/
def resultDatabaseOpen (db : Database) (opens creates clears : Bool) :
    ResultDatabaseStatus × Database :=
  if !opens then (.fail, { db with isOpen := false })
  else if !creates then (.fail, { db with isOpen := false })
  else if !clears then (.fail, { db with isOpen := false })
  else (.ok, ⟨true, []⟩)

/-- The row an insert creates. -/
def Row.ofCommand (c : Command) (now : ℤ) : Row where
  testId := c.testId
  peripheral := c.peripheral
  iterations := c.iterations
  payloadLen := c.patternLen
  sentTime := now
  receivedTime := none
  result := none
  status := .pending

/-- `result_database_insert_command` at the time `now`; `none` is a `NULL` command. -/
def resultDatabaseInsertCommand (db : Database) (command : Option Command) (now : ℤ)
    (answer : SqliteAnswer) : ResultDatabaseStatus × Database :=
  match command with
  | none => (.fail, db)
  | some c =>
      if !db.isOpen then (.fail, db)
      else
        match answer with
        | .prepareFails => (.fail, db)
        | .stepFails => (.fail, db)
        | .runs =>
            -- the UNIQUE constraint: the step answers SQLITE_CONSTRAINT
            if db.rows.any (·.testId = c.testId) then (.fail, db)
            else (.ok, { db with rows := db.rows ++ [Row.ofCommand c now] })

/-- The row an update leaves. -/
def Row.record (row : Row) (r : ResponseRecord) : Row :=
  { row with
    receivedTime := some r.receivedTime
    result := some r.response.result
    status := statusOf r.response.result }

/-- The rows an update leaves. -/
def updateRows (rows : List Row) (r : ResponseRecord) : List Row :=
  rows.map fun row => if row.testId = r.response.testId then row.record r else row

/-- `result_database_update_response`; `none` is a `NULL` record. -/
def resultDatabaseUpdateResponse (db : Database) (record : Option ResponseRecord)
    (answer : SqliteAnswer) : ResultDatabaseStatus × Database :=
  match record with
  | none => (.fail, db)
  | some r =>
      if !db.isOpen then (.fail, db)
      else
        match answer with
        | .prepareFails => (.fail, db)
        | .stepFails => (.fail, db)
        | .runs => (.ok, { db with rows := updateRows db.rows r })

/-- What `result_database_print_summary` reads: the four counts, and the first ten pending and
failed tests by identifier. -/
structure Summary where
  total : ℕ
  passed : ℕ
  failed : ℕ
  pending : ℕ
  pendingTests : List Row
  failedTests : List Row
deriving DecidableEq, Repr

def countStatus (rows : List Row) (st : TestStatus) : ℕ := rows.countP (·.status = st)

/-- The `SELECT ... ORDER BY test_id LIMIT 10` of a status. -/
def firstTests (rows : List Row) (st : TestStatus) : List Row :=
  ((rows.filter (·.status = st)).mergeSort (·.testId ≤ ·.testId)).take 10

/-- `result_database_print_summary` with every statement served; `none` is a failure. -/
def resultDatabasePrintSummary (db : Database) : Option Summary :=
  if !db.isOpen then none
  else
    some
      { total := db.rows.length
        passed := countStatus db.rows .passed
        failed := countStatus db.rows .failed
        pending := countStatus db.rows .pending
        pendingTests := firstTests db.rows .pending
        failedTests := firstTests db.rows .failed }

/-- `result_database_close`. -/
def resultDatabaseClose (db : Database) : Database := { db with isOpen := false }

/-! ### What an insert does -/

theorem insert_cases (db : Database) (c : Command) (now : ℤ) (answer : SqliteAnswer) :
    resultDatabaseInsertCommand db (some c) now answer = (.fail, db) ∨
      (db.isOpen = true ∧ answer = .runs ∧ (∀ row ∈ db.rows, row.testId ≠ c.testId) ∧
        resultDatabaseInsertCommand db (some c) now answer =
          (.ok, { db with rows := db.rows ++ [Row.ofCommand c now] })) := by
  cases ho : db.isOpen with
  | false => exact .inl (by simp [resultDatabaseInsertCommand, ho])
  | true =>
      cases answer with
      | prepareFails => exact .inl (by simp [resultDatabaseInsertCommand])
      | stepFails => exact .inl (by simp [resultDatabaseInsertCommand])
      | runs =>
          by_cases hu : ∃ row ∈ db.rows, row.testId = c.testId
          · exact .inl (by simp [resultDatabaseInsertCommand, ho, hu])
          · have hu' : ∀ row ∈ db.rows, row.testId ≠ c.testId := fun row hr he => hu ⟨row, hr, he⟩
            exact .inr ⟨rfl, rfl, hu', by simp [resultDatabaseInsertCommand, ho, hu]⟩

/-! ### What an update does -/

theorem update_cases (db : Database) (r : ResponseRecord) (answer : SqliteAnswer) :
    resultDatabaseUpdateResponse db (some r) answer = (.fail, db) ∨
      (db.isOpen = true ∧ answer = .runs ∧
        resultDatabaseUpdateResponse db (some r) answer =
          (.ok, { db with rows := updateRows db.rows r })) := by
  cases ho : db.isOpen <;> cases answer <;> simp [resultDatabaseUpdateResponse, ho]

theorem mem_updateRows {rows : List Row} {r : ResponseRecord} {row : Row} :
    row ∈ updateRows rows r ↔
      (row ∈ rows ∧ row.testId ≠ r.response.testId) ∨
        ∃ old ∈ rows, old.testId = r.response.testId ∧ row = old.record r := by
  simp only [updateRows, List.mem_map]
  constructor
  · rintro ⟨old, hold, rfl⟩
    split
    · exact .inr ⟨old, hold, ‹_›, rfl⟩
    · exact .inl ⟨hold, ‹_›⟩
  · rintro (⟨hrow, hne⟩ | ⟨old, hold, he, rfl⟩)
    · exact ⟨row, hrow, if_neg hne⟩
    · exact ⟨old, hold, if_pos he⟩

/-- An update for an identifier the table does not hold changes nothing. -/
theorem update_of_not_mem {rows : List Row} {r : ResponseRecord}
    (h : ∀ row ∈ rows, row.testId ≠ r.response.testId) : updateRows rows r = rows := by
  unfold updateRows
  conv_rhs => rw [← List.map_id rows]
  exact List.map_congr_left fun row hrow => if_neg (h row hrow)

end PeripheralTester.Server
