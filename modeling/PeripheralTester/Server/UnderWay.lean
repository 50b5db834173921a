import PeripheralTester.Server.Accounting

/-! # Records under way

A record is under way in the server from `recvfrom` to the update of its row
(`Process.records`), and the table holds an identifier if an update for it changes a row
(`Database.Holds`).  The lemmas here say what a step can do to either: only `recvfrom` brings a
record under way, and only an insert puts an identifier into the table. -/

namespace PeripheralTester.Server

open Lib

/-- The record before `response_queue_push`. -/
def RxPc.inHand : RxPc → List Received
  | .push r => [r]
  | _ => []

/-- The records with the receive thread, in the queue and with the writer: the last two are what
was pushed and not yet passed to the database. -/
def Process.records (s : Process) : List Received :=
  s.rx.inHand ++ s.pushed.drop s.updates.length

/-- The table is open and has a row of the test. -/
def Database.Holds (db : Database) (testId : UInt32) : Prop :=
  db.isOpen = true ∧ ∃ row ∈ db.rows, row.testId = testId

variable {env : Startup} {s s' : Process} {r : Received} {testId : UInt32}

/-! ### Records -/

/-- The writer's record is under way. -/
theorem Sound.inHand_mem (hs : Sound s) (hr : r ∈ s.writer.inHand) : r ∈ s.records := by
  obtain ⟨c, hc⟩ := hs.account
  apply List.mem_append_right
  rw [hc.pushed, List.append_assoc, List.drop_left' (List.length_map _)]
  exact List.mem_append_left _ hr

theorem records_mainStep {a : MainAnswer} (h : mainStep env a s = some s') (hr : r ∈ s'.records) :
    r ∈ s.records := by
  obtain ⟨hpush, hupd, _⟩ := mainStep_queue h
  unfold Process.records at hr ⊢
  rw [hpush, hupd] at hr
  rcases List.mem_append.mp hr with hr | hr
  · rcases mainStep_rx h with hrx | ⟨_, hrx⟩
    · rw [hrx] at hr
      exact List.mem_append_left _ hr
    · rw [hrx] at hr
      cases hr
  · exact List.mem_append_right _ hr

/-- The receive thread brings a record under way only from a datagram. -/
theorem records_rxStep {a : RecvAnswer} (h : rxStep a s = some s') (hr : r ∈ s'.records) :
    r ∈ s.records ∨ ∃ bytes origin now, a = .datagram bytes origin now ∧
      r = ⟨⟨Response.decode (bytes.take Response.size), now⟩, origin⟩ := by
  unfold Process.records at hr ⊢
  cases rxStep_cases h with
  | test =>
      cases hrun : s.rxThreadRunning <;> simp only [hrun] at hr <;>
        exact .inl (List.mem_append_right _ hr)
  | discard | full => exact .inl (List.mem_append_right _ hr)
  | @receive bytes origin now =>
      rcases List.mem_cons.mp hr with rfl | hr
      · exact .inr ⟨bytes, origin, now, rfl, rfl⟩
      · exact .inl (List.mem_append_right _ hr)
  | push hpc =>
      simp only [RxPc.inHand, List.nil_append, List.drop_append, List.mem_append] at hr
      rcases hr with hr | hr
      · exact .inl (List.mem_append_right _ hr)
      · refine .inl (List.mem_append_left _ ?_)
        rw [hpc]
        exact List.mem_of_mem_drop hr

theorem records_writerStep {answer : SqliteAnswer} (h : writerStep answer s = some s')
    (hr : r ∈ s'.records) : r ∈ s.records := by
  have hf := writerStep_frame h
  unfold Process.records at hr ⊢
  rw [hf.rx, hf.pushed] at hr
  rcases List.mem_append.mp hr with hr | hr
  · exact List.mem_append_left _ hr
  · apply List.mem_append_right
    -- the updates only grow
    have hle : s.updates.length ≤ s'.updates.length := by
      cases writerStep_cases h with
      | test | wait | fail | pop => exact le_rfl
      | update =>
          rw [List.length_append]
          exact Nat.le_add_right _ _
    rw [← Nat.add_sub_cancel' hle, ← List.drop_drop] at hr
    exact List.mem_of_mem_drop hr

/-! ### The table -/

theorem not_holds_init (rows : List Row) : ¬ (Process.init rows).database.Holds testId := by
  intro h
  cases h.1

/-- Opening the table empties it, or fails. -/
theorem not_holds_open (db : Database) (opens creates clears : Bool) (testId : UInt32) :
    ¬ (resultDatabaseOpen db opens creates clears).2.Holds testId := by
  unfold resultDatabaseOpen Database.Holds
  cases opens <;> cases creates <;> cases clears <;> simp

theorem holds_insert {db : Database} {c : Command} {now : ℤ} {answer : SqliteAnswer}
    (h : (resultDatabaseInsertCommand db (some c) now answer).2.Holds testId) :
    db.Holds testId ∨ (answer = .runs ∧ testId = c.testId) := by
  rcases insert_cases db c now answer with he | ⟨_, hruns, _, he⟩ <;> rw [he] at h
  · exact .inl h
  · obtain ⟨hopen, row, hrow, hid⟩ := h
    rcases List.mem_append.mp hrow with hrow | hrow
    · exact .inl ⟨hopen, row, hrow, hid⟩
    · rw [List.mem_singleton.mp hrow] at hid
      exact .inr ⟨hruns, hid.symm⟩

theorem holds_update {db : Database} {record : ResponseRecord} {answer : SqliteAnswer}
    (h : (resultDatabaseUpdateResponse db (some record) answer).2.Holds testId) :
    db.Holds testId := by
  rcases update_cases db record answer with he | ⟨_, _, he⟩ <;> rw [he] at h
  · exact h
  · obtain ⟨hopen, row, hrow, hid⟩ := h
    rcases mem_updateRows.mp hrow with ⟨hrow, _⟩ | ⟨old, hold, _, rfl⟩
    · exact ⟨hopen, row, hrow, hid⟩
    · exact ⟨hopen, old, hold, hid⟩

/-- Main puts an identifier into the table only with an insert that runs. -/
theorem holds_mainStep {a : MainAnswer} (h : mainStep env a s = some s')
    (hid : s'.database.Holds testId) : s.database.Holds testId ∨
      (s.calls.head? = some .resultDatabaseInsertCommand ∧ a.sqlite = .runs ∧
        testId = s.command.testId) := by
  cases mainStep_cases h
  case resultDatabaseOpen hopen | databaseOpenFailed hopen =>
    have hold := not_holds_open s.database env.databaseOpens env.tableCreates env.tableClears testId
    rw [hopen] at hold
    exact absurd hid hold
  case resultDatabaseInsertCommand hc =>
    rw [hc]
    exact (holds_insert hid).imp_right fun he => ⟨rfl, he⟩
  case resultDatabaseClose => cases hid.1
  all_goals exact .inl hid

theorem holds_writerStep {answer : SqliteAnswer} (h : writerStep answer s = some s')
    (hid : s'.database.Holds testId) : s.database.Holds testId := by
  cases writerStep_cases h with
  | test | wait | fail | pop => exact hid
  | update => exact holds_update hid

end PeripheralTester.Server
