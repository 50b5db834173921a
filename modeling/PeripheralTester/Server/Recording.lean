import PeripheralTester.Server.Shutdown

/-! # Recording the responses

Main inserts a command's row after it sent the command, and nothing keeps the writer from
running the update of its response in between.  That update matches no row and answers `ok`, and
the insert then leaves the row pending.

`recorded_of_inOrder`: in a run in which every update comes after the insert of its own command
has returned, and no update meets another command's row under its identifier (`InOrder`), every
row whose insert and update both returned `ok` carries its response (`Recorded`).  The device
and the network are free to deliver the response to any sent command at any time and any number
of times (`Genuine`). -/

namespace PeripheralTester.Server

open Lib

variable {env : Startup} {s s' : Process} {verdict : ℕ → UInt8}

/-- The record answers the sent command of its number with that command's verdict. -/
def Answers (verdict : ℕ → UInt8) (sent : List Command) (r : Received) : Prop :=
  ∃ c, sent[r.origin]? = some c ∧ r.record.response = ⟨c.testId, verdict r.origin⟩

/-- What the network delivers are responses to commands already sent. -/
def Genuine (verdict : ℕ → UInt8) (s : Process) : Label → Prop
  | .rx (.datagram bytes origin _) => s.rx = .recv →
      ∃ c ∈ s.sent[origin]?, bytes = (Response.mk c.testId (verdict origin)).encode
  | _ => True

/-- The insert of the record's command has returned, and the row with the record's identifier,
if there is one, was inserted for this command. -/
def OwnRow (s : Process) (r : Received) : Prop :=
  (∃ e ∈ s.inserts, e.1 = r.origin) ∧
    ∀ e ∈ s.inserts, e.2 = .ok → (∃ c ∈ s.sent[e.1]?, c.testId = r.record.response.testId) →
      e.1 = r.origin

/-- The writer runs an update only on the row of the record's own command. -/
def InOrder (s : Process) : Label → Prop
  | .writer _ => ∀ r ∈ s.writer.inHand, OwnRow s r
  | _ => True

instance (s : Process) (a : Label) : Decidable (Genuine verdict s a) :=
  match a with
  | .rx (.datagram bytes origin _) => inferInstanceAs (Decidable (s.rx = .recv →
      ∃ c ∈ s.sent[origin]?, bytes = (Response.mk c.testId (verdict origin)).encode))
  | .rx .error | .main _ | .writer _ | .wake | .sigint => .isTrue trivial

instance (s : Process) (r : Received) : Decidable (OwnRow s r) :=
  inferInstanceAs (Decidable (_ ∧ ∀ e ∈ s.inserts, _ → _ → _))

instance (s : Process) (a : Label) : Decidable (InOrder s a) :=
  match a with
  | .writer _ => inferInstanceAs (Decidable (∀ r ∈ s.writer.inHand, OwnRow s r))
  | .rx _ | .main _ | .wake | .sigint => .isTrue trivial

/-- Every row whose insert and update both returned `ok` carries the response. -/
def Recorded (s : Process) : Prop :=
  ∀ n c r, s.sent[n]? = some c → (n, .ok) ∈ s.inserts → (r, .ok) ∈ s.updates → r.origin = n →
    (∃ row ∈ s.database.rows, row.testId = c.testId) ∧
      ∀ row ∈ s.database.rows, row.testId = c.testId →
        row.result = some r.record.response.result ∧
          row.status = statusOf r.record.response.result

/-! ### The invariant -/

/-- What main, the receive thread and the writer keep of the table and the histories. -/
structure Filing (verdict : ℕ → UInt8) (s : Process) : Prop where
  /-- Before the table is opened nothing was inserted or updated. -/
  unopened : .resultDatabaseOpen ∈ s.calls → s.inserts = [] ∧ s.updates = []
  /-- Main inserts the command it sent last, for the first time. -/
  inserting : s.calls.head? = some .resultDatabaseInsertCommand →
    s.sent[s.sent.length - 1]? = some s.command ∧ ∀ e ∈ s.inserts, e.1 + 1 < s.sent.length
  numbered : ∀ e ∈ s.inserts, e.1 < s.sent.length
  /-- The records answer their commands. -/
  pushing : ∀ r, s.rx = .push r → Answers verdict s.sent r
  pushed : ∀ r ∈ s.pushed, Answers verdict s.sent r
  /-- No update came before its insert. -/
  returned : ∀ e ∈ s.updates, ∃ i ∈ s.inserts, i.1 = e.1.origin
  /-- An inserted command has a row, and its updates are recorded there. -/
  inserted : ∀ n c, (n, .ok) ∈ s.inserts → s.sent[n]? = some c →
    ∃ row ∈ s.database.rows, row.testId = c.testId
  updated : ∀ n c r row, (n, .ok) ∈ s.inserts → s.sent[n]? = some c → (r, .ok) ∈ s.updates →
    r.origin = n → row ∈ s.database.rows → row.testId = c.testId →
      row.result = some r.record.response.result ∧ row.status = statusOf r.record.response.result

theorem filing_init (rows : List Row) : Filing verdict (.init rows) where
  unopened := fun _ => ⟨rfl, rfl⟩
  inserting := fun h => by cases h
  numbered := fun _ h => by cases h
  pushing := fun _ h => by cases h
  pushed := fun _ h => by cases h
  returned := fun _ h => by cases h
  inserted := fun _ _ h => by cases h
  updated := fun _ _ _ _ h => by cases h

theorem Filing.recorded (hs : Filing verdict s) : Recorded s :=
  fun n c r hc hn hr ho => ⟨hs.inserted n c hn hc, fun row => hs.updated n c r row hn hc hr ho⟩

theorem Answers.append {sent : List Command} {r : Received} (h : Answers verdict sent r)
    (l : List Command) : Answers verdict (sent ++ l) r := by
  obtain ⟨d, hd, hr⟩ := h
  exact ⟨d, by rw [List.getElem?_append_left (List.getElem?_eq_some_iff.mp hd).1, hd], hr⟩

/-! ### Main -/

/-- Main comes to an insert only from a send that succeeded. -/
theorem head_insert {a : MainAnswer} (h : mainStep env a s = some s') (hs : Stage s)
    (hhead : s'.calls.head? = some .resultDatabaseInsertCommand) :
    s.calls.head? = some .udpClientSendCommand := by
  obtain ⟨x, cs, hc, hcs | hex | ⟨y, hy, hcs⟩⟩ := mainStep_calls h
  · rw [hcs] at hhead
    rw [hc]
    have hmem : .resultDatabaseInsertCommand ∈ cs := List.mem_of_mem_head? hhead
    have hall : ∀ l ∈ MainCall.round.tails ++ MainCall.afterLoop.tails,
        l.tail.head? = some .resultDatabaseInsertCommand →
          l.head? = some .udpClientSendCommand := by decide
    cases hs with
    | startup hst =>
        rw [hc] at hst
        have hin : .resultDatabaseInsertCommand ∈ MainCall.start :=
          hst.subset (List.mem_cons_of_mem x hmem)
        exact absurd hin (by decide)
    | serving hst =>
        rw [hc] at hst
        refine hall (x :: cs) ?_ hhead
        rcases hst with hst | hst | hst
        · exact List.mem_append_left _ ((List.mem_tails _ _).mpr hst)
        · exact List.mem_append_right _ ((List.mem_tails _ _).mpr ⟨[], hst⟩)
        · exact List.mem_append_right _ ((List.mem_tails _ _).mpr ⟨[.sleepApplicationStopDelay],
            by rw [hst]; rfl⟩)
    | leaving hst =>
        have := hst .resultDatabaseInsertCommand (by rw [hc]; exact List.mem_cons_of_mem x hmem)
        cases this
  · have hall : ∀ x : MainCall, ∀ l ∈ x.exits,
        l.head? ≠ some .resultDatabaseInsertCommand := by
      intro x
      cases x <;> decide
    exact absurd hhead (hall x _ hex)
  · rw [hcs] at hhead
    cases x <;> cases hy <;> cases hhead

/-- More commands sent, and nothing else changed that the invariant speaks of. -/
theorem Filing.of_sent (hs : Filing verdict s) {l : List Command} (hsent : s'.sent = s.sent ++ l)
    (hins : s'.inserts = s.inserts) (hupd : s'.updates = s.updates) (hpush : s'.pushed = s.pushed)
    (hrx : ∀ r, s'.rx = .push r → s.rx = .push r)
    (hrows : s'.database.rows = s.database.rows ∨ s.inserts = [])
    (hopen : .resultDatabaseOpen ∈ s'.calls → .resultDatabaseOpen ∈ s.calls)
    (hinserting : s'.calls.head? = some .resultDatabaseInsertCommand →
      s'.sent[s'.sent.length - 1]? = some s'.command ∧
        ∀ e ∈ s'.inserts, e.1 + 1 < s'.sent.length) : Filing verdict s' := by
  have hold : ∀ n c, (n, .ok) ∈ s.inserts → s'.sent[n]? = some c → s.sent[n]? = some c := by
    intro n c hn hc
    rwa [hsent, List.getElem?_append_left (hs.numbered _ hn)] at hc
  refine ⟨?_, hinserting, ?_, ?_, ?_, ?_, ?_, ?_⟩
  · rw [hins, hupd]
    exact fun hy => hs.unopened (hopen hy)
  · intro e he
    rw [hins] at he
    rw [hsent, List.length_append]
    exact Nat.lt_add_right _ (hs.numbered e he)
  · intro r hr
    rw [hsent]
    exact (hs.pushing r (hrx r hr)).append l
  · intro r hr
    rw [hpush] at hr
    rw [hsent]
    exact (hs.pushed r hr).append l
  · rw [hupd, hins]
    exact hs.returned
  · intro n c hn hc
    rw [hins] at hn
    rcases hrows with hrows | hnil
    · rw [hrows]
      exact hs.inserted n c hn (hold n c hn hc)
    · rw [hnil] at hn
      cases hn
  · intro n c r row hn hc hr
    rw [hins] at hn
    rw [hupd] at hr
    rcases hrows with hrows | hnil
    · rw [hrows]
      exact hs.updated n c r row hn (hold n c hn hc) hr
    · rw [hnil] at hn
      cases hn

/-- The insert of the command sent last. -/
theorem filing_insert {a : MainAnswer} (hs : Filing verdict s)
    (hhead : s.calls.head? = some .resultDatabaseInsertCommand)
    (hsent : s'.sent = s.sent)
    (hdb : s'.database =
      (resultDatabaseInsertCommand s.database (some s.command) a.now a.sqlite).2)
    (hins : s'.inserts = s.inserts ++ [(s.sent.length - 1,
      (resultDatabaseInsertCommand s.database (some s.command) a.now a.sqlite).1)])
    (hupd : s'.updates = s.updates) (hpush : s'.pushed = s.pushed)
    (hrx : ∀ r, s'.rx = .push r → s.rx = .push r)
    (hopen : .resultDatabaseOpen ∉ s'.calls)
    (hinserting : s'.calls.head? ≠ some .resultDatabaseInsertCommand) : Filing verdict s' := by
  obtain ⟨hlast, hfresh⟩ := hs.inserting hhead
  obtain ⟨hlen, _⟩ := List.getElem?_eq_some_iff.mp hlast
  refine ⟨fun hy => absurd hy hopen, fun hy => absurd hy hinserting, ?_, ?_, ?_, ?_, ?_, ?_⟩
  · intro e he
    rw [hins, List.mem_append, List.mem_singleton] at he
    rw [hsent]
    rcases he with he | rfl
    · exact hs.numbered e he
    · exact hlen
  · rw [hsent]
    exact fun r hr => hs.pushing r (hrx r hr)
  · rw [hpush, hsent]
    exact hs.pushed
  · intro e he
    rw [hupd] at he
    obtain ⟨i, hi, ho⟩ := hs.returned e he
    exact ⟨i, by rw [hins]; exact List.mem_append_left _ hi, ho⟩
  · intro n c hn hc
    rw [hsent] at hc
    rw [hdb]
    rcases insert_cases s.database s.command a.now a.sqlite with he | ⟨_, _, _, he⟩ <;>
      simp only [hins, he, List.mem_append, List.mem_singleton, Prod.mk.injEq, reduceCtorEq,
        and_false, or_false, and_true] at hn ⊢
    · exact hs.inserted n c hn hc
    · rcases hn with hn | rfl
      · obtain ⟨row, hrow, hid⟩ := hs.inserted n c hn hc
        exact ⟨row, .inl hrow, hid⟩
      · rw [hlast, Option.some.injEq] at hc
        exact ⟨_, .inr rfl, by rw [← hc]; rfl⟩
  · intro n c r row hn hc hr ho hrow hid
    rw [hsent] at hc
    rw [hupd] at hr
    rw [hdb] at hrow
    rcases insert_cases s.database s.command a.now a.sqlite with he | ⟨_, _, hunique, he⟩ <;>
      simp only [hins, he, List.mem_append, List.mem_singleton, Prod.mk.injEq, reduceCtorEq,
        and_false, or_false, and_true] at hn hrow
    · exact hs.updated n c r row hn hc hr ho hrow hid
    · rcases hn with hn | rfl
      · rcases hrow with hrow | rfl
        · exact hs.updated n c r row hn hc hr ho hrow hid
        · -- the new row has an identifier the table did not hold
          obtain ⟨old, hold, hid'⟩ := hs.inserted n c hn hc
          exact absurd (hid'.trans hid.symm) (hunique old hold)
      · -- no update of the new row's command has come yet
        obtain ⟨i, hi, hio⟩ := hs.returned _ hr
        have hlt := hfresh i hi
        rw [show i.1 = s.sent.length - 1 from hio.trans ho] at hlt
        omega

theorem filing_mainStep {a : MainAnswer} (h : mainStep env a s = some s') (hsound : Sound s)
    (hstage : Stage s) (hs : Filing verdict s) : Filing verdict s' := by
  obtain ⟨hpush, hupd, _⟩ := mainStep_queue h
  have hrx : ∀ r, s'.rx = .push r → s.rx = .push r := by
    intro r hr
    rcases mainStep_rx h with he | ⟨_, he⟩
    · rw [← he, hr]
    · rw [he] at hr
      cases hr
  have hopen : .resultDatabaseOpen ∈ s'.calls → .resultDatabaseOpen ∈ s.calls := fun hy =>
    List.mem_of_mem_tail (startup_mem h hy rfl)
  rcases mainStep_table h with ⟨hnsend, _, hsent, hins, hrows⟩ | ⟨hsend, hins, hdb, hcase⟩ |
    ⟨hinsert, hsent, hcalls, hdb, hins⟩
  · refine hs.of_sent (l := []) (by rw [hsent, List.append_nil]) hins hupd hpush hrx ?_ hopen
      fun hhead => absurd (head_insert h hstage hhead) hnsend
    exact hrows.imp_right fun hhead => (hs.unopened (List.mem_of_mem_head? hhead)).1
  · rcases hcase with ⟨hsent, hcmd, _⟩ | ⟨hsent, hcalls⟩
    · refine hs.of_sent hsent hins hupd hpush hrx (.inl (by rw [hdb])) hopen fun _ => ⟨?_, ?_⟩
      · rw [hsent, hcmd]
        simp
      · intro e he
        rw [hins] at he
        rw [hsent, List.length_append, List.length_singleton]
        exact Nat.succ_lt_succ (hs.numbered e he)
    · refine hs.of_sent (l := []) (by rw [hsent, List.append_nil]) hins hupd hpush hrx
        (.inl (by rw [hdb])) hopen fun hhead => ?_
      rw [hcalls] at hhead
      cases hhead
  · have hmem := List.mem_of_mem_head? hinsert
    refine filing_insert hs hinsert hsent hdb hins hupd hpush hrx (fun hy => ?_) fun hhead => ?_
    · -- an insert is not made before the table is opened
      have hin := hsound.suffix (hopen hy) rfl
      exact absurd (hin.subset hmem) (by decide)
    · have := head_insert h hstage hhead
      rw [hinsert] at this
      cases this

/-! ### The threads -/

/-- What the receive thread reads from a genuine datagram answers a sent command. -/
theorem answers_of_genuine {bytes : List UInt8} {origin : ℕ} {now : ℤ}
    (hrx : s.rx = .recv) (hg : Genuine verdict s (.rx (.datagram bytes origin now))) :
    Answers verdict s.sent
      ⟨⟨Response.decode (bytes.take Response.size), now⟩, origin⟩ := by
  obtain ⟨c, hc, hbytes⟩ := hg hrx
  refine ⟨c, hc, ?_⟩
  rw [hbytes, List.take_of_length_le (by rw [Response.encode_length]), Response.decode_encode]

theorem filing_rxStep {a : RecvAnswer} (h : rxStep a s = some s')
    (hg : Genuine verdict s (.rx a)) (hs : Filing verdict s) : Filing verdict s' := by
  have hframe := rxStep_frame h
  have hrx : (∀ r, s'.rx = .push r → Answers verdict s.sent r) ∧
      ∀ r ∈ s'.pushed, Answers verdict s.sent r := by
    cases rxStep_cases h with
    | test =>
        refine ⟨fun r hr => ?_, hs.pushed⟩
        cases hrun : s.rxThreadRunning <;> simp [hrun] at hr
    | discard | full => exact ⟨fun r hr => (by cases hr), hs.pushed⟩
    | receive hr =>
        refine ⟨fun r he => ?_, hs.pushed⟩
        cases he
        exact answers_of_genuine hr hg
    | @push _ r _ hr =>
        refine ⟨fun r hr => (by cases hr), fun r' hr' => ?_⟩
        rcases List.mem_append.mp hr' with hr' | hr'
        · exact hs.pushed r' hr'
        · rw [List.mem_singleton.mp hr']
          exact hs.pushing r hr
  refine ⟨?_, ?_, ?_, ?_, ?_, ?_, ?_, ?_⟩
  · rw [hframe.calls, hframe.inserts, hframe.updates]
    exact hs.unopened
  · rw [hframe.calls, hframe.sent, hframe.command, hframe.inserts]
    exact hs.inserting
  · rw [hframe.inserts, hframe.sent]
    exact hs.numbered
  · rw [hframe.sent]
    exact hrx.1
  · rw [hframe.sent]
    exact hrx.2
  · rw [hframe.updates, hframe.inserts]
    exact hs.returned
  · rw [hframe.inserts, hframe.sent, hframe.database]
    exact hs.inserted
  · rw [hframe.inserts, hframe.sent, hframe.updates, hframe.database]
    exact hs.updated

/-- Two records of one command carry the same response. -/
theorem Answers.unique {sent : List Command} {r r' : Received} (h : Answers verdict sent r)
    (h' : Answers verdict sent r') (ho : r.origin = r'.origin) :
    r.record.response = r'.record.response := by
  obtain ⟨c, hc, hr⟩ := h
  obtain ⟨c', hc', hr'⟩ := h'
  rw [ho, hc', Option.some.injEq] at hc
  rw [hr, hr', hc, ho]

/-- An update on the row of the record's own command, or on none. -/
theorem filing_update {answer : SqliteAnswer} {r : Received} (hs : Filing verdict s)
    (hown : OwnRow s r) (hr : Answers verdict s.sent r)
    (hupdates : ∀ e ∈ s.updates, Answers verdict s.sent e.1) :
    Filing verdict { s with
      database := (resultDatabaseUpdateResponse s.database (some r.record) answer).2
      updates := s.updates ++
        [(r, (resultDatabaseUpdateResponse s.database (some r.record) answer).1)]
      writer := .test } := by
  obtain ⟨hret, howner⟩ := hown
  refine ⟨fun hy => ?_, hs.inserting, hs.numbered, hs.pushing, hs.pushed, ?_, ?_, ?_⟩
  · obtain ⟨i, hi, _⟩ := hret
    rw [(hs.unopened hy).1] at hi
    cases hi
  · intro e he
    rcases List.mem_append.mp he with he | he
    · exact hs.returned e he
    · rw [List.mem_singleton.mp he]
      exact hret
  · intro n c hn hc
    obtain ⟨row, hrow, hid⟩ := hs.inserted n c hn hc
    rcases update_cases s.database r.record answer with he | ⟨_, _, he⟩ <;> rw [he]
    · exact ⟨row, hrow, hid⟩
    · by_cases hr : row.testId = r.record.response.testId
      · exact ⟨_, mem_updateRows.mpr (.inr ⟨row, hrow, hr, rfl⟩), hid⟩
      · exact ⟨row, mem_updateRows.mpr (.inl ⟨hrow, hr⟩), hid⟩
  · intro n c r' row hn hc hr' ho hrow hid
    rcases update_cases s.database r.record answer with he | ⟨_, _, he⟩ <;> rw [he] at hr' hrow
    · refine hs.updated n c r' row hn hc ?_ ho hrow hid
      simpa using hr'
    · have hans : Answers verdict s.sent r' := by
        rcases List.mem_append.mp hr' with hr' | hr'
        · exact hupdates _ hr'
        · cases List.mem_singleton.mp hr'
          exact hr
      rcases mem_updateRows.mp hrow with ⟨hrow, hne⟩ | ⟨old, hold, hm, rfl⟩
      · -- a row of another identifier is as it was, and r' is not the new record
        rcases List.mem_append.mp hr' with hr' | hr'
        · exact hs.updated n c r' row hn hc hr' ho hrow hid
        · cases List.mem_singleton.mp hr'
          obtain ⟨d, hd, hresp⟩ := hr
          rw [ho, hc, Option.some.injEq] at hd
          rw [hresp, ← hd, hid] at hne
          exact absurd rfl hne
      · -- the row updated belongs to the record's command, and so does r'
        have hown : n = r.origin :=
          howner (n, .ok) hn rfl ⟨c, hc, hid.symm.trans hm⟩
        have hsame := hans.unique hr (ho.trans hown)
        simp only [Row.record, hsame, and_self]

theorem filing_writerStep {answer : SqliteAnswer} (h : writerStep answer s = some s')
    (hio : InOrder s (.writer answer)) (hsound : Sound s) (hs : Filing verdict s) :
    Filing verdict s' := by
  obtain ⟨c, hc⟩ := hsound.account
  have hpushed := hc.pushed
  cases writerStep_cases h with
  | test | wait | fail | pop =>
      exact ⟨hs.unopened, hs.inserting, hs.numbered, hs.pushing, hs.pushed, hs.returned,
        hs.inserted, hs.updated⟩
  | @update r hw =>
      rw [hw, WriterPc.inHand] at hpushed
      refine filing_update hs (hio r (by simp [hw, WriterPc.inHand])) (hs.pushed r ?_)
        fun e he => hs.pushed e.1 ?_
      · simp [hpushed]
      · rw [hpushed]
        exact List.mem_append_left _ (List.mem_append_left _ (List.mem_map_of_mem he))

/-! ### Runs -/

theorem filing_step {a : Label} (h : step env s a = some s') (hg : Genuine verdict s a)
    (hio : InOrder s a) (hsound : Sound s) (hstage : Stage s) (hs : Filing verdict s) :
    Filing verdict s' := by
  cases a with
  | main m => exact filing_mainStep h hsound hstage hs
  | rx a => exact filing_rxStep h hg hs
  | writer a => exact filing_writerStep h hio hsound hs
  | wake =>
      simp only [step] at h
      split at h
      · obtain rfl := Option.some.inj h
        exact ⟨hs.unopened, hs.inserting, hs.numbered, hs.pushing, hs.pushed, hs.returned,
          hs.inserted, hs.updated⟩
      · cases h
  | sigint =>
      obtain rfl := Option.some.inj h
      exact ⟨hs.unopened, hs.inserting, hs.numbered, hs.pushing, hs.pushed, hs.returned,
        hs.inserted, hs.updated⟩

/-- **No result is lost between sending and recording, if every update comes after the insert of
its own command**: in every state of such a run, the rows whose insert and update both returned
`ok` carry their responses. -/
theorem recorded_of_inOrder (verdict : ℕ → UInt8) (rows : List Row) {ls : List Label}
    (h : Run (step env) (.init rows) ls s)
    (hm : Meets (step env) (fun s a => Genuine verdict s a ∧ InOrder s a) (.init rows) ls) :
    Recorded s := by
  have hinv : Sound s ∧ Stage s ∧ Filing verdict s := by
    refine Run.invariant (I := fun s => Sound s ∧ Stage s ∧ Filing verdict s) ?_ h hm ?_
    · rintro s a s' ⟨hsound, hstage, hs⟩ ⟨hg, hio⟩ hstep
      exact ⟨sound_step hstep hsound, stage_step hstep hstage,
        filing_step hstep hg hio hsound hstage hs⟩
    · exact ⟨sound_init rows, stage_init rows, filing_init rows⟩
  exact hinv.2.2.recorded

/-- Main sends the first command, the timer test with the identifier 1. -/
def sendingSchedule : List Label := List.replicate 9 (.call 0)

/-- The device answers it, and the writer runs the update. -/
def answeringSchedule : List Label :=
  [.rx .error, .rx (.datagram [1, 0, 0, 0, 1] 0 1), .rx .error, .writer .runs, .writer .runs,
    .writer .runs]

theorem recorded_of_inOrder_first :
    ∃ s, Run (step .allSucceed) (.init [])
      (sendingSchedule ++ [.call 0] ++ answeringSchedule) s ∧ Recorded s := by
  obtain ⟨s, hs⟩ : ∃ s, exec (step .allSucceed) (.init [])
      (sendingSchedule ++ [.call 0] ++ answeringSchedule) = some s :=
    Option.isSome_iff_exists.mp (by decide)
  exact ⟨s, .of_exec hs, recorded_of_inOrder (fun _ => 1) [] (.of_exec hs) (by decide +kernel)⟩

/-- The response overtakes the insert: the update answers `ok` without a row, the insert answers
`ok` too, and the row stays pending. -/
theorem fast_response_is_lost :
    ¬ ∀ (env : Startup) (verdict : ℕ → UInt8) (ls : List Label) (s : Process),
      Run (step env) (.init []) ls s → Meets (step env) (Genuine verdict) (.init []) ls →
        Recorded s := by
  intro hclaim
  obtain ⟨s, hs⟩ : ∃ s, exec (step .allSucceed) (.init [])
      (sendingSchedule ++ answeringSchedule ++ [.call 0]) = some s :=
    Option.isSome_iff_exists.mp (by decide)
  have hview : ((exec (step .allSucceed) (.init [])
      (sendingSchedule ++ answeringSchedule ++ [.call 0])).map fun s =>
        (s.sent[0]?.map Command.testId, s.inserts, s.updates)) =
      some (some 1, [(0, .ok)], [(⟨⟨⟨1, 1⟩, 1⟩, 0⟩, .ok)]) := by decide +kernel
  have hview' : ((exec (step .allSucceed) (.init [])
      (sendingSchedule ++ answeringSchedule ++ [.call 0])).map fun s =>
        s.database.rows.map fun row => (row.testId, row.status)) =
      some [(1, .pending)] := by decide +kernel
  rw [hs, Option.map_some, Option.some.injEq] at hview hview'
  simp only [Prod.mk.injEq] at hview
  obtain ⟨hsent, hins, hupd⟩ := hview
  obtain ⟨c, hc, hid⟩ := Option.map_eq_some_iff.mp hsent
  obtain ⟨row, hrow, hpair⟩ : ∃ row ∈ s.database.rows, (row.testId, row.status) = (1, .pending) :=
    List.mem_map.mp (by rw [hview']; exact List.mem_singleton_self _)
  obtain ⟨hrid, hpending⟩ := Prod.mk.inj hpair
  have hrec := hclaim _ (fun _ => 1) _ s (.of_exec hs) (by decide) 0 c _ hc
    (by rw [hins]; exact List.mem_singleton_self _)
    (by rw [hupd]; exact List.mem_singleton_self _) rfl
  have hstatus := (hrec.2 row hrow (hrid.trans hid.symm)).2
  rw [hpending] at hstatus
  exact absurd hstatus (by decide)

end PeripheralTester.Server
