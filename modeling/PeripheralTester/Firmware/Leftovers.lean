import PeripheralTester.Lib.TwoRuns
import PeripheralTester.Firmware.Completions
import PeripheralTester.Firmware.TimerVerdict

/-! # What earlier commands leave behind

The receive and dummy buffers and the completion flags are static, and most of them are never
cleared between commands.  Two runs of a command on the same hardware behaviour, which differ in
what these hold at first, send the same responses (`leftovers_unseen`): a transfer helper clears the
flags that it looks at, and what is compared of a buffer is no more than what the reception has
just written. -/

namespace PeripheralTester.Firmware

open Lib Handler

/-! ### The hardware -/

/-- The handle whose reception the callback completes. -/
def Callback.received : Callback → Option Handle
  | .halUartRxCplt huart => some (.uart huart)
  | .halSpiTxRxCplt hspi => some (.spi hspi)
  | .halI2cMasterRxCplt hi2c | .halI2cSlaveRxCplt hi2c => some (.i2c hi2c)
  | _ => none

/-- A slot gives what a running reception has written so far, so the slot in which a reception of
`n` bytes completes gives all of them. -/
def Slot.Delivers (p : Peripheral) (n : ℕ) (a : Slot) : Prop :=
  ∀ cb ∈ a.fired, cb.completes = some p → ∀ h ∈ cb.received,
    ∃ w ∈ a.writes, w.1 = h ∧ n ≤ w.2.length

instance (p : Peripheral) (n : ℕ) (a : Slot) : Decidable (a.Delivers p n) :=
  inferInstanceAs (Decidable (∀ cb ∈ a.fired, _))

/-- The hardware of a bus with transfers of `n` bytes; the responses are seen. -/
def halSetting (p : Peripheral) (n : ℕ) : Setting Slot Act Response where
  fair := Slot.Delivers p n
  lawful := KeepsRules p
  lawful_of_append := fun _ _ h => h.of_append
  seen := Act.response

theorem Operation.received_completion {op : Operation} {buffer : Buffer} (h : op.rx = some buffer) :
    op.completion.received = some op.handle := by
  obtain ⟨mode, handle, tx, rx, length⟩ := op
  obtain rfl : rx = some buffer := h
  cases handle with
  | uart | spi => rfl
  | i2c hi2c => cases hi2c <;> rfl

/-! ### Two boards -/

/-- The board with new bytes at the start of a buffer. -/
def Board.overwrite (g : Board) (buffer : Buffer) (bytes : List UInt8) : Board :=
  { g with
    buffers := Function.update g.buffers buffer ((g.buffers buffer).overwrite bytes) }

@[simp] theorem receiving_write (g : Board) (w : Handle × List UInt8) :
    (g.write w).receiving = g.receiving := by
  unfold Board.write
  split <;> rfl

theorem crc_write (g : Board) (w : Handle × List UInt8) : (g.write w).crc = g.crc := by
  unfold Board.write
  split <;> rfl

theorem receiving_writes (l : List (Handle × List UInt8)) (g : Board) :
    (l.foldl Board.write g).receiving = g.receiving := by
  induction l generalizing g with
  | nil => rfl
  | cons w l ih => exact (ih _).trans (receiving_write g w)

theorem crc_writes (l : List (Handle × List UInt8)) (g : Board) :
    (l.foldl Board.write g).crc = g.crc := by
  induction l generalizing g with
  | nil => rfl
  | cons w l ih => exact (ih _).trans (crc_write g w)

theorem receiving_fires (l : List Callback) (g : Board) :
    (l.foldl Board.fire g).receiving = g.receiving := by
  induction l generalizing g with
  | nil => rfl
  | cons cb l ih => exact ih _

theorem crc_fires (l : List Callback) (g : Board) : (l.foldl Board.fire g).crc = g.crc := by
  induction l generalizing g with
  | nil => rfl
  | cons cb l ih => exact ih _

@[simp] theorem receiving_advance (g : Board) (a : Slot) :
    (g.advance a).receiving = g.receiving := by
  rw [Board.advance, receiving_fires, receiving_writes]

theorem crc_advance (g : Board) (a : Slot) : (g.advance a).crc = g.crc := by
  rw [Board.advance, crc_fires, crc_writes]

section

variable {buffer : Buffer} {n : ℕ} {g₁ g₂ : Board}

/-- The same bytes over the same bytes. -/
theorem SameBytes.overwrite (h : SameBytes buffer n g₁ g₂) (buffer' : Buffer)
    (bytes : List UInt8) :
    SameBytes buffer n (g₁.overwrite buffer' bytes) (g₂.overwrite buffer' bytes) := by
  intro i hi
  unfold Board.overwrite
  by_cases hb : buffer = buffer'
  · subst hb
    simp only [Function.update_self, Bytes.overwrite, Fin.getElem_fin, Vector.getElem_ofFn]
    exact congrArg _ (h i hi)
  · simp only [Function.update_of_ne hb]
    exact h i hi

theorem SameBytes.write (h : SameBytes buffer n g₁ g₂) (hr : g₁.receiving = g₂.receiving)
    (w : Handle × List UInt8) : SameBytes buffer n (g₁.write w) (g₂.write w) := by
  unfold Board.write
  rw [hr]
  split
  · exact h
  · exact h.overwrite _ _

/-- A whole reception leaves nothing of what the buffer held. -/
theorem sameBytes_of_write (hr : g₁.receiving = g₂.receiving) {handle : Handle}
    (hreceiving : g₁.receiving handle = some (buffer, n)) {bytes : List UInt8}
    (hn : n ≤ bytes.length) :
    SameBytes buffer n (g₁.write (handle, bytes)) (g₂.write (handle, bytes)) := by
  unfold Board.write
  rw [← hr, hreceiving]
  intro i hi
  have hlt : i.val < (bytes.take n).length := by
    rw [List.length_take]
    omega
  simp [Bytes.overwrite, List.getElem?_eq_getElem hlt]

theorem SameBytes.writes {l : List (Handle × List UInt8)} (h : SameBytes buffer n g₁ g₂)
    (hr : g₁.receiving = g₂.receiving) :
    SameBytes buffer n (l.foldl Board.write g₁) (l.foldl Board.write g₂) := by
  induction l generalizing g₁ g₂ with
  | nil => exact h
  | cons w l ih => exact ih (h.write hr w) (by simpa using hr)

theorem sameBytes_of_writes (hr : g₁.receiving = g₂.receiving) {handle : Handle}
    (hreceiving : g₁.receiving handle = some (buffer, n)) {l : List (Handle × List UInt8)}
    {bytes : List UInt8} (hl : (handle, bytes) ∈ l) (hn : n ≤ bytes.length) :
    SameBytes buffer n (l.foldl Board.write g₁) (l.foldl Board.write g₂) := by
  obtain ⟨l₁, l₂, rfl⟩ := List.append_of_mem hl
  rw [List.foldl_append, List.foldl_append]
  have hr' : (l₁.foldl Board.write g₁).receiving = (l₁.foldl Board.write g₂).receiving := by
    rw [receiving_writes, receiving_writes, hr]
  have hreceiving' : (l₁.foldl Board.write g₁).receiving handle = some (buffer, n) := by
    rw [receiving_writes, hreceiving]
  exact (sameBytes_of_write hr' hreceiving' hn).writes (by simpa using hr')

theorem sameBytes_fires (l : List Callback) :
    SameBytes buffer n (l.foldl Board.fire g₁) (l.foldl Board.fire g₂) ↔
      SameBytes buffer n g₁ g₂ := by
  unfold SameBytes
  rw [buffers_fire, buffers_fire]

theorem SameBytes.advance (h : SameBytes buffer n g₁ g₂) (hr : g₁.receiving = g₂.receiving)
    (a : Slot) : SameBytes buffer n (g₁.advance a) (g₂.advance a) :=
  (sameBytes_fires a.fired).mpr (h.writes hr)

theorem SameBytes.take (h : SameBytes buffer n g₁ g₂) :
    (g₁.buffers buffer).toList.take n = (g₂.buffers buffer).toList.take n := by
  apply List.ext_getElem
  · simp
  · intro i h₁ h₂
    have hi : i < n ∧ i < appProtocolMaxPatternLen := by simpa using h₁
    simpa using h ⟨i, hi.2⟩ hi.1

end

/-! ### Relations that the parts of a handler keep -/

/-- A relation of two runs that survives acts that start nothing, what happens between two calls of
the HAL, and the same new bytes in a buffer. -/
structure Stable (p : Peripheral) (n : ℕ) (I : List Act → Board → Board → Prop) : Prop where
  idle : ∀ {w u : List Act} {g₁ g₂ : Board}, Idle u → I w g₁ g₂ → I (w ++ u) g₁ g₂
  advance : ∀ {w : List Act} {g₁ g₂ : Board} {a : Slot}, a.Delivers p n →
    KeepsRules p (w ++ a.fired.map .callback) → I w g₁ g₂ → I w (g₁.advance a) (g₂.advance a)
  overwrite : ∀ {w : List Act} {g₁ g₂ : Board} (buffer : Buffer) (bytes : List UInt8),
    I w g₁ g₂ → I w (g₁.overwrite buffer bytes) (g₂.overwrite buffer bytes)

theorem idle_callbacks (l : List Callback) : Idle (l.map .callback) :=
  filterMap_callbacks (fun _ => rfl) l

namespace Stable

variable {p : Peripheral} {n : ℕ} {I : List Act → Board → Board → Prop}

theorem pause (hI : Stable p n I) : Replay.Keeps (halSetting p n) I Handler.pause := by
  intro w g₁ g₂ env henv hpre o ho hrules
  cases env with
  | nil => cases ho
  | cons a env =>
      obtain rfl := Option.some.inj ((plays_pause g₁ a env).symm.trans ho)
      refine ⟨fun _ => List.mem_cons_of_mem a, _, plays_pause g₂ a env, rfl, rfl, rfl, ?_⟩
      have hpost := hI.advance (henv a List.mem_cons_self) hrules hpre
      exact hI.idle (idle_callbacks a.fired) hpost

theorem act (hI : Stable p n I) {x : Act} (hx : x.attempt = none) :
    Replay.Keeps (halSetting p n) I (Handler.act x) := by
  have hidle : Idle [x] := List.filterMap_cons_none hx
  exact Replay.coupled_emit rfl fun _ _ _ hpre => ⟨rfl, hI.idle hidle hpre⟩

theorem appLogIf (hI : Stable p n I) (line : Option String) :
    Replay.Keeps (halSetting p n) I (Handler.appLogIf line) := by
  cases line with
  | none => exact Replay.keeps_pure ()
  | some line => exact hI.act rfl

theorem vTaskDelay (hI : Stable p n I) (ms : ℕ) :
    Replay.Keeps (halSetting p n) I (Handler.vTaskDelay ms) :=
  (hI.act rfl).then fun _ => hI.pause.then fun _ => Replay.keeps_pure ()

theorem halGetTick (hI : Stable p n I) : Replay.Keeps (halSetting p n) I Handler.halGetTick :=
  hI.pause.then fun a => Replay.keeps_pure a.count

theorem halInit (hI : Stable p n I) (h : Handle) :
    Replay.Keeps (halSetting p n) I (Handler.halInit h) := hI.pause.then fun _ => hI.act rfl

theorem memset (hI : Stable p n I) (buffer : Buffer) (value : UInt8) (length : ℕ) :
    Replay.Keeps (halSetting p n) I (Handler.memset buffer value length) :=
  Replay.keeps_modify fun _ _ _ hpre => hI.overwrite buffer (List.replicate length value) hpre

theorem prepares (hI : Stable p n I) {m : Handler Unit} (h : Prepares m) :
    Replay.Keeps (halSetting p n) I m := by
  induction h with
  | pure => exact Replay.keeps_pure ()
  | delay ms => exact hI.vTaskDelay ms
  | memset buffer value length => exact hI.memset buffer value length
  | after _ _ ih ih' => exact ih.then fun _ => ih'

end Stable

/-! ### Between two calls -/

/-- The two boards are in the same hardware state, and agree on the first `n` bytes of some
buffers. -/
structure Alike (history : List Act → Prop) (buffers : List Buffer) (n : ℕ) (w : List Act)
    (g₁ g₂ : Board) : Prop where
  history : history w
  receiving : g₁.receiving = g₂.receiving
  crc : g₁.crc = g₂.crc
  bytes : ∀ buffer ∈ buffers, SameBytes buffer n g₁ g₂

namespace Alike

variable {p : Peripheral} {n : ℕ} {history : List Act → Prop} {buffers : List Buffer}

theorem stable (hh : ∀ w u, Idle u → history w → history (w ++ u)) :
    Stable p n (Alike history buffers n) where
  idle hu h := ⟨hh _ _ hu h.history, h.receiving, h.crc, h.bytes⟩
  advance _ _ h := ⟨h.history, by simpa using h.receiving, by rw [crc_advance, crc_advance, h.crc],
    fun buffer hb => (h.bytes buffer hb).advance h.receiving _⟩
  overwrite buffer' bytes h := ⟨h.history, h.receiving, h.crc,
    fun buffer hb => (h.bytes buffer hb).overwrite buffer' bytes⟩

theorem halStop (hI : Stable p n (Alike history buffers n)) {x : Handle → Act} {h : Handle}
    (hx : (x h).attempt = none) :
    Replay.Keeps (halSetting p n) (Alike history buffers n) (Handler.halStop x h) := by
  apply hI.pause.then
  intro _
  apply (hI.act hx).then
  intro _
  apply Replay.keeps_modify
  intro w g₁ g₂ hpre
  refine ⟨hpre.history, ?_, hpre.crc, fun buffer hb => hpre.bytes buffer hb⟩
  exact congrArg (Function.update · h none) hpre.receiving

theorem clearFlags (l : List Flag) :
    Replay.Keeps (halSetting p n) (Alike history buffers n) (Handler.clearFlags l) :=
  Replay.keeps_modify fun _ _ _ hpre => ⟨hpre.history, hpre.receiving, hpre.crc, hpre.bytes⟩

theorem resets (hI : Stable p n (Alike history buffers n)) {m : Handler Unit} (h : Resets m) :
    Replay.Keeps (halSetting p n) (Alike history buffers n) m := by
  induction h with
  | pure => exact Replay.keeps_pure ()
  | abort h | deInit h => exact halStop hI rfl
  | init h => exact hI.halInit h
  | delay ms => exact hI.vTaskDelay ms
  | clear l => exact hI.pause.then fun _ => clearFlags l
  | after _ _ ih ih' => exact ih.then fun _ => ih'

end Alike

/-! ### During a call -/

/-- The reception of a helper: the operation, its completion flag, and its buffer. -/
structure Helper.Receives (x : Helper) (op : Operation) (f : Flag) (buffer : Buffer) (n : ℕ) :
    Prop where
  awaits : x.Awaits op f
  rx : op.rx = some buffer
  length : op.length = n

/-- In a call that has made the trace `w`: the boards agree on the flags that the helper looks at,
and once the reception has completed also on what it has written. -/
structure Waiting (x : Helper) (op : Operation) (f : Flag) (buffer : Buffer) (n : ℕ)
    (w : List Act) (g₁ g₂ : Board) : Prop where
  receiving : g₁.receiving = g₂.receiving
  crc : g₁.crc = g₂.crc
  flags : ∀ f' ∈ x.transfer.cleared, g₁.flags f' = g₂.flags f'
  attempts : ∀ op' ok, .start op' ok ∈ w → op' = x.first ∨ op' = x.second
  started : .start op true ∈ w → g₁.receiving op.handle = some (buffer, n)
  fresh : g₁.flags f = true → SameBytes buffer n g₁ g₂

theorem Idle.not_mem {w : List Act} (hw : Idle w) {op : Operation} {ok : Bool} :
    .start op ok ∉ w := by
  intro hmem
  have hattempt := mem_attempts hmem
  rw [hw] at hattempt
  cases hattempt

section

variable {x : Helper} {op : Operation} {f : Flag} {buffer : Buffer} {n : ℕ} {p : Peripheral}
  {handles : List Handle}

/-- A callback that sets the flag of the reception is its completion. -/
theorem Waiting.callback_eq (hb : x.OnBus p handles) (hop : x.Awaits op f) {w : List Act}
    {g₁ g₂ : Board} (h : Waiting x op f buffer n w g₁ g₂) {l : List Callback}
    (hrules : KeepsRules p (w ++ l.map .callback)) {cb : Callback} (hcb : cb ∈ l)
    (hf : cb.flag = some f) : cb = op.completion ∧ .start op true ∈ w := by
  have hcompletes := hb.completes cb f hop.flag_mem hf
  obtain ⟨l₁, l₂, rfl⟩ := List.append_of_mem hcb
  have hevents : events p (w ++ (l₁ ++ cb :: l₂).map .callback) =
      events p (w ++ l₁.map .callback) ++ .complete cb :: events p (l₂.map .callback) := by
    rw [List.map_append, ← List.append_assoc, events_append]
    exact congrArg _ (List.filterMap_cons_some (if_pos hcompletes))
  rw [KeepsRules, hevents] at hrules
  obtain ⟨op', rfl, hnone | hstart⟩ := hrules.exists_start
  · cases hnone
  · rcases List.mem_append.mp (mem_events_start.mp hstart) with hmem | hmem
    · obtain rfl := hop.unique hb (h.attempts op' true hmem) hf
      exact ⟨rfl, hmem⟩
    · exact absurd hmem (idle_callbacks l₁).not_mem

theorem Waiting.stable (hb : x.OnBus p handles) (hop : x.Receives op f buffer n) :
    Stable p n (Waiting x op f buffer n) where
  idle {w u g₁ g₂} hu h := by
    have hmem : ∀ {op' ok}, .start op' ok ∈ w ++ u → .start op' ok ∈ w := fun hmem =>
      (List.mem_append.mp hmem).resolve_right hu.not_mem
    exact ⟨h.receiving, h.crc, h.flags, fun op' ok hstart => h.attempts op' ok (hmem hstart),
      fun hstart => h.started (hmem hstart), h.fresh⟩
  advance {w g₁ g₂ a} hfair hrules h := by
    refine ⟨by simpa using h.receiving, by rw [crc_advance, crc_advance, h.crc], ?_, h.attempts,
      ?_, ?_⟩
    · intro f' hf'
      rw [flags_advance, flags_advance, h.flags f' hf']
    · intro hstart
      rw [receiving_advance]
      exact h.started hstart
    · intro hset
      rw [flags_advance, Bool.or_eq_true] at hset
      rcases hset with hset | hset
      · exact (h.fresh hset).advance h.receiving a
      · -- the completion comes with all the bytes of the reception
        obtain ⟨cb, hf, hmem⟩ := exists_of_signalled hset
        have hcb : cb ∈ a.fired := by simpa using hmem
        obtain ⟨rfl, hstart⟩ := h.callback_eq hb hop.awaits hrules hcb hf
        have hcompletes := hb.completes _ f hop.awaits.flag_mem hf
        obtain ⟨⟨_, bytes⟩, hbytes, rfl, hn⟩ :=
          hfair _ hcb hcompletes _ (Operation.received_completion hop.rx)
        exact (sameBytes_fires a.fired).mpr
          (sameBytes_of_writes h.receiving (h.started hstart) hbytes hn)
  overwrite buffer' bytes h :=
    ⟨h.receiving, h.crc, h.flags, h.attempts, h.started,
      fun hset => (h.fresh hset).overwrite buffer' bytes⟩

/-- The helper clears the flags that it will look at. -/
theorem Waiting.clearFlags (hop : x.Awaits op f) :
    Replay.Coupled (halSetting p n) (Alike Idle [] n) (Handler.clearFlags x.transfer.cleared)
      (Handler.clearFlags x.transfer.cleared) (Replay.Both (Waiting x op f buffer n)) := by
  apply Replay.coupled_modify
  intro w g₁ g₂ hpre
  refine ⟨rfl, hpre.receiving, hpre.crc, ?_, ?_, ?_, ?_⟩
  · intro f' hf'
    simp [Flags.clear, hf']
  · exact fun op' ok hmem => absurd hmem hpre.history.not_mem
  · exact fun hmem => absurd hmem hpre.history.not_mem
  · intro hset
    have hcleared : f ∈ x.transfer.cleared := by
      rcases hop.flag_mem with rfl | rfl <;> simp [Transfer.cleared]
    simp [Flags.clear, hcleared] at hset

theorem Waiting.completed {w : List Act} {g₁ g₂ : Board} (h : Waiting x op f buffer n w g₁ g₂) :
    x.transfer.completed g₂.flags = x.transfer.completed g₁.flags := by
  unfold Transfer.completed
  rw [h.flags x.transfer.done.1 (by simp [Transfer.cleared]),
    h.flags x.transfer.done.2 (by simp [Transfer.cleared])]

theorem Waiting.error {w : List Act} {g₁ g₂ : Board} (h : Waiting x op f buffer n w g₁ g₂) :
    g₂.flags x.transfer.error = g₁.flags x.transfer.error :=
  (h.flags x.transfer.error (by simp [Transfer.cleared])).symm

/-- What the wait loop leaves: the same decision, and when it is done the flag of the reception. -/
def Waiting.Ended (x : Helper) (op : Operation) (f : Flag) (buffer : Buffer) (n : ℕ)
    (how how' : Poll) (w : List Act) (g₁ g₂ : Board) : Prop :=
  how' = how ∧ Waiting x op f buffer n w g₁ g₂ ∧ (how = .done → g₁.flags f = true)

theorem Waiting.waitLoop (hb : x.OnBus p handles) (hop : x.Receives op f buffer n)
    (startTick : UInt32) :
    Replay.Coupled (halSetting p n) (Waiting x op f buffer n)
      (Firmware.waitLoop x.transfer startTick : Handler Poll)
      (Firmware.waitLoop x.transfer startTick : Handler Poll) (Waiting.Ended x op f buffer n) := by
  have hI := Waiting.stable hb hop
  have hstep : ∀ {w g₁ g₂ a}, a.Delivers p n → KeepsRules p (w ++ a.fired.map .callback) →
      Waiting x op f buffer n w g₁ g₂ →
      Waiting x op f buffer n (w ++ a.fired.map .callback) (g₁.advance a) (g₂.advance a) :=
    fun hfair hrules h => hI.idle (idle_callbacks _) (hI.advance hfair hrules h)
  intro w g₁ g₂ env
  fun_induction Firmware.waitLoop x.transfer startTick g₁ env generalizing w g₂ with
  | case1 | case3 | case5 =>
      intro _ _ o ho
      cases ho
  | case2 b a₁ env b₁ acts₁ hc =>
      intro henv hpre o ho (hrules : KeepsRules p _)
      obtain rfl := Option.some.inj ho
      have h₁ := hstep (henv a₁ (by simp)) hrules hpre
      have hset : b₁.flags f = true := by
        rw [Transfer.completed, Bool.and_eq_true] at hc
        rcases hop.awaits.flag_mem with rfl | rfl
        · exact hc.1
        · exact hc.2
      refine ⟨fun _ => List.mem_cons_of_mem a₁, ⟨.done, g₂.advance a₁, env, acts₁⟩, ?_, rfl, rfl,
        rfl, h₁, fun _ => hset⟩
      rw [waitLoop.eq_def]
      exact if_pos (h₁.completed.trans hc)
  | case4 b a₁ b₁ acts₁ hc a₂ env b₂ acts₂ he =>
      intro henv hpre o ho (hrules : KeepsRules p _)
      obtain rfl := Option.some.inj ho
      simp only [acts₂, acts₁, ← List.append_assoc] at hrules
      have h₁ := hstep (henv a₁ (by simp)) hrules.of_append hpre
      have h₂ := hstep (henv a₂ (by simp)) hrules h₁
      refine ⟨fun _ he => by simp [he], ⟨.error, (g₂.advance a₁).advance a₂, env, acts₂⟩, ?_, rfl,
        rfl, rfl, ?_, by simp⟩
      · rw [waitLoop.eq_def]
        exact (if_neg (h₁.completed.trans_ne hc)).trans (if_pos (h₂.error.trans he))
      · simpa only [acts₂, acts₁, ← List.append_assoc] using h₂
  | case6 b a₁ b₁ acts₁ hc a₂ b₂ acts₂ he a₃ env b₃ acts₃ ht =>
      intro henv hpre o ho (hrules : KeepsRules p _)
      obtain rfl := Option.some.inj ho
      simp only [acts₃, acts₂, acts₁, ← List.append_assoc] at hrules
      have h₁ := hstep (henv a₁ (by simp)) hrules.of_append.of_append hpre
      have h₂ := hstep (henv a₂ (by simp)) hrules.of_append h₁
      have h₃ := hstep (henv a₃ (by simp)) hrules h₂
      refine ⟨fun _ he => by simp [he],
        ⟨.timeout, ((g₂.advance a₁).advance a₂).advance a₃, env, acts₃⟩, ?_, rfl, rfl, rfl, ?_,
        by simp⟩
      · rw [waitLoop.eq_def]
        exact (if_neg (h₁.completed.trans_ne hc)).trans
          ((if_neg (h₂.error.trans_ne he)).trans (if_pos ht))
      · simpa only [acts₃, acts₂, acts₁, ← List.append_assoc] using h₃
  | case7 b a₁ b₁ acts₁ hc a₂ b₂ acts₂ he a₃ env b₃ acts₃ ht ih =>
      intro henv hpre o ho (hrules : KeepsRules p _)
      obtain ⟨o', ho', rfl⟩ := Option.map_eq_some_iff.mp ho
      have hall : w ++ (acts₃ ++ .delay 1 :: o'.trace) = w ++ a₁.fired.map .callback ++
          a₂.fired.map .callback ++ a₃.fired.map .callback ++ [.delay 1] ++ o'.trace := by
        simp [acts₃, acts₂, acts₁]
      rw [hall] at hrules
      have hrules₃ := hrules.of_append.of_append
      have h₁ := hstep (henv a₁ (by simp)) hrules₃.of_append.of_append hpre
      have h₂ := hstep (henv a₂ (by simp)) hrules₃.of_append h₁
      have h₃ := hI.idle (u := [.delay 1]) rfl (hstep (henv a₃ (by simp)) hrules₃ h₂)
      have henv' : ∀ e ∈ env, e.Delivers p n := fun e hmem => henv e (by simp [hmem])
      obtain ⟨hrest, o₂, ho₂, hm⟩ := ih _ _ henv' h₃ o' ho' hrules
      refine ⟨fun e hmem => by simp [hrest e hmem],
        { o₂ with trace := acts₃ ++ .delay 1 :: o₂.trace },
        ?_, hm.rest, ?_, ?_⟩
      · rw [waitLoop.eq_def]
        refine (if_neg (h₁.completed.trans_ne hc)).trans
          ((if_neg (h₂.error.trans_ne he)).trans ((if_neg ht).trans ?_))
        rw [ho₂]
        rfl
      · have hacts : ∀ w' : List Act, (acts₃ ++ .delay 1 :: w').filterMap Act.response =
            acts₃.filterMap Act.response ++ w'.filterMap Act.response :=
          fun _ => List.filterMap_append
        exact (hacts o₂.trace).trans ((congrArg _ hm.seen).trans (hacts o'.trace).symm)
      · have hpost := hm.post
        rw [← hall] at hpost
        exact hpost

/-- The operation with other data to transmit. -/
def Operation.withTx (op : Operation) (tx : Option (List UInt8)) : Operation := { op with tx := tx }

/-- The helper with other data to transmit. -/
def Helper.withTx (x : Helper) (tx tx' : Option (List UInt8)) : Helper :=
  { x with
    first := x.first.withTx tx
    second := x.second.withTx tx' }

/-- The receptions after a call that starts an operation. -/
def Operation.receiving (op : Operation) (ok : Bool) (r : Handle → Option (Buffer × ℕ)) :
    Handle → Option (Buffer × ℕ) :=
  match op.rx with
  | some buffer => if ok then Function.update r op.handle (some (buffer, op.length)) else r
  | none => r

theorem Operation.receiving_of_ne {op : Operation} {ok : Bool}
    {r : Handle → Option (Buffer × ℕ)} {h : Handle} (hne : h ≠ op.handle) :
    op.receiving ok r h = r h := by
  obtain ⟨mode, handle, tx, rx, length⟩ := op
  cases rx with
  | none => rfl
  | some buffer =>
      cases ok with
      | true => exact Function.update_of_ne hne _ _
      | false => rfl

/-- The board after such a call. -/
def Board.started (g : Board) (op : Operation) (ok : Bool) : Board :=
  { g with receiving := op.receiving ok g.receiving }

theorem halStart_slot (op : Operation) (g : Board) (a : Slot) (env : List Slot) :
    Handler.halStart op g (a :: env) = some
      ⟨a.ok, (g.advance a).started op a.ok, env, a.fired.map .callback ++ [.start op a.ok]⟩ := by
  have hboard : (match op.rx with
      | some buffer =>
          if a.ok then
            { g.advance a with
              receiving := Function.update (g.advance a).receiving op.handle
                (some (buffer, op.length)) }
          else g.advance a
      | none => g.advance a) = (g.advance a).started op a.ok := by
    unfold Board.started Operation.receiving
    cases op.rx with
    | none => rfl
    | some buffer => cases a.ok <;> rfl
  rw [← hboard]
  exact Replay.bind_some.mpr
    ⟨_, plays_pause g a env, ⟨a.ok, _, env, [.start op a.ok]⟩, rfl, rfl⟩

/-- A start that the helper makes. -/
theorem Waiting.afterStart (hb : x.OnBus p handles) (hop : x.Receives op f buffer n)
    {op' : Operation} (hop' : op' = x.first ∨ op' = x.second) {w : List Act} {g₁ g₂ : Board}
    (h : Waiting x op f buffer n w g₁ g₂) (ok : Bool) :
    Waiting x op f buffer n (w ++ [.start op' ok]) (g₁.started op' ok) (g₂.started op' ok) where
  receiving := congrArg (op'.receiving ok) h.receiving
  crc := h.crc
  flags := h.flags
  attempts := by
    intro op'' ok' hmem
    rcases List.mem_append.mp hmem with hmem | hmem
    · exact h.attempts op'' ok' hmem
    · obtain ⟨rfl, rfl⟩ := Act.start.inj (List.mem_singleton.mp hmem)
      exact hop'
  started := by
    intro hmem
    rcases List.mem_append.mp hmem with hmem | hmem
    · -- the reception is already running, on a handle of its own
      have hreceiving := h.started hmem
      show op'.receiving ok g₁.receiving op.handle = _
      by_cases heq : op' = op
      · subst heq
        cases ok with
        | true => simp [Operation.receiving, hop.rx, hop.length]
        | false => simpa [Operation.receiving, hop.rx] using hreceiving
      · have hhandle : op.handle ≠ op'.handle := by
          have hop : op = x.first ∨ op = x.second := h.attempts op true hmem
          rcases hop with rfl | rfl <;> rcases hop' with rfl | rfl
          · exact absurd rfl heq
          · exact hb.distinct
          · exact hb.distinct.symm
          · exact absurd rfl heq
        rw [Operation.receiving_of_ne hhandle]
        exact hreceiving
    · obtain ⟨rfl, rfl⟩ := Act.start.inj (List.mem_singleton.mp hmem)
      show op.receiving true g₁.receiving op.handle = _
      simp [Operation.receiving, hop.rx, hop.length]
  fresh := h.fresh

theorem Waiting.halStart (hb : x.OnBus p handles) (hop : x.Receives op f buffer n)
    {op' : Operation} (hop' : op' = x.first ∨ op' = x.second) (tx : Option (List UInt8)) :
    Replay.Coupled (halSetting p n) (Waiting x op f buffer n) (Handler.halStart op')
      (Handler.halStart (op'.withTx tx)) (Replay.Both (Waiting x op f buffer n)) := by
  have hI := Waiting.stable hb hop
  intro w g₁ g₂ env henv hpre o ho (hrules : KeepsRules p _)
  cases env with
  | nil => cases ho
  | cons a env =>
      obtain rfl := Option.some.inj ((halStart_slot op' g₁ a env).symm.trans ho)
      rw [← List.append_assoc] at hrules
      have h := hI.idle (idle_callbacks a.fired)
        (hI.advance (henv a List.mem_cons_self) hrules.of_append hpre)
      refine ⟨fun _ => List.mem_cons_of_mem a, _, halStart_slot (op'.withTx tx) g₂ a env, rfl, ?_,
        rfl, ?_⟩
      · rw [List.filterMap_append, List.filterMap_append]
        rfl
      · rw [← List.append_assoc]
        exact h.afterStart hb hop hop' a.ok

/-- The parts of a helper that are its own keep what the two runs have in common. -/
structure Helper.Steady (x : Helper) (p : Peripheral) (n : ℕ) : Prop where
  before : Replay.Keeps (halSetting p n) (Alike Idle [] n) x.before
  prepare : ∀ I, Stable p n I → Replay.Keeps (halSetting p n) I x.prepare
  between : ∀ I, Stable p n I → Replay.Keeps (halSetting p n) I x.between
  abort : Replay.Keeps (halSetting p n) (Alike (fun _ => True) [] n) x.abort

/-- What a call leaves in common: the value, the hardware, and if it returns OK what was
received. -/
def Returns (buffer : Buffer) (n : ℕ) (a b : Bool) (_ : List Act) (g₁ g₂ : Board) : Prop :=
  b = a ∧ g₁.receiving = g₂.receiving ∧ g₁.crc = g₂.crc ∧ (a = true → SameBytes buffer n g₁ g₂)

theorem Helper.coupled_fail (hx : x.Steady p n) (line : Option String)
    (tx tx' : Option (List UInt8)) :
    Replay.Coupled (halSetting p n) (Waiting x op f buffer n) (x.fail line)
      ((x.withTx tx tx').fail line) (Returns buffer n) := by
  have hI : Stable p n (Alike (fun _ => True) [] n) := Alike.stable fun _ _ _ _ => trivial
  have hfail : Replay.Coupled (halSetting p n) (Alike (fun _ => True) [] n) (x.fail line)
      ((x.withTx tx tx').fail line) (Returns buffer n) := by
    apply (hI.appLogIf line).then
    intro _
    apply hx.abort.then
    intro _
    exact Replay.coupled_pure fun _ _ _ h =>
      ⟨rfl, h.receiving, h.crc, fun hfalse => by cases hfalse⟩
  exact hfail.mono (fun _ _ _ h => ⟨trivial, h.receiving, h.crc, by simp⟩) fun _ _ _ _ _ h => h

theorem Helper.coupled_finish (hb : x.OnBus p handles) (hx : x.Steady p n)
    (hop : x.Receives op f buffer n) (startTick : UInt32) (tx tx' : Option (List UInt8)) :
    Replay.Coupled (halSetting p n) (Waiting x op f buffer n) (x.finish startTick)
      ((x.withTx tx tx').finish startTick) (Returns buffer n) := by
  have hdone : Replay.Coupled (halSetting p n)
      (fun w g₁ g₂ => Waiting x op f buffer n w g₁ g₂ ∧ g₁.flags f = true)
      (act (.completed x.transfer) >>= fun _ => pure true)
      (act (.completed x.transfer) >>= fun _ => pure true) (Returns buffer n) := by
    apply Replay.Coupled.bind
      (Q := fun _ _ _ g₁ g₂ => g₁.receiving = g₂.receiving ∧ g₁.crc = g₂.crc ∧
        SameBytes buffer n g₁ g₂)
    · exact Replay.coupled_emit rfl fun _ _ _ h =>
        ⟨h.1.receiving, h.1.crc, h.1.fresh h.2⟩
    · intro _ _
      exact Replay.coupled_pure fun _ _ _ h => ⟨rfl, h.1, h.2.1, fun _ => h.2.2⟩
  apply (Waiting.waitLoop hb hop startTick).bind
  intro how how' w g₁ g₂ env henv hpre
  obtain ⟨rfl, hwaiting, hset⟩ := hpre
  cases how' with
  | done => exact hdone w g₁ g₂ env henv ⟨hwaiting, hset rfl⟩
  | error => exact Helper.coupled_fail hx _ tx tx' w g₁ g₂ env henv hwaiting
  | timeout | delay => exact Helper.coupled_fail hx _ tx tx' w g₁ g₂ env henv hwaiting

theorem Helper.coupled_run (hb : x.OnBus p handles) (hx : x.Steady p n)
    (hop : x.Receives op f buffer n) (length : UInt8) (tx tx' : Option (List UInt8)) :
    Replay.Coupled (halSetting p n) (Alike Idle [] n) (x.run length)
      ((x.withTx tx tx').run length) (Returns buffer n) := by
  have hI := Waiting.stable hb hop
  apply Replay.Coupled.ite
  · intro _
    exact Replay.coupled_pure fun _ _ _ h =>
      ⟨rfl, h.receiving, h.crc, fun hfalse => by cases hfalse⟩
  intro _
  apply hx.before.then
  intro _
  apply Replay.Coupled.then (Waiting.clearFlags hop.awaits)
  intro _
  apply (hx.prepare _ hI).then
  intro _
  apply Replay.Coupled.then (Waiting.halStart hb hop (.inl rfl) tx)
  intro started
  apply Replay.Coupled.ite _ fun _ => Helper.coupled_fail hx _ tx tx'
  intro _
  apply (hx.between _ hI).then
  intro _
  apply Replay.Coupled.then (Waiting.halStart hb hop (.inr rfl) tx')
  intro started
  apply Replay.Coupled.ite _ fun _ => Helper.coupled_fail hx _ tx tx'
  intro _
  exact hI.halGetTick.then fun startTick => Helper.coupled_finish hb hx hop startTick tx tx'

/-- Between two calls, nothing is outstanding on the bus. -/
abbrev Between (p : Peripheral) (buffers : List Buffer) (n : ℕ) :
    List Act → Board → Board → Prop := Alike (fun w => underway p w = []) buffers n

theorem Between.stable (p : Peripheral) (buffers : List Buffer) (n : ℕ) :
    Stable p n (Between p buffers n) := by
  apply Alike.stable
  intro w u hu hw
  rw [underway_append hw]
  exact hu.underway

/-- What a call leaves in common, and again nothing is outstanding. -/
def Transferred (p : Peripheral) (buffer : Buffer) (n : ℕ) (a b : Bool) (w : List Act)
    (g₁ g₂ : Board) : Prop :=
  b = a ∧ Between p [] n w g₁ g₂ ∧ (a = true → SameBytes buffer n g₁ g₂)

end

/-! ### The ten helpers -/

theorem TransferCall.helper_steady (txData : List UInt8) (rxData : Buffer) (length : UInt8)
    (p : Peripheral) (n : ℕ) (c : TransferCall) :
    (c.helper txData rxData length).val.Steady p n := by
  have hidle : Stable p n (Alike Idle [] n) := Alike.stable fun _ _ hu hw => hw.append hu
  have htrue : Stable p n (Alike (fun _ => True) [] n) := Alike.stable fun _ _ _ _ => trivial
  have hplain := c.helper_plain txData rxData length
  exact ⟨Alike.resets hidle hplain.before, fun _ hI => hI.prepares hplain.prepare,
    fun _ hI => hI.prepares hplain.between, Alike.resets htrue hplain.abort⟩

/-- One of the two operations of a helper receives the data. -/
theorem TransferCall.helper_receives (txData : List UInt8) (rxData : Buffer) (length : UInt8)
    (c : TransferCall) :
    ∃ op f, (c.helper txData rxData length).val.Receives op f rxData length.toNat := by
  cases c with
  | appUartTestTransferIt | appUartTestTransferDma | appSpiTestMasterToSlaveIt
  | appSpiTestMasterToSlaveDma | appI2cTestMasterToSlaveIt | appI2cTestMasterToSlaveDma =>
      exact ⟨_, _, .first, rfl, rfl⟩
  | appSpiTestSlaveToMasterIt | appSpiTestSlaveToMasterDma | appI2cTestSlaveToMasterIt
  | appI2cTestSlaveToMasterDma => exact ⟨_, _, .second, rfl, rfl⟩

/-- The data to transmit stand in the operations only. -/
theorem TransferCall.helper_withTx (txData txData' : List UInt8) (rxData : Buffer) (length : UInt8)
    (c : TransferCall) :
    ∃ tx tx', (c.helper txData' rxData length).val =
      (c.helper txData rxData length).val.withTx tx tx' := by
  cases c <;> exact ⟨_, _, rfl⟩

section

variable {b : Backend} {x : Loopback} (hx : b.loopback = some x)

include hx

/-- Two calls with the same arguments but for the data to transmit. -/
theorem TransferCall.coupled {c : TransferCall} (hc : c ∈ x.calls) (txData txData' : List UInt8)
    (rxData : Buffer) (length : UInt8) (buffers : List Buffer) :
    Replay.Coupled (halSetting b.peripheral length.toNat)
      (Between b.peripheral buffers length.toNat) (c.run txData rxData length)
      (c.run txData' rxData length) (Transferred b.peripheral rxData length.toNat) := by
  obtain ⟨op, f, hop⟩ := c.helper_receives txData rxData length
  obtain ⟨tx, tx', heq⟩ := c.helper_withTx txData txData' rxData length
  have hb := b.helper_onBus hx hc txData rxData length
  rw [(c.helper txData rxData length).property, (c.helper txData' rxData length).property, heq]
  intro w g₁ g₂ env henv hpre o₁ ho₁ (hrules : KeepsRules b.peripheral _)
  have hown := ((keepsRules_append hpre.history).mp hrules).2
  obtain ⟨hrest, o₂, ho₂, hm⟩ := Helper.coupled_run hb (c.helper_steady _ _ _ _ _) hop length tx tx'
    [] g₁ g₂ env henv ⟨rfl, hpre.receiving, hpre.crc, by simp⟩ o₁ ho₁ hown
  obtain ⟨hvalue, hreceiving, hcrc, hbytes⟩ := hm.post
  have hcourse := Helper.course (c.helper_controlled _ _ _) (c.helper_proper _ _ _) ho₁
  refine ⟨hrest, o₂, ho₂, hm.rest, hm.seen, hvalue, ⟨?_, hreceiving, hcrc, by simp⟩, hbytes⟩
  show underway b.peripheral (w ++ o₁.trace) = []
  rw [underway_append hpre.history]
  exact hcourse.nothing_left hb hown

end

/-! ### Comparisons -/

section

variable {p : Peripheral} {n : ℕ}

/-- Two comparisons with what was received. -/
theorem coupled_compare {buffers : List Buffer} {expected actual actual' : List UInt8}
    {length : UInt8} (h : actual.take length.toNat = actual'.take length.toNat) :
    Replay.Coupled (halSetting p n) (Between p buffers n) (compare expected actual length)
      (compare expected actual' length) (Replay.Both (Between p buffers n)) := by
  have hI := Between.stable p buffers n
  apply hI.pause.then
  intro a
  apply Replay.coupled_get
  intro t₁ t₂ w g₁ g₂ env henv hpre
  obtain ⟨hpre, rfl, rfl⟩ := hpre
  dsimp only
  rw [← appDataCompare_congr h, ← hpre.crc]
  refine Replay.Coupled.then (I := Between p buffers n) ?_ (fun _ => ?_) w g₁ g₂ env henv hpre
  · exact Replay.keeps_modify fun _ _ _ hpre => ⟨hpre.history, hpre.receiving, rfl, hpre.bytes⟩
  · refine Replay.Coupled.then (I := Between p buffers n) ?_ fun _ => Replay.keeps_pure _
    exact Replay.coupled_emit rfl fun _ _ _ hpre => ⟨rfl, hI.idle rfl hpre⟩

/-- Both runs read a buffer, and agree on the bytes that matter. -/
theorem coupled_bytes {α : Type} {buffer : Buffer} {f₁ f₂ : List UInt8 → Handler α}
    {Q : α → α → List Act → Board → Board → Prop}
    (h : ∀ l l' : List UInt8, l.take n = l'.take n →
      Replay.Coupled (halSetting p n) (Between p [buffer] n) (f₁ l) (f₂ l') Q) :
    Replay.Coupled (halSetting p n) (Between p [buffer] n) (bytes buffer >>= f₁)
      (bytes buffer >>= f₂) Q := by
  apply Replay.Coupled.bind
    (Q := fun l l' w g₁ g₂ => l.take n = l'.take n ∧ Between p [buffer] n w g₁ g₂)
  · apply Replay.coupled_get
    intro t₁ t₂
    apply Replay.coupled_pure
    rintro w g₁ g₂ ⟨hpre, rfl, rfl⟩
    exact ⟨(hpre.bytes buffer List.mem_cons_self).take, hpre⟩
  · intro l l' w g₁ g₂ env henv hpre
    exact h l l' hpre.1 w g₁ g₂ env henv hpre.2

/-- What a call that returns OK has received is the same. -/
theorem Transferred.then {α : Type} {buffer : Buffer} {m₁ m₂ : Handler Bool}
    {P : List Act → Board → Board → Prop} {f₁ f₂ g₁ g₂ : Handler α}
    {Q : α → α → List Act → Board → Board → Prop}
    (hm : Replay.Coupled (halSetting p n) P m₁ m₂ (Transferred p buffer n))
    (hf : Replay.Coupled (halSetting p n) (Between p [buffer] n) f₁ f₂ Q)
    (hg : Replay.Coupled (halSetting p n) (Between p [] n) g₁ g₂ Q) :
    Replay.Coupled (halSetting p n) P (m₁ >>= fun sent => if sent then f₁ else g₁)
      (m₂ >>= fun sent => if sent then f₂ else g₂) Q := by
  apply hm.bind
  intro sent sent' w b₁ b₂ env henv hpre
  obtain ⟨rfl, hbetween, hbytes⟩ := hpre
  cases sent' with
  | true =>
      refine hf w b₁ b₂ env henv ⟨hbetween.history, hbetween.receiving, hbetween.crc, ?_⟩
      intro buffer' hb
      obtain rfl := List.mem_singleton.mp hb
      exact hbytes rfl
  | false => exact hg w b₁ b₂ env henv hbetween

theorem keeps_failWith {I : List Act → Board → Board → Prop} (hI : Stable p n I) (line : String) :
    Replay.Keeps (halSetting p n) I (failWith line) :=
  (hI.act rfl).then fun _ => Replay.keeps_pure false

end

/-! ### Tests -/

/-- The parts of a backend that are not transfers. -/
structure Loopback.Steady (x : Loopback) (p : Peripheral) (n : ℕ) : Prop where
  start : ∀ I, Stable p n I → Replay.Keeps (halSetting p n) I x.start
  prepare : ∀ I, Stable p n I → Replay.Keeps (halSetting p n) I x.prepare
  between : ∀ I, Stable p n I → Replay.Keeps (halSetting p n) I x.between

section

variable {b : Backend} {x : Loopback} (hx : b.loopback = some x)

include hx

theorem Backend.loopback_steady (p : Peripheral) (n : ℕ) : x.Steady p n := by
  have hplain := b.loopback_plain hx
  exact ⟨fun _ hI => hI.prepares hplain.start, fun _ hI => hI.prepares hplain.prepare,
    fun _ hI => hI.prepares hplain.between⟩

/-- The step: an iteration. -/
theorem Backend.keeps_iteration (failed : Fin 4 → String) (name : String) (c : Command) (i : ℕ) :
    Replay.Keeps (halSetting b.peripheral c.patternLen.toNat)
      (Between b.peripheral [] c.patternLen.toNat) ((x.test failed name).iteration c i) := by
  have hparts := Backend.loopback_steady hx b.peripheral c.patternLen.toNat
  have hstable := Between.stable b.peripheral [] c.patternLen.toNat
  have hfail : ∀ (exit : Fin 4) (buffers : List Buffer),
      Replay.Coupled (halSetting b.peripheral c.patternLen.toNat)
        (Between b.peripheral buffers c.patternLen.toNat) ((x.test failed name).fail i exit)
        ((x.test failed name).fail i exit)
        (Replay.Both (Between b.peripheral [] c.patternLen.toNat)) := by
    intro exit buffers
    refine (keeps_failWith hstable _).mono (fun _ _ _ h => ?_) fun _ _ _ _ _ h => h
    exact ⟨h.history, h.receiving, h.crc, by simp⟩
  apply (hparts.prepare _ hstable).then
  intro _
  apply Transferred.then (TransferCall.coupled hx List.mem_cons_self _ _ _ _ _) _ (hfail 0 _)
  apply coupled_bytes
  intro there there' hthere
  apply (coupled_compare hthere).then
  intro same
  apply Replay.Coupled.ite _ fun _ => hfail 1 _
  intro _
  apply (hparts.between _ (Between.stable _ _ _)).then
  intro _
  apply coupled_bytes
  intro there there' _
  have hback : x.back ∈ x.calls := List.mem_cons_of_mem _ List.mem_cons_self
  apply Transferred.then (TransferCall.coupled hx hback _ _ _ _ _) _ (hfail 2 _)
  apply coupled_bytes
  intro back back' hback
  apply (coupled_compare hback).then
  intro same
  apply Replay.Coupled.ite _ fun _ => hfail 3 _
  intro _
  exact Replay.coupled_pure fun _ _ _ h => ⟨rfl, h.history, h.receiving, h.crc, by simp⟩

theorem Backend.keeps_test (c : Command) :
    Replay.Keeps (halSetting b.peripheral c.patternLen.toNat)
      (Between b.peripheral [] c.patternLen.toNat) (b.test c) := by
  rcases b.test_cases hx c with ⟨failed, name, htest⟩ | ⟨_, htest⟩
  · rw [htest]
    have hparts := Backend.loopback_steady hx b.peripheral c.patternLen.toNat
    apply (hparts.start _ (Between.stable _ _ _)).then
    intro _
    have hloop := Replay.keeps_allOf (Backend.keeps_iteration hx failed name c)
      (List.range c.iterations.toNat)
    exact hloop.then fun passed => Replay.keeps_pure (verdict passed)
  · rw [htest]
    exact Replay.keeps_pure _

theorem Backend.keeps_execute (c : Command) :
    Replay.Keeps (halSetting b.peripheral c.patternLen.toNat)
      (Between b.peripheral [] c.patternLen.toNat) (b.execute c) := by
  have hstable := Between.stable b.peripheral [] c.patternLen.toNat
  apply (Backend.keeps_test hx c).then
  intro result
  apply hstable.pause.then
  intro a
  apply (hstable.act rfl).then
  intro _
  exact .ite (fun _ => Replay.keeps_pure ()) fun _ => hstable.act rfl

/-- **Verdicts do not depend on leftovers**: on the same hardware behaviour, whatever the buffers
and the flags hold at first, a command is answered by the same responses. -/
theorem leftovers_unseen (c : Command) {g₁ g₂ : Board} (hreceiving : g₁.receiving = g₂.receiving)
    (hcrc : g₁.crc = g₂.crc) {env : List Slot}
    (henv : ∀ a ∈ env, a.Delivers b.peripheral c.patternLen.toNat)
    {o₁ : Outcome Board Slot Act Unit} (ho₁ : b.execute c g₁ env = some o₁)
    (hrules : KeepsRules b.peripheral o₁.trace) :
    ∃ o₂, b.execute c g₂ env = some o₂ ∧
      o₂.trace.filterMap Act.response = o₁.trace.filterMap Act.response := by
  obtain ⟨_, o₂, ho₂, hm⟩ := Backend.keeps_execute hx c [] g₁ g₂ env henv
    ⟨rfl, hreceiving, hcrc, by simp⟩ o₁ ho₁ hrules
  exact ⟨o₂, ho₂, hm.seen⟩

end

/-- A board on which every flag and every byte is left set. -/
def usedBoard : Board :=
  { restingBoard with
    flags := fun _ => true
    buffers := fun _ => Vector.replicate appProtocolMaxPatternLen 0xFF }

theorem leftovers_unseen_used :
    ∃ o₁ o₂, Backend.spiIt.execute (spiCommand 2) restingBoard (mixedHistory.drop 16) = some o₁ ∧
      Backend.spiIt.execute (spiCommand 2) usedBoard (mixedHistory.drop 16) = some o₂ ∧
      o₁.trace.filterMap Act.response = [⟨2, appProtocolTestSuccess⟩] ∧
      o₂.trace.filterMap Act.response = [⟨2, appProtocolTestSuccess⟩] := by
  obtain ⟨o₁, ho₁, hview⟩ := Option.map_eq_some_iff.mp (show
    (Backend.spiIt.execute (spiCommand 2) restingBoard (mixedHistory.drop 16)).map
      (fun o => (o.trace.filterMap Act.response, decide (KeepsRules .spi o.trace))) =
        some ([⟨2, appProtocolTestSuccess⟩], true) by decide +kernel)
  obtain ⟨hresponse, hrules⟩ := Prod.mk.inj hview
  have hreceiving : restingBoard.receiving = usedBoard.receiving := rfl
  obtain ⟨o₂, ho₂, hsame⟩ := leftovers_unseen rfl (spiCommand 2) hreceiving rfl (by decide) ho₁
    (of_decide_eq_true hrules)
  exact ⟨o₁, o₂, ho₁, ho₂, hresponse, hsame.trans hresponse⟩

end PeripheralTester.Firmware
