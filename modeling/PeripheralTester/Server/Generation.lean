import PeripheralTester.Server.CommandGenerator
import PeripheralTester.Server.Reordering

/-! # The sequence of generated commands

`command_generator_build_next` called over and over, with whatever `rand()` returns: the state
after `n` calls is known (`generatorAfter_eq`), and so is what the next call promises.

* `commandGeneratorBuildNextChecked` makes every array access of the function explicit.  The
  index stays in the list of peripherals and the loop in the pattern, so nothing fails
  (`buildNextChecked_eq`).
* `Lawful` is the law of the sequence, and **`generator_law`** puts it together with the
  identifiers: those of calls less than 2 ^ 32 apart differ, so that no insert of their commands
  meets the table's constraint. -/

namespace PeripheralTester.Server

open Lib

/-! ### The state after some calls -/

/-- The generator after `n` calls; `rands i` is what `rand()` returns from the `i`-th call on,
whatever else the server draws in between. -/
def generatorAfter (rands : ℕ → RandStream) : ℕ → CommandGenerator
  | 0 => commandGeneratorInit
  | n + 1 => (commandGeneratorBuildNext (generatorAfter rands n) (rands n)).2.1

/-- The command that the next call builds. -/
def generatedCommand (rands : ℕ → RandStream) (n : ℕ) : Command :=
  (commandGeneratorBuildNext (generatorAfter rands n) (rands n)).1

theorem nextPeripheralIndex_ofNat : ∀ k < 5,
    nextPeripheralIndex (.ofNat k) = .ofNat ((k + 1) % 5) := by decide

theorem generatorAfter_eq (rands : ℕ → RandStream) (n : ℕ) :
    generatorAfter rands n = ⟨.ofNat (n + 1), .ofNat (n % 5)⟩ := by
  induction n with
  | zero => rfl
  | succ n ih =>
      have hindex := nextPeripheralIndex_ofNat (n % 5) (Nat.mod_lt n (by decide))
      have hmod : (n % 5 + 1) % 5 = (n + 1) % 5 := by omega
      simp only [generatorAfter, ih, commandGeneratorBuildNext, hindex, hmod]
      rw [UInt32.ofNat_add (n + 1) 1]
      rfl

/-- The arithmetic does not wrap. -/
theorem randomRange_mem {minValue maxValue : UInt8} (h : minValue ≤ maxValue) (r : ℕ) :
    minValue ≤ commandGeneratorRandomRange minValue maxValue r ∧
      commandGeneratorRandomRange minValue maxValue r ≤ maxValue := by
  have hmin := minValue.toNat_lt
  have hmax := maxValue.toNat_lt
  have hle : minValue.toNat ≤ maxValue.toNat := UInt8.le_iff_toNat_le.mp h
  have hspan : (maxValue.toUInt32 - minValue.toUInt32 + 1).toNat =
      maxValue.toNat - minValue.toNat + 1 := by
    simp only [UInt32.toNat_add, UInt32.toNat_sub, UInt8.toNat_toUInt32, UInt32.toNat_one]
    omega
  have hdrawn : r % (maxValue.toNat - minValue.toNat + 1) < maxValue.toNat - minValue.toNat + 1 :=
    Nat.mod_lt r (by omega)
  have hvalue : (commandGeneratorRandomRange minValue maxValue r).toNat =
      minValue.toNat + r % (maxValue.toNat - minValue.toNat + 1) := by
    simp only [commandGeneratorRandomRange, hspan, UInt8.toNat_ofNat']
    omega
  rw [UInt8.le_iff_toNat_le, UInt8.le_iff_toNat_le, hvalue]
  omega

/-- What the generator promises about the command of a call. -/
structure Generated (n : ℕ) (p : Peripheral) (c : Command) : Prop where
  turn : commandGeneratorPeripherals[n % 5]? = some p
  testId : c.testId = .ofNat (n + 1)
  peripheral : c.peripheral = p.code
  iterations : 10 ≤ c.iterations
  patternLen : p = .timer ∨ p = .adc ∨ 50 ≤ c.patternLen

theorem peripheral_turn : ∀ k < 5, commandGeneratorPeripherals[k]? =
    some (commandGeneratorPeripherals.getD (UInt8.ofNat k).toNat .timer) := by decide

theorem generated (rands : ℕ → RandStream) (n : ℕ) :
    ∃ p, Generated n p (generatedCommand rands n) := by
  have hstate := generatorAfter_eq rands n
  have hiterations : 10 ≤ commandGeneratorRandomRange commandGeneratorMinIterations
      commandGeneratorMaxIterations (rands n 0) := (randomRange_mem (by decide) _).1
  have hpatternLen : 50 ≤ commandGeneratorRandomRange commandGeneratorMinPatternLen
      commandGeneratorMaxPatternLen (rands n 1) := (randomRange_mem (by decide) _).1
  have hturn := peripheral_turn (n % 5) (Nat.mod_lt n (by decide))
  unfold generatedCommand
  refine ⟨(generatorAfter rands n).peripheral, ?_, ?_, rfl, hiterations, ?_⟩
  · rw [hturn, hstate]
    rfl
  · rw [hstate]
    rfl
  · cases hp : (generatorAfter rands n).peripheral with
    | timer => exact .inl rfl
    | adc => exact .inr (.inl rfl)
    | uart | spi | i2c =>
        simp only [commandGeneratorBuildNext, hp]
        exact .inr (.inr hpatternLen)

/-! ### Array accesses -/

/-- `array[i] = value`, which an array of `n` bytes has to have room for. -/
def storeByte {n : ℕ} (array : Vector UInt8 n) (i : ℕ) (value : UInt8) :
    Option (Vector UInt8 n) :=
  if h : i < n then some (array.set i value h) else none

/-- The loop that fills the pattern. -/
def fillPattern {n : ℕ} (rand : RandStream) (patternLen : ℕ) (pattern : Vector UInt8 n) :
    Option (Vector UInt8 n) :=
  (List.range patternLen).foldlM (fun pattern i => storeByte pattern i (.ofNat (rand i % 256)))
    pattern

/-- `command_generator_build_next`, statement by statement; `none` is an access out of bounds. -/
def commandGeneratorBuildNextChecked (g : CommandGenerator) (rand : RandStream) :
    Option (Command × CommandGenerator × RandStream) := do
  let zeroed : Vector UInt8 appProtocolMaxPatternLen := .replicate _ 0
  let peripheral ← commandGeneratorPeripherals[g.peripheralIndex.toNat]?
  let iterations := commandGeneratorRandomRange commandGeneratorMinIterations
    commandGeneratorMaxIterations (rand 0)
  let (patternLen, rest) : UInt8 × RandStream :=
    match peripheral with
    | .adc | .timer => (0, rand.skip 1)
    | .uart | .spi | .i2c =>
        (commandGeneratorRandomRange commandGeneratorMinPatternLen commandGeneratorMaxPatternLen
          (rand 1), rand.skip 2)
  let pattern ← fillPattern rest patternLen.toNat zeroed
  some (⟨g.nextTestId, peripheral.code, iterations, patternLen, pattern⟩,
    ⟨g.nextTestId + 1, nextPeripheralIndex g.peripheralIndex⟩, rest.skip patternLen.toNat)

/-- The loop stays in the pattern, and leaves the bytes behind its end alone. -/
theorem fillPattern_eq {n : ℕ} (rand : RandStream) (pattern : Vector UInt8 n) {len : ℕ}
    (h : len ≤ n) : fillPattern rand len pattern =
      some (.ofFn fun i => if i < len then .ofNat (rand i % 256) else pattern[i]) := by
  unfold fillPattern
  induction len with
  | zero => simp
  | succ len ih =>
      rw [List.range_succ, List.foldlM_append, ih (Nat.le_of_succ_le h)]
      simp only [List.foldlM_cons, List.foldlM_nil, storeByte, Option.bind_eq_bind,
        Option.bind_some, dif_pos (Nat.lt_of_succ_le h), Option.pure_def, Option.some.injEq]
      refine Vector.ext fun i hi => ?_
      rw [Vector.getElem_set]
      by_cases heq : len = i
      · subst heq
        simp
      · have hlt : i < len + 1 ↔ i < len := by omega
        simp only [heq, if_false, Vector.getElem_ofFn, hlt]

/-- With its index in the list, the function makes no access out of bounds. -/
theorem buildNextChecked_eq {g : CommandGenerator} (rand : RandStream)
    (h : commandGeneratorPeripherals[g.peripheralIndex.toNat]? = some g.peripheral) :
    commandGeneratorBuildNextChecked g rand = some (commandGeneratorBuildNext g rand) := by
  have hfill (rest : RandStream) (len : UInt8) : fillPattern rest len.toNat
      (Vector.replicate appProtocolMaxPatternLen 0) =
        some (.ofFn fun i => if i < len.toNat then .ofNat (rest i % 256) else 0) := by
    have hlen : len.toNat ≤ appProtocolMaxPatternLen := Nat.le_of_lt_succ len.toNat_lt
    rw [fillPattern_eq rest _ hlen]
    simp
  simp only [commandGeneratorBuildNextChecked, h, hfill, Option.bind_eq_bind, Option.bind_some]
  cases hp : g.peripheral <;> simp [commandGeneratorBuildNext, hp]

/-! ### The law of the sequence -/

/-- The law for the command of the call numbered `n`, from 0. -/
structure Lawful (n : ℕ) (c : Command) : Prop where
  testId : c.testId.toNat = (1 + n) % 2 ^ 32
  peripheral : (commandGeneratorPeripherals.map Peripheral.code)[n % 5]? = some c.peripheral
  iterations : 10 ≤ c.iterations.toNat ∧ c.iterations.toNat ≤ 255
  unused : c.peripheral = Peripheral.timer.code ∨ c.peripheral = Peripheral.adc.code →
    c.patternLen = 0
  transferred : c.peripheral = Peripheral.uart.code ∨ c.peripheral = Peripheral.spi.code ∨
    c.peripheral = Peripheral.i2c.code → 50 ≤ c.patternLen.toNat ∧ c.patternLen.toNat ≤ 255
  zeros : ∀ (i : ℕ) (h : i < appProtocolMaxPatternLen), c.patternLen.toNat ≤ i → c.pattern[i] = 0

theorem pattern_buildNext (g : CommandGenerator) (rand : RandStream) {i : ℕ}
    (hi : i < appProtocolMaxPatternLen)
    (hle : (commandGeneratorBuildNext g rand).1.patternLen.toNat ≤ i) :
    (commandGeneratorBuildNext g rand).1.pattern[i] = 0 := by
  unfold commandGeneratorBuildNext at hle ⊢
  simp only [Vector.getElem_ofFn]
  exact if_neg (Nat.not_lt.mpr hle)

/-- The length of the pattern, by the peripheral. -/
theorem patternLen_buildNext (g : CommandGenerator) (rand : RandStream) :
    (commandGeneratorBuildNext g rand).1.patternLen =
      match g.peripheral with
      | .adc | .timer => 0
      | .uart | .spi | .i2c => commandGeneratorRandomRange commandGeneratorMinPatternLen
          commandGeneratorMaxPatternLen (rand 1) := by
  unfold commandGeneratorBuildNext
  cases g.peripheral <;> rfl

theorem lawful_generated (rands : ℕ → RandStream) (n : ℕ) :
    Lawful n (generatedCommand rands n) := by
  obtain ⟨p, h⟩ := generated rands n
  have hpattern := patternLen_buildNext (generatorAfter rands n) (rands n)
  have hlen : 50 ≤ commandGeneratorRandomRange commandGeneratorMinPatternLen
      commandGeneratorMaxPatternLen (rands n 1) := (randomRange_mem (by decide) _).1
  have hcode : (generatedCommand rands n).peripheral = (generatorAfter rands n).peripheral.code :=
    rfl
  refine ⟨?_, ?_, ⟨h.iterations, ?_⟩, ?_, ?_, fun i hi => pattern_buildNext _ _ hi⟩
  · rw [h.testId, UInt32.toNat_ofNat', Nat.add_comm]
  · rw [List.getElem?_map, h.turn, h.peripheral]
    rfl
  · exact Nat.le_of_lt_succ (generatedCommand rands n).iterations.toNat_lt
  · intro hp
    rw [hcode] at hp
    refine hpattern.trans ?_
    cases hg : (generatorAfter rands n).peripheral <;> simp [hg, Peripheral.code] at hp ⊢
  · intro hp
    rw [hcode] at hp
    refine ⟨?_, Nat.le_of_lt_succ (generatedCommand rands n).patternLen.toNat_lt⟩
    change 50 ≤ (commandGeneratorBuildNext (generatorAfter rands n) (rands n)).1.patternLen.toNat
    rw [hpattern]
    cases hg : (generatorAfter rands n).peripheral <;> simp [hg, Peripheral.code] at hp ⊢
    all_goals exact hlen

/-! ### Identifiers -/

/-- Two calls less than 2 ^ 32 apart. -/
def Near (m n : ℕ) : Prop := m < n + 2 ^ 32 ∧ n < m + 2 ^ 32

theorem Lawful.testId_ne {m n : ℕ} {c d : Command} (hc : Lawful m c) (hd : Lawful n d)
    (hne : m ≠ n) (hnear : Near m n) : c.testId ≠ d.testId := by
  intro he
  have hids : (1 + m) % 2 ^ 32 = (1 + n) % 2 ^ 32 := by rw [← hc.testId, ← hd.testId, he]
  obtain ⟨hm, hn⟩ := hnear
  omega

/-- The command a call inserts. -/
def DatabaseCall.inserted : DatabaseCall → Option Command
  | .insertCommand command _ _ => command
  | .updateResponse _ _ => none

theorem insertedId_eq (call : DatabaseCall) :
    call.insertedId = call.inserted.map Command.testId := by
  cases call with
  | insertCommand command => cases command <;> rfl
  | updateResponse => rfl

/-- The call is an insert of an identifier that the table has: the `UNIQUE` constraint refuses
it. -/
def DatabaseCall.Refused (db : Database) (call : DatabaseCall) : Prop :=
  ∃ c ∈ call.inserted, ∃ row ∈ db.rows, row.testId = c.testId

/-- A call brings no identifier into the table but the one it inserts. -/
theorem testId_after {db : Database} (call : DatabaseCall) {row : Row}
    (h : row ∈ (call.after db).rows) :
    row.testId ∈ db.rows.map Row.testId ∨ call.insertedId = some row.testId := by
  have hid : row.testId ∈ (call.after db).rows.map Row.testId := List.mem_map_of_mem h
  cases hopen : db.isOpen with
  | false =>
      rw [after_of_closed hopen] at hid
      exact .inl hid
  | true =>
      rw [after_of_open hopen] at hid
      rcases effect_cases call with he | ⟨new, hnew, he⟩ | ⟨r, _, he⟩ <;> rw [he] at hid
      · exact .inl hid
      · by_cases heq : row.testId = new.testId
        · exact .inr (by rw [hnew, heq])
        · exact .inl ((mem_map_insertNew heq).mp hid)
      · exact .inl (by rwa [map_key_modify (testId_record r)] at hid)

/-- Inserts of different identifiers, none of them in the table to begin with, are not refused. -/
theorem not_refused_of_nodup {db : Database} {calls : List DatabaseCall}
    (hnodup : (calls.filterMap DatabaseCall.insertedId).Nodup)
    (hnew : ∀ row ∈ db.rows, row.testId ∉ calls.filterMap DatabaseCall.insertedId) :
    Meets databaseStep (fun db call => ¬call.Refused db) db calls := by
  induction calls generalizing db with
  | nil => trivial
  | cons call calls ih =>
      have hstep : databaseStep db call = some (call.after db) := rfl
      refine (meets_cons hstep).mpr ⟨?_, ih ?_ ?_⟩
      · rintro ⟨c, hc, row, hrow, hid⟩
        refine hnew row hrow (List.mem_filterMap.mpr ⟨call, List.mem_cons_self, ?_⟩)
        rw [insertedId_eq, Option.mem_def.mp hc, Option.map_some, hid]
      · exact hnodup.sublist ((List.sublist_cons_self call calls).filterMap _)
      · intro row hrow hlater
        rcases testId_after call hrow with hold | hcall
        · obtain ⟨old, hold, hid⟩ := List.mem_map.mp hold
          rw [← hid] at hlater
          exact hnew old hold
            (((List.sublist_cons_self call calls).filterMap DatabaseCall.insertedId).subset hlater)
        · rw [List.filterMap_cons_some hcall, List.nodup_cons] at hnodup
          exact hnodup.1 hlater

/-- The commands inserted are those of different calls of the generator, less than 2 ^ 32
apart. -/
def InsertsGenerated (rands : ℕ → RandStream) (calls : List DatabaseCall) : Prop :=
  ∃ ns : List ℕ, ns.Nodup ∧ (∀ m ∈ ns, ∀ n ∈ ns, Near m n) ∧
    calls.filterMap DatabaseCall.inserted = ns.map (generatedCommand rands)

theorem InsertsGenerated.nodup {rands : ℕ → RandStream} {calls : List DatabaseCall}
    (h : InsertsGenerated rands calls) : (calls.filterMap DatabaseCall.insertedId).Nodup := by
  obtain ⟨ns, hnodup, hnear, hcommands⟩ := h
  have hids : calls.filterMap DatabaseCall.insertedId =
      (calls.filterMap DatabaseCall.inserted).map Command.testId := by
    rw [List.map_filterMap]
    exact congrArg (calls.filterMap ·) (funext insertedId_eq)
  rw [hids, hcommands, List.map_map]
  refine hnodup.map_on fun m hm n hn he => ?_
  by_contra hne
  exact (lawful_generated rands m).testId_ne (lawful_generated rands n) hne (hnear m hm n hn) he

/-- **The law of the generator**: for any values of `rand()` and after any number of calls, the
next call makes no access out of bounds and returns a lawful command; the identifiers of calls
less than 2 ^ 32 apart differ; and the constraint refuses no insert of their commands. -/
theorem generator_law (rands : ℕ → RandStream) :
    (∀ n, ∃ rest, commandGeneratorBuildNextChecked (generatorAfter rands n) (rands n) =
        some (generatedCommand rands n, generatorAfter rands (n + 1), rest) ∧
      Lawful n (generatedCommand rands n)) ∧
    (∀ m n, m ≠ n → Near m n →
      (generatedCommand rands m).testId ≠ (generatedCommand rands n).testId) ∧
    ∀ (file : Database) (calls : List DatabaseCall), InsertsGenerated rands calls →
      Meets databaseStep (fun db call => ¬call.Refused db) file.opened calls := by
  refine ⟨fun n => ⟨_, buildNextChecked_eq (rands n) ?_, lawful_generated rands n⟩, ?_, ?_⟩
  · rw [CommandGenerator.peripheral, generatorAfter_eq]
    have hmod := Nat.mod_lt n (show 5 > 0 by decide)
    have hindex : (UInt8.ofNat (n % 5)).toNat = n % 5 := by
      rw [UInt8.toNat_ofNat']
      omega
    have hturn := peripheral_turn (n % 5) hmod
    rw [hindex] at hturn ⊢
    exact hturn
  · exact fun m n hne hnear =>
      (lawful_generated rands m).testId_ne (lawful_generated rands n) hne hnear
  · exact fun file calls hcalls =>
      not_refused_of_nodup hcalls.nodup fun row hrow => absurd hrow List.not_mem_nil

end PeripheralTester.Server
