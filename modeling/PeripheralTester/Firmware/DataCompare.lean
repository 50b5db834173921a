import PeripheralTester.Lib.SharedUnit
import PeripheralTester.Protocol

/-! # The CRC unit and the comparison of buffers

The tests of the UART, the SPI and the I2C compare what they received with `app_data_compare`.
Above 100 bytes it compares two checksums, computed one after the other on the only CRC unit of the
processor, which nothing protects.

`appDataCompare` is the program of a call: the operations on the unit (reset, one write of the data
register for each word or tail, final read) and its result.  Run alone, its result does not depend
on the unit (`appDataCompare_bracketed` with `Bracketed.run_eq`); `compare_exclusive` is what holds
when several tasks compare at once. -/

namespace PeripheralTester.Firmware

open Lib

/-! ### The unit -/

/-- An access to the CRC unit: the reset that loads the initial value, a write of 32, 16 or 8 bits
to the data register, and a read of it. -/
inductive CrcOp where
  | reset
  | write32 (x : UInt32)
  | write16 (x : UInt16)
  | write8 (x : UInt8)
  | read
deriving DecidableEq, Repr

/-- `DEFAULT_CRC32_POLY`. -/
def crcPolynomial : UInt32 := 0x04C11DB7
/-- `DEFAULT_CRC_INITVALUE`. -/
def crcInit : UInt32 := 0xFFFFFFFF

/-- One bit goes through the shift register, the most significant first. -/
def crcShift (crc : UInt32) : UInt32 :=
  if crc &&& 0x80000000 = 0 then crc <<< 1 else (crc <<< 1) ^^^ crcPolynomial

/-- The unit computes a write of `n` bits, which stand at the top of `x`. -/
def crcWrite (n : ℕ) (x crc : UInt32) : UInt32 := crcShift^[n] (crc ^^^ x)

/-- What an access does to the unit, and what a read gives. -/
def crcStep : CrcOp → UInt32 → UInt32 × UInt32
  | .reset, _ => (crcInit, 0)
  | .write32 x, crc => (crcWrite 32 x crc, 0)
  | .write16 x, crc => (crcWrite 16 (x.toUInt32 <<< 16) crc, 0)
  | .write8 x, crc => (crcWrite 8 (x.toUInt32 <<< 24) crc, 0)
  | .read, crc => (crc, crc)

/-- The CRC unit; a checksum is a session from the reset to the read. -/
def crcUnit : SharedUnit UInt32 CrcOp UInt32 where
  step := crcStep
  opens o := o = .reset
  closes o := o = .read
  step_of_opens := by
    intro o u u' ho
    rw [of_decide_eq_true ho]
    rfl

/-! ### Checksums -/

/-- The writes of `CRC_Handle_8`: words, most significant byte first, and the tail. -/
def crcHandle8 : List UInt8 → List CrcOp
  | b₀ :: b₁ :: b₂ :: b₃ :: rest =>
      .write32 (b₀.toUInt32 <<< 24 ||| b₁.toUInt32 <<< 16 ||| b₂.toUInt32 <<< 8 ||| b₃.toUInt32) ::
        crcHandle8 rest
  | [b₀, b₁, b₂] => [.write16 (b₀.toUInt16 <<< 8 ||| b₁.toUInt16), .write8 b₂]
  | [b₀, b₁] => [.write16 (b₀.toUInt16 <<< 8 ||| b₁.toUInt16)]
  | [b₀] => [.write8 b₀]
  | [] => []

abbrev CrcProg := Prog CrcOp UInt32

/-- `HAL_CRC_Calculate` with the byte format of `MX_CRC_Init`. -/
def halCrcCalculate (data : List UInt8) : CrcProg UInt32 :=
  .op .reset fun _ => .performAll (crcHandle8 data) (.op .read .done)

/-- A pointer argument: `NULL`, or the bytes it points to. -/
abbrev Pointer := Option (List UInt8)

/-- `app_crc_calculate`. -/
def appCrcCalculate (data : Pointer) (length : ℕ) : CrcProg UInt32 :=
  match data with
  | none => .done 0
  | some bytes => if length = 0 then .done 0 else halCrcCalculate (bytes.take length)

/-! ### Comparisons -/

def appDataCompareFail : UInt8 := 0
def appDataCompareOk : UInt8 := 1

/-- `APP_DATA_COMPARE_CRC_MIN_LEN`. -/
def appDataCompareCrcMinLen : ℕ := 100

/-- The arguments of a call of `app_data_compare`. -/
structure Comparison where
  expected : Pointer
  actual : Pointer
  length : UInt8
deriving DecidableEq, Repr

/-- `app_data_compare`. -/
def appDataCompare (c : Comparison) : CrcProg UInt8 :=
  match c.expected, c.actual with
  | some expected, some actual =>
      if c.length = 0 then .done appDataCompareFail
      else if c.length.toNat > appDataCompareCrcMinLen then do
        -- the operands of != from left to right
        let crcExpected ← appCrcCalculate c.expected c.length.toNat
        let crcActual ← appCrcCalculate c.actual c.length.toNat
        pure (if crcExpected ≠ crcActual then appDataCompareFail else appDataCompareOk)
      else if expected.take c.length.toNat ≠ actual.take c.length.toNat then  -- memcmp
        .done appDataCompareFail
      else .done appDataCompareOk
  | _, _ => .done appDataCompareFail

/-- A comparison sees no more than the bytes that it compares. -/
theorem appDataCompare_congr {expected actual actual' : List UInt8} {length : UInt8}
    (h : actual.take length.toNat = actual'.take length.toNat) :
    appDataCompare ⟨some expected, some actual, length⟩ =
      appDataCompare ⟨some expected, some actual', length⟩ := by
  simp only [appDataCompare, appCrcCalculate, h]

theorem crcHandle8_not_closes (data : List UInt8) :
    ∀ o ∈ crcHandle8 data, crcUnit.closes o = false := by
  fun_induction crcHandle8 data with
  | case1 b₀ b₁ b₂ b₃ rest ih =>
      intro o ho
      rcases List.mem_cons.mp ho with rfl | ho
      · rfl
      · exact ih o ho
  | case2 | case3 | case4 | case5 => simp [crcUnit]

theorem halCrcCalculate_bracketed (data : List UInt8) :
    (halCrcCalculate data).Bracketed crcUnit false := by
  refine ⟨fun _ => rfl, fun _ => ?_⟩
  apply Prog.Bracketed.performAll (crcHandle8_not_closes data)
  exact ⟨(by intro h; cases h), fun _ => trivial⟩

theorem appCrcCalculate_bracketed (data : Pointer) (length : ℕ) :
    (appCrcCalculate data length).Bracketed crcUnit false := by
  unfold appCrcCalculate
  split
  · trivial
  · split
    · trivial
    · exact halCrcCalculate_bracketed _

/-- Every access of a comparison belongs to a checksum. -/
theorem appDataCompare_bracketed (c : Comparison) : (appDataCompare c).Bracketed crcUnit false := by
  unfold appDataCompare
  split
  · split
    · trivial
    · split
      · apply Prog.Bracketed.bind (appCrcCalculate_bracketed _ _)
        intro crcExpected
        apply Prog.Bracketed.bind (appCrcCalculate_bracketed _ _)
        exact fun _ => trivial
      · split <;> trivial
  · trivial

/-! ### Comparisons alone -/

/-- The checksum of some bytes. -/
def crc32 (data : List UInt8) : UInt32 :=
  (crcHandle8 data).foldl (fun crc o => (crcStep o crc).1) crcInit

theorem halCrcCalculate_exec (data : List UInt8) (crc : UInt32) :
    (halCrcCalculate data).exec crcUnit crc = (crc32 data, crc32 data) := by
  unfold halCrcCalculate
  rw [Prog.exec, Prog.exec_performAll]
  rfl

theorem appCrcCalculate_exec (bytes : List UInt8) {length : ℕ} (h : length ≠ 0) (crc : UInt32) :
    (appCrcCalculate (some bytes) length).exec crcUnit crc =
      (crc32 (bytes.take length), crc32 (bytes.take length)) := by
  unfold appCrcCalculate
  simp only [if_neg h]
  exact halCrcCalculate_exec _ _

/-- What a comparison of two buffers returns alone. -/
theorem appDataCompare_run {expected actual : List UInt8} {length : UInt8} (h : length ≠ 0)
    (crc : UInt32) :
    (appDataCompare ⟨some expected, some actual, length⟩).run crcUnit crc =
      if length.toNat > appDataCompareCrcMinLen then
        if crc32 (expected.take length.toNat) ≠ crc32 (actual.take length.toNat) then
          appDataCompareFail
        else appDataCompareOk
      else if expected.take length.toNat ≠ actual.take length.toNat then appDataCompareFail
      else appDataCompareOk := by
  have hlength : length.toNat ≠ 0 := fun h' => h (UInt8.toNat_inj.mp h')
  simp only [appDataCompare, if_neg h]
  split
  · simp only [Prog.run, bind, Prog.exec_bind, appCrcCalculate_exec _ hlength]
    rfl
  · split <;> rfl

/-- Equal buffers are found equal. -/
theorem appDataCompare_self {bytes : List UInt8} {length : UInt8} (h : length ≠ 0) (crc : UInt32) :
    (appDataCompare ⟨some bytes, some bytes, length⟩).run crcUnit crc = appDataCompareOk := by
  simp [appDataCompare_run h]

/-! ### Comparisons in several tasks -/

/-- The test tasks, which share the unit; a task is named by its peripheral. -/
abbrev CrcSharing := Sharing Peripheral Comparison UInt32 CrcOp UInt32 UInt8

/-- A step of a task: it calls `app_data_compare`, or goes on with its call. -/
def compareStep : CrcSharing → ClientMove Peripheral Comparison → Option CrcSharing :=
  Sharing.step crcUnit appDataCompare

/-- **Undisturbed checksums**: if in a run no task accesses the CRC unit while another is between
its reset and its read, then every call of `app_data_compare` returns what it returns alone. -/
theorem compare_exclusive {s : CrcSharing} {crc : UInt32}
    {ls : List (ClientMove Peripheral Comparison)}
    (h : Run compareStep (.init crc) ls s) (hm : Meets compareStep Exclusive (.init crc) ls) :
    ∀ x ∈ s.returned, ∀ alone, x.2 = (appDataCompare x.1).run crcUnit alone :=
  returned_eq_run appDataCompare_bracketed h hm

/-- Two equal buffers of 101 bytes. -/
def equalBuffers : Comparison :=
  ⟨some (List.replicate 101 0x55), some (List.replicate 101 0x55), 101⟩

/-- Some steps of a task.  A checksum of 101 bytes takes 28: the reset, 25 words, one byte, and
the read. -/
def steps (p : Peripheral) (n : ℕ) : List (ClientMove Peripheral Comparison) :=
  List.replicate n (.next p)

/-- The UART task waits for the SPI task before it starts its second checksum. -/
def politeSchedule : List (ClientMove Peripheral Comparison) :=
  .call .uart equalBuffers :: .call .spi equalBuffers ::
    (steps .uart 28 ++ steps .spi 57 ++ steps .uart 29)

theorem compare_exclusive_polite :
    ∃ s : CrcSharing, Run compareStep (.init 0) politeSchedule s ∧ s.returned.length = 2 ∧
      ∀ x ∈ s.returned, ∀ alone, x.2 = (appDataCompare x.1).run crcUnit alone := by
  obtain ⟨s, hs, hlen⟩ := Option.map_eq_some_iff.mp (show
    (exec compareStep (.init 0) politeSchedule).map (fun s => s.returned.length) = some 2 by
      decide +kernel)
  exact ⟨s, .of_exec hs, hlen, compare_exclusive (.of_exec hs) (by decide +kernel)⟩

/-- The SPI task's reset falls just before the read of the first checksum of the UART task, and
the I2C task's before the last write of the second. -/
def rudeSchedule : List (ClientMove Peripheral Comparison) :=
  .call .uart equalBuffers :: .call .spi equalBuffers :: .call .i2c equalBuffers ::
    (steps .uart 27 ++ steps .spi 1 ++ steps .uart 27 ++ steps .i2c 1 ++ steps .uart 3)

/-- The UART task finds a difference between equal buffers. -/
theorem shared_crc_fails :
    ¬ ∀ (s : CrcSharing) (crc : UInt32) (ls : List (ClientMove Peripheral Comparison)),
      Run compareStep (.init crc) ls s →
        ∀ x ∈ s.returned, ∀ alone, x.2 = (appDataCompare x.1).run crcUnit alone := by
  intro hall
  obtain ⟨s, hs, hreturned⟩ := Option.map_eq_some_iff.mp (show
    (exec compareStep (.init 0) rudeSchedule).map (fun s => s.returned) =
      some [(equalBuffers, appDataCompareFail)] by decide +kernel)
  have hmem : (equalBuffers, appDataCompareFail) ∈ s.returned := by
    rw [hreturned]
    exact List.mem_singleton_self _
  have hsame := hall s 0 _ (.of_exec hs) _ hmem 0
  have halone : (appDataCompare equalBuffers).run crcUnit 0 = appDataCompareOk :=
    appDataCompare_self (by decide) 0
  rw [halone] at hsame
  exact absurd hsame (by decide)

end PeripheralTester.Firmware
