import PeripheralTester.Firmware.DataCompare
import PeripheralTester.Lib.Crc

/-! # What the checksum of a comparison can tell apart

The CRC unit consumes a write of 32, 16 or 8 bits in one go.  Here its steps are related to the
shift register of the library: whatever the grouping into words and tail, the checksum is that of
the bytes' bits in order, most significant bit first (`crc32_eq`).  It follows what
`app_data_compare` finds above 100 bytes: equality of the buffers modulo the generator
(**`appDataCompare_ok_iff`**), which no burst of 32 bits and no three wrong bits escape
(**`appDataCompare_detects`**). -/

namespace PeripheralTester.Firmware

open Lib Polynomial

/-! ### The unit as a shift register -/

/-- The polynomial register of the unit. -/
def crcGenerator : BitVec 32 := crcPolynomial.toBitVec

theorem and_top_eq_zero (crc : UInt32) : crc &&& 0x80000000 = 0 ↔ crc.toBitVec.msb = false := by
  have hmask : (0x80000000 : UInt32).toBitVec = BitVec.twoPow 32 31 := by decide
  rw [← UInt32.toBitVec_inj, UInt32.toBitVec_and, hmask, BitVec.and_twoPow,
    BitVec.msb_eq_getLsbD_last]
  cases h : crc.toBitVec.getLsbD 31 with
  | false => simp
  | true =>
      simp only [if_true]
      decide

theorem toBitVec_crcShift (crc : UInt32) :
    (crcShift crc).toBitVec = crcShiftOnce crcGenerator crc.toBitVec := by
  have hshift : (crc <<< 1).toBitVec = crc.toBitVec <<< 1 := rfl
  unfold crcShift crcShiftOnce crcFeed
  rw [Bool.xor_false]
  by_cases h : crc &&& 0x80000000 = 0
  · rw [if_pos h, (and_top_eq_zero crc).mp h, hshift]
    rfl
  · have hmsb : crc.toBitVec.msb = true := by
      rw [← Bool.not_eq_false, ← and_top_eq_zero]
      exact h
    rw [if_neg h, hmsb, UInt32.toBitVec_xor, hshift]
    rfl

theorem toBitVec_crcWrite (n : ℕ) (x crc : UInt32) :
    (crcWrite n x crc).toBitVec =
      (crcShiftOnce crcGenerator)^[n] (crc.toBitVec ^^^ x.toBitVec) := by
  unfold crcWrite
  rw [← UInt32.toBitVec_xor]
  exact (Function.Semiconj.iterate_right toBitVec_crcShift n).eq _

/-! ### Bytes in words -/

/-- The bits of a byte sequence, most significant bit first. -/
def streamBits (data : List UInt8) : List Bool := data.flatMap fun b => topBits 8 b.toBitVec

@[simp] theorem streamBits_cons (b : UInt8) (data : List UInt8) :
    streamBits (b :: data) = topBits 8 b.toBitVec ++ streamBits data := rfl

theorem streamBits_append (xs ys : List UInt8) :
    streamBits (xs ++ ys) = streamBits xs ++ streamBits ys := List.flatMap_append

theorem toBitVec_word (b₀ b₁ b₂ b₃ : UInt8) :
    (b₀.toUInt32 <<< 24 ||| b₁.toUInt32 <<< 16 ||| b₂.toUInt32 <<< 8 ||| b₃.toUInt32).toBitVec =
      b₀.toBitVec ++ b₁.toBitVec ++ b₂.toBitVec ++ b₃.toBitVec := by
  have h₀ := b₀.toNat_lt
  have h₁ := b₁.toNat_lt
  have h₂ := b₂.toNat_lt
  apply BitVec.eq_of_toNat_eq
  simp only [BitVec.toNat_append, UInt8.toNat_toBitVec, UInt32.toNat_toBitVec, UInt32.toNat_or,
    UInt32.toNat_shiftLeft, UInt8.toNat_toUInt32]
  simp only [Nat.shiftLeft_or_distrib, ← Nat.shiftLeft_add, UInt32.reduceToNat, Nat.reduceMod,
    Nat.reduceAdd, Nat.reducePow]
  rw [Nat.mod_eq_of_lt, Nat.mod_eq_of_lt, Nat.mod_eq_of_lt] <;> simp only [Nat.shiftLeft_eq] <;>
    omega

theorem toBitVec_halfWord (b₀ b₁ : UInt8) :
    (b₀.toUInt16 <<< 8 ||| b₁.toUInt16).toBitVec = b₀.toBitVec ++ b₁.toBitVec := by
  have h₀ := b₀.toNat_lt
  apply BitVec.eq_of_toNat_eq
  simp only [BitVec.toNat_append, UInt8.toNat_toBitVec, UInt16.toNat_toBitVec, UInt16.toNat_or,
    UInt16.toNat_shiftLeft, UInt8.toNat_toUInt16, UInt16.reduceToNat, Nat.reduceMod,
    Nat.reducePow]
  rw [Nat.mod_eq_of_lt]
  simp only [Nat.shiftLeft_eq]
  omega

theorem topBits_halfWord (b₀ b₁ : BitVec 8) :
    topBits 16 (b₀ ++ b₁) = topBits 8 b₀ ++ topBits 8 b₁ := topBits_append b₀ b₁

theorem topBits_word (b₀ b₁ b₂ b₃ : BitVec 8) :
    topBits 32 (b₀ ++ b₁ ++ b₂ ++ b₃) =
      topBits 8 b₀ ++ topBits 8 b₁ ++ topBits 8 b₂ ++ topBits 8 b₃ := by
  have hlast : topBits 32 (b₀ ++ b₁ ++ b₂ ++ b₃) = topBits 24 (b₀ ++ b₁ ++ b₂) ++ topBits 8 b₃ :=
    topBits_append _ _
  have hthird : topBits 24 (b₀ ++ b₁ ++ b₂) = topBits 16 (b₀ ++ b₁) ++ topBits 8 b₂ :=
    topBits_append _ _
  rw [hlast, hthird, topBits_halfWord]

/-- The bits a write passes to the unit. -/
def CrcOp.bits : CrcOp → List Bool
  | .write32 x => topBits 32 x.toBitVec
  | .write16 x => topBits 16 x.toBitVec
  | .write8 x => topBits 8 x.toBitVec
  | .reset | .read => []

/-- A write shifts its bits into the register. -/
theorem toBitVec_crcStep (o : CrcOp) (ho : o ≠ .reset) (crc : UInt32) :
    (crcStep o crc).1.toBitVec = Lib.crc crcGenerator crc.toBitVec o.bits := by
  cases o with
  | reset => exact absurd rfl ho
  | write32 x =>
      rw [crcStep, toBitVec_crcWrite, crcShiftOnce_iterate_xor,
        BitVec.shiftLeft_eq_zero (le_refl 32), BitVec.xor_zero]
      rfl
  | write16 x =>
      have h := crcShiftOnce_iterate_top crcGenerator crc.toBitVec (by decide : 16 ≤ 32) x.toBitVec
      rw [crcStep, toBitVec_crcWrite]
      exact h
  | write8 x =>
      have h := crcShiftOnce_iterate_top crcGenerator crc.toBitVec (by decide : 8 ≤ 32) x.toBitVec
      rw [crcStep, toBitVec_crcWrite]
      exact h
  | read => rfl

/-- However the bytes are grouped, their bits are written in order. -/
theorem crcHandle8_bits (data : List UInt8) :
    (crcHandle8 data).flatMap CrcOp.bits = streamBits data := by
  fun_induction crcHandle8 data with
  | case1 b₀ b₁ b₂ b₃ rest ih =>
      simp only [List.flatMap_cons, ih, streamBits_cons, CrcOp.bits, toBitVec_word, topBits_word,
        List.append_assoc]
  | case2 b₀ b₁ b₂ =>
      simp only [List.flatMap_cons, List.flatMap_nil, streamBits_cons, CrcOp.bits,
        toBitVec_halfWord, topBits_halfWord, List.append_assoc]
      rfl
  | case3 b₀ b₁ =>
      simp only [List.flatMap_cons, List.flatMap_nil, streamBits_cons, CrcOp.bits,
        toBitVec_halfWord, topBits_halfWord, List.append_assoc]
      rfl
  | case4 | case5 => rfl

theorem crcHandle8_ne_reset (data : List UInt8) : ∀ o ∈ crcHandle8 data, o ≠ .reset := by
  fun_induction crcHandle8 data with
  | case1 b₀ b₁ b₂ b₃ rest ih =>
      intro o ho
      rcases List.mem_cons.mp ho with rfl | ho
      · simp
      · exact ih o ho
  | case2 | case3 | case4 | case5 => simp

theorem toBitVec_foldl_crcStep {ops : List CrcOp} (hops : ∀ o ∈ ops, o ≠ .reset) (crc : UInt32) :
    (ops.foldl (fun crc o => (crcStep o crc).1) crc).toBitVec =
      Lib.crc crcGenerator crc.toBitVec (ops.flatMap CrcOp.bits) := by
  induction ops generalizing crc with
  | nil => rfl
  | cons o ops ih =>
      have ho : o ≠ .reset := hops o List.mem_cons_self
      rw [List.foldl_cons, ih fun o' ho' => hops o' (List.mem_cons_of_mem _ ho'),
        toBitVec_crcStep o ho, List.flatMap_cons]
      exact (List.foldl_append ..).symm

/-- A checksum is that of the bits in order. -/
theorem crc32_eq (data : List UInt8) :
    (crc32 data).toBitVec = Lib.crc crcGenerator crcInit.toBitVec (streamBits data) := by
  unfold crc32
  rw [toBitVec_foldl_crcStep (crcHandle8_ne_reset data), crcHandle8_bits]

theorem crc32_eq_iff (xs ys : List UInt8) :
    crc32 xs = crc32 ys ↔
      Lib.crc crcGenerator crcInit.toBitVec (streamBits xs) =
        Lib.crc crcGenerator crcInit.toBitVec (streamBits ys) := by
  rw [← crc32_eq, ← crc32_eq, UInt32.toBitVec_inj]

theorem length_streamBits (data : List UInt8) : (streamBits data).length = 8 * data.length := by
  induction data with
  | nil => rfl
  | cons b data ih =>
      rw [streamBits_cons, List.length_append, ih, List.length_cons, length_topBits]
      omega

theorem streamBits_injective : Function.Injective streamBits := by
  intro xs ys h
  induction xs generalizing ys with
  | nil =>
      have hlength := congrArg List.length h
      rw [length_streamBits, length_streamBits, List.length_nil] at hlength
      exact (List.length_eq_zero_iff.mp (by omega)).symm
  | cons b xs ih =>
      cases ys with
      | nil =>
          have hlength := congrArg List.length h
          rw [length_streamBits, length_streamBits, List.length_cons, List.length_nil] at hlength
          omega
      | cons b' ys =>
          rw [streamBits_cons, streamBits_cons] at h
          obtain ⟨hb, hrest⟩ := List.append_inj h (by rw [length_topBits, length_topBits])
          rw [UInt8.toBitVec_inj.mp (topBits_injective hb), ih hrest]

/-! ### What a comparison finds -/

/-- The polynomial of CRC-32. -/
noncomputable def crc32Generator : (ZMod 2)[X] :=
  X ^ 32 + X ^ 26 + X ^ 23 + X ^ 22 + X ^ 16 + X ^ 12 + X ^ 11 + X ^ 10 + X ^ 8 + X ^ 7 + X ^ 5 +
    X ^ 4 + X ^ 2 + X + 1

theorem crcPoly_crcGenerator : crcPoly crcGenerator = crc32Generator := by
  have hbits : toPoly crcGenerator = ∑ i ∈ Finset.range 32,
      monomial i (if i ∈ [0, 1, 2, 4, 5, 7, 8, 10, 11, 12, 16, 22, 23, 26] then 1 else 0) := by
    refine Finset.sum_congr rfl fun i hi => congrArg (monomial i) ?_
    have hall : ∀ i < 32, bitOf (crcGenerator.getLsbD i) =
        if i ∈ [0, 1, 2, 4, 5, 7, 8, 10, 11, 12, 16, 22, 23, 26] then 1 else 0 := by decide
    exact hall i (Finset.mem_range.mp hi)
  unfold crcPoly crc32Generator
  rw [hbits]
  simp [Finset.sum_range_succ, monomial_one_right_eq_X_pow]
  ring

theorem crcGenerator_odd : crcGenerator.getLsbD 0 = true := by decide

/-- Two sequences of one length have the same checksum exactly if the generator divides the
difference of their polynomials. -/
theorem crc32_eq_iff_dvd {xs ys : List UInt8} (hlength : xs.length = ys.length) :
    crc32 xs = crc32 ys ↔
      crc32Generator ∣ streamPoly (streamBits xs) - streamPoly (streamBits ys) := by
  have hbits : (streamBits xs).length = (streamBits ys).length := by
    rw [length_streamBits, length_streamBits, hlength]
  rw [crc32_eq_iff, crc_eq_iff crcGenerator (by decide) crcGenerator_odd _ hbits,
    crcPoly_crcGenerator]

/-- **What a comparison finds**: up to 100 bytes, whether the buffers are equal; above, whether the
generator divides the difference of their polynomials. -/
theorem appDataCompare_ok_iff {expected actual : List UInt8} {length : UInt8} (h : length ≠ 0)
    (hexpected : length.toNat ≤ expected.length) (hactual : length.toNat ≤ actual.length)
    (unit : UInt32) :
    (appDataCompare ⟨some expected, some actual, length⟩).run crcUnit unit = appDataCompareOk ↔
      if length.toNat ≤ 100 then expected.take length.toNat = actual.take length.toNat
      else crc32Generator ∣ streamPoly (streamBits (expected.take length.toNat)) -
        streamPoly (streamBits (actual.take length.toNat)) := by
  have hfail : appDataCompareFail ≠ appDataCompareOk := by decide
  have hlengths : (expected.take length.toNat).length = (actual.take length.toNat).length := by
    rw [List.length_take, List.length_take, Nat.min_eq_left hexpected, Nat.min_eq_left hactual]
  rw [appDataCompare_run h, appDataCompareCrcMinLen]
  by_cases hlong : length.toNat > 100
  · rw [if_pos hlong, if_neg (not_le.mpr hlong), ← crc32_eq_iff_dvd hlengths]
    by_cases hcrc : crc32 (expected.take length.toNat) = crc32 (actual.take length.toNat)
    · simp [hcrc]
    · simp [hcrc, hfail]
  · rw [if_neg hlong, if_pos (not_lt.mp hlong)]
    by_cases heq : expected.take length.toNat = actual.take length.toNat
    · simp [heq]
    · simp [heq, hfail]

/-- Zeros, and zeros with the generator at their end. -/
def zeroBuffer : List UInt8 := List.replicate 96 0 ++ [0, 0, 0, 0, 0]

def generatorBuffer : List UInt8 := List.replicate 96 0 ++ [0x01, 0x04, 0xC1, 0x1D, 0xB7]

theorem crc32_generatorBuffer : crc32 zeroBuffer = crc32 generatorBuffer := by
  have happend : ∀ xs ys r, Lib.crc crcGenerator r (streamBits (xs ++ ys)) =
      Lib.crc crcGenerator (Lib.crc crcGenerator r (streamBits xs)) (streamBits ys) := by
    intro xs ys r
    rw [streamBits_append]
    exact List.foldl_append ..
  have hlength : (streamBits [0, 0, 0, 0, 0]).length =
      (streamBits [0x01, 0x04, 0xC1, 0x1D, 0xB7]).length := by
    rw [length_streamBits, length_streamBits]
    rfl
  rw [crc32_eq_iff, zeroBuffer, generatorBuffer, happend, happend]
  -- what the register holds after the common zeros does not matter
  rw [crc_eq_crc_iff crcGenerator (by decide) crcGenerator_odd _ 0#32 hlength]
  decide +kernel

theorem take_zeroBuffer : zeroBuffer.take 101 = zeroBuffer := List.take_of_length_le (by decide)

theorem take_generatorBuffer : generatorBuffer.take 101 = generatorBuffer :=
  List.take_of_length_le (by decide)

theorem zeroBuffer_ne : zeroBuffer ≠ generatorBuffer := by
  unfold zeroBuffer generatorBuffer
  rw [Ne, List.append_right_inj]
  decide

/-- The two compare as equal. -/
theorem appDataCompare_generatorBuffer (unit : UInt32) :
    (appDataCompare ⟨some zeroBuffer, some generatorBuffer, 101⟩).run crcUnit unit =
      appDataCompareOk := by
  have hlong : (101 : UInt8).toNat > appDataCompareCrcMinLen := by decide
  have htake : (101 : UInt8).toNat = 101 := rfl
  rw [appDataCompare_run (by decide), if_pos hlong, htake, take_zeroBuffer, take_generatorBuffer,
    crc32_generatorBuffer, if_neg (not_not.mpr rfl)]

theorem appDataCompare_ok_iff_generator : crc32Generator ∣
    streamPoly (streamBits zeroBuffer) - streamPoly (streamBits generatorBuffer) := by
  have htake : (101 : UInt8).toNat = 101 := rfl
  have hlong : ¬(101 : UInt8).toNat ≤ 100 := by decide
  have h := (@appDataCompare_ok_iff zeroBuffer generatorBuffer 101 (by decide) (by decide)
    (by decide) 0).mp (appDataCompare_generatorBuffer 0)
  rwa [if_neg hlong, htake, take_zeroBuffer, take_generatorBuffer] at h

/-- Different buffers above 100 bytes can compare as equal. -/
theorem generator_escapes :
    ¬ ∀ (length : UInt8) (expected actual : List UInt8) (unit : UInt32), length ≠ 0 →
      expected.length = length.toNat → actual.length = length.toNat →
        ((appDataCompare ⟨some expected, some actual, length⟩).run crcUnit unit =
          appDataCompareOk ↔ expected = actual) := by
  intro hclaim
  have hsame := hclaim 101 zeroBuffer generatorBuffer 0 (by decide) (by decide) (by decide)
  exact zeroBuffer_ne (hsame.mp (appDataCompare_generatorBuffer 0))

/-! ### What a comparison never misses -/

/-- The powers a buffer of 255 bytes can reach. -/
theorem powersApart_crcGenerator : PowersApart crcGenerator (8 * 255) :=
  powersApart_of_distinctBits (by decide) (d := 32) crcGenerator (by decide +kernel)

/-- The bits in which two buffers differ, by their place in the stream. -/
def differingBits (expected actual : List UInt8) : Finset ℕ :=
  differing (streamBits expected) (streamBits actual)

/-- **Bursts and few wrong bits are found**: buffers of more than 100 bytes that differ, but only
within 32 consecutive bits or in at most three, do not compare as equal. -/
theorem appDataCompare_detects {expected actual : List UInt8} {length : UInt8}
    (hlong : 101 ≤ length.toNat) (hexpected : expected.length = length.toNat)
    (hactual : actual.length = length.toNat) (hne : expected ≠ actual)
    (hbits : (∃ a, ∀ i ∈ differingBits expected actual, a ≤ i ∧ i < a + 32) ∨
      (differingBits expected actual).card ≤ 3) (unit : UInt32) :
    (appDataCompare ⟨some expected, some actual, length⟩).run crcUnit unit =
      appDataCompareFail := by
  have hlength : length ≠ 0 := by
    rintro rfl
    exact absurd hlong (by decide)
  have hstreams : (streamBits expected).length = (streamBits actual).length := by
    rw [length_streamBits, length_streamBits, hexpected, hactual]
  have hstream : streamBits expected ≠ streamBits actual := fun h => hne (streamBits_injective h)
  have hcrc : crc32 expected ≠ crc32 actual := by
    rw [Ne, crc32_eq_iff]
    rcases hbits with ⟨a, hburst⟩ | hfew
    · exact crc_ne_of_burst crcGenerator (by decide) crcGenerator_odd _ hstreams hstream hburst
    · have hle : (streamBits expected).length ≤ 8 * 255 := by
        have := length.toNat_lt
        rw [length_streamBits, hexpected]
        omega
      exact crc_ne_of_few crcGenerator (by decide) crcGenerator_odd _ powersApart_crcGenerator
        hstreams hstream hle hfew
  have htakeE : expected.take length.toNat = expected := List.take_of_length_le hexpected.le
  have htakeA : actual.take length.toNat = actual := List.take_of_length_le hactual.le
  rw [appDataCompare_run hlength, appDataCompareCrcMinLen, if_pos (by omega), htakeE, htakeA,
    if_pos hcrc]

/-- A wrong byte at the end of 103, which are 25 words, a half-word and a byte. -/
theorem appDataCompare_detects_last :
    (appDataCompare ⟨some (List.replicate 102 0 ++ [0]), some (List.replicate 102 0 ++ [0x5A]),
      103⟩).run crcUnit 0 = appDataCompareFail := by
  refine appDataCompare_detects (by decide) (by decide) (by decide)
    (fun h => absurd (List.append_cancel_left h) (by decide)) (.inl ⟨816, fun i hi => ?_⟩) 0
  have hlt : i < (streamBits (List.replicate 102 0 ++ [0])).length :=
    Finset.mem_range.mp (Finset.mem_filter.mp hi).1
  rw [differingBits, streamBits_append, streamBits_append] at hi
  have hle := length_le_of_mem_differing hi
  rw [length_streamBits, List.length_replicate] at hle
  rw [length_streamBits, List.length_append, List.length_replicate, List.length_singleton] at hlt
  omega

end PeripheralTester.Firmware
