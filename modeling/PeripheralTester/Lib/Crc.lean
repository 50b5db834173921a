import Mathlib.Algebra.CharP.Two
import Mathlib.Algebra.Polynomial.Div
import Mathlib.Algebra.Polynomial.FieldDivision
import Mathlib.Tactic

/-! # Cyclic redundancy checks

A register of `w` bits takes a stream of bits, the first one first: `crcFeed` shifts the register
by one place and adds the generator when the bit that leaves it and the bit that comes in differ.
A stream is read as the polynomial over the field of two elements whose leading coefficient is its
first bit (`streamPoly`), and the register holds a remainder modulo the generator
`X ^ w + g` (`crcPoly_dvd`).

* `crc_eq_iff`: two streams of one length have the same checksum exactly if the generator divides
  their difference.
* `crc_ne_of_burst`: a difference within `w` consecutive bits changes the checksum.
* `crc_ne_of_few`: a difference in at most three bits changes it, as long as no two of the powers
  `X ^ i` in reach have remainders that agree but for their last bit.
* `crcShiftOnce_iterate_xor`: bits may be taken in groups, by adding a group to the register and
  shifting as often as the group has bits. -/

namespace PeripheralTester.Lib

open Polynomial Finset

variable {w : ℕ}

/-- A bit in the field of two elements. -/
def bitOf (b : Bool) : ZMod 2 := if b then 1 else 0

theorem bitOf_xor (a b : Bool) : bitOf (a ^^ b) = bitOf a + bitOf b := by
  revert a b
  decide

theorem bitOf_sub (a b : Bool) : bitOf a - bitOf b = if a ≠ b then 1 else 0 := by
  revert a b
  decide

theorem bitOf_injective : Function.Injective bitOf := by
  intro a b
  revert a b
  decide

/-! ### Registers as polynomials -/

/-- The polynomial whose coefficients are the bits of a register. -/
noncomputable def toPoly (r : BitVec w) : (ZMod 2)[X] :=
  ∑ i ∈ range w, monomial i (bitOf (r.getLsbD i))

theorem coeff_toPoly (r : BitVec w) (i : ℕ) : (toPoly r).coeff i = bitOf (r.getLsbD i) := by
  unfold toPoly
  rw [finsetSum_coeff]
  simp only [coeff_monomial]
  rw [Finset.sum_ite_eq']
  by_cases hi : i < w
  · rw [if_pos (mem_range.mpr hi)]
  · rw [if_neg (fun h => hi (mem_range.mp h)), BitVec.getLsbD_of_ge _ _ (not_lt.mp hi)]
    rfl

theorem toPoly_injective : Function.Injective (toPoly (w := w)) := by
  intro a b h
  apply BitVec.eq_of_getLsbD_eq
  intro i _
  apply bitOf_injective
  rw [← coeff_toPoly, ← coeff_toPoly, h]

@[simp] theorem toPoly_zero : toPoly (0#w) = 0 := by
  ext i
  simp [coeff_toPoly, bitOf]

theorem toPoly_xor (a b : BitVec w) : toPoly (a ^^^ b) = toPoly a + toPoly b := by
  ext i
  rw [coeff_add, coeff_toPoly, coeff_toPoly, coeff_toPoly, BitVec.getLsbD_xor, bitOf_xor]

theorem degree_toPoly_lt (r : BitVec w) : (toPoly r).degree < w := by
  rw [degree_lt_iff_coeff_zero]
  intro i hi
  rw [coeff_toPoly, BitVec.getLsbD_of_ge _ _ hi]
  rfl

/-- Shifting is multiplying by `X`, but for the bit that leaves the register. -/
theorem toPoly_shiftLeft (hw : 0 < w) (r : BitVec w) :
    X * toPoly r = toPoly (r <<< 1) + monomial w (bitOf r.msb) := by
  ext i
  rw [coeff_add, coeff_toPoly, coeff_monomial, BitVec.msb_eq_getLsbD_last]
  cases i with
  | zero =>
      have hne : w ≠ 0 := hw.ne'
      simp [bitOf, hne]
  | succ i =>
      rw [coeff_X_mul, coeff_toPoly, BitVec.getLsbD_shiftLeft]
      by_cases hlt : i + 1 < w
      · have hne : w ≠ i + 1 := hlt.ne'
        simp [hlt, hne]
      · by_cases heq : w = i + 1
        · subst heq
          simp [bitOf]
        · simp [hlt, heq, BitVec.getLsbD_of_ge r i (by omega), bitOf]

/-! ### The shift register -/

/-- The register with one more bit taken in. -/
def crcFeed (g : BitVec w) (r : BitVec w) (b : Bool) : BitVec w :=
  if r.msb ^^ b then (r <<< 1) ^^^ g else r <<< 1

/-- The checksum of a stream, from the register `r`. -/
def crc (g : BitVec w) (r : BitVec w) (bs : List Bool) : BitVec w := bs.foldl (crcFeed g) r

/-- The generator. -/
noncomputable def crcPoly (g : BitVec w) : (ZMod 2)[X] := X ^ w + toPoly g

/-- The polynomial of a stream; the first bit is its leading coefficient. -/
noncomputable def streamPoly (bs : List Bool) : (ZMod 2)[X] :=
  ∑ i ∈ range bs.length, monomial (bs.length - 1 - i) (bitOf (bs.getD i false))

@[simp] theorem streamPoly_nil : streamPoly [] = 0 := rfl

theorem streamPoly_concat (bs : List Bool) (b : Bool) :
    streamPoly (bs ++ [b]) = X * streamPoly bs + C (bitOf b) := by
  unfold streamPoly
  rw [List.length_append, List.length_singleton, sum_range_succ, mul_sum]
  congr 1
  · refine sum_congr rfl fun i hi => ?_
    have hlt : i < bs.length := mem_range.mp hi
    have hexp : bs.length + 1 - 1 - i = bs.length - 1 - i + 1 := by omega
    rw [hexp, X_mul_monomial, List.getD_eq_getElem?_getD, List.getElem?_append_left hlt,
      ← List.getD_eq_getElem?_getD]
  · simp [List.getD_eq_getElem?_getD, monomial_zero_left]

section

variable (g : BitVec w)

theorem degree_crcPoly : (crcPoly g).degree = w := by
  unfold crcPoly
  rw [degree_add_eq_left_of_degree_lt, degree_X_pow]
  rw [degree_X_pow]
  exact degree_toPoly_lt g

/-- What the register holds is determined by its residue. -/
theorem eq_of_crcPoly_dvd {a b : BitVec w} (h : crcPoly g ∣ toPoly a - toPoly b) : a = b := by
  apply toPoly_injective
  apply sub_eq_zero.mp
  apply eq_zero_of_dvd_of_degree_lt h
  rw [degree_crcPoly]
  exact (degree_sub_le _ _).trans_lt (max_lt (degree_toPoly_lt a) (degree_toPoly_lt b))

theorem crcFeed_dvd (hw : 0 < w) (r : BitVec w) (b : Bool) :
    crcPoly g ∣ X * toPoly r + C (bitOf b) * X ^ w - toPoly (crcFeed g r b) := by
  have hmonomial : monomial w (bitOf r.msb) = C (bitOf r.msb) * X ^ w :=
    (C_mul_X_pow_eq_monomial).symm
  rw [toPoly_shiftLeft hw, hmonomial]
  unfold crcFeed crcPoly
  have hbit := bitOf_xor r.msb b
  split
  · rename_i hb
    rw [hb] at hbit
    refine ⟨1, ?_⟩
    have hone : C (bitOf r.msb) + C (bitOf b) = (1 : (ZMod 2)[X]) := by
      rw [← C_add, ← hbit]
      rfl
    rw [toPoly_xor]
    have htwo : (2 : (ZMod 2)[X]) = 0 := CharTwo.two_eq_zero
    linear_combination X ^ w * hone - toPoly g * htwo
  · rename_i hb
    rw [Bool.not_eq_true] at hb
    rw [hb] at hbit
    refine ⟨0, ?_⟩
    have hzero : C (bitOf r.msb) + C (bitOf b) = (0 : (ZMod 2)[X]) := by
      rw [← C_add, ← hbit]
      exact C_0
    linear_combination X ^ w * hzero

/-- The register holds a remainder of the stream. -/
theorem crcPoly_dvd (hw : 0 < w) (r : BitVec w) (bs : List Bool) :
    crcPoly g ∣ X ^ bs.length * toPoly r + X ^ w * streamPoly bs - toPoly (crc g r bs) := by
  induction bs using List.reverseRecOn with
  | nil => simp [crc]
  | append_singleton bs b ih =>
      have hstep := crcFeed_dvd g hw (crc g r bs) b
      have hsum := dvd_add (Dvd.dvd.mul_left ih X) hstep
      have hcrc : crc g r (bs ++ [b]) = crcFeed g (crc g r bs) b := by
        simp [crc, List.foldl_append]
      rw [hcrc, streamPoly_concat, List.length_append, List.length_singleton]
      convert hsum using 1
      ring

/-! ### Equal checksums -/

/-- A generator with a constant term has no factor `X`. -/
theorem isCoprime_crcPoly_X_pow (hw : 0 < w) (hg : g.getLsbD 0 = true) (n : ℕ) :
    IsCoprime (crcPoly g) (X ^ n) := by
  apply IsCoprime.pow_right
  have hX : Irreducible (X : (ZMod 2)[X]) := irreducible_X
  rw [isCoprime_comm, hX.coprime_iff_not_dvd, X_dvd_iff]
  unfold crcPoly
  rw [coeff_add, coeff_X_pow, coeff_toPoly, hg, if_neg hw.ne]
  decide

/-- Two streams of one length have the same checksum exactly if the generator divides their
difference. -/
theorem crc_eq_iff (hw : 0 < w) (hg : g.getLsbD 0 = true) (r : BitVec w) {xs ys : List Bool}
    (hlength : xs.length = ys.length) :
    crc g r xs = crc g r ys ↔ crcPoly g ∣ streamPoly xs - streamPoly ys := by
  have hdvd : crcPoly g ∣ X ^ w * (streamPoly xs - streamPoly ys) -
      (toPoly (crc g r xs) - toPoly (crc g r ys)) := by
    have h := dvd_sub (crcPoly_dvd g hw r xs) (crcPoly_dvd g hw r ys)
    rw [hlength] at h
    convert h using 1
    ring
  constructor
  · intro heq
    rw [heq, sub_self, sub_zero] at hdvd
    exact (isCoprime_crcPoly_X_pow g hw hg w).dvd_of_dvd_mul_left hdvd
  · intro hdiff
    apply eq_of_crcPoly_dvd g
    exact (dvd_sub_right (Dvd.dvd.mul_left hdiff _)).mp hdvd

/-- Whether two streams have the same checksum does not depend on the register. -/
theorem crc_eq_crc_iff (hw : 0 < w) (hg : g.getLsbD 0 = true) (r r' : BitVec w)
    {xs ys : List Bool} (hlength : xs.length = ys.length) :
    crc g r xs = crc g r ys ↔ crc g r' xs = crc g r' ys := by
  rw [crc_eq_iff g hw hg r hlength, crc_eq_iff g hw hg r' hlength]

end

/-! ### Differences -/

/-- The places in which two streams differ. -/
def differing (xs ys : List Bool) : Finset ℕ :=
  (range xs.length).filter fun i => xs.getD i false ≠ ys.getD i false

theorem streamPoly_sub {xs ys : List Bool} (hlength : xs.length = ys.length) :
    streamPoly xs - streamPoly ys = ∑ i ∈ differing xs ys, X ^ (xs.length - 1 - i) := by
  unfold streamPoly differing
  rw [← hlength, ← sum_sub_distrib, sum_filter]
  refine sum_congr rfl fun i _ => ?_
  rw [← map_sub, bitOf_sub]
  split
  · rw [← C_mul_X_pow_eq_monomial, C_1, one_mul]
  · exact map_zero _

/-- Streams with a common beginning differ only after it. -/
theorem length_le_of_mem_differing {p xs ys : List Bool} {i : ℕ}
    (h : i ∈ differing (p ++ xs) (p ++ ys)) : p.length ≤ i := by
  by_contra hlt
  rw [not_le] at hlt
  have hne := (mem_filter.mp h).2
  simp only [List.getD_eq_getElem?_getD, List.getElem?_append_left hlt] at hne
  exact hne rfl

theorem exists_differing {xs ys : List Bool} (hlength : xs.length = ys.length) (hne : xs ≠ ys) :
    (differing xs ys).Nonempty := by
  by_contra hempty
  rw [not_nonempty_iff_eq_empty] at hempty
  refine hne (List.ext_getElem hlength fun i hi hi' => ?_)
  have hnot : i ∉ differing xs ys := by
    rw [hempty]
    exact notMem_empty i
  simpa [differing, hi, List.getD_eq_getElem?_getD, List.getElem?_eq_getElem hi,
    List.getElem?_eq_getElem hi'] using hnot

/-- A sum of different powers is not zero. -/
theorem sum_X_pow_ne_zero {S : Finset ℕ} (hS : S.Nonempty) :
    ∑ e ∈ S, (X : (ZMod 2)[X]) ^ e ≠ 0 := by
  obtain ⟨a, ha⟩ := hS
  intro hzero
  have hcoeff := congrArg (fun p : (ZMod 2)[X] => p.coeff a) hzero
  simp only [finsetSum_coeff, coeff_X_pow, coeff_zero] at hcoeff
  rw [Finset.sum_ite_eq, if_pos ha] at hcoeff
  exact one_ne_zero hcoeff

/-- The exponents of the difference of two streams. -/
def exponents (xs ys : List Bool) : Finset ℕ := (differing xs ys).image (xs.length - 1 - ·)

theorem injOn_differing (xs ys : List Bool) :
    Set.InjOn (xs.length - 1 - ·) (differing xs ys : Set ℕ) := by
  intro i hi j hj hij
  have hi' : i < xs.length := mem_range.mp (mem_filter.mp hi).1
  have hj' : j < xs.length := mem_range.mp (mem_filter.mp hj).1
  simp only at hij
  omega

theorem streamPoly_sub_eq_sum {xs ys : List Bool} (hlength : xs.length = ys.length) :
    streamPoly xs - streamPoly ys = ∑ e ∈ exponents xs ys, X ^ e := by
  rw [streamPoly_sub hlength, exponents, sum_image (injOn_differing xs ys)]

/-! ### Bursts -/

/-- The generator divides no sum of different powers within `w` consecutive ones. -/
theorem not_crcPoly_dvd_of_burst (g : BitVec w) (hw : 0 < w) (hg : g.getLsbD 0 = true)
    {S : Finset ℕ} (hS : S.Nonempty) {k : ℕ} (hburst : ∀ e ∈ S, k ≤ e ∧ e < k + w) :
    ¬ crcPoly g ∣ ∑ e ∈ S, X ^ e := by
  intro hdvd
  have hfactor : ∑ e ∈ S, (X : (ZMod 2)[X]) ^ e = X ^ k * ∑ e ∈ S, X ^ (e - k) := by
    rw [mul_sum]
    refine sum_congr rfl fun e he => ?_
    rw [← pow_add, Nat.add_sub_cancel' (hburst e he).1]
  have hquotient : crcPoly g ∣ ∑ e ∈ S, X ^ (e - k) := by
    rw [hfactor] at hdvd
    exact (isCoprime_crcPoly_X_pow g hw hg k).dvd_of_dvd_mul_left hdvd
  have hdegree : (∑ e ∈ S, (X : (ZMod 2)[X]) ^ (e - k)).degree < (crcPoly g).degree := by
    rw [degree_crcPoly]
    refine (degree_sum_le _ _).trans_lt ((Finset.sup_lt_iff ?_).mpr fun e he => ?_)
    · exact WithBot.bot_lt_coe w
    · rw [degree_X_pow]
      have := hburst e he
      exact_mod_cast (by omega : e - k < w)
  apply sum_X_pow_ne_zero hS
  rw [hfactor, eq_zero_of_dvd_of_degree_lt hquotient hdegree, mul_zero]

/-- **Bursts are detected**: streams that differ, but only within `w` consecutive bits, have
different checksums. -/
theorem crc_ne_of_burst (g : BitVec w) (hw : 0 < w) (hg : g.getLsbD 0 = true) (r : BitVec w)
    {xs ys : List Bool} (hlength : xs.length = ys.length) (hne : xs ≠ ys) {a : ℕ}
    (hburst : ∀ i ∈ differing xs ys, a ≤ i ∧ i < a + w) : crc g r xs ≠ crc g r ys := by
  rw [Ne, crc_eq_iff g hw hg r hlength, streamPoly_sub_eq_sum hlength]
  refine not_crcPoly_dvd_of_burst g hw hg ((exists_differing hlength hne).image _)
    (k := xs.length - (a + w)) fun e he => ?_
  obtain ⟨i, hi, rfl⟩ := mem_image.mp he
  have hlt : i < xs.length := mem_range.mp (mem_filter.mp hi).1
  have := hburst i hi
  omega

/-! ### Few bits -/

/-- The remainder of `X ^ j`. -/
def crcPower (g : BitVec w) (j : ℕ) : BitVec w := crc g 1#w (List.replicate j false)

theorem toPoly_one (hw : 0 < w) : toPoly (1#w) = 1 := by
  ext i
  rw [coeff_toPoly, coeff_one, BitVec.getLsbD_one]
  by_cases hi : i = 0
  · simp [hi, hw, bitOf]
  · simp [hi, bitOf]

theorem streamPoly_replicate_false (j : ℕ) : streamPoly (List.replicate j false) = 0 := by
  unfold streamPoly
  refine sum_eq_zero fun i hi => ?_
  have hlt : i < j := by simpa using hi
  simp [List.getD_eq_getElem?_getD, hlt, bitOf]

theorem crcPower_dvd (g : BitVec w) (hw : 0 < w) (j : ℕ) :
    crcPoly g ∣ X ^ j - toPoly (crcPower g j) := by
  have h := crcPoly_dvd g hw 1#w (List.replicate j false)
  rwa [List.length_replicate, streamPoly_replicate_false, toPoly_one hw, mul_one, mul_zero,
    add_zero] at h

/-- No two of the first `n` powers have remainders that agree but for their last bit. -/
def PowersApart (g : BitVec w) (n : ℕ) : Prop :=
  ∀ i < n, ∀ j < n, crcPower g i >>> 1 = crcPower g j >>> 1 → i = j

theorem eq_of_crcPoly_dvd_add (g : BitVec w) {a b : BitVec w}
    (h : crcPoly g ∣ toPoly a + toPoly b) : a = b := by
  apply eq_of_crcPoly_dvd g
  rwa [CharTwo.sub_eq_add]

theorem one_xor_shiftRight (r : BitVec w) : (1#w ^^^ r) >>> 1 = r >>> 1 := by
  apply BitVec.eq_of_getLsbD_eq
  intro i _
  rw [BitVec.getLsbD_ushiftRight, BitVec.getLsbD_xor, BitVec.getLsbD_one,
    BitVec.getLsbD_ushiftRight]
  simp

/-- The generator divides no sum of at most two further powers and 1. -/
theorem not_crcPoly_dvd_one_add (g : BitVec w) (hw : 0 < w) {n : ℕ} (hn : PowersApart g n)
    {T : Finset ℕ} (hT : ∀ e ∈ T, 0 < e ∧ e < n) (hcard : T.card ≤ 2) :
    ¬ crcPoly g ∣ 1 + ∑ e ∈ T, X ^ e := by
  intro hdvd
  -- the sum with the remainders in place of the powers
  have hsum : crcPoly g ∣ 1 + ∑ e ∈ T, toPoly (crcPower g e) := by
    have hdiff : crcPoly g ∣ ∑ e ∈ T, (X ^ e - toPoly (crcPower g e)) :=
      dvd_sum fun e _ => crcPower_dvd g hw e
    rw [sum_sub_distrib] at hdiff
    have h := dvd_sub hdvd hdiff
    rwa [add_sub_assoc, sub_sub_cancel] at h
  rw [← toPoly_one hw] at hsum
  interval_cases h : T.card
  · rw [card_eq_zero.mp h, sum_empty, ← toPoly_zero] at hsum
    have hone : (1#w) = 0#w := eq_of_crcPoly_dvd_add g hsum
    have hbit := congrArg (fun r : BitVec w => r.getLsbD 0) hone
    simp [hw] at hbit
  · obtain ⟨i, rfl⟩ := card_eq_one.mp h
    have hi := hT i (mem_singleton_self i)
    rw [sum_singleton] at hsum
    have hone : (1#w) = crcPower g i := eq_of_crcPoly_dvd_add g hsum
    have hzero : crcPower g 0 = 1#w := rfl
    exact hi.1.ne (hn 0 (by omega) i hi.2 (by rw [hzero, hone]))
  · obtain ⟨i, j, hij, rfl⟩ := card_eq_two.mp h
    have hi := hT i (mem_insert_self i _)
    have hj := hT j (mem_insert_of_mem (mem_singleton_self j))
    rw [sum_pair hij, ← add_assoc, ← toPoly_xor] at hsum
    have hsame : 1#w ^^^ crcPower g i = crcPower g j := eq_of_crcPoly_dvd_add g hsum
    refine hij (hn i hi.2 j hj.2 ?_)
    rw [← hsame, one_xor_shiftRight]

theorem not_crcPoly_dvd_of_few (g : BitVec w) (hw : 0 < w) (hg : g.getLsbD 0 = true) {n : ℕ}
    (hn : PowersApart g n) {S : Finset ℕ} (hS : S.Nonempty) (hlt : ∀ e ∈ S, e < n)
    (hcard : S.card ≤ 3) : ¬ crcPoly g ∣ ∑ e ∈ S, X ^ e := by
  intro hdvd
  -- divide by the lowest power
  have hmin := S.min'_mem hS
  have hfactor : ∑ e ∈ S, (X : (ZMod 2)[X]) ^ e =
      X ^ S.min' hS * (1 + ∑ e ∈ (S.erase (S.min' hS)).image (· - S.min' hS), X ^ e) := by
    rw [← add_sum_erase S _ hmin, mul_add, mul_one, sum_image, mul_sum]
    · congr 1
      refine sum_congr rfl fun e he => ?_
      rw [← pow_add, Nat.add_sub_cancel' (S.min'_le e (mem_of_mem_erase he))]
    · intro e he f hf hef
      have he' := S.min'_le e (mem_of_mem_erase he)
      have hf' := S.min'_le f (mem_of_mem_erase hf)
      simp only at hef
      omega
  rw [hfactor] at hdvd
  refine not_crcPoly_dvd_one_add g hw hn (fun e he => ?_) ?_
    ((isCoprime_crcPoly_X_pow g hw hg _).dvd_of_dvd_mul_left hdvd)
  · obtain ⟨f, hf, rfl⟩ := mem_image.mp he
    have hlow := S.min'_lt_of_mem_erase_min' hS hf
    have hup := hlt f (mem_of_mem_erase hf)
    omega
  · refine card_image_le.trans ?_
    rw [card_erase_of_mem hmin]
    omega

/-- **Few wrong bits are detected**: streams of at most `n` bits that differ in one to three of
them have different checksums. -/
theorem crc_ne_of_few (g : BitVec w) (hw : 0 < w) (hg : g.getLsbD 0 = true) (r : BitVec w) {n : ℕ}
    (hn : PowersApart g n) {xs ys : List Bool} (hlength : xs.length = ys.length) (hne : xs ≠ ys)
    (hle : xs.length ≤ n) (hfew : (differing xs ys).card ≤ 3) : crc g r xs ≠ crc g r ys := by
  rw [Ne, crc_eq_iff g hw hg r hlength, streamPoly_sub_eq_sum hlength]
  refine not_crcPoly_dvd_of_few g hw hg hn ((exists_differing hlength hne).image _)
    (fun e he => ?_) (card_image_le.trans hfew)
  obtain ⟨i, hi, rfl⟩ := mem_image.mp he
  have hlt : i < xs.length := mem_range.mp (mem_filter.mp hi).1
  omega

/-! ### Bits in groups -/

/-- The register shifted by one place. -/
def crcShiftOnce (g : BitVec w) (r : BitVec w) : BitVec w := crcFeed g r false

/-- The first `n` bits of a word, the most significant first. -/
def topBits (n : ℕ) (x : BitVec w) : List Bool := (List.range n).map x.getMsbD

theorem length_topBits (n : ℕ) (x : BitVec w) : (topBits n x).length = n := by
  rw [topBits, List.length_map, List.length_range]

theorem topBits_injective : Function.Injective (topBits w : BitVec w → List Bool) := by
  intro x y h
  apply BitVec.eq_of_getMsbD_eq
  intro i hi
  exact List.map_inj_left.mp h i (List.mem_range.mpr hi)

theorem topBits_succ (n : ℕ) (x : BitVec w) :
    topBits (n + 1) x = x.msb :: topBits n (x <<< 1) := by
  unfold topBits
  rw [List.range_succ_eq_map, List.map_cons, List.map_map]
  refine congrArg₂ List.cons rfl (List.map_congr_left fun i _ => ?_)
  rw [Function.comp_apply, BitVec.getMsbD_shiftLeft]

theorem crcShiftOnce_xor (g r x : BitVec w) :
    crcShiftOnce g (r ^^^ x) = crcFeed g r x.msb ^^^ (x <<< 1) := by
  unfold crcShiftOnce crcFeed
  rw [BitVec.msb_xor, Bool.xor_false, BitVec.shiftLeft_xor_distrib]
  split
  · rw [BitVec.xor_assoc, BitVec.xor_comm (x <<< 1), BitVec.xor_assoc]
  · rfl

/-- Taking in a group of bits: the group is added to the register, then the register is shifted as
often as the group has bits. -/
theorem crcShiftOnce_iterate_xor (g r x : BitVec w) (n : ℕ) :
    (crcShiftOnce g)^[n] (r ^^^ x) = crc g r (topBits n x) ^^^ (x <<< n) := by
  induction n generalizing r x with
  | zero => simp [crc, topBits]
  | succ n ih =>
      rw [Function.iterate_succ_apply, crcShiftOnce_xor, ih, topBits_succ, ← BitVec.shiftLeft_add,
        Nat.add_comm 1 n]
      rfl

/-- The bits of a concatenation. -/
theorem topBits_append {m n : ℕ} (x : BitVec m) (y : BitVec n) :
    topBits (m + n) (x ++ y) = topBits m x ++ topBits n y := by
  unfold topBits
  rw [List.range_add, List.map_append, List.map_map]
  refine congrArg₂ List.append (List.map_congr_left fun i hi => ?_)
    (List.map_congr_left fun i _ => ?_)
  · have hlt : i < m := List.mem_range.mp hi
    rw [BitVec.getMsbD_append, if_neg (by omega)]
  · rw [Function.comp_apply, BitVec.getMsbD_append, if_pos (by omega), Nat.add_sub_cancel_left]

/-- Taking in a word of `n` bits that is added at the top of the register. -/
theorem crcShiftOnce_iterate_top (g r : BitVec w) {n : ℕ} (hn : n ≤ w) (x : BitVec n) :
    (crcShiftOnce g)^[n] (r ^^^ (x.setWidth w <<< (w - n))) = crc g r (topBits n x) := by
  have hout : x.setWidth w <<< (w - n) <<< n = 0#w := by
    rw [← BitVec.shiftLeft_add, Nat.sub_add_cancel hn]
    exact BitVec.shiftLeft_eq_zero (le_refl w)
  have hbits : topBits n (x.setWidth w <<< (w - n)) = topBits n x := by
    refine List.map_congr_left fun i hi => ?_
    have hlt : i < n := List.mem_range.mp hi
    rw [BitVec.getMsbD_shiftLeft, BitVec.getMsbD_setWidth]
    have hle : w - n ≤ i + (w - n) := Nat.le_add_left _ _
    have hi' : i + (w - n) + n - w = i := by omega
    simp [hi']
  rw [crcShiftOnce_iterate_xor, hout, hbits, BitVec.xor_zero]

theorem crc_replicate_false (g r : BitVec w) (n : ℕ) :
    crc g r (List.replicate n false) = (crcShiftOnce g)^[n] r := by
  induction n generalizing r with
  | zero => rfl
  | succ n ih => rw [Function.iterate_succ_apply, ← ih]; rfl

/-! ### Checking the powers -/

/-- The numbers of a list without and with bit `d`, in front of `low` and `high`. -/
def splitBit (d : ℕ) : List ℕ → List ℕ → List ℕ → List ℕ × List ℕ
  | [], low, high => (low, high)
  | a :: l, low, high =>
      match a &&& 2 ^ d with
      | 0 => splitBit d l (a :: low) high
      | _ + 1 => splitBit d l low (a :: high)

/-- Whether the numbers of a list, of at most `d` bits, are distinct: those without and those with
the highest bit are checked apart. -/
def distinctBits : ℕ → List ℕ → Bool
  | _, [] => true
  | _, [_] => true
  | 0, _ :: _ :: _ => false
  | d + 1, a :: b :: l =>
      match splitBit d (a :: b :: l) [] [] with
      | (low, high) => distinctBits d low && distinctBits d high

theorem splitBit_eq (d : ℕ) (l low high : List ℕ) :
    splitBit d l low high =
      ((l.filter fun a => a &&& 2 ^ d = 0).reverse ++ low,
        (l.filter fun a => a &&& 2 ^ d ≠ 0).reverse ++ high) := by
  fun_induction splitBit d l low high with
  | case1 => rfl
  | case2 low high a l h ih => simp [ih, h]
  | case3 low high a l n h ih => simp [ih, h]

/-- A list is without duplicates if its two parts are. -/
theorem nodup_of_filter {p : ℕ → Prop} [DecidablePred p] {l : List ℕ}
    (hp : (l.filter fun a => p a).Nodup) (hn : (l.filter fun a => ¬p a).Nodup) : l.Nodup := by
  rw [List.nodup_iff_count_le_one] at hp hn ⊢
  intro a
  by_cases ha : p a
  · rw [← List.count_filter (p := fun a => decide (p a)) (by simpa using ha)]
    exact hp a
  · rw [← List.count_filter (p := fun a => decide (¬p a)) (by simpa using ha)]
    exact hn a

theorem nodup_of_distinctBits {d : ℕ} {l : List ℕ} (h : distinctBits d l = true) : l.Nodup := by
  fun_induction distinctBits d l with
  | case1 => exact List.nodup_nil
  | case2 _ x => exact List.nodup_singleton x
  | case3 => cases h
  | case4 d a b l low high hsplit ihlow ihhigh =>
      rw [splitBit_eq, List.append_nil, List.append_nil, Prod.mk.injEq] at hsplit
      obtain ⟨rfl, rfl⟩ := hsplit
      rw [Bool.and_eq_true] at h
      exact nodup_of_filter (List.nodup_reverse.mp (ihlow h.1)) (List.nodup_reverse.mp (ihhigh h.2))

/-- `crcShiftOnce` on numbers. -/
def shiftNat (w g r : ℕ) : ℕ := if 2 ^ w ≤ 2 * r then (2 * r - 2 ^ w) ^^^ g else 2 * r

/-- The remainders of `n` powers without their last bit, from the remainder `r` on. -/
def powersNat (w g : ℕ) : ℕ → ℕ → List ℕ
  | 0, _ => []
  | n + 1, r => r / 2 :: powersNat w g n (shiftNat w g r)

theorem toNat_crcShiftOnce (hw : 0 < w) (g r : BitVec w) :
    (crcShiftOnce g r).toNat = shiftNat w g.toNat r.toNat := by
  have hr := r.isLt
  have hpow : 2 ^ w = 2 * 2 ^ (w - 1) := by rw [← pow_succ', Nat.sub_add_cancel hw]
  have hmsb : r.msb = decide (2 ^ w ≤ 2 * r.toNat) := by
    rw [BitVec.msb_eq_decide]
    exact decide_eq_decide.mpr (by omega)
  have hshift : (r <<< 1).toNat = 2 * r.toNat % 2 ^ w := by
    rw [BitVec.toNat_shiftLeft, Nat.shiftLeft_eq, pow_one, Nat.mul_comm]
  unfold crcShiftOnce crcFeed shiftNat
  rw [Bool.xor_false, hmsb]
  by_cases h : 2 ^ w ≤ 2 * r.toNat
  · have hmod : 2 * r.toNat % 2 ^ w = 2 * r.toNat - 2 ^ w := by
      rw [Nat.mod_eq_sub_mod h, Nat.mod_eq_of_lt (by omega)]
    simp only [h, decide_true, if_true, BitVec.toNat_xor, hshift, hmod]
  · simp only [h, decide_false, if_false, hshift, Bool.false_eq_true]
    exact Nat.mod_eq_of_lt (by omega)

theorem powersNat_eq (hw : 0 < w) (g r : BitVec w) (n : ℕ) :
    powersNat w g.toNat n r.toNat =
      (List.range n).map fun j => ((crcShiftOnce g)^[j] r >>> 1).toNat := by
  induction n generalizing r with
  | zero => rfl
  | succ n ih =>
      rw [powersNat, ← toNat_crcShiftOnce hw, ih, List.range_succ_eq_map, List.map_cons,
        List.map_map]
      refine congrArg₂ List.cons ?_ rfl
      rw [Function.iterate_zero_apply, BitVec.toNat_ushiftRight, Nat.shiftRight_eq_div_pow, pow_one]

/-- `PowersApart` can be computed. -/
theorem powersApart_of_distinctBits (hw : 0 < w) (g : BitVec w) {n d : ℕ}
    (h : distinctBits d (powersNat w g.toNat n (1#w).toNat) = true) : PowersApart g n := by
  have hnodup := nodup_of_distinctBits h
  rw [powersNat_eq hw] at hnodup
  intro i hi j hj hij
  refine List.inj_on_of_nodup_map hnodup (List.mem_range.mpr hi) (List.mem_range.mpr hj) ?_
  rw [crcPower, crcPower, crc_replicate_false, crc_replicate_false] at hij
  rw [hij]

end PeripheralTester.Lib
