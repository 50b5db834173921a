import Mathlib.Tactic

/-! # Formats of fixed size

A `Format β α` represents the values of `α` by the sequences of `size` symbols of `β`, one to
one in both directions; the two round trips are fields of the structure, so a format that loses
something cannot be built.  Formats are put together the way a packed record is laid out:
`word` and `array` are the fields, `seq` places one field after another, and `map` names them.

* `littleEndian n`: the numbers below `256 ^ n` in `n` bytes, least significant first. -/

namespace PeripheralTester.Lib

variable {α β γ : Type*}

/-- A one-to-one representation by sequences of a fixed size. -/
structure Format (β α : Type*) where
  size : ℕ
  encode : α → List β
  decode : List β → α
  length_encode : ∀ a, (encode a).length = size
  decode_encode : ∀ a, decode (encode a) = a
  encode_decode : ∀ bs, bs.length = size → encode (decode bs) = bs

namespace Format

attribute [simp] length_encode decode_encode

/-- Two formats that encode alike decode alike, as far as a sequence has their size. -/
theorem decode_eq {f : Format β α} {g : List β → α} (hg : ∀ a, g (f.encode a) = a) {bs : List β}
    (hbs : bs.length = f.size) : g bs = f.decode bs := by
  rw [← f.encode_decode bs hbs, hg, f.decode_encode]

/-- A field of one symbol. -/
def word [Inhabited β] : Format β β where
  size := 1
  encode b := [b]
  decode bs := bs.headD default
  length_encode _ := rfl
  decode_encode _ := rfl
  encode_decode bs h := by
    obtain ⟨b, rfl⟩ := List.length_eq_one_iff.mp h
    rfl

/-- A field of `n` symbols. -/
def array [Inhabited β] (n : ℕ) : Format β (Vector β n) where
  size := n
  encode v := v.toList
  decode bs := Vector.ofFn fun i => bs.getD i default
  length_encode _ := Vector.length_toList
  decode_encode v := by
    ext i hi
    have hv : v.toList[i]? = some v[i] := by
      rw [List.getElem?_eq_getElem (by simpa using hi), Vector.getElem_toList]
    simp only [Vector.getElem_ofFn, List.getD_eq_getElem?_getD, hv, Option.getD_some]
  encode_decode bs h := by
    subst h
    refine List.ext_getElem (by simp) fun i hi hi' => ?_
    simp only [Vector.getElem_toList, Vector.getElem_ofFn, List.getD_eq_getElem?_getD,
      List.getElem?_eq_getElem hi', Option.getD_some]

/-- One field after another. -/
def seq (f : Format β α) (g : Format β γ) : Format β (α × γ) where
  size := f.size + g.size
  encode a := f.encode a.1 ++ g.encode a.2
  decode bs := (f.decode (bs.take f.size), g.decode (bs.drop f.size))
  length_encode a := by rw [List.length_append, f.length_encode, g.length_encode]
  decode_encode a := by
    have hf := f.length_encode a.1
    rw [← hf, List.take_left, List.drop_left, f.decode_encode, g.decode_encode]
  encode_decode bs h := by
    rw [f.encode_decode _ (by rw [List.length_take]; omega),
      g.encode_decode _ (by rw [List.length_drop]; omega), List.take_append_drop]

/-- The same fields under the names of another type. -/
def map (e : α ≃ γ) (f : Format β α) : Format β γ where
  size := f.size
  encode c := f.encode (e.symm c)
  decode bs := e (f.decode bs)
  length_encode _ := f.length_encode _
  decode_encode c := by rw [f.decode_encode, e.apply_symm_apply]
  encode_decode bs h := by rw [e.symm_apply_apply, f.encode_decode bs h]

end Format

/-! ### Numbers in bytes -/

/-- The low `n` bytes of a number, least significant first. -/
def leEncode : ℕ → ℕ → List UInt8
  | 0, _ => []
  | n + 1, x => .ofNat x :: leEncode n (x / 256)

/-- The number whose bytes these are, least significant first. -/
def leDecode : List UInt8 → ℕ
  | [] => 0
  | b :: bs => b.toNat + 256 * leDecode bs

theorem length_leEncode (n x : ℕ) : (leEncode n x).length = n := by
  induction n generalizing x with
  | zero => rfl
  | succ n ih => rw [leEncode, List.length_cons, ih]

theorem leDecode_leEncode (n x : ℕ) : leDecode (leEncode n x) = x % 256 ^ n := by
  induction n generalizing x with
  | zero => simp [leEncode, leDecode, Nat.mod_one]
  | succ n ih =>
      have hb : (UInt8.ofNat x).toNat = x % 256 := UInt8.toNat_ofNat'
      rw [leEncode, leDecode, ih, hb, pow_succ', Nat.mod_mul]

theorem leDecode_lt (bs : List UInt8) : leDecode bs < 256 ^ bs.length := by
  induction bs with
  | nil => simp [leDecode]
  | cons b bs ih =>
      have hb := b.toNat_lt
      rw [leDecode, List.length_cons, pow_succ']
      omega

theorem leEncode_leDecode (bs : List UInt8) : leEncode bs.length (leDecode bs) = bs := by
  induction bs with
  | nil => rfl
  | cons b bs ih =>
      have hb := b.toNat_lt
      have hdiv : (b.toNat + 256 * leDecode bs) / 256 = leDecode bs := by omega
      rw [List.length_cons, leEncode, leDecode, hdiv, ih]
      congr 1
      apply UInt8.toNat_inj.mp
      rw [UInt8.toNat_ofNat']
      omega

/-- The numbers below `256 ^ n`. -/
def littleEndian (n : ℕ) : Format UInt8 (Fin (256 ^ n)) where
  size := n
  encode x := leEncode n x
  decode bs := ⟨leDecode bs % 256 ^ n, Nat.mod_lt _ (by positivity)⟩
  length_encode x := length_leEncode n x
  decode_encode x := by
    apply Fin.ext
    simp only [leDecode_leEncode, Nat.mod_eq_of_lt x.isLt]
  encode_decode bs h := by
    subst h
    simp only [Nat.mod_eq_of_lt (leDecode_lt bs), leEncode_leDecode]

/-- A 32-bit word of a little-endian host. -/
def word32 : Format UInt8 UInt32 :=
  (littleEndian 4).map
    { toFun := fun x => .ofNat x.val
      invFun := fun w => (⟨w.toNat, w.toNat_lt⟩ : Fin (256 ^ 4))
      left_inv := fun x => Fin.ext (UInt32.toNat_ofNat_of_lt' x.isLt)
      right_inv := fun _ => UInt32.ofNat_toNat }

end PeripheralTester.Lib
