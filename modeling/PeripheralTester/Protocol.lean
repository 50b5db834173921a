import Mathlib.Tactic

/-! # The command protocol

Commands and responses as both programs declare them (`app_protocol.h` on either side), and the
packed layout they have on the wire: `test_id` little-endian in four bytes, then one byte a
field, then the pattern.  A command is 262 bytes and a response 5, as the static assertions of
the firmware header say (`Command.encode_length`, `Response.encode_length`).

`Command.decode` and `Response.decode` read the fields back from a byte sequence the way the
packed structs overlay the copied bytes; `decode_encode` says nothing is lost. -/

namespace PeripheralTester

/-- Peripherals a command can name. -/
inductive Peripheral where
  | timer
  | uart
  | spi
  | i2c
  | adc
deriving DecidableEq, Repr

namespace Peripheral

instance : Fintype Peripheral where
  elems := {timer, uart, spi, i2c, adc}
  complete := by
    intro p
    cases p <;> decide

/-- All of them. -/
def all : List Peripheral := [timer, uart, spi, i2c, adc]

theorem mem_all (p : Peripheral) : p ∈ all := by cases p <;> decide

/-- `APP_PROTOCOL_PERIPHERAL_*`. -/
def code : Peripheral → UInt8
  | timer => 1
  | uart => 2
  | spi => 4
  | i2c => 8
  | adc => 16

/-- The `case` of a switch over the peripheral field; `none` is its `default`. -/
def ofCode (c : UInt8) : Option Peripheral :=
  if c = 1 then some timer
  else if c = 2 then some uart
  else if c = 4 then some spi
  else if c = 8 then some i2c
  else if c = 16 then some adc
  else none

theorem ofCode_code (p : Peripheral) : ofCode p.code = some p := by cases p <;> rfl

theorem ofCode_eq_some_iff {c : UInt8} {p : Peripheral} : ofCode c = some p ↔ c = p.code := by
  constructor
  · intro h
    unfold ofCode at h
    split_ifs at h <;> cases h <;> assumption
  · rintro rfl
    exact ofCode_code p

end Peripheral

/-- `APP_PROTOCOL_TEST_SUCCESS`. -/
def appProtocolTestSuccess : UInt8 := 1
/-- `APP_PROTOCOL_TEST_FAIL`. -/
def appProtocolTestFail : UInt8 := 0xFF
/-- `APP_PROTOCOL_MAX_PATTERN_LEN` on the device, `APP_PROTOCOL_PATTERN_MAX_LEN` on the server. -/
def appProtocolMaxPatternLen : ℕ := 255

/-- `app_protocol_command_t`. -/
structure Command where
  testId : UInt32
  peripheral : UInt8
  iterations : UInt8
  patternLen : UInt8
  pattern : Vector UInt8 appProtocolMaxPatternLen
deriving DecidableEq, Repr

/-- `app_protocol_response_t`. -/
structure Response where
  testId : UInt32
  result : UInt8
deriving DecidableEq, Repr

/-! ### Wire layout -/

/-- The bytes of a 32-bit field, least significant first. -/
def encode32 (x : UInt32) : List UInt8 :=
  [.ofNat x.toNat, .ofNat (x.toNat / 256), .ofNat (x.toNat / 256 ^ 2), .ofNat (x.toNat / 256 ^ 3)]

/-- The 32-bit field at the start of a byte sequence; missing bytes read as zero. -/
def decode32 (bs : List UInt8) : UInt32 :=
  .ofNat ((bs.getD 0 0).toNat + 256 * (bs.getD 1 0).toNat + 256 ^ 2 * (bs.getD 2 0).toNat +
    256 ^ 3 * (bs.getD 3 0).toNat)

@[simp] theorem encode32_length (x : UInt32) : (encode32 x).length = 4 := rfl

theorem decode32_encode32 (x : UInt32) (bs : List UInt8) :
    decode32 (encode32 x ++ bs) = x := by
  have hx := x.toNat_lt
  apply UInt32.toNat_inj.mp
  simp only [decode32, encode32, List.cons_append, List.nil_append, List.getD_cons_zero,
    List.getD_cons_succ, UInt8.toNat_ofNat', UInt32.toNat_ofNat']
  omega

namespace Command

/-- `sizeof(app_protocol_command_t)`. -/
def size : ℕ := 262

def encode (c : Command) : List UInt8 :=
  encode32 c.testId ++ c.peripheral :: c.iterations :: c.patternLen :: c.pattern.toList

/-- The command whose packed bytes are `bs`. -/
def decode (bs : List UInt8) : Command where
  testId := decode32 bs
  peripheral := bs.getD 4 0
  iterations := bs.getD 5 0
  patternLen := bs.getD 6 0
  pattern := Vector.ofFn fun i => bs.getD (7 + i) 0

theorem encode_length (c : Command) : c.encode.length = size := by
  have hp : c.pattern.toList.length = 255 := Vector.length_toList
  simp only [encode, size, List.length_append, encode32_length, List.length_cons, hp]

theorem decode_encode (c : Command) : decode c.encode = c := by
  obtain ⟨testId, peripheral, iterations, patternLen, pattern⟩ := c
  simp only [decode, encode, decode32_encode32, Command.mk.injEq, true_and]
  refine ⟨rfl, rfl, rfl, ?_⟩
  ext i hi
  have e : ∀ (l : List UInt8) (a b c : UInt8),
      (encode32 testId ++ a :: b :: c :: l).getD (7 + i) 0 =
      l.getD i 0 := by
    intro l a b c
    rw [Nat.add_comm]
    rfl
  simp only [Vector.getElem_ofFn, e]
  rw [List.getD_eq_getElem?_getD, List.getElem?_eq_getElem (by simpa using hi), Option.getD_some,
    Vector.getElem_toList]

end Command

namespace Response

/-- `sizeof(app_protocol_response_t)`. -/
def size : ℕ := 5

def encode (r : Response) : List UInt8 := encode32 r.testId ++ [r.result]

/-- The response whose packed bytes are `bs`. -/
def decode (bs : List UInt8) : Response := ⟨decode32 bs, bs.getD 4 0⟩

theorem encode_length (r : Response) : r.encode.length = size := rfl

theorem decode_encode (r : Response) : decode r.encode = r := by
  simp only [decode, encode, decode32_encode32]
  rfl

end Response

end PeripheralTester
