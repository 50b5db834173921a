import Mathlib.Tactic

/-! # The bytes of a log line

What `app_printf` does at its place `PrintfPc.transmit`: `vsnprintf` stores at most 255 bytes of the
message and a terminator in the buffer but returns the length of the whole message, and the low 16
bits of that length go to `HAL_UART_Transmit`, with the start of the buffer.  So the bytes passed on
are the stored ones of a message that fits.  From 256 bytes on they are as many as the low bits say,
the terminator and the stack behind the buffer included, or fewer than were stored
(`transmits_exactly_iff`). -/

namespace PeripheralTester.Firmware

/-! ### Memory -/

/-- The memory from the start of the buffer, which lies on the stack. -/
abbrev Stack := ℕ → UInt8

/-- Bytes are stored from the start on. -/
def Stack.store (m : Stack) (bytes : List UInt8) : Stack := fun i => bytes.getD i (m i)

def Stack.load (m : Stack) (n : ℕ) : List UInt8 := (List.range n).map m

@[simp] theorem Stack.length_load (m : Stack) (n : ℕ) : (m.load n).length = n := by
  simp [load]

/-- What was stored is loaded again. -/
theorem Stack.load_store (m : Stack) {bytes : List UInt8} {n : ℕ} (h : n ≤ bytes.length) :
    (m.store bytes).load n = bytes.take n := by
  apply List.ext_getElem
  · simpa using h
  · intro i hi _
    rw [length_load] at hi
    simp [load, store, List.getD_eq_getElem?_getD, List.getElem?_eq_getElem (hi.trans_le h)]

/-- What lies behind is loaded after it. -/
theorem Stack.load_store_of_le (m : Stack) {bytes : List UInt8} {n : ℕ} (h : bytes.length ≤ n) :
    (m.store bytes).load n = bytes ++ (m.load n).drop bytes.length := by
  apply List.ext_getElem
  · simp only [length_load, List.length_append, List.length_drop]
    omega
  · intro i hi _
    rw [length_load] at hi
    by_cases hin : i < bytes.length
    · rw [List.getElem_append_left hin]
      simp [load, store, List.getD_eq_getElem?_getD, List.getElem?_eq_getElem hin]
    · have hbehind : bytes.length + (i - bytes.length) = i := by omega
      rw [List.getElem_append_right (not_lt.mp hin), List.getElem_drop]
      simp [load, store, List.getD_eq_getElem?_getD, List.getElem?_eq_none (not_lt.mp hin),
        hbehind]

/-! ### The call -/

/-- `INT_MAX`. -/
def intMax : ℕ := 2147483647

/-- The bytes that a format and its arguments produce; `vsnprintf` can return their number. -/
structure Formatted where
  bytes : List UInt8
  le : bytes.length ≤ intMax

/-- `vsnprintf` with a buffer of `size` bytes. -/
def vsnprintf (m : Stack) (size : ℕ) (f : Formatted) : Stack × ℤ :=
  (if size = 0 then m else m.store (f.bytes.take (size - 1) ++ [0]), f.bytes.length)

/-- `sizeof(buffer)`. -/
def printfBufferSize : ℕ := 256

/-- A call of `HAL_UART_Transmit` for the debug UART: the size and the bytes at its pointer. -/
structure UartTransmit where
  size : UInt16
  data : List UInt8
deriving DecidableEq, Repr

/-- `app_printf` from `vsnprintf` on: its call of `HAL_UART_Transmit`, if it makes one. -/
def appPrintfTransmit (m : Stack) (f : Formatted) : Option UartTransmit :=
  let (buffer, len) := vsnprintf m printfBufferSize f
  if len > 0 then
    let size := UInt16.ofInt len  -- the cast (uint16_t)len
    some ⟨size, buffer.load size.toNat⟩
  else none

/-- The bytes that `app_printf` passes to the HAL. -/
def passedBytes (m : Stack) (f : Formatted) : List UInt8 :=
  ((appPrintfTransmit m f).map UartTransmit.data).getD []

/-! ### What is passed -/

/-- The bytes of the message that are in the buffer. -/
def Formatted.stored (f : Formatted) : List UInt8 := f.bytes.take (min f.bytes.length 255)

variable (m : Stack) (f : Formatted)

theorem Formatted.length_stored : f.stored.length = min f.bytes.length 255 := by
  rw [stored, List.length_take]
  omega

/-- The buffer after `vsnprintf`. -/
theorem vsnprintf_buffer :
    (vsnprintf m printfBufferSize f).1 = m.store (f.stored ++ [0]) := by
  have htake : f.bytes.take 255 = f.stored := by
    rw [Formatted.stored, List.take_eq_take_iff]
    omega
  show m.store (f.bytes.take 255 ++ [0]) = _
  rw [htake]

/-- The cast keeps the low 16 bits of the length. -/
theorem toNat_cast (n : ℕ) : (UInt16.ofInt n).toNat = n % 65536 := by
  have hlow : ((n : ℤ) % 2 ^ 16).toNat = n % 65536 := by omega
  rw [UInt16.ofInt, hlow, UInt16.toNat_ofNat', Nat.mod_mod]

/-- As many bytes are passed as the low 16 bits of the length say, from the buffer on. -/
theorem passedBytes_eq :
    passedBytes m f = (m.store (f.stored ++ [0])).load (f.bytes.length % 65536) := by
  by_cases hlen : (f.bytes.length : ℤ) > 0
  · have hcall : appPrintfTransmit m f = some ⟨UInt16.ofInt f.bytes.length,
        (vsnprintf m printfBufferSize f).1.load (UInt16.ofInt f.bytes.length).toNat⟩ := if_pos hlen
    rw [passedBytes, hcall, vsnprintf_buffer, toNat_cast]
    rfl
  · have hcall : appPrintfTransmit m f = none := if_neg hlen
    have hzero : f.bytes.length = 0 := by omega
    rw [passedBytes, hcall, hzero]
    rfl

theorem length_passedBytes : (passedBytes m f).length = f.bytes.length % 65536 := by
  rw [passedBytes_eq, Stack.length_load]

/-- A message that is too long is passed on with its terminator and the stack behind the buffer. -/
theorem passes_stack (h : 256 ≤ f.bytes.length % 65536) : passedBytes m f =
    f.bytes.take 255 ++ 0 :: (m.load (f.bytes.length % 65536)).drop 256 := by
  have hmin : min f.bytes.length 255 = 255 := by omega
  have hlength : (f.stored ++ [0]).length = 256 := by
    rw [List.length_append, f.length_stored, hmin]
    rfl
  rw [passedBytes_eq, Stack.load_store_of_le _ (by omega), hlength, Formatted.stored, hmin,
    List.append_assoc]
  rfl

/-- Or it is cut short by the cast. -/
theorem passes_less (h : f.bytes.length % 65536 ≤ min f.bytes.length 255) :
    passedBytes m f = f.bytes.take (f.bytes.length % 65536) := by
  have hlength := f.length_stored
  rw [passedBytes_eq, Stack.load_store _ (by simp; omega), List.take_append_of_le_length (by omega),
    Formatted.stored, List.take_take, Nat.min_eq_left h]

/-- **The bytes passed are the stored ones of the message if and only if the message fits or its
length has the low bits of a full buffer.** -/
theorem transmits_exactly_iff :
    passedBytes m f = f.bytes.take (min f.bytes.length 255) ↔
      f.bytes.length ≤ 255 ∨ f.bytes.length % 65536 = 255 := by
  have hstored : f.bytes.take (min f.bytes.length 255) = f.stored := rfl
  have hlength := f.length_stored
  rw [hstored]
  constructor
  · intro h
    have hpassed := congrArg List.length h
    rw [length_passedBytes, hlength] at hpassed
    omega
  · intro h
    have hcount : f.bytes.length % 65536 = f.stored.length := by omega
    rw [passedBytes_eq, hcount, Stack.load_store _ (by simp), List.take_left]

/-- A line of so many letters, and a stack with other bytes on it. -/
def longLine (n : ℕ) (h : n ≤ intMax) : Formatted :=
  ⟨List.replicate n 65, by rwa [List.length_replicate]⟩

def usedStack : Stack := fun _ => 170

theorem length_longLine {n : ℕ} (h : n ≤ intMax) : (longLine n h).bytes.length = n :=
  List.length_replicate

theorem load_usedStack (n : ℕ) : usedStack.load n = List.replicate n 170 := by
  have hconst : (List.range n).map (fun _ => (170 : UInt8)) = _ := List.map_const'
  rw [List.length_range] at hconst
  exact hconst

/-- A line of 300 bytes takes its terminator and 44 bytes of the stack along, and a line of 65536
bytes is lost. -/
theorem long_lines_fail :
    passedBytes usedStack (longLine 300 (by decide)) =
        List.replicate 255 65 ++ 0 :: List.replicate 44 170 ∧
      passedBytes usedStack (longLine 300 (by decide)) ≠
        (longLine 300 (by decide)).bytes.take (min 300 255) ∧
      passedBytes usedStack (longLine 65536 (by decide)) = [] ∧
      passedBytes usedStack (longLine 65536 (by decide)) ≠
        (longLine 65536 (by decide)).bytes.take (min 65536 255) := by
  have hlost : passedBytes usedStack (longLine 65536 (by decide)) = [] := by
    rw [passes_less _ _ (by rw [length_longLine]; decide), length_longLine]
    rfl
  refine ⟨?_, ?_, hlost, ?_⟩
  · rw [passes_stack _ _ (by rw [length_longLine]; decide), length_longLine, load_usedStack,
      List.drop_replicate, longLine, List.take_replicate]
    rfl
  · intro h
    have hlength := congrArg List.length h
    rw [length_passedBytes, List.length_take, length_longLine] at hlength
    exact absurd hlength (by decide)
  · intro h
    have hlength := congrArg List.length h
    rw [length_passedBytes, List.length_take, length_longLine] at hlength
    exact absurd hlength (by decide)

end PeripheralTester.Firmware
