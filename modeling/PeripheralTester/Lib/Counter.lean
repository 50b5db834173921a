import Mathlib.Tactic

/-! # Counters that wrap

A reading of a free-running 32-bit counter is a true count modulo 2³².  The difference of two
readings is taken in 32 bits too, and so it does not matter whether the counter has wrapped between
them: as long as fewer than 2³² counts have passed, it is their number. -/

namespace PeripheralTester.Lib

/-- A reading in a later turn of the counter. -/
theorem ofNat_turns (start : UInt32) (turns elapsed : ℕ) :
    UInt32.ofNat (turns * 2 ^ 32 + start.toNat + elapsed) = start + UInt32.ofNat elapsed := by
  rw [← UInt32.toNat_inj, UInt32.toNat_add, UInt32.toNat_ofNat', UInt32.toNat_ofNat']
  omega

/-- The difference of a reading and the one it was counted from. -/
theorem toNat_add_sub (start : UInt32) {elapsed : ℕ} (h : elapsed < 2 ^ 32) :
    (start + UInt32.ofNat elapsed - start).toNat = elapsed := by
  rw [UInt32.add_comm, UInt32.add_sub_cancel, UInt32.toNat_ofNat_of_lt' h]

/-- The difference of the readings of two counts. -/
theorem toNat_ofNat_sub {start now : ℕ} (hle : start ≤ now) (h : now - start < 2 ^ 32) :
    (UInt32.ofNat now - UInt32.ofNat start).toNat = now - start := by
  obtain ⟨elapsed, rfl⟩ := Nat.exists_eq_add_of_le hle
  rw [Nat.add_sub_cancel_left] at h ⊢
  rw [UInt32.ofNat_add, toNat_add_sub _ h]

end PeripheralTester.Lib
