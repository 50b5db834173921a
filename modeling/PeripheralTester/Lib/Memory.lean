import Mathlib.Tactic

/-! # Bytes in memory

A memory has a byte at every address.  A store changes the bytes it stores and no others
(`store_of_not_mem`, `load_store_of_disjoint`), and what it stored is loaded again (`load_store`).

An array is a row of cells of one size.  Different cells do not overlap (`cell_disjoint`), so a
store to a cell changes that cell only (`load_store_cell`).  Nothing here needs the cells to have
any bytes. -/

namespace PeripheralTester.Lib

/-- Bytes by their addresses. -/
abbrev Memory := ℤ → UInt8

namespace Memory

def load (m : Memory) (a : ℤ) (n : ℕ) : List UInt8 := (List.range n).map fun i : ℕ => m (a + i)

def store (m : Memory) (a : ℤ) (bytes : List UInt8) : Memory := fun x =>
  if a ≤ x ∧ x < a + bytes.length then bytes.getD (x - a).toNat 0 else m x

variable {m : Memory} {a b : ℤ} {bytes : List UInt8} {n : ℕ}

@[simp] theorem length_load : (m.load a n).length = n := by simp [load]

theorem store_of_not_mem {x : ℤ} (h : x < a ∨ a + bytes.length ≤ x) : m.store a bytes x = m x :=
  if_neg (by omega)

theorem store_add {i : ℕ} (h : i < bytes.length) : m.store a bytes (a + i) = bytes[i] := by
  have hin : a ≤ a + (i : ℤ) ∧ a + (i : ℤ) < a + bytes.length := by omega
  have hoffset : (a + (i : ℤ) - a).toNat = i := by omega
  rw [store, if_pos hin, hoffset, List.getD_eq_getElem?_getD, List.getElem?_eq_getElem h,
    Option.getD_some]

/-- What was stored is loaded again. -/
theorem load_store (h : bytes.length = n) : (m.store a bytes).load a n = bytes := by
  apply List.ext_getElem
  · rw [length_load, h]
  · intro i hi hi'
    simp only [load, List.getElem_map, List.getElem_range, store_add hi']

/-- What lies apart is left alone. -/
theorem load_store_of_disjoint (h : b + n ≤ a ∨ a + bytes.length ≤ b) :
    (m.store a bytes).load b n = m.load b n := by
  apply List.map_congr_left
  intro i hi
  rw [List.mem_range] at hi
  exact store_of_not_mem (by omega)

/-! ### Cells -/

/-- The address of a cell. -/
def cell (base : ℤ) (size i : ℕ) : ℤ := base + (i * size : ℕ)

variable {base : ℤ} {size i j : ℕ}

@[simp] theorem cell_zero : cell base size 0 = base := by simp [cell]

theorem cell_succ : cell base size (i + 1) = cell base size i + size := by
  rw [cell, cell, Nat.succ_mul]
  push_cast
  ring

theorem cell_le (h : i ≤ j) : cell base size i ≤ cell base size j := by
  have hmul := Nat.mul_le_mul_right size h
  unfold cell
  omega

theorem cell_add_le (h : i < j) : cell base size i + size ≤ cell base size j := by
  rw [← cell_succ]
  exact cell_le h

theorem cell_lt (hsize : size ≠ 0) (h : i < j) : cell base size i < cell base size j := by
  have hnext : cell base size i + size ≤ cell base size j := cell_add_le h
  omega

theorem cell_disjoint (h : i ≠ j) :
    cell base size i + size ≤ cell base size j ∨ cell base size j + size ≤ cell base size i :=
  (Nat.lt_or_gt_of_ne h).imp cell_add_le cell_add_le

/-- A store to a cell changes that cell. -/
theorem load_store_cell (h : bytes.length = size) :
    (m.store (cell base size i) bytes).load (cell base size j) size =
      if i = j then bytes else m.load (cell base size j) size := by
  split
  · rename_i hij
    rw [hij, load_store h]
  · rename_i hij
    exact load_store_of_disjoint ((cell_disjoint hij).symm.imp id fun hle => by rwa [h])

end Memory

end PeripheralTester.Lib
