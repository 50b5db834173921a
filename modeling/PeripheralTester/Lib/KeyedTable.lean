import Mathlib.Tactic

/-! # Tables with a key

A table is the list of its rows in insertion order.  A row has a key, and the constraint `Keyed`
lets at most one row have a given key.  Under the constraint a table is a partial map from keys
to rows (`lookup`), on which appending a row with a new key and modifying the rows of a key are
pointwise updates (`lookup_append`, `lookup_modify`).

`Continues R rows rows'` compares a table with a later one: no row is gone, and what stands in
the place of a row is related to it by `R`. -/

namespace PeripheralTester.Lib

variable {α κ : Type*} {key : α → κ} {rows rows₁ rows₂ : List α} {x : α} {k : κ}

/-- At most one row has a given key. -/
def Keyed (key : α → κ) (rows : List α) : Prop := (rows.map key).Nodup

theorem keyed_nil : Keyed key [] := List.nodup_nil

theorem Keyed.append (h : Keyed key rows) (hx : ∀ y ∈ rows, key y ≠ key x) :
    Keyed key (rows ++ [x]) := by
  unfold Keyed at h ⊢
  rw [List.map_append, List.map_singleton]
  refine h.append (List.nodup_singleton _) ?_
  intro k hk hk'
  obtain ⟨y, hy, rfl⟩ := List.mem_map.mp hk
  exact hx y hy (List.mem_singleton.mp hk')

/-- Under the constraint a key determines its row. -/
theorem Keyed.eq_of_key_eq (h : Keyed key rows) {y : α} (hx : x ∈ rows) (hy : y ∈ rows)
    (he : key x = key y) : x = y :=
  List.inj_on_of_nodup_map h hx hy he

variable [DecidableEq κ]

/-- The row of a key. -/
def lookup (key : α → κ) (rows : List α) (k : κ) : Option α := rows.find? (key · = k)

/-- The table with `f` applied to the rows of the key `k`. -/
def modify (key : α → κ) (k : κ) (f : α → α) (rows : List α) : List α :=
  rows.map fun x => if key x = k then f x else x

theorem lookup_eq_none : lookup key rows k = none ↔ ∀ y ∈ rows, key y ≠ k := by
  simp [lookup]

/-- Appending a row with a new key adds its binding and no other. -/
theorem lookup_append (hx : ∀ y ∈ rows, key y ≠ key x) :
    lookup key (rows ++ [x]) = Function.update (lookup key rows) (key x) (some x) := by
  funext k
  by_cases hk : k = key x
  · subst hk
    rw [Function.update_self, lookup, List.find?_append]
    have hnone : rows.find? (key · = key x) = none := lookup_eq_none.mpr hx
    simp [hnone]
  · rw [Function.update_of_ne hk, lookup, List.find?_append]
    have hnone : [x].find? (key · = k) = none := by simpa using Ne.symm hk
    simp [lookup, hnone]

section Modify

variable {f : α → α}

theorem map_key_modify (hf : ∀ x, key x = k → key (f x) = k) :
    (modify key k f rows).map key = rows.map key := by
  unfold modify
  rw [List.map_map]
  refine List.map_congr_left fun x _ => ?_
  by_cases hx : key x = k
  · simp [hx, hf x hx]
  · simp [hx]

theorem Keyed.modify (h : Keyed key rows) (hf : ∀ x, key x = k → key (f x) = k) :
    Keyed key (modify key k f rows) := by
  unfold Keyed
  rw [map_key_modify hf]
  exact h

/-- Modifying the rows of a key changes the binding of that key and no other. -/
theorem lookup_modify (hf : ∀ x, key x = k → key (f x) = k) :
    lookup key (modify key k f rows) =
      Function.update (lookup key rows) k ((lookup key rows k).map f) := by
  funext k'
  induction rows with
  | nil => by_cases hk : k' = k <;> simp [lookup, Lib.modify, hk]
  | cons x rows ih =>
      by_cases hx : key x = k
      · have hfx := hf x hx
        by_cases hk : k' = k
        · subst hk
          simp [lookup, Lib.modify, hx, hfx]
        · have hne : ¬k = k' := Ne.symm hk
          simpa [lookup, Lib.modify, hx, hfx, hk, hne] using ih
      · by_cases hk : k' = k
        · subst hk
          simpa [lookup, Lib.modify, hx] using ih
        · by_cases hxk : key x = k'
          · simp [lookup, Lib.modify, hk, hxk]
          · simpa [lookup, Lib.modify, hx, hk, hxk] using ih

/-- Modifications of different keys commute. -/
theorem modify_comm {g : α → α} {k' : κ} (hne : k ≠ k') (hf : ∀ x, key x = k → key (f x) = k)
    (hg : ∀ x, key x = k' → key (g x) = k') :
    modify key k f (modify key k' g rows) = modify key k' g (modify key k f rows) := by
  unfold modify
  rw [List.map_map, List.map_map]
  refine List.map_congr_left fun x _ => ?_
  simp only [Function.comp_apply]
  by_cases hx : key x = k
  · have hx' : key x ≠ k' := fun he => hne (hx.symm.trans he)
    have hfx : key (f x) ≠ k' := fun he => hne ((hf x hx).symm.trans he)
    rw [if_neg hx', if_pos hx, if_neg hfx]
  · by_cases hx' : key x = k'
    · have hgx : key (g x) ≠ k := fun he => hne (he.symm.trans (hg x hx'))
      rw [if_pos hx', if_neg hgx, if_neg hx, if_pos hx']
    · rw [if_neg hx', if_neg hx, if_neg hx']

end Modify

/-! ### Inserting under the constraint -/

section InsertNew

variable {y : α}

/-- The table with a row appended, if its key is not taken. -/
def insertNew (key : α → κ) (x : α) (rows : List α) : List α :=
  if key x ∈ rows.map key then rows else rows ++ [x]

theorem mem_map_insertNew (hne : k ≠ key x) :
    k ∈ (insertNew key x rows).map key ↔ k ∈ rows.map key := by
  unfold insertNew
  split_ifs
  · rfl
  · rw [List.map_append, List.map_singleton, List.mem_append, List.mem_singleton]
    exact or_iff_left hne

theorem Perm.insertNew (h : rows₁.Perm rows₂) :
    (insertNew key x rows₁).Perm (insertNew key x rows₂) := by
  have hkeys : key x ∈ rows₁.map key ↔ key x ∈ rows₂.map key := (h.map key).mem_iff
  simp only [Lib.insertNew, hkeys]
  split_ifs
  · exact h
  · exact h.append_right [x]

/-- Inserts of different keys commute, up to the order of the rows. -/
theorem insertNew_comm (hne : key x ≠ key y) :
    (insertNew key x (insertNew key y rows)).Perm (insertNew key y (insertNew key x rows)) := by
  have hx : key x ∈ (insertNew key y rows).map key ↔ key x ∈ rows.map key := mem_map_insertNew hne
  have hy : key y ∈ (insertNew key x rows).map key ↔ key y ∈ rows.map key :=
    mem_map_insertNew hne.symm
  rw [insertNew.eq_def key x, insertNew.eq_def key y (insertNew key x rows)]
  simp only [hx, hy]
  unfold insertNew
  split_ifs
  · exact .refl _
  · exact .refl _
  · exact .refl _
  · rw [List.append_assoc, List.append_assoc]
    exact (List.Perm.swap x y []).append_left rows

/-- An insert and a modification of another key commute. -/
theorem insertNew_modify {f : α → α} (hne : key x ≠ k) (hf : ∀ x, key x = k → key (f x) = k) :
    insertNew key x (modify key k f rows) = modify key k f (insertNew key x rows) := by
  unfold insertNew
  rw [map_key_modify hf]
  split_ifs
  · rfl
  · unfold modify
    rw [List.map_append, List.map_singleton, if_neg hne]

end InsertNew

/-! ### A table and a later one -/

omit [DecidableEq κ]

variable {R : α → α → Prop}

/-- Every row of the first table has a successor in its place, related to it by `R`; rows may
have been appended. -/
inductive Continues (R : α → α → Prop) : List α → List α → Prop
  | nil (rows : List α) : Continues R [] rows
  | cons {x y : α} {rows rows₁ : List α} :
      R x y → Continues R rows rows₁ → Continues R (x :: rows) (y :: rows₁)

theorem Continues.refl (hR : ∀ x, R x x) (rows : List α) : Continues R rows rows := by
  induction rows with
  | nil => exact .nil _
  | cons x rows ih => exact .cons (hR x) ih

theorem Continues.trans (hR : ∀ x y z, R x y → R y z → R x z) (h₁ : Continues R rows rows₁)
    (h₂ : Continues R rows₁ rows₂) : Continues R rows rows₂ := by
  induction h₁ generalizing rows₂ with
  | nil => exact .nil _
  | cons hxy _ ih =>
      cases h₂ with
      | cons hyz h₂ => exact .cons (hR _ _ _ hxy hyz) (ih h₂)

theorem Continues.append (hR : ∀ x, R x x) (rows new : List α) :
    Continues R rows (rows ++ new) := by
  induction rows with
  | nil => exact .nil _
  | cons x rows ih => exact .cons (hR x) ih

theorem Continues.map {f : α → α} (hf : ∀ x, R x (f x)) (rows : List α) :
    Continues R rows (rows.map f) := by
  induction rows with
  | nil => exact .nil _
  | cons x rows ih => exact .cons (hf x) ih

/-- No row is gone. -/
theorem Continues.exists_mem (h : Continues R rows rows₁) (hx : x ∈ rows) :
    ∃ y ∈ rows₁, R x y := by
  induction h with
  | nil => cases hx
  | cons hxy _ ih =>
      cases hx with
      | head => exact ⟨_, List.mem_cons_self, hxy⟩
      | tail _ hx =>
          obtain ⟨y, hy, hR⟩ := ih hx
          exact ⟨y, List.mem_cons_of_mem _ hy, hR⟩

end PeripheralTester.Lib
