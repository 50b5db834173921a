import Mathlib.Tactic

/-! # Free space in the order of its addresses

An interval of addresses is cut into extents, which are free or used.  The free ones are kept in the
order of their addresses, and no two of them touch: an extent that is released is merged with its
neighbours (`release`).

`Tiled` is the invariant.  It makes every free extent a maximal gap between the used ones, so a
request fails only if it fits nowhere (`Tiled.fits_iff`). -/

namespace PeripheralTester.Lib

structure Extent where
  addr : ℕ
  size : ℕ
deriving DecidableEq, Repr

namespace Extent

/-- The address behind the last one. -/
def stop (x : Extent) : ℕ := x.addr + x.size

def cells (x : Extent) : Set ℕ := Set.Ico x.addr x.stop

def Apart (x y : Extent) : Prop := x.stop ≤ y.addr ∨ y.stop ≤ x.addr

theorem Apart.symm {x y : Extent} (h : x.Apart y) : y.Apart x := Or.symm h

end Extent

variable {x y z : Extent} {free used : List Extent} {a n lo hi g : ℕ}

/-- In the order of the addresses, with a gap between any two. -/
def Separated (free : List Extent) : Prop := free.Pairwise fun x y => x.stop < y.addr

def cover (free : List Extent) : Set ℕ := {a | ∃ x ∈ free, a ∈ x.cells}

def total (free : List Extent) : ℕ := (free.map Extent.size).sum

@[simp] theorem cover_nil : cover [] = ∅ := by
  simp [cover]

@[simp] theorem cover_cons : cover (x :: free) = x.cells ∪ cover free := by
  ext a
  simp [cover]

theorem cover_append {free' : List Extent} : cover (free ++ free') = cover free ∪ cover free' := by
  ext a
  simp [cover, or_and_right, exists_or]

@[simp] theorem total_nil : total [] = 0 := rfl

@[simp] theorem total_cons : total (x :: free) = x.size + total free := by
  simp [total]

theorem addr_mem_cover (hx : x ∈ free) (hpos : 0 < x.size) : x.addr ∈ cover free :=
  ⟨x, hx, le_rfl, Nat.lt_add_of_pos_right hpos⟩

theorem Extent.cells_split (h : x.stop = y.addr) :
    (⟨x.addr, x.size + y.size⟩ : Extent).cells = x.cells ∪ y.cells := by
  ext a
  simp only [cells, stop, Set.mem_union, Set.mem_Ico] at h ⊢
  omega

/-! ### Releasing -/

/-- `x` is merged with the extent behind it. -/
def absorb (x : Extent) : List Extent → List Extent
  | [] => [x]
  | y :: free => if x.stop = y.addr then ⟨x.addr, x.size + y.size⟩ :: free else x :: y :: free

/-- `x` becomes free. -/
def release (x : Extent) : List Extent → List Extent
  | [] => [x]
  | y :: free =>
      if y.addr < x.addr then
        if y.stop = x.addr then absorb ⟨y.addr, y.size + x.size⟩ free else y :: release x free
      else absorb x (y :: free)

theorem cover_absorb : cover (absorb x free) = x.cells ∪ cover free := by
  cases free with
  | nil => simp [absorb]
  | cons y free =>
      rw [absorb]
      split
      · rename_i h
        rw [cover_cons, cover_cons, Extent.cells_split h, Set.union_assoc]
      · rw [cover_cons]

theorem total_absorb : total (absorb x free) = x.size + total free := by
  cases free with
  | nil => simp [absorb]
  | cons y free =>
      rw [absorb]
      split
      · simp only [total_cons]
        omega
      · rw [total_cons]

theorem forall_absorb {P : Extent → Prop}
    (hmerge : ∀ y z, P y → P z → y.stop = z.addr → P ⟨y.addr, y.size + z.size⟩) (hx : P x)
    (hfree : ∀ y ∈ free, P y) : ∀ z ∈ absorb x free, P z := by
  cases free with
  | nil => simpa [absorb] using hx
  | cons y free =>
      obtain ⟨hy, hfree⟩ := List.forall_mem_cons.mp hfree
      rw [absorb]
      split
      · rename_i heq
        exact List.forall_mem_cons.mpr ⟨hmerge x y hx hy heq, hfree⟩
      · exact List.forall_mem_cons.mpr ⟨hx, List.forall_mem_cons.mpr ⟨hy, hfree⟩⟩

theorem separated_absorb (h : Separated free) (hx : ∀ y ∈ free, x.stop ≤ y.addr) :
    Separated (absorb x free) := by
  cases free with
  | nil => simp [absorb, Separated]
  | cons y free =>
      obtain ⟨hy, hfree⟩ := List.pairwise_cons.mp h
      have hxy := hx y List.mem_cons_self
      rw [absorb]
      split
      · rename_i heq
        refine List.pairwise_cons.mpr ⟨fun z hz => ?_, hfree⟩
        have hyz := hy z hz
        simp only [Extent.stop] at heq hyz ⊢
        omega
      · rename_i hne
        refine List.pairwise_cons.mpr ⟨fun z hz => ?_, h⟩
        rcases List.mem_cons.mp hz with rfl | hz
        · omega
        · have hyz := hy z hz
          have hstop : y.addr ≤ y.stop := Nat.le_add_right _ _
          omega

theorem cover_release : cover (release x free) = x.cells ∪ cover free := by
  induction free with
  | nil => simp [release]
  | cons y free ih =>
      rw [release]
      split
      · split
        · rename_i heq
          rw [cover_absorb, Extent.cells_split heq, cover_cons, Set.union_comm y.cells,
            Set.union_assoc]
        · rw [cover_cons, cover_cons, ih, Set.union_left_comm]
      · rw [cover_absorb]

theorem total_release : total (release x free) = x.size + total free := by
  induction free with
  | nil => simp [release]
  | cons y free ih =>
      rw [release]
      split
      · split
        · simp only [total_absorb, total_cons]
          omega
        · simp only [total_cons, ih]
          omega
      · rw [total_absorb]

/-- What holds of `x` and of every free extent, and of a merged one if of its parts. -/
theorem forall_release {P : Extent → Prop}
    (hmerge : ∀ y z, P y → P z → y.stop = z.addr → P ⟨y.addr, y.size + z.size⟩) (hx : P x)
    (hfree : ∀ y ∈ free, P y) : ∀ z ∈ release x free, P z := by
  induction free with
  | nil => simpa [release] using hx
  | cons y free ih =>
      obtain ⟨hy, hfree⟩ := List.forall_mem_cons.mp hfree
      rw [release]
      split
      · split
        · rename_i heq
          exact forall_absorb hmerge (hmerge y x hy hx heq) hfree
        · exact List.forall_mem_cons.mpr ⟨hy, ih hfree⟩
      · exact forall_absorb hmerge hx (List.forall_mem_cons.mpr ⟨hy, hfree⟩)

theorem mem_release (h : z ∈ release x free) : z.addr = x.addr ∨ ∃ y ∈ free, z.addr = y.addr := by
  refine forall_release (P := fun z => z.addr = x.addr ∨ ∃ y ∈ free, z.addr = y.addr)
    (fun _ _ hy _ _ => hy) (.inl rfl) (fun y hy => .inr ⟨y, hy, rfl⟩) z h

theorem separated_release (h : Separated free) (hx : ∀ y ∈ free, y.Apart x) (hpos : 0 < x.size)
    (hfreePos : ∀ y ∈ free, 0 < y.size) : Separated (release x free) := by
  induction free with
  | nil => simp [release, Separated]
  | cons y free ih =>
      obtain ⟨hy, hfree⟩ := List.pairwise_cons.mp h
      have hxy := hx y List.mem_cons_self
      rw [release]
      split
      · rename_i hlt
        split
        · rename_i heq
          refine separated_absorb hfree fun z hz => ?_
          have hyz := hy z hz
          have hxz := hx z (List.mem_cons_of_mem _ hz)
          simp only [Extent.Apart, Extent.stop] at heq hxz hyz ⊢
          omega
        · rename_i hne
          refine List.pairwise_cons.mpr
            ⟨fun z hz => ?_, ih hfree (fun w hw => hx w (List.mem_cons_of_mem _ hw))
              fun w hw => hfreePos w (List.mem_cons_of_mem _ hw)⟩
          rcases mem_release hz with hz | ⟨w, hw, hz⟩
          · simp only [Extent.Apart, Extent.stop] at hne hxy ⊢
            omega
          · rw [hz]
            exact hy w hw
      · rename_i hle
        refine separated_absorb h fun z hz => ?_
        have hxz := hx z hz
        have hz0 := hfreePos z hz
        have hyz : y.addr ≤ z.addr := by
          rcases List.mem_cons.mp hz with rfl | hz
          · exact le_rfl
          · exact (Nat.le_add_right _ _).trans (hy z hz).le
        simp only [Extent.Apart, Extent.stop] at hxz ⊢
        omega

/-- Extents below `x` that do not touch it stay as they are. -/
theorem release_append {before : List Extent}
    (hbefore : ∀ y ∈ before, y.addr < x.addr ∧ y.stop ≠ x.addr) :
    release x (before ++ free) = before ++ release x free := by
  induction before with
  | nil => rfl
  | cons y before ih =>
      obtain ⟨⟨hlt, hne⟩, hbefore⟩ := List.forall_mem_cons.mp hbefore
      rw [List.cons_append, release, if_pos hlt, if_neg hne, ih hbefore, List.cons_append]

theorem release_touching (hlt : x.addr < y.addr) (heq : x.stop = y.addr) :
    release y (x :: free) = absorb ⟨x.addr, x.size + y.size⟩ free := by
  rw [release, if_pos hlt, if_pos heq]

/-- All extents are above `x`. -/
theorem release_above (hfree : ∀ y ∈ free, x.addr ≤ y.addr) : release x free = absorb x free := by
  cases free with
  | nil => rfl
  | cons y free => rw [release, if_neg (Nat.not_lt.mpr (hfree y List.mem_cons_self))]

/-! ### The invariant -/

/-- Free and used extents tile the addresses from `lo` to `hi`, in units of `g`. -/
structure Tiled (g lo hi : ℕ) (free used : List Extent) : Prop where
  separated : Separated free
  apart : used.Pairwise Extent.Apart
  disjoint : ∀ x ∈ free, ∀ y ∈ used, x.Apart y
  freePos : ∀ x ∈ free, 0 < x.size
  usedPos : ∀ x ∈ used, 0 < x.size
  freeUnits : ∀ x ∈ free, g ∣ x.addr ∧ g ∣ x.size
  usedUnits : ∀ x ∈ used, g ∣ x.addr ∧ g ∣ x.size
  cover : cover free ∪ cover used = Set.Ico lo hi
  total : total free + total used = hi - lo

namespace Tiled

theorem single (hlt : lo < hi) (hlo : g ∣ lo) (hhi : g ∣ hi) :
    Tiled g lo hi [⟨lo, hi - lo⟩] [] where
  separated := by simp [Separated]
  apart := List.Pairwise.nil
  disjoint := by simp
  freePos := by simpa using hlt
  usedPos := by simp
  freeUnits := by simpa using ⟨hlo, Nat.dvd_sub hhi hlo⟩
  usedUnits := by simp
  cover := by
    ext a
    simp [Extent.cells, Extent.stop]
    omega
  total := by simp

theorem perm {used' : List Extent} (h : Tiled g lo hi free used) (hp : used.Perm used') :
    Tiled g lo hi free used' where
  separated := h.separated
  apart := (hp.pairwise_iff fun h => h.symm).mp h.apart
  disjoint x hx y hy := h.disjoint x hx y (hp.mem_iff.mpr hy)
  freePos := h.freePos
  usedPos x hx := h.usedPos x (hp.mem_iff.mpr hx)
  freeUnits := h.freeUnits
  usedUnits x hx := h.usedUnits x (hp.mem_iff.mpr hx)
  cover := by
    rw [← h.cover]
    ext a
    simp [Lib.cover, hp.mem_iff]
  total := by
    rw [← h.total]
    simp [Lib.total, (hp.map Extent.size).sum_eq]

/-- A free extent is taken into use. -/
theorem take {before behind : List Extent} (h : Tiled g lo hi (before ++ x :: behind) used) :
    Tiled g lo hi (before ++ behind) (x :: used) := by
  have hmem : x ∈ before ++ x :: behind := by simp
  have hsub : (before ++ behind).Sublist (before ++ x :: behind) := by simp
  have hapart (y : Extent) (hy : y ∈ before ++ behind) : y.Apart x := by
    obtain ⟨-, hbehind, hbetween⟩ := List.pairwise_append.mp h.separated
    rcases List.mem_append.mp hy with hy | hy
    · exact .inl (hbetween y hy x List.mem_cons_self).le
    · exact .inr ((List.pairwise_cons.mp hbehind).1 y hy).le
  refine
    { separated := h.separated.sublist hsub
      apart := List.pairwise_cons.mpr ⟨h.disjoint x hmem, h.apart⟩
      disjoint := fun y hy z hz => ?_
      freePos := fun y hy => h.freePos y (hsub.subset hy)
      usedPos := List.forall_mem_cons.mpr ⟨h.freePos x hmem, h.usedPos⟩
      freeUnits := fun y hy => h.freeUnits y (hsub.subset hy)
      usedUnits := List.forall_mem_cons.mpr ⟨h.freeUnits x hmem, h.usedUnits⟩
      cover := ?_
      total := ?_ }
  · rcases List.mem_cons.mp hz with rfl | hz
    · exact hapart y hy
    · exact h.disjoint y (hsub.subset hy) z hz
  · rw [← h.cover, cover_append, cover_append, cover_cons, cover_cons]
    ext a
    simp only [Set.mem_union]
    tauto
  · have htotal := h.total
    simp only [Lib.total, List.map_append, List.map_cons, List.sum_append,
      List.sum_cons] at htotal ⊢
    omega

/-- An extent in use is cut in two. -/
theorem split (h : Tiled g lo hi free (x :: used)) (hpos : 0 < n) (hlt : n < x.size) (hn : g ∣ n) :
    Tiled g lo hi free (⟨x.addr, n⟩ :: ⟨x.addr + n, x.size - n⟩ :: used) := by
  obtain ⟨hxused, hused⟩ := List.pairwise_cons.mp h.apart
  obtain ⟨haddr, hsize⟩ := h.usedUnits x List.mem_cons_self
  have hparts (y : Extent) (hy : y.Apart x) :
      y.Apart ⟨x.addr, n⟩ ∧ y.Apart ⟨x.addr + n, x.size - n⟩ := by
    simp only [Extent.Apart, Extent.stop] at hy ⊢
    omega
  refine
    { separated := h.separated
      apart := ?_
      disjoint := fun y hy => ?_
      freePos := h.freePos
      usedPos := ?_
      freeUnits := h.freeUnits
      usedUnits := ?_
      cover := ?_
      total := ?_ }
  · refine List.pairwise_cons.mpr ⟨fun y hy => ?_, List.pairwise_cons.mpr ⟨fun y hy => ?_, hused⟩⟩
    · rcases List.mem_cons.mp hy with rfl | hy
      · exact .inl le_rfl
      · exact (hparts y (hxused y hy).symm).1.symm
    · exact (hparts y (hxused y hy).symm).2.symm
  · have hyx := hparts y (h.disjoint y hy x List.mem_cons_self)
    refine List.forall_mem_cons.mpr ⟨hyx.1, List.forall_mem_cons.mpr ⟨hyx.2, fun z hz => ?_⟩⟩
    exact h.disjoint y hy z (List.mem_cons_of_mem _ hz)
  · refine List.forall_mem_cons.mpr ⟨hpos, List.forall_mem_cons.mpr ⟨Nat.sub_pos_of_lt hlt, ?_⟩⟩
    exact fun z hz => h.usedPos z (List.mem_cons_of_mem _ hz)
  · refine List.forall_mem_cons.mpr ⟨⟨haddr, hn⟩, List.forall_mem_cons.mpr
      ⟨⟨Nat.dvd_add haddr hn, Nat.dvd_sub hsize hn⟩, fun z hz => ?_⟩⟩
    exact h.usedUnits z (List.mem_cons_of_mem _ hz)
  · have hcells : (⟨x.addr, n⟩ : Extent).cells ∪ (⟨x.addr + n, x.size - n⟩ : Extent).cells =
        x.cells := by
      rw [← Extent.cells_split rfl, Nat.add_sub_cancel' hlt.le]
    rw [← h.cover, cover_cons, cover_cons, cover_cons, ← Set.union_assoc _ _ (Lib.cover used),
      hcells]
  · have htotal := h.total
    simp only [total_cons] at htotal ⊢
    omega

/-- An extent in use is released. -/
theorem release (h : Tiled g lo hi free (x :: used)) : Tiled g lo hi (release x free) used := by
  obtain ⟨hxused, hused⟩ := List.pairwise_cons.mp h.apart
  have hpos := h.usedPos x List.mem_cons_self
  refine
    { separated := separated_release h.separated
        (fun y hy => h.disjoint y hy x List.mem_cons_self) hpos h.freePos
      apart := hused
      disjoint := fun y hy z hz => ?_
      freePos := forall_release (fun a b ha _ _ => Nat.add_pos_left ha _) hpos h.freePos
      usedPos := fun y hy => h.usedPos y (List.mem_cons_of_mem _ hy)
      freeUnits := forall_release
        (fun a b ha hb _ => ⟨ha.1, Nat.dvd_add ha.2 hb.2⟩) (h.usedUnits x List.mem_cons_self)
        h.freeUnits
      usedUnits := fun y hy => h.usedUnits y (List.mem_cons_of_mem _ hy)
      cover := ?_
      total := ?_ }
  · have hz0 := h.usedPos z (List.mem_cons_of_mem _ hz)
    refine forall_release (P := fun y => y.Apart z) (fun a b ha hb hab => ?_) (hxused z hz)
      (fun w hw => h.disjoint w hw z (List.mem_cons_of_mem _ hz)) y hy
    simp only [Extent.Apart, Extent.stop] at ha hb hab ⊢
    omega
  · rw [← h.cover, cover_release, cover_cons, Set.union_comm x.cells, Set.union_assoc]
  · have htotal := h.total
    rw [total_cons] at htotal
    rw [total_release]
    omega

theorem within_free (h : Tiled g lo hi free used) (hx : x ∈ free) : lo ≤ x.addr ∧ x.stop ≤ hi := by
  have hpos := h.freePos x hx
  have hfirst : x.addr ∈ Set.Ico lo hi := by
    rw [← h.cover]
    exact .inl ⟨x, hx, by simp [Extent.cells, Extent.stop, hpos]⟩
  have hlast : x.addr + (x.size - 1) ∈ Set.Ico lo hi := by
    rw [← h.cover]
    refine .inl ⟨x, hx, ?_⟩
    simp only [Extent.cells, Extent.stop, Set.mem_Ico]
    omega
  simp only [Extent.stop, Set.mem_Ico] at hfirst hlast ⊢
  omega

theorem addr_lt (h : Tiled g lo hi free used) (hx : x ∈ free) : x.addr < hi :=
  (Nat.lt_add_of_pos_right (h.freePos x hx)).trans_le (h.within_free hx).2

theorem stop_not_mem (h : Tiled g lo hi free used) : hi ∉ Lib.cover free := by
  rintro ⟨x, hx, -, hlt⟩
  exact absurd (h.within_free hx).2 (Nat.not_le.mpr hlt)

/-- What is used is not free. -/
theorem not_mem_cover (h : Tiled g lo hi free used) (hx : x ∈ used) (ha : a ∈ x.cells) :
    a ∉ Lib.cover free := by
  rintro ⟨y, hy, hay⟩
  have hyx := h.disjoint y hy x hx
  simp only [Extent.Apart, Extent.cells, Set.mem_Ico] at hyx ha hay
  omega

theorem addr_not_mem_cover (h : Tiled g lo hi free used) (hx : x ∈ used) :
    x.addr ∉ Lib.cover free :=
  h.not_mem_cover hx ⟨le_rfl, Nat.lt_add_of_pos_right (h.usedPos x hx)⟩

theorem addr_ne (h : Tiled g lo hi free used) (hx : x ∈ used) (hy : y ∈ free) :
    x.addr ≠ y.addr := by
  intro heq
  refine h.addr_not_mem_cover hx ?_
  rw [heq]
  exact addr_mem_cover hy (h.freePos y hy)

theorem within_used (h : Tiled g lo hi free used) (hx : x ∈ used) : lo ≤ x.addr ∧ x.stop ≤ hi := by
  have hpos := h.usedPos x hx
  have hfirst : x.addr ∈ Set.Ico lo hi := by
    rw [← h.cover]
    exact .inr ⟨x, hx, by simp [Extent.cells, Extent.stop, hpos]⟩
  have hlast : x.addr + (x.size - 1) ∈ Set.Ico lo hi := by
    rw [← h.cover]
    refine .inr ⟨x, hx, ?_⟩
    simp only [Extent.cells, Extent.stop, Set.mem_Ico]
    omega
  simp only [Extent.stop, Set.mem_Ico] at hfirst hlast ⊢
  omega

end Tiled

theorem Separated.apart (h : Separated free) (hx : x ∈ free) (hy : y ∈ free) (hne : x ≠ y) :
    x.stop < y.addr ∨ y.stop < x.addr := by
  have hapart : free.Pairwise fun x y => x.stop < y.addr ∨ y.stop < x.addr := h.imp Or.inl
  have hsymm : Std.Symm fun x y : Extent => x.stop < y.addr ∨ y.stop < x.addr :=
    ⟨fun _ _ => Or.symm⟩
  exact hapart.forall hx hy hne

/-- The extents below `x`, and those above it. -/
theorem Separated.exists_split (h : Separated free) (hx : ∀ y ∈ free, y.Apart x) (hpos : 0 < x.size)
    (hfreePos : ∀ y ∈ free, 0 < y.size) :
    ∃ before behind, free = before ++ behind ∧ (∀ y ∈ before, y.addr < x.addr) ∧
      ∀ y ∈ behind, x.addr < y.addr := by
  induction free with
  | nil => exact ⟨[], [], rfl, by simp, by simp⟩
  | cons y free ih =>
      obtain ⟨hy, hfree⟩ := List.pairwise_cons.mp h
      obtain ⟨hxy, hx⟩ := List.forall_mem_cons.mp hx
      obtain ⟨hy0, hfreePos⟩ := List.forall_mem_cons.mp hfreePos
      by_cases hlt : y.addr < x.addr
      · obtain ⟨before, behind, rfl, hbefore, hbehind⟩ := ih hfree hx hfreePos
        exact ⟨y :: before, behind, rfl, List.forall_mem_cons.mpr ⟨hlt, hbefore⟩, hbehind⟩
      · refine ⟨[], y :: free, rfl, by simp, fun z hz => ?_⟩
        have hyz : y.addr ≤ z.addr := by
          rcases List.mem_cons.mp hz with rfl | hz
          · exact le_rfl
          · exact (Nat.le_add_right _ _).trans (hy z hz).le
        simp only [Extent.Apart, Extent.stop] at hxy
        omega

/-- Consecutive free addresses are in one free extent. -/
theorem Separated.exists_mem (h : Separated free) (hn : 0 < n)
    (ha : Set.Ico a (a + n) ⊆ cover free) : ∃ x ∈ free, x.addr ≤ a ∧ a + n ≤ x.stop := by
  obtain ⟨x, hx, hax⟩ := ha ⟨le_rfl, by omega⟩
  refine ⟨x, hx, hax.1, not_lt.mp fun hlt => ?_⟩
  -- the extent with the address behind `x` would touch it
  obtain ⟨y, hy, hyle, hylt⟩ := ha ⟨hax.2.le, hlt⟩
  have hne : x ≠ y := by
    rintro rfl
    exact lt_irrefl _ hylt
  have hxstop : x.addr ≤ x.stop := Nat.le_add_right _ _
  rcases h.apart hx hy hne with hxy | hxy <;> omega

namespace Tiled

/-- Room for `n` addresses in one free extent is room anywhere. -/
theorem fits_iff (h : Tiled g lo hi free used) (hn : 0 < n) :
    (∃ x ∈ free, n ≤ x.size) ↔
      ∃ a, lo ≤ a ∧ a + n ≤ hi ∧ ∀ y ∈ used, (⟨a, n⟩ : Extent).Apart y := by
  constructor
  · rintro ⟨x, hx, hle⟩
    obtain ⟨hlo, hhi⟩ := h.within_free hx
    refine ⟨x.addr, hlo, ?_, fun y hy => ?_⟩
    · simp only [Extent.stop] at hhi
      omega
    · have hxy := h.disjoint x hx y hy
      simp only [Extent.Apart, Extent.stop] at hxy ⊢
      omega
  · rintro ⟨a, hlo, hhi, hused⟩
    have hfree : Set.Ico a (a + n) ⊆ Lib.cover free := by
      intro b hb
      have hmem : b ∈ Lib.cover free ∪ Lib.cover used := by
        rw [h.cover]
        exact ⟨hlo.trans hb.1, hb.2.trans_le hhi⟩
      refine hmem.resolve_right ?_
      rintro ⟨y, hy, hby⟩
      have hay := hused y hy
      simp only [Extent.Apart, Extent.cells, Extent.stop, Set.mem_Ico] at hay hb hby
      omega
    obtain ⟨x, hx, hxa, hax⟩ := h.separated.exists_mem hn hfree
    refine ⟨x, hx, ?_⟩
    simp only [Extent.stop] at hax
    omega

theorem length_le_total (h : Tiled g lo hi free used) : free.length ≤ Lib.total free := by
  have hpos := h.freePos
  clear h
  induction free with
  | nil => simp
  | cons x free ih =>
      obtain ⟨hx, hfree⟩ := List.forall_mem_cons.mp hpos
      have hih := ih hfree
      rw [List.length_cons, total_cons]
      omega

end Tiled

end PeripheralTester.Lib
