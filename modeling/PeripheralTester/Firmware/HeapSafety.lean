import PeripheralTester.Firmware.HeapSpace

/-! # What the users of the heap may rely on

In every history in which nobody frees or writes what is not theirs, the blocks of the heap stand
for the memory that is owned (`HeapUse.Holds`).  So what is allocated is aligned, lies in `ucHeap`
and is nobody else's, and no assertion fails (`heap_safe`); it reads what was last stored in it
until it is freed (`memory_kept`); and `NULL` is returned only to a request that fits nowhere
(`malloc_null_iff`). -/

namespace PeripheralTester.Firmware

open Lib HeapState

namespace HeapUse

variable {ucHeap a : ℕ} {s s' : HeapUse} {heap heap' : HeapState} {free : List Extent}
  {o : Allocation} {w : UInt32}

/-- The block that `o` lies in, as its header has it. -/
def block (heap : HeapState) (o : Allocation) : Extent :=
  ⟨o.pv - xHeapStructSize, (heap.link (o.pv - xHeapStructSize)).xBlockSize - 2 ^ 31⟩

/-- The heap is initialised, and its blocks are those that are owned. -/
structure Used (ucHeap : ℕ) (free : List Extent) (s : HeapUse) : Prop where
  represents : Represents ucHeap s.heap free (s.owned.map (block s.heap))
  room : ∀ o ∈ s.owned, o.xWantedSize + xHeapStructSize ≤ (block s.heap o).size ∧
    (block s.heap o).size ≤ blockSize o.xWantedSize + heapMinimumBlockSize

/-- The invariant of the runs. -/
inductive Holds (ucHeap : ℕ) (s : HeapUse) : Prop
  | fresh : 0 < ucHeap → s.heap.pxEnd = 0 → s.owned = [] → Holds ucHeap s
  | used (free : List Extent) : Used ucHeap free s → Holds ucHeap s

/-- A block of the application can be told from its header. -/
theorem block_eq {used : List Extent} {x : Extent} (h : Represents ucHeap heap free used)
    (hx : x ∈ used) (hpv : o.pv = x.addr + xHeapStructSize) : block heap o = x := by
  have hsize : x.size < 2 ^ 31 := (h.size_le (.inr hx)).trans (by decide)
  have hlink := h.allocated x hx
  unfold block
  rw [hpv, Nat.add_sub_cancel, hlink]
  dsimp only
  rw [(or_allocatedBit hsize).2]

namespace Used

theorem pv_eq (h : Used ucHeap free s) (ho : o ∈ s.owned) :
    o.pv = (block s.heap o).addr + xHeapStructSize := by
  have hstart := h.represents.start
  have hin := (h.represents.tiled.within_used (List.mem_map_of_mem ho)).1
  have hpos := h.represents.pos
  simp only [block, xHeapStructSize] at hin ⊢
  omega

/-- The blocks stay what they are if they are still the application's. -/
theorem blocks_eq (h : Used ucHeap free s) {owned : List Allocation}
    (hsub : ∀ o ∈ owned, o ∈ s.owned) {free' used : List Extent}
    (h' : Represents ucHeap heap' free' used) (hused : ∀ o ∈ owned, block s.heap o ∈ used) :
    owned.map (block heap') = owned.map (block s.heap) :=
  List.map_congr_left fun o ho => block_eq h' (hused o ho) (h.pv_eq (hsub o ho))

theorem of_represents (h : Used ucHeap free s) {owned : List Allocation} {free' : List Extent}
    (hsub : ∀ o ∈ owned, o ∈ s.owned)
    (h' : Represents ucHeap heap' free' (owned.map (block s.heap))) :
    Used ucHeap free' ⟨heap', owned⟩ := by
  have hblocks := h.blocks_eq hsub h' fun o ho => List.mem_map_of_mem ho
  refine ⟨?_, fun o ho => ?_⟩
  · dsimp only
    rw [hblocks]
    exact h'
  · have ho' : block heap' o = block s.heap o := List.map_inj_left.mp hblocks o ho
    dsimp only
    rw [ho']
    exact h.room o (hsub o ho)

/-- What is owned lies behind the header, and in the block. -/
theorem mem_cells (h : Used ucHeap free s) (ho : o ∈ s.owned) (hle : o.pv ≤ a)
    (hlt : a < o.pv + o.xWantedSize) :
    (block s.heap o).addr < a ∧ a < (block s.heap o).stop := by
  have hpv := h.pv_eq ho
  have hroom := (h.room o ho).1
  simp only [Extent.stop, xHeapStructSize] at hpv hroom ⊢
  omega

theorem malloc (h : Used ucHeap free s) (w : UInt32) :
    (∃ pv heap free', s.heap.pvPortMalloc ucHeap w = some (pv, heap) ∧ pv ≠ 0 ∧
        w ≠ 0 ∧ (∃ x ∈ free, blockSize w.toNat ≤ x.size) ∧
        Used ucHeap free' ⟨heap, ⟨pv, w.toNat⟩ :: s.owned⟩ ∧
        ∀ a, a ∉ cover free → heap.link a = s.heap.link a) ∨
      s.heap.pvPortMalloc ucHeap w = some (0, s.heap) ∧
        (w = 0 ∨ ∀ x ∈ free, x.size < blockSize w.toNat) := by
  rcases h.represents.malloc w with
    ⟨heap, free', y, hmalloc, hw, hfit, hwy, hyw, hnext, hkeep⟩ | hnull
  · left
    have hy : block heap ⟨y.addr + xHeapStructSize, w.toNat⟩ = y :=
      block_eq hnext List.mem_cons_self rfl
    have hblocks : s.owned.map (block heap) = s.owned.map (block s.heap) :=
      h.blocks_eq (fun _ ho => ho) hnext fun o ho => List.mem_cons_of_mem _ (List.mem_map_of_mem ho)
    refine ⟨_, heap, free', hmalloc, by simp [xHeapStructSize], hw, hfit, ⟨?_, ?_⟩, hkeep⟩
    · rw [List.map_cons, hblocks, hy]
      exact hnext
    · refine List.forall_mem_cons.mpr ⟨?_, fun o ho => ?_⟩
      · dsimp only
        rw [hy]
        exact ⟨(le_blockSize _).trans hwy, hyw⟩
      · have ho' : block heap o = block s.heap o := List.map_inj_left.mp hblocks o ho
        dsimp only
        rw [ho']
        exact h.room o ho
  · exact .inr hnull

theorem freed (h : Used ucHeap free s) (ho : o ∈ s.owned) :
    ∃ heap free', s.heap.vPortFree o.pv = some heap ∧
      Used ucHeap free' ⟨heap, s.owned.eraseP fun o' => o'.pv = o.pv⟩ ∧
      ∀ o' ∈ s.owned.eraseP fun o' => o'.pv = o.pv, ∀ a, o'.pv ≤ a → a < o'.pv + o'.xWantedSize →
        heap.link a = s.heap.link a := by
  obtain ⟨o₁, before, behind, -, hpv, howned, herase⟩ :=
    List.exists_of_eraseP ho (p := fun o' => o'.pv = o.pv) (by simp)
  have hpv' : o₁.pv = o.pv := by simpa using hpv
  rw [herase, ← hpv']
  have hperm : s.owned.Perm (o₁ :: (before ++ behind)) := by
    rw [howned]
    exact List.perm_middle
  have hmem₁ : o₁ ∈ s.owned := hperm.mem_iff.mpr List.mem_cons_self
  have hmem (o' : Allocation) (ho' : o' ∈ before ++ behind) : o' ∈ s.owned :=
    hperm.mem_iff.mpr (List.mem_cons_of_mem _ ho')
  have hrep := h.represents.perm (hperm.map (block s.heap))
  rw [List.map_cons] at hrep
  obtain ⟨heap, hfree, hnext, hkeep⟩ := hrep.freed
  rw [← h.pv_eq hmem₁] at hfree
  refine ⟨heap, release (block s.heap o₁) free, hfree, h.of_represents hmem hnext,
    fun o' ho' a hle hlt => hkeep a ?_⟩
  obtain ⟨haddr, hstop⟩ := h.mem_cells (hmem o' ho') hle hlt
  have hapart := (List.pairwise_cons.mp hrep.tiled.apart).1 _ (List.mem_map_of_mem ho')
  rw [cover_cons]
  rintro (ha | ha)
  · simp only [Extent.Apart, Extent.cells, Set.mem_Ico] at hapart ha
    omega
  · exact h.represents.tiled.not_mem_cover (List.mem_map_of_mem (hmem o' ho'))
      ⟨haddr.le, hstop⟩ ha

theorem stored (h : Used ucHeap free s) (ho : o ∈ s.owned) (hle : o.pv ≤ a)
    (hlt : a < o.pv + o.xWantedSize) (b : BlockLink) :
    Used ucHeap free { s with heap := s.heap.write (some a) b } := by
  obtain ⟨haddr, hstop⟩ := h.mem_cells ho hle hlt
  exact h.of_represents (fun _ ho => ho)
    (h.represents.store (List.mem_map_of_mem ho) haddr hstop b)

end Used

/-- The first call initialises the heap. -/
theorem malloc_fresh (h : heap.pxEnd = 0) (hucHeap : 0 < ucHeap) (w : UInt32) :
    heap.pvPortMalloc ucHeap w = (heap.prvHeapInit ucHeap).pvPortMalloc ucHeap w := by
  have hends := (Represents.initial hucHeap heap).ends
  unfold pvPortMalloc
  rw [if_pos h, if_neg hends]

/-- What was allocated stays allocated until it is freed. -/
theorem mem_owned_step {c : HeapCall} (h : step ucHeap s c = some s') (hc : c ≠ .free o.pv)
    (ho : o ∈ s.owned) : o ∈ s'.owned := by
  cases c with
  | malloc w =>
      obtain ⟨⟨pv, heap⟩, -, rfl⟩ := Option.map_eq_some_iff.mp h
      dsimp only
      split
      · exact ho
      · exact List.mem_cons_of_mem _ ho
  | free pv =>
      obtain ⟨heap, -, rfl⟩ := Option.map_eq_some_iff.mp h
      have hpv : o.pv ≠ pv := fun heq => hc (congrArg HeapCall.free heq.symm)
      exact (List.mem_eraseP_of_neg (by simpa using hpv)).mpr ho
  | store a b =>
      obtain rfl := Option.some.inj h
      exact ho

/-- What is at `a` after these calls, if it was `b` and only stores change it. -/
def lastStored (a : ℕ) : List HeapCall → BlockLink → BlockLink
  | [], b => b
  | .store c b' :: calls, b => lastStored a calls (if c = a then b' else b)
  | .malloc _ :: calls, b => lastStored a calls b
  | .free _ :: calls, b => lastStored a calls b

namespace Holds

/-- The heap a call of `pvPortMalloc` works on. -/
theorem ready (h : Holds ucHeap s) : ∃ heap free, Used ucHeap free ⟨heap, s.owned⟩ ∧
    (∀ w, s.heap.pvPortMalloc ucHeap w = heap.pvPortMalloc ucHeap w) ∧
    (s.owned ≠ [] → heap = s.heap) := by
  cases h with
  | fresh hucHeap hpxEnd howned =>
      have hinit := Represents.initial hucHeap s.heap
      refine ⟨s.heap.prvHeapInit ucHeap, [⟨heapStart ucHeap, heapEnd ucHeap - heapStart ucHeap⟩],
        ⟨?_, ?_⟩, malloc_fresh hpxEnd hucHeap, fun hne => absurd howned hne⟩
      · simpa [howned] using hinit
      · simp [howned]
  | used free h => exact ⟨s.heap, free, h, fun _ => rfl, fun _ => rfl⟩

theorem malloc (h : Holds ucHeap s) (w : UInt32) :
    ∃ s', step ucHeap s (.malloc w) = some s' ∧ Holds ucHeap s' ∧
      ∀ o ∈ s.owned, ∀ a, o.pv ≤ a → a < o.pv + o.xWantedSize →
        s'.heap.link a = s.heap.link a := by
  obtain ⟨heap, free, hused, hcall, hsame⟩ := h.ready
  rcases hused.malloc w with ⟨pv, heap', free', hmalloc, hpv, -, -, hnext, hkeep⟩ | ⟨hmalloc, -⟩
  · refine ⟨⟨heap', ⟨pv, w.toNat⟩ :: s.owned⟩, ?_, .used free' hnext, fun o ho a hle hlt => ?_⟩
    · simp [step, hcall, hmalloc, hpv]
    · obtain ⟨haddr, hstop⟩ := hused.mem_cells ho hle hlt
      rw [← hsame (List.ne_nil_of_mem ho)]
      exact hkeep a
        (hused.represents.tiled.not_mem_cover (List.mem_map_of_mem ho) ⟨haddr.le, hstop⟩)
  · refine ⟨⟨heap, s.owned⟩, ?_, .used free hused, fun o ho a _ _ => ?_⟩
    · simp [step, hcall, hmalloc]
    · rw [← hsame (List.ne_nil_of_mem ho)]

/-- What one call does. -/
theorem step (h : Holds ucHeap s) {c : HeapCall} (hc : s.Lawful c) :
    ∃ s', step ucHeap s c = some s' ∧ Holds ucHeap s' ∧
      ∀ o ∈ s.owned, o ∈ s'.owned → ∀ a, o.pv ≤ a → a < o.pv + o.xWantedSize →
        (∀ b, c ≠ .store a b) → s'.heap.link a = s.heap.link a := by
  cases c with
  | malloc w =>
      obtain ⟨s', hstep, hnext, hkeep⟩ := h.malloc w
      exact ⟨s', hstep, hnext, fun o ho _ a hle hlt _ => hkeep o ho a hle hlt⟩
  | free pv =>
      rcases hc with rfl | ⟨o, ho, rfl⟩
      · -- nothing is at `NULL`
        have howned : s.owned.eraseP (fun o => o.pv = 0) = s.owned := by
          refine List.eraseP_of_forall_not fun o ho => ?_
          obtain ⟨heap, free, hused, -⟩ := h.ready
          have hpv := hused.pv_eq ho
          simp [hpv, xHeapStructSize]
        refine ⟨s, ?_, h, fun _ _ _ _ _ _ _ => rfl⟩
        simp [HeapUse.step, vPortFree, howned]
      · cases h with
        | fresh _ _ howned => simp [howned] at ho
        | used free h =>
            obtain ⟨heap, free', hfree, hnext, hkeep⟩ := h.freed ho
            refine ⟨_, ?_, .used free' hnext, fun o' _ ho' a hle hlt _ => hkeep o' ho' a hle hlt⟩
            simp [HeapUse.step, hfree]
  | store a b =>
      obtain ⟨-, o, ho, hle, hlt⟩ := hc
      cases h with
      | fresh _ _ howned => simp [howned] at ho
      | used free h =>
          refine ⟨_, rfl, .used free (h.stored ho hle hlt b), fun o' _ _ c _ _ hne => ?_⟩
          exact write_link_of_ne fun heq =>
            hne b (congrArg (HeapCall.store · b) (Option.some.inj heq))

theorem run {link : ℕ → BlockLink} {calls : List HeapCall} (hucHeap : 0 < ucHeap)
    (h : Run (HeapUse.step ucHeap) (init link) calls s)
    (hm : Meets (HeapUse.step ucHeap) Lawful (init link) calls) : Holds ucHeap s := by
  refine h.invariant (fun s c s' hs hc hstep => ?_) hm (.fresh hucHeap rfl rfl)
  obtain ⟨s'', hstep', hnext, -⟩ := hs.step hc
  rw [hstep] at hstep'
  exact (Option.some.inj hstep').symm ▸ hnext

/-- What one call does to memory that stays owned. -/
theorem kept_step (h : Holds ucHeap s) {c : HeapCall} (hc : s.Lawful c)
    (hs : HeapUse.step ucHeap s c = some s') (ho : o ∈ s.owned) (hfree : c ≠ .free o.pv)
    (hle : o.pv ≤ a) (hlt : a < o.pv + o.xWantedSize) :
    s'.heap.link a = lastStored a [c] (s.heap.link a) := by
  obtain ⟨s₁, hstep, -, hkeep⟩ := h.step hc
  obtain rfl := Option.some.inj (hs.symm.trans hstep)
  have hother := hkeep o ho (mem_owned_step hs hfree ho) a hle hlt
  cases c with
  | malloc w => exact hother (by simp)
  | free pv => exact hother (by simp)
  | store c b =>
      obtain rfl := Option.some.inj hs
      by_cases hca : c = a
      · subst hca
        simp [lastStored]
      · rw [lastStored, if_neg hca]
        exact write_link_of_ne fun heq => hca (Option.some.inj heq)

theorem kept {calls : List HeapCall} (h : Holds ucHeap s)
    (hrun : Run (HeapUse.step ucHeap) s calls s') (hm : Meets (HeapUse.step ucHeap) Lawful s calls)
    (ho : o ∈ s.owned) (hfree : .free o.pv ∉ calls) (hle : o.pv ≤ a)
    (hlt : a < o.pv + o.xWantedSize) :
    o ∈ s'.owned ∧ s'.heap.link a = lastStored a calls (s.heap.link a) := by
  induction hrun with
  | refl => exact ⟨ho, rfl⟩
  | @step s s₁ s₂ c calls hs _ ih =>
      obtain ⟨hc, hrest⟩ := (meets_cons hs).mp hm
      obtain ⟨hne, hfree⟩ := not_or.mp (List.mem_cons.not.mp hfree)
      obtain ⟨s', hstep, hnext, -⟩ := h.step hc
      obtain rfl := Option.some.inj (hs.symm.trans hstep)
      have ho' := mem_owned_step hs (Ne.symm hne) ho
      obtain ⟨hlast, hlink⟩ := ih hnext hrest ho' hfree
      refine ⟨hlast, ?_⟩
      rw [hlink, h.kept_step hc hs ho (Ne.symm hne) hle hlt]
      cases c <;> rfl

end Holds

/-- In every history in which nobody frees or writes what is not theirs: what is owned is aligned,
lies in `ucHeap` and is apart from everything else that is owned, with room for a header in between;
and the next call passes its assertions and leaves the memory of the other owners alone. -/
theorem heap_safe {link : ℕ → BlockLink} {calls : List HeapCall} (hucHeap : 0 < ucHeap)
    (h : Run (step ucHeap) (init link) calls s)
    (hm : Meets (step ucHeap) Lawful (init link) calls) :
    (∀ o ∈ s.owned, portByteAlignment ∣ o.pv ∧ ucHeap + xHeapStructSize ≤ o.pv ∧
      o.pv + o.xWantedSize ≤ ucHeap + configTotalHeapSize) ∧
    (s.owned.Pairwise fun o o' => o.pv + o.xWantedSize + xHeapStructSize ≤ o'.pv ∨
      o'.pv + o'.xWantedSize + xHeapStructSize ≤ o.pv) ∧
    ∀ c, s.Lawful c → ∃ s', step ucHeap s c = some s' ∧
      ∀ o ∈ s.owned, o ∈ s'.owned → ∀ a, o.pv ≤ a → a < o.pv + o.xWantedSize →
        (∀ b, c ≠ .store a b) → s'.heap.link a = s.heap.link a := by
  have hholds := Holds.run hucHeap h hm
  obtain ⟨heap, free, hused, -⟩ := hholds.ready
  refine ⟨fun o ho => ?_, ?_, fun c hc => ?_⟩
  · have hpv : o.pv = (block heap o).addr + xHeapStructSize := hused.pv_eq ho
    have hroom : o.xWantedSize + xHeapStructSize ≤ (block heap o).size := (hused.room o ho).1
    have hmem : block heap o ∈ s.owned.map (block heap) := List.mem_map_of_mem ho
    have hin := hused.represents.tiled.within_used hmem
    have hstart := hused.represents.start
    have hstop : heap.pxEnd + xHeapStructSize ≤ ucHeap + configTotalHeapSize :=
      hused.represents.stop
    refine ⟨?_, ?_, ?_⟩
    · rw [hpv]
      exact Nat.dvd_add (hused.represents.tiled.usedUnits _ hmem).1 (by decide)
    · omega
    · simp only [Extent.stop] at hin
      omega
  · refine (List.pairwise_map.mp hused.represents.tiled.apart).imp_of_mem fun {o o'} ho ho' h => ?_
    have hpv : o.pv = (block heap o).addr + xHeapStructSize := hused.pv_eq ho
    have hpv' : o'.pv = (block heap o').addr + xHeapStructSize := hused.pv_eq ho'
    have hroom : o.xWantedSize + xHeapStructSize ≤ (block heap o).size := (hused.room o ho).1
    have hroom' : o'.xWantedSize + xHeapStructSize ≤ (block heap o').size := (hused.room o' ho').1
    simp only [Extent.Apart, Extent.stop] at h
    omega
  · obtain ⟨s', hstep, -, hkeep⟩ := hholds.step hc
    exact ⟨s', hstep, hkeep⟩

/-- `ucHeap` is not aligned; the first of two blocks is freed. -/
def fragmented : List HeapCall := [.malloc 100, .malloc 200, .free 536870928]

theorem heap_safe_fragmented : ∃ s s',
    Run (step 0x20000004) (init fun _ => ⟨0, 0⟩) fragmented s ∧ s.owned = [⟨536871040, 200⟩] ∧
      step 0x20000004 s (.malloc 120) = some s' ∧
      s'.owned = [⟨536871248, 120⟩, ⟨536871040, 200⟩] ∧
      ∀ a, 536871040 ≤ a → a < 536871040 + 200 → s'.heap.link a = s.heap.link a := by
  have hrun : Run (step 0x20000004) (init fun _ => ⟨0, 0⟩) fragmented _ := Run.of_exec rfl
  obtain ⟨-, -, hcalls⟩ := heap_safe (by decide) hrun (by decide +kernel)
  obtain ⟨s', hstep, hkeep⟩ := hcalls (.malloc 120) trivial
  have howned : s'.owned = [⟨536871248, 120⟩, ⟨536871040, 200⟩] := by
    obtain rfl := Option.some.inj hstep
    rfl
  refine ⟨_, s', hrun, rfl, hstep, howned, fun a hle hlt => ?_⟩
  refine hkeep ⟨536871040, 200⟩ (List.mem_singleton_self _) ?_ a hle hlt (by simp)
  rw [howned]
  exact List.mem_cons_of_mem _ (List.mem_singleton_self _)

/-- From then on, until it is freed, what is owned stays owned and reads what was last stored there,
whatever else is allocated, freed and written. -/
theorem memory_kept {link : ℕ → BlockLink} {calls calls' : List HeapCall} (hucHeap : 0 < ucHeap)
    (h : Run (step ucHeap) (init link) calls s)
    (hm : Meets (step ucHeap) Lawful (init link) calls) (ho : o ∈ s.owned)
    (h' : Run (step ucHeap) s calls' s') (hm' : Meets (step ucHeap) Lawful s calls')
    (hfree : .free o.pv ∉ calls') (hle : o.pv ≤ a) (hlt : a < o.pv + o.xWantedSize) :
    o ∈ s'.owned ∧ s'.heap.link a = lastStored a calls' (s.heap.link a) :=
  (Holds.run hucHeap h hm).kept h' hm' ho hfree hle hlt

/-- A block above the second is made and freed. -/
def meanwhile : List HeapCall := [.store 536871048 ⟨1, 2⟩, .malloc 120, .free 536871248]

theorem memory_kept_meanwhile : ∃ s s',
    Run (step 0x20000004) (init fun _ => ⟨0, 0⟩) fragmented s ∧
      Run (step 0x20000004) s meanwhile s' ∧ s.owned = [⟨536871040, 200⟩] ∧
      s'.heap.link 536871048 = ⟨1, 2⟩ := by
  obtain ⟨s, s', hrun, hrun', hlawful, howned⟩ : ∃ s s',
      Run (step 0x20000004) (init fun _ => ⟨0, 0⟩) fragmented s ∧
        Run (step 0x20000004) s meanwhile s' ∧ Meets (step 0x20000004) Lawful s meanwhile ∧
        s.owned = [⟨536871040, 200⟩] :=
    ⟨_, _, Run.of_exec rfl, Run.of_exec rfl, by decide +kernel, rfl⟩
  have ho : ⟨536871040, 200⟩ ∈ s.owned := by simp [howned]
  obtain ⟨-, hlink⟩ := memory_kept (a := 536871048) (by decide) hrun (by decide +kernel) ho hrun'
    hlawful (by decide) (by decide) (by decide)
  exact ⟨s, s', hrun, hrun', howned, hlink⟩

/-- `pvPortMalloc` returns `NULL` if and only if nothing is wanted, or the block for it fits nowhere
between the blocks that are owned: free memory that is adjacent is always joined.  A block has at
most 16 bytes more than required, and the count of the free bytes is exact. -/
theorem malloc_null_iff {link : ℕ → BlockLink} {calls : List HeapCall} (hucHeap : 0 < ucHeap)
    (h : Run (step ucHeap) (init link) calls s)
    (hm : Meets (step ucHeap) Lawful (init link) calls) (xWantedSize : UInt32) :
    (∃ pv heap, s.heap.pvPortMalloc ucHeap xWantedSize = some (pv, heap) ∧
      (pv = 0 ↔ xWantedSize = 0 ∨
        ¬ ∃ a, heapStart ucHeap ≤ a ∧ a + blockSize xWantedSize.toNat ≤ heapEnd ucHeap ∧
          ∀ o ∈ s.owned,
            (⟨a, blockSize xWantedSize.toNat⟩ : Extent).Apart (block s.heap o))) ∧
    (∀ o ∈ s.owned, (block s.heap o).size ≤ blockSize o.xWantedSize + heapMinimumBlockSize) ∧
    (s.heap.pxEnd ≠ 0 → s.heap.xFreeBytesRemaining + total (s.owned.map (block s.heap)) =
      heapEnd ucHeap - heapStart ucHeap) := by
  have hholds := Holds.run hucHeap h hm
  obtain ⟨heap, free, hused, hcall, hsame⟩ := hholds.ready
  have hblock (o : Allocation) (ho : o ∈ s.owned) : block heap o = block s.heap o := by
    rw [hsame (List.ne_nil_of_mem ho)]
  have hfits := hused.represents.tiled.fits_iff (blockSize_pos xWantedSize.toNat)
  have hpxEnd : heap.pxEnd = heapEnd ucHeap := hused.represents.pxEnd
  dsimp only at hfits
  simp only [hpxEnd, List.forall_mem_map] at hfits
  have hroom : (∃ x ∈ free, blockSize xWantedSize.toNat ≤ x.size) ↔
      ∃ a, heapStart ucHeap ≤ a ∧ a + blockSize xWantedSize.toNat ≤ heapEnd ucHeap ∧
        ∀ o ∈ s.owned, (⟨a, blockSize xWantedSize.toNat⟩ : Extent).Apart (block s.heap o) := by
    rw [hfits]
    refine exists_congr fun a => and_congr_right' (and_congr_right' ?_)
    exact forall₂_congr fun o ho => by rw [hblock o ho]
  refine ⟨?_, fun o ho => ?_, fun hpxEnd => ?_⟩
  · rw [← hroom, hcall]
    rcases hused.malloc xWantedSize with
      ⟨pv, heap', free', hmalloc, hpv, hw, hfit, -, -⟩ | ⟨hmalloc, hnull⟩
    · refine ⟨pv, heap', hmalloc, iff_of_false hpv ?_⟩
      exact not_or.mpr ⟨hw, not_not.mpr hfit⟩
    · refine ⟨0, heap, hmalloc, iff_of_true rfl (hnull.imp_right ?_)⟩
      rintro hall ⟨x, hx, hle⟩
      exact (hall x hx).not_ge hle
  · rw [← hblock o ho]
    exact (hused.room o ho).2
  · cases hholds with
    | fresh _ hfresh => exact absurd hfresh hpxEnd
    | used free h =>
        rw [h.represents.remaining, h.represents.tiled.total, h.represents.pxEnd]

/-- 65208 bytes are not free in one piece. -/
theorem malloc_null_iff_fragmented : ∃ s,
    Run (step 0x20000004) (init fun _ => ⟨0, 0⟩) fragmented s ∧
      s.heap.xFreeBytesRemaining = 65312 ∧
      ¬ ∃ a, 536870920 ≤ a ∧ a + 65208 ≤ 536936440 ∧
        ∀ o ∈ s.owned, (⟨a, 65208⟩ : Extent).Apart (block s.heap o) := by
  have hrun : Run (step 0x20000004) (init fun _ => ⟨0, 0⟩) fragmented _ := Run.of_exec rfl
  obtain ⟨⟨pv, heap, hmalloc, hnull⟩, -, -⟩ :=
    malloc_null_iff (by decide) hrun (by decide +kernel) 65200
  have hpv : pv = 0 := (congrArg Prod.fst (Option.some.inj hmalloc)).symm
  exact ⟨_, hrun, rfl, (hnull.mp hpv).resolve_left (by decide)⟩

end HeapUse

end PeripheralTester.Firmware
