import Mathlib.Data.Nat.Bitwise
import PeripheralTester.Lib.FreeSpace
import PeripheralTester.Firmware.KernelHeap

/-! # The kernel's heap keeps its blocks apart

The headers of `heap_4.c` stand for two lists of extents that tile `ucHeap`, the free blocks and the
application's.  `insert_chain` says that `prvInsertBlockIntoFreeList` is `release` on the links, and
the links that a call changes are all in blocks that are free before or after it. -/

namespace PeripheralTester.Firmware

open Lib

namespace HeapState

variable {s s' : HeapState} {free used before behind : List Extent} {x y : Extent}
  {a b last : ℕ} {link link' : ℕ → BlockLink} {p : Option ℕ}

/-! ### Links -/

@[simp] theorem read_write_self (s : HeapState) (p : Option ℕ) (b : BlockLink) :
    (s.write p b).read p = b := by
  cases p <;> simp [read, write]

@[simp] theorem write_pxEnd (s : HeapState) (p : Option ℕ) (b : BlockLink) :
    (s.write p b).pxEnd = s.pxEnd := by
  cases p <;> rfl

@[simp] theorem write_bit (s : HeapState) (p : Option ℕ) (b : BlockLink) :
    (s.write p b).xBlockAllocatedBit = s.xBlockAllocatedBit := by
  cases p <;> rfl

@[simp] theorem write_remaining (s : HeapState) (p : Option ℕ) (b : BlockLink) :
    (s.write p b).xFreeBytesRemaining = s.xFreeBytesRemaining := by
  cases p <;> rfl

@[simp] theorem write_minimum (s : HeapState) (p : Option ℕ) (b : BlockLink) :
    (s.write p b).xMinimumEverFreeBytesRemaining = s.xMinimumEverFreeBytesRemaining := by
  cases p <;> rfl

@[simp] theorem write_link_self (s : HeapState) (a : ℕ) (b : BlockLink) :
    (s.write (some a) b).link a = b := by
  simp [write]

theorem write_link_of_ne {b : BlockLink} (h : p ≠ some a) : (s.write p b).link a = s.link a := by
  cases p with
  | none => rfl
  | some c => exact Function.update_of_ne (fun hac => h (congrArg some hac.symm)) _ _

@[simp] theorem write_some_xStart (s : HeapState) (a : ℕ) (b : BlockLink) :
    (s.write (some a) b).xStart = s.xStart := rfl

/-- From `a`, the links go through the blocks `free` and end at `last`. -/
def Chain (link : ℕ → BlockLink) (last : ℕ) : ℕ → List Extent → Prop
  | a, [] => a = last
  | a, x :: free =>
      a = x.addr ∧ (link x.addr).xBlockSize = x.size ∧
        Chain link last (link x.addr).pxNextFreeBlock free

theorem chain_append :
    Chain link last a (before ++ behind) ↔
      ∃ b, Chain link b a before ∧ Chain link last b behind := by
  induction before generalizing a with
  | nil => simp [Chain]
  | cons x before ih =>
      simp only [List.cons_append, Chain, ih]
      grind

/-- Only the headers of the blocks matter. -/
theorem Chain.congr (h : Chain link last a free) (hlink : ∀ x ∈ free, link' x.addr = link x.addr) :
    Chain link' last a free := by
  induction free generalizing a with
  | nil => exact h
  | cons x free ih =>
      obtain ⟨ha, hsize, hnext⟩ := h
      obtain ⟨hx, hfree⟩ := List.forall_mem_cons.mp hlink
      refine ⟨ha, by rw [hx]; exact hsize, ?_⟩
      rw [hx]
      exact ih hnext hfree

/-- A pointer to the last of the blocks, or `p` if there is none. -/
def lastBlock (p : Option ℕ) : List Extent → Option ℕ
  | [] => p
  | x :: free => lastBlock (some x.addr) free

@[simp] theorem lastBlock_concat : lastBlock p (before ++ [x]) = some x.addr := by
  induction before generalizing p with
  | nil => rfl
  | cons y before ih => exact ih

theorem lastBlock_ne (hp : p ≠ some a) (hfree : ∀ x ∈ free, x.addr ≠ a) :
    lastBlock p free ≠ some a := by
  induction free generalizing p with
  | nil => exact hp
  | cons x free ih =>
      obtain ⟨hx, hfree⟩ := List.forall_mem_cons.mp hfree
      exact ih (fun heq => hx (Option.some.inj heq)) hfree

/-- The link of the last block is set. -/
theorem Chain.relink (h : Chain s.link last s.xStart.pxNextFreeBlock before)
    (hdistinct : before.Pairwise fun x y => x.addr ≠ y.addr) (b : ℕ) :
    Chain (s.write (lastBlock none before)
        { s.read (lastBlock none before) with pxNextFreeBlock := b }).link b
      (s.write (lastBlock none before)
        { s.read (lastBlock none before) with pxNextFreeBlock := b }).xStart.pxNextFreeBlock
      before := by
  rcases before.eq_nil_or_concat' with rfl | ⟨init, x, rfl⟩
  · rfl
  · rw [lastBlock_concat]
    obtain ⟨c, hinit, hc, hsize, -⟩ := chain_append.mp h
    refine chain_append.mpr ⟨c, hinit.congr fun y hy => ?_, hc, ?_, ?_⟩
    · have hne := (List.pairwise_append.mp hdistinct).2.2 y hy x (List.mem_singleton_self x)
      exact write_link_of_ne fun heq => hne (Option.some.inj heq).symm
    · rw [write_link_self]
      exact hsize
    · rw [write_link_self]
      rfl

/-! ### Inserting a block -/

theorem findPlace_eq {n : ℕ} (h : Chain s.link last (s.read p).pxNextFreeBlock before)
    (hbefore : ∀ y ∈ before, y.addr < a) (hlast : a ≤ last) (hn : before.length < n) :
    s.findPlace a n p = some (lastBlock p before) := by
  induction before generalizing p n with
  | nil =>
      obtain ⟨m, rfl⟩ := Nat.exists_eq_add_one_of_ne_zero (Nat.ne_zero_of_lt hn)
      have hstop : ¬ (s.read p).pxNextFreeBlock < a := by
        rw [h]
        exact Nat.not_lt.mpr hlast
      rw [findPlace, if_neg hstop]
      rfl
  | cons y before ih =>
      obtain ⟨m, rfl⟩ := Nat.exists_eq_add_one_of_ne_zero (Nat.ne_zero_of_lt hn)
      obtain ⟨hy, hbefore⟩ := List.forall_mem_cons.mp hbefore
      obtain ⟨haddr, -, hnext⟩ := h
      rw [findPlace, haddr, if_pos hy]
      exact ih hnext hbefore (by simpa using hn)

/-- The block at `x.addr` is merged with the one behind it, or linked to it. -/
theorem mergeBehind_chain (hsize : (s.link x.addr).xBlockSize = x.size)
    (h : Chain s.link s.pxEnd (s.read p).pxNextFreeBlock behind)
    (hbehind : ∀ y ∈ behind, x.addr < y.addr ∧ y.addr < s.pxEnd) :
    ∃ b, s.mergeBehind p x.addr = s.write (some x.addr) b ∧
      Chain (s.write (some x.addr) b).link s.pxEnd x.addr (absorb x behind) := by
  have hkeep (b : BlockLink) (z : Extent) (hz : z ∈ behind) :
      (s.write (some x.addr) b).link z.addr = s.link z.addr :=
    write_link_of_ne fun heq => (hbehind z hz).1.ne (Option.some.inj heq)
  cases behind with
  | nil =>
      refine ⟨{ s.link x.addr with pxNextFreeBlock := s.pxEnd }, ?_, rfl, ?_, ?_⟩
      · have hnext : (s.read p).pxNextFreeBlock = s.pxEnd := h
        unfold mergeBehind
        simp [hnext]
      · rw [write_link_self]
        exact hsize
      · rw [write_link_self]
        rfl
  | cons y behind =>
      obtain ⟨haddr, hysize, hnext⟩ := h
      obtain ⟨hlt, hyEnd⟩ := hbehind y List.mem_cons_self
      by_cases htouch : x.stop = y.addr
      · refine ⟨⟨(s.link y.addr).pxNextFreeBlock, (s.link x.addr).xBlockSize +
          (s.link y.addr).xBlockSize⟩, ?_, ?_⟩
        · have hstop : x.addr + x.size = y.addr := htouch
          unfold mergeBehind
          dsimp only
          rw [haddr, hsize, if_pos hstop, if_pos hyEnd.ne]
        · rw [absorb, if_pos htouch]
          refine ⟨rfl, ?_, ?_⟩
          · rw [write_link_self, hsize, hysize]
          · rw [write_link_self]
            exact hnext.congr fun z hz => hkeep _ z (List.mem_cons_of_mem _ hz)
      · refine ⟨{ s.link x.addr with pxNextFreeBlock := y.addr }, ?_, ?_⟩
        · have hstop : x.addr + x.size ≠ y.addr := htouch
          unfold mergeBehind
          dsimp only
          rw [haddr, hsize, if_neg hstop]
        · rw [absorb, if_neg htouch]
          refine ⟨rfl, ?_, ?_⟩
          · rw [write_link_self]
            exact hsize
          · rw [write_link_self]
            exact Chain.congr ⟨rfl, hysize, hnext⟩ (hkeep _)

theorem Chain.read_last (h : Chain s.link last (s.read p).pxNextFreeBlock before) :
    (s.read (lastBlock p before)).pxNextFreeBlock = last := by
  induction before generalizing p with
  | nil => exact h
  | cons x before ih => exact ih h.2.2

/-- What a call does not change: the counters, and the headers outside `A`. -/
structure Keeps (A : Set ℕ) (s s' : HeapState) : Prop where
  link : ∀ a, a ∉ A → s'.link a = s.link a
  pxEnd : s'.pxEnd = s.pxEnd
  bit : s'.xBlockAllocatedBit = s.xBlockAllocatedBit
  remaining : s'.xFreeBytesRemaining = s.xFreeBytesRemaining
  minimum : s'.xMinimumEverFreeBytesRemaining = s.xMinimumEverFreeBytesRemaining

theorem Keeps.write {A : Set ℕ} (h : Keeps A s s') (hp : ∀ a, p = some a → a ∈ A) (b : BlockLink) :
    Keeps A s (s'.write p b) := by
  refine ⟨fun a ha => ?_, by simpa using h.pxEnd, by simpa using h.bit, by simpa using h.remaining,
    by simpa using h.minimum⟩
  rw [write_link_of_ne fun heq => ha (hp a heq)]
  exact h.link a ha

theorem Keeps.trans {A : Set ℕ} {s₁ : HeapState} (h : Keeps A s s₁) (h' : Keeps A s₁ s') :
    Keeps A s s' :=
  ⟨fun a ha => (h'.link a ha).trans (h.link a ha), h'.pxEnd.trans h.pxEnd, h'.bit.trans h.bit,
    h'.remaining.trans h.remaining, h'.minimum.trans h.minimum⟩

theorem Keeps.mono {A B : Set ℕ} (h : Keeps A s s') (hAB : A ⊆ B) : Keeps B s s' :=
  ⟨fun a ha => h.link a fun hA => ha (hAB hA), h.pxEnd, h.bit, h.remaining, h.minimum⟩

theorem Keeps.refl (A : Set ℕ) (s : HeapState) : Keeps A s s := ⟨fun _ _ => rfl, rfl, rfl, rfl, rfl⟩

/-- The block is linked between `before` and `behind`. -/
theorem insert_apart {A : Set ℕ} (hsize : (s.link x.addr).xBlockSize = x.size)
    (hchain : Chain s.link a s.xStart.pxNextFreeBlock before)
    (hrest : Chain s.link s.pxEnd a behind)
    (hdistinct : before.Pairwise fun x y => x.addr ≠ y.addr)
    (hbefore : ∀ y ∈ before, y.addr < x.addr)
    (hbehind : ∀ y ∈ behind, x.addr < y.addr ∧ y.addr < s.pxEnd)
    (hx : x.addr ∈ A) (hA : ∀ y ∈ before, y.addr ∈ A) :
    ∃ s', s.mergeBehind (lastBlock none before) x.addr = s' ∧
      Chain (s'.write (lastBlock none before)
          { s'.read (lastBlock none before) with pxNextFreeBlock := x.addr }).link s.pxEnd
        (s'.write (lastBlock none before)
          { s'.read (lastBlock none before) with pxNextFreeBlock := x.addr }).xStart.pxNextFreeBlock
        (before ++ absorb x behind) ∧
      Keeps A s (s'.write (lastBlock none before)
        { s'.read (lastBlock none before) with pxNextFreeBlock := x.addr }) := by
  have hlast : (s.read (lastBlock none before)).pxNextFreeBlock = a := Chain.read_last hchain
  obtain ⟨b, hmerge, habsorb⟩ :=
    mergeBehind_chain (p := lastBlock none before) hsize (by rwa [hlast]) hbehind
  refine ⟨_, hmerge, chain_append.mpr ⟨x.addr, ?_, habsorb.congr fun z hz => ?_⟩, ?_⟩
  · refine Chain.relink (s := s.write (some x.addr) b) (hchain.congr fun y hy => ?_) hdistinct _
    exact write_link_of_ne fun heq => (hbefore y hy).ne (Option.some.inj heq).symm
  · have hz' : x.addr ≤ z.addr :=
      forall_absorb (P := fun z => x.addr ≤ z.addr) (fun _ _ hy _ _ => hy) le_rfl
        (fun y hy => (hbehind y hy).1.le) z hz
    refine write_link_of_ne (lastBlock_ne (by simp) fun y hy => ?_)
    have hy' := hbefore y hy
    omega
  · refine ((Keeps.refl A s).write (fun c hc => ?_) b).write (fun c hc => ?_) _
    · rw [← Option.some.inj hc]
      exact hx
    · by_contra hcA
      refine lastBlock_ne (by simp) (fun y hy heq => hcA ?_) hc
      rw [← heq]
      exact hA y hy

/-- The block before it grows. -/
theorem insert_touching {A : Set ℕ} (hsize : (s.link x.addr).xBlockSize = x.size)
    (hchain : Chain s.link a s.xStart.pxNextFreeBlock (before ++ [y]))
    (hrest : Chain s.link s.pxEnd a behind) (htouch : y.stop = x.addr)
    (hbefore : ∀ z ∈ before, z.addr < y.addr)
    (hbehind : ∀ z ∈ behind, y.addr < z.addr ∧ z.addr < s.pxEnd) (hy : y.addr ∈ A) :
    ∃ s₁, s.mergeBefore (some y.addr) x.addr = (s₁, y.addr) ∧
      Chain (s₁.mergeBehind (some y.addr) y.addr).link s.pxEnd
        (s₁.mergeBehind (some y.addr) y.addr).xStart.pxNextFreeBlock
        (before ++ absorb ⟨y.addr, y.size + x.size⟩ behind) ∧
      Keeps A s (s₁.mergeBehind (some y.addr) y.addr) := by
  obtain ⟨c, hinit, hc, hysize, hnext⟩ := chain_append.mp hchain
  have hkeep (b : BlockLink) (z : Extent) (hz : z ∈ behind) :
      (s.write (some y.addr) b).link z.addr = s.link z.addr :=
    write_link_of_ne fun heq => (hbehind z hz).1.ne (Option.some.inj heq)
  refine ⟨s.write (some y.addr) { s.link y.addr with
    xBlockSize := (s.link y.addr).xBlockSize + (s.link x.addr).xBlockSize }, ?_, ?_⟩
  · have hstop : y.addr + (s.link y.addr).xBlockSize = x.addr := by
      rw [hysize]
      exact htouch
    unfold mergeBefore
    dsimp only
    rw [if_pos hstop]
  · obtain ⟨b, hmerge, habsorb⟩ :=
      mergeBehind_chain (x := ⟨y.addr, y.size + x.size⟩) (p := some y.addr)
        (s := s.write (some y.addr) { s.link y.addr with
          xBlockSize := (s.link y.addr).xBlockSize + (s.link x.addr).xBlockSize })
        (by rw [write_link_self, hysize, hsize])
        (by
          rw [read_write_self, write_pxEnd]
          have hnext' : (s.link y.addr).pxNextFreeBlock = a := hnext
          rw [hnext']
          exact hrest.congr (hkeep _))
        (by simpa using hbehind)
    dsimp only at hmerge
    rw [hmerge]
    have hmem (d : ℕ) (hd : some y.addr = some d) : d ∈ A := by
      rw [← Option.some.inj hd]
      exact hy
    refine ⟨chain_append.mpr ⟨y.addr, ?_, by simpa using habsorb⟩, ?_⟩
    · rw [write_some_xStart, write_some_xStart]
      refine Chain.congr (hc ▸ hinit) fun z hz => ?_
      have hne : some y.addr ≠ some z.addr := fun heq =>
        (hbefore z hz).ne (Option.some.inj heq).symm
      rw [write_link_of_ne hne, write_link_of_ne hne]
    · exact ((Keeps.refl A s).write hmem _).write hmem _

/-- `prvInsertBlockIntoFreeList` releases the block at `x.addr`. -/
theorem insert_chain {A : Set ℕ} (hsize : (s.link x.addr).xBlockSize = x.size)
    (h : Chain s.link s.pxEnd s.xStart.pxNextFreeBlock free) (hsep : Separated free)
    (hx : ∀ y ∈ free, y.Apart x) (hpos : 0 < x.size) (hfreePos : ∀ y ∈ free, 0 < y.size)
    (hend : ∀ y ∈ free, y.addr < s.pxEnd) (hxEnd : x.addr < s.pxEnd)
    (hlength : free.length < configTotalHeapSize) (hxA : x.addr ∈ A) (hA : ∀ y ∈ free, y.addr ∈ A) :
    ∃ s', s.prvInsertBlockIntoFreeList x.addr = some s' ∧
      Chain s'.link s.pxEnd s'.xStart.pxNextFreeBlock (release x free) ∧ Keeps A s s' := by
  -- the blocks before it and behind it
  obtain ⟨before, behind, rfl, hbefore, hbehind⟩ := hsep.exists_split hx hpos hfreePos
  obtain ⟨c, hchain, hrest⟩ := chain_append.mp h
  obtain ⟨hsepBefore, -, -⟩ := List.pairwise_append.mp hsep
  have hbehindEnd (y : Extent) (hy : y ∈ behind) : x.addr < y.addr ∧ y.addr < s.pxEnd :=
    ⟨hbehind y hy, hend y (List.mem_append_right _ hy)⟩
  have habove : release x behind = absorb x behind := release_above fun y hy => (hbehind y hy).le
  have hdistinct : before.Pairwise fun x y => x.addr ≠ y.addr := by
    refine hsepBefore.imp fun hxy => ?_
    simp only [Extent.stop] at hxy
    omega
  have hplace : s.findPlace x.addr configTotalHeapSize none = some (lastBlock none before) := by
    refine findPlace_eq hchain hbefore ?_ ?_
    · cases behind with
      | nil => exact hxEnd.le.trans (le_of_eq hrest.symm)
      | cons y behind => exact (hbehind y List.mem_cons_self).le.trans (le_of_eq hrest.1.symm)
    · rw [List.length_append] at hlength
      omega
  unfold prvInsertBlockIntoFreeList
  rw [hplace, Option.map_some]
  have hapart := insert_apart hsize hchain hrest hdistinct hbefore hbehindEnd hxA fun y hy =>
    hA y (List.mem_append_left _ hy)
  have hne : lastBlock none before ≠ some x.addr :=
    lastBlock_ne (by simp) fun y hy => (hbefore y hy).ne
  rcases before.eq_nil_or_concat' with rfl | ⟨init, y, rfl⟩
  · obtain ⟨s₁, rfl, hnext, hkeeps⟩ := hapart
    refine ⟨_, rfl, ?_, ?_⟩
    · rw [List.nil_append, habove]
      exact hnext
    · exact hkeeps
  · obtain ⟨hsepInit, -, hinit⟩ := List.pairwise_append.mp hsepBefore
    have hyx := hbefore y (by simp)
    have hbelow (z : Extent) (hz : z ∈ init) : z.stop < y.addr := hinit z hz y (by simp)
    have hbefore' (z : Extent) (hz : z ∈ init) : z.addr < x.addr ∧ z.stop ≠ x.addr := by
      have hzy := hbelow z hz
      have hzx := hbefore z (List.mem_append_left _ hz)
      omega
    rw [List.append_assoc, List.singleton_append, release_append hbefore']
    rw [lastBlock_concat] at hapart hne ⊢
    by_cases htouch : y.stop = x.addr
    · obtain ⟨s₁, hmerge, hnext, hkeeps⟩ := insert_touching (A := A) hsize hchain hrest htouch
        (fun z hz => (Nat.le_add_right _ _).trans_lt (hbelow z hz))
        (fun z hz => ⟨hyx.trans (hbehindEnd z hz).1, (hbehindEnd z hz).2⟩) (hA y (by simp))
      rw [hmerge, release_touching hyx htouch]
      refine ⟨_, rfl, ?_, ?_⟩
      · simpa using hnext
      · simpa using hkeeps
    · obtain ⟨s₁, rfl, hnext, hkeeps⟩ := hapart
      have hysize : (s.link y.addr).xBlockSize = y.size := by
        obtain ⟨d, -, -, hysize, -⟩ := chain_append.mp hchain
        exact hysize
      have hstop : ¬ y.addr + (s.link y.addr).xBlockSize = x.addr := by
        rw [hysize]
        exact htouch
      have hmerge : s.mergeBefore (some y.addr) x.addr = (s, x.addr) := by
        unfold mergeBefore
        dsimp only
        rw [if_neg hstop]
      rw [hmerge, release, if_pos hyx, if_neg htouch, habove]
      dsimp only
      rw [if_pos hne]
      refine ⟨_, rfl, ?_, hkeeps⟩
      rw [List.append_assoc] at hnext
      exact hnext

/-! ### The calls -/

/-- The first block begins here. -/
def heapStart (ucHeap : ℕ) : ℕ := alignDown (ucHeap + (portByteAlignment - 1))

/-- `pxEnd` once it is set. -/
def heapEnd (ucHeap : ℕ) : ℕ := alignDown (ucHeap + configTotalHeapSize - xHeapStructSize)

/-- The headers stand for the blocks. -/
structure Represents (ucHeap : ℕ) (s : HeapState) (free used : List Extent) : Prop where
  tiled : Tiled portByteAlignment (heapStart ucHeap) s.pxEnd free used
  chain : Chain s.link s.pxEnd s.xStart.pxNextFreeBlock free
  allocated : ∀ x ∈ used, s.link x.addr = ⟨0, x.size ||| 2 ^ 31⟩
  endLink : s.link s.pxEnd = ⟨0, 0⟩
  bit : s.xBlockAllocatedBit = 2 ^ 31
  remaining : s.xFreeBytesRemaining = total free
  pxEnd : s.pxEnd = heapEnd ucHeap
  pos : 0 < ucHeap

theorem findFit_eq {w n : ℕ} (h : Chain s.link s.pxEnd a free) (hend : s.link s.pxEnd = ⟨0, 0⟩)
    (hpxEnd : s.pxEnd ≠ 0) (hpos : ∀ x ∈ free, x.addr ≠ 0) (hn : free.length < n) :
    (∃ before x behind, free = before ++ x :: behind ∧ w ≤ x.size ∧
        s.findFit w n p a = some (lastBlock p before, x.addr)) ∨
      (∀ x ∈ free, x.size < w) ∧ ∃ q, s.findFit w n p a = some (q, s.pxEnd) := by
  induction free generalizing a p n with
  | nil =>
      obtain ⟨m, rfl⟩ := Nat.exists_eq_add_one_of_ne_zero (Nat.ne_zero_of_lt hn)
      obtain rfl : a = s.pxEnd := h
      refine .inr ⟨by simp, p, ?_⟩
      rw [findFit, if_neg (by simp [hend])]
  | cons x free ih =>
      obtain ⟨m, rfl⟩ := Nat.exists_eq_add_one_of_ne_zero (Nat.ne_zero_of_lt hn)
      obtain ⟨rfl, hsize, hnext⟩ := h
      obtain ⟨hx, hpos⟩ := List.forall_mem_cons.mp hpos
      have hnextNe : (s.link x.addr).pxNextFreeBlock ≠ 0 := by
        cases free with
        | nil =>
            have heq : (s.link x.addr).pxNextFreeBlock = s.pxEnd := hnext
            rwa [heq]
        | cons y free =>
            rw [hnext.1]
            exact hpos y List.mem_cons_self
      by_cases hlt : x.size < w
      · rw [findFit, if_pos ⟨by rwa [hsize], hnextNe⟩]
        rcases ih (p := some x.addr) hnext hpos (by simpa using hn) with
          ⟨before, y, behind, rfl, hle, hfind⟩ | ⟨hall, hfind⟩
        · exact .inl ⟨x :: before, y, behind, rfl, hle, hfind⟩
        · exact .inr ⟨List.forall_mem_cons.mpr ⟨hlt, hall⟩, hfind⟩
      · refine .inl ⟨[], x, free, rfl, Nat.not_lt.mp hlt, ?_⟩
        rw [findFit, if_neg fun hc => hlt (by rw [← hsize]; exact hc.1)]
        rfl

/-- A block that the application owns is released. -/
theorem insert_tiled {lo : ℕ} (htiled : Tiled portByteAlignment lo s.pxEnd free (x :: used))
    (hsize : (s.link x.addr).xBlockSize = x.size)
    (hchain : Chain s.link s.pxEnd s.xStart.pxNextFreeBlock free)
    (hlength : free.length < configTotalHeapSize) :
    ∃ s', s.prvInsertBlockIntoFreeList x.addr = some s' ∧
      Chain s'.link s.pxEnd s'.xStart.pxNextFreeBlock (release x free) ∧
      Keeps (cover (x :: free)) s s' := by
  have hpos := htiled.usedPos x List.mem_cons_self
  have hxEnd : x.addr < s.pxEnd :=
    (Nat.lt_add_of_pos_right hpos).trans_le (htiled.within_used List.mem_cons_self).2
  exact insert_chain hsize hchain htiled.separated
    (fun y hy => htiled.disjoint y hy x List.mem_cons_self) hpos htiled.freePos
    (fun y hy => htiled.addr_lt hy) hxEnd hlength (addr_mem_cover List.mem_cons_self hpos)
    fun y hy => addr_mem_cover (List.mem_cons_of_mem _ hy) (htiled.freePos y hy)

/-- The headers of the two parts of a block. -/
theorem splitHeaders {lo w : ℕ} (htiled : Tiled portByteAlignment lo s.pxEnd free (x :: used))
    (hchain : Chain s.link s.pxEnd s.xStart.pxNextFreeBlock free) (hw : 0 < w) (hlt : w < x.size) :
    ∃ s₂, (s.write (some (x.addr + w))
        { s.link (x.addr + w) with xBlockSize := x.size - w }).write (some x.addr)
          { s.link x.addr with xBlockSize := w } = s₂ ∧
      (s₂.link x.addr).xBlockSize = w ∧ (s₂.link (x.addr + w)).xBlockSize = x.size - w ∧
      Chain s₂.link s₂.pxEnd s₂.xStart.pxNextFreeBlock free ∧ Keeps (cover (x :: free)) s s₂ := by
  have hin (z : Extent) (hz : z ∈ free) : z.addr ≠ x.addr + w := by
    have hzx := htiled.disjoint z hz x List.mem_cons_self
    have hz0 := htiled.freePos z hz
    simp only [Extent.Apart, Extent.stop] at hzx
    omega
  refine ⟨_, rfl, ?_, ?_, ?_, ?_⟩
  · rw [write_link_self]
  · have hne : some x.addr ≠ some (x.addr + w) := fun heq => by
      have heq' := Option.some.inj heq
      omega
    rw [write_link_of_ne hne, write_link_self]
  · refine Chain.congr hchain fun z hz => ?_
    rw [write_link_of_ne fun heq => htiled.addr_ne List.mem_cons_self hz (Option.some.inj heq),
      write_link_of_ne fun heq => hin z hz (Option.some.inj heq).symm]
  · have hmem : x.addr ∈ cover (x :: free) :=
      addr_mem_cover List.mem_cons_self (htiled.usedPos x List.mem_cons_self)
    have hmem' : x.addr + w ∈ cover (x :: free) := by
      rw [cover_cons]
      left
      simp only [Extent.cells, Extent.stop, Set.mem_Ico]
      omega
    exact ((Keeps.refl _ s).write (fun a ha => (Option.some.inj ha) ▸ hmem') _).write
      (fun a ha => (Option.some.inj ha) ▸ hmem) _

/-- The block at `x.addr` is in no list; what it does not need of it becomes free. -/
theorem splitBlock_spec {lo w : ℕ} (htiled : Tiled portByteAlignment lo s.pxEnd free (x :: used))
    (hchain : Chain s.link s.pxEnd s.xStart.pxNextFreeBlock free)
    (hsize : (s.link x.addr).xBlockSize = x.size) (hw : 0 < w) (hunits : portByteAlignment ∣ w)
    (hle : w ≤ x.size) (hlength : free.length < configTotalHeapSize) :
    ∃ s' free' y, s.splitBlock x.addr w = some s' ∧ y.addr = x.addr ∧ w ≤ y.size ∧
      y.size ≤ w + heapMinimumBlockSize ∧
      Tiled portByteAlignment lo s.pxEnd free' (y :: used) ∧
      Chain s'.link s.pxEnd s'.xStart.pxNextFreeBlock free' ∧
      (s'.link x.addr).xBlockSize = y.size ∧ Keeps (cover (x :: free)) s s' := by
  unfold splitBlock
  dsimp only
  rw [hsize]
  by_cases hsplit : x.size - w > heapMinimumBlockSize
  · have hlt : w < x.size := by omega
    have haligned : (x.addr + w) % portByteAlignment = 0 :=
      Nat.mod_eq_zero_of_dvd (Nat.dvd_add (htiled.usedUnits x List.mem_cons_self).1 hunits)
    obtain ⟨s₂, hwrites, hx₂, hrest₂, hchain₂, hkeeps₂⟩ := splitHeaders htiled hchain hw hlt
    have hparts := (htiled.split hw hlt hunits).perm (List.Perm.swap _ _ _)
    rw [← hkeeps₂.pxEnd] at hparts ⊢
    obtain ⟨s', hinsert, hnext, hkeeps⟩ := insert_tiled hparts hrest₂ hchain₂ hlength
    have hout : x.addr ∉ cover (⟨x.addr + w, x.size - w⟩ :: free) := by
      rw [cover_cons]
      rintro (hx | hx)
      · simp only [Extent.cells, Set.mem_Ico] at hx
        omega
      · exact htiled.not_mem_cover List.mem_cons_self
          (by simp only [Extent.cells, Extent.stop, Set.mem_Ico]; omega) hx
    have hsub : cover (⟨x.addr + w, x.size - w⟩ :: free) ⊆ cover (x :: free) := by
      rw [cover_cons, cover_cons]
      refine Set.union_subset_union_left _ fun a ha => ?_
      simp only [Extent.cells, Extent.stop, Set.mem_Ico] at ha ⊢
      omega
    rw [if_pos hsplit, if_pos haligned, hwrites]
    refine ⟨s', _, ⟨x.addr, w⟩, hinsert, rfl, le_rfl, Nat.le_add_right _ _, hparts.release, hnext,
      ?_, hkeeps₂.trans (hkeeps.mono hsub)⟩
    rw [hkeeps.link _ hout, hx₂]
  · rw [if_neg hsplit]
    exact ⟨s, free, x, rfl, rfl, hle, by omega, htiled, hchain, hsize, .refl _ _⟩

theorem dvd_alignDown (n : ℕ) : portByteAlignment ∣ alignDown n := Nat.dvd_sub_mod n

theorem le_blockSize (n : ℕ) : n + xHeapStructSize ≤ blockSize n := by
  unfold blockSize
  dsimp only
  split <;> omega

theorem blockSize_pos (n : ℕ) : 0 < blockSize n :=
  (Nat.add_pos_right n (by decide)).trans_le (le_blockSize n)

theorem dvd_blockSize (n : ℕ) : portByteAlignment ∣ blockSize n := by
  unfold blockSize portByteAlignment
  dsimp only
  split <;> omega

theorem and_allocatedBit_of_lt {n : ℕ} (h : n < 2 ^ 31) : n &&& 2 ^ 31 = 0 := by
  rw [Nat.and_two_pow, Nat.testBit_lt_two_pow h, Bool.toNat_false, Nat.zero_mul]

/-- The mark of an allocated block can be read and taken away. -/
theorem or_allocatedBit {n : ℕ} (h : n < 2 ^ 31) :
    (n ||| 2 ^ 31) &&& 2 ^ 31 = 2 ^ 31 ∧ (n ||| 2 ^ 31) - 2 ^ 31 = n := by
  constructor
  · rw [Nat.and_or_distrib_right, and_allocatedBit_of_lt h, Nat.and_self, Nat.zero_or]
  · have hadd := Nat.two_pow_add_eq_or_of_lt h 1
    rw [Nat.mul_one] at hadd
    rw [Nat.or_comm, ← hadd, Nat.add_sub_cancel_left]

namespace Represents

variable {ucHeap w : ℕ}

theorem start (_ : Represents ucHeap s free used) : ucHeap ≤ heapStart ucHeap := by
  simp only [heapStart, alignDown, portByteAlignment]
  omega

theorem stop (h : Represents ucHeap s free used) :
    s.pxEnd + xHeapStructSize ≤ ucHeap + configTotalHeapSize := by
  rw [h.pxEnd]
  simp only [heapEnd, alignDown, portByteAlignment, xHeapStructSize, configTotalHeapSize]
  omega

theorem ends (h : Represents ucHeap s free used) : s.pxEnd ≠ 0 := by
  rw [h.pxEnd]
  simp only [heapEnd, alignDown, portByteAlignment, xHeapStructSize, configTotalHeapSize]
  omega

theorem length_lt (h : Represents ucHeap s free used) : free.length < configTotalHeapSize := by
  have hlength := h.tiled.length_le_total
  have htotal := h.tiled.total
  have hstart := h.start
  have hstop := h.stop
  simp only [configTotalHeapSize, xHeapStructSize] at hstop ⊢
  omega

/-- A block leaves the list. -/
theorem unlink (h : Represents ucHeap s (before ++ x :: behind) used) :
    ∃ s₁, s.write (lastBlock none before)
        { s.read (lastBlock none before) with
          pxNextFreeBlock := (s.link x.addr).pxNextFreeBlock } = s₁ ∧
      (s₁.link x.addr).xBlockSize = x.size ∧
      Chain s₁.link s₁.pxEnd s₁.xStart.pxNextFreeBlock (before ++ behind) ∧
      Keeps (cover (before ++ x :: behind)) s s₁ := by
  obtain ⟨c, hchain, hc, hsize, hnext⟩ := chain_append.mp h.chain
  obtain ⟨hsepBefore, hsepBehind, hbetween⟩ := List.pairwise_append.mp h.tiled.separated
  have hdistinct : before.Pairwise fun x y => x.addr ≠ y.addr := by
    refine hsepBefore.imp fun hxy => ?_
    simp only [Extent.stop] at hxy
    omega
  have hlast (z : Extent) (hz : z ∈ x :: behind) : lastBlock none before ≠ some z.addr := by
    refine lastBlock_ne (by simp) fun y hy => ?_
    have hyz := hbetween y hy z hz
    simp only [Extent.stop] at hyz
    omega
  refine ⟨_, rfl, ?_, ?_, ?_⟩
  · rw [write_link_of_ne (hlast x List.mem_cons_self)]
    exact hsize
  · rw [write_pxEnd]
    refine chain_append.mpr ⟨_, Chain.relink hchain hdistinct _, hnext.congr fun z hz => ?_⟩
    exact write_link_of_ne (hlast z (List.mem_cons_of_mem _ hz))
  · refine (Keeps.refl _ s).write (fun a ha => ?_) _
    by_contra hout
    refine lastBlock_ne (by simp) (fun y hy heq => hout ?_) ha
    rw [← heq]
    exact addr_mem_cover (List.mem_append_left _ hy) (h.tiled.freePos y (by simp [hy]))

theorem takeBlock (h : Represents ucHeap s (before ++ x :: behind) used) (hw : 0 < w)
    (hunits : portByteAlignment ∣ w) (hle : w ≤ x.size) :
    ∃ s' free' y, s.takeBlock (lastBlock none before) x.addr w = some s' ∧ y.addr = x.addr ∧
      w ≤ y.size ∧ y.size ≤ w + heapMinimumBlockSize ∧
      Represents ucHeap s' free' (y :: used) ∧
      ∀ a, a ∉ cover (before ++ x :: behind) → s'.link a = s.link a := by
  obtain ⟨s₁, hunlink, hsize₁, hchain₁, hkeeps₁⟩ := h.unlink
  have hpxEnd₁ : s₁.pxEnd = s.pxEnd := hkeeps₁.pxEnd
  have hcover : cover (x :: (before ++ behind)) = cover (before ++ x :: behind) := by
    rw [cover_cons, cover_append, cover_append, cover_cons, Set.union_left_comm]
  have htake : Tiled portByteAlignment (heapStart ucHeap) s₁.pxEnd (before ++ behind)
      (x :: used) := by
    rw [hpxEnd₁]
    exact h.tiled.take
  have hlength : (before ++ behind).length < configTotalHeapSize := by
    have hall := h.length_lt
    simp only [List.length_append, List.length_cons] at hall ⊢
    omega
  obtain ⟨s₂, free', y, hsplit, haddr, hwy, hyw, htiled, hchain₂, hsize₂, hkeeps₂⟩ :=
    splitBlock_spec htake hchain₁ hsize₁ hw hunits hle hlength
  rw [hcover] at hkeeps₂
  have hkeeps := hkeeps₁.trans hkeeps₂
  rw [hpxEnd₁] at htiled hchain₂
  have hbit₂ : s₂.xBlockAllocatedBit = 2 ^ 31 := hkeeps.bit.trans h.bit
  have hlink (z : Extent) (hz : z ∈ used) : z.addr ∉ cover (before ++ x :: behind) ∧
      some x.addr ≠ some z.addr := by
    have hout := h.tiled.addr_not_mem_cover hz
    refine ⟨hout, fun heq => hout ?_⟩
    rw [← Option.some.inj heq]
    exact addr_mem_cover (by simp) (h.tiled.freePos x (by simp))
  have hend : s.pxEnd ∉ cover (before ++ x :: behind) ∧ some x.addr ≠ some s.pxEnd := by
    refine ⟨h.tiled.stop_not_mem, fun heq => ?_⟩
    have hlt := h.tiled.addr_lt (x := x) (by simp)
    rw [Option.some.inj heq] at hlt
    exact lt_irrefl _ hlt
  unfold HeapState.takeBlock
  dsimp only
  rw [hunlink, hsplit, Option.map_some]
  refine ⟨_, free', y, rfl, haddr, hwy, hyw, ?_, fun a ha => ?_⟩
  · refine
      { tiled := by simpa [hkeeps.pxEnd] using htiled
        chain := ?_
        allocated := List.forall_mem_cons.mpr ⟨?_, fun z hz => ?_⟩
        endLink := ?_
        bit := by simpa using hbit₂
        remaining := ?_
        pxEnd := by simpa [hkeeps.pxEnd] using h.pxEnd
        pos := h.pos }
    · dsimp only
      rw [write_pxEnd, hkeeps.pxEnd, write_some_xStart]
      refine hchain₂.congr fun z hz => write_link_of_ne fun heq => ?_
      exact htiled.addr_ne List.mem_cons_self hz (haddr.trans (Option.some.inj heq))
    · dsimp only
      rw [haddr, write_link_self, hsize₂, hbit₂]
    · dsimp only
      rw [write_link_of_ne (hlink z hz).2, hkeeps.link _ (hlink z hz).1]
      exact h.allocated z hz
    · dsimp only
      rw [write_pxEnd, hkeeps.pxEnd, write_link_of_ne hend.2, hkeeps.link _ hend.1]
      exact h.endLink
    · dsimp only
      have htotal := h.tiled.total
      have htotal' := htiled.total
      rw [total_cons] at htotal'
      rw [hkeeps.remaining, h.remaining, hsize₂]
      omega
  · dsimp only
    have hne : some x.addr ≠ some a := fun heq => ha (by
      rw [← Option.some.inj heq]
      exact addr_mem_cover (by simp) (h.tiled.freePos x (by simp)))
    rw [write_link_of_ne hne, hkeeps.link a ha]

theorem size_le (h : Represents ucHeap s free used) (hx : x ∈ free ∨ x ∈ used) :
    x.size < configTotalHeapSize := by
  have hstart := h.start
  have hstop := h.stop
  have hin : heapStart ucHeap ≤ x.addr ∧ x.stop ≤ s.pxEnd :=
    hx.elim h.tiled.within_free h.tiled.within_used
  simp only [Extent.stop, configTotalHeapSize, xHeapStructSize] at hin hstop ⊢
  omega

theorem size_le_remaining (h : Represents ucHeap s free used) (hx : x ∈ free) :
    x.size ≤ s.xFreeBytesRemaining := by
  rw [h.remaining]
  exact List.le_sum_of_mem (List.mem_map_of_mem hx)

/-- `pvPortMalloc` returns a block of its own, or `NULL` if it has none that is large enough. -/
theorem malloc (h : Represents ucHeap s free used) (xWantedSize : UInt32) :
    (∃ s' free' y, s.pvPortMalloc ucHeap xWantedSize = some (y.addr + xHeapStructSize, s') ∧
        xWantedSize ≠ 0 ∧ (∃ x ∈ free, blockSize xWantedSize.toNat ≤ x.size) ∧
        blockSize xWantedSize.toNat ≤ y.size ∧
        y.size ≤ blockSize xWantedSize.toNat + heapMinimumBlockSize ∧
        Represents ucHeap s' free' (y :: used) ∧ ∀ a, a ∉ cover free → s'.link a = s.link a) ∨
      s.pvPortMalloc ucHeap xWantedSize = some (0, s) ∧
        (xWantedSize = 0 ∨ ∀ x ∈ free, x.size < blockSize xWantedSize.toNat) := by
  have hlarge := le_blockSize xWantedSize.toNat
  have hsize := blockSize_pos xWantedSize.toNat
  unfold pvPortMalloc
  rw [if_neg h.ends]
  dsimp only
  rw [h.bit]
  by_cases htop : xWantedSize.toNat &&& 2 ^ 31 = 0
  · rw [if_pos htop]
    by_cases hzero : xWantedSize = 0
    · right
      subst hzero
      exact ⟨by simp, .inl rfl⟩
    · have hpos : 0 < xWantedSize := UInt32.pos_iff_ne_zero.mpr hzero
      have haligned : ¬ blockSize xWantedSize.toNat % portByteAlignment ≠ 0 :=
        not_not.mpr (Nat.mod_eq_zero_of_dvd (dvd_blockSize _))
      rw [if_pos hpos, if_neg haligned]
      by_cases hroom : blockSize xWantedSize.toNat ≤ s.xFreeBytesRemaining
      · rw [if_pos ⟨by omega, hroom⟩]
        rcases findFit_eq (p := none) (w := blockSize xWantedSize.toNat) h.chain h.endLink h.ends
          (fun x hx => by
            have hlo := h.start.trans (h.tiled.within_free hx).1
            have h0 := h.pos
            omega) h.length_lt with ⟨before, x, behind, rfl, hle, hfind⟩ | ⟨hall, q, hfind⟩
        · left
          obtain ⟨s', free', y, htake, haddr, hwy, hyw, hnext, hkeep⟩ :=
            h.takeBlock (by omega) (dvd_blockSize _) hle
          obtain ⟨c, hchain, hc, -⟩ := chain_append.mp h.chain
          have hread : (s.read (lastBlock none before)).pxNextFreeBlock = x.addr :=
            (Chain.read_last hchain).trans hc
          have hne : x.addr ≠ s.pxEnd := (h.tiled.addr_lt (by simp)).ne
          have haligned : (x.addr + xHeapStructSize) % portByteAlignment = 0 :=
            Nat.mod_eq_zero_of_dvd
              (Nat.dvd_add (h.tiled.freeUnits x (by simp)).1 (by decide))
          refine ⟨s', free', y, ?_, hzero, ⟨x, by simp, hle⟩, hwy, hyw, hnext, hkeep⟩
          rw [hfind]
          simp [hne, hread, htake, haligned, haddr]
        · right
          refine ⟨?_, .inr hall⟩
          rw [hfind]
          simp
      · right
        rw [if_neg fun hc => hroom hc.2]
        exact ⟨rfl, .inr fun x hx => (h.size_le_remaining hx).trans_lt (Nat.not_le.mp hroom)⟩
  · right
    rw [if_neg htop]
    refine ⟨rfl, .inr fun x hx => ?_⟩
    have hbig : 2 ^ 31 ≤ xWantedSize.toNat := by
      by_contra hlt
      exact htop (and_allocatedBit_of_lt (Nat.not_le.mp hlt))
    have hx' := h.size_le (.inl hx)
    simp only [configTotalHeapSize] at hx'
    omega

/-- `vPortFree` releases the block; its assertions hold. -/
theorem freed (h : Represents ucHeap s free (x :: used)) :
    ∃ s', s.vPortFree (x.addr + xHeapStructSize) = some s' ∧
      Represents ucHeap s' (release x free) used ∧
      ∀ a, a ∉ cover (x :: free) → s'.link a = s.link a := by
  have hlink := h.allocated x List.mem_cons_self
  have hpos := h.tiled.usedPos x List.mem_cons_self
  have hsmall : x.size < 2 ^ 31 := by
    have hsize := h.size_le (.inr List.mem_cons_self)
    simp only [configTotalHeapSize] at hsize
    omega
  obtain ⟨hand, hsub⟩ := or_allocatedBit hsmall
  let s₁ := s.write (some x.addr) ⟨0, x.size⟩
  let s₂ : HeapState := { s₁ with xFreeBytesRemaining := s.xFreeBytesRemaining + x.size }
  have hx₂ : s₂.link x.addr = ⟨0, x.size⟩ := write_link_self _ _ _
  have hchain₂ : Chain s₂.link s₂.pxEnd s₂.xStart.pxNextFreeBlock free :=
    h.chain.congr fun y hy => write_link_of_ne fun heq =>
      h.tiled.addr_ne List.mem_cons_self hy (Option.some.inj heq)
  obtain ⟨s', hinsert, hchain, hkeeps⟩ :=
    insert_tiled (s := s₂) h.tiled (by rw [hx₂]) hchain₂ h.length_lt
  have hkeep (a : ℕ) (ha : a ∉ cover (x :: free)) : s'.link a = s.link a := by
    have hne : some x.addr ≠ some a := fun heq => ha (by
      rw [← Option.some.inj heq]
      exact addr_mem_cover List.mem_cons_self hpos)
    exact (hkeeps.link a ha).trans (write_link_of_ne hne)
  refine ⟨s', ?_, ?_, hkeep⟩
  · unfold vPortFree
    rw [if_pos (by simp [xHeapStructSize]), Nat.add_sub_cancel]
    dsimp only
    rw [hlink, h.bit]
    dsimp only
    rw [hand, hsub, if_pos ⟨by decide, rfl⟩]
    exact hinsert
  · have hother (a : ℕ) (hfree : a ∉ cover free) (hx : a ∉ x.cells) : s'.link a = s.link a :=
      hkeep a (by
        rw [cover_cons]
        exact fun ha => ha.elim hx hfree)
    have hpxEnd : s'.pxEnd = s.pxEnd := hkeeps.pxEnd
    refine
      { tiled := by rw [hpxEnd]; exact h.tiled.release
        chain := by rw [hpxEnd]; exact hchain
        allocated := fun y hy => ?_
        endLink := ?_
        bit := hkeeps.bit.trans h.bit
        remaining := ?_
        pxEnd := hpxEnd.trans h.pxEnd
        pos := h.pos }
    · have hy' : y ∈ x :: used := List.mem_cons_of_mem _ hy
      have hy0 := h.tiled.usedPos y hy'
      have hxy := (List.pairwise_cons.mp h.tiled.apart).1 y hy
      rw [hother y.addr (h.tiled.addr_not_mem_cover hy') ?_]
      · exact h.allocated y hy'
      · simp only [Extent.Apart, Extent.stop, Extent.cells, Set.mem_Ico] at hxy ⊢
        omega
    · rw [hpxEnd, hother s.pxEnd h.tiled.stop_not_mem ?_]
      · exact h.endLink
      · have hin := (h.tiled.within_used (x := x) List.mem_cons_self).2
        simp only [Extent.cells, Set.mem_Ico]
        omega
    · rw [hkeeps.remaining, total_release]
      change s.xFreeBytesRemaining + x.size = _
      rw [h.remaining, Nat.add_comm]

theorem perm {used' : List Extent} (h : Represents ucHeap s free used) (hp : used.Perm used') :
    Represents ucHeap s free used' :=
  { h with
    tiled := h.tiled.perm hp
    allocated := fun x hx => h.allocated x (hp.mem_iff.mpr hx) }

/-- The application writes into a block of its own, behind the header. -/
theorem store (h : Represents ucHeap s free used) (hx : x ∈ used) (hlt : x.addr < a)
    (hstop : a < x.stop) (b : BlockLink) : Represents ucHeap (s.write (some a) b) free used := by
  have hcell : a ∈ x.cells := ⟨hlt.le, hstop⟩
  have hfree := h.tiled.not_mem_cover hx hcell
  have hlink (c : ℕ) (hc : c ≠ a) : (s.write (some a) b).link c = s.link c :=
    write_link_of_ne fun heq => hc (Option.some.inj heq).symm
  have hend : s.pxEnd ≠ a := fun heq =>
    absurd (h.tiled.within_used hx).2 (Nat.not_le.mpr (heq ▸ hstop))
  refine
    { tiled := by simpa using h.tiled
      chain := ?_
      allocated := fun y hy => ?_
      endLink := ?_
      bit := by simpa using h.bit
      remaining := by simpa using h.remaining
      pxEnd := by simpa using h.pxEnd
      pos := h.pos }
  · rw [write_pxEnd, write_some_xStart]
    refine h.chain.congr fun y hy => hlink _ fun heq => hfree ?_
    rw [← heq]
    exact addr_mem_cover hy (h.tiled.freePos y hy)
  · rw [hlink _ fun heq => ?_]
    · exact h.allocated y hy
    · by_cases hxy : x = y
      · rw [hxy] at hlt
        exact hlt.ne heq
      · have hsymm : Std.Symm Extent.Apart := ⟨fun _ _ => Extent.Apart.symm⟩
        have hapart := h.tiled.apart.forall hx hy hxy
        have hy0 := h.tiled.usedPos y hy
        simp only [Extent.Apart, Extent.stop] at hapart hstop
        omega
  · rw [write_pxEnd, hlink _ hend]
    exact h.endLink

theorem heapStart_lt (ucHeap : ℕ) : heapStart ucHeap < heapEnd ucHeap := by
  simp only [heapStart, heapEnd, alignDown, portByteAlignment, configTotalHeapSize, xHeapStructSize]
  omega

theorem prvHeapInit_eq (ucHeap : ℕ) (s : HeapState) :
    s.prvHeapInit ucHeap =
      { link := Function.update (Function.update s.link (heapEnd ucHeap) ⟨0, 0⟩) (heapStart ucHeap)
          ⟨heapEnd ucHeap, heapEnd ucHeap - heapStart ucHeap⟩
        xStart := ⟨heapStart ucHeap, 0⟩
        pxEnd := heapEnd ucHeap
        xFreeBytesRemaining := heapEnd ucHeap - heapStart ucHeap
        xMinimumEverFreeBytesRemaining := heapEnd ucHeap - heapStart ucHeap
        xBlockAllocatedBit := 2 ^ 31 } := by
  have hstart : (if ucHeap % portByteAlignment ≠ 0 then alignDown (ucHeap + (portByteAlignment - 1))
      else ucHeap) = heapStart ucHeap := by
    by_cases haligned : ucHeap % portByteAlignment = 0
    · rw [if_neg (not_not.mpr haligned)]
      simp only [heapStart, alignDown, portByteAlignment] at haligned ⊢
      omega
    · rw [if_pos haligned]
      rfl
  have hend : heapStart ucHeap + (configTotalHeapSize - (heapStart ucHeap - ucHeap)) -
      xHeapStructSize = ucHeap + configTotalHeapSize - xHeapStructSize := by
    simp only [heapStart, alignDown, portByteAlignment, configTotalHeapSize, xHeapStructSize]
    omega
  unfold prvHeapInit
  dsimp only
  rw [hstart, hend]
  rfl

/-- The heap after `prvHeapInit`. -/
theorem initial (hucHeap : 0 < ucHeap) (s : HeapState) :
    Represents ucHeap (s.prvHeapInit ucHeap)
      [⟨heapStart ucHeap, heapEnd ucHeap - heapStart ucHeap⟩] [] := by
  have hlt := heapStart_lt ucHeap
  rw [prvHeapInit_eq]
  refine
    { tiled := Tiled.single hlt (dvd_alignDown _) (dvd_alignDown _)
      chain := ⟨rfl, ?_, ?_⟩
      allocated := by simp
      endLink := ?_
      bit := rfl
      remaining := by simp [total]
      pxEnd := rfl
      pos := hucHeap }
  · dsimp only
    rw [Function.update_self]
  · dsimp only
    rw [Function.update_self]
    rfl
  · dsimp only
    rw [Function.update_of_ne hlt.ne', Function.update_self]

end Represents

end HeapState

end PeripheralTester.Firmware
