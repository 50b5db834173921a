import PeripheralTester.Lib.Run

/-! # The kernel's heap

`heap_4.c` on its block headers.  Every block of `ucHeap` begins with a `BlockLink_t` of eight
bytes; the free ones are linked in the order of their addresses, from `xStart` to `pxEnd`, and the
top bit of a size marks a block that belongs to the application.  Tasks, queues and semaphores are
made from this heap.

`HeapUse` is the heap together with those who use it: what they were given and have not freed is
theirs, and they may write anything into it.  The scheduler is suspended in both functions, so a
call is one step. -/

namespace PeripheralTester.Firmware

/-- `size_t` is 32 bits wide; no sum of sizes below comes near to that. -/
structure BlockLink where
  /-- `NULL` is 0. -/
  pxNextFreeBlock : ℕ
  xBlockSize : ℕ
deriving DecidableEq, Repr

structure HeapState where
  /-- The eight bytes at each address; the addresses used are aligned, so none overlap. -/
  link : ℕ → BlockLink
  xStart : BlockLink
  pxEnd : ℕ
  xFreeBytesRemaining : ℕ
  xMinimumEverFreeBytesRemaining : ℕ
  xBlockAllocatedBit : ℕ

def configTotalHeapSize : ℕ := 65536

def portByteAlignment : ℕ := 8

/-- `sizeof( BlockLink_t )`, a multiple of `portBYTE_ALIGNMENT` already. -/
def xHeapStructSize : ℕ := 8

def heapMinimumBlockSize : ℕ := 2 * xHeapStructSize

/-- `n & ~portBYTE_ALIGNMENT_MASK`. -/
def alignDown (n : ℕ) : ℕ := n - n % portByteAlignment

namespace HeapState

/-- A `BlockLink_t *`; `none` is `&xStart`. -/
def read (s : HeapState) : Option ℕ → BlockLink
  | none => s.xStart
  | some a => s.link a

def write (s : HeapState) (p : Option ℕ) (b : BlockLink) : HeapState :=
  match p with
  | none => { s with xStart := b }
  | some a => { s with link := Function.update s.link a b }

/-- The loop of `prvInsertBlockIntoFreeList`, for as many rounds as there may be. -/
def findPlace (s : HeapState) (pxBlockToInsert : ℕ) : ℕ → Option ℕ → Option (Option ℕ)
  | 0, _ => none
  | n + 1, pxIterator =>
      if (s.read pxIterator).pxNextFreeBlock < pxBlockToInsert then
        s.findPlace pxBlockToInsert n (some (s.read pxIterator).pxNextFreeBlock)
      else some pxIterator

/-- The block before `pxBlockToInsert` grows if they touch; the block that is inserted then. -/
def mergeBefore (s : HeapState) (pxIterator : Option ℕ) (pxBlockToInsert : ℕ) : HeapState × ℕ :=
  match pxIterator with
  -- `xStart` is not in `ucHeap`
  | none => (s, pxBlockToInsert)
  | some a =>
      if a + (s.link a).xBlockSize = pxBlockToInsert then
        (s.write pxIterator { s.link a with
          xBlockSize := (s.link a).xBlockSize + (s.link pxBlockToInsert).xBlockSize }, a)
      else (s, pxBlockToInsert)

def mergeBehind (s : HeapState) (pxIterator : Option ℕ) (pxBlockToInsert : ℕ) : HeapState :=
  let next := (s.read pxIterator).pxNextFreeBlock
  let block := s.link pxBlockToInsert
  if pxBlockToInsert + block.xBlockSize = next then
    if next ≠ s.pxEnd then
      s.write (some pxBlockToInsert)
        ⟨(s.link next).pxNextFreeBlock, block.xBlockSize + (s.link next).xBlockSize⟩
    else s.write (some pxBlockToInsert) { block with pxNextFreeBlock := s.pxEnd }
  else s.write (some pxBlockToInsert) { block with pxNextFreeBlock := next }

def prvInsertBlockIntoFreeList (s : HeapState) (pxBlockToInsert : ℕ) : Option HeapState :=
  (s.findPlace pxBlockToInsert configTotalHeapSize none).map fun pxIterator =>
    let (s, pxBlockToInsert) := s.mergeBefore pxIterator pxBlockToInsert
    let s := s.mergeBehind pxIterator pxBlockToInsert
    -- a gap that is plugged has its link already
    if pxIterator ≠ some pxBlockToInsert then
      s.write pxIterator { s.read pxIterator with pxNextFreeBlock := pxBlockToInsert }
    else s

/-- `ucHeap` is its address. -/
def prvHeapInit (ucHeap : ℕ) (s : HeapState) : HeapState :=
  let pucAlignedHeap :=
    if ucHeap % portByteAlignment ≠ 0 then alignDown (ucHeap + (portByteAlignment - 1)) else ucHeap
  let xTotalHeapSize := configTotalHeapSize - (pucAlignedHeap - ucHeap)
  let pxEnd := alignDown (pucAlignedHeap + xTotalHeapSize - xHeapStructSize)
  let size := pxEnd - pucAlignedHeap
  let s := s.write none ⟨pucAlignedHeap, 0⟩
  let s := s.write (some pxEnd) ⟨0, 0⟩
  let s := s.write (some pucAlignedHeap) ⟨pxEnd, size⟩
  { s with
    pxEnd := pxEnd
    xMinimumEverFreeBytesRemaining := size
    xFreeBytesRemaining := size
    xBlockAllocatedBit := 2 ^ 31 }

/-- The size of the block for `xWantedSize` bytes. -/
def blockSize (xWantedSize : ℕ) : ℕ :=
  let size := xWantedSize + xHeapStructSize
  if size % portByteAlignment ≠ 0 then
    size + (portByteAlignment - size % portByteAlignment)
  else size

/-- The search of `pvPortMalloc`: the block, and the one before it. -/
def findFit (s : HeapState) (xWantedSize : ℕ) : ℕ → Option ℕ → ℕ → Option (Option ℕ × ℕ)
  | 0, _, _ => none
  | n + 1, pxPreviousBlock, pxBlock =>
      if (s.link pxBlock).xBlockSize < xWantedSize ∧ (s.link pxBlock).pxNextFreeBlock ≠ 0 then
        s.findFit xWantedSize n (some pxBlock) (s.link pxBlock).pxNextFreeBlock
      else some (pxPreviousBlock, pxBlock)

/-- A block that is larger than required is split into two. -/
def splitBlock (s : HeapState) (pxBlock xWantedSize : ℕ) : Option HeapState :=
  let block := s.link pxBlock
  if block.xBlockSize - xWantedSize > heapMinimumBlockSize then
    let pxNewBlockLink := pxBlock + xWantedSize
    if pxNewBlockLink % portByteAlignment = 0 then
      let s := s.write (some pxNewBlockLink)
        { s.link pxNewBlockLink with xBlockSize := block.xBlockSize - xWantedSize }
      let s := s.write (some pxBlock) { block with xBlockSize := xWantedSize }
      s.prvInsertBlockIntoFreeList pxNewBlockLink
    -- configASSERT
    else none
  else some s

/-- The block is taken out of the list and becomes the application's. -/
def takeBlock (s : HeapState) (pxPreviousBlock : Option ℕ) (pxBlock xWantedSize : ℕ) :
    Option HeapState :=
  let s := s.write pxPreviousBlock
    { s.read pxPreviousBlock with pxNextFreeBlock := (s.link pxBlock).pxNextFreeBlock }
  (s.splitBlock pxBlock xWantedSize).map fun s =>
    let block := s.link pxBlock
    let remaining := s.xFreeBytesRemaining - block.xBlockSize
    let s := s.write (some pxBlock) ⟨0, block.xBlockSize ||| s.xBlockAllocatedBit⟩
    { s with
      xFreeBytesRemaining := remaining
      xMinimumEverFreeBytesRemaining :=
        if remaining < s.xMinimumEverFreeBytesRemaining then remaining
        else s.xMinimumEverFreeBytesRemaining }

/-- What is returned, and the heap then; `none` is an assertion that fails. -/
def pvPortMalloc (ucHeap : ℕ) (s : HeapState) (xWantedSize : UInt32) : Option (ℕ × HeapState) :=
  let s := if s.pxEnd = 0 then s.prvHeapInit ucHeap else s
  if xWantedSize.toNat &&& s.xBlockAllocatedBit = 0 then
    let size := if 0 < xWantedSize then blockSize xWantedSize.toNat else 0
    -- configASSERT
    if size % portByteAlignment ≠ 0 then none
    else if 0 < size ∧ size ≤ s.xFreeBytesRemaining then do
      let (pxPreviousBlock, pxBlock) ←
        s.findFit size configTotalHeapSize none s.xStart.pxNextFreeBlock
      if pxBlock ≠ s.pxEnd then
        let pvReturn := (s.read pxPreviousBlock).pxNextFreeBlock + xHeapStructSize
        let s ← s.takeBlock pxPreviousBlock pxBlock size
        if pvReturn % portByteAlignment = 0 then some (pvReturn, s) else none
      else some (0, s)
    else some (0, s)
  else some (0, s)

def vPortFree (s : HeapState) (pv : ℕ) : Option HeapState :=
  if pv ≠ 0 then
    let pxLink := pv - xHeapStructSize
    let block := s.link pxLink
    if block.xBlockSize &&& s.xBlockAllocatedBit ≠ 0 ∧ block.pxNextFreeBlock = 0 then
      let size := block.xBlockSize - (block.xBlockSize &&& s.xBlockAllocatedBit)
      let s := s.write (some pxLink) { block with xBlockSize := size }
      { s with xFreeBytesRemaining := s.xFreeBytesRemaining + size }.prvInsertBlockIntoFreeList
        pxLink
    -- configASSERT
    else none
  else some s

end HeapState

/-! ### Those who use it -/

structure Allocation where
  pv : ℕ
  xWantedSize : ℕ
deriving DecidableEq, Repr

structure HeapUse where
  heap : HeapState
  /-- What was returned and is not freed yet. -/
  owned : List Allocation

inductive HeapCall where
  | malloc (xWantedSize : UInt32)
  | free (pv : ℕ)
  /-- Eight bytes are written at `a`. -/
  | store (a : ℕ) (b : BlockLink)
deriving DecidableEq, Repr

namespace HeapUse

def step (ucHeap : ℕ) (s : HeapUse) : HeapCall → Option HeapUse
  | .malloc xWantedSize =>
      (s.heap.pvPortMalloc ucHeap xWantedSize).map fun (pv, heap) =>
        if pv = 0 then { s with heap := heap }
        else ⟨heap, ⟨pv, xWantedSize.toNat⟩ :: s.owned⟩
  | .free pv =>
      (s.heap.vPortFree pv).map fun heap => ⟨heap, s.owned.eraseP fun o => o.pv = pv⟩
  | .store a b => some { s with heap := s.heap.write (some a) b }

/-- Before the first call, whatever `ucHeap` holds then. -/
def init (link : ℕ → BlockLink) : HeapUse where
  heap :=
    { link := link
      xStart := ⟨0, 0⟩
      pxEnd := 0
      xFreeBytesRemaining := 0
      xMinimumEverFreeBytesRemaining := 0
      xBlockAllocatedBit := 0 }
  owned := []

/-- Nobody frees or writes what is not theirs. -/
def Lawful (s : HeapUse) : HeapCall → Prop
  | .malloc _ => True
  | .free pv => pv = 0 ∨ ∃ o ∈ s.owned, o.pv = pv
  | .store a _ => portByteAlignment ∣ a ∧ ∃ o ∈ s.owned, o.pv ≤ a ∧ a < o.pv + o.xWantedSize

instance (s : HeapUse) : (c : HeapCall) → Decidable (s.Lawful c)
  | .malloc _ => isTrue trivial
  | .free pv => inferInstanceAs (Decidable (pv = 0 ∨ ∃ o ∈ s.owned, o.pv = pv))
  | .store a _ => inferInstanceAs (Decidable (portByteAlignment ∣ a ∧
      ∃ o ∈ s.owned, o.pv ≤ a ∧ a < o.pv + o.xWantedSize))

end HeapUse

end PeripheralTester.Firmware
