import YunbaIot.BigEndian
import YunbaIot.Memory

/-! heap_4.c over the bytes of the RAM. Two loops follow links from block to block: none stands for a
loop that does not end. -/
namespace YunbaIot.Heap4

def word : Nat := 2 ^ 32

def portByteAlignment : Nat := 8
def portByteAlignmentMask : Nat := 0x0007
def sizeofXBlockLink : Nat := 8

/- x & ~mask in 32 bits -/
def andNot (x mask : Nat) : Nat := x &&& (word - 1 - mask)

def heapStructSize : Nat := andNot (sizeofXBlockLink + (portByteAlignment - 1)) portByteAlignmentMask
def heapMinimumBlockSize : Nat := heapStructSize * 2

/- The addresses of _heap_start and of xStart, which stands below the heap -/
structure Linker where
  heapStart : Nat
  xStart : Nat
  xStartPos : 0 < xStart
  xStartBelow : xStart + 8 ≤ heapStart
  room : heapStart + 24 ≤ 0x40000000

def Linker.configTotalHeapSize (l : Linker) : Nat := 0x40000000 - l.heapStart
def Linker.heapAdjustedHeapSize (l : Linker) : Nat := l.configTotalHeapSize - portByteAlignment

/- The static variables and the memory -/
structure Heap where
  mem : Memory
  pxEnd : Nat
  xTotalHeapSize : Nat
  xFreeBytesRemaining : Nat
  xBlockAllocatedBit : Nat

/-! The members of the xBlockLink at an address -/

def load (m : Memory) (a : Nat) : Nat := BigEndian.value (Memory.slice m.byte a 4).reverse
def store (m : Memory) (a v : Nat) : Memory := m.store a (BigEndian.encode 4 v).reverse

def pxNextFreeBlock (m : Memory) (a : Nat) : Nat := load m a
def xBlockSize (m : Memory) (a : Nat) : Nat := load m (a + 4)
def setNext (m : Memory) (a v : Nat) : Memory := store m a v
def setSize (m : Memory) (a v : Nat) : Memory := store m (a + 4) v

def xPortWantedSizeAlign (xWantedSize : Nat) : Nat :=
  let xWantedSize := (xWantedSize + heapStructSize) % word
  if xWantedSize &&& portByteAlignmentMask ≠ 0 then
    (xWantedSize + (portByteAlignment - (xWantedSize &&& portByteAlignmentMask))) % word
  else xWantedSize

def prvHeapInit (l : Linker) (h : Heap) : Heap :=
  let xFreeBytesRemaining := andNot l.heapAdjustedHeapSize portByteAlignmentMask
  let pucAlignedHeap := andNot (l.heapStart + portByteAlignment) portByteAlignmentMask
  let m := setNext h.mem l.xStart pucAlignedHeap
  let m := setSize m l.xStart 0
  let pxEnd := pucAlignedHeap + xFreeBytesRemaining - heapStructSize
  let m := setSize m pxEnd 0
  let m := setNext m pxEnd 0
  let m := setSize m pucAlignedHeap (xFreeBytesRemaining - heapStructSize)
  let m := setNext m pucAlignedHeap pxEnd
  { mem := m
    pxEnd
    xTotalHeapSize := xFreeBytesRemaining
    xFreeBytesRemaining := xFreeBytesRemaining - heapStructSize
    xBlockAllocatedBit := 1 <<< (4 * 8 - 1) }

/- The for loop of prvInsertBlockIntoFreeList -/
def iterate (m : Memory) (pxBlockToInsert : Nat) : Nat → Nat → Option Nat
  | 0, _ => none
  | steps+1, pxIterator =>
    if pxNextFreeBlock m pxIterator < pxBlockToInsert then
      iterate m pxBlockToInsert steps (pxNextFreeBlock m pxIterator)
    else some pxIterator

/- The block being inserted and the block it is being inserted after -/
def mergeAfter (pxIterator pxBlockToInsert : Nat) (m : Memory) : Memory × Nat :=
  if (pxIterator + xBlockSize m pxIterator) % word = pxBlockToInsert then
    (setSize m pxIterator ((xBlockSize m pxIterator + xBlockSize m pxBlockToInsert) % word),pxIterator)
  else (m,pxBlockToInsert)

/- The block being inserted and the block it is being inserted before -/
def mergeBefore (pxEnd pxIterator pxBlockToInsert : Nat) (m : Memory) : Memory :=
  let next := pxNextFreeBlock m pxIterator
  if (pxBlockToInsert + xBlockSize m pxBlockToInsert) % word = next then
    if next ≠ pxEnd then
      let m := setSize m pxBlockToInsert ((xBlockSize m pxBlockToInsert + xBlockSize m next) % word)
      setNext m pxBlockToInsert (pxNextFreeBlock m next)
    else setNext m pxBlockToInsert pxEnd
  else setNext m pxBlockToInsert next

/- The block is merged with its neighbours or linked in between them. -/
def linkIn (pxEnd pxIterator pxBlockToInsert : Nat) (m : Memory) : Memory :=
  let (m,pxBlockToInsert) := mergeAfter pxIterator pxBlockToInsert m
  let m := mergeBefore pxEnd pxIterator pxBlockToInsert m
  if pxIterator ≠ pxBlockToInsert then setNext m pxIterator pxBlockToInsert else m

def prvInsertBlockIntoFreeList (l : Linker) (pxBlockToInsert : Nat) (h : Heap) : Option Heap := do
  let pxIterator ← iterate h.mem pxBlockToInsert word l.xStart
  some { h with mem := linkIn h.pxEnd pxIterator pxBlockToInsert h.mem }

/- The while loop of pvPortMalloc -/
def seek (m : Memory) (xWantedSize : Nat) : Nat → Nat → Nat → Option (Nat × Nat)
  | 0, _, _ => none
  | steps+1, pxPreviousBlock, pxBlock =>
    if xBlockSize m pxBlock < xWantedSize ∧ pxNextFreeBlock m pxBlock ≠ 0 then
      seek m xWantedSize steps pxBlock (pxNextFreeBlock m pxBlock)
    else some (pxPreviousBlock,pxBlock)

/- What is left of the block behind the bytes wanted becomes a block of its own. -/
def split (l : Linker) (pxBlock xWantedSize : Nat) (h : Heap) : Option Heap :=
  let left := (xBlockSize h.mem pxBlock + word - xWantedSize) % word
  if heapMinimumBlockSize < left then
    let pxNewBlockLink := (pxBlock + xWantedSize) % word
    let m := setSize h.mem pxNewBlockLink left
    let m := setSize m pxBlock xWantedSize
    prvInsertBlockIntoFreeList l pxNewBlockLink { h with mem := m }
  else some h

/- The block found is taken out of the list and goes to the application. -/
def allocate (l : Linker) (xWantedSize pxPreviousBlock pxBlock : Nat) (h : Heap) : Option (Nat × Heap) := do
  let pvReturn := (pxNextFreeBlock h.mem pxPreviousBlock + heapStructSize) % word
  let m := setNext h.mem pxPreviousBlock (pxNextFreeBlock h.mem pxBlock)
  let h ← split l pxBlock xWantedSize { h with mem := m }
  let size := xBlockSize h.mem pxBlock
  let m := setSize h.mem pxBlock (size ||| h.xBlockAllocatedBit)
  let m := setNext m pxBlock 0
  some (pvReturn,{ h with mem := m, xFreeBytesRemaining := (h.xFreeBytesRemaining + word - size) % word })

def pvPortMalloc (l : Linker) (xWantedSize : Nat) (h : Heap) : Option (Nat × Heap) :=
  let h := if h.pxEnd = 0 then prvHeapInit l h else h
  if xWantedSize &&& h.xBlockAllocatedBit = 0 then
    let xWantedSize := if 0 < xWantedSize then xPortWantedSizeAlign xWantedSize else xWantedSize
    if 0 < xWantedSize ∧ xWantedSize ≤ h.xFreeBytesRemaining then do
      let (pxPreviousBlock,pxBlock) ← seek h.mem xWantedSize word l.xStart (pxNextFreeBlock h.mem l.xStart)
      if pxBlock ≠ h.pxEnd then allocate l xWantedSize pxPreviousBlock pxBlock h else some (0,h)
    else some (0,h)
  else some (0,h)

def vPortFree (l : Linker) (pv : Nat) (h : Heap) : Option Heap :=
  if pv ≠ 0 then
    let pxLink := (pv + word - heapStructSize) % word
    if xBlockSize h.mem pxLink &&& h.xBlockAllocatedBit ≠ 0 then
      if pxNextFreeBlock h.mem pxLink = 0 then
        let m := setSize h.mem pxLink (andNot (xBlockSize h.mem pxLink) h.xBlockAllocatedBit)
        let xFreeBytesRemaining := (h.xFreeBytesRemaining + xBlockSize m pxLink) % word
        prvInsertBlockIntoFreeList l pxLink { h with mem := m, xFreeBytesRemaining }
      else some h
    else some h
  else some h

def memset (m : Memory) (s : Nat) (c : UInt8) (n : Nat) : Memory := m.store s (List.replicate n c)
def memcpy (m : Memory) (dest src n : Nat) : Memory := m.store dest (Memory.slice m.byte src n)

def pvPortCalloc (l : Linker) (count size : Nat) (h : Heap) : Option (Nat × Heap) := do
  let (p,h) ← pvPortMalloc l (count * size % word) h
  if p ≠ 0 then some (p,{ h with mem := memset h.mem p 0 (count * size % word) }) else some (p,h)

def pvPortZalloc (l : Linker) (size : Nat) (h : Heap) : Option (Nat × Heap) := pvPortCalloc l 1 size h

def pvPortRealloc (l : Linker) (mem newsize : Nat) (h : Heap) : Option (Nat × Heap) :=
  if newsize = 0 then do
    let h ← vPortFree l mem h
    some (0,h)
  else do
    let (p,h) ← pvPortMalloc l newsize h
    if p ≠ 0 then
      if mem ≠ 0 then
        let h ← vPortFree l mem { h with mem := memcpy h.mem p mem newsize }
        some (p,h)
      else some (p,h)
    else some (p,h)

def xPortGetFreeHeapSize (h : Heap) : Nat := h.xFreeBytesRemaining

end YunbaIot.Heap4
