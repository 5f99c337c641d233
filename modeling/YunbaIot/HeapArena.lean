import YunbaIot.Arena
import YunbaIot.HeapInsert

/-! The heap in memory represents an arena: pvPortMalloc lends from it and vPortFree gives back. -/
namespace YunbaIot.Heap4
open FreeList

/- The place of pxEnd -/
def Linker.fin (l : Linker) : Nat := l.base + andNot l.heapAdjustedHeapSize portByteAlignmentMask - heapStructSize

theorem heapStructSizeEq : heapStructSize = 8 := by decide
theorem heapMinimumBlockSizeEq : heapMinimumBlockSize = 16 := by decide

theorem bounds (l : Linker) : l.base + 8 ≤ l.fin ∧ l.fin + 8 ≤ 0x40000000 ∧ 8 ∣ l.base ∧ 8 ∣ l.fin := by
  have room := l.room
  unfold Linker.fin Linker.base Linker.heapAdjustedHeapSize Linker.configTotalHeapSize portByteAlignment
  rw [heapStructSizeEq, andNotMask, andNotMask]
  omega

abbrev Lendable (l : Linker) := Arena l.base l.fin 8

structure Represents (l : Linker) (h : Heap) (a : Lendable l) : Prop where
  pxEnd : h.pxEnd = l.fin
  bit : h.xBlockAllocatedBit = 2 ^ 31
  remaining : h.xFreeBytesRemaining = total a.free
  chain : Chain h.mem h.pxEnd l.xStart a.free
  start : xBlockSize h.mem l.xStart = 0
  endSize : xBlockSize h.mem l.fin = 0
  endNext : pxNextFreeBlock h.mem l.fin = 0
  live : ∀ b ∈ a.live, pxNextFreeBlock h.mem b.addr = 0 ∧ xBlockSize h.mem b.addr = 2 ^ 31 + b.size

/- The bytes that are the allocator's own while some blocks are lent -/
def Private (l : Linker) (a : Lendable l) (x : Nat) : Prop :=
  Header l.xStart x ∨ Covers a.free x ∨ (∃ b ∈ a.live, Header b.addr x) ∨ Header l.fin x

section Blocks
variable {l : Linker} (a : Lendable l)

theorem freeFits {b : Span} (free : b ∈ a.free) : Fits l l.fin b := by
  obtain ⟨low,some,high⟩ := a.freeWithin free
  obtain ⟨place,whole⟩ := a.grained b (Or.inl free)
  exact ⟨Or.inr ⟨place,low⟩,low,high,by omega⟩

theorem liveFits {b : Span} (lent : b ∈ a.live) : Fits l l.fin b := by
  obtain ⟨low,some,high⟩ := a.within b lent
  obtain ⟨place,whole⟩ := a.grained b (Or.inr lent)
  exact ⟨Or.inr ⟨place,low⟩,low,high,by omega⟩

theorem fitsHeader {b : Span} (fits : Fits l l.fin b) {x : Nat} (header : Header b.addr x) : b.Has x := by
  have := fits.some
  unfold Header at header
  unfold Span.Has Span.fin
  omega

theorem shortFree : a.free.length < word := by
  have count := lengthTotal fun b free => (a.freeWithin free).2.1
  have sum := a.accounts
  have := (bounds l).2.1
  unfold word
  omega

theorem totalBelow : total a.free < 2 ^ 31 := by
  have sum := a.accounts
  have := (bounds l).2.1
  omega

end Blocks

/- A heap that agrees on the allocator's own bytes -/
theorem representsCongr {l : Linker} {h : Heap} {a : Lendable l} (rep : Represents l h a) {m : Memory}
    (same : ∀ x, Private l a x → m.byte x = h.mem.byte x) : Represents l { h with mem := m } a := by
  have header : ∀ p, (∀ x, Header p x → Private l a x) →
      pxNextFreeBlock m p = pxNextFreeBlock h.mem p ∧ xBlockSize m p = xBlockSize h.mem p := by
    intro p own
    exact ⟨loadCongr fun i low high => same i (own i ⟨low,by omega⟩),
      loadCongr fun i low high => same i (own i ⟨by omega,by omega⟩)⟩
  have start := header l.xStart fun x here => Or.inl here
  have fin := header l.fin fun x here => Or.inr (Or.inr (Or.inr here))
  have free := fun b (inside : b ∈ a.free) => header b.addr fun x here =>
    Or.inr (Or.inl ⟨b,inside,fitsHeader (freeFits a inside) here⟩)
  have live := fun b (inside : b ∈ a.live) => header b.addr fun x here => Or.inr (Or.inr (Or.inl ⟨b,inside,here⟩))
  exact {
    pxEnd := rep.pxEnd
    bit := rep.bit
    remaining := rep.remaining
    chain := chainFrom rep.chain (start.1.trans (chainNext rep.chain)) free
    start := start.2.trans rep.start
    endSize := fin.2.trans rep.endSize
    endNext := fin.1.trans rep.endNext
    live := fun b inside => ⟨(live b inside).1.trans (rep.live b inside).1,(live b inside).2.trans (rep.live b inside).2⟩ }

/- A header apart from those that may have been written -/
theorem linksKept {l : Linker} {blocks : List Span} {m m' : Memory} (kept : Kept (Links l blocks) m m')
    (nodes : ∀ c ∈ blocks, Node l c.addr) {q : Nat} (node : Node l q) (start : q ≠ l.xStart)
    (apart : ∀ c ∈ blocks, q ≠ c.addr) :
    pxNextFreeBlock m' q = pxNextFreeBlock m q ∧ xBlockSize m' q = xBlockSize m q := by
  have outside : ∀ x, Header q x → m'.byte x = m.byte x := by
    intro x here
    refine kept x ?_
    unfold Header at here
    rintro (first | ⟨c,inside,there⟩)
    · have := nodesApart node (Or.inl rfl : Node l l.xStart)
      omega
    · have := nodesApart node (nodes c inside)
      have := apart c inside
      unfold Header at there
      omega
  exact ⟨loadCongr fun i low high => outside i ⟨low,by omega⟩,loadCongr fun i low high => outside i ⟨by omega,by omega⟩⟩

theorem startKept {l : Linker} {blocks : List Span} {m m' : Memory} (kept : Kept (Links l blocks) m m')
    (above : ∀ c ∈ blocks, l.base ≤ c.addr) : xBlockSize m' l.xStart = xBlockSize m l.xStart := by
  refine loadCongr fun x low high => kept x ?_
  rintro (first | ⟨c,inside,there⟩)
  · omega
  · have := baseAbove l
    have := above c inside
    unfold Header at there
    omega

/-! vPortFree -/

theorem allocatedBit {n : Nat} (small : n < 2 ^ 31) : (2 ^ 31 + n) &&& 2 ^ 31 = 2 ^ 31 := by
  have bit := BigEndian.masked (2 ^ 31 + n) 31 1
  rw [show (2 ^ 1 - 1) <<< 31 = 2 ^ 31 by decide] at bit
  omega

theorem clearedBit {n : Nat} (small : n < 2 ^ 31) : andNot (2 ^ 31 + n) (2 ^ 31) = n := by
  have low := BigEndian.masked (2 ^ 31 + n) 0 31
  rw [show (2 ^ 31 - 1) <<< 0 = word - 1 - 2 ^ 31 by decide] at low
  unfold andNot
  omega

section Free
variable {l : Linker} {h : Heap} {a : Lendable l} {b : Span}

/- The heap while a lent block is on its way back to the list -/
def handed (h : Heap) (b : Span) : Heap :=
  { h with mem := setSize h.mem b.addr b.size, xFreeBytesRemaining := h.xFreeBytesRemaining + b.size }

theorem handedInsert (rep : Represents l h a) (lent : b ∈ a.live) :
    ∃ m, prvInsertBlockIntoFreeList l b.addr (handed h b) = some { handed h b with mem := m } ∧
      Chain m l.fin l.xStart (insertSpan b a.free) ∧ Kept (Links l (b :: a.free)) h.mem m := by
  have fits := liveFits a lent
  have below := fits.below
  have bound := (bounds l).2.1
  have small : b.size < word := by
    unfold Span.fin word at *
    omega
  have apart : ∀ c ∈ a.free, b.Apart c := fun c free => Span.apartSymm (a.freeLive free lent)
  have other : ∀ c ∈ a.free, c.addr ≠ b.addr := by
    intro c free
    have := apart c free
    have := fits.some
    have := (freeFits a free).some
    unfold Span.Apart Span.fin at *
    omega
  have chain : Chain (setSize h.mem b.addr b.size) l.fin l.xStart a.free := by
    have old := rep.chain
    rw [rep.pxEnd] at old
    refine chainFrom old ?_ fun c free => ⟨nextSetSize fits.node (freeFits a free).node h.mem _,?_⟩
    · rw [nextSetSize fits.node (Or.inl rfl), chainNext old]
    · rw [sizeSetSize fits.node (freeFits a free).node h.mem small, if_neg (other c free)]
  have start : xBlockSize (setSize h.mem b.addr b.size) l.xStart = 0 := by
    rw [sizeSetSize fits.node (Or.inl rfl) h.mem small, if_neg (startApart fits), rep.start]
  have size : xBlockSize (setSize h.mem b.addr b.size) b.addr = b.size := by
    rw [sizeSetSize fits.node fits.node h.mem small, if_pos rfl]
  obtain ⟨m,done,linked,kept⟩ := prvInsert (h := handed h b) rep.pxEnd chain start size fits
    (fun c free => freeFits a free) a.gapped apart (by omega) (shortFree a)
  refine ⟨m,done,linked,keptTrans (keptSetSize (fun x here => ?_) h.mem _) kept⟩
  exact Or.inr ⟨b,List.mem_cons_self ..,here⟩

/- A block that is given back -/
theorem vPortFreeLive (rep : Represents l h a) (lent : b ∈ a.live) :
    ∃ h', vPortFree l (b.addr + 8) h = some h' ∧ Represents l h' (a.release lent) ∧
      Kept (Links l (b :: a.free)) h.mem h'.mem := by
  obtain ⟨m,done,linked,kept⟩ := handedInsert rep lent
  have fits := liveFits a lent
  have below := fits.below
  have bound := (bounds l).2.1
  have small : b.size < 2 ^ 31 := by
    unfold Span.fin at below
    omega
  have sum : total a.free + b.size < 2 ^ 31 := by
    have := a.accounts
    have := totalMem lent
    omega
  obtain ⟨next,size⟩ := rep.live b lent
  refine ⟨{ handed h b with mem := m },?_,?_,kept⟩
  · have link : (b.addr + 8 + word - heapStructSize) % word = b.addr := by
      rw [heapStructSizeEq]
      unfold Span.fin word at *
      omega
    have sizes : xBlockSize (setSize h.mem b.addr b.size) b.addr = b.size := by
      rw [sizeSetSize fits.node fits.node h.mem (by unfold word; omega), if_pos rfl]
    unfold vPortFree
    dsimp only
    rw [if_pos (Nat.succ_ne_zero _), link, size, rep.bit, allocatedBit small, if_pos (by decide), if_pos next,
      clearedBit small, rep.remaining, sizes, Nat.mod_eq_of_lt (by unfold word; omega), ← rep.remaining, ← rep.bit]
    exact done
  · have nodes : ∀ c ∈ b :: a.free, Fits l l.fin c := List.forall_mem_cons.mpr ⟨fits,fun c free => freeFits a free⟩
    have node := fun c inside => (nodes c inside).node
    have fin := linksKept kept node (Or.inr ⟨(bounds l).2.2.2,by have := (bounds l).1; omega⟩)
      (by have := baseAbove l; have := (bounds l).1; omega) (fun c inside same => by
        have := (nodes c inside).below
        have := (nodes c inside).some
        unfold Span.fin at *
        omega)
    have live : ∀ c ∈ a.live.erase b, pxNextFreeBlock m c.addr = pxNextFreeBlock h.mem c.addr ∧
        xBlockSize m c.addr = xBlockSize h.mem c.addr := by
      intro c inside
      have lent' := List.mem_of_mem_erase inside
      have mine := liveFits a lent'
      refine linksKept kept node mine.node (startApart mine).symm fun d there same => ?_
      have apart : c.Apart d := by
        rcases List.mem_cons.mp there with rfl | free
        · exact Span.apartSymm (List.rel_of_pairwise_cons
            ((List.perm_cons_erase lent).pairwise a.apart fun h => Span.apartSymm h) inside)
        · exact Span.apartSymm (a.freeLive free lent')
      have := mine.some
      have := (nodes d there).some
      unfold Span.Apart Span.fin at apart
      omega
    exact {
      pxEnd := rep.pxEnd
      bit := rep.bit
      remaining := by
        show h.xFreeBytesRemaining + b.size = total (insertSpan b a.free)
        rw [rep.remaining, totalInsert, Nat.add_comm]
      chain := by
        show Chain m h.pxEnd l.xStart (insertSpan b a.free)
        rw [rep.pxEnd]
        exact linked
      start := (startKept kept fun c inside => (nodes c inside).above).trans rep.start
      endSize := fin.2.trans rep.endSize
      endNext := fin.1.trans rep.endNext
      live := fun c inside => by
        obtain ⟨one,two⟩ := rep.live c (List.mem_of_mem_erase inside)
        exact ⟨(live c inside).1.trans one,(live c inside).2.trans two⟩ }

end Free
end YunbaIot.Heap4
