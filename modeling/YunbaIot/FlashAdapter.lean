import YunbaIot.BigEndian
import YunbaIot.EspSpiffs

/-! What the access functions do to the flash, for every address and every size up to a page:
the window they widen an access to covers it and fits the buffer. -/
namespace YunbaIot.FlashAdapter
open EspSpiffs Block NorFlash

/-! The window -/

theorem wordsOf (n : UInt32) : (n &&& -flashUnitSize).toNat = n.toNat / 4 * 4 := by
  have field := BigEndian.masked n.toNat 2 30
  have size := n.toNat_lt
  have mask : (-flashUnitSize).toNat = (2 ^ 30 - 1) <<< 2 := by decide
  rw [UInt32.toNat_and, mask, field]
  omega

theorem alignedStart (addr : UInt32) : (alignedAddr addr).toNat = addr.toNat / 4 * 4 := wordsOf addr

theorem alignedLength {page : LogPage} {size : UInt32} (fits : size ≤ page.size) :
    (alignedSize size).toNat = (size.toNat + 3) / 4 * 4 + 4 := by
  have bound := page.bound
  have small := UInt32.le_iff_toNat_le.mp fits
  have more : (size + (flashUnitSize - 1)).toNat = size.toNat + 3 := by
    have three : (flashUnitSize - 1).toNat = 3 := rfl
    rw [UInt32.toNat_add, three]
    omega
  have unit : flashUnitSize.toNat = 4 := rfl
  rw [alignedSize, UInt32.toNat_add, wordsOf, more, unit]
  omega

theorem alignedOffset (addr : UInt32) : (addr - alignedAddr addr).toNat = addr.toNat % 4 := by
  have start := alignedStart addr
  rw [UInt32.toNat_sub_of_le _ _ (UInt32.le_iff_toNat_le.mpr (by omega)), start]
  omega

theorem bufferLength (page : LogPage) (stack : Nat → UInt8) :
    ((List.range (page.size + flashUnitSize * 2).toNat).map stack).length = page.size.toNat + 8 := by
  have bound := page.bound
  have eight : (flashUnitSize * 2).toNat = 8 := rfl
  rw [List.length_map, List.length_range, UInt32.toNat_add, eight]
  omega

/- An access of a page at most whose window lies in the chip. -/
structure Access (page : LogPage) (f : SpiFlash) (addr size : UInt32) : Prop where
  fits : size ≤ page.size
  inside : (alignedAddr addr).toNat + (alignedSize size).toNat ≤ f.chip.length

/- The window covers what is accessed, and the buffer takes the window. -/
theorem windowCovers {page : LogPage} {f : SpiFlash} {addr size : UInt32} (access : Access page f addr size) :
    (addr - alignedAddr addr).toNat + size.toNat ≤ (alignedSize size).toNat ∧
    (alignedSize size).toNat ≤ page.size.toNat + 8 ∧
    (alignedAddr addr).toNat + (addr - alignedAddr addr).toNat = addr.toNat := by
  have small := UInt32.le_iff_toNat_le.mp access.fits
  rw [alignedOffset, alignedLength access.fits, alignedStart]
  omega

theorem bytesAtInside {src : List UInt8} {off len : Nat} (inside : off + len ≤ src.length) :
    bytesAt src off len = .ok ((src.drop off).take len) := if_pos inside

theorem memcpyInside {dest src : List UInt8} {off : Nat} (inside : off + src.length ≤ dest.length) :
    memcpy dest off src = .ok (patched dest off src) := if_pos inside

/-! The accesses -/

section Accesses
variable {page : LogPage} {f : SpiFlash} {addr size : UInt32} (access : Access page f addr size)
include access

theorem bufferFilled (stack : Nat → UInt8) :
    ∃ rest : List UInt8, (window f.chip (alignedAddr addr).toNat (alignedSize size).toNat ++ rest).length =
        page.size.toNat + 8 ∧
      spiFlashRead f (alignedAddr addr) ((List.range (page.size + flashUnitSize * 2).toNat).map stack)
        (alignedSize size) =
        .ok (f.readRes,window f.chip (alignedAddr addr).toNat (alignedSize size).toNat ++ rest) := by
  obtain ⟨_,small,_⟩ := windowCovers access
  have width := windowLength access.inside
  have length := bufferLength page stack
  generalize (List.range (page.size + flashUnitSize * 2).toNat).map stack = tmpBuf at length ⊢
  refine ⟨tmpBuf.drop (alignedSize size).toNat,?_,?_⟩
  · rw [List.length_append, width, List.length_drop]
    omega
  · unfold spiFlashRead
    rw [memcpyInside (by omega)]
    simp [patched,width]

theorem readRefused (stack : Nat → UInt8) (p : List UInt8) (write : Bool) (failed : f.readRes ≠ 0) :
    espSpiffsReadwrite page stack addr size p write f = .ok (f.readRes,p,f) := by
  obtain ⟨rest,_,filled⟩ := bufferFilled access stack
  unfold espSpiffsReadwrite
  rw [if_neg (UInt32.not_lt.mpr access.fits)]
  dsimp only
  rw [filled]
  exact if_pos failed

theorem readExact (stack : Nat → UInt8) {p : List UInt8} (room : size.toNat ≤ p.length) (done : f.readRes = 0) :
    espSpiffsRead page stack addr size p f =
      .ok (spiffsOk,window f.chip addr.toNat size.toNat ++ p.drop size.toNat,f) := by
  obtain ⟨covers,small,start⟩ := windowCovers access
  obtain ⟨rest,length,filled⟩ := bufferFilled access stack
  have part := windowPart access.inside covers rest
  have width : (window f.chip addr.toNat size.toNat).length = size.toNat :=
    windowLength (by have inside := access.inside; omega)
  unfold espSpiffsRead espSpiffsReadwrite
  rw [if_neg (UInt32.not_lt.mpr access.fits)]
  dsimp only
  rw [filled, okBind]
  simp only [done,ne_eq,not_true_eq_false,if_false,Bool.not_false,if_true]
  rw [bytesAtInside (by omega), part, start, okBind, memcpyInside (by omega), okBind]
  simp [patched,width]
  rfl

theorem writeExact (stack : Nat → UInt8) {p : List UInt8} (room : size.toNat ≤ p.length) (done : f.readRes = 0) :
    espSpiffsWrite page stack addr size p f =
      if f.writeRes = 0 then
        .ok (spiffsOk,p,{ f with chip := andAt f.chip addr.toNat (p.take size.toNat) })
      else .ok (f.writeRes,p,{ f with chip := f.partWritten }) := by
  obtain ⟨covers,small,start⟩ := windowCovers access
  obtain ⟨rest,length,filled⟩ := bufferFilled access stack
  have width := windowLength access.inside
  have data : (p.take size.toNat).length = size.toNat := List.length_take_of_le room
  have fits : (addr - alignedAddr addr).toNat + (p.take size.toNat).length ≤
      (window f.chip (alignedAddr addr).toNat (alignedSize size).toNat).length := by omega
  have taken := patchedTake fits rest
  have room' : (addr - alignedAddr addr).toNat + (p.take size.toNat).length ≤
      (window f.chip (alignedAddr addr).toNat (alignedSize size).toNat ++ rest).length := by omega
  have whole := patchedLength room'
  have rewritten := rewriteExact access.inside (fits.trans_eq width)
  unfold espSpiffsWrite espSpiffsReadwrite
  rw [if_neg (UInt32.not_lt.mpr access.fits)]
  dsimp only
  rw [filled, okBind]
  simp only [done,ne_eq,not_true_eq_false,if_false,Bool.not_true,Bool.false_eq_true]
  rw [bytesAtInside (by omega), List.drop_zero, okBind, memcpyInside room', okBind]
  unfold spiFlashWrite
  rw [width] at taken
  rw [bytesAtInside (by omega), List.drop_zero, okBind, taken, rewritten, start]
  by_cases ends : f.writeRes = 0
  · simp [ends,done]
    rfl
  · simp [ends,done]
    rfl

end Accesses

/-- Every access of a page at most ends without leaving tmp_buf: a read gives what the chip holds,
a write clears bits of the bytes it is for and of no other, and a first read that fails ends
both with its error and nothing written. -/
theorem adapterExact {page : LogPage} {f : SpiFlash} {addr size : UInt32} (access : Access page f addr size)
    (stack : Nat → UInt8) {p : List UInt8} (room : size.toNat ≤ p.length) :
    (f.readRes = 0 → espSpiffsRead page stack addr size p f =
      .ok (spiffsOk,window f.chip addr.toNat size.toNat ++ p.drop size.toNat,f)) ∧
    (f.readRes = 0 → f.writeRes = 0 → ∃ chip, espSpiffsWrite page stack addr size p f =
      .ok (spiffsOk,p,{ f with chip := chip }) ∧ Anded f.chip chip addr.toNat (p.take size.toNat)) ∧
    (f.readRes = 0 → f.writeRes ≠ 0 → ∃ after, espSpiffsWrite page stack addr size p f = .ok (f.writeRes,p,after)) ∧
    (f.readRes ≠ 0 → espSpiffsRead page stack addr size p f = .ok (f.readRes,p,f) ∧
      espSpiffsWrite page stack addr size p f = .ok (f.readRes,p,f)) := by
  refine ⟨readExact access stack room,fun done ends => ?_,fun done failed => ?_,fun failed => ?_⟩
  · rw [writeExact access stack room done, if_pos ends]
    exact ⟨_,rfl,andAnded ..⟩
  · rw [writeExact access stack room done, if_neg failed]
    exact ⟨_,rfl⟩
  · exact ⟨readRefused access stack p false failed,readRefused access stack p true failed⟩

/- Three bytes at address 2 of a chip of eight. -/
def smallChip : SpiFlash := ⟨[0xFF,0xFF,0x0F,0xFF,0x3C,0xFF,0xFF,0x55],0,0,[]⟩
def smallPage : LogPage := ⟨4,by decide⟩

theorem threeBytes :
    espSpiffsRead smallPage (fun _ => 0) 2 3 [0,0,0] smallChip = .ok (spiffsOk,[0x0F,0xFF,0x3C],smallChip) ∧
    ∃ chip, espSpiffsWrite smallPage (fun _ => 0) 2 3 [0xAA,0xBB,0xCC] smallChip =
      .ok (spiffsOk,[0xAA,0xBB,0xCC],{ smallChip with chip := chip }) ∧ Anded smallChip.chip chip 2 [0xAA,0xBB,0xCC] :=
  have access : Access smallPage smallChip 2 3 := ⟨by decide,by decide⟩
  ⟨(adapterExact access (fun _ => 0) (p := [0,0,0]) (by decide)).1 rfl,
    (adapterExact access (fun _ => 0) (p := [0xAA,0xBB,0xCC]) (by decide)).2.1 rfl rfl⟩

end YunbaIot.FlashAdapter
