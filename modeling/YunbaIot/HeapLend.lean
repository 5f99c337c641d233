import YunbaIot.HeapArena

/-! pvPortMalloc lends the first block that is large enough, cut to size where enough is left of it. -/
namespace YunbaIot.Heap4
open FreeList

theorem wantedSize {n : Nat} (small : n < 2 ^ 31) : xPortWantedSizeAlign n = (n + 15) / 8 * 8 := by
  have mask : ∀ x, x &&& portByteAlignmentMask = x % 8 := fun x => Nat.and_two_pow_sub_one_eq_mod x 3
  unfold xPortWantedSizeAlign portByteAlignment
  rw [heapStructSizeEq]
  dsimp only
  rw [mask]
  unfold word
  split <;> omega

/- The bytes that pvPortMalloc writes -/
def Own {l : Linker} (a : Lendable l) (x : Nat) : Prop := l.xStart ≤ x ∧ x < l.xStart + 4 ∨ Covers a.free x

theorem linksOwn {l : Linker} (a : Lendable l) {blocks : List Span} (within : ∀ c ∈ blocks, ∀ x, Header c.addr x → Covers a.free x)
    {m m' : Memory} (kept : Kept (Links l blocks) m m') : Kept (Own a) m m' := by
  intro x outside
  refine kept x ?_
  rintro (start | ⟨c,inside,here⟩)
  · exact outside (Or.inl start)
  · exact outside (Or.inr (within c inside x here))

section Unlink
variable {l : Linker} {e : Nat} {b : Span} {before behind : List Span} {m : Memory}

theorem unlinked (chain : Chain m e l.xStart (before ++ b :: behind)) (low : e < 2 ^ 31)
    (gapped : Gapped l.base (before ++ b :: behind)) (fits : ∀ c ∈ before ++ b :: behind, Fits l e c) :
    Chain (setNext m (last l.xStart before) (pxNextFreeBlock m b.addr)) e l.xStart (before ++ behind) := by
  obtain ⟨early,_,_,late⟩ := chainAppend.mp chain
  obtain ⟨gapped,_,order⟩ := gappedAppend.mp gapped
  have mine : ∀ c ∈ before, Fits l e c := fun c inside => fits c (List.mem_append_left _ inside)
  have theirs : ∀ c ∈ behind, Fits l e c := fun c inside => fits c (List.mem_append_right _ (List.mem_cons_of_mem b inside))
  have node := lastNode mine
  have small : head e behind < word := Nat.lt_of_le_of_lt (headBelow theirs) (by unfold word; omega)
  have ahead : ∀ c ∈ behind, c.addr ≠ last l.xStart before := by
    intro c inside same
    rcases lastIs l.xStart before with first | ⟨d,earlier,later⟩
    · exact startApart (theirs c inside) (first.symm.trans same.symm)
    · have := order d earlier c (List.mem_cons_of_mem b inside)
      unfold Span.fin at this
      omega
  have turned : pxNextFreeBlock (setNext m (last l.xStart before) (head e behind)) (last l.xStart before) = head e behind := by
    rw [nextSetNext node node m small, if_pos rfl]
  rw [chainNext late, chainAppend]
  refine ⟨chainRelink early (onceFits gapped mine) turned (fun far => ?_) fun c inside => ⟨fun far => ?_,?_⟩,
    chainFrom late turned fun c inside => ⟨?_,?_⟩⟩
  · rw [nextSetNext node (Or.inl rfl) m small, if_neg far]
  · rw [nextSetNext node (mine c inside).node m small, if_neg far]
  · exact sizeSetNext node (mine c inside).node m _
  · rw [nextSetNext node (theirs c inside).node m small, if_neg (ahead c inside)]
  · exact sizeSetNext node (theirs c inside).node m _

end Unlink

section Lend
variable {l : Linker} {h : Heap} {a : Lendable l} {w : Nat} {c : Span} {rest : List Span}

/- What pvPortMalloc has reached when the block is out of the list -/
structure Taken (l : Linker) (m : Memory) (c : Span) (rest : List Span) : Prop where
  chain : Chain m l.fin l.xStart rest
  start : xBlockSize m l.xStart = 0
  size : xBlockSize m c.addr = c.size

theorem splitWhole {b : Span} {rest : List Span} (taken : Taken l h.mem b rest) (fits : w ≤ b.size)
    (small : b.size < word) (near : b.size - w ≤ 16) : split l b.addr w h = some h := by
  have left : (xBlockSize h.mem b.addr + word - w) % word = b.size - w := by
    rw [taken.size, show b.size + word - w = b.size - w + word by omega, Nat.add_mod_right,
      Nat.mod_eq_of_lt (Nat.lt_of_le_of_lt (Nat.sub_le _ _) small)]
  unfold split
  dsimp only
  rw [left, heapMinimumBlockSizeEq, if_neg (by omega)]

theorem splitCut {b : Span} {rest : List Span} (taken : Taken l h.mem b rest) (ended : h.pxEnd = l.fin) (some : 8 ≤ w)
    (whole : 8 ∣ w) (far : 16 < b.size - w) (fits : Fits l l.fin b) (others : ∀ c ∈ rest, Fits l l.fin c)
    (gapped : Gapped l.base rest) (apart : ∀ c ∈ rest, b.Apart c) (short : rest.length < word) :
    ∃ m, split l b.addr w h = .some { h with mem := m } ∧
      Taken l m ⟨b.addr,w⟩ (insertSpan ⟨b.addr + w,b.size - w⟩ rest) ∧
      Kept (Links l (b :: ⟨b.addr + w,b.size - w⟩ :: rest)) h.mem m := by
  have bound := (bounds l).2.1
  have below := fits.below
  have above := fits.above
  have left : (xBlockSize h.mem b.addr + word - w) % word = b.size - w := by
    rw [taken.size]
    unfold Span.fin word at *
    omega
  have place : (b.addr + w) % word = b.addr + w := Nat.mod_eq_of_lt (by unfold Span.fin word at *; omega)
  have small : b.size - w < word := by
    unfold Span.fin word at *
    omega
  have small' : w < word := by
    unfold Span.fin word at *
    omega
  have fits' : Fits l l.fin ⟨b.addr + w,b.size - w⟩ := by
    refine ⟨Or.inr ⟨?_,by simp only; omega⟩,by simp only; omega,?_,by simp only; omega⟩
    · rcases fits.node with start | ⟨place,_⟩
      · exact absurd start.symm (startApart fits)
      · exact Nat.dvd_add place whole
    · unfold Span.fin at *
      simp only
      omega
  have apart' : ∀ c ∈ rest, Span.Apart ⟨b.addr + w,b.size - w⟩ c := by
    intro c inside
    rcases apart c inside with high | low
    · exact Or.inl (by unfold Span.fin at *; simp only; omega)
    · exact Or.inr (by unfold Span.fin at *; simp only; omega)
  let new : Span := ⟨b.addr + w,b.size - w⟩
  have node : Node l new.addr := fits'.node
  have apartNew : b.addr ≠ new.addr := by simp only [new]; omega
  have others' : ∀ d ∈ rest, d.addr ≠ b.addr ∧ d.addr ≠ new.addr := by
    intro d inside
    have := apart d inside
    have := apart' d inside
    have := (others d inside).some
    unfold Span.Apart Span.fin at *
    simp only [new] at *
    omega
  let m₁ := setSize h.mem new.addr (b.size - w)
  let m₂ := setSize m₁ b.addr w
  have sizes : ∀ {q : Nat}, Node l q →
      xBlockSize m₂ q = if q = b.addr then w else if q = new.addr then b.size - w else xBlockSize h.mem q := by
    intro q there
    rw [sizeSetSize fits.node there m₁ small', sizeSetSize node there h.mem small]
  have nexts : ∀ {q : Nat}, Node l q → pxNextFreeBlock m₂ q = pxNextFreeBlock h.mem q := by
    intro q there
    rw [nextSetSize fits.node there, nextSetSize node there]
  have chain : Chain m₂ l.fin l.xStart rest := by
    refine chainFrom taken.chain ?_ fun d inside => ⟨nexts (others d inside).node,?_⟩
    · rw [nexts (Or.inl rfl), chainNext taken.chain]
    · rw [sizes (others d inside).node, if_neg (others' d inside).1, if_neg (others' d inside).2]
  have start : xBlockSize m₂ l.xStart = 0 := by
    rw [sizes (Or.inl rfl), if_neg (startApart fits), if_neg (startApart fits'), taken.start]
  have size : xBlockSize m₂ new.addr = new.size := by
    rw [sizes node, if_neg (Ne.symm apartNew), if_pos rfl]
  obtain ⟨m,done,linked,kept⟩ := prvInsert (h := { h with mem := m₂ }) ended chain start size fits' others gapped apart'
    (by omega) short
  have above : ∀ d ∈ new :: rest, Fits l l.fin d := List.forall_mem_cons.mpr ⟨fits',others⟩
  refine ⟨m,?_,⟨linked,?_,?_⟩,?_⟩
  · unfold split
    dsimp only
    rw [left, heapMinimumBlockSizeEq, if_pos far, place]
    exact done
  · exact (startKept kept fun d inside => (above d inside).above).trans start
  · have mine : ∀ d ∈ new :: rest, b.addr ≠ d.addr :=
      List.forall_mem_cons.mpr ⟨apartNew,fun d inside => (others' d inside).1.symm⟩
    rw [(linksKept kept (fun d inside => (above d inside).node) fits.node (startApart fits).symm mine).2,
      sizes fits.node, if_pos rfl]
  · have wider : Kept (Links l (b :: new :: rest)) m₂ m := by
      intro x outside
      refine kept x fun inside => outside ?_
      exact inside.imp_right fun ⟨d,there,here⟩ => ⟨d,List.mem_cons_of_mem b there,here⟩
    refine keptTrans (keptTrans (keptSetSize ?_ h.mem _) (keptSetSize ?_ m₁ _)) wider
    · exact fun x here => Or.inr ⟨new,List.mem_cons_of_mem b (List.mem_cons_self ..),here⟩
    · exact fun x here => Or.inr ⟨b,List.mem_cons_self ..,here⟩

theorem ownHeader (a : Lendable l) {b : Span} (free : b ∈ a.free) {x : Nat} (here : Header b.addr x) : Own a x :=
  Or.inr ⟨b,free,fitsHeader (freeFits a free) here⟩

theorem setBit {n : Nat} (small : n < 2 ^ 31) : n ||| 2 ^ 31 = 2 ^ 31 + n := by
  have sum := Nat.two_pow_add_eq_or_of_lt small 1
  rw [Nat.mul_one] at sum
  rw [sum, Nat.or_comm]

/- Bytes that are not the free ones are out of reach. -/
theorem ownKept {m m' : Memory} (kept : Kept (Own a) m m') {p : Nat}
    (outside : ∀ x, Header p x → ¬ Own a x) : pxNextFreeBlock m' p = pxNextFreeBlock m p ∧ xBlockSize m' p = xBlockSize m p :=
  ⟨loadCongr fun i low high => kept i (outside i ⟨low,by omega⟩),
    loadCongr fun i low high => kept i (outside i ⟨by omega,by omega⟩)⟩

theorem liveOutside {b : Span} (lent : b ∈ a.live) {x : Nat} (here : b.Has x) : ¬ Own a x := by
  have above := (liveFits a lent).above
  have := baseAbove l
  rintro (start | ⟨d,free,there⟩)
  · unfold Span.Has at here
    omega
  · exact Span.apartHas (a.freeLive free lent) there here

theorem finOutside {x : Nat} (here : Header l.fin x) : ¬ Own a x := by
  have := baseAbove l
  have := (bounds l).1
  unfold Header at here
  rintro (start | there)
  · omega
  · have := ((a.parted x).mp there).2.1
    omega

/- The block found, before it is cut -/
structure Found (w : Nat) (a : Lendable l) (before : List Span) (b : Span) (behind : List Span) : Prop where
  free : a.free = before ++ b :: behind
  fits : w ≤ b.size
  cut : carve w 16 a.free = if 16 < b.size - w then
      some (⟨b.addr,w⟩,insertSpan ⟨b.addr + w,b.size - w⟩ (before ++ behind)) else some (b,before ++ behind)

theorem taken {b : Span} {before behind : List Span} (rep : Represents l h a) (found : Found w a before b behind)
    (some : 8 ≤ w) (whole : 8 ∣ w) (done : carve w 16 a.free = .some (c,rest)) :
    ∃ m, split l b.addr w { h with mem := setNext h.mem (last l.xStart before) (pxNextFreeBlock h.mem b.addr) } =
        .some { h with mem := m } ∧ c.addr = b.addr ∧ Taken l m c rest ∧ Kept (Own a) h.mem m := by
  have bound := (bounds l).2.1
  have inside : ∀ d ∈ before ++ b :: behind, d ∈ a.free := fun d there => found.free ▸ there
  have fits : ∀ d ∈ before ++ b :: behind, Fits l l.fin d := fun d there => freeFits a (inside d there)
  have mine : b ∈ before ++ b :: behind := by simp
  have others : ∀ d ∈ before ++ behind, d ∈ before ++ b :: behind := by
    intro d there
    rw [List.mem_append] at there ⊢
    exact there.imp_right (List.mem_cons_of_mem b)
  have gapped := found.free ▸ a.gapped
  have chain : Chain h.mem l.fin l.xStart (before ++ b :: behind) := by
    have old := rep.chain
    rw [rep.pxEnd, found.free] at old
    exact old
  have node := lastNode fun d there => fits d (List.mem_append_left _ there)
  have first : Taken l (setNext h.mem (last l.xStart before) (pxNextFreeBlock h.mem b.addr)) b (before ++ behind) := by
    refine ⟨unlinked chain (by omega) gapped fits,?_,?_⟩
    · rw [sizeSetNext node (Or.inl rfl), rep.start]
    · rw [sizeSetNext node (fits b mine).node]
      exact (chainAppend.mp chain).2.2.1
  have kept : Kept (Own a) h.mem (setNext h.mem (last l.xStart before) (pxNextFreeBlock h.mem b.addr)) := by
    refine keptSetNext (fun x low high => ?_) h.mem _
    rcases lastIs l.xStart before with start | ⟨d,there,place⟩
    · exact Or.inl (start ▸ ⟨low,high⟩)
    · exact ownHeader a (inside d (List.mem_append_left _ there)) ⟨place ▸ low,by rw [← place]; omega⟩
  have small : b.size < word := by
    have := (fits b mine).below
    unfold Span.fin word at *
    omega
  have cut := found.cut
  rw [done] at cut
  split at cut
  · obtain ⟨rfl,rfl⟩ := Prod.mk.inj (Option.some.inj cut)
    obtain ⟨earlier,late,order⟩ := gappedAppend.mp gapped
    have apart : ∀ d ∈ before ++ behind, b.Apart d := by
      intro d there
      rcases List.mem_append.mp there with left | right
      · exact Or.inr (Nat.le_of_lt (order d left b (List.mem_cons_self ..)))
      · exact Or.inl (Nat.le_of_lt (gappedMem late.2.2 right).1)
    have gapped' : Gapped l.base (before ++ behind) := gappedAppend.mpr ⟨earlier,
      gappedMono late.2.2 (by have := late.1; unfold Span.fin; omega),
      fun d left f right => order d left f (List.mem_cons_of_mem b right)⟩
    have short : (before ++ behind).length < word := by
      have := shortFree a
      rw [found.free] at this
      simp only [List.length_append, List.length_cons] at this ⊢
      omega
    obtain ⟨m,done,second,kept'⟩ := splitCut (h := { h with mem := setNext h.mem (last l.xStart before) _ }) first
      rep.pxEnd some whole (by assumption) (fits b mine) (fun d there => fits d (others d there)) gapped' apart short
    refine ⟨m,done,rfl,second,keptTrans kept (linksOwn a ?_ kept')⟩
    intro d there x here
    rcases List.mem_cons.mp there with rfl | there
    · exact ⟨_,inside _ mine,fitsHeader (fits _ mine) here⟩
    rcases List.mem_cons.mp there with rfl | there
    · refine ⟨b,inside b mine,?_⟩
      unfold Header at here
      unfold Span.Has Span.fin
      simp only at here
      omega
    · exact ⟨d,inside d (others d there),fitsHeader (fits d (others d there)) here⟩
  · obtain ⟨rfl,rfl⟩ := Prod.mk.inj (Option.some.inj cut)
    exact ⟨_,splitWhole first found.fits small (by omega),rfl,first,kept⟩

theorem allocated {b : Span} {before behind : List Span} (rep : Represents l h a) (found : Found w a before b behind)
    (some : 8 ≤ w) (whole : 8 ∣ w) (done : carve w 16 a.free = .some (c,rest)) :
    ∃ h', allocate l w (last l.xStart before) b.addr h = .some (c.addr + 8,h') ∧
      Represents l h' (a.lend (by omega) whole done) ∧ Kept (Own a) h.mem h'.mem := by
  obtain ⟨m,cut,place,second,kept⟩ := taken rep found some whole done
  have bound := (bounds l).2.1
  have fits : Fits l l.fin c := liveFits (a.lend (by omega) whole done) (List.mem_cons_self ..)
  have others : ∀ d ∈ rest, Fits l l.fin d := fun d there => freeFits (a.lend (by omega) whole done) there
  have below := fits.below
  have far : ∀ d ∈ rest, d.addr ≠ c.addr := by
    intro d there same
    have := (a.lend (by omega) whole done).freeLive there (List.mem_cons_self ..)
    have := fits.some
    have := (others d there).some
    unfold Span.Apart Span.fin at *
    omega
  have small : c.size < 2 ^ 31 := by
    unfold Span.fin at below
    omega
  have sum : total a.free = c.size + total rest := (carved a.gapped (by omega) done).total
  have bits : 2 ^ 31 + c.size < word := by
    unfold word
    omega
  let m₁ := setSize m c.addr (2 ^ 31 + c.size)
  let m₂ := setNext m₁ c.addr 0
  have nexts : ∀ {q : Nat}, Node l q → pxNextFreeBlock m₂ q = if q = c.addr then 0 else pxNextFreeBlock m q := by
    intro q there
    rw [nextSetNext fits.node there m₁ (by decide), nextSetSize fits.node there]
  have sizes : ∀ {q : Nat}, Node l q → xBlockSize m₂ q = if q = c.addr then 2 ^ 31 + c.size else xBlockSize m q := by
    intro q there
    rw [sizeSetNext fits.node there, sizeSetSize fits.node there m bits]
  have own : ∀ x, Header c.addr x → Own a x := fun x here =>
    Or.inr (((carved a.gapped (by omega) done).covers x).mpr (Or.inl (fitsHeader fits here)))
  have kept' : Kept (Own a) h.mem m₂ :=
    keptTrans (keptTrans kept (keptSetSize own m _)) (keptSetNext (fun x low high => own x ⟨low,by omega⟩) m₁ _)
  have fin := ownKept kept' fun x here => finOutside here
  have live := fun d (lent : d ∈ a.live) => ownKept kept' fun x here => liveOutside lent (fitsHeader (liveFits a lent) here)
  refine ⟨{ h with mem := m₂, xFreeBytesRemaining := total rest },?_,?_,kept'⟩
  · have chain := rep.chain
    rw [found.free] at chain
    have seam : pxNextFreeBlock h.mem (last l.xStart before) = b.addr := (chainAppend.mp chain).2.1
    unfold allocate
    dsimp only
    rw [cut]
    simp only [Option.bind_eq_bind, Option.bind_some]
    rw [seam, heapStructSizeEq, ← place, second.size, rep.bit, setBit small, rep.remaining, sum,
      Nat.mod_eq_of_lt (by unfold Span.fin word at *; omega),
      show c.size + total rest + word - c.size = total rest + word by omega, Nat.add_mod_right,
      Nat.mod_eq_of_lt (by have := totalBelow a; unfold word; omega)]
  · exact {
      pxEnd := rep.pxEnd
      bit := rep.bit
      remaining := rfl
      chain := by
        show Chain m₂ h.pxEnd l.xStart rest
        rw [rep.pxEnd]
        refine chainFrom second.chain ?_ fun d there => ⟨?_,?_⟩
        · rw [nexts (Or.inl rfl), if_neg (startApart fits), chainNext second.chain]
        · rw [nexts (others d there).node, if_neg (far d there)]
        · rw [sizes (others d there).node, if_neg (far d there)]
      start := (sizes (Or.inl rfl)).trans ((if_neg (startApart fits)).trans second.start)
      endSize := fin.2.trans rep.endSize
      endNext := fin.1.trans rep.endNext
      live := List.forall_mem_cons.mpr ⟨⟨(nexts fits.node).trans (if_pos rfl),(sizes fits.node).trans (if_pos rfl)⟩,
        fun d lent => ⟨(live d lent).1.trans (rep.live d lent).1,(live d lent).2.trans (rep.live d lent).2⟩⟩ }

/-! The whole call -/

theorem wantedBit {n : Nat} : n &&& 2 ^ 31 = 2 ^ 31 * (n / 2 ^ 31 % 2) := by
  have bit := BigEndian.masked n 31 1
  rw [show (2 ^ 1 - 1) <<< 31 = 2 ^ 31 by decide] at bit
  omega

/- A size that can be asked for -/
def Askable (n : Nat) : Prop := 0 < n ∧ n < 2 ^ 31

theorem mallocRefused {n : Nat} (rep : Represents l h a) (bound : n < word) (none : ¬ Askable n) :
    pvPortMalloc l n h = some (0,h) := by
  have started : h.pxEnd ≠ 0 := by
    have := (bounds l).1
    rw [rep.pxEnd]
    omega
  unfold pvPortMalloc
  rw [if_neg started]
  dsimp only
  rw [rep.bit, wantedBit]
  unfold Askable at none
  unfold word at bound
  by_cases zero : n = 0
  · subst zero
    simp
  · rw [if_neg (by omega)]

theorem foundOf (a : Lendable l) (w : Nat) : (∀ b ∈ a.free, b.size < w) ∧ carve w 16 a.free = none ∨
    ∃ before b behind, Found w a before b behind ∧ ∀ d ∈ before, d.size < w := by
  rcases firstFit w a.free with ⟨short,_⟩ | ⟨before,b,behind,form,short,fits,left,found⟩
  · exact Or.inl ⟨short,carveNone.mpr short⟩
  · refine Or.inr ⟨before,b,behind,⟨form,fits,?_⟩,short⟩
    unfold carve
    rw [found, left]

theorem mallocAsked {n : Nat} (rep : Represents l h a) (ask : Askable n) : pvPortMalloc l n h =
    if xPortWantedSizeAlign n ≤ total a.free then do
      let (pxPreviousBlock,pxBlock) ← seek h.mem (xPortWantedSizeAlign n) word l.xStart (pxNextFreeBlock h.mem l.xStart)
      if pxBlock ≠ l.fin then allocate l (xPortWantedSizeAlign n) pxPreviousBlock pxBlock h else some (0,h)
    else some (0,h) := by
  have started : h.pxEnd ≠ 0 := by
    have := (bounds l).1
    rw [rep.pxEnd]
    omega
  obtain ⟨some,small⟩ := ask
  have size : 0 < xPortWantedSizeAlign n := by
    rw [wantedSize small]
    omega
  unfold pvPortMalloc
  rw [if_neg started]
  dsimp only
  rw [rep.bit, wantedBit, if_pos (by omega), if_pos some, rep.remaining, rep.pxEnd]
  simp only [size, true_and]

theorem mallocNone {n : Nat} (rep : Represents l h a) (ask : Askable n)
    (none : carve (xPortWantedSizeAlign n) 16 a.free = .none) : pvPortMalloc l n h = some (0,h) := by
  have short := carveNone.mp none
  have chain : Chain h.mem l.fin l.xStart (a.free ++ []) := by
    have old := rep.chain
    rw [rep.pxEnd] at old
    simpa using old
  have positive : ∀ d ∈ a.free ++ [], d.addr ≠ 0 := by
    intro d there
    have := (freeFits a (by simpa using there)).above
    have := baseAbove l
    omega
  have stops : seek h.mem (xPortWantedSizeAlign n) word l.xStart (pxNextFreeBlock h.mem l.xStart) =
      some (last l.xStart a.free,head l.fin []) :=
    seekStops chain short positive (by have := (bounds l).1; omega) (Or.inr rep.endNext) (shortFree a)
  rw [mallocAsked rep ask]
  split
  · rw [stops]
    simp [head]
  · rfl

theorem mallocSome {n : Nat} (rep : Represents l h a) (ask : Askable n) (some : 8 ≤ xPortWantedSizeAlign n)
    (whole : 8 ∣ xPortWantedSizeAlign n) (done : carve (xPortWantedSizeAlign n) 16 a.free = .some (c,rest)) :
    ∃ h', pvPortMalloc l n h = .some (c.addr + 8,h') ∧ Represents l h' (a.lend (by omega) whole done) ∧
      Kept (Own a) h.mem h'.mem := by
  rcases foundOf a (xPortWantedSizeAlign n) with ⟨_,none⟩ | ⟨before,b,behind,found,short⟩
  · rw [done] at none
    cases none
  obtain ⟨h',lent,after,kept⟩ := allocated rep found some whole done
  refine ⟨h',?_,after,kept⟩
  have chain := rep.chain
  rw [rep.pxEnd, found.free] at chain
  have positive : ∀ d ∈ before ++ b :: behind, d.addr ≠ 0 := by
    intro d there
    have := (freeFits a (found.free ▸ there)).above
    have := baseAbove l
    omega
  have mine : b ∈ a.free := by
    rw [found.free]
    simp
  have fits := freeFits a mine
  have room : xPortWantedSizeAlign n ≤ total a.free := Nat.le_trans found.fits (totalMem mine)
  have size : xBlockSize h.mem b.addr = b.size := (chainAppend.mp chain).2.2.1
  have short' : before.length < word := by
    have := shortFree a
    rw [found.free, List.length_append] at this
    omega
  have stops := seekStops chain short positive (by have := (bounds l).1; omega)
    (Or.inl (Nat.le_trans found.fits (Nat.le_of_eq size.symm))) short'
  have different : b.addr ≠ l.fin := by
    have := fits.below
    have := fits.some
    unfold Span.fin at *
    omega
  rw [mallocAsked rep ask, if_pos room, stops]
  simp only [Option.bind_eq_bind, Option.bind_some, head]
  rw [if_pos different]
  exact lent

end Lend
end YunbaIot.Heap4
