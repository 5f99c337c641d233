import YunbaIot.HeapChain

/-! prvInsertBlockIntoFreeList puts a block in its place among the free blocks and merges it with those
it touches. -/
namespace YunbaIot.Heap4
open FreeList

/- All bytes but those of some set are what they were. -/
def Kept (S : Nat → Prop) (m m' : Memory) : Prop := ∀ x, ¬ S x → m'.byte x = m.byte x

theorem keptRefl (S : Nat → Prop) (m : Memory) : Kept S m m := fun _ _ => rfl

theorem keptTrans {S : Nat → Prop} {m m' m'' : Memory} (first : Kept S m m') (second : Kept S m' m'') : Kept S m m'' :=
  fun x outside => (second x outside).trans (first x outside)

/- The bytes of the xBlockLink at an address -/
def Header (a x : Nat) : Prop := a ≤ x ∧ x < a + 8

theorem keptSetNext {S : Nat → Prop} {a : Nat} (inside : ∀ x, a ≤ x → x < a + 4 → S x) (m : Memory) (v : Nat) :
    Kept S m (setNext m a v) := by
  intro x outside
  apply storeOutside
  by_contra there
  exact outside (inside x (by omega) (by omega))

theorem keptSetSize {S : Nat → Prop} {a : Nat} (inside : ∀ x, Header a x → S x) (m : Memory) (v : Nat) :
    Kept S m (setSize m a v) := by
  intro x outside
  apply storeOutside
  by_contra there
  exact outside (inside x ⟨by omega,by omega⟩)

/- A free block, where the heap reaches from the base to the block at e -/
structure Fits (l : Linker) (e : Nat) (b : Span) : Prop where
  node : Node l b.addr
  above : l.base ≤ b.addr
  below : b.fin ≤ e
  some : 8 ≤ b.size

theorem headBelow {l : Linker} {e : Nat} {blocks : List Span} (fits : ∀ c ∈ blocks, Fits l e c) : head e blocks ≤ e := by
  cases blocks with
  | nil => exact Nat.le_refl e
  | cons c blocks => exact Nat.le_trans (Nat.le_add_right _ _) (fits c (List.mem_cons_self ..)).below

section Before
variable {l : Linker} {e it : Nat} {b : Span} {behind : List Span} {m : Memory}

theorem mergeBeforeReads (chain : Chain m e it behind) (fits : Fits l e b) (others : ∀ c ∈ behind, Fits l e c)
    (right : ∀ c ∈ behind, b.fin ≤ c.addr) (size : xBlockSize m b.addr = b.size) (low : e < 2 ^ 31) {q : Nat}
    (node : Node l q) :
    pxNextFreeBlock (mergeBefore e it b.addr m) q =
        (if q = b.addr then head e (joinRest b behind) else pxNextFreeBlock m q) ∧
      xBlockSize (mergeBefore e it b.addr m) q = (if q = b.addr then joinSize b behind else xBlockSize m q) := by
  have bound := fits.below
  have ended : (b.addr + xBlockSize m b.addr) % word = b.fin := by
    rw [size]
    unfold Span.fin word at *
    omega
  have plain : ∀ v, v < word → pxNextFreeBlock (setNext m b.addr v) q = (if q = b.addr then v else pxNextFreeBlock m q) ∧
      xBlockSize (setNext m b.addr v) q = (if q = b.addr then b.size else xBlockSize m q) := by
    intro v small
    refine ⟨nextSetNext fits.node node m small,(sizeSetNext fits.node node m v).trans ?_⟩
    split
    · rename_i same
      rw [same, size]
    · rfl
  cases behind with
  | nil =>
    have same : mergeBefore e it b.addr m = setNext m b.addr e := by
      unfold mergeBefore
      rw [show pxNextFreeBlock m it = e from chain]
      simp
    rw [same]
    exact plain e (by unfold word; omega)
  | cons c behind =>
    obtain ⟨here,further⟩ := List.forall_mem_cons.mp others
    have inside := here.below
    have room := here.some
    by_cases near : b.fin = c.addr
    · have different : c.addr ≠ e := by
        unfold Span.fin at inside
        omega
      have onward : head e behind < word := Nat.lt_of_le_of_lt (headBelow further) (by unfold word; omega)
      have sum : (xBlockSize m b.addr + xBlockSize m c.addr) % word = b.size + c.size := by
        rw [size, chain.2.1]
        unfold Span.fin word at *
        omega
      have small : b.size + c.size < word := by
        unfold Span.fin word at *
        omega
      have same : mergeBefore e it b.addr m = setNext (setSize m b.addr (b.size + c.size)) b.addr (head e behind) := by
        unfold mergeBefore
        dsimp only
        rw [chain.1, ended, if_pos near, if_pos different, sum, nextSetSize fits.node here.node, chainNext chain.2.2]
      rw [same, nextSetNext fits.node node _ onward, sizeSetNext fits.node node, nextSetSize fits.node node,
        sizeSetSize fits.node node m small, joinRest, joinSize, if_pos near, if_pos near]
      exact ⟨rfl,rfl⟩
    · have same : mergeBefore e it b.addr m = setNext m b.addr c.addr := by
        unfold mergeBefore
        dsimp only
        rw [chain.1, ended, if_neg near]
      rw [same, joinRest, joinSize, if_neg near, if_neg near]
      exact plain c.addr (by unfold Span.fin word at *; omega)

theorem mergeBeforeKept {S : Nat → Prop} {a : Nat} (inside : ∀ x, Header a x → S x) :
    Kept S m (mergeBefore e it a m) := by
  have link : ∀ x, a ≤ x → x < a + 4 → S x := fun x low high => inside x ⟨low,by omega⟩
  unfold mergeBefore
  dsimp only
  split
  · split
    · exact keptTrans (keptSetSize inside m _) (keptSetNext link _ _)
    · exact keptSetNext link m _
  · exact keptSetNext link m _

end Before

section Insert
variable {l : Linker} {e : Nat} {b : Span} {before behind : List Span} {m : Memory}

/- Nothing of the list is in the way of the block, whose place is found. -/
structure Placed (l : Linker) (e : Nat) (b : Span) (before behind : List Span) (m : Memory) : Prop where
  chain : Chain m e l.xStart (before ++ behind)
  start : xBlockSize m l.xStart = 0
  size : xBlockSize m b.addr = b.size
  fits : Fits l e b
  others : ∀ c ∈ before ++ behind, Fits l e c
  gapped : Gapped l.base (before ++ behind)
  left : ∀ c ∈ before, c.fin ≤ b.addr
  right : ∀ c ∈ behind, b.fin ≤ c.addr
  low : e < 2 ^ 31

theorem startApart {c : Span} (fits : Fits l e c) : l.xStart ≠ c.addr := by
  have := baseAbove l
  have := fits.above
  omega

theorem onceGapped {lo : Nat} {blocks : List Span} (gapped : Gapped lo blocks) : (blocks.map Span.addr).Nodup := by
  induction blocks generalizing lo with
  | nil => exact List.nodup_nil
  | cons c blocks ih =>
    rw [List.map_cons, List.nodup_cons]
    refine ⟨fun again => ?_,ih gapped.2.2⟩
    obtain ⟨d,inside,same⟩ := List.mem_map.mp again
    have := (gappedMem gapped.2.2 inside).1
    unfold Span.fin at this
    omega

theorem onceFits {lo : Nat} {blocks : List Span} (gapped : Gapped lo blocks) (others : ∀ c ∈ blocks, Fits l e c) :
    (l.xStart :: blocks.map Span.addr).Nodup := by
  refine List.nodup_cons.mpr ⟨fun again => ?_,onceGapped gapped⟩
  obtain ⟨d,inside,same⟩ := List.mem_map.mp again
  exact startApart (others d inside) same.symm

theorem lastNode (others : ∀ c ∈ before, Fits l e c) : Node l (last l.xStart before) := by
  rcases lastIs l.xStart before with here | ⟨c,inside,there⟩
  · exact Or.inl here
  · exact there ▸ (others c inside).node

theorem lastBelow (placed : Placed l e b before behind m) : last l.xStart before < b.addr := by
  rcases lastIs l.xStart before with here | ⟨c,inside,there⟩
  · have := baseAbove l
    have := placed.fits.above
    omega
  · have := placed.left c inside
    have := (placed.others c (List.mem_append_left _ inside)).some
    unfold Span.fin at *
    omega

/- The block touches none before it. -/
theorem insertedBehind (placed : Placed l e b before behind m) :
    Chain (setNext (mergeBefore e (last l.xStart before) b.addr m) (last l.xStart before) b.addr) e l.xStart
      (before ++ join b behind) := by
  obtain ⟨early,late⟩ := chainAppend.mp placed.chain
  obtain ⟨gapped,_,_⟩ := gappedAppend.mp placed.gapped
  have left : ∀ c ∈ before, Fits l e c := fun c inside => placed.others c (List.mem_append_left _ inside)
  have right : ∀ c ∈ behind, Fits l e c := fun c inside => placed.others c (List.mem_append_right _ inside)
  have node := lastNode left
  have below := lastBelow placed
  have small : b.addr < word := by
    have := placed.fits.below
    have := placed.low
    unfold Span.fin word at *
    omega
  have reads : ∀ {q : Nat}, Node l q → _ := fun {q} there =>
    mergeBeforeReads late placed.fits right placed.right placed.size placed.low (q := q) there
  have next : ∀ {q : Nat}, Node l q →
      pxNextFreeBlock (setNext (mergeBefore e (last l.xStart before) b.addr m) (last l.xStart before) b.addr) q =
        if q = last l.xStart before then b.addr else
          if q = b.addr then head e (joinRest b behind) else pxNextFreeBlock m q := by
    intro q there
    rw [nextSetNext node there _ small, (reads there).1]
  have size : ∀ {q : Nat}, Node l q →
      xBlockSize (setNext (mergeBefore e (last l.xStart before) b.addr m) (last l.xStart before) b.addr) q =
        if q = b.addr then joinSize b behind else xBlockSize m q := by
    intro q there
    rw [sizeSetNext node there, (reads there).2]
  have mine := placed.fits.some
  have ahead : ∀ c ∈ behind, c.addr ≠ last l.xStart before ∧ c.addr ≠ b.addr := by
    intro c inside
    have := placed.right c inside
    unfold Span.fin at this
    omega
  have back : ∀ c ∈ before, c.addr ≠ b.addr := by
    intro c inside
    have := placed.left c inside
    have := (left c inside).some
    unfold Span.fin at *
    omega
  rw [chainAppend, joinEq]
  refine ⟨chainRelink early (onceFits gapped left) ?_ (fun far => ?_) fun c inside => ⟨fun far => ?_,?_⟩,?_,?_,
    chainRest late ?_ fun c inside => ⟨?_,?_⟩⟩
  · rw [next node, if_pos rfl, head]
  · rw [next (Or.inl rfl), if_neg far, if_neg (startApart placed.fits)]
  · rw [next (left c inside).node, if_neg far, if_neg (back c inside)]
  · rw [size (left c inside).node, if_neg (back c inside)]
  · rw [next node, if_pos rfl]
  · rw [size placed.fits.node, if_pos rfl]
  · rw [next placed.fits.node, if_neg (Nat.ne_of_gt below), if_pos rfl]
  · rw [next (right c inside).node, if_neg (ahead c inside).1, if_neg (ahead c inside).2]
  · rw [size (right c inside).node, if_neg (ahead c inside).2]

/- The block becomes a part of the one before it. -/
theorem insertedInto {c : Span} (chain : Chain m e l.xStart (before ++ c :: behind))
    (fits : Fits l e ⟨c.addr,c.size + b.size⟩) (others : ∀ d ∈ before ++ c :: behind, Fits l e d)
    (gapped : Gapped l.base (before ++ c :: behind))
    (right : ∀ d ∈ behind, c.addr + (c.size + b.size) ≤ d.addr) (low : e < 2 ^ 31) :
    Chain (mergeBefore e c.addr c.addr (setSize m c.addr (c.size + b.size))) e l.xStart
      (before ++ join ⟨c.addr,c.size + b.size⟩ behind) := by
  obtain ⟨early,seam,_,late⟩ := chainAppend.mp chain
  obtain ⟨_,gapped',order⟩ := gappedAppend.mp gapped
  have mine : ∀ d ∈ before, Fits l e d := fun d inside => others d (List.mem_append_left _ inside)
  obtain ⟨node,theirs⟩ := List.forall_mem_cons.mp fun d inside => others d (List.mem_append_right before inside)
  have small : c.size + b.size < word := by
    have := fits.below
    unfold Span.fin word at *
    simp only at this
    omega
  have ahead : ∀ d ∈ behind, d.addr ≠ c.addr := by
    intro d inside
    have := (gappedMem gapped'.2.2 inside).1
    unfold Span.fin at this
    omega
  have back : ∀ d ∈ before, d.addr ≠ c.addr := by
    intro d inside
    have := order d inside c (List.mem_cons_self ..)
    unfold Span.fin at this
    omega
  have later : Chain (setSize m c.addr (c.size + b.size)) e c.addr behind := by
    refine chainFrom late ?_ fun d inside => ⟨nextSetSize node.node (theirs d inside).node m _,?_⟩
    · rw [nextSetSize node.node node.node, chainNext late]
    · rw [sizeSetSize node.node (theirs d inside).node m small, if_neg (ahead d inside)]
  have grown : xBlockSize (setSize m c.addr (c.size + b.size)) c.addr = c.size + b.size := by
    rw [sizeSetSize node.node node.node m small, if_pos rfl]
  have reads : ∀ {q : Nat}, Node l q → _ := fun {q} there =>
    mergeBeforeReads later fits theirs right grown low (q := q) there
  have next : ∀ {q : Nat}, Node l q → q ≠ c.addr →
      pxNextFreeBlock (mergeBefore e c.addr c.addr (setSize m c.addr (c.size + b.size))) q = pxNextFreeBlock m q := by
    intro q there far
    rw [(reads there).1, if_neg far, nextSetSize node.node there]
  have sizes : ∀ {q : Nat}, Node l q → q ≠ c.addr →
      xBlockSize (mergeBefore e c.addr c.addr (setSize m c.addr (c.size + b.size))) q = xBlockSize m q := by
    intro q there far
    rw [(reads there).2, if_neg far, sizeSetSize node.node there m small, if_neg far]
  have start := startApart node
  rw [chainAppend, joinEq]
  refine ⟨chainFrom early ?_ fun d inside => ⟨next (mine d inside).node (back d inside),sizes (mine d inside).node (back d inside)⟩,
    ?_,?_,chainRest later ?_ fun d inside => ⟨?_,?_⟩⟩
  · rw [next (Or.inl rfl) start]
    exact chainNext early
  · refine (next (lastNode mine) ?_).trans seam
    rcases lastIs l.xStart before with here | ⟨d,inside,there⟩
    · rw [here]
      exact start
    · rw [there]
      exact back d inside
  · rw [(reads node.node).2, if_pos rfl]
  · rw [(reads node.node).1, if_pos rfl]
  · rw [next (theirs d inside).node (ahead d inside), nextSetSize node.node (theirs d inside).node]
  · rw [sizes (theirs d inside).node (ahead d inside), sizeSetSize node.node (theirs d inside).node m small,
      if_neg (ahead d inside)]

theorem linkInTouch {pxEnd it a : Nat} (touch : (it + xBlockSize m it) % word = a) : linkIn pxEnd it a m =
    mergeBefore pxEnd it it (setSize m it ((xBlockSize m it + xBlockSize m a) % word)) := by
  unfold linkIn mergeAfter
  rw [if_pos touch]
  simp

theorem linkInApart {pxEnd it a : Nat} (touch : (it + xBlockSize m it) % word ≠ a) (apart : it ≠ a) :
    linkIn pxEnd it a m = setNext (mergeBefore pxEnd it a m) it a := by
  unfold linkIn mergeAfter
  rw [if_neg touch]
  dsimp only
  rw [if_pos apart]

theorem linkInKept {S : Nat → Prop} {pxEnd it a : Nat} (here : ∀ x, Header it x → S x) (there : ∀ x, Header a x → S x)
    (apart : it ≠ a) : Kept S m (linkIn pxEnd it a m) := by
  by_cases touch : (it + xBlockSize m it) % word = a
  · rw [linkInTouch touch]
    exact keptTrans (keptSetSize here m _) (mergeBeforeKept here)
  · rw [linkInApart touch apart]
    exact keptTrans (mergeBeforeKept there) (keptSetNext (fun x low high => here x ⟨low,by omega⟩) _ _)

/- The link in xStart and the headers of some blocks -/
def Links (l : Linker) (blocks : List Span) (x : Nat) : Prop :=
  l.xStart ≤ x ∧ x < l.xStart + 4 ∨ ∃ c ∈ blocks, Header c.addr x

theorem touchStart (placed : Placed l e b before behind m) : (l.xStart + xBlockSize m l.xStart) % word ≠ b.addr := by
  rw [placed.start]
  have := baseAbove l
  have := placed.fits.above
  have := l.xStartBelow
  have := l.room
  unfold word
  omega

theorem linkInLinks (placed : Placed l e b before behind m) :
    Kept (Links l (b :: (before ++ behind))) m (linkIn e (last l.xStart before) b.addr m) := by
  have apart := Nat.ne_of_lt (lastBelow placed)
  have there : ∀ x, Header b.addr x → Links l (b :: (before ++ behind)) x := fun x header =>
    Or.inr ⟨b,List.mem_cons_self ..,header⟩
  rcases lastIs l.xStart before with first | ⟨c,inside,later⟩
  · rw [first] at apart ⊢
    rw [linkInApart (touchStart placed) apart]
    exact keptTrans (mergeBeforeKept there) (keptSetNext (fun x low high => Or.inl ⟨low,high⟩) _ _)
  · rw [later] at apart ⊢
    exact linkInKept (fun x here => Or.inr ⟨c,List.mem_cons_of_mem b (List.mem_append_left _ inside),here⟩) there apart

theorem linkInFirst (placed : Placed l e b [] behind m) :
    Chain (linkIn e l.xStart b.addr m) e l.xStart (insertSpan b behind) := by
  have below : l.xStart < b.addr := lastBelow placed
  have right : ∀ d ∈ behind, b.addr ≤ d.addr := fun d inside =>
    Nat.le_trans (Nat.le_add_right _ _) (placed.right d inside)
  have done := insertedBehind placed
  rw [last, List.nil_append] at done
  rw [linkInApart (touchStart placed) (Nat.ne_of_lt below), insertFirst right]
  exact done

theorem linkInSecond {c : Span} (placed : Placed l e b (before ++ [c]) behind m) :
    Chain (linkIn e c.addr b.addr m) e l.xStart (insertSpan b (before ++ c :: behind)) := by
  have chain := placed.chain
  have gapped := placed.gapped
  have others := placed.others
  rw [List.append_assoc, List.singleton_append] at chain gapped others
  have fits := others c (by simp)
  have left := placed.left c (by simp)
  have right := placed.right
  have size : xBlockSize m c.addr = c.size := (chainAppend.mp chain).2.2.1
  have bound := placed.fits.below
  have low := placed.low
  have some := fits.some
  have mine := placed.fits.some
  have fin : (c.addr + xBlockSize m c.addr) % word = c.fin := by
    rw [size]
    unfold Span.fin word at *
    omega
  have behindIt : c.addr < b.addr := by
    unfold Span.fin at left
    omega
  have rightward : ∀ d ∈ behind, b.addr ≤ d.addr := fun d inside => Nat.le_trans (Nat.le_add_right _ _) (right d inside)
  rw [insertBehind gapped behindIt rightward]
  by_cases near : c.fin = b.addr
  · have whole : c.addr + (c.size + b.size) = b.fin := by
      unfold Span.fin at *
      omega
    have sum : (xBlockSize m c.addr + xBlockSize m b.addr) % word = c.size + b.size := by
      rw [size, placed.size]
      unfold Span.fin word at *
      omega
    rw [linkInTouch (fin.trans near), joinJoin near, sum]
    refine insertedInto chain ⟨fits.node,fits.above,?_,?_⟩ others gapped ?_ low
    · exact Nat.le_trans (Nat.le_of_eq whole) bound
    · exact Nat.le_trans some (Nat.le_add_right _ _)
    · exact whole ▸ right
  · have apart : (c.addr + xBlockSize m c.addr) % word ≠ b.addr := by
      rw [fin]
      exact near
    have done := insertedBehind placed
    have kept : join c (join b behind) = c :: join b behind := by
      rw [joinEq b behind, join, if_neg near]
    rw [lastAppend, last, last, List.append_assoc] at done
    rw [linkInApart apart (Nat.ne_of_lt behindIt), kept]
    exact done

theorem linkInChain (placed : Placed l e b before behind m) :
    Chain (linkIn e (last l.xStart before) b.addr m) e l.xStart (insertSpan b (before ++ behind)) := by
  rcases List.eq_nil_or_concat' before with rfl | ⟨earlier,c,rfl⟩
  · exact linkInFirst placed
  · rw [lastAppend, List.append_assoc]
    exact linkInSecond placed

/- A block that none of the free ones overlaps -/
theorem prvInsert {h : Heap} {free : List Span} (ended : h.pxEnd = e) (chain : Chain h.mem e l.xStart free)
    (start : xBlockSize h.mem l.xStart = 0) (size : xBlockSize h.mem b.addr = b.size) (fits : Fits l e b)
    (others : ∀ c ∈ free, Fits l e c) (gapped : Gapped l.base free) (apart : ∀ c ∈ free, b.Apart c)
    (low : e < 2 ^ 31) (short : free.length < word) :
    ∃ m, prvInsertBlockIntoFreeList l b.addr h = some { h with mem := m } ∧ Chain m e l.xStart (insertSpan b free) ∧
      Kept (Links l (b :: free)) h.mem m := by
  obtain ⟨before,behind,rfl,left,right⟩ := gappedSplit gapped b.addr
  have placed : Placed l e b before behind h.mem := by
    refine ⟨chain,start,size,fits,others,gapped,fun c inside => ?_,fun c inside => ?_,low⟩
    · rcases apart c (List.mem_append_left _ inside) with high | low
      · have := left c inside
        have := fits.some
        unfold Span.fin at high
        omega
      · exact low
    · rcases apart c (List.mem_append_right _ inside) with high | low
      · exact high
      · have := right c inside
        have := (others c (List.mem_append_right _ inside)).some
        unfold Span.fin at low
        omega
  have ahead : b.addr ≤ head e behind := by
    cases behind with
    | nil => exact Nat.le_trans (Nat.le_add_right _ _) fits.below
    | cons c behind => exact right c (List.mem_cons_self ..)
  have short' : before.length < word := by
    rw [List.length_append] at short
    omega
  refine ⟨_,?_,linkInChain placed,linkInLinks placed⟩
  unfold prvInsertBlockIntoFreeList
  rw [ended, iterateStops chain left ahead short']
  rfl

end Insert
end YunbaIot.Heap4
