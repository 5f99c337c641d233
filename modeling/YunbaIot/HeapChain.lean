import YunbaIot.FreeList
import YunbaIot.Heap4

/-! The list of free blocks in memory: what each link says, and what the insertion of a block makes of it. -/
namespace YunbaIot.Heap4
open FreeList

theorem loadStore (m : Memory) (a : Nat) {v : Nat} (bound : v < word) : load (store m a v) a = v := by
  have held := Memory.sliceOfHolds (Memory.holdsStore m a (BigEndian.encode 4 v).reverse)
  rw [List.length_reverse, BigEndian.encodeLength] at held
  unfold load store
  rw [held, List.reverse_reverse, BigEndian.valueEncode 4 v bound]

theorem storeOutside (m : Memory) (a v : Nat) {x : Nat} (outside : x < a ∨ a + 4 ≤ x) :
    (store m a v).byte x = m.byte x := by
  apply Memory.storeOutside
  rw [List.length_reverse, BigEndian.encodeLength]
  exact outside

theorem loadCongr {m m' : Memory} {a : Nat} (same : ∀ i, a ≤ i → i < a + 4 → m'.byte i = m.byte i) :
    load m' a = load m a := by
  unfold load
  rw [Memory.sliceCongr same]

theorem loadApart (m : Memory) (v : Nat) {a b : Nat} (apart : a + 4 ≤ b ∨ b + 4 ≤ a) :
    load (store m b v) a = load m a :=
  loadCongr fun i low high => storeOutside m b v (by omega)

/-! xStart and the places of blocks do not overlap -/

def Linker.base (l : Linker) : Nat := andNot (l.heapStart + portByteAlignment) portByteAlignmentMask

theorem andNotMask (x : Nat) : andNot x portByteAlignmentMask = 8 * (x / 8 % 2 ^ 29) := BigEndian.masked x 3 29

theorem baseAbove (l : Linker) : l.xStart + 8 < l.base := by
  have low := l.xStartBelow
  have high := l.room
  unfold Linker.base portByteAlignment
  rw [andNotMask]
  omega

def Node (l : Linker) (a : Nat) : Prop := a = l.xStart ∨ 8 ∣ a ∧ l.base ≤ a

theorem nodesApart {l : Linker} {a b : Nat} (left : Node l a) (right : Node l b) :
    a = b ∨ a + 8 ≤ b ∨ b + 8 ≤ a := by
  have above := baseAbove l
  rcases left with rfl | ⟨whole,low⟩ <;> rcases right with rfl | ⟨whole',low'⟩ <;> omega

section Reads
variable {l : Linker} {a b : Nat} (left : Node l a) (right : Node l b) (m : Memory)
include left right

theorem nextSetNext {v : Nat} (bound : v < word) :
    pxNextFreeBlock (setNext m a v) b = if b = a then v else pxNextFreeBlock m b := by
  unfold pxNextFreeBlock setNext
  split
  · rename_i same
    rw [same, loadStore m a bound]
  · exact loadApart m v (by have := nodesApart left right; omega)

theorem sizeSetSize {v : Nat} (bound : v < word) :
    xBlockSize (setSize m a v) b = if b = a then v else xBlockSize m b := by
  unfold xBlockSize setSize
  split
  · rename_i same
    rw [same, loadStore m (a + 4) bound]
  · exact loadApart m v (by have := nodesApart left right; omega)

theorem nextSetSize (v : Nat) : pxNextFreeBlock (setSize m a v) b = pxNextFreeBlock m b :=
  loadApart m v (by have := nodesApart left right; omega)

theorem sizeSetNext (v : Nat) : xBlockSize (setNext m a v) b = xBlockSize m b :=
  loadApart m v (by have := nodesApart left right; omega)

end Reads

/-! Blocks linked one to the next, from the link at p to the address e -/

def Chain (m : Memory) (e : Nat) : Nat → List Span → Prop
  | p, [] => pxNextFreeBlock m p = e
  | p, b :: blocks => pxNextFreeBlock m p = b.addr ∧ xBlockSize m b.addr = b.size ∧ Chain m e b.addr blocks

def last (p : Nat) : List Span → Nat
  | [] => p
  | b :: blocks => last b.addr blocks

def head (e : Nat) : List Span → Nat
  | [] => e
  | b :: _ => b.addr

theorem lastAppend (p : Nat) (before behind : List Span) : last p (before ++ behind) = last (last p before) behind := by
  induction before generalizing p with
  | nil => rfl
  | cons b before ih => exact ih b.addr

theorem lastIs (p : Nat) (blocks : List Span) : last p blocks = p ∨ ∃ b ∈ blocks, last p blocks = b.addr := by
  induction blocks generalizing p with
  | nil => exact Or.inl rfl
  | cons b blocks ih =>
    rcases ih b.addr with here | ⟨c,inside,there⟩
    · exact Or.inr ⟨b,List.mem_cons_self ..,here⟩
    · exact Or.inr ⟨c,List.mem_cons_of_mem b inside,there⟩

theorem chainNext {m : Memory} {e p : Nat} {blocks : List Span} (chain : Chain m e p blocks) :
    pxNextFreeBlock m p = head e blocks := by
  cases blocks with
  | nil => exact chain
  | cons b blocks => exact chain.1

theorem chainAppend {m : Memory} {e p : Nat} {before behind : List Span} :
    Chain m e p (before ++ behind) ↔ Chain m (head e behind) p before ∧ Chain m e (last p before) behind := by
  induction before generalizing p with
  | nil => exact ⟨fun chain => ⟨chainNext chain,chain⟩,fun both => both.2⟩
  | cons b before ih =>
    rw [List.cons_append, Chain, ih, Chain, last]
    tauto

/- The blocks may be entered from another link. -/
theorem chainFrom {m m' : Memory} {e p q : Nat} {blocks : List Span} (chain : Chain m e p blocks)
    (first : pxNextFreeBlock m' q = head e blocks)
    (same : ∀ b ∈ blocks, pxNextFreeBlock m' b.addr = pxNextFreeBlock m b.addr ∧ xBlockSize m' b.addr = xBlockSize m b.addr) :
    Chain m' e q blocks := by
  induction blocks generalizing p q with
  | nil => exact first
  | cons b blocks ih =>
    obtain ⟨here,rest⟩ := List.forall_mem_cons.mp same
    exact ⟨first,here.2.trans chain.2.1,ih chain.2.2 (here.1.trans (chainNext chain.2.2)) rest⟩

theorem chainRest {m m' : Memory} {e p q : Nat} {b : Span} {blocks : List Span} (chain : Chain m e p blocks)
    (first : pxNextFreeBlock m' q = head e (joinRest b blocks))
    (same : ∀ b ∈ blocks, pxNextFreeBlock m' b.addr = pxNextFreeBlock m b.addr ∧ xBlockSize m' b.addr = xBlockSize m b.addr) :
    Chain m' e q (joinRest b blocks) := by
  cases blocks with
  | nil => exact first
  | cons c blocks =>
    rw [joinRest] at first ⊢
    split at first <;> rename_i near
    · rw [if_pos near]
      exact chainFrom chain.2.2 first (List.forall_mem_cons.mp same).2
    · rw [if_neg near]
      exact chainFrom chain first same

/- Only the last link is changed. -/
theorem chainRelink {m m' : Memory} {e e' p : Nat} {blocks : List Span} (chain : Chain m e p blocks)
    (once : (p :: blocks.map Span.addr).Nodup) (turned : pxNextFreeBlock m' (last p blocks) = e')
    (first : p ≠ last p blocks → pxNextFreeBlock m' p = pxNextFreeBlock m p)
    (same : ∀ b ∈ blocks, (b.addr ≠ last p blocks → pxNextFreeBlock m' b.addr = pxNextFreeBlock m b.addr) ∧
      xBlockSize m' b.addr = xBlockSize m b.addr) : Chain m' e' p blocks := by
  induction blocks generalizing p with
  | nil => exact turned
  | cons b blocks ih =>
    obtain ⟨here,rest⟩ := List.forall_mem_cons.mp same
    obtain ⟨new,others⟩ := List.nodup_cons.mp once
    have further : p ≠ last p (b :: blocks) := by
      intro back
      rw [last] at back
      apply new
      rcases lastIs b.addr blocks with there | ⟨c,inside,there⟩
      · rw [back, there]
        exact List.mem_cons_self ..
      · rw [back, there]
        exact List.mem_map.mpr ⟨c,List.mem_cons_of_mem b inside,rfl⟩
    exact ⟨(first further).trans chain.1,here.2.trans chain.2.1,ih chain.2.2 others turned here.1 rest⟩

theorem iterateStops {m : Memory} {e p b steps : Nat} {before behind : List Span}
    (chain : Chain m e p (before ++ behind)) (left : ∀ c ∈ before, c.addr < b) (right : b ≤ head e behind)
    (enough : before.length < steps) : iterate m b steps p = some (last p before) := by
  induction before generalizing p steps with
  | nil =>
    cases steps with
    | zero => cases enough
    | succ steps =>
      rw [iterate, chainNext chain, if_neg (by simpa using right)]
      rfl
  | cons c before ih =>
    cases steps with
    | zero => cases enough
    | succ steps =>
      obtain ⟨near,further⟩ := List.forall_mem_cons.mp left
      rw [iterate, chain.1, if_pos near, last]
      exact ih chain.2.2 further (Nat.lt_of_succ_lt_succ enough)

theorem seekStops {m : Memory} {e p n steps : Nat} {before behind : List Span}
    (chain : Chain m e p (before ++ behind)) (short : ∀ c ∈ before, c.size < n)
    (there : ∀ c ∈ before ++ behind, c.addr ≠ 0) (nonzero : e ≠ 0)
    (stop : n ≤ xBlockSize m (head e behind) ∨ pxNextFreeBlock m (head e behind) = 0)
    (enough : before.length < steps) :
    seek m n steps p (pxNextFreeBlock m p) = some (last p before,head e behind) := by
  induction before generalizing p steps with
  | nil =>
    cases steps with
    | zero => cases enough
    | succ steps =>
      rw [seek, chainNext chain, if_neg (by simp only [List.nil_append]; omega)]
      rfl
  | cons c before ih =>
    cases steps with
    | zero => cases enough
    | succ steps =>
      obtain ⟨near,further⟩ := List.forall_mem_cons.mp short
      have rest : ∀ d ∈ before ++ behind, d.addr ≠ 0 := (List.forall_mem_cons.mp there).2
      have chain' : Chain m e c.addr (before ++ behind) := chain.2.2
      have onward : pxNextFreeBlock m c.addr ≠ 0 := by
        rw [chainNext chain']
        cases form : before ++ behind with
        | nil => exact nonzero
        | cons d k => exact rest d (by rw [form]; exact List.mem_cons_self ..)
      rw [seek, chain.1, if_pos ⟨by rw [chain.2.1]; exact near,onward⟩, last]
      exact ih chain' further rest (Nat.lt_of_succ_lt_succ enough)

end YunbaIot.Heap4
