import Mathlib.Data.List.Forall2
import YunbaIot.HeapLend

/-! Programs that use the heap: they call the functions of heap_4.c with what they were given, and they write
where they were told to. -/
namespace YunbaIot.Heap4
open FreeList

def fresh (l : Linker) : Lendable l :=
  Arena.fresh (by have := bounds l; omega) (bounds l).2.2.1 (bounds l).2.2.2

/- Before its first use the heap stands for all of its memory. -/
def Ready (l : Linker) (h : Heap) (a : Lendable l) : Prop := h.pxEnd = 0 ∧ a = fresh l ∨ Represents l h a

theorem heapInit (l : Linker) (h : Heap) : Represents l (prvHeapInit l h) (fresh l) ∧
    Kept (Private l (fresh l)) h.mem (prvHeapInit l h).mem := by
  have above := baseAbove l
  obtain ⟨room,high,low,whole⟩ := bounds l
  have start : Node l l.xStart := Or.inl rfl
  have base : Node l l.base := Or.inr ⟨low,Nat.le_refl _⟩
  have fin : Node l l.fin := Or.inr ⟨whole,by omega⟩
  have small : l.fin < word := by unfold word; omega
  have size : andNot l.heapAdjustedHeapSize portByteAlignmentMask - heapStructSize = l.fin - l.base := by
    unfold Linker.fin at room ⊢
    rw [heapStructSizeEq] at room ⊢
    omega
  let m₁ := setNext h.mem l.xStart l.base
  let m₂ := setSize m₁ l.xStart 0
  let m₃ := setSize m₂ l.fin 0
  let m₄ := setNext m₃ l.fin 0
  let m₅ := setSize m₄ l.base (l.fin - l.base)
  let m₆ := setNext m₅ l.base l.fin
  have next : ∀ {q : Nat}, Node l q → pxNextFreeBlock m₆ q = if q = l.base then l.fin else if q = l.fin then 0 else
      if q = l.xStart then l.base else pxNextFreeBlock h.mem q := by
    intro q there
    rw [nextSetNext base there m₅ small, nextSetSize base there, nextSetNext fin there m₃ (by decide),
      nextSetSize fin there, nextSetSize start there, nextSetNext start there h.mem (by unfold word; omega)]
  have sizes : ∀ {q : Nat}, Node l q → xBlockSize m₆ q = if q = l.base then l.fin - l.base else if q = l.fin then 0 else
      if q = l.xStart then 0 else xBlockSize h.mem q := by
    intro q there
    rw [sizeSetNext base there, sizeSetSize base there m₄ (by unfold word; omega), sizeSetNext fin there,
      sizeSetSize fin there m₂ (by decide), sizeSetSize start there m₁ (by decide), sizeSetNext start there]
  have same : prvHeapInit l h = ⟨m₆,l.fin,andNot l.heapAdjustedHeapSize portByteAlignmentMask,l.fin - l.base,2 ^ 31⟩ := by
    unfold prvHeapInit
    dsimp only
    rw [size]
    rfl
  rw [same]
  refine ⟨{
    pxEnd := rfl
    bit := rfl
    remaining := by simp [fresh, Arena.fresh]
    chain := ⟨?_,?_,?_⟩
    start := ?_
    endSize := ?_
    endNext := ?_
    live := by simp [fresh, Arena.fresh] },?_⟩
  · rw [next start, if_neg (by omega), if_neg (by omega), if_pos rfl]
  · rw [sizes base, if_pos rfl]
  · exact (next base).trans (if_pos rfl)
  · rw [sizes start, if_neg (by omega), if_neg (by omega), if_pos rfl]
  · rw [sizes fin, if_neg (by omega), if_pos rfl]
  · rw [next fin, if_neg (by omega), if_pos rfl]
  · have first : ∀ x, Header l.xStart x → Private l (fresh l) x := fun x here => Or.inl here
    have last : ∀ x, Header l.fin x → Private l (fresh l) x := fun x here => Or.inr (Or.inr (Or.inr here))
    have whole : ∀ x, Header l.base x → Private l (fresh l) x := fun x here =>
      Or.inr (Or.inl ⟨⟨l.base,l.fin - l.base⟩,List.mem_singleton_self _,here.1,by
        have := here.2
        unfold Span.fin
        simp only
        omega⟩)
    have link : ∀ {p : Nat}, (∀ x, Header p x → Private l (fresh l) x) → ∀ x, p ≤ x → x < p + 4 → Private l (fresh l) x :=
      fun own x low high => own x ⟨low,by omega⟩
    exact keptTrans (keptTrans (keptTrans (keptTrans (keptTrans (keptSetNext (link first) h.mem _)
      (keptSetSize first m₁ _)) (keptSetSize last m₂ _)) (keptSetNext (link last) m₃ _)) (keptSetSize whole m₄ _))
      (keptSetNext (link whole) m₅ _)

/-! pvPortMalloc and vPortFree on a heap in use -/

section Calls
variable {l : Linker} {h : Heap} {a : Lendable l}

theorem ownPrivate {x : Nat} (own : Own a x) : Private l a x := by
  rcases own with ⟨low,high⟩ | free
  · exact Or.inl ⟨low,by omega⟩
  · exact Or.inr (Or.inl free)

/- What pvPortMalloc comes to: nothing, or a block at the lowest place where there is room -/
inductive Lent (l : Linker) (n : Nat) (a : Lendable l) : Nat → Lendable l → Prop
  | refused (none : ¬ Askable n ∨ carve (xPortWantedSizeAlign n) 16 a.free = none) : Lent l n a 0 a
  | served {c rest} (ask : Askable n) (some : 0 < xPortWantedSizeAlign n) (whole : 8 ∣ xPortWantedSizeAlign n)
      (done : carve (xPortWantedSizeAlign n) 16 a.free = .some (c,rest)) : Lent l n a (c.addr + 8) (a.lend some whole done)

theorem mallocRepresents {n : Nat} (rep : Represents l h a) (bound : n < word) :
    ∃ p a' h', pvPortMalloc l n h = some (p,h') ∧ Lent l n a p a' ∧ Represents l h' a' ∧ Kept (Private l a) h.mem h'.mem := by
  by_cases ask : Askable n
  · have size := wantedSize ask.2
    cases done : carve (xPortWantedSizeAlign n) 16 a.free with
    | none => exact ⟨0,a,h,mallocNone rep ask done,.refused (Or.inr done),rep,keptRefl _ _⟩
    | some cut =>
      obtain ⟨c,rest⟩ := cut
      have whole : 8 ∣ xPortWantedSizeAlign n := size ▸ Nat.dvd_mul_left 8 _
      obtain ⟨h',lent,after,kept⟩ := mallocSome rep ask (by rw [size]; omega) whole done
      exact ⟨_,_,h',lent,.served ask (by rw [size]; omega) whole done,after,fun x outside =>
        kept x fun own => outside (ownPrivate own)⟩
  · exact ⟨0,a,h,mallocRefused rep bound ask,.refused (Or.inl ask),rep,keptRefl _ _⟩

theorem mallocFirst (started : h.pxEnd = 0) (n : Nat) : pvPortMalloc l n h = pvPortMalloc l n (prvHeapInit l h) := by
  have again : (prvHeapInit l h).pxEnd ≠ 0 := by
    have := (bounds l).1
    rw [(heapInit l h).1.pxEnd]
    omega
  unfold pvPortMalloc
  rw [if_pos started, if_neg again]

theorem mallocReady {n : Nat} (ready : Ready l h a) (bound : n < word) :
    ∃ p a' h', pvPortMalloc l n h = some (p,h') ∧ Lent l n a p a' ∧ Represents l h' a' ∧ Kept (Private l a) h.mem h'.mem := by
  rcases ready with ⟨started,rfl⟩ | rep
  · obtain ⟨p,a',h',lent,cut,after,kept⟩ := mallocRepresents (heapInit l h).1 bound
    rw [mallocFirst started]
    exact ⟨p,a',h',lent,cut,after,keptTrans (heapInit l h).2 kept⟩
  · exact mallocRepresents rep bound

theorem freeRepresents {b : Span} (rep : Represents l h a) (lent : b ∈ a.live) :
    ∃ h', vPortFree l (b.addr + 8) h = some h' ∧ Represents l h' (a.release lent) ∧ Kept (Private l a) h.mem h'.mem := by
  obtain ⟨h',done,after,kept⟩ := vPortFreeLive rep lent
  refine ⟨h',done,after,fun x outside => kept x ?_⟩
  rintro (⟨low,high⟩ | ⟨c,inside,here⟩)
  · exact outside (Or.inl ⟨low,by omega⟩)
  · rcases List.mem_cons.mp inside with rfl | free
    · exact outside (Or.inr (Or.inr (Or.inl ⟨_,lent,here⟩)))
    · exact outside (Or.inr (Or.inl ⟨c,free,fitsHeader (freeFits a free) here⟩))

theorem freeNull (h : Heap) : vPortFree l 0 h = some h := rfl

end Calls

/-! A program and its heap -/

/- Beside the heap: the pointers it has given out, and for how many bytes each -/
structure World where
  heap : Heap
  given : List (Nat × Nat)

inductive Call
  | malloc (xWantedSize : Nat)
  | calloc (count size : Nat)
  | realloc (mem newsize : Nat)
  | free (pv : Nat)
  | write (m : Memory)

def give (p n : Nat) (given : List (Nat × Nat)) : List (Nat × Nat) := if p = 0 then given else (p,n) :: given
def drop (p : Nat) (given : List (Nat × Nat)) : List (Nat × Nat) := given.filter (·.1 ≠ p)

def perform (l : Linker) (w : World) : Call → Option World
  | .malloc n => (pvPortMalloc l n w.heap).map fun (p,h) => ⟨h,give p n w.given⟩
  | .calloc count size => (pvPortCalloc l count size w.heap).map fun (p,h) => ⟨h,give p (count * size % word) w.given⟩
  | .realloc mem n => (pvPortRealloc l mem n w.heap).map fun (p,h) =>
      ⟨h,give p n (if n = 0 ∨ p ≠ 0 then drop mem w.given else w.given)⟩
  | .free pv => (vPortFree l pv w.heap).map fun h => ⟨h,drop pv w.given⟩
  | .write m => some ⟨{ w.heap with mem := m },w.given⟩

/- The bytes a program may write: those it was given, and those that are not of the heap -/
def Writable (l : Linker) (w : World) (x : Nat) : Prop :=
  (∃ g ∈ w.given, g.1 ≤ x ∧ x < g.1 + g.2) ∨ ¬ (Header l.xStart x ∨ l.base ≤ x ∧ x < l.fin + 8)

def Allowed (l : Linker) (w : World) : Call → Prop
  | .malloc n => n < word
  | .calloc count size => count < word ∧ size < word
  | .realloc mem n => (mem = 0 ∨ ∃ n, (mem,n) ∈ w.given) ∧ n < word
  | .free pv => pv = 0 ∨ ∃ n, (pv,n) ∈ w.given
  | .write m => ∀ x, ¬ Writable l w x → m.byte x = w.heap.mem.byte x

inductive Reach (l : Linker) : World → Prop
  | start (m : Memory) : Reach l ⟨⟨m,0,0,0,0⟩,[]⟩
  | step {w w' : World} {c : Call} (before : Reach l w) (allowed : Allowed l w c) (done : perform l w c = some w') :
      Reach l w'

/- A block that is lent and the pointer that stands for it -/
def Stands (b : Span) (g : Nat × Nat) : Prop :=
  g.1 = b.addr + 8 ∧ (g.2 + 15) / 8 * 8 ≤ b.size ∧ b.size ≤ (g.2 + 15) / 8 * 8 + 16

def Sound (l : Linker) (w : World) : Prop := ∃ a : Lendable l, Ready l w.heap a ∧ List.Forall₂ Stands a.live w.given

section Given
variable {l : Linker} {a : Lendable l} {given : List (Nat × Nat)}

theorem standsFor {live : List Span} (stands : List.Forall₂ Stands live given) {g : Nat × Nat} (there : g ∈ given) :
    ∃ b ∈ live, Stands b g := by
  induction stands with
  | nil => cases there
  | cons first _ ih =>
    rcases List.mem_cons.mp there with rfl | later
    · exact ⟨_,List.mem_cons_self ..,first⟩
    · obtain ⟨b,inside,here⟩ := ih later
      exact ⟨b,List.mem_cons_of_mem _ inside,here⟩

theorem standsOf {live : List Span} (stands : List.Forall₂ Stands live given) {b : Span} (there : b ∈ live) :
    ∃ g ∈ given, Stands b g := by
  induction stands with
  | nil => cases there
  | cons first _ ih =>
    rcases List.mem_cons.mp there with rfl | later
    · exact ⟨_,List.mem_cons_self ..,first⟩
    · obtain ⟨g,inside,here⟩ := ih later
      exact ⟨g,List.mem_cons_of_mem _ inside,here⟩

theorem liveOnce {b c : Span} (one : b ∈ a.live) (two : c ∈ a.live) (place : b.addr = c.addr) : b = c := by
  by_contra different
  have apart := a.liveApart one two different
  have := (a.within b one).2.1
  have := (a.within c two).2.1
  unfold Span.Apart Span.fin at apart
  omega

theorem liveNodup (a : Lendable l) : a.live.Nodup := by
  refine a.apart.imp_of_mem fun {b c} one _ apart same => ?_
  have := (a.within b one).2.1
  subst same
  unfold Span.Apart Span.fin at apart
  omega

/- The block goes with its pointer. -/
theorem standsDrop (stands : List.Forall₂ Stands a.live given) {b : Span} (lent : b ∈ a.live) :
    List.Forall₂ Stands (a.live.erase b) (drop (b.addr + 8) given) := by
  have same : a.live.erase b = a.live.filter (·.addr + 8 ≠ b.addr + 8) := by
    rw [(liveNodup a).erase_eq_filter]
    refine List.filter_congr fun c inside => ?_
    by_cases here : c = b
    · simp [here]
    · have : c.addr ≠ b.addr := fun place => here (liveOnce inside lent place)
      simp [here, this]
  rw [same]
  refine List.rel_filter (fun c g there => ?_) stands
  simp [there.1]

theorem dropNull (stands : List.Forall₂ Stands a.live given) : drop 0 given = given := by
  refine List.filter_eq_self.mpr fun g inside => ?_
  obtain ⟨b,_,place,_⟩ := standsFor stands inside
  simp [place]

theorem payloadOutside {b : Span} (lent : b ∈ a.live) {x : Nat} (low : b.addr + 8 ≤ x) (high : x < b.fin) :
    ¬ Private l a x := by
  have fits := liveFits a lent
  have here : b.Has x := ⟨by omega,high⟩
  have := baseAbove l
  have := fits.above
  have := fits.below
  rintro (start | free | ⟨c,lent',there⟩ | last)
  · unfold Header at start
    omega
  · obtain ⟨c,free,there⟩ := free
    exact Span.apartHas (a.freeLive free lent) there here
  · by_cases same : c = b
    · subst same
      unfold Header at there
      omega
    · exact Span.apartHas (a.liveApart lent lent' (Ne.symm same)) here
        (fitsHeader (liveFits a lent') there)
  · unfold Header at last
    omega

end Given

section Perform
variable {l : Linker} {h : Heap} {a : Lendable l} {given : List (Nat × Nat)}

/- A call leaves the heap sound and writes to no byte that was not the allocator's own. -/
structure Sane (l : Linker) (a a' : Lendable l) (h h' : Heap) (given : List (Nat × Nat)) : Prop where
  after : Ready l h' a'
  stands : List.Forall₂ Stands a'.live given
  kept : Kept (Private l a) h.mem h'.mem

theorem lentStands {n p : Nat} {a' : Lendable l} (lent : Lent l n a p a') (stands : List.Forall₂ Stands a.live given) :
    List.Forall₂ Stands a'.live (give p n given) := by
  cases lent with
  | refused none => exact stands
  | @served c rest ask some whole done =>
    have cut := carved a.gapped some done
    have size := wantedSize ask.2
    unfold give
    rw [if_neg (Nat.succ_ne_zero _)]
    exact List.Forall₂.cons ⟨rfl,size ▸ cut.fits,size ▸ cut.tight⟩ stands

theorem saneMalloc {n : Nat} (ready : Ready l h a) (stands : List.Forall₂ Stands a.live given) (bound : n < word) :
    ∃ p a' h', pvPortMalloc l n h = some (p,h') ∧ Lent l n a p a' ∧ Represents l h' a' ∧
      Sane l a a' h h' (give p n given) := by
  obtain ⟨p,a',h',done,lent,after,kept⟩ := mallocReady ready bound
  exact ⟨p,a',h',done,lent,after,Or.inr after,lentStands lent stands,kept⟩

theorem saneFree {pv : Nat} (ready : Ready l h a) (stands : List.Forall₂ Stands a.live given)
    (mine : pv = 0 ∨ ∃ n, (pv,n) ∈ given) : ∃ a' h', vPortFree l pv h = some h' ∧ Sane l a a' h h' (drop pv given) := by
  rcases mine with rfl | ⟨n,there⟩
  · exact ⟨a,h,rfl,ready,(dropNull stands).symm ▸ stands,keptRefl _ _⟩
  · obtain ⟨b,lent,place,_⟩ := standsFor stands there
    rcases ready with ⟨_,rfl⟩ | rep
    · cases lent
    · obtain ⟨h',done,after,kept⟩ := freeRepresents rep lent
      simp only at place
      subst place
      exact ⟨a.release lent,h',done,Or.inr after,standsDrop stands lent,kept⟩

theorem lentPrivate {n p : Nat} {a' : Lendable l} (lent : Lent l n a p a') {x : Nat} (own : Private l a' x) :
    Private l a x := by
  cases lent with
  | refused none => exact own
  | @served c rest ask some whole done =>
    have cut := carved a.gapped some done
    have fits : Fits l l.fin c := liveFits (a.lend some whole done) (List.mem_cons_self ..)
    rcases own with start | free | ⟨b,lent,here⟩ | last
    · exact Or.inl start
    · exact Or.inr (Or.inl ((cut.covers x).mpr (Or.inr free)))
    · rcases List.mem_cons.mp lent with rfl | lent
      · exact Or.inr (Or.inl ((cut.covers x).mpr (Or.inl (fitsHeader fits here))))
      · exact Or.inr (Or.inr (Or.inl ⟨b,lent,here⟩))
    · exact Or.inr (Or.inr (Or.inr last))

/- The bytes of a new block were free before and are the program's now. -/
theorem lentPayload {n p : Nat} {a' : Lendable l} (lent : Lent l n a p a') (nonzero : p ≠ 0) {x : Nat} (low : p ≤ x)
    (high : x < p + n) : Private l a x ∧ ¬ Private l a' x := by
  cases lent with
  | refused none => exact absurd rfl nonzero
  | @served c rest ask some whole done =>
    have cut := carved a.gapped some done
    have room := cut.fits
    rw [wantedSize ask.2] at room
    have inside : x < c.fin := by
      unfold Span.fin
      omega
    exact ⟨Or.inr (Or.inl ((cut.covers x).mpr (Or.inl ⟨by omega,inside⟩))),
      payloadOutside (a := a.lend some whole done) (List.mem_cons_self ..) low inside⟩

theorem saneFill {n p : Nat} {a' : Lendable l} {h' : Heap} (lent : Lent l n a p a') (nonzero : p ≠ 0)
    (after : Represents l h' a') (sane : Sane l a a' h h' given) {m : Memory}
    (used : ∀ x, ¬ (p ≤ x ∧ x < p + n) → m.byte x = h'.mem.byte x) :
    Represents l { h' with mem := m } a' ∧ Sane l a a' h { h' with mem := m } given := by
  have again : Represents l { h' with mem := m } a' := by
    refine representsCongr after fun x own => used x fun ⟨low,high⟩ => ?_
    exact (lentPayload lent nonzero low high).2 own
  refine ⟨again,Or.inr again,sane.stands,fun x outside => ?_⟩
  refine (used x fun ⟨low,high⟩ => ?_).trans (sane.kept x outside)
  exact outside (lentPayload lent nonzero low high).1

theorem saneCalloc (count size : Nat) (ready : Ready l h a) (stands : List.Forall₂ Stands a.live given) :
    ∃ p a' h', pvPortCalloc l count size h = some (p,h') ∧ Sane l a a' h h' (give p (count * size % word) given) ∧
      (p ≠ 0 → ∀ i < count * size % word, h'.mem.byte (p + i) = 0) := by
  obtain ⟨p,a',h',done,lent,after,sane⟩ := saneMalloc ready stands (Nat.mod_lt (count * size) (by decide))
  unfold pvPortCalloc
  rw [done]
  simp only [Option.bind_eq_bind, Option.bind_some]
  by_cases zero : p = 0
  · rw [if_neg (not_not.mpr zero)]
    exact ⟨p,a',h',rfl,sane,fun nonzero => absurd zero nonzero⟩
  · rw [if_pos zero]
    refine ⟨p,a',_,rfl,(saneFill lent zero after sane fun x outside => ?_).2,fun _ i small => ?_⟩
    · apply Memory.storeOutside
      rw [List.length_replicate]
      omega
    · refine (Memory.storeInside _ p _ i (by rw [List.length_replicate]; exact small)).trans ?_
      exact List.getElem_replicate _

theorem giveDrop {p q : Nat} (different : p ≠ q) (n : Nat) : drop q (give p n given) = give p n (drop q given) := by
  unfold give drop
  split
  · rfl
  · rw [List.filter_cons_of_pos (by simpa using different)]

/- What pvPortRealloc does once it has the new block -/
theorem saneMove {n p mem k : Nat} {a' : Lendable l} {h' : Heap} (lent : Lent l n a p a') (nonzero : p ≠ 0)
    (after : Represents l h' a') (sane : Sane l a a' h h' (give p n given))
    (stands : List.Forall₂ Stands a.live given) (mine : (mem,k) ∈ given) :
    ∃ a'' h'', vPortFree l mem { h' with mem := memcpy h'.mem p mem n } = some h'' ∧
      Sane l a a'' h h'' (give p n (drop mem given)) ∧ ∀ i < min k n, h''.mem.byte (p + i) = h.mem.byte (mem + i) := by
  have copied : ∀ i < n, (memcpy h'.mem p mem n).byte (p + i) = h'.mem.byte (mem + i) := by
    intro i small
    refine (Memory.storeInside _ p _ i (by rw [Memory.sliceLength]; exact small)).trans ?_
    exact Memory.sliceGet _ _ small _
  obtain ⟨again,sane'⟩ := saneFill lent nonzero after sane (m := memcpy h'.mem p mem n) fun x outside => by
    apply Memory.storeOutside
    rw [Memory.sliceLength]
    omega
  have mine' : (mem,k) ∈ give p n given := by
    unfold give
    rw [if_neg nonzero]
    exact List.mem_cons_of_mem _ mine
  obtain ⟨a'',h'',freed,last⟩ := saneFree (Or.inr again) sane'.stands (Or.inr ⟨k,mine'⟩)
  obtain ⟨b,there,place,room,_⟩ := standsFor stands mine
  have payload : ∀ i < k, b.addr + 8 ≤ mem + i ∧ mem + i < b.fin := by
    intro i small
    simp only at place room
    unfold Span.fin
    omega
  have different : p ≠ mem := by
    cases lent with
    | refused none => exact absurd rfl nonzero
    | @served c rest ask some whole done =>
      intro same
      have apart := List.rel_of_pairwise_cons (a.lend some whole done).apart there
      have := (a.within b there).2.1
      have := ((a.lend some whole done).within c (List.mem_cons_self ..)).2.1
      unfold Span.Apart Span.fin at apart
      simp only at place
      omega
  refine ⟨a'',h'',freed,⟨last.after,giveDrop different n ▸ last.stands,fun x outside => ?_⟩,fun i small => ?_⟩
  · exact (last.kept x fun own => outside (lentPrivate lent own)).trans (sane'.kept x outside)
  · have new := (lentPayload lent nonzero (Nat.le_add_right p i) (by omega)).2
    obtain ⟨low,high⟩ := payload i (by omega)
    rw [last.kept _ new, copied i (by omega), sane.kept _ (payloadOutside there low high)]

theorem saneRealloc {mem n : Nat} (ready : Ready l h a) (stands : List.Forall₂ Stands a.live given)
    (mine : mem = 0 ∨ ∃ k, (mem,k) ∈ given) (bound : n < word) :
    ∃ p a' h', pvPortRealloc l mem n h = some (p,h') ∧
      Sane l a a' h h' (give p n (if n = 0 ∨ p ≠ 0 then drop mem given else given)) ∧
      (p ≠ 0 → ∀ k, (mem,k) ∈ given → ∀ i < min k n, h'.mem.byte (p + i) = h.mem.byte (mem + i)) := by
  unfold pvPortRealloc
  by_cases zero : n = 0
  · obtain ⟨a',h',done,sane⟩ := saneFree ready stands mine
    rw [if_pos zero, done]
    refine ⟨0,a',h',rfl,?_,fun nonzero => absurd rfl nonzero⟩
    rw [if_pos (Or.inl zero)]
    exact sane
  obtain ⟨p,a',h',done,lent,after,sane⟩ := saneMalloc ready stands bound
  rw [if_neg zero, done]
  simp only [Option.bind_eq_bind, Option.bind_some]
  by_cases none : p = 0
  · subst none
    refine ⟨0,a',h',rfl,?_,fun nonzero => absurd rfl nonzero⟩
    rw [if_neg (by simpa using zero)]
    exact sane
  have gone : n = 0 ∨ p ≠ 0 := Or.inr none
  rw [if_pos none]
  by_cases null : mem = 0
  · subst null
    rw [if_neg (not_not.mpr rfl)]
    refine ⟨p,a',h',rfl,?_,fun _ k there => ?_⟩
    · rw [if_pos gone, dropNull stands]
      exact sane
    obtain ⟨b,_,place,_⟩ := standsFor stands there
    simp at place
  · obtain ⟨k,there⟩ := mine.resolve_left null
    obtain ⟨a'',h'',freed,moved,_⟩ := saneMove lent none after sane stands there
    rw [if_pos null, freed]
    refine ⟨p,a'',h'',rfl,by rw [if_pos gone]; exact moved,fun _ k' there' => ?_⟩
    obtain ⟨_,h₂,freed',_,content⟩ := saneMove lent none after sane stands there'
    rw [freed] at freed'
    cases freed'
    exact content

/- Any call a program may make -/
theorem performs {w : World} (ready : Ready l w.heap a) (stands : List.Forall₂ Stands a.live w.given) {c : Call}
    (allowed : Allowed l w c) : ∃ w' a', perform l w c = some w' ∧ Ready l w'.heap a' ∧
      List.Forall₂ Stands a'.live w'.given ∧ ((∃ m, c = .write m) ∨ Kept (Private l a) w.heap.mem w'.heap.mem) := by
  cases c with
  | malloc n =>
    obtain ⟨p,a',h',done,_,_,sane⟩ := saneMalloc ready stands allowed
    refine ⟨⟨h',give p n w.given⟩,a',?_,sane.after,sane.stands,Or.inr sane.kept⟩
    simp only [perform, done, Option.map_some]
  | calloc count size =>
    obtain ⟨p,a',h',done,sane,_⟩ := saneCalloc count size ready stands
    refine ⟨⟨h',give p (count * size % word) w.given⟩,a',?_,sane.after,sane.stands,Or.inr sane.kept⟩
    simp only [perform, done, Option.map_some]
  | realloc mem n =>
    obtain ⟨p,a',h',done,sane,_⟩ := saneRealloc ready stands allowed.1 allowed.2
    refine ⟨⟨h',give p n (if n = 0 ∨ p ≠ 0 then drop mem w.given else w.given)⟩,a',?_,sane.after,sane.stands,Or.inr sane.kept⟩
    simp only [perform, done, Option.map_some]
  | free pv =>
    obtain ⟨a',h',done,sane⟩ := saneFree ready stands allowed
    refine ⟨⟨h',drop pv w.given⟩,a',?_,sane.after,sane.stands,Or.inr sane.kept⟩
    simp only [perform, done, Option.map_some]
  | write m =>
    refine ⟨_,a,rfl,?_,stands,Or.inl ⟨m,rfl⟩⟩
    rcases ready with ⟨started,same⟩ | rep
    · exact Or.inl ⟨started,same⟩
    · refine Or.inr (representsCongr rep fun x own => allowed x fun free => ?_)
      rcases free with ⟨g,there,low,high⟩ | outside
      · obtain ⟨b,lent,place,room,_⟩ := standsFor stands there
        exact payloadOutside lent (by omega) (by unfold Span.fin; omega) own
      · apply outside
        rcases own with start | free | ⟨b,lent,here⟩ | last
        · exact Or.inl start
        · have := (a.parted x).mp free
          exact Or.inr ⟨this.1,by omega⟩
        · have := liveFits a lent
          have := fitsHeader this here
          have := (liveFits a lent).below
          have := (liveFits a lent).above
          unfold Span.Has at *
          exact Or.inr ⟨by omega,by omega⟩
        · have := (bounds l).1
          unfold Header at last
          exact Or.inr ⟨by omega,by omega⟩

theorem reachSound {l : Linker} {w : World} (reach : Reach l w) : Sound l w := by
  induction reach with
  | start m => exact ⟨fresh l,Or.inl ⟨rfl,rfl⟩,List.Forall₂.nil⟩
  | step _ allowed done ih =>
    obtain ⟨a,ready,stands⟩ := ih
    obtain ⟨w',a',done',ready',stands',_⟩ := performs ready stands allowed
    cases done.symm.trans done'
    exact ⟨a',ready',stands'⟩

end Perform
end YunbaIot.Heap4
