import YunbaIot.HeapRun

/-! What holds of the heap in every run of the programs that use it. -/
namespace YunbaIot.Heap4
open FreeList

/- Two pieces of memory with room for a header before each -/
def Clear (g k : Nat × Nat) : Prop := g.1 + g.2 + 8 ≤ k.1 ∨ k.1 + k.2 + 8 ≤ g.1

theorem standsClear {live : List Span} {given : List (Nat × Nat)} (stands : List.Forall₂ Stands live given)
    (apart : live.Pairwise Span.Apart) : given.Pairwise Clear := by
  induction stands with
  | nil => exact List.Pairwise.nil
  | @cons b g live given first rest ih =>
    obtain ⟨here,later⟩ := List.pairwise_cons.mp apart
    refine List.Pairwise.cons (fun k there => ?_) (ih later)
    obtain ⟨c,lent,place,room,_⟩ := standsFor rest there
    have := here c lent
    obtain ⟨place',room',_⟩ := first
    unfold Span.Apart Span.fin at this
    unfold Clear
    omega

theorem programsServed {l : Linker} {w : World} (reach : Reach l w) :
    (∀ c, Allowed l w c → ∃ w', perform l w c = some w') ∧ w.given.Pairwise Clear ∧
      ∀ g ∈ w.given, 8 ∣ g.1 ∧ l.base + 8 ≤ g.1 ∧ g.1 + g.2 ≤ l.fin := by
  obtain ⟨a,ready,stands⟩ := reachSound reach
  refine ⟨fun c allowed => ?_,standsClear stands a.apart,fun g there => ?_⟩
  · obtain ⟨w',_,done,_⟩ := performs ready stands allowed
    exact ⟨w',done⟩
  · obtain ⟨b,lent,place,room,_⟩ := standsFor stands there
    obtain ⟨low,_,high⟩ := a.within b lent
    have whole := (a.grained b (Or.inr lent)).1
    unfold Span.fin at high
    omega

/- A layout, and a program that has asked for 100 bytes -/
def layout : Linker := ⟨0x3fffc000,0x3fffb000,by decide,by decide,by decide⟩
def unused : World := ⟨⟨Memory.ofList [],0,0,0,0⟩,[]⟩
def one : World := (perform layout unused (.malloc 100)).get (by decide +kernel)

theorem oneReach : Reach layout one := by
  have allowed : Allowed layout unused (.malloc 100) := show 100 < word by decide
  exact .step (.start _) allowed (Option.some_get _).symm

theorem oneGiven : one.given = [(0x3fffc010,100)] := by decide +kernel

theorem programsServedOne : (∀ c, Allowed layout one c → ∃ w', perform layout one c = some w') ∧
    one.given.Pairwise Clear ∧ ∀ g ∈ one.given, 8 ∣ g.1 ∧ layout.base + 8 ≤ g.1 ∧ g.1 + g.2 ≤ layout.fin :=
  programsServed oneReach

theorem contentsKept {l : Linker} {w w' : World} {c : Call} (reach : Reach l w) (allowed : Allowed l w c)
    (call : ∀ m, c ≠ .write m) (done : perform l w c = some w') {p k : Nat} (mine : (p,k) ∈ w.given) :
    ∀ i < k, w'.heap.mem.byte (p + i) = w.heap.mem.byte (p + i) := by
  obtain ⟨a,ready,stands⟩ := reachSound reach
  obtain ⟨_,_,done',_,_,kept⟩ := performs ready stands allowed
  cases done.symm.trans done'
  obtain ⟨b,lent,place,room,_⟩ := standsFor stands mine
  intro i small
  refine kept.resolve_left (fun ⟨m,same⟩ => call m same) _ (payloadOutside lent ?_ ?_)
  · simp only at place
    omega
  · simp only at place room
    unfold Span.fin
    omega

def two : World := (perform layout one (.malloc 50)).get (by decide +kernel)

theorem contentsKeptTwo : (0x3fffc010,100) ∈ one.given ∧
    ∀ i < 100, two.heap.mem.byte (0x3fffc010 + i) = one.heap.mem.byte (0x3fffc010 + i) := by
  have allowed : Allowed layout one (.malloc 50) := show 50 < word by decide
  have mine : (0x3fffc010,100) ∈ one.given := by
    rw [oneGiven]
    simp
  exact ⟨mine,contentsKept oneReach allowed (fun m => by simp) (Option.some_get _).symm mine⟩

theorem reallocContent {l : Linker} {w : World} (reach : Reach l w) {mem n k p : Nat} {h : Heap} (mine : (mem,k) ∈ w.given)
    (bound : n < word) (done : pvPortRealloc l mem n w.heap = some (p,h)) (served : p ≠ 0) :
    ∀ i < min k n, h.mem.byte (p + i) = w.heap.mem.byte (mem + i) := by
  obtain ⟨a,ready,stands⟩ := reachSound reach
  obtain ⟨_,_,_,done',_,content⟩ := saneRealloc ready stands (Or.inr ⟨k,mine⟩) bound
  cases done.symm.trans done'
  exact content served k mine

theorem movedSome : (pvPortRealloc layout 0x3fffc010 200 one.heap).isSome := by decide +kernel
def moved : Nat × Heap := (pvPortRealloc layout 0x3fffc010 200 one.heap).get movedSome

theorem reallocContentMoved : pvPortRealloc layout 0x3fffc010 200 one.heap = some (moved.1,moved.2) ∧
    ∀ i < min 100 200, moved.2.mem.byte (moved.1 + i) = one.heap.mem.byte (0x3fffc010 + i) := by
  have done : pvPortRealloc layout 0x3fffc010 200 one.heap = some (moved.1,moved.2) := (Option.some_get movedSome).symm
  exact ⟨done,reallocContent oneReach (by rw [oneGiven]; simp) (by decide) done (by decide +kernel)⟩

/-! The size in a block's header, without the bit that says it is lent -/

def blockSize (h : Heap) (p : Nat) : Nat := andNot (xBlockSize h.mem (p - heapStructSize)) (2 ^ 31)

section Sizes
variable {l : Linker} {h : Heap} {a : Lendable l} {given : List (Nat × Nat)}

theorem blockSizeLive (rep : Represents l h a) {b : Span} (lent : b ∈ a.live) : blockSize h (b.addr + 8) = b.size := by
  have := (liveFits a lent).below
  have := (bounds l).2.1
  unfold blockSize
  rw [heapStructSizeEq, Nat.add_sub_cancel, (rep.live b lent).2]
  exact clearedBit (by unfold Span.fin at *; omega)

theorem blockSizeStands (ready : Ready l h a) {b : Span} (lent : b ∈ a.live) {g : Nat × Nat} (stands : Stands b g) :
    b = ⟨g.1 - 8,blockSize h g.1⟩ := by
  rcases ready with ⟨_,rfl⟩ | rep
  · cases lent
  · rw [stands.1, blockSizeLive rep lent, Nat.add_sub_cancel]

theorem sizesSum (ready : Ready l h a) {live : List Span} (stands : List.Forall₂ Stands live given)
    (lent : ∀ b ∈ live, b ∈ a.live) : (given.map fun g => blockSize h g.1).sum = total live := by
  induction stands with
  | nil => rfl
  | cons first rest ih =>
    obtain ⟨here,later⟩ := List.forall_mem_cons.mp lent
    rw [List.map_cons, List.sum_cons, ih later, totalCons, blockSizeStands ready here first]

end Sizes

theorem heapAccounts {l : Linker} {w : World} (reach : Reach l w) (used : w.heap.pxEnd ≠ 0) :
    xPortGetFreeHeapSize w.heap + (w.given.map fun g => blockSize w.heap g.1).sum = l.fin - l.base ∧
      ∀ g ∈ w.given, (g.2 + 15) / 8 * 8 ≤ blockSize w.heap g.1 ∧ blockSize w.heap g.1 ≤ (g.2 + 15) / 8 * 8 + 16 := by
  obtain ⟨a,ready,stands⟩ := reachSound reach
  refine ⟨?_,fun g there => ?_⟩
  · have rep := ready.resolve_left fun start => used start.1
    rw [sizesSum ready stands fun b lent => lent]
    unfold xPortGetFreeHeapSize
    rw [rep.remaining]
    exact a.accounts
  · obtain ⟨b,lent,here⟩ := standsFor stands there
    have := blockSizeStands ready lent here
    obtain ⟨_,room,tight⟩ := here
    rw [this] at room tight
    exact ⟨room,tight⟩

theorem heapAccountsOne :
    xPortGetFreeHeapSize one.heap + (one.given.map fun g => blockSize one.heap g.1).sum = layout.fin - layout.base ∧
      ∀ g ∈ one.given, (g.2 + 15) / 8 * 8 ≤ blockSize one.heap g.1 ∧ blockSize one.heap g.1 ≤ (g.2 + 15) / 8 * 8 + 16 :=
  heapAccounts oneReach (by decide +kernel)

/- A place for a block of so many bytes, with its header, among those that are out -/
def Room (l : Linker) (w : World) (n x : Nat) : Prop :=
  l.base ≤ x ∧ x + n ≤ l.fin ∧ ∀ g ∈ w.given, x + n ≤ g.1 - 8 ∨ g.1 - 8 + blockSize w.heap g.1 ≤ x

theorem roomFree {l : Linker} {w : World} {a : Lendable l} (ready : Ready l w.heap a)
    (stands : List.Forall₂ Stands a.live w.given) {n x : Nat} (some : 0 < n) :
    Room l w n x ↔ ∀ i < n, Covers a.free (x + i) := by
  constructor
  · rintro ⟨low,high,apart⟩ i small
    refine (a.parted _).mpr ⟨by omega,by omega,fun ⟨b,lent,here⟩ => ?_⟩
    obtain ⟨g,there,stand⟩ := standsOf stands lent
    have form := blockSizeStands ready lent stand
    have := apart g there
    rw [form] at here
    unfold Span.Has Span.fin at here
    simp only at here
    omega
  · intro run
    have first := (a.parted x).mp (run 0 some)
    have last := (a.parted (x + (n - 1))).mp (run (n - 1) (by omega))
    refine ⟨first.1,by omega,fun g there => ?_⟩
    obtain ⟨b,lent,stand⟩ := standsFor stands there
    have size := (a.within b lent).2.1
    have form := blockSizeStands ready lent stand
    by_contra overlap
    -- the first address that is both in the block and in the place
    have both : b.Has (x + (max x b.addr - x)) ∧ max x b.addr - x < n := by
      rw [form] at size ⊢
      unfold Span.Has Span.fin
      simp only at size ⊢
      omega
    exact ((a.parted _).mp (run _ both.2)).2.2 ⟨b,lent,both.1⟩

theorem mallocExact {l : Linker} {w : World} (reach : Reach l w) {n p : Nat} {h : Heap} (ask : Askable n)
    (done : pvPortMalloc l n w.heap = some (p,h)) :
    (p = 0 ↔ ∀ x, ¬ Room l w ((n + 15) / 8 * 8) x) ∧
      (p ≠ 0 → Room l w ((n + 15) / 8 * 8) (p - 8) ∧ ∀ x, Room l w ((n + 15) / 8 * 8) x → p - 8 ≤ x) := by
  obtain ⟨a,ready,stands⟩ := reachSound reach
  obtain ⟨_,_,_,done',lent,_⟩ := mallocReady ready (Nat.lt_trans ask.2 (by decide))
  cases done.symm.trans done'
  have size := wantedSize ask.2
  have some : 0 < (n + 15) / 8 * 8 := by omega
  cases lent with
  | refused none =>
    have none' := none.resolve_left (not_not.mpr ask)
    rw [size, a.carveRoom some] at none'
    refine ⟨iff_of_true rfl fun x room => none' ⟨x,(roomFree ready stands some).mp room⟩,fun nonzero => absurd rfl nonzero⟩
  | @served c rest _ some' whole cut =>
    rw [size] at cut
    have parts := carved a.gapped some cut
    have here : Room l w ((n + 15) / 8 * 8) (c.addr + 8 - 8) := by
      refine (roomFree ready stands some).mpr fun i small => (parts.covers _).mpr (Or.inl ⟨by omega,?_⟩)
      have := parts.fits
      unfold Span.fin
      omega
    refine ⟨iff_of_false (Nat.succ_ne_zero _) fun none => none _ here,fun _ => ⟨here,fun x room => ?_⟩⟩
    rw [Nat.add_sub_cancel]
    exact a.carveLowest some cut ((roomFree ready stands some).mp room)

theorem thirdSome : (pvPortMalloc layout 30 one.heap).isSome := by decide +kernel
def third : Nat × Heap := (pvPortMalloc layout 30 one.heap).get thirdSome

theorem mallocExactThird : (third.1 = 0 ↔ ∀ x, ¬ Room layout one ((30 + 15) / 8 * 8) x) ∧
    (third.1 ≠ 0 → Room layout one ((30 + 15) / 8 * 8) (third.1 - 8) ∧
      ∀ x, Room layout one ((30 + 15) / 8 * 8) x → third.1 - 8 ≤ x) :=
  have done : pvPortMalloc layout 30 one.heap = some (third.1,third.2) := (Option.some_get thirdSome).symm
  mallocExact oneReach ⟨by decide,by decide⟩ done

theorem placementForgets {l : Linker} {w w' : World} (reach : Reach l w) (reach' : Reach l w')
    (same : ∀ g, g ∈ w.given ↔ g ∈ w'.given) (sizes : ∀ g ∈ w.given, blockSize w.heap g.1 = blockSize w'.heap g.1)
    {n : Nat} (bound : n < word) :
    (pvPortMalloc l n w.heap).map Prod.fst = (pvPortMalloc l n w'.heap).map Prod.fst := by
  obtain ⟨a,ready,stands⟩ := reachSound reach
  obtain ⟨a',ready',stands'⟩ := reachSound reach'
  have half : ∀ {a a' : Lendable l} {w w' : World}, Ready l w.heap a → Ready l w'.heap a' →
      List.Forall₂ Stands a.live w.given → List.Forall₂ Stands a'.live w'.given → (∀ g ∈ w.given, g ∈ w'.given) →
      (∀ g ∈ w.given, blockSize w.heap g.1 = blockSize w'.heap g.1) → ∀ x, Covers a.live x → Covers a'.live x := by
    rintro a a' w w' ready ready' stands stands' same sizes x ⟨b,lent,here⟩
    obtain ⟨g,there,stand⟩ := standsOf stands lent
    obtain ⟨b',lent',stand'⟩ := standsFor stands' (same g there)
    rw [blockSizeStands ready lent stand, sizes g there, ← blockSizeStands ready' lent' stand'] at here
    exact ⟨b',lent',here⟩
  have free : a.free = a'.free := a.determined a' fun x =>
    ⟨half ready ready' stands stands' (fun g => (same g).mp) sizes x,
      half ready' ready stands' stands (fun g => (same g).mpr) (fun g there => (sizes g ((same g).mpr there)).symm) x⟩
  obtain ⟨p,_,h,done,lent,_⟩ := mallocReady ready bound
  obtain ⟨p',_,h',done',lent',_⟩ := mallocReady ready' bound
  rw [done, done', Option.map_some, Option.map_some]
  cases lent with
  | refused none =>
    cases lent' with
    | refused _ => rfl
    | served ask _ _ cut => 
      have := none.resolve_left (not_not.mpr ask)
      rw [free, cut] at this
      cases this
  | served ask _ _ cut =>
    cases lent' with
    | refused none =>
      have := none.resolve_left (not_not.mpr ask)
      rw [← free, cut] at this
      cases this
    | served _ _ _ cut' =>
      rw [free, cut'] at cut
      cases cut
      rfl

def back : World := (perform layout one (.free 0x3fffc010)).get (by decide +kernel)

theorem placementForgetsBack : (pvPortMalloc layout 64 back.heap).map Prod.fst =
    (pvPortMalloc layout 64 unused.heap).map Prod.fst := by
  have allowed : Allowed layout one (.free 0x3fffc010) := Or.inr ⟨100,by rw [oneGiven]; simp⟩
  have none : back.given = [] := by decide +kernel
  have reach : Reach layout back := .step oneReach allowed (Option.some_get _).symm
  have start : Reach layout unused := .start _
  refine placementForgets reach start (fun g => ?_) (fun g there => ?_) (by decide)
  · rw [none]
    rfl
  · rw [none] at there
    cases there

end YunbaIot.Heap4
