import Mathlib.Data.List.Basic
import Mathlib.Tactic.Ring

/-! Spans of addresses, and lists of spans in order of address with a gap between any two of them. The
addresses of such a list say which list it is. -/
namespace YunbaIot.FreeList

structure Span where
  addr : Nat
  size : Nat
  deriving DecidableEq, Repr

namespace Span

def fin (b : Span) : Nat := b.addr + b.size
def Has (b : Span) (x : Nat) : Prop := b.addr ≤ x ∧ x < b.fin
def Apart (b c : Span) : Prop := b.fin ≤ c.addr ∨ c.fin ≤ b.addr

theorem apartSymm {b c : Span} (h : Apart b c) : Apart c b := Or.symm h

instance : Std.Symm Apart where
  symm _ _ h := apartSymm h

theorem apartHas {b c : Span} (h : Apart b c) {x : Nat} (there : b.Has x) : ¬ c.Has x := by
  unfold Apart at h
  unfold Has at there ⊢
  omega

theorem apartOfHas {b c : Span} (some : 0 < b.size) (some' : 0 < c.size) (none : ∀ x, b.Has x → ¬ c.Has x) :
    Apart b c := by
  have left := none b.addr
  have right := none c.addr
  unfold Has at left right
  unfold Apart
  simp only [fin] at *
  omega

end Span

def Covers (l : List Span) (x : Nat) : Prop := ∃ b ∈ l, b.Has x

def Gapped : Nat → List Span → Prop
  | _, [] => True
  | lo, b :: l => lo ≤ b.addr ∧ 0 < b.size ∧ Gapped (b.fin + 1) l

def total (l : List Span) : Nat := (l.map Span.size).sum

@[simp] theorem coversNil (x : Nat) : ¬ Covers [] x := by simp [Covers]

@[simp] theorem coversCons {b : Span} {l : List Span} {x : Nat} : Covers (b :: l) x ↔ b.Has x ∨ Covers l x := by
  simp [Covers]

@[simp] theorem coversAppend {l k : List Span} {x : Nat} : Covers (l ++ k) x ↔ Covers l x ∨ Covers k x := by
  simp only [Covers, List.mem_append]
  constructor
  · rintro ⟨b,left | right,here⟩
    · exact Or.inl ⟨b,left,here⟩
    · exact Or.inr ⟨b,right,here⟩
  · rintro (⟨b,left,here⟩ | ⟨b,right,here⟩)
    · exact ⟨b,Or.inl left,here⟩
    · exact ⟨b,Or.inr right,here⟩

@[simp] theorem totalCons (b : Span) (l : List Span) : total (b :: l) = b.size + total l := by simp [total]
@[simp] theorem totalNil : total [] = 0 := rfl
@[simp] theorem totalAppend (l k : List Span) : total (l ++ k) = total l + total k := by simp [total]

theorem lengthTotal {l : List Span} (some : ∀ b ∈ l, 0 < b.size) : l.length ≤ total l := by
  induction l with
  | nil => exact Nat.le_refl 0
  | cons b l ih =>
    obtain ⟨first,rest⟩ := List.forall_mem_cons.mp some
    have := ih rest
    rw [totalCons, List.length_cons]
    omega

theorem totalMem {b : Span} {l : List Span} (inside : b ∈ l) : b.size ≤ total l := by
  obtain ⟨before,behind,rfl⟩ := List.append_of_mem inside
  rw [totalAppend, totalCons]
  omega

theorem gappedMono {lo lo' : Nat} {l : List Span} (gapped : Gapped lo l) (below : lo' ≤ lo) : Gapped lo' l := by
  cases l with
  | nil => trivial
  | cons b l => exact ⟨Nat.le_trans below gapped.1,gapped.2⟩

theorem gappedMem {lo : Nat} {l : List Span} (gapped : Gapped lo l) {b : Span} (inside : b ∈ l) :
    lo ≤ b.addr ∧ 0 < b.size := by
  induction l generalizing lo with
  | nil => cases inside
  | cons c l ih =>
    obtain ⟨low,some,rest⟩ := gapped
    rcases List.mem_cons.mp inside with rfl | later
    · exact ⟨low,some⟩
    · have further := ih rest later
      unfold Span.fin at further
      omega

theorem gappedBelow {lo x : Nat} {l : List Span} (gapped : Gapped lo l) (there : Covers l x) : lo ≤ x := by
  obtain ⟨b,inside,here⟩ := there
  exact Nat.le_trans (gappedMem gapped inside).1 here.1

/- Two spans of the list are one or have an address between them that the list does not have. -/
theorem gappedAppend {lo : Nat} {l k : List Span} : Gapped lo (l ++ k) ↔
    Gapped lo l ∧ Gapped lo k ∧ ∀ b ∈ l, ∀ c ∈ k, b.fin < c.addr := by
  induction l generalizing lo with
  | nil => simp [Gapped]
  | cons a l ih =>
    rw [List.cons_append, Gapped, ih, Gapped]
    constructor
    · rintro ⟨low,some,left,right,order⟩
      have low' : lo ≤ a.fin + 1 := by unfold Span.fin; omega
      refine ⟨⟨low,some,left⟩,gappedMono right low',?_⟩
      intro b inside c further
      rcases List.mem_cons.mp inside with rfl | later
      · exact (gappedMem right further).1
      · exact order b later c further
    · rintro ⟨⟨low,some,left⟩,right,order⟩
      refine ⟨low,some,left,?_,fun b inside => order b (List.mem_cons_of_mem a inside)⟩
      cases k with
      | nil => trivial
      | cons c k => exact ⟨order a (List.mem_cons_self ..) c (List.mem_cons_self ..),right.2⟩

theorem gappedSplit {lo : Nat} {l : List Span} (gapped : Gapped lo l) (x : Nat) :
    ∃ before behind, l = before ++ behind ∧ (∀ b ∈ before, b.addr < x) ∧ ∀ b ∈ behind, x ≤ b.addr := by
  induction l generalizing lo with
  | nil => exact ⟨[],[],rfl,by simp,by simp⟩
  | cons a l ih =>
    by_cases left : a.addr < x
    · obtain ⟨before,behind,rfl,early,late⟩ := ih gapped.2.2
      exact ⟨a :: before,behind,rfl,List.forall_mem_cons.mpr ⟨left,early⟩,late⟩
    · refine ⟨[],a :: l,rfl,by simp,List.forall_mem_cons.mpr ⟨not_lt.mp left,fun b inside => ?_⟩⟩
      have := (gappedMem gapped.2.2 inside).1
      unfold Span.fin at this
      omega

theorem gappedHead {lo lo' : Nat} {b c : Span} {l k : List Span} (left : Gapped lo (b :: l))
    (right : Gapped lo' (c :: k)) (same : ∀ x, Covers (b :: l) x ↔ Covers (c :: k) x) : b.addr ≤ c.addr := by
  have there : Covers (c :: k) c.addr := coversCons.mpr (Or.inl ⟨le_refl _,by have := right.2.1; unfold Span.fin; omega⟩)
  rcases coversCons.mp ((same _).mpr there) with here | later
  · exact here.1
  · have behind := gappedBelow left.2.2 later
    unfold Span.fin at behind
    omega

theorem gappedFin {lo : Nat} {b c : Span} {l k : List Span} (left : Gapped lo (b :: l)) (same : ∀ x, Covers (b :: l) x ↔ Covers (c :: k) x)
    (place : b.addr = c.addr) : c.fin ≤ b.fin := by
  by_contra longer
  have there : Covers (c :: k) b.fin := coversCons.mpr (Or.inl ⟨by unfold Span.fin; omega,by omega⟩)
  rcases coversCons.mp ((same _).mpr there) with here | later
  · exact absurd here.2 (lt_irrefl _)
  · have behind := gappedBelow left.2.2 later
    omega

theorem gappedTail {lo lo' : Nat} {b : Span} {l k : List Span} (left : Gapped lo (b :: l))
    (right : Gapped lo' (b :: k)) (same : ∀ x, Covers (b :: l) x ↔ Covers (b :: k) x) :
    ∀ x, Covers l x ↔ Covers k x := by
  have only : ∀ {m : List Span} {x : Nat}, Gapped (b.fin + 1) m → Covers m x → ¬ b.Has x := by
    intro m x gapped there here
    have behind := gappedBelow gapped there
    unfold Span.Has at here
    omega
  intro x
  have both := same x
  rw [coversCons, coversCons] at both
  constructor
  · intro there
    exact (both.mp (Or.inr there)).resolve_left (only left.2.2 there)
  · intro there
    exact (both.mpr (Or.inr there)).resolve_left (only right.2.2 there)

/- A list with gaps is told by its addresses. -/
theorem gappedUnique {lo lo' : Nat} {l k : List Span} (left : Gapped lo l) (right : Gapped lo' k)
    (same : ∀ x, Covers l x ↔ Covers k x) : l = k := by
  induction l generalizing lo lo' k with
  | nil =>
    cases k with
    | nil => rfl
    | cons c k =>
      have there : Covers (c :: k) c.addr :=
        coversCons.mpr (Or.inl ⟨le_refl _,by have := right.2.1; unfold Span.fin; omega⟩)
      exact absurd ((same _).mpr there) (coversNil _)
  | cons b l ih =>
    cases k with
    | nil =>
      have there : Covers (b :: l) b.addr :=
        coversCons.mpr (Or.inl ⟨le_refl _,by have := left.2.1; unfold Span.fin; omega⟩)
      exact absurd ((same _).mp there) (coversNil _)
    | cons c k =>
      have place := le_antisymm (gappedHead left right same) (gappedHead right left fun x => (same x).symm)
      have high := gappedFin left same place
      have low := gappedFin right (fun x => (same x).symm) place.symm
      have equal : b = c := by
        cases b
        cases c
        simp only [Span.fin, Span.mk.injEq] at place high low ⊢
        omega
      subst equal
      rw [ih left.2.2 right.2.2 (gappedTail left right same)]

/- Consecutive addresses of a list with gaps are in one span of it. -/
theorem runInside {lo x n : Nat} {l : List Span} (gapped : Gapped lo l) (some : 0 < n)
    (run : ∀ i < n, Covers l (x + i)) : ∃ b ∈ l, b.addr ≤ x ∧ x + n ≤ b.fin := by
  obtain ⟨b,inside,here⟩ := run 0 some
  refine ⟨b,inside,here.1,?_⟩
  by_contra beyond
  unfold Span.Has at here
  obtain ⟨c,further,there⟩ := run (b.fin - x) (by omega)
  rw [show x + (b.fin - x) = b.fin by omega] at there
  obtain ⟨before,behind,rfl⟩ := List.append_of_mem inside
  obtain ⟨_,⟨_,_,rest⟩,order⟩ := gappedAppend.mp gapped
  unfold Span.Has at there
  rcases List.mem_append.mp further with earlier | later
  · have := order c earlier b (List.mem_cons_self ..)
    unfold Span.fin at this there
    omega
  · rcases List.mem_cons.mp later with rfl | later
    · omega
    · have := (gappedMem rest later).1
      omega

/-! Putting a span in its place -/

def join (b : Span) : List Span → List Span
  | [] => [b]
  | c :: l => if b.fin = c.addr then ⟨b.addr,b.size + c.size⟩ :: l else b :: c :: l

def insertSpan (b : Span) : List Span → List Span
  | [] => [b]
  | c :: l => if c.addr < b.addr then join c (insertSpan b l) else join b (c :: l)

/- What becomes of the span and of the list behind it -/
def joinSize (b : Span) : List Span → Nat
  | [] => b.size
  | c :: _ => if b.fin = c.addr then b.size + c.size else b.size

def joinRest (b : Span) : List Span → List Span
  | [] => []
  | c :: l => if b.fin = c.addr then l else c :: l

theorem joinEq (b : Span) (l : List Span) : join b l = ⟨b.addr,joinSize b l⟩ :: joinRest b l := by
  cases l with
  | nil => rfl
  | cons c l =>
    rw [join, joinSize, joinRest]
    split <;> rfl

theorem joinJoin {b c : Span} (near : c.fin = b.addr) (l : List Span) :
    join c (join b l) = join ⟨c.addr,c.size + b.size⟩ l := by
  have same : Span.fin ⟨c.addr,c.size + b.size⟩ = b.fin := by
    unfold Span.fin at *
    simp only
    omega
  cases l with
  | nil => simp [join, near]
  | cons d l =>
    rw [join, join, same]
    split
    · simp [join, near, Nat.add_assoc]
    · simp [join, near]

theorem insertFirst {b : Span} {l : List Span} (behind : ∀ c ∈ l, b.addr ≤ c.addr) : insertSpan b l = join b l := by
  cases l with
  | nil => rfl
  | cons c l =>
    have := behind c (List.mem_cons_self ..)
    rw [insertSpan, if_neg (by omega)]

theorem insertBehind {lo : Nat} {b c : Span} {before behind : List Span} (gapped : Gapped lo (before ++ c :: behind))
    (left : c.addr < b.addr) (right : ∀ d ∈ behind, b.addr ≤ d.addr) :
    insertSpan b (before ++ c :: behind) = before ++ join c (join b behind) := by
  induction before generalizing lo with
  | nil =>
    rw [List.nil_append, insertSpan, if_pos left, insertFirst right, List.nil_append]
  | cons a before ih =>
    have order := (gappedMem gapped.2.2 (b := c) (by simp)).1
    rw [List.cons_append, insertSpan, if_pos (by unfold Span.fin at order; omega), ih gapped.2.2, List.cons_append]
    have next : ∃ d k, before ++ join c (join b behind) = d :: k ∧ a.fin < d.addr := by
      cases before with
      | nil =>
        rw [List.nil_append, joinEq]
        exact ⟨_,_,rfl,order⟩
      | cons d before => exact ⟨d,_,rfl,gapped.2.2.1⟩
    obtain ⟨d,k,form,further⟩ := next
    rw [form, join, if_neg (by omega)]

theorem coversJoin (b : Span) (l : List Span) (x : Nat) : Covers (join b l) x ↔ b.Has x ∨ Covers l x := by
  cases l with
  | nil => simp [join]
  | cons c l =>
    rw [join]
    split
    · simp only [coversCons, ← or_assoc]
      refine or_congr_left ?_
      unfold Span.Has
      simp only [Span.fin] at *
      omega
    · rw [coversCons]

theorem coversInsert (b : Span) (l : List Span) (x : Nat) : Covers (insertSpan b l) x ↔ b.Has x ∨ Covers l x := by
  induction l with
  | nil => simp [insertSpan]
  | cons c l ih =>
    rw [insertSpan]
    split
    · rw [coversJoin, ih, coversCons]
      tauto
    · rw [coversJoin]

theorem totalJoin (b : Span) (l : List Span) : total (join b l) = b.size + total l := by
  cases l with
  | nil => simp [join]
  | cons c l =>
    rw [join]
    split
    · simp [Nat.add_assoc]
    · simp

theorem totalInsert (b : Span) (l : List Span) : total (insertSpan b l) = b.size + total l := by
  induction l with
  | nil => simp [insertSpan]
  | cons c l ih =>
    rw [insertSpan]
    split
    · rw [totalJoin, ih, totalCons]
      omega
    · rw [totalJoin]

theorem gappedJoin {b : Span} {l : List Span} {lo : Nat} (low : lo ≤ b.addr) (some : 0 < b.size)
    (gapped : Gapped b.fin l) : Gapped lo (join b l) := by
  cases l with
  | nil => exact ⟨low,some,trivial⟩
  | cons c l =>
    obtain ⟨next,_,rest⟩ := gapped
    rw [join]
    split
    · refine ⟨low,by simp only; omega,gappedMono rest ?_⟩
      simp only [Span.fin] at *
      omega
    · exact ⟨low,some,by omega,by assumption,rest⟩

theorem gappedInsert {b : Span} {l : List Span} {lo : Nat} (low : lo ≤ b.addr) (some : 0 < b.size)
    (gapped : Gapped lo l) (apart : ∀ c ∈ l, b.Apart c) : Gapped lo (insertSpan b l) := by
  induction l generalizing lo with
  | nil => exact ⟨low,some,trivial⟩
  | cons c l ih =>
    obtain ⟨first,rest⟩ := List.forall_mem_cons.mp apart
    have size := gapped.2.1
    unfold Span.Apart at first
    rw [insertSpan]
    split
    · rename_i before
      have here : c.fin ≤ b.addr := by
        rcases first with high | low
        · unfold Span.fin at high; omega
        · exact low
      refine gappedJoin gapped.1 size (ih here ?_ rest)
      exact gappedMono gapped.2.2 (Nat.le_succ _)
    · rename_i behind
      have here : b.fin ≤ c.addr := by
        rcases first with high | low
        · exact high
        · unfold Span.fin at low; omega
      exact gappedJoin low some ⟨here,gapped.2⟩

/- What two spans have in common with the one they make together, all spans keep. -/
theorem everyInsert {P : Span → Prop} (merge : ∀ b c, P b → P c → P ⟨b.addr,b.size + c.size⟩) {b : Span}
    {l : List Span} (mine : P b) (theirs : ∀ c ∈ l, P c) : ∀ c ∈ insertSpan b l, P c := by
  have joined : ∀ {b : Span} {l : List Span}, P b → (∀ c ∈ l, P c) → ∀ c ∈ join b l, P c := by
    intro b l mine theirs
    cases l with
    | nil => simpa [join] using mine
    | cons c l =>
      obtain ⟨next,rest⟩ := List.forall_mem_cons.mp theirs
      rw [join]
      split
      · exact List.forall_mem_cons.mpr ⟨merge b c mine next,rest⟩
      · exact List.forall_mem_cons.mpr ⟨mine,theirs⟩
  induction l with
  | nil => simpa [insertSpan] using mine
  | cons c l ih =>
    obtain ⟨first,rest⟩ := List.forall_mem_cons.mp theirs
    rw [insertSpan]
    split
    · exact joined first (ih rest)
    · exact joined mine theirs

/-! First fit: the span is cut in two where more than `least` is left of it -/

def carve (n least : Nat) (l : List Span) : Option (Span × List Span) :=
  match l.dropWhile (·.size < n) with
  | [] => none
  | b :: behind =>
    let rest := l.takeWhile (·.size < n) ++ behind
    if least < b.size - n then some (⟨b.addr,n⟩,insertSpan ⟨b.addr + n,b.size - n⟩ rest) else some (b,rest)

theorem firstFit (n : Nat) (l : List Span) : (∀ b ∈ l, b.size < n) ∧ l.dropWhile (·.size < n) = [] ∨
    ∃ before b behind, l = before ++ b :: behind ∧ (∀ a ∈ before, a.size < n) ∧ n ≤ b.size ∧
      l.takeWhile (·.size < n) = before ∧ l.dropWhile (·.size < n) = b :: behind := by
  induction l with
  | nil => exact Or.inl ⟨by simp,rfl⟩
  | cons a l ih =>
    by_cases short : a.size < n
    · rw [List.dropWhile_cons_of_pos (by simpa using short), List.takeWhile_cons_of_pos (by simpa using short)]
      rcases ih with ⟨none,ended⟩ | ⟨before,b,behind,rfl,shorter,fits,left,right⟩
      · exact Or.inl ⟨List.forall_mem_cons.mpr ⟨short,none⟩,ended⟩
      · exact Or.inr ⟨a :: before,b,behind,rfl,List.forall_mem_cons.mpr ⟨short,shorter⟩,fits,by rw [left],right⟩
    · rw [List.dropWhile_cons_of_neg (by simpa using short), List.takeWhile_cons_of_neg (by simpa using short)]
      exact Or.inr ⟨[],a,l,rfl,by simp,not_lt.mp short,rfl,rfl⟩

structure Carved (n least lo : Nat) (l : List Span) (c : Span) (rest : List Span) : Prop where
  fits : n ≤ c.size
  tight : c.size ≤ n + least
  gapped : Gapped lo rest
  low : lo ≤ c.addr
  covers : ∀ x, Covers l x ↔ c.Has x ∨ Covers rest x
  apart : ∀ b ∈ rest, c.Apart b
  total : total l = c.size + total rest
  first : ∀ b ∈ l, n ≤ b.size → c.addr ≤ b.addr

theorem carveNone {n least : Nat} {l : List Span} : carve n least l = none ↔ ∀ b ∈ l, b.size < n := by
  unfold carve
  rcases firstFit n l with ⟨short,ended⟩ | ⟨before,b,behind,rfl,_,fits,_,found⟩
  · simpa [ended] using short
  · rw [found]
    constructor
    · intro none
      dsimp only at none
      split at none <;> cases none
    · intro short
      exact absurd (short b (by simp)) (not_lt.mpr fits)

theorem carved {n least lo : Nat} {l rest : List Span} {c : Span} (gapped : Gapped lo l) (some : 0 < n)
    (done : carve n least l = .some (c,rest)) : Carved n least lo l c rest := by
  unfold carve at done
  rcases firstFit n l with ⟨_,ended⟩ | ⟨before,b,behind,rfl,shorter,fits,left,found⟩
  · rw [ended] at done
    cases done
  rw [found, left] at done
  obtain ⟨early,⟨low,size,late⟩,order⟩ := gappedAppend.mp gapped
  have behindIt : ∀ a ∈ behind, b.fin < a.addr := fun a inside => (gappedMem late inside).1
  have beforeIt : ∀ a ∈ before, a.fin < b.addr := fun a inside => order a inside b (List.mem_cons_self ..)
  have apart : ∀ a ∈ before ++ behind, b.Apart a := by
    intro a inside
    rcases List.mem_append.mp inside with left | right
    · exact Or.inr (Nat.le_of_lt (beforeIt a left))
    · exact Or.inl (Nat.le_of_lt (behindIt a right))
  have whole : Gapped lo (before ++ behind) :=
    gappedAppend.mpr ⟨early,gappedMono late (by unfold Span.fin; omega),
      fun a inside d further => order a inside d (List.mem_cons_of_mem b further)⟩
  have first : ∀ a ∈ before ++ b :: behind, n ≤ a.size → b.addr ≤ a.addr := by
    intro a inside long
    rcases List.mem_append.mp inside with left | right
    · exact absurd (shorter a left) (not_lt.mpr long)
    · rcases List.mem_cons.mp right with rfl | right
      · exact le_refl _
      · have := behindIt a right
        unfold Span.fin at this
        omega
  have covers : ∀ x, Covers (before ++ b :: behind) x ↔ b.Has x ∨ Covers (before ++ behind) x := by
    intro x
    simp only [coversAppend, coversCons]
    tauto
  have sum : total (before ++ b :: behind) = b.size + total (before ++ behind) := by
    simp only [totalAppend, totalCons]
    omega
  dsimp only at done
  split at done
  · obtain ⟨rfl,rfl⟩ := Prod.mk.inj (Option.some.inj done)
    have cut : ∀ a ∈ before ++ behind, Span.Apart ⟨b.addr + n,b.size - n⟩ a := by
      intro a inside
      rcases apart a inside with left | right
      · exact Or.inl (by simp only [Span.fin] at *; omega)
      · exact Or.inr (by simp only [Span.fin] at *; omega)
    refine ⟨le_refl n,Nat.le_add_right n least,gappedInsert (by simp only; omega) (by simp only; omega) whole cut,low,?_,?_,?_,first⟩
    · intro x
      rw [covers, coversInsert, ← or_assoc]
      refine or_congr_left ?_
      simp only [Span.Has, Span.fin]
      omega
    · intro a inside
      have split : Gapped lo (insertSpan ⟨b.addr + n,b.size - n⟩ (before ++ behind)) :=
        gappedInsert (by simp only; omega) (by simp only; omega) whole cut
      refine Span.apartOfHas some (gappedMem split inside).2 fun x here there => ?_
      rcases (coversInsert _ _ _).mp ⟨a,inside,there⟩ with second | ⟨d,other,further⟩
      · exact absurd here.2 (not_lt.mpr second.1)
      · refine Span.apartHas (apart d other) ⟨here.1,?_⟩ further
        have := here.2
        simp only [Span.fin] at this ⊢
        omega
    · rw [sum, totalInsert]
      simp only
      omega
  · obtain ⟨rfl,rfl⟩ := Prod.mk.inj (Option.some.inj done)
    exact ⟨fits,by omega,whole,low,covers,apart,sum,first⟩

/- A measure that the list and what is asked for have in common -/
theorem carveGrained {grain n least : Nat} {l rest : List Span} {c : Span}
    (grained : ∀ b ∈ l, grain ∣ b.addr ∧ grain ∣ b.size) (fine : grain ∣ n) (done : carve n least l = .some (c,rest)) :
    ∀ b, b = c ∨ b ∈ rest → grain ∣ b.addr ∧ grain ∣ b.size := by
  have merge : ∀ b c : Span, grain ∣ b.addr ∧ grain ∣ b.size → grain ∣ c.addr ∧ grain ∣ c.size →
      grain ∣ b.addr ∧ grain ∣ b.size + c.size := fun b c left right => ⟨left.1,Nat.dvd_add left.2 right.2⟩
  unfold carve at done
  rcases firstFit n l with ⟨_,ended⟩ | ⟨before,b,behind,rfl,_,_,left,found⟩
  · rw [ended] at done
    cases done
  rw [found, left] at done
  have whole : ∀ d ∈ before ++ behind, grain ∣ d.addr ∧ grain ∣ d.size := by
    intro d inside
    apply grained d
    rw [List.mem_append] at inside ⊢
    exact inside.imp_right (List.mem_cons_of_mem b)
  obtain ⟨place,size⟩ := grained b (by simp)
  dsimp only at done
  split at done
  · obtain ⟨rfl,rfl⟩ := Prod.mk.inj (Option.some.inj done)
    rintro d (rfl | inside)
    · exact ⟨place,fine⟩
    · exact everyInsert merge ⟨Nat.dvd_add place fine,Nat.dvd_sub size fine⟩ whole d inside
  · obtain ⟨rfl,rfl⟩ := Prod.mk.inj (Option.some.inj done)
    rintro d (rfl | inside)
    · exact ⟨place,size⟩
    · exact whole d inside

end YunbaIot.FreeList
