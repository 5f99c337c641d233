import Mathlib.Algebra.BigOperators.Group.List.Basic
import Mathlib.Data.List.Pairwise
import YunbaIot.FreeList

/-! A range of addresses, parts of which are lent out: what is not lent is a list with gaps, so it is a
function of what is. -/
namespace YunbaIot
open FreeList

structure Arena (lo hi grain : Nat) where
  free : List Span
  live : List Span
  gapped : Gapped lo free
  apart : live.Pairwise Span.Apart
  within : ∀ b ∈ live, lo ≤ b.addr ∧ 0 < b.size ∧ b.fin ≤ hi
  parted : ∀ x, Covers free x ↔ lo ≤ x ∧ x < hi ∧ ¬ Covers live x
  grained : ∀ b, b ∈ free ∨ b ∈ live → grain ∣ b.addr ∧ grain ∣ b.size
  accounts : total free + total live = hi - lo

namespace Arena
variable {lo hi grain : Nat}

def fresh (room : lo < hi) (low : grain ∣ lo) (high : grain ∣ hi) : Arena lo hi grain where
  free := [⟨lo,hi - lo⟩]
  live := []
  gapped := ⟨le_refl lo,Nat.sub_pos_of_lt room,trivial⟩
  apart := List.Pairwise.nil
  within := by simp
  parted x := by
    simp only [coversCons, coversNil, Span.Has, Span.fin, or_false, not_false_eq_true, and_true]
    omega
  grained b inside := by
    rcases inside with only | none
    · rw [List.mem_singleton.mp only]
      exact ⟨low,Nat.dvd_sub high low⟩
    · cases none
  accounts := by simp

variable (a : Arena lo hi grain)

theorem freeWithin {b : Span} (inside : b ∈ a.free) : lo ≤ b.addr ∧ 0 < b.size ∧ b.fin ≤ hi := by
  obtain ⟨low,some⟩ := gappedMem a.gapped inside
  refine ⟨low,some,?_⟩
  have last := (a.parted (b.fin - 1)).mp ⟨b,inside,by unfold Span.Has Span.fin; omega⟩
  omega

theorem freeLive {b c : Span} (free : b ∈ a.free) (live : c ∈ a.live) : b.Apart c := by
  refine Span.apartOfHas (a.freeWithin free).2.1 (a.within c live).2.1 fun x here there => ?_
  exact ((a.parted x).mp ⟨b,free,here⟩).2.2 ⟨c,live,there⟩

theorem liveApart {b c : Span} (one : b ∈ a.live) (two : c ∈ a.live) (different : b ≠ c) : b.Apart c :=
  a.apart.forall one two different

/- Nothing of the past is left in the list but what is lent now. -/
theorem determined (a a' : Arena lo hi grain) (same : ∀ x, Covers a.live x ↔ Covers a'.live x) : a.free = a'.free := by
  refine gappedUnique a.gapped a'.gapped fun x => ?_
  rw [a.parted, a'.parted, same]

theorem wholeAgain (a : Arena lo hi grain) (room : lo < hi) (none : a.live = []) : a.free = [⟨lo,hi - lo⟩] := by
  have whole : Gapped lo [⟨lo,hi - lo⟩] := ⟨le_refl lo,Nat.sub_pos_of_lt room,trivial⟩
  refine gappedUnique a.gapped whole fun x => ?_
  rw [a.parted, none]
  simp only [coversCons, coversNil, Span.Has, Span.fin, or_false, not_false_eq_true, and_true]
  omega

def lend {n least : Nat} {c : Span} {rest : List Span} (some : 0 < n) (fine : grain ∣ n)
    (done : carve n least a.free = .some (c,rest)) : Arena lo hi grain where
  free := rest
  live := c :: a.live
  gapped := (carved a.gapped some done).gapped
  apart := by
    refine List.Pairwise.cons (fun d lent => ?_) a.apart
    have cut := carved a.gapped some done
    refine Span.apartOfHas (Nat.lt_of_lt_of_le some cut.fits) (a.within d lent).2.1 fun x here there => ?_
    exact ((a.parted x).mp ((cut.covers x).mpr (Or.inl here))).2.2 ⟨d,lent,there⟩
  within := by
    have cut := carved a.gapped some done
    have size := Nat.lt_of_lt_of_le some cut.fits
    refine List.forall_mem_cons.mpr ⟨⟨cut.low,size,?_⟩,a.within⟩
    have last := (a.parted (c.fin - 1)).mp ((cut.covers _).mpr (Or.inl (by unfold Span.Has Span.fin; omega)))
    omega
  parted x := by
    have cut := carved a.gapped some done
    have old := (cut.covers x).symm.trans (a.parted x)
    have once : c.Has x → ¬ Covers rest x := fun here ⟨b,inside,there⟩ => Span.apartHas (cut.apart b inside) here there
    rw [coversCons]
    tauto
  grained b inside := by
    have parts := carveGrained (fun b free => a.grained b (Or.inl free)) fine done
    rcases inside with free | lent
    · exact parts b (Or.inr free)
    · rcases List.mem_cons.mp lent with rfl | lent
      · exact parts b (Or.inl rfl)
      · exact a.grained b (Or.inr lent)
  accounts := by
    have cut := (carved a.gapped some done).total
    have old := a.accounts
    rw [totalCons]
    omega

theorem coversErase (x : Nat) {b : Span} (lent : b ∈ a.live) :
    Covers (a.live.erase b) x ↔ Covers a.live x ∧ ¬ b.Has x := by
  have order := List.perm_cons_erase lent
  have apart : ∀ c ∈ a.live.erase b, b.Apart c := fun c inside =>
    List.rel_of_pairwise_cons (order.pairwise a.apart fun h => Span.apartSymm h) inside
  have same : Covers a.live x ↔ b.Has x ∨ Covers (a.live.erase b) x := by
    rw [← coversCons]
    exact exists_congr fun c => and_congr_left fun _ => order.mem_iff
  have once : b.Has x → ¬ Covers (a.live.erase b) x :=
    fun here ⟨c,inside,there⟩ => Span.apartHas (apart c inside) here there
  tauto

def release {b : Span} (lent : b ∈ a.live) : Arena lo hi grain where
  free := insertSpan b a.free
  live := a.live.erase b
  gapped := by
    obtain ⟨low,some,_⟩ := a.within b lent
    exact gappedInsert low some a.gapped fun c free => Span.apartSymm (a.freeLive free lent)
  apart := a.apart.sublist List.erase_sublist
  within c inside := a.within c (List.mem_of_mem_erase inside)
  parted x := by
    obtain ⟨low,_,high⟩ := a.within b lent
    have mine : b.Has x → lo ≤ x ∧ x < hi ∧ Covers a.live x := fun here =>
      ⟨Nat.le_trans low here.1,Nat.lt_of_lt_of_le here.2 high,b,lent,here⟩
    rw [coversInsert, a.parted, a.coversErase x lent]
    tauto
  grained c inside := by
    rcases inside with free | lent'
    · exact everyInsert (fun b c left right => ⟨left.1,Nat.dvd_add left.2 right.2⟩) (a.grained b (Or.inr lent))
        (fun c free => a.grained c (Or.inl free)) c free
    · exact a.grained c (Or.inr (List.mem_of_mem_erase lent'))
  accounts := by
    have order : total a.live = b.size + total (a.live.erase b) := by
      rw [← totalCons]
      exact ((List.perm_cons_erase lent).map Span.size).sum_eq
    have old := a.accounts
    rw [totalInsert]
    omega

/- Where there is room for n addresses in one piece, n are lent, and else none. -/
theorem carveRoom {n least : Nat} (some : 0 < n) :
    carve n least a.free = none ↔ ¬ ∃ x, ∀ i < n, Covers a.free (x + i) := by
  rw [carveNone]
  constructor
  · rintro short ⟨x,run⟩
    obtain ⟨b,inside,low,high⟩ := runInside a.gapped some run
    have := short b inside
    unfold Span.fin at high
    omega
  · intro none b inside
    by_contra long
    exact none ⟨b.addr,fun i small => ⟨b,inside,by unfold Span.Has Span.fin; omega⟩⟩

theorem carveLowest {n least : Nat} (some : 0 < n) {c : Span} {rest : List Span}
    (done : carve n least a.free = .some (c,rest)) {x : Nat} (run : ∀ i < n, Covers a.free (x + i)) : c.addr ≤ x := by
  obtain ⟨b,inside,low,high⟩ := runInside a.gapped some run
  refine Nat.le_trans ((carved a.gapped some done).first b inside ?_) low
  unfold Span.fin at high
  omega

end Arena
end YunbaIot
