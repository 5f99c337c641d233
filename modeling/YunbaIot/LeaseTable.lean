import Mathlib.Data.List.Sort
import Mathlib.Order.SuccPred.Basic
import Mathlib.Tactic.Common

/-! Leases of addresses to holders, in order of address: a table that is valid by construction,
and two searches for an address that is not taken. -/
namespace YunbaIot.LeaseTable
open Order

/-! A cursor that gives way, and the first gap -/
section Search
variable {α : Type} [LinearOrder α] [SuccOrder α]

def walk (cursor : α) : List α → α
  | [] => cursor
  | a :: later => walk (if a = cursor then succ cursor else cursor) later

def firstGap (first : α) : List α → α
  | [] => first
  | a :: later => if first < a then first else firstGap (succ first) later

variable {taken : List α}

theorem walkAhead (cursor : α) (taken : List α) : cursor ≤ walk cursor taken := by
  induction taken generalizing cursor with
  | nil => exact le_refl cursor
  | cons a later ih =>
    rw [walk]
    split
    · exact (le_succ cursor).trans (ih (succ cursor))
    · exact ih cursor

theorem walkStays {cursor : α} (beyond : ∀ a ∈ taken, cursor < a) : walk cursor taken = cursor := by
  induction taken with
  | nil => rfl
  | cons a later ih =>
    obtain ⟨first,rest⟩ := List.forall_mem_cons.mp beyond
    rw [walk, if_neg first.ne', ih rest]

/- A walk stops where it starts or right behind an address it gave way to. -/
theorem walkStop (cursor : α) (taken : List α) : walk cursor taken = cursor ∨ ∃ a ∈ taken, walk cursor taken = succ a := by
  induction taken generalizing cursor with
  | nil => exact Or.inl rfl
  | cons a later ih =>
    rw [walk]
    split
    · rename_i here
      subst here
      rcases ih (succ a) with stop | ⟨b,inside,stop⟩
      · exact Or.inr ⟨a,List.mem_cons_self ..,stop⟩
      · exact Or.inr ⟨b,List.mem_cons_of_mem a inside,stop⟩
    · rcases ih cursor with stop | ⟨b,inside,stop⟩
      · exact Or.inl stop
      · exact Or.inr ⟨b,List.mem_cons_of_mem a inside,stop⟩

/- All that a walk passes is taken. -/
theorem walkPasses {cursor x : α} (behind : cursor ≤ x) (passed : x < walk cursor taken) : x ∈ taken := by
  induction taken generalizing cursor with
  | nil => exact absurd passed behind.not_gt
  | cons a later ih =>
    rw [walk] at passed
    split at passed
    · rename_i here
      subst here
      rcases behind.eq_or_lt with same | more
      · exact same ▸ List.mem_cons_self ..
      · exact List.mem_cons_of_mem a (ih (succ_le_of_lt more) passed)
    · exact List.mem_cons_of_mem a (ih behind passed)

theorem gapAhead (first : α) (taken : List α) : first ≤ firstGap first taken := by
  induction taken generalizing first with
  | nil => exact le_refl first
  | cons a later ih =>
    rw [firstGap]
    split
    · exact le_refl first
    · exact (le_succ first).trans (ih (succ first))

/- The first address of a sorted list, once taken, leaves the search right behind it. -/
theorem nextFirst {first a : α} {later : List α} (sorted : (a :: later).Pairwise (· < ·))
    (ahead : ∀ b ∈ a :: later, first ≤ b) (taken : ¬ first < a) :
    first = a ∧ ∀ b ∈ later, succ first ≤ b := by
  have here : first = a := le_antisymm (ahead a (List.mem_cons_self ..)) (not_lt.mp taken)
  subst here
  exact ⟨rfl,fun b inside => succ_le_of_lt (List.rel_of_pairwise_cons sorted inside)⟩

theorem gapStop {first : α} (sorted : taken.Pairwise (· < ·)) (ahead : ∀ a ∈ taken, first ≤ a) :
    firstGap first taken = first ∨ ∃ a ∈ taken, firstGap first taken = succ a := by
  induction taken generalizing first with
  | nil => exact Or.inl rfl
  | cons a later ih =>
    rw [firstGap]
    split
    · exact Or.inl rfl
    · rename_i taken
      obtain ⟨rfl,rest⟩ := nextFirst sorted ahead taken
      right
      rcases ih (List.Pairwise.of_cons sorted) rest with stop | ⟨b,inside,stop⟩
      · exact ⟨first,List.mem_cons_self ..,stop⟩
      · exact ⟨b,List.mem_cons_of_mem first inside,stop⟩

/- All that is before the first gap is taken. -/
theorem gapPasses {first x : α} (sorted : taken.Pairwise (· < ·)) (ahead : ∀ a ∈ taken, first ≤ a)
    (behind : first ≤ x) (passed : x < firstGap first taken) : x ∈ taken := by
  induction taken generalizing first with
  | nil => exact absurd passed behind.not_gt
  | cons a later ih =>
    rw [firstGap] at passed
    split at passed
    · exact absurd passed behind.not_gt
    · rename_i taken
      obtain ⟨rfl,rest⟩ := nextFirst sorted ahead taken
      rcases behind.eq_or_lt with same | more
      · exact same ▸ List.mem_cons_self ..
      · exact List.mem_cons_of_mem first (ih (List.Pairwise.of_cons sorted) rest (succ_le_of_lt more) passed)

variable [NoMaxOrder α]

theorem walkFree (sorted : taken.Pairwise (· < ·)) (cursor : α) : walk cursor taken ∉ taken := by
  induction taken generalizing cursor with
  | nil => exact List.not_mem_nil
  | cons a later ih =>
    obtain ⟨first,rest⟩ := List.pairwise_cons.mp sorted
    rw [walk]
    split
    · rename_i here
      subst here
      have ahead := (lt_succ a).trans_le (walkAhead (succ a) later)
      exact List.not_mem_cons_of_ne_of_not_mem ahead.ne' (ih rest (succ a))
    · rename_i apart
      apply List.not_mem_cons_of_ne_of_not_mem _ (ih rest cursor)
      rcases lt_or_gt_of_ne apart with before | beyond
      · exact (before.trans_le (walkAhead cursor later)).ne'
      · rw [walkStays fun b inside => beyond.trans (first b inside)]
        exact beyond.ne

theorem gapFree {first : α} (sorted : taken.Pairwise (· < ·)) (ahead : ∀ a ∈ taken, first ≤ a) :
    firstGap first taken ∉ taken := by
  induction taken generalizing first with
  | nil => exact List.not_mem_nil
  | cons a later ih =>
    rw [firstGap]
    split
    · rename_i before
      intro inside
      rcases List.mem_cons.mp inside with same | more
      · exact before.ne same
      · exact (before.trans (List.rel_of_pairwise_cons sorted more)).false
    · rename_i taken
      obtain ⟨rfl,rest⟩ := nextFirst sorted ahead taken
      have behind := (lt_succ first).trans_le (gapAhead (succ first) later)
      exact List.not_mem_cons_of_ne_of_not_mem behind.ne' (ih (List.Pairwise.of_cons sorted) rest)

end Search

/-! The table -/

/- Leases of addresses from `start` to `last`, no address and no holder twice. -/
structure Table (α β : Type) [LinearOrder α] (start last : α) where
  leases : List (α × β)
  sorted : (leases.map Prod.fst).Pairwise (· < ·)
  holders : (leases.map Prod.snd).Nodup
  within : ∀ a ∈ leases.map Prod.fst, start ≤ a ∧ a ≤ last

namespace Table
variable {α β : Type} [LinearOrder α] {start last : α}

def empty : Table α β start last := ⟨[],.nil,.nil,nofun⟩

/- Leases may end at any time. -/
def ended (t : Table α β start last) {leases : List (α × β)} (some : leases.Sublist t.leases) : Table α β start last where
  leases := leases
  sorted := t.sorted.sublist (some.map Prod.fst)
  holders := t.holders.sublist (some.map Prod.snd)
  within a inside := t.within a ((some.map Prod.fst).subset inside)

def place (lease : α × β) : List (α × β) → List (α × β)
  | [] => [lease]
  | other :: later => if lease.1 < other.1 then lease :: other :: later else other :: place lease later

theorem placePerm (lease : α × β) (leases : List (α × β)) : (place lease leases).Perm (lease :: leases) := by
  induction leases with
  | nil => exact .refl _
  | cons other later ih =>
    rw [place]
    split
    · exact .refl _
    · exact (ih.cons other).trans (.swap lease other later)

theorem placeSorted {lease : α × β} {leases : List (α × β)} (sorted : (leases.map Prod.fst).Pairwise (· < ·))
    (free : lease.1 ∉ leases.map Prod.fst) : ((place lease leases).map Prod.fst).Pairwise (· < ·) := by
  induction leases with
  | nil => exact List.pairwise_singleton _ _
  | cons other later ih =>
    obtain ⟨first,rest⟩ := List.pairwise_cons.mp sorted
    obtain ⟨apart,free⟩ := List.ne_and_not_mem_of_not_mem_cons free
    rw [place]
    split
    · rename_i before
      refine List.pairwise_cons.mpr ⟨fun a inside => ?_,sorted⟩
      rcases List.mem_cons.mp inside with same | more
      · exact same ▸ before
      · exact before.trans (first a more)
    · rename_i behind
      refine List.pairwise_cons.mpr ⟨fun a inside => ?_,ih rest free⟩
      have placed := ((placePerm lease later).map Prod.fst).mem_iff.mp inside
      rcases List.mem_cons.mp placed with same | more
      · exact same ▸ lt_of_le_of_ne (not_lt.mp behind) (Ne.symm apart)
      · exact first a more

def granted (t : Table α β start last) (address : α) (holder : β) (inside : start ≤ address ∧ address ≤ last)
    (free : address ∉ t.leases.map Prod.fst) (stranger : holder ∉ t.leases.map Prod.snd) : Table α β start last where
  leases := place (address,holder) t.leases
  sorted := placeSorted t.sorted free
  holders := ((placePerm _ _).map Prod.snd).nodup_iff.mpr (List.nodup_cons.mpr ⟨stranger,t.holders⟩)
  within a placed := by
    have one := ((placePerm (address,holder) t.leases).map Prod.fst).mem_iff.mp placed
    rcases List.mem_cons.mp one with same | more
    · exact same ▸ inside
    · exact t.within a more

end Table
end YunbaIot.LeaseTable
