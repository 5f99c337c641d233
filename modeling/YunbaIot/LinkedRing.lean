import Mathlib.Data.List.Rotate
import Mathlib.Logic.Function.Basic
import Mathlib.Tactic.Common

/-! Circular lists with links both ways. A ring is read from one node of it, its end, which stays in it. -/
namespace YunbaIot.LinkedRing
variable {α : Type} {next prev next' prev' : α → α}

def Linked (next prev : α → α) : List α → Prop
  | x :: y :: rest => next x = y ∧ prev y = x ∧ Linked next prev (y :: rest)
  | _ => True

theorem linkedJoin {l k : List α} : Linked next prev (l ++ k) ↔
    Linked next prev l ∧ Linked next prev k ∧ ∀ x ∈ l.getLast?, ∀ z ∈ k.head?, next x = z ∧ prev z = x := by
  induction l with
  | nil => simp [Linked]
  | cons x l ih =>
    cases l with
    | nil =>
      cases k with
      | nil => simp [Linked]
      | cons z k =>
        simp only [List.cons_append, List.nil_append, Linked, List.getLast?_singleton, List.head?_cons, Option.mem_def,
          Option.some.injEq, forall_eq', true_and]
        tauto
    | cons y l =>
      rw [List.cons_append, List.cons_append, Linked, ← List.cons_append, ih, Linked, List.getLast?_cons_cons]
      tauto

theorem linkedCongr {l : List α} (linked : Linked next prev l) (ahead : ∀ x ∈ l.dropLast, next' x = next x)
    (back : ∀ x ∈ l.tail, prev' x = prev x) : Linked next' prev' l := by
  induction l with
  | nil => trivial
  | cons x l ih =>
    cases l with
    | nil => trivial
    | cons y l =>
      obtain ⟨forth,home,rest⟩ := linked
      refine ⟨(ahead x (List.mem_cons_self ..)).trans forth,(back y (List.mem_cons_self ..)).trans home,ih rest ?_ ?_⟩
      · exact fun z inside => ahead z (List.mem_cons_of_mem x inside)
      · exact fun z inside => back z (List.mem_cons_of_mem y inside)

/- The nodes of a ring behind its end, in order -/
structure Ring (next prev : α → α) (e : α) (xs : List α) : Prop where
  once : (e :: xs).Nodup
  linked : Linked next prev (e :: xs ++ [e])

/- The nodes around a place in the ring -/
def before (e : α) (l : List α) : α := (e :: l).getLast (List.cons_ne_nil e l)
def behind (e : α) (k : List α) : α := (k ++ [e]).head (List.append_ne_nil_of_right_ne_nil k (List.cons_ne_nil e []))

@[simp] theorem beforeNil (e : α) : before e [] = e := rfl
@[simp] theorem beforeSnoc (e x : α) (l : List α) : before e (l ++ [x]) = x := by simp [before]
@[simp] theorem behindNil (e : α) : behind e [] = e := rfl
@[simp] theorem behindCons (e x : α) (k : List α) : behind e (x :: k) = x := rfl

theorem beforeMem (e : α) (l : List α) : before e l ∈ e :: l := List.getLast_mem _
theorem behindMem (e : α) (k : List α) : behind e k ∈ k ++ [e] := List.head_mem _

theorem ringAt {e : α} {l k : List α} : Ring next prev e (l ++ k) ↔ (e :: (l ++ k)).Nodup ∧
    Linked next prev (e :: l) ∧ Linked next prev (k ++ [e]) ∧
      next (before e l) = behind e k ∧ prev (behind e k) = before e l := by
  have seam : (∀ x ∈ (e :: l).getLast?, ∀ z ∈ (k ++ [e]).head?, next x = z ∧ prev z = x) ↔
      next (before e l) = behind e k ∧ prev (behind e k) = before e l := by
    rw [List.getLast?_eq_some_getLast (List.cons_ne_nil e l),
      List.head?_eq_some_head (List.append_ne_nil_of_right_ne_nil k (List.cons_ne_nil e []))]
    simp only [Option.mem_def, Option.some.injEq, forall_eq', before, behind]
  rw [← seam, ← linkedJoin]
  constructor
  · rintro ⟨once,linked⟩
    exact ⟨once,by simpa using linked⟩
  · rintro ⟨once,linked⟩
    exact ⟨once,by simpa using linked⟩

/- What the nodes of a ring are linked to does not depend on the others. -/
theorem ringCongr {e : α} {xs : List α} (ring : Ring next prev e xs) (ahead : ∀ x ∈ e :: xs, next' x = next x)
    (back : ∀ x ∈ e :: xs, prev' x = prev x) : Ring next' prev' e xs := by
  refine ⟨ring.once,linkedCongr ring.linked (fun x inside => ahead x ?_) fun x inside => back x ?_⟩
  · rwa [List.dropLast_concat] at inside
  · simp only [List.cons_append, List.tail_cons, List.mem_append, List.mem_singleton] at inside
    rcases inside with there | rfl
    · exact List.mem_cons_of_mem e there
    · exact List.mem_cons_self ..

theorem onceParts {e : α} {l k : List α} (once : (e :: (l ++ k)).Nodup) :
    (e :: l).Nodup ∧ k.Nodup ∧ ∀ x ∈ e :: l, ∀ z ∈ k, x ≠ z := by
  rw [← List.cons_append] at once
  exact List.nodup_append.mp once

/- Nothing that links forth before the place links to it from where it does, and nothing that links back either. -/
theorem dropBefore {e : α} {l k : List α} (once : (e :: (l ++ k)).Nodup) {x : α} (inside : x ∈ (e :: l).dropLast) :
    x ≠ before e l := by
  rintro rfl
  have split := List.dropLast_append_getLast (List.cons_ne_nil e l)
  have nodup := (onceParts once).1
  rw [← split] at nodup
  exact (List.nodup_append.mp nodup).2.2 _ inside _ (List.mem_singleton_self _) rfl

theorem tailBehind {e : α} {l k : List α} (once : (e :: (l ++ k)).Nodup) {x : α} (inside : x ∈ (k ++ [e]).tail) :
    x ≠ behind e k := by
  rintro rfl
  obtain ⟨_,right,apart⟩ := onceParts once
  have split := List.cons_head_tail (List.append_ne_nil_of_right_ne_nil k (List.cons_ne_nil e []))
  have nodup : (k ++ [e]).Nodup := by
    refine List.nodup_append.mpr ⟨right,by simp,fun a inside b single => ?_⟩
    rw [List.mem_singleton.mp single]
    exact (apart e (List.mem_cons_self ..) a inside).symm
  rw [← split] at nodup
  exact (List.nodup_cons.mp nodup).1 inside

theorem leftBehind {e : α} {l k : List α} (once : (e :: (l ++ k)).Nodup) {x : α} (inside : x ∈ l) : x ≠ behind e k := by
  rintro rfl
  obtain ⟨left,_,apart⟩ := onceParts once
  rcases List.mem_append.mp (behindMem e k) with later | last
  · exact apart _ (List.mem_cons_of_mem e inside) _ later rfl
  · rw [List.mem_singleton.mp last] at inside
    exact (List.nodup_cons.mp left).1 inside

theorem rightBefore {e : α} {l k : List α} (once : (e :: (l ++ k)).Nodup) {x : α} (inside : x ∈ k) : x ≠ before e l :=
  ((onceParts once).2.2 _ (beforeMem e l) x inside).symm

/- The links of the new node and the two links to it -/
structure Entered (next prev next' prev' : α → α) (x y z : α) : Prop where
  ahead : next' x = y
  back : prev' z = y
  onward : next' y = z
  home : prev' y = x
  next : ∀ n, n ≠ x → n ≠ y → next' n = next n
  prev : ∀ n, n ≠ z → n ≠ y → prev' n = prev n

theorem enteredBy [DecidableEq α] {x y z : α} (first : x ≠ y) (last : z ≠ y) : Entered next prev
    (Function.update (Function.update next y z) x y) (Function.update (Function.update prev y x) z y) x y z where
  ahead := Function.update_self ..
  back := Function.update_self ..
  onward := by rw [Function.update_of_ne first.symm, Function.update_self]
  home := by rw [Function.update_of_ne last.symm, Function.update_self]
  next n other mine := by rw [Function.update_of_ne other, Function.update_of_ne mine]
  prev n other mine := by rw [Function.update_of_ne other, Function.update_of_ne mine]

theorem ringInsert {e y : α} {l k : List α} (ring : Ring next prev e (l ++ k)) (new : y ∉ e :: (l ++ k))
    (entered : Entered next prev next' prev' (before e l) y (behind e k)) : Ring next' prev' e (l ++ y :: k) := by
  obtain ⟨once,left,right,_,_⟩ := ringAt.mp ring
  have once' : (e :: (l ++ y :: k)).Nodup := by
    rw [← List.cons_append] at once new ⊢
    exact (List.perm_middle.nodup_iff).mpr (List.nodup_cons.mpr ⟨new,once⟩)
  refine ringAt.mpr ⟨once',linkedCongr left ?_ ?_,?_,entered.ahead,entered.home⟩
  · intro x inside
    refine entered.next x (dropBefore once inside) ?_
    rintro rfl
    exact new (List.cons_append ▸ List.mem_append_left k (List.dropLast_subset _ inside))
  · intro x inside
    refine entered.prev x (leftBehind once inside) ?_
    rintro rfl
    exact new (List.mem_cons_of_mem e (List.mem_append_left k inside))
  · rw [List.cons_append, ← List.singleton_append, linkedJoin]
    refine ⟨trivial,linkedCongr right ?_ ?_,?_⟩
    · intro x inside
      rw [List.dropLast_concat] at inside
      refine entered.next x (rightBefore once inside) ?_
      rintro rfl
      exact new (List.mem_cons_of_mem e (List.mem_append_right l inside))
    · intro x inside
      refine entered.prev x (tailBehind once inside) ?_
      rintro rfl
      rcases List.mem_append.mp (List.mem_of_mem_tail inside) with later | last
      · exact new (List.mem_cons_of_mem e (List.mem_append_right l later))
      · exact new (List.mem_singleton.mp last ▸ List.mem_cons_self ..)
    · intro x single z first
      rw [List.getLast?_singleton, Option.mem_def, Option.some.injEq] at single
      rw [List.head?_eq_some_head (List.append_ne_nil_of_right_ne_nil k (List.cons_ne_nil e [])), Option.mem_def,
        Option.some.injEq] at first
      subst single first
      exact ⟨entered.onward,entered.back⟩

/- The two links past a node that goes -/
structure Gone (next prev next' prev' : α → α) (x y z : α) : Prop where
  ahead : next' x = z
  back : prev' z = x
  next : ∀ n, n ≠ x → n ≠ y → next' n = next n
  prev : ∀ n, n ≠ z → n ≠ y → prev' n = prev n

theorem goneBy [DecidableEq α] {x z : α} (y : α) :
    Gone next prev (Function.update next x z) (Function.update prev z x) x y z where
  ahead := Function.update_self ..
  back := Function.update_self ..
  next _ other _ := Function.update_of_ne other ..
  prev _ other _ := Function.update_of_ne other ..

theorem ringRemove {e y : α} {l k : List α} (ring : Ring next prev e (l ++ y :: k))
    (gone : Gone next prev next' prev' (before e l) y (behind e k)) : Ring next' prev' e (l ++ k) := by
  obtain ⟨once,left,right,_,_⟩ := ringAt.mp ring
  have split : (y :: (e :: (l ++ k))).Nodup := by
    rw [← List.cons_append] at once ⊢
    exact (List.perm_middle.nodup_iff).mp once
  obtain ⟨out,once'⟩ := List.nodup_cons.mp split
  rw [List.cons_append, ← List.singleton_append, linkedJoin] at right
  refine ringAt.mpr ⟨once',linkedCongr left ?_ ?_,linkedCongr right.2.1 ?_ ?_,gone.ahead,gone.back⟩
  · intro x inside
    refine gone.next x (dropBefore once' inside) ?_
    rintro rfl
    exact out (List.cons_append ▸ List.mem_append_left k (List.dropLast_subset _ inside))
  · intro x inside
    refine gone.prev x (leftBehind once' inside) ?_
    rintro rfl
    exact out (List.mem_cons_of_mem e (List.mem_append_left k inside))
  · intro x inside
    rw [List.dropLast_concat] at inside
    refine gone.next x (rightBefore once' inside) ?_
    rintro rfl
    exact out (List.mem_cons_of_mem e (List.mem_append_right l inside))
  · intro x inside
    refine gone.prev x (tailBehind once' inside) ?_
    rintro rfl
    rcases List.mem_append.mp (List.mem_of_mem_tail inside) with later | last
    · exact out (List.mem_cons_of_mem e (List.mem_append_right l later))
    · exact out (List.mem_singleton.mp last ▸ List.mem_cons_self ..)

theorem ringNext {e y : α} {l k : List α} (ring : Ring next prev e (l ++ y :: k)) :
    next y = behind e k ∧ prev y = before e l := by
  refine ⟨?_,(ringAt.mp ring).2.2.2.2⟩
  have shifted : Ring next prev e ((l ++ [y]) ++ k) := by simpa using ring
  simpa using (ringAt.mp shifted).2.2.2.1

theorem ringEnd {e : α} {xs : List α} (ring : Ring next prev e xs) : next e = behind e xs ∧ prev e = before e xs := by
  have front : Ring next prev e ([] ++ xs) := ring
  have back : Ring next prev e (xs ++ []) := by simpa using ring
  exact ⟨(ringAt.mp front).2.2.2.1,(ringAt.mp back).2.2.2.2⟩

theorem ringApart {e y : α} {l k : List α} (ring : Ring next prev e (l ++ y :: k)) : before e l ≠ y ∧ behind e k ≠ y := by
  have once := ring.once
  rw [← List.cons_append] at once
  obtain ⟨out,_⟩ := List.nodup_cons.mp (List.perm_middle.nodup_iff.mp once)
  refine ⟨fun same => out ?_,fun same => out ?_⟩
  · rw [← same]
    exact List.mem_append_left _ (beforeMem e l)
  · rw [← same]
    rcases List.mem_append.mp (behindMem e k) with inside | last
    · exact List.mem_append_right _ inside
    · rw [List.mem_singleton.mp last]
      exact List.mem_append_left _ (List.mem_cons_self ..)

/- Every node of a ring has a place before it and one behind it. -/
theorem ringUpTo {e n : α} {xs : List α} (ring : Ring next prev e xs) (inside : n ∈ e :: xs) :
    ∃ l k, xs = l ++ k ∧ behind e k = n ∧ prev n = before e l := by
  rcases List.mem_cons.mp inside with rfl | there
  · exact ⟨xs,[],by simp,rfl,(ringEnd ring).2⟩
  · obtain ⟨l,k,rfl⟩ := List.append_of_mem there
    exact ⟨l,n :: k,rfl,rfl,(ringNext ring).2⟩

theorem ringFrom {e n : α} {xs : List α} (ring : Ring next prev e xs) (inside : n ∈ e :: xs) :
    ∃ l k, xs = l ++ k ∧ before e l = n ∧ next n = behind e k := by
  rcases List.mem_cons.mp inside with rfl | there
  · exact ⟨[],xs,rfl,rfl,(ringEnd ring).1⟩
  · obtain ⟨l,k,rfl⟩ := List.append_of_mem there
    exact ⟨l ++ [n],k,by simp,by simp,(ringNext ring).1⟩

theorem ringEmpty {e : α} (ahead : next e = e) (back : prev e = e) : Ring next prev e [] :=
  ⟨List.nodup_singleton e,ahead,back,trivial⟩

end YunbaIot.LinkedRing
