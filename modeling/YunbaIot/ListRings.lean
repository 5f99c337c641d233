import Mathlib.Data.List.TakeWhile
import YunbaIot.FreeRtosList

/-! The items of every list that a memory shows, and what the operations of list.c make of them. -/
namespace YunbaIot.FreeRtosList
open LinkedRing

structure Shows {κ ι : Type} (m : Lists κ ι) (r : κ → List ι) : Prop where
  ring : ∀ l, Ring m.pxNext m.pxPrevious (.xListEnd l) ((r l).map .item)
  container : ∀ l i, i ∈ r l ↔ m.pvContainer i = some l
  count : ∀ l, m.uxNumberOfItems l = (r l).length
  last : ∀ l, m.xItemValue (.xListEnd l) = portMaxDelay
  index : ∀ l, m.pxIndex l ∈ Node.xListEnd l :: (r l).map .item

section Nodes
variable {κ ι : Type} {m : Lists κ ι} {r : κ → List ι} {l : κ} {i : ι}

def nodes (xs : List ι) : List (Node κ ι) := xs.map Node.item

theorem nodesAppend (a b : List ι) : (nodes (a ++ b) : List (Node κ ι)) = nodes a ++ nodes b := List.map_append

/- Nodes of two lists have nothing in common. -/
theorem ringsApart (shows : Shows m r) {l' : κ} (other : l' ≠ l) {n : Node κ ι} (here : n ∈ Node.xListEnd l :: nodes (r l)) :
    n ∉ Node.xListEnd l' :: nodes (r l') := by
  intro there
  cases n with
  | xListEnd k =>
    simp only [nodes, List.mem_cons, Node.xListEnd.injEq, List.mem_map, reduceCtorEq, and_false, exists_false, or_false] at here there
    exact other (there.symm.trans here)
  | item j =>
    simp only [nodes, List.mem_cons, reduceCtorEq, List.mem_map, Node.item.injEq, exists_eq_right, false_or] at here there
    have both := ((shows.container l j).mp here).symm.trans ((shows.container l' j).mp there)
    exact other (Option.some.inj both).symm

theorem freeNode (shows : Shows m r) (free : m.pvContainer i = none) (k : κ) : Node.item i ∉ Node.xListEnd k :: nodes (r k) := by
  simp only [nodes, List.mem_cons, reduceCtorEq, List.mem_map, Node.item.injEq, exists_eq_right, false_or]
  intro there
  have := (shows.container k i).mp there
  rw [free] at this
  cases this

end Nodes

section Edits
variable {κ ι : Type} [DecidableEq κ] [DecidableEq ι] {m m' : Lists κ ι} {r : κ → List ι} {l : κ} {i : ι}

/- An item that was on no list enters one. -/
theorem showsEnter {a b : List ι} (shows : Shows m r) (free : m.pvContainer i = none) (split : r l = a ++ b)
    (entered : Entered m.pxNext m.pxPrevious m'.pxNext m'.pxPrevious (before (.xListEnd l) (nodes a)) (.item i)
      (behind (.xListEnd l) (nodes b)))
    (container : m'.pvContainer = Function.update m.pvContainer i (some l))
    (count : m'.uxNumberOfItems = Function.update m.uxNumberOfItems l (m.uxNumberOfItems l + 1))
    (values : ∀ k, m'.xItemValue (.xListEnd k) = m.xItemValue (.xListEnd k)) (index : m'.pxIndex = m.pxIndex) :
    Shows m' (Function.update r l (a ++ i :: b)) := by
  have ring : Ring m.pxNext m.pxPrevious (.xListEnd l) (nodes (r l)) := shows.ring l
  rw [split, nodesAppend] at ring
  have new := freeNode shows free l
  rw [split, nodesAppend] at new
  have first : before (.xListEnd l) (nodes a) ∈ Node.xListEnd l :: nodes (r l) := by
    rw [split, nodesAppend, ← List.cons_append]
    exact List.mem_append_left _ (beforeMem _ _)
  have last : behind (.xListEnd l) (nodes b) ∈ Node.xListEnd l :: nodes (r l) := by
    rw [split, nodesAppend]
    rcases List.mem_append.mp (behindMem (Node.xListEnd l) (nodes b)) with inside | here
    · exact List.mem_cons_of_mem _ (List.mem_append_right _ inside)
    · rw [List.mem_singleton.mp here]
      exact List.mem_cons_self ..
  refine ⟨fun k => ?_,fun k j => ?_,fun k => ?_,fun k => (values k).trans (shows.last k),fun k => ?_⟩
  · by_cases same : k = l
    · subst same
      rw [Function.update_self]
      have placed := ringInsert ring new entered
      unfold nodes at placed
      rw [List.map_append, List.map_cons]
      exact placed
    · rw [Function.update_of_ne same]
      have mine : ∀ n ∈ Node.xListEnd k :: nodes (r k), n ≠ Node.item i := by
        rintro n inside rfl
        exact freeNode shows free k inside
      refine ringCongr (shows.ring k) (fun n inside => entered.next n ?_ (mine n inside))
        fun n inside => entered.prev n ?_ (mine n inside)
      · rintro rfl
        exact ringsApart shows same first inside
      · rintro rfl
        exact ringsApart shows same last inside
  · rw [container]
    by_cases here : j = i
    · subst here
      rw [Function.update_self]
      have nowhere : j ∉ r k := fun there => by
        have := (shows.container k j).mp there
        rw [free] at this
        cases this
      by_cases same : k = l
      · subst same
        simp [Function.update_self]
      · rw [Function.update_of_ne same]
        simp only [nowhere, Option.some.injEq, false_iff]
        exact fun back => same back.symm
    · rw [Function.update_of_ne here, ← shows.container k j]
      by_cases same : k = l
      · subst same
        rw [Function.update_self, split]
        simp [here]
      · rw [Function.update_of_ne same]
  · rw [count]
    by_cases same : k = l
    · subst same
      rw [Function.update_self, Function.update_self, shows.count, split]
      simp only [List.length_append, List.length_cons]
      omega
    · rw [Function.update_of_ne same, Function.update_of_ne same, shows.count]
  · rw [index]
    have old := shows.index k
    by_cases same : k = l
    · subst same
      rw [Function.update_self]
      rw [split] at old
      simp only [List.map_append, List.map_cons, List.mem_cons, List.mem_append] at old ⊢
      tauto
    · rw [Function.update_of_ne same]
      exact old

/- An item leaves its list, and the index moves off it. -/
theorem showsLeave {a b : List ι} (shows : Shows m r) (split : r l = a ++ i :: b)
    (gone : Gone m.pxNext m.pxPrevious m'.pxNext m'.pxPrevious (before (.xListEnd l) (nodes a)) (.item i)
      (behind (.xListEnd l) (nodes b)))
    (container : m'.pvContainer = Function.update m.pvContainer i none)
    (count : m'.uxNumberOfItems = Function.update m.uxNumberOfItems l (m.uxNumberOfItems l - 1))
    (values : ∀ k, m'.xItemValue (.xListEnd k) = m.xItemValue (.xListEnd k))
    (index : m'.pxIndex = if m.pxIndex l = .item i then Function.update m.pxIndex l (before (.xListEnd l) (nodes a))
      else m.pxIndex) : Shows m' (Function.update r l (a ++ b)) := by
  have ring : Ring m.pxNext m.pxPrevious (.xListEnd l) (nodes (r l)) := shows.ring l
  have here : Node.item i ∈ Node.xListEnd l :: nodes (r l) := by
    rw [split]
    simp [nodes]
  have first : before (.xListEnd l) (nodes a) ∈ Node.xListEnd l :: nodes (r l) := by
    rw [split, nodesAppend, ← List.cons_append]
    exact List.mem_append_left _ (beforeMem _ _)
  have last : behind (.xListEnd l) (nodes b) ∈ Node.xListEnd l :: nodes (r l) := by
    rw [split]
    rcases List.mem_append.mp (behindMem (Node.xListEnd l) (nodes b)) with inside | here
    · simp only [nodes, List.map_append, List.map_cons, List.mem_cons, List.mem_append] at inside ⊢
      tauto
    · rw [List.mem_singleton.mp here]
      exact List.mem_cons_self ..
  have once : (a ++ i :: b).Nodup := by
    have := (List.nodup_cons.mp ring.once).2
    rw [split] at this
    exact List.Nodup.of_map _ this
  have out : i ∉ a ++ b := (List.nodup_cons.mp (List.perm_middle.nodup_iff.mp once)).1
  rw [split, nodesAppend] at ring
  refine ⟨fun k => ?_,fun k j => ?_,fun k => ?_,fun k => (values k).trans (shows.last k),fun k => ?_⟩
  · by_cases same : k = l
    · subst same
      rw [Function.update_self]
      have placed := ringRemove ring gone
      unfold nodes at placed
      rwa [List.map_append]
    · rw [Function.update_of_ne same]
      refine ringCongr (shows.ring k) (fun n inside => gone.next n ?_ ?_) fun n inside => gone.prev n ?_ ?_
      · rintro rfl
        exact ringsApart shows same first inside
      · rintro rfl
        exact ringsApart shows same here inside
      · rintro rfl
        exact ringsApart shows same last inside
      · rintro rfl
        exact ringsApart shows same here inside
  · rw [container]
    by_cases this : j = i
    · subst this
      rw [Function.update_self]
      by_cases same : k = l
      · subst same
        simp [Function.update_self, out]
      · rw [Function.update_of_ne same]
        have mine := (shows.container l j).mp (by rw [split]; simp)
        simp only [reduceCtorEq, iff_false]
        intro there
        have other := (shows.container k j).mp there
        rw [mine] at other
        exact same (Option.some.inj other).symm
    · rw [Function.update_of_ne this, ← shows.container k j]
      by_cases same : k = l
      · subst same
        rw [Function.update_self, split]
        simp [this]
      · rw [Function.update_of_ne same]
  · rw [count]
    by_cases same : k = l
    · subst same
      rw [Function.update_self, Function.update_self, shows.count, split]
      simp only [List.length_append, List.length_cons]
      omega
    · rw [Function.update_of_ne same, Function.update_of_ne same, shows.count]
  · have old := shows.index k
    rw [index]
    by_cases same : k = l
    · subst same
      rw [Function.update_self]
      split_ifs with at_it
      · rw [Function.update_self, List.map_append, ← List.cons_append]
        exact List.mem_append_left _ (beforeMem _ _)
      · rw [split] at old
        simp only [List.map_append, List.map_cons, List.mem_cons, List.mem_append] at old ⊢
        tauto
    · rw [Function.update_of_ne same]
      split_ifs
      · rwa [Function.update_of_ne same]
      · exact old

end Edits

section Readings
variable {κ ι : Type} {m : Lists κ ι} {r : κ → List ι} {l : κ} {i : ι}

theorem nodesSplit {xs : List ι} {A B : List (Node κ ι)} (split : nodes xs = A ++ B) :
    ∃ a b, xs = a ++ b ∧ nodes a = A ∧ nodes b = B := List.map_eq_append_iff.mp split

theorem headShows {xs : List ι} (shows : Shows m r) (first : r l = i :: xs) : listGetOwnerOfHeadEntry l m = .item i := by
  have ahead := (ringEnd (shows.ring l)).1
  rw [first] at ahead
  exact ahead

theorem emptyShows (shows : Shows m r) (l : κ) : listListIsEmpty l m = true ↔ r l = [] := by
  rw [listListIsEmpty, decide_eq_true_eq, shows.count, List.length_eq_zero_iff]

/- In front of the first item with a greater value -/
def upTo (m : Lists κ ι) (v : UInt32) (i : ι) : Bool := listGetListItemValue i m ≤ v
def place (m : Lists κ ι) (i : ι) (xs : List ι) : List ι :=
  xs.takeWhile (upTo m (listGetListItemValue i m)) ++ i :: xs.dropWhile (upTo m (listGetListItemValue i m))

/- In order of their values -/
def Sorted (m : Lists κ ι) (xs : List ι) : Prop := xs.Pairwise fun i j => listGetListItemValue i m ≤ listGetListItemValue j m

theorem placeSorted {xs : List ι} (sorted : Sorted m xs) : Sorted m (place m i xs) := by
  let p := upTo m (listGetListItemValue i m)
  have low : ∀ x ∈ xs.takeWhile p, listGetListItemValue x m ≤ listGetListItemValue i m := fun x inside => by
    simpa [p, upTo] using List.mem_takeWhile_imp inside
  have high : ∀ x ∈ xs.dropWhile p, listGetListItemValue i m ≤ listGetListItemValue x m := by
    have suffix : Sorted m (xs.dropWhile p) := List.Pairwise.sublist (List.dropWhile_sublist p) sorted
    rcases rest : xs.dropWhile p with _ | ⟨y,ys⟩
    · simp
    · have beyond : ¬p y = true := by
        have := List.head_dropWhile_not p (l := xs) (by rw [rest]; simp)
        simpa [rest] using this
      have first : listGetListItemValue i m ≤ listGetListItemValue y m := by
        simp only [p, upTo, decide_eq_true_eq, UInt32.not_le] at beyond
        exact UInt32.le_of_lt beyond
      rw [rest] at suffix
      intro x inside
      rcases List.mem_cons.mp inside with rfl | later
      · exact first
      · exact UInt32.le_trans first ((List.pairwise_cons.mp suffix).1 x later)
  rw [← List.takeWhile_append_dropWhile (p := p) (l := xs)] at sorted
  obtain ⟨left,right,across⟩ := List.pairwise_append.mp sorted
  refine List.pairwise_append.mpr ⟨left,List.pairwise_cons.mpr ⟨high,right⟩,fun x inside y there => ?_⟩
  rcases List.mem_cons.mp there with rfl | later
  · exact low x inside
  · exact across x inside y later

theorem placeMem {j : ι} {xs : List ι} : j ∈ place m i xs ↔ j = i ∨ j ∈ xs := by
  unfold place
  rw [List.mem_append, List.mem_cons, ← List.takeWhile_append_dropWhile (p := upTo m (listGetListItemValue i m)) (l := xs),
    List.mem_append, List.takeWhile_append_dropWhile]
  tauto

theorem iteratorStops (shows : Shows m r) {v : UInt32} (small : v ≠ portMaxDelay) (b : List ι) :
    ∀ (a : List ι) (steps : Nat), r l = a ++ b → b.length < steps →
      iterator m v steps (before (.xListEnd l) (nodes a)) =
        some (before (.xListEnd l) (nodes (a ++ b.takeWhile (upTo m v)))) := by
  induction b with
  | nil =>
    intro a steps split enough
    obtain ⟨steps,rfl⟩ : ∃ k, steps = k + 1 := ⟨steps - 1,by simp at enough; omega⟩
    have ring : Ring m.pxNext m.pxPrevious (.xListEnd l) (nodes (r l)) := shows.ring l
    rw [split, nodesAppend] at ring
    have next := (ringAt.mp ring).2.2.2.1
    have above : ¬m.xItemValue (behind (.xListEnd l) (nodes [])) ≤ v := by
      have : m.xItemValue (behind (.xListEnd l) (nodes [])) = portMaxDelay := shows.last l
      rw [this, UInt32.le_iff_toNat_le]
      intro big
      have := v.toNat_lt
      exact small (UInt32.toNat_inj.mp (by simp only [portMaxDelay, UInt32.reduceToNat] at big ⊢; omega))
    rw [iterator, next, if_neg above]
    simp
  | cons x b ih =>
    intro a steps split enough
    obtain ⟨steps,rfl⟩ : ∃ k, steps = k + 1 := ⟨steps - 1,by simp at enough; omega⟩
    have ring : Ring m.pxNext m.pxPrevious (.xListEnd l) (nodes (r l)) := shows.ring l
    rw [split, nodesAppend] at ring
    have next : m.pxNext (before (.xListEnd l) (nodes a)) = .item x := (ringAt.mp ring).2.2.2.1
    rw [iterator, next]
    by_cases low : m.xItemValue (.item x) ≤ v
    · have on := ih (a ++ [x]) steps (by simpa using split) (by simpa using enough)
      rw [if_pos low, List.takeWhile_cons_of_pos (by rw [upTo, listGetListItemValue]; simpa using low)]
      simpa [nodes] using on
    · rw [if_neg low, List.takeWhile_cons_of_neg (by rw [upTo, listGetListItemValue]; simpa using low)]
      simp

end Readings

section Operations
variable {κ ι : Type} [DecidableEq κ] [DecidableEq ι] {m : Lists κ ι} {r : κ → List ι} {l : κ} {i : ι}

theorem insertEndShows (shows : Shows m r) (free : m.pvContainer i = none) : ∃ a b, r l = a ++ b ∧
    m.pxIndex l = behind (.xListEnd l) (nodes b) ∧ Shows (vListInsertEnd l i m) (Function.update r l (a ++ i :: b)) := by
  obtain ⟨A,B,cut,there,back⟩ := ringUpTo (shows.ring l) (shows.index l)
  obtain ⟨a,b,split,rfl,rfl⟩ := nodesSplit cut
  have new := freeNode shows free l
  have last : behind (.xListEnd l) (nodes b) ≠ .item i := by
    rw [there]
    exact fun same => new (same ▸ shows.index l)
  have first : before (.xListEnd l) (nodes a) ≠ .item i := by
    intro same
    refine new ?_
    rw [← same, split, nodesAppend, ← List.cons_append]
    exact List.mem_append_left _ (beforeMem _ _)
  have next : (vListInsertEnd l i m).pxNext = Function.update (Function.update m.pxNext (.item i)
      (behind (.xListEnd l) (nodes b))) (before (.xListEnd l) (nodes a)) (.item i) := by
    rw [← back, there]
    simp only [vListInsertEnd, setNext, setPrevious, setContainer, setCount]
    rw [Function.update_of_ne (there ▸ last)]
  have prev : (vListInsertEnd l i m).pxPrevious = Function.update (Function.update m.pxPrevious (.item i)
      (before (.xListEnd l) (nodes a))) (behind (.xListEnd l) (nodes b)) (.item i) := by
    rw [← back, there]
    rfl
  refine ⟨a,b,split,there.symm,showsEnter shows free split ?_ rfl rfl (fun k => rfl) rfl⟩
  rw [next, prev]
  exact enteredBy first last

theorem insertShows (shows : Shows m r) (free : m.pvContainer i = none) : ∃ m', vListInsert l i m = some m' ∧
    Shows m' (Function.update r l (place m i (r l))) ∧ m'.xItemValue = m.xItemValue ∧
      m'.pvContainer = Function.update m.pvContainer i (some l) ∧ m'.pxIndex = m.pxIndex := by
  let v := m.xItemValue (.item i)
  let a := (r l).takeWhile (upTo m v)
  let b := (r l).dropWhile (upTo m v)
  have split : r l = a ++ b := List.takeWhile_append_dropWhile.symm
  have ring : Ring m.pxNext m.pxPrevious (.xListEnd l) (nodes (r l)) := shows.ring l
  have here : insertionPlace l v m = some (before (.xListEnd l) (nodes a)) := by
    unfold insertionPlace
    split_ifs with most
    · have all : a = r l := by
        refine List.takeWhile_eq_self_iff.mpr fun x _ => ?_
        rw [upTo, most, decide_eq_true_eq, UInt32.le_iff_toNat_le]
        have := (listGetListItemValue x m).toNat_lt
        simp only [portMaxDelay, UInt32.reduceToNat]
        omega
      rw [(ringEnd ring).2, all]
    · exact iteratorStops shows most (r l) [] (m.uxNumberOfItems l + 1) rfl (by rw [shows.count]; omega)
  rw [split, nodesAppend] at ring
  have next := (ringAt.mp ring).2.2.2.1
  have new := freeNode shows free l
  rw [split, nodesAppend] at new
  have first : before (.xListEnd l) (nodes a) ≠ .item i := by
    intro same
    rw [← same, ← List.cons_append] at new
    exact new (List.mem_append_left _ (beforeMem _ _))
  have last : behind (.xListEnd l) (nodes b) ≠ .item i := by
    intro same
    rw [← same] at new
    rcases List.mem_append.mp (behindMem (Node.xListEnd l) (nodes b)) with inside | at_end
    · exact new (List.mem_cons_of_mem _ (List.mem_append_right _ inside))
    · rw [List.mem_singleton.mp at_end] at new
      exact new (List.mem_cons_self ..)
  unfold vListInsert
  rw [show m.xItemValue (.item i) = v from rfl, here]
  refine ⟨_,rfl,showsEnter shows free split ?_ rfl rfl (fun k => rfl) rfl,rfl,rfl,rfl⟩
  simp only [setNext, setPrevious, setContainer, setCount, Function.update_self, next]
  rw [Function.update_comm last]
  exact enteredBy first last

theorem removeShows (shows : Shows m r) (there : m.pvContainer i = some l) : ∃ a b m', r l = a ++ i :: b ∧
    uxListRemove i m = some ((a ++ b).length,m') ∧ Shows m' (Function.update r l (a ++ b)) ∧
      m'.xItemValue = m.xItemValue ∧ m'.pvContainer = Function.update m.pvContainer i none ∧
        m'.pxIndex = if m.pxIndex l = .item i then Function.update m.pxIndex l (before (.xListEnd l) (nodes a))
          else m.pxIndex := by
  obtain ⟨a,b,split⟩ := List.append_of_mem ((shows.container l i).mpr there)
  have ring : Ring m.pxNext m.pxPrevious (.xListEnd l) (nodes a ++ .item i :: nodes b) := by
    have whole := shows.ring l
    rwa [split, List.map_append, List.map_cons] at whole
  obtain ⟨next,prev⟩ := ringNext ring
  obtain ⟨_,past⟩ := ringApart ring
  let m' : Lists κ ι := { m with
    pxNext := Function.update m.pxNext (before (.xListEnd l) (nodes a)) (behind (.xListEnd l) (nodes b))
    pxPrevious := Function.update m.pxPrevious (behind (.xListEnd l) (nodes b)) (before (.xListEnd l) (nodes a))
    pvContainer := Function.update m.pvContainer i none
    pxIndex := if m.pxIndex l = .item i then Function.update m.pxIndex l (before (.xListEnd l) (nodes a)) else m.pxIndex
    uxNumberOfItems := Function.update m.uxNumberOfItems l (m.uxNumberOfItems l - 1) }
  refine ⟨a,b,m',split,?_,showsLeave shows split (goneBy _) rfl rfl (fun k => rfl) rfl,rfl,rfl,rfl⟩
  have count : m.uxNumberOfItems l - 1 = (a ++ b).length := by
    rw [shows.count, split]
    simp only [List.length_append, List.length_cons]
    omega
  unfold uxListRemove
  simp only [setNext, setPrevious, next, prev, Function.update_of_ne past.symm, there, Option.bind_eq_bind, Option.bind_some]
  by_cases at_it : m.pxIndex l = .item i
  · simp [at_it, setIndex, setContainer, setCount, m', count]
  · simp [at_it, setContainer, setCount, m', count]

theorem initialiseShows (shows : Shows m r) (none_in : r l = []) : Shows (vListInitialise l m) r := by
  have ring := shows.ring l
  rw [none_in] at ring
  obtain ⟨ahead,back⟩ := ringEnd ring
  have next : (vListInitialise l m).pxNext = m.pxNext := by
    simp only [vListInitialise, setIndex, setValue, setNext, setPrevious, setCount]
    exact Function.update_eq_self_iff.mpr ahead.symm
  have prev : (vListInitialise l m).pxPrevious = m.pxPrevious := by
    simp only [vListInitialise, setIndex, setValue, setNext, setPrevious, setCount]
    exact Function.update_eq_self_iff.mpr back.symm
  refine ⟨fun k => by rw [next, prev]; exact shows.ring k,shows.container,fun k => ?_,fun k => ?_,fun k => ?_⟩
  all_goals
    simp only [vListInitialise, setIndex, setValue, setNext, setPrevious, setCount]
    by_cases same : k = l
  · subst same
    rw [Function.update_self, none_in, List.length_nil]
  · rw [Function.update_of_ne same, shows.count]
  · subst same
    rw [Function.update_self]
  · rw [Function.update_of_ne (by simpa using same), shows.last]
  · subst same
    rw [Function.update_self]
    exact List.mem_cons_self ..
  · rw [Function.update_of_ne same]
    exact shows.index k

theorem valueShows (shows : Shows m r) (v : UInt32) : Shows (listSetListItemValue i v m) r := by
  refine ⟨shows.ring,shows.container,shows.count,fun k => ?_,shows.index⟩
  show Function.update m.xItemValue (.item i) v (.xListEnd k) = portMaxDelay
  rw [Function.update_of_ne (by simp), shows.last]

end Operations
end YunbaIot.FreeRtosList
