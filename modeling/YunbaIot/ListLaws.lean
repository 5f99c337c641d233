import YunbaIot.ListTurns

/-! Programs that use lists: what holds of the lists in every run, the order of a sorted list and the turns of a list. -/
namespace YunbaIot.FreeRtosList
open LinkedRing

inductive Op (κ ι : Type) where
  | vListInsertEnd (pxList : κ) (pxNewListItem : ι)
  | vListInsert (pxList : κ) (pxNewListItem : ι)
  | uxListRemove (pxItemToRemove : ι)
  | listGetOwnerOfNextEntry (pxList : κ)
  | listSetListItemValue (pxListItem : ι) (xValue : UInt32)
  deriving DecidableEq

/- With when each item entered its list -/
structure World (κ ι : Type) where
  lists : Lists κ ι
  arrived : ι → Nat
  now : Nat

section Readings
variable {κ ι : Type} {m : Lists κ ι} {r : κ → List ι} {l : κ}

theorem nextTurns (shows : Shows m r) (filled : listListIsEmpty l m = false) : ∃ i q, Turns m r l (i :: q) := by
  obtain ⟨q,turns,perm⟩ := turnsAre shows l
  rcases q with _ | ⟨i,q⟩
  · have empty := (emptyShows shows l).mpr (List.nil_perm.mp perm)
    rw [empty] at filled
    cases filled
  · exact ⟨i,q,turns⟩

/- In order of their values, and those of one value in the order they came -/
def InOrder (w : World κ ι) (i j : ι) : Prop :=
  listGetListItemValue i w.lists < listGetListItemValue j w.lists ∨
    listGetListItemValue i w.lists = listGetListItemValue j w.lists ∧ w.arrived i < w.arrived j

theorem orderCongr {w w' : World κ ι} {i j : ι} (order : InOrder w i j)
    (same : ∀ x ∈ [i,j], listGetListItemValue x w'.lists = listGetListItemValue x w.lists ∧ w'.arrived x = w.arrived x) :
    InOrder w' i j := by
  obtain ⟨value,time⟩ := same i (by simp)
  obtain ⟨value',time'⟩ := same j (by simp)
  unfold InOrder
  rwa [value, value', time, time']

theorem placeOrder {w w' : World κ ι} {i : ι} {xs : List ι} (ordered : xs.Pairwise (InOrder w))
    (values : w'.lists.xItemValue = w.lists.xItemValue) (others : ∀ j ∈ xs, w'.arrived j = w.arrived j)
    (latest : ∀ j ∈ xs, w.arrived j < w'.arrived i) : (place w.lists i xs).Pairwise (InOrder w') := by
  let p := upTo w.lists (listGetListItemValue i w.lists)
  have same : ∀ j, listGetListItemValue j w'.lists = listGetListItemValue j w.lists := fun j => by
    rw [listGetListItemValue, listGetListItemValue, values]
  have kept : xs.Pairwise (InOrder w') := ordered.imp_of_mem fun here there order => orderCongr order (by
    simp only [List.mem_cons, List.not_mem_nil, or_false, forall_eq_or_imp, forall_eq]
    exact ⟨⟨same _,others _ here⟩,same _,others _ there⟩)
  have low : ∀ x ∈ xs.takeWhile p, InOrder w' x i := fun x inside => by
    have here := (List.takeWhile_sublist p).subset inside
    have up : listGetListItemValue x w.lists ≤ listGetListItemValue i w.lists := by
      simpa [p, upTo] using List.mem_takeWhile_imp inside
    unfold InOrder
    rw [same, same, others x here]
    rcases UInt32.lt_or_eq_of_le up with less | equal
    · exact Or.inl less
    · exact Or.inr ⟨equal,latest x here⟩
  have high : ∀ x ∈ xs.dropWhile p, InOrder w' i x := by
    have suffix : (xs.dropWhile p).Pairwise (InOrder w') := List.Pairwise.sublist (List.dropWhile_sublist p) kept
    rcases rest : xs.dropWhile p with _ | ⟨y,ys⟩
    · simp
    · have beyond : listGetListItemValue i w.lists < listGetListItemValue y w.lists := by
        have := List.head_dropWhile_not p (l := xs) (by rw [rest]; simp)
        simpa [rest, p, upTo] using this
      rw [rest] at suffix
      intro x inside
      refine Or.inl ?_
      rw [same, same]
      rcases List.mem_cons.mp inside with rfl | later
      · exact beyond
      · have order := (List.pairwise_cons.mp suffix).1 x later
        unfold InOrder at order
        rw [same, same] at order
        rcases order with less | ⟨equal,_⟩
        · exact UInt32.lt_trans beyond less
        · exact equal ▸ beyond
  rw [← List.takeWhile_append_dropWhile (p := p) (l := xs)] at kept
  obtain ⟨left,right,across⟩ := List.pairwise_append.mp kept
  refine List.pairwise_append.mpr ⟨left,List.pairwise_cons.mpr ⟨high,right⟩,fun x inside y there => ?_⟩
  rcases List.mem_cons.mp there with rfl | later
  · exact low x inside
  · exact across x inside y later

structure Queued (w : World κ ι) (l : κ) (r : κ → List ι) : Prop where
  shows : Shows w.lists r
  ordered : (r l).Pairwise (InOrder w)
  past : ∀ i ∈ r l, w.arrived i < w.now

/- Nothing comes to the list, and what stays on it is as before. -/
theorem queuedLess {w w' : World κ ι} {l : κ} {r r' : κ → List ι} (queued : Queued w l r) (shows : Shows w'.lists r')
    (less : (r' l).Sublist (r l)) (values : ∀ i ∈ r l, listGetListItemValue i w'.lists = listGetListItemValue i w.lists)
    (times : ∀ i ∈ r l, w'.arrived i = w.arrived i) (later : w.now ≤ w'.now) : Queued w' l r' := by
  refine ⟨shows,?_,fun i inside => ?_⟩
  · refine List.Pairwise.sublist less (queued.ordered.imp_of_mem fun here there order => orderCongr order ?_)
    simp only [List.mem_cons, List.not_mem_nil, or_false, forall_eq_or_imp, forall_eq]
    exact ⟨⟨values _ here,times _ here⟩,values _ there,times _ there⟩
  · have here := less.subset inside
    rw [times i here]
    exact Nat.lt_of_lt_of_le (queued.past i here) later

end Readings

section Runs
variable {κ ι : Type} [DecidableEq κ] [DecidableEq ι]

def perform (m : Lists κ ι) : Op κ ι → Option (Lists κ ι)
  | .vListInsertEnd l i => some (vListInsertEnd l i m)
  | .vListInsert l i => vListInsert l i m
  | .uxListRemove i => (uxListRemove i m).map Prod.snd
  | .listGetOwnerOfNextEntry l => some (listGetOwnerOfNextEntry l m).2
  | .listSetListItemValue i v => some (listSetListItemValue i v m)

/- An item enters a list when it is on none, and leaves the one it is on. -/
def Allowed (m : Lists κ ι) : Op κ ι → Prop
  | .vListInsertEnd _ i => m.pvContainer i = none
  | .vListInsert _ i => m.pvContainer i = none
  | .uxListRemove i => m.pvContainer i ≠ none
  | .listGetOwnerOfNextEntry l => listListIsEmpty l m = false
  | .listSetListItemValue _ _ => True

def entering : Op κ ι → Option (κ × ι)
  | .vListInsertEnd l i => some (l,i)
  | .vListInsert l i => some (l,i)
  | _ => none

def arrive (op : Op κ ι) (w : World κ ι) : ι → Nat :=
  match entering op with
  | some (_,i) => Function.update w.arrived i w.now
  | none => w.arrived

def act (w : World κ ι) (op : Op κ ι) : Option (World κ ι) :=
  (perform w.lists op).map fun lists => ⟨lists,arrive op w,w.now + 1⟩

def initialise (ls : List κ) (m : Lists κ ι) : Lists κ ι := ls.foldl (fun m l => vListInitialise l m) m

/- Runs of operations that keep to a rule, after every list has been initialised -/
inductive Reach (rule : Lists κ ι → Op κ ι → Prop) : World κ ι → Prop where
  | start {ls : List κ} {m : Lists κ ι} (all : ∀ l, l ∈ ls) (free : ∀ i, m.pvContainer i = none) (arrived : ι → Nat) :
      Reach rule ⟨initialise ls m,arrived,0⟩
  | step {w w' : World κ ι} {op : Op κ ι} : Reach rule w → Allowed w.lists op → rule w.lists op → act w op = some w' →
      Reach rule w'

structure Initialised (m : Lists κ ι) (l : κ) : Prop where
  next : m.pxNext (.xListEnd l) = .xListEnd l
  prev : m.pxPrevious (.xListEnd l) = .xListEnd l
  last : m.xItemValue (.xListEnd l) = portMaxDelay
  index : m.pxIndex l = .xListEnd l
  count : m.uxNumberOfItems l = 0

theorem initialisedBy {m : Lists κ ι} {l k : κ} (before : l ≠ k → Initialised m l) :
    Initialised (vListInitialise k m) l := by
  by_cases same : l = k
  · subst same
    constructor <;> simp [vListInitialise, setIndex, setValue, setNext, setPrevious, setCount]
  · obtain ⟨next,prev,last,index,count⟩ := before same
    constructor <;> simp [vListInitialise, setIndex, setValue, setNext, setPrevious, setCount, same, next, prev, last,
      index, count]

theorem initialiseAll {ls : List κ} {m : Lists κ ι} {l : κ} (listed : l ∉ ls → Initialised m l) :
    Initialised (initialise ls m) l := by
  induction ls generalizing m with
  | nil => exact listed (List.not_mem_nil)
  | cons k ls ih =>
    refine ih fun out => initialisedBy fun other => listed ?_
    simp [other, out]

theorem initialiseFree {ls : List κ} {m : Lists κ ι} : (initialise ls m).pvContainer = m.pvContainer := by
  induction ls generalizing m with
  | nil => rfl
  | cons k ls ih => exact ih.trans rfl

theorem startShows {ls : List κ} {m : Lists κ ι} (all : ∀ l, l ∈ ls) (free : ∀ i, m.pvContainer i = none) :
    Shows (initialise ls m) fun _ => [] := by
  have made : ∀ l, Initialised (initialise ls m) l := fun l => initialiseAll fun out => absurd (all l) out
  refine ⟨fun l => ringEmpty (made l).next (made l).prev,fun l i => ?_,fun l => (made l).count,fun l => (made l).last,
    fun l => ?_⟩
  · rw [initialiseFree, free]
    simp
  · rw [(made l).index]
    exact List.mem_cons_self ..

/- What an operation makes of the items of the lists -/
def Edited (m : Lists κ ι) (r : κ → List ι) : Op κ ι → (κ → List ι) → Prop
  | .vListInsertEnd l i, r' => ∃ a b, r l = a ++ b ∧ m.pxIndex l = behind (.xListEnd l) (nodes b) ∧
      r' = Function.update r l (a ++ i :: b)
  | .vListInsert l i, r' => r' = Function.update r l (place m i (r l))
  | .uxListRemove i, r' => ∃ l a b, m.pvContainer i = some l ∧ r l = a ++ i :: b ∧ r' = Function.update r l (a ++ b)
  | _, r' => r' = r

theorem performs {m : Lists κ ι} {r : κ → List ι} {op : Op κ ι} (shows : Shows m r) (allowed : Allowed m op) :
    ∃ m' r', perform m op = some m' ∧ Shows m' r' ∧ Edited m r op r' := by
  cases op with
  | vListInsertEnd l i =>
    obtain ⟨a,b,split,index,shows'⟩ := insertEndShows (l := l) shows allowed
    exact ⟨_,_,rfl,shows',a,b,split,index,rfl⟩
  | vListInsert l i =>
    obtain ⟨m',inserted,shows',_⟩ := insertShows (l := l) shows allowed
    exact ⟨m',_,inserted,shows',rfl⟩
  | uxListRemove i =>
    obtain ⟨l,there⟩ := Option.ne_none_iff_exists'.mp allowed
    obtain ⟨a,b,m',split,removed,shows',_⟩ := removeShows shows there
    exact ⟨m',_,by rw [perform, removed]; rfl,shows',l,a,b,there,split,rfl⟩
  | listGetOwnerOfNextEntry l =>
    obtain ⟨i,q,turns⟩ := nextTurns shows allowed
    exact ⟨_,r,rfl,(nextEntryShows shows turns).2.1,rfl⟩
  | listSetListItemValue i v => exact ⟨_,r,rfl,valueShows shows v,rfl⟩

theorem reachShows {rule : Lists κ ι → Op κ ι → Prop} {w : World κ ι} (reach : Reach rule w) : ∃ r, Shows w.lists r := by
  induction reach with
  | start all free arrived => exact ⟨_,startShows all free⟩
  | @step w w' op _ allowed _ done ih =>
    obtain ⟨r,shows⟩ := ih
    obtain ⟨m',r',ran,shows',_⟩ := performs shows allowed
    rw [act, ran] at done
    cases done
    exact ⟨r',shows'⟩

/- Two lists, and two items of one value that enter the first of them -/
def memory : Lists Bool Nat := ⟨fun n => n,fun n => n,fun _ => 0,fun _ => none,fun l => .item l.toNat,fun _ => 7⟩
def bare : World Bool Nat := ⟨initialise [false,true] memory,fun _ => 0,0⟩
def one : World Bool Nat := (act bare (.vListInsert false 4)).get (by decide +kernel)
def two : World Bool Nat := (act one (.vListInsert false 3)).get (by decide +kernel)

theorem twoReach (rule : Lists Bool Nat → Op Bool Nat → Prop) (kept : ∀ m i, rule m (.vListInsert false i)) :
    Reach rule two := by
  have start : Reach rule bare := .start (by decide) (fun _ => rfl) _
  have allowed : Allowed bare.lists (.vListInsert false 4) := show memory.pvContainer 4 = none from rfl
  have first : Reach rule one := .step start allowed (kept _ _) (Option.some_get _).symm
  have allowed' : Allowed one.lists (.vListInsert false 3) := show one.lists.pvContainer 3 = none by decide +kernel
  exact .step first allowed' (kept _ _) (Option.some_get _).symm

theorem listsServed {rule : Lists κ ι → Op κ ι → Prop} {w : World κ ι} (reach : Reach rule w) :
    ∃ r, Shows w.lists r ∧ ∀ op, Allowed w.lists op →
      ∃ w' r', act w op = some w' ∧ Shows w'.lists r' ∧ Edited w.lists r op r' := by
  obtain ⟨r,shows⟩ := reachShows reach
  refine ⟨r,shows,fun op allowed => ?_⟩
  obtain ⟨m',r',ran,shows',edited⟩ := performs shows allowed
  exact ⟨_,r',by rw [act, ran]; rfl,shows',edited⟩

theorem listsServedTwo : ∃ r, Shows two.lists r ∧ ∀ op, Allowed two.lists op →
    ∃ w' r', act two op = some w' ∧ Shows w'.lists r' ∧ Edited two.lists r op r' :=
  listsServed (twoReach (fun _ _ => True) fun _ _ => trivial)

/- Items enter the list by vListInsert, and keep their values while they are on it. -/
def Kept (l : κ) (m : Lists κ ι) : Op κ ι → Prop
  | .vListInsertEnd k _ => k ≠ l
  | .listSetListItemValue i _ => m.pvContainer i ≠ some l
  | _ => True

theorem queuedAct {w w' : World κ ι} {l : κ} {r : κ → List ι} {op : Op κ ι} (queued : Queued w l r)
    (allowed : Allowed w.lists op) (kept : Kept l w.lists op) (done : act w op = some w') : ∃ r', Queued w' l r' := by
  have shows := queued.shows
  obtain ⟨m',r',ran,shows',edited⟩ := performs shows allowed
  rw [act, ran] at done
  cases done
  refine ⟨r',?_⟩
  -- what enters a list is not on this one
  have away : ∀ {i}, w.lists.pvContainer i = none → ∀ j ∈ r l, Function.update w.arrived i w.now j = w.arrived j := by
    intro i free j inside
    refine Function.update_of_ne ?_ ..
    rintro rfl
    have := (shows.container l j).mp inside
    rw [free] at this
    cases this
  cases op with
  | vListInsertEnd k i =>
    obtain ⟨a,b,_,_,rfl⟩ := edited
    cases ran
    refine queuedLess queued shows' ?_ (fun _ _ => rfl) (away allowed) (Nat.le_succ _)
    rw [Function.update_of_ne (Ne.symm kept)]
  | vListInsert k i =>
    cases edited
    obtain ⟨m₁,inserted,_,values,_⟩ := insertShows (l := k) shows allowed
    cases ran.symm.trans inserted
    have mine : arrive (.vListInsert k i) w i = w.now := Function.update_self ..
    by_cases same : l = k
    · subst same
      refine ⟨shows',?_,?_⟩
      · rw [Function.update_self]
        refine placeOrder queued.ordered values (away allowed) fun j inside => ?_
        exact (queued.past j inside).trans_eq mine.symm
      · rw [Function.update_self]
        intro j inside
        rcases placeMem.mp inside with rfl | old
        · exact mine.trans_lt (Nat.lt_succ_self _)
        · exact (away allowed j old).trans_lt (Nat.lt_succ_of_lt (queued.past j old))
    · refine queuedLess queued shows' ?_ (fun j _ => ?_) (away allowed) (Nat.le_succ _)
      · rw [Function.update_of_ne same]
      · rw [listGetListItemValue, listGetListItemValue, values]
  | uxListRemove i =>
    obtain ⟨k,a,b,there,split,rfl⟩ := edited
    obtain ⟨_,_,m₁,_,removed,_,values,_⟩ := removeShows shows there
    rw [perform, removed] at ran
    cases ran
    refine queuedLess queued shows' ?_ (fun j _ => ?_) (fun _ _ => rfl) (Nat.le_succ _)
    · by_cases same : l = k
      · subst same
        rw [Function.update_self, split]
        exact (List.sublist_cons_self i b).append_left a
      · rw [Function.update_of_ne same]
    · rw [listGetListItemValue, listGetListItemValue, values]
  | listGetOwnerOfNextEntry k =>
    cases edited
    cases ran
    refine queuedLess queued shows' (List.Sublist.refl _) (fun j _ => ?_) (fun _ _ => rfl) (Nat.le_succ _)
    unfold listGetOwnerOfNextEntry listGetListItemValue
    dsimp only
    split_ifs <;> rfl
  | listSetListItemValue i v =>
    cases edited
    cases ran
    refine queuedLess queued shows' (List.Sublist.refl _) (fun j inside => ?_) (fun _ _ => rfl) (Nat.le_succ _)
    have apart : Node.item j ≠ (Node.item i : Node κ ι) := by
      rintro ⟨⟩
      exact kept ((shows.container l i).mp inside)
    exact Function.update_of_ne apart ..

theorem sortedQueue {w : World κ ι} {l : κ} (reach : Reach (Kept l) w) :
    ∃ r, Shows w.lists r ∧ (r l).Pairwise (InOrder w) := by
  have queued : ∃ r, Queued w l r := by
    induction reach with
    | start all free arrived => exact ⟨_,startShows all free,List.Pairwise.nil,by simp⟩
    | step _ allowed kept done ih =>
      obtain ⟨r,queued⟩ := ih
      exact queuedAct queued allowed kept done
  obtain ⟨r,shows,ordered,_⟩ := queued
  exact ⟨r,shows,ordered⟩

theorem sortedQueueTwo : ∃ r, Shows two.lists r ∧ (r false).Pairwise (InOrder two) :=
  sortedQueue (twoReach (Kept false) fun _ _ => trivial)

/- What puts another item in front of one on its list -/
def Overtakes (l : κ) (i : ι) (m : Lists κ ι) : Op κ ι → Prop
  | .vListInsertEnd k _ => k = l ∧ m.pxIndex l = .item i
  | .vListInsert k _ => k = l
  | _ => False

/- Runs in which an item stays on its list and its turn does not come, with how often another was given and how many
   were put in front of it -/
inductive Waits (l : κ) (i : ι) : Nat → Nat → Lists κ ι → Lists κ ι → Prop where
  | still (m : Lists κ ι) : Waits l i 0 0 m m
  | aside {g o : Nat} {m m₁ m₂ : Lists κ ι} {op : Op κ ι} : Waits l i g o m m₁ → Allowed m₁ op → perform m₁ op = some m₂ →
      op ≠ .uxListRemove i → op ≠ .listGetOwnerOfNextEntry l → ¬ Overtakes l i m₁ op → Waits l i g o m m₂
  | overtaken {g o : Nat} {m m₁ m₂ : Lists κ ι} {op : Op κ ι} : Waits l i g o m m₁ → Allowed m₁ op →
      perform m₁ op = some m₂ → Overtakes l i m₁ op → Waits l i g (o + 1) m m₂
  | given {g o : Nat} {m m₁ : Lists κ ι} : Waits l i g o m m₁ → listListIsEmpty l m₁ = false →
      (listGetOwnerOfNextEntry l m₁).1 ≠ .item i → Waits l i (g + 1) o m (listGetOwnerOfNextEntry l m₁).2

/- What is left to wait for on the list -/
def Left (l : κ) (i : ι) (n : Nat) (m : Lists κ ι) : Prop :=
  ∃ r x y, Shows m r ∧ Turns m r l (x ++ i :: y) ∧ x.length ≤ n

theorem leftAside {l : κ} {i : ι} {n : Nat} {m m' : Lists κ ι} {op : Op κ ι} (waits : Left l i n m) (allowed : Allowed m op)
    (done : perform m op = some m') (stays : op ≠ .uxListRemove i) (other : op ≠ .listGetOwnerOfNextEntry l)
    (behind : ¬ Overtakes l i m op) : Left l i n m' := by
  obtain ⟨r,x,y,shows,turns,small⟩ := waits
  obtain ⟨m₁,r',ran,shows',edited⟩ := performs shows allowed
  cases done.symm.trans ran
  cases op with
  | vListInsertEnd k j =>
    obtain ⟨a,b,split,index,rfl⟩ := edited
    cases ran
    by_cases same : l = k
    · subst same
      obtain ⟨q,⟨front,back,old,rfl,late⟩,turns'⟩ := insertEndTurns shows turns split index
      -- the item is not the one the index is at, so it is in front of what came
      have mine : i ∉ back := fun inside => behind ⟨rfl,(late i inside).2⟩
      rcases List.append_eq_append_iff.mp old with ⟨e,rfl,tail⟩ | ⟨e,rfl,rfl⟩
      · rcases e with _ | ⟨z,e⟩
        · rw [List.nil_append] at tail
          exact absurd (tail ▸ List.mem_cons_self ..) mine
        · obtain ⟨rfl,rfl⟩ := List.cons.inj tail
          exact ⟨_,x,e ++ j :: back,shows',by simpa using turns',small⟩
      · exact absurd (by simp) mine
    · exact ⟨_,x,y,shows',turnsCongr turns (Function.update_of_ne same ..) rfl,small⟩
  | vListInsert k j =>
    cases edited
    obtain ⟨m₁,inserted,_,_,_,index⟩ := insertShows (l := k) shows allowed
    cases ran.symm.trans inserted
    exact ⟨_,x,y,shows',turnsCongr turns (Function.update_of_ne (Ne.symm behind) ..) (by rw [index]),small⟩
  | uxListRemove j =>
    obtain ⟨k,_,_,there,_⟩ := edited
    obtain ⟨a,b,m₁,split,removed,shows₁,_,_,index⟩ := removeShows shows there
    rw [perform, removed] at ran
    cases ran
    have apart : j ≠ i := fun same => stays (same ▸ rfl)
    by_cases same : l = k
    · subst same
      have turns' := removeTurns shows turns split index
      rw [List.erase_append, List.erase_cons_tail (by simpa using apart.symm)] at turns'
      split_ifs at turns'
      · exact ⟨_,x.erase j,y,shows₁,turns',List.length_erase_le.trans small⟩
      · exact ⟨_,x,y.erase j,shows₁,turns',small⟩
    · refine ⟨_,x,y,shows₁,turnsCongr turns (Function.update_of_ne same ..) ?_,small⟩
      rw [index]
      split_ifs
      · rw [Function.update_of_ne same]
      · rfl
  | listGetOwnerOfNextEntry k =>
    cases edited
    cases ran
    have apart : l ≠ k := fun same => other (same ▸ rfl)
    refine ⟨r,x,y,shows',turnsCongr turns rfl ?_,small⟩
    unfold listGetOwnerOfNextEntry
    dsimp only
    split_ifs <;> simp [setIndex, apart]
  | listSetListItemValue j v =>
    cases edited
    cases ran
    exact ⟨r,x,y,shows',turnsCongr turns rfl rfl,small⟩

theorem leftOvertaken {l : κ} {i : ι} {n : Nat} {m m' : Lists κ ι} {op : Op κ ι} (waits : Left l i n m)
    (allowed : Allowed m op) (done : perform m op = some m') (front : Overtakes l i m op) : Left l i (n + 1) m' := by
  obtain ⟨r,x,y,shows,turns,small⟩ := waits
  obtain ⟨m₁,r',ran,shows',edited⟩ := performs shows allowed
  cases done.symm.trans ran
  -- wherever the other comes, there is one more in front at most
  have slipped : ∀ {u v : List ι} {j : ι}, x ++ i :: y = u ++ v →
      Turns m' r' l (u ++ j :: v) → Left l i (n + 1) m' := by
    intro u v j same turns'
    rcases List.append_eq_append_iff.mp same with ⟨e,rfl,tail⟩ | ⟨e,rfl,rfl⟩
    · rcases e with _ | ⟨z,e⟩
      · refine ⟨r',x ++ [j],y,shows',?_,by simpa using small⟩
        rw [List.nil_append] at tail
        simpa [← tail] using turns'
      · obtain ⟨rfl,rfl⟩ := List.cons.inj tail
        exact ⟨r',x,e ++ j :: v,shows',by simpa using turns',Nat.le_succ_of_le small⟩
    · refine ⟨r',u ++ j :: e,y,shows',by simpa using turns',?_⟩
      simp only [List.length_append, List.length_cons] at small ⊢
      omega
  cases op with
  | vListInsertEnd k j =>
    obtain ⟨rfl,_⟩ := front
    obtain ⟨a,b,split,index,rfl⟩ := edited
    cases ran
    obtain ⟨q,⟨u,v,old,rfl,_⟩,turns'⟩ := insertEndTurns shows turns split index
    exact slipped old turns'
  | vListInsert k j =>
    obtain rfl : k = l := front
    cases edited
    obtain ⟨m₁,inserted,_,_,_,index⟩ := insertShows (l := k) shows allowed
    cases ran.symm.trans inserted
    obtain ⟨u,v,old,turns'⟩ := insertTurns turns List.takeWhile_append_dropWhile.symm index
    exact slipped old turns'
  | uxListRemove _ | listGetOwnerOfNextEntry _ | listSetListItemValue _ _ => cases front

theorem leftGiven {l : κ} {i : ι} {n : Nat} {m : Lists κ ι} (waits : Left l i n m)
    (another : (listGetOwnerOfNextEntry l m).1 ≠ .item i) :
    ∃ n', n = n' + 1 ∧ Left l i n' (listGetOwnerOfNextEntry l m).2 := by
  obtain ⟨r,x,y,shows,turns,small⟩ := waits
  rcases x with _ | ⟨z,x⟩
  · exact absurd (nextEntryShows shows turns).1 another
  · obtain ⟨_,shows',turns'⟩ := nextEntryShows shows turns
    obtain ⟨n,rfl⟩ : ∃ k, n = k + 1 := ⟨n - 1,by simp at small; omega⟩
    exact ⟨n,rfl,r,x,y ++ [z],shows',by simpa using turns',by simpa using small⟩

theorem leftWaits {l : κ} {i : ι} {g o n : Nat} {m m' : Lists κ ι} (waits : Waits l i g o m m') (left : Left l i n m) :
    ∃ n', g + n' = n + o ∧ Left l i n' m' := by
  induction waits with
  | still => exact ⟨n,by omega,left⟩
  | aside _ allowed done stays other behind ih =>
    obtain ⟨n',sum,left'⟩ := ih left
    exact ⟨n',sum,leftAside left' allowed done stays other behind⟩
  | overtaken _ allowed done front ih =>
    obtain ⟨n',sum,left'⟩ := ih left
    exact ⟨n' + 1,by omega,leftOvertaken left' allowed done front⟩
  | given _ _ another ih =>
    obtain ⟨n',sum,left'⟩ := ih left
    obtain ⟨n',rfl,left''⟩ := leftGiven left' another
    exact ⟨n',by omega,left''⟩

theorem turnComes {rule : Lists κ ι → Op κ ι → Prop} {w : World κ ι} {l : κ} {i : ι} {g o : Nat} {m : Lists κ ι}
    (reach : Reach rule w) (on : w.lists.pvContainer i = some l) (waits : Waits l i g o w.lists m) :
    g < listCurrentListLength l w.lists + o := by
  obtain ⟨r,shows⟩ := reachShows reach
  obtain ⟨q,turns,perm⟩ := turnsAre shows l
  obtain ⟨x,y,rfl⟩ := List.append_of_mem (perm.mem_iff.mpr ((shows.container l i).mpr on))
  have length := perm.length_eq
  rw [← shows.count l] at length
  simp only [List.length_append, List.length_cons] at length
  obtain ⟨n,sum,_⟩ := leftWaits waits ⟨r,x,y,shows,turns,Nat.le_refl _⟩
  unfold listCurrentListLength
  omega

theorem turnComesTwo : two.lists.pvContainer 3 = some false ∧
    Waits false 3 1 0 two.lists (listGetOwnerOfNextEntry false two.lists).2 ∧
      1 < listCurrentListLength false two.lists + 0 := by
  have on : two.lists.pvContainer 3 = some false := by decide +kernel
  have waits : Waits false 3 1 0 two.lists (listGetOwnerOfNextEntry false two.lists).2 :=
    .given (.still _) (by decide +kernel) (by decide +kernel)
  exact ⟨on,waits,turnComes (twoReach (fun _ _ => True) fun _ _ => trivial) on waits⟩

end Runs
end YunbaIot.FreeRtosList
