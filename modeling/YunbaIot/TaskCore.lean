import Mathlib.Order.Fin.Basic
import YunbaIot.ListRings
import YunbaIot.FreeRtosTasks

/-! Where the items of the tasks may be, and what the edits of one list keep of it. -/
namespace YunbaIot.FreeRtosTasks
open FreeRtosList

/- One step of a call that has succeeded -/
theorem afterwards {α β : Type} {x : Option α} {a : α} {f : α → Option β} (done : x = some a) : (x >>= f) = f a := by
  rw [done]
  rfl

section Places
variable {τ ε : Type}

/- The tasks of the other list wake after the overflow. -/
def Awaits (k : Kernel τ ε) (l : ListName ε) (t : τ) : Prop := l = k.pxOverflowDelayedTaskList → wakeTime t k < k.xTickCount

/- What a list says of an item it holds -/
def Fits (k : Kernel τ ε) : ListName ε → Item τ → Prop
  | .pxReadyTasksLists p, .xGenericListItem t => k.uxPriority t = p ∧ p ≤ k.uxTopReadyPriority
  | .xDelayedTaskList1, .xGenericListItem t => Awaits k .xDelayedTaskList1 t
  | .xDelayedTaskList2, .xGenericListItem t => Awaits k .xDelayedTaskList2 t
  | .xPendingReadyList, .xGenericListItem _ => False
  | .pxEventList _, .xGenericListItem _ => False
  | .xTasksWaitingTermination, .xGenericListItem _ => True
  | .xSuspendedTaskList, .xGenericListItem _ => True
  | .xPendingReadyList, .xEventListItem _ => True
  | .pxEventList _, .xEventListItem _ => True
  | _, .xEventListItem _ => False

def Delaying (l : ListName ε) : Prop := l = .xDelayedTaskList1 ∨ l = .xDelayedTaskList2

structure Core (k : Kernel τ ε) (r : ListName ε → List (Item τ)) : Prop where
  shows : Shows k.lists r
  two : k.pxDelayedTaskList = .xDelayedTaskList1 ∧ k.pxOverflowDelayedTaskList = .xDelayedTaskList2 ∨
    k.pxDelayedTaskList = .xDelayedTaskList2 ∧ k.pxOverflowDelayedTaskList = .xDelayedTaskList1
  fits : ∀ i l, container i k = some l → Fits k l i
  sorted : ∀ l, Delaying l → Sorted k.lists (r l)

def Sound (k : Kernel τ ε) : Prop := ∃ r, Core k r

theorem delayedIs {k : Kernel τ ε} {r : ListName ε → List (Item τ)} (core : Core k r) :
    Delaying k.pxDelayedTaskList ∧ Delaying k.pxOverflowDelayedTaskList ∧ k.pxDelayedTaskList ≠ k.pxOverflowDelayedTaskList := by
  rcases core.two with ⟨one,two⟩ | ⟨one,two⟩ <;> rw [one, two] <;> simp [Delaying]

/- What a kernel says of an item does not depend on more than this. -/
theorem fitsCongr {k k' : Kernel τ ε} {l : ListName ε} {i : Item τ} (fits : Fits k l i) (priority : k'.uxPriority = k.uxPriority)
    (top : k.uxTopReadyPriority ≤ k'.uxTopReadyPriority)
    (overflow : k'.pxOverflowDelayedTaskList = k.pxOverflowDelayedTaskList) (tick : k'.xTickCount = k.xTickCount)
    (value : k'.lists.xItemValue (.item i) = k.lists.xItemValue (.item i)) : Fits k' l i := by
  cases i with
  | xEventListItem t => cases l <;> exact fits
  | xGenericListItem t =>
    have wake : wakeTime t k' = wakeTime t k := value
    cases l with
    | pxReadyTasksLists p => exact ⟨priority ▸ fits.1,fits.2.trans top⟩
    | xDelayedTaskList1 | xDelayedTaskList2 =>
      simp only [Fits, Awaits, overflow, tick, wake]
      exact fits
    | _ => exact fits

/- The top priority only rises here. -/
theorem coreRecord {k : Kernel τ ε} {r : ListName ε → List (Item τ)} (core : Core k r) (p : Priority) :
    ∃ top, taskRecordReadyPriority p k = { k with uxTopReadyPriority := top } ∧
    Core { k with uxTopReadyPriority := top } r ∧ p ≤ top := by
  have rises : ∀ top, k.uxTopReadyPriority ≤ top → Core { k with uxTopReadyPriority := top } r := fun top more =>
    ⟨core.shows,core.two,fun i l inside => fitsCongr (core.fits i l inside) rfl more rfl rfl rfl,core.sorted⟩
  unfold taskRecordReadyPriority
  by_cases more : p > k.uxTopReadyPriority
  · exact ⟨p,by rw [if_pos more],rises p (le_of_lt more),le_refl _⟩
  · exact ⟨k.uxTopReadyPriority,by rw [if_neg more],rises _ (le_refl _),not_lt.mp more⟩

end Places

section Edits
variable {τ ε : Type} [DecidableEq τ] [DecidableEq ε] {k : Kernel τ ε} {r : ListName ε → List (Item τ)}
  {l : ListName ε} {i : Item τ}

theorem coreLeave (core : Core k r) (there : container i k = some l) : ∃ m r', leaveList i k = some { k with lists := m } ∧
    Core { k with lists := m } r' ∧ m.xItemValue = k.lists.xItemValue ∧
      m.pvContainer = Function.update k.lists.pvContainer i none := by
  obtain ⟨a,b,m,split,removed,shows,values,containers,_⟩ := removeShows core.shows there
  refine ⟨m,_,by rw [leaveList, removed]; rfl,⟨shows,core.two,fun j l' inside => ?_,fun l' delaying => ?_⟩,values,containers⟩
  · have old : container j k = some l' := by
      by_cases same : j = i
      · subst same
        simp [container, containers] at inside
      · simpa [container, containers, Function.update_of_ne same] using inside
    exact fitsCongr (core.fits j l' old) rfl (le_refl _) rfl rfl (congrFun values _)
  · have old := core.sorted l' delaying
    have kept : Sorted m (r l') := by simpa only [Sorted, listGetListItemValue, values] using old
    by_cases same : l' = l
    · subst same
      rw [split] at kept
      rw [Function.update_self]
      exact List.Pairwise.sublist (List.Sublist.append_left (List.sublist_cons_self i b) a) kept
    · rwa [Function.update_of_ne same]

/- An item enters a list that it fits. -/
theorem coreEntered {m : Lists (ListName ε) (Item τ)} {xs : List (Item τ)} (core : Core k r) (fits : Fits k l i)
    (shows : Shows m (Function.update r l xs)) (sorted : Delaying l → Sorted k.lists xs)
    (values : m.xItemValue = k.lists.xItemValue) (containers : m.pvContainer = Function.update k.lists.pvContainer i (some l)) :
    Core { k with lists := m } (Function.update r l xs) := by
  refine ⟨shows,core.two,fun j l' inside => ?_,fun l' delaying => ?_⟩
  · refine fitsCongr (k := k) ?_ rfl (le_refl _) rfl rfl (congrFun values _)
    by_cases same : j = i
    · subst same
      simp only [container, containers, Function.update_self, Option.some.injEq] at inside
      rwa [← inside]
    · refine core.fits j l' ?_
      simpa [container, containers, Function.update_of_ne same] using inside
  · have kept : ∀ {ys}, Sorted k.lists ys → Sorted m ys := fun {ys} old => by
      simpa only [Sorted, listGetListItemValue, values] using old
    by_cases same : l' = l
    · subst same
      rw [Function.update_self]
      exact kept (sorted delaying)
    · rw [Function.update_of_ne same]
      exact kept (core.sorted l' delaying)

theorem coreEnterEnd (core : Core k r) (free : container i k = none) (fits : Fits k l i) (plain : ¬Delaying l) :
    ∃ m r', enterEnd l i k = { k with lists := m } ∧ Core { k with lists := m } r' ∧ m.xItemValue = k.lists.xItemValue ∧
      m.pvContainer = Function.update k.lists.pvContainer i (some l) := by
  obtain ⟨a,b,split,_,shows⟩ := insertEndShows (l := l) core.shows free
  exact ⟨_,_,rfl,coreEntered core fits shows (fun delaying => absurd delaying plain) rfl rfl,rfl,rfl⟩

theorem coreEnterSorted (core : Core k r) (free : container i k = none) (fits : Fits k l i) :
    ∃ m r', enterSorted l i k = some { k with lists := m } ∧ Core { k with lists := m } r' ∧
      m.xItemValue = k.lists.xItemValue ∧ m.pvContainer = Function.update k.lists.pvContainer i (some l) := by
  obtain ⟨m,inserted,shows,values,containers,_⟩ := insertShows (l := l) core.shows free
  exact ⟨m,_,by rw [enterSorted, inserted]; rfl,
    coreEntered core fits shows (fun delaying => placeSorted (core.sorted l delaying)) values containers,values,containers⟩

/- A value that no list depends on -/
theorem coreSetValue (core : Core k r) {v : UInt32} (loose : ∀ l, container i k = some l → ∃ t, i = .xEventListItem t) :
    Core (setItemValue i v k) r := by
  have apart : ∀ {t j l}, container j k = some l → j = .xGenericListItem t → j ≠ i := by
    rintro t j l inside rfl same
    obtain ⟨t',other⟩ := loose l (same ▸ inside)
    rw [← same] at other
    cases other
  have kept : ∀ {j}, j ≠ i → (setItemValue i v k).lists.xItemValue (.item j) = k.lists.xItemValue (.item j) :=
    fun {j} other => Function.update_of_ne (by simpa using other) ..
  refine ⟨valueShows core.shows v,core.two,fun j l inside => ?_,fun l delaying => ?_⟩
  · cases j with
    | xEventListItem t => exact (by have := core.fits _ l inside; cases l <;> exact this)
    | xGenericListItem t => exact fitsCongr (core.fits _ l inside) rfl (le_refl _) rfl rfl (kept (apart inside rfl))
  · have members : ∀ j ∈ r l, listGetListItemValue j (setItemValue i v k).lists = listGetListItemValue j k.lists := by
      intro j inside
      have there : container j k = some l := (core.shows.container l j).mp inside
      refine kept ?_
      cases j with
      | xGenericListItem t => exact apart there rfl
      | xEventListItem t =>
        have := core.fits _ l there
        rcases delaying with rfl | rfl <;> exact this.elim
    exact (core.sorted l delaying).imp_of_mem fun {a b} ina inb le => by rwa [members a ina, members b inb]

theorem coreLeaveEvent (core : Core k r) (t : τ) : ∃ m r', leaveEvent t k = some { k with lists := m } ∧
    Core { k with lists := m } r' ∧ m.xItemValue = k.lists.xItemValue ∧
      m.pvContainer = Function.update k.lists.pvContainer (.xEventListItem t) none := by
  unfold leaveEvent
  rcases here : container (.xEventListItem t) k with _ | l
  · exact ⟨k.lists,r,by simp,core,rfl,(Function.update_eq_self_iff.mpr here.symm).symm⟩
  · obtain ⟨m,r',left,rest⟩ := coreLeave core here
    exact ⟨m,r',by rw [if_neg (by simp), left],rest⟩

theorem coreReady {t : τ} (core : Core k r) (free : container (.xGenericListItem t) k = none) : ∃ m top r',
    prvAddTaskToReadyList t k = { k with lists := m, uxTopReadyPriority := top } ∧
      Core { k with lists := m, uxTopReadyPriority := top } r' ∧ m.xItemValue = k.lists.xItemValue ∧
        m.pvContainer = Function.update k.lists.pvContainer (.xGenericListItem t) (some (.pxReadyTasksLists (k.uxPriority t))) := by
  obtain ⟨top,recorded,core',under⟩ := coreRecord core (k.uxPriority t)
  obtain ⟨m,r',entered,core'',values,containers⟩ := coreEnterEnd (l := .pxReadyTasksLists (k.uxPriority t)) core' free
    ⟨rfl,under⟩ (by simp [Delaying])
  exact ⟨m,top,r',by rw [prvAddTaskToReadyList, recorded, entered],core'',values,containers⟩

end Edits
end YunbaIot.FreeRtosTasks
