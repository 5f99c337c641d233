import Mathlib.Data.List.Perm.Subperm
import YunbaIot.TaskCore

/-! Tasks that become ready: what the tick, an event and the end of a suspension do to the tasks they wake. -/
namespace YunbaIot.FreeRtosTasks
open FreeRtosList

section Changes
variable {τ ε : Type}

/- The tasks of a set are ready and wait for nothing, the others are as they were. -/
structure Readied (S : τ → Prop) (k k' : Kernel τ ε) : Prop where
  moved : ∀ t, S t → container (.xGenericListItem t) k' = some (.pxReadyTasksLists (k.uxPriority t)) ∧
    container (.xEventListItem t) k' = none
  kept : ∀ t, ¬S t → container (.xGenericListItem t) k' = container (.xGenericListItem t) k ∧
    container (.xEventListItem t) k' = container (.xEventListItem t) k
  values : k'.lists.xItemValue = k.lists.xItemValue
  rest : ∃ m top next, k' = { k with lists := m, uxTopReadyPriority := top, xNextTaskUnblockTime := next }

theorem readiedNone (k : Kernel τ ε) : Readied (fun _ => False) k k :=
  ⟨fun _ none => none.elim,fun _ _ => ⟨rfl,rfl⟩,rfl,k.lists,k.uxTopReadyPriority,k.xNextTaskUnblockTime,rfl⟩

theorem readiedTrans {S T : τ → Prop} {k k' k'' : Kernel τ ε} (first : Readied S k k') (second : Readied T k' k'') :
    Readied (fun t => S t ∨ T t) k k'' := by
  have priority : k'.uxPriority = k.uxPriority := by
    obtain ⟨m,top,next,same⟩ := first.rest
    rw [same]
  refine ⟨fun t either => ?_,fun t neither => ?_,second.values.trans first.values,?_⟩
  · by_cases late : T t
    · have := second.moved t late
      rwa [priority] at this
    · obtain ⟨generic,event⟩ := second.kept t late
      rw [generic, event]
      exact first.moved t (either.resolve_right late)
  · obtain ⟨early,late⟩ := not_or.mp neither
    obtain ⟨generic,event⟩ := second.kept t late
    rw [generic, event]
    exact first.kept t early
  · obtain ⟨_,_,_,same⟩ := first.rest
    obtain ⟨m,top,next,same'⟩ := second.rest
    exact ⟨m,top,next,by rw [same', same]⟩

theorem readiedCongr {S T : τ → Prop} {k k' : Kernel τ ε} (change : Readied S k k') (same : ∀ t, S t ↔ T t) : Readied T k k' := by
  have : S = T := funext fun t => propext (same t)
  rwa [← this]

/- The tasks whose time has come -/
def Woken (k : Kernel τ ε) (t : τ) : Prop :=
  container (.xGenericListItem t) k = some k.pxDelayedTaskList ∧ wakeTime t k ≤ k.xTickCount

/- A task that wakes before the overflow, with a tick to come that wakes it -/
def Timely (k : Kernel τ ε) (t : τ) : Prop :=
  (k.xTickCount ≤ wakeTime t k ∧ k.xTickCount + 1 ≠ 0) ∧ k.xNextTaskUnblockTime ≤ wakeTime t k

theorem timelyKept {k k' : Kernel τ ε} {t : τ} (timely : Timely k t) (wake : wakeTime t k' = wakeTime t k)
    (tick : k'.xTickCount = k.xTickCount) (next : k'.xNextTaskUnblockTime ≤ k.xNextTaskUnblockTime) : Timely k' t := by
  unfold Timely
  rw [wake, tick]
  exact ⟨timely.1,UInt32.le_trans next timely.2⟩

/- So do all of the current list. -/
def Ahead (k : Kernel τ ε) : Prop := ∀ t, container (.xGenericListItem t) k = some k.pxDelayedTaskList → Timely k t

theorem notLast {tick wake : UInt32} (later : tick < wake) : tick + 1 ≠ 0 := by
  have a := UInt32.lt_iff_toNat_lt.mp later
  have b := wake.toNat_lt
  intro wraps
  have zero := congrArg UInt32.toNat wraps
  rw [UInt32.toNat_add, UInt32.toNat_zero] at zero
  simp only [UInt32.reduceToNat] at zero
  omega

theorem laterTimely {k : Kernel τ ε} {t : τ} (later : k.xTickCount < wakeTime t k) (next : k.xNextTaskUnblockTime ≤ wakeTime t k) :
    Timely k t := ⟨⟨UInt32.le_of_lt later,notLast later⟩,next⟩

/- The tasks that were taken off an event list while the scheduler was suspended -/
def Pended (k : Kernel τ ε) (t : τ) : Prop := container (.xEventListItem t) k = some .xPendingReadyList

theorem headPended {k : Kernel τ ε} {r : ListName ε → List (Item τ)} (core : Core k r) {i : Item τ} {rest : List (Item τ)}
    (first : r .xPendingReadyList = i :: rest) : ∃ t, i = .xEventListItem t ∧ headTask .xPendingReadyList k = some t := by
  have there : container i k = some .xPendingReadyList := (core.shows.container _ i).mp (by rw [first]; simp)
  have fits := core.fits i _ there
  cases i with
  | xGenericListItem t => exact fits.elim
  | xEventListItem t => exact ⟨t,rfl,by rw [headTask, headShows core.shows first]; rfl⟩

theorem headGeneric {k : Kernel τ ε} {r : ListName ε → List (Item τ)} (core : Core k r) {l : ListName ε}
    (delaying : Delaying l) {i : Item τ} {rest : List (Item τ)} (first : r l = i :: rest) :
    ∃ t, i = .xGenericListItem t ∧ headTask l k = some t := by
  have there : container i k = some l := (core.shows.container l i).mp (by rw [first]; simp)
  have fits := core.fits i l there
  cases i with
  | xGenericListItem t => exact ⟨t,rfl,by rw [headTask, headShows core.shows first]; rfl⟩
  | xEventListItem t => rcases delaying with rfl | rfl <;> exact fits.elim

/- The head of a delayed list wakes first. -/
theorem headFirst {k : Kernel τ ε} {r : ListName ε → List (Item τ)} (core : Core k r) {l : ListName ε} (delaying : Delaying l)
    {t : τ} {rest : List (Item τ)} (first : r l = .xGenericListItem t :: rest) {s : τ}
    (inside : container (.xGenericListItem s) k = some l) : wakeTime t k ≤ wakeTime s k := by
  have sorted := core.sorted _ delaying
  rw [first] at sorted
  have member : Item.xGenericListItem s ∈ Item.xGenericListItem t :: rest := by
    rw [← first]
    exact (core.shows.container _ _).mpr inside
  rcases List.mem_cons.mp member with same | later
  · cases same
    exact UInt32.le_refl _
  · exact (List.pairwise_cons.mp sorted).1 _ later

/- A list that has lost an item, and won none, is shorter. -/
theorem fewer {k k' : Kernel τ ε} {r r' : ListName ε → List (Item τ)} (core : Core k r) (core' : Core k' r') {l : ListName ε}
    {i : Item τ} {rest : List (Item τ)} (first : r l = i :: rest) (gone : container i k' ≠ some l)
    (kept : ∀ j, container j k' = some l → container j k = some l) : (r' l).length ≤ rest.length := by
  have once : (r' l).Nodup := List.Nodup.of_map _ (List.nodup_cons.mp (core'.shows.ring l).once).2
  refine (List.Nodup.subperm once fun j inside => ?_).length_le
  have there : container j k' = some l := (core'.shows.container l j).mp inside
  have before : j ∈ r l := (core.shows.container l j).mpr (kept j there)
  rw [first] at before
  refine (List.mem_cons.mp before).resolve_left ?_
  rintro rfl
  exact gone there

end Changes

section Waking
variable {τ ε : Type} [DecidableEq τ] [DecidableEq ε]

/- One task is made ready, whatever list it is on. -/
theorem readyOne {k : Kernel τ ε} {r : ListName ε → List (Item τ)} {t : τ} (core : Core k r)
    (live : container (.xGenericListItem t) k ≠ none) : ∃ k₁ k₂, leaveList (.xGenericListItem t) k = some k₁ ∧
      leaveEvent t k₁ = some k₂ ∧ Sound (prvAddTaskToReadyList t k₂) ∧ Readied (· = t) k (prvAddTaskToReadyList t k₂) ∧
        (prvAddTaskToReadyList t k₂).xNextTaskUnblockTime = k.xNextTaskUnblockTime := by
  obtain ⟨l,there⟩ := Option.ne_none_iff_exists'.mp live
  obtain ⟨m₁,r₁,left,core₁,values₁,containers₁⟩ := coreLeave core there
  obtain ⟨m₂,r₂,gone,core₂,values₂,containers₂⟩ := coreLeaveEvent core₁ t
  have free : container (.xGenericListItem t) { k with lists := m₂ } = none := by
    simp [container, containers₂, containers₁]
  obtain ⟨m₃,top,r₃,added,core₃,values₃,containers₃⟩ := coreReady core₂ free
  refine ⟨_,_,left,gone,⟨r₃,added ▸ core₃⟩,?_,by rw [added]⟩
  rw [added]
  have places : m₃.pvContainer = Function.update (Function.update (Function.update k.lists.pvContainer
      (.xGenericListItem t) none) (.xEventListItem t) none) (.xGenericListItem t) (some (.pxReadyTasksLists (k.uxPriority t))) := by
    rw [containers₃, containers₂, containers₁]
  refine ⟨?_,fun s other => ?_,values₃.trans (values₂.trans values₁),m₃,top,_,rfl⟩
  · rintro s rfl
    simp [container, places]
  · simp [container, places, Function.update_of_ne, other]

/- The loop of the tick wakes the tasks that are due, and no others. -/
theorem unblockSound (n : Nat) : ∀ (k : Kernel τ ε) (r : ListName ε → List (Item τ)) (switch : Bool), Core k r →
    k.pxCurrentTCB ≠ none → (r k.pxDelayedTaskList).length < n →
      ∃ b k', unblock k.xTickCount n switch k = some (b,k') ∧ Sound k' ∧ Readied (Woken k) k k' ∧ Ahead k' := by
  induction n with
  | zero => exact fun k r switch core current few => absurd few (by omega)
  | succ n ih =>
    intro k r switch core current few
    have delaying := (delayedIs core).1
    rcases tasks : r k.pxDelayedTaskList with _ | ⟨i,rest⟩
    · have nobody : ∀ t, container (.xGenericListItem t) k ≠ some k.pxDelayedTaskList := fun t there => by
        have := (core.shows.container k.pxDelayedTaskList _).mpr there
        rw [tasks] at this
        cases this
      refine ⟨switch,{ k with xNextTaskUnblockTime := portMaxDelay },?_,⟨r,?_⟩,?_,fun t there => absurd there (nobody t)⟩
      · rw [unblock, if_pos ((emptyShows core.shows _).mpr tasks)]
      · exact ⟨core.shows,core.two,core.fits,core.sorted⟩
      · exact ⟨fun t woken => absurd woken.1 (nobody t),fun t _ => ⟨rfl,rfl⟩,rfl,_,_,_,rfl⟩
    · obtain ⟨t,rfl,head⟩ := headGeneric core delaying tasks
      have there : container (.xGenericListItem t) k = some k.pxDelayedTaskList :=
        (core.shows.container _ _).mp (by rw [tasks]; simp)
      have full : ¬listListIsEmpty k.pxDelayedTaskList k.lists = true := by
        rw [emptyShows core.shows, tasks]
        simp
      have least : ∀ s, container (.xGenericListItem s) k = some k.pxDelayedTaskList → wakeTime t k ≤ wakeTime s k :=
        fun s inside => headFirst core delaying tasks inside
      by_cases early : k.xTickCount < wakeTime t k
      · refine ⟨switch,{ k with xNextTaskUnblockTime := wakeTime t k },?_,⟨r,?_⟩,?_,fun s inside => ?_⟩
        · rw [unblock, if_neg full, head]
          simp [early]
        · exact ⟨core.shows,core.two,core.fits,core.sorted⟩
        · refine ⟨fun s woken => absurd woken.2 ?_,fun s _ => ⟨rfl,rfl⟩,rfl,_,_,_,rfl⟩
          exact UInt32.not_le.mpr (UInt32.lt_of_lt_of_le early (least s woken.1))
        · exact laterTimely (UInt32.lt_of_lt_of_le early (least s inside)) (least s inside)
      · obtain ⟨k₁,k₂,left,gone,⟨r₃,core₃⟩,one,_⟩ := readyOne core (t := t) (by rw [there]; simp)
        generalize same : prvAddTaskToReadyList t k₂ = k₃ at core₃ one
        obtain ⟨m,top,next,fields⟩ := one.rest
        have still : ∀ j, container j k₃ = some k.pxDelayedTaskList → container j k = some k.pxDelayedTaskList := by
          intro j inside
          cases j with
          | xGenericListItem s =>
            by_cases mine : s = t
            · exact mine ▸ there
            · rwa [(one.kept s mine).1] at inside
          | xEventListItem s =>
            by_cases mine : s = t
            · rw [mine, (one.moved t rfl).2] at inside
              cases inside
            · rwa [(one.kept s mine).2] at inside
        have apart : ListName.pxReadyTasksLists (k.uxPriority t) ≠ k.pxDelayedTaskList := by
          intro same
          rw [← same] at delaying
          simp [Delaying] at delaying
        have moved := (one.moved t rfl).1
        have short := fewer core core₃ tasks (by rw [moved]; simpa using apart) still
        have few' : (r₃ k₃.pxDelayedTaskList).length < n := by
          rw [show k₃.pxDelayedTaskList = k.pxDelayedTaskList by rw [fields]]
          rw [tasks, List.length_cons] at few
          omega
        obtain ⟨c,known⟩ := Option.ne_none_iff_exists'.mp current
        obtain ⟨b,k',ran,sound,more,ahead⟩ := ih k₃ r₃ (switch || k₃.uxPriority t ≥ k₃.uxPriority c) core₃
          (by rw [fields]; exact current) few'
        have wake : ∀ s, wakeTime s k₃ = wakeTime s k := fun s => congrFun one.values _
        refine ⟨b,k',?_,sound,readiedCongr (readiedTrans one more) fun s => ?_,ahead⟩
        · rw [unblock, if_neg full, head]
          have pointer : k₃.pxCurrentTCB = some c := by
            rw [fields]
            exact known
          have tick : k₃.xTickCount = k.xTickCount := by rw [fields]
          rw [tick] at ran
          simp [early, left, gone, same, currentPriority, pointer, ran]
        · unfold Woken
          rw [wake, show k₃.pxDelayedTaskList = k.pxDelayedTaskList by rw [fields],
            show k₃.xTickCount = k.xTickCount by rw [fields]]
          by_cases mine : s = t
          · subst mine
            exact ⟨fun _ => ⟨there,UInt32.not_lt.mp early⟩,fun _ => Or.inl rfl⟩
          · rw [(one.kept s mine).1]
            simp [mine]

/- One task that an event has come for -/
theorem readyEvent {k : Kernel τ ε} {r : ListName ε → List (Item τ)} {t : τ} (core : Core k r)
    (waits : container (.xEventListItem t) k ≠ none) (live : container (.xGenericListItem t) k ≠ none) :
    ∃ k₁ k₂, leaveList (.xEventListItem t) k = some k₁ ∧ leaveList (.xGenericListItem t) k₁ = some k₂ ∧
      Sound (prvAddTaskToReadyList t k₂) ∧ Readied (· = t) k (prvAddTaskToReadyList t k₂) ∧
        (prvAddTaskToReadyList t k₂).xNextTaskUnblockTime = k.xNextTaskUnblockTime := by
  obtain ⟨l,there⟩ := Option.ne_none_iff_exists'.mp waits
  obtain ⟨m₁,r₁,left,core₁,values₁,containers₁⟩ := coreLeave core there
  obtain ⟨l',there'⟩ := Option.ne_none_iff_exists'.mp live
  have still : container (.xGenericListItem t) { k with lists := m₁ } = some l' := by
    rw [← there']
    simp [container, containers₁]
  obtain ⟨m₂,r₂,gone,core₂,values₂,containers₂⟩ := coreLeave core₁ still
  have free : container (.xGenericListItem t) { k with lists := m₂ } = none := by simp [container, containers₂]
  obtain ⟨m₃,top,r₃,added,core₃,values₃,containers₃⟩ := coreReady core₂ free
  refine ⟨_,_,left,gone,⟨r₃,added ▸ core₃⟩,?_,by rw [added]⟩
  rw [added]
  have places : m₃.pvContainer = Function.update (Function.update (Function.update k.lists.pvContainer
      (.xEventListItem t) none) (.xGenericListItem t) none) (.xGenericListItem t) (some (.pxReadyTasksLists (k.uxPriority t))) := by
    rw [containers₃, containers₂, containers₁]
  refine ⟨?_,fun s other => ?_,values₃.trans (values₂.trans values₁),m₃,top,_,rfl⟩
  · rintro s rfl
    simp [container, places]
  · simp [container, places, Function.update_of_ne, other]

/- The first loop of xTaskResumeAll readies every task that is pending. -/
theorem readyPendingSound (n : Nat) : ∀ (k : Kernel τ ε) (r : ListName ε → List (Item τ)) (yields : Bool), Core k r →
    k.pxCurrentTCB ≠ none → (∀ t, Pended k t → container (.xGenericListItem t) k ≠ none) →
      (r .xPendingReadyList).length < n → ∃ b k', readyPending n yields k = some (b,k') ∧ Sound k' ∧
        Readied (Pended k) k k' ∧ k'.xNextTaskUnblockTime = k.xNextTaskUnblockTime := by
  induction n with
  | zero => exact fun k r yields core current live few => absurd few (by omega)
  | succ n ih =>
    intro k r yields core current live few
    rcases tasks : r .xPendingReadyList with _ | ⟨i,rest⟩
    · have nobody : ∀ t, ¬Pended k t := fun t there => by
        have := (core.shows.container .xPendingReadyList _).mpr there
        rw [tasks] at this
        cases this
      refine ⟨yields,k,by rw [readyPending, if_pos ((emptyShows core.shows _).mpr tasks)],⟨r,core⟩,?_,rfl⟩
      exact readiedCongr (readiedNone k) fun t => iff_of_false (fun none => none) (nobody t)
    · obtain ⟨t,rfl,head⟩ := headPended core tasks
      have there : Pended k t := (core.shows.container _ _).mp (by rw [tasks]; simp)
      have full : ¬listListIsEmpty .xPendingReadyList k.lists = true := by
        rw [emptyShows core.shows, tasks]
        simp
      obtain ⟨k₁,k₂,left,gone,⟨r₃,core₃⟩,one,next₃⟩ := readyEvent core (t := t) (by rw [there]; simp) (live t there)
      generalize same : prvAddTaskToReadyList t k₂ = k₃ at core₃ one next₃
      obtain ⟨m,top,next,fields⟩ := one.rest
      have still : ∀ j, container j k₃ = some .xPendingReadyList → container j k = some .xPendingReadyList := by
        intro j inside
        cases j with
        | xGenericListItem s =>
          by_cases mine : s = t
          · rw [mine, (one.moved t rfl).1] at inside
            cases inside
          · rwa [(one.kept s mine).1] at inside
        | xEventListItem s =>
          by_cases mine : s = t
          · exact mine ▸ there
          · rwa [(one.kept s mine).2] at inside
      have short := fewer core core₃ tasks (by rw [(one.moved t rfl).2]; simp) still
      obtain ⟨c,known⟩ := Option.ne_none_iff_exists'.mp current
      have live' : ∀ s, Pended k₃ s → container (.xGenericListItem s) k₃ ≠ none := by
        intro s pended
        by_cases mine : s = t
        · rw [mine, (one.moved t rfl).1]
          simp
        · rw [(one.kept s mine).1]
          exact live s (still _ pended)
      obtain ⟨b,k',ran,sound,more,next'⟩ := ih k₃ r₃ (yields || k₃.uxPriority t ≥ k₃.uxPriority c) core₃
        (by rw [fields]; exact current) live' (by rw [tasks, List.length_cons] at few; omega)
      refine ⟨b,k',?_,sound,readiedCongr (readiedTrans one more) fun s => ?_,next'.trans next₃⟩
      · rw [readyPending, if_neg full, head]
        have pointer : k₃.pxCurrentTCB = some c := by
          rw [fields]
          exact known
        simp [left, gone, same, currentPriority, pointer, ran]
      · unfold Pended
        by_cases mine : s = t
        · subst mine
          exact ⟨fun _ => there,fun _ => Or.inl rfl⟩
        · rw [(one.kept s mine).2]
          simp [mine]

end Waking
end YunbaIot.FreeRtosTasks
