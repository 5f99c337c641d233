import YunbaIot.ListTurns
import YunbaIot.TaskPriority

/-! The choice of the running task. -/
namespace YunbaIot.FreeRtosTasks
open FreeRtosList

section Choosing
variable {τ ε : Type} {k : Kernel τ ε} {r : ListName ε → List (Item τ)}

/- The loop ends at the highest list that holds a task. -/
theorem topSound (core : Core k r) (n : Nat) (small : n < 15) (someone : ∃ q : Priority, q.val ≤ n ∧ r (.pxReadyTasksLists q) ≠ []) :
    ∃ top : Priority, topReady k n small = some top ∧ r (.pxReadyTasksLists top) ≠ [] ∧
      ∀ q : Priority, q.val ≤ n → r (.pxReadyTasksLists q) ≠ [] → q ≤ top := by
  induction n with
  | zero =>
    obtain ⟨q,low,full⟩ := someone
    have same : q = ⟨0,small⟩ := Fin.ext (by simpa using low)
    subst same
    refine ⟨_,if_neg ?_,full,fun q low _ => ?_⟩
    · rw [emptyShows core.shows]
      exact full
    · exact low
  | succ n ih =>
    by_cases empty : r (.pxReadyTasksLists ⟨n + 1,small⟩) = []
    · have below : ∀ q : Priority, q.val ≤ n + 1 → r (.pxReadyTasksLists q) ≠ [] → q.val ≤ n := by
        intro q low full
        by_contra high
        have same : q = ⟨n + 1,small⟩ := Fin.ext (by simp only; omega)
        exact full (same ▸ empty)
      obtain ⟨q,low,full⟩ := someone
      obtain ⟨top,found,filled,highest⟩ := ih (by omega) ⟨q,below q low full,full⟩
      refine ⟨top,?_,filled,fun q low full => highest q (below q low full) full⟩
      rw [topReady, if_pos ((emptyShows core.shows _).mpr empty)]
      exact found
    · refine ⟨_,if_neg ?_,empty,fun q low _ => low⟩
      rw [emptyShows core.shows]
      exact empty

theorem readyItem (core : Core k r) {p : Priority} {i : Item τ} (inside : i ∈ r (.pxReadyTasksLists p)) :
    ∃ t, i = .xGenericListItem t ∧ container (.xGenericListItem t) k = some (.pxReadyTasksLists p) := by
  have there : container i k = some (.pxReadyTasksLists p) := (core.shows.container _ _).mp inside
  have fits := core.fits i _ there
  cases i with
  | xGenericListItem t => exact ⟨t,rfl,there⟩
  | xEventListItem t => exact fits.elim

end Choosing

section Switching
variable {τ ε : Type} [DecidableEq τ] [DecidableEq ε] {idle : τ} {k : Kernel τ ε} {r : ListName ε → List (Item τ)}

/- The next task in turn, of the highest priority that is ready -/
structure Chosen (t : τ) (k k' : Kernel τ ε) (r : ListName ε → List (Item τ)) : Prop where
  current : k'.pxCurrentTCB = some t
  ready : container (.xGenericListItem t) k = some (.pxReadyTasksLists (k.uxPriority t))
  highest : ∀ s p, container (.xGenericListItem s) k = some (.pxReadyTasksLists p) → p ≤ k.uxPriority t
  turn : ∀ q, Turns k.lists r (.pxReadyTasksLists (k.uxPriority t)) q → ∃ rest, q = .xGenericListItem t :: rest ∧
    Turns k'.lists r (.pxReadyTasksLists (k.uxPriority t)) (rest ++ [.xGenericListItem t])
  index : ∀ l, l ≠ .pxReadyTasksLists (k.uxPriority t) → k'.lists.pxIndex l = k.lists.pxIndex l
  shows : Core k' r
  spared : ∀ s, Spared s k k'

theorem nextIndex {l l' : ListName ε} {m : Lists (ListName ε) (Item τ)} (other : l' ≠ l) :
    (listGetOwnerOfNextEntry l m).2.pxIndex l' = m.pxIndex l' := by
  unfold listGetOwnerOfNextEntry setIndex
  dsimp only
  split <;> simp [Function.update_of_ne other]

theorem nextSame (l : ListName ε) (m : Lists (ListName ε) (Item τ)) : (listGetOwnerOfNextEntry l m).2.pvContainer = m.pvContainer ∧
    (listGetOwnerOfNextEntry l m).2.xItemValue = m.xItemValue := by
  unfold listGetOwnerOfNextEntry setIndex
  dsimp only
  split <;> exact ⟨rfl,rfl⟩

theorem switchSound (inv : Inv idle k) (core : Core k r) (awake : k.uxSchedulerSuspended = 0) :
    ∃ t k', vTaskSwitchContext k = some k' ∧ Inv idle k' ∧ Chosen t k k' r := by
  obtain ⟨p,idles⟩ := inv.idle
  have fits := core.fits _ _ idles
  have filled : r (.pxReadyTasksLists p) ≠ [] := List.ne_nil_of_mem ((core.shows.container _ _).mpr idles)
  obtain ⟨top,found,full,highest⟩ := topSound core k.uxTopReadyPriority.val k.uxTopReadyPriority.isLt ⟨p,fits.2,filled⟩
  obtain ⟨q,turns,perm⟩ := turnsAre core.shows (.pxReadyTasksLists top)
  rcases q with _ | ⟨i,rest⟩
  · exact absurd (List.nil_perm.mp perm) full
  · have inside : i ∈ r (.pxReadyTasksLists top) := perm.mem_iff.mp (List.mem_cons_self ..)
    obtain ⟨t,rfl,there⟩ := readyItem core inside
    obtain ⟨next,shows,turns'⟩ := nextEntryShows core.shows turns
    obtain ⟨containers,values⟩ := nextSame (.pxReadyTasksLists top) k.lists
    have mine : k.uxPriority t = top := (core.fits _ _ there).1
    let k' : Kernel τ ε := { k with
      uxTopReadyPriority := top, lists := (listGetOwnerOfNextEntry (.pxReadyTasksLists top) k.lists).2
      pxCurrentTCB := some t }
    have places : ∀ i, container i k' = container i k := fun i => congrFun containers i
    have under : ∀ s q, container (.xGenericListItem s) k = some (.pxReadyTasksLists q) → q ≤ top := fun s q here =>
      highest q (core.fits _ _ here).2 (List.ne_nil_of_mem ((core.shows.container _ _).mpr here))
    have core' : Core k' r := by
      refine ⟨shows,core.two,fun i l here => ?_,fun l delaying => ?_⟩
      · rw [places] at here
        have old := core.fits i l here
        cases i with
        | xEventListItem s => cases l <;> exact old
        | xGenericListItem s =>
          have wake : wakeTime s k' = wakeTime s k := congrFun values _
          cases l with
          | pxReadyTasksLists q => exact ⟨old.1,under s q here⟩
          | xDelayedTaskList1 | xDelayedTaskList2 =>
            simp only [Fits, Awaits, wake]
            exact old
          | _ => exact old
      · have := core.sorted l delaying
        simpa only [Sorted, listGetListItemValue, k', values] using this
    have spared : ∀ s, Spared s k k' := fun s => ⟨places _,places _,congrFun values _,rfl⟩
    refine ⟨t,k',?_,?_,rfl,by rw [there, mine],fun s q here => by rw [mine]; exact under s q here,fun q now => ?_,fun l other => ?_,
      core',spared⟩
    · rw [vTaskSwitchContext, if_neg (not_not.mpr awake)]
      have owner : pvOwner (listGetOwnerOfNextEntry (.pxReadyTasksLists top) k.lists).1 = some t := by rw [next]; rfl
      exact (afterwards found).trans (afterwards owner)
    · refine ⟨⟨r,core'⟩,fun s here => ?_,fun s waits => ?_,?_,by simp [k'],rollCongr inv.made (fun s => ?_) rfl,inv.running⟩
      · rw [places] at here
        exact timelyKept (inv.ahead s here) (spared s).wake rfl (UInt32.le_refl _)
      · rw [places] at waits
        unfold Blocked
        rw [places]
        exact inv.held s waits
      · rw [places]
        exact inv.idle
      · unfold Made
        rw [places]
    · rw [mine] at now ⊢
      exact ⟨rest,turnsUnique core.shows now turns,turns'⟩
    · exact nextIndex (by rwa [← mine])

/- A switch that comes while the scheduler is suspended is kept for later. -/
theorem switchLater (inv : Inv idle k) (asleep : k.uxSchedulerSuspended ≠ 0) :
    ∃ k', vTaskSwitchContext k = some k' ∧ Inv idle k' ∧ k'.xYieldPending = true ∧ ∀ s, Spared s k k' :=
  ⟨{ k with xYieldPending := true },if_pos asleep,invAlike inv ⟨rfl,rfl,rfl,rfl,rfl,rfl,rfl,rfl,rfl,rfl⟩,rfl,
    fun _ => ⟨rfl,rfl,rfl,rfl⟩⟩

end Switching
end YunbaIot.FreeRtosTasks
