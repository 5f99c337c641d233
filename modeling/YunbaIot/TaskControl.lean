import YunbaIot.TaskCalls

/-! Calls that name a task or an event list: waking, suspending, deleting and creating tasks. -/
namespace YunbaIot.FreeRtosTasks
open FreeRtosList

section Heads
variable {τ ε : Type}

/- The head of a list of event items is the task that waits. -/
theorem headPosted {k : Kernel τ ε} {r : ListName ε → List (Item τ)} (core : Core k r) {e : ε} {s : τ}
    (waits : container (.xEventListItem s) k = some (.pxEventList e)) :
    ∃ t, headTask (.pxEventList e) k = some t ∧ container (.xEventListItem t) k = some (.pxEventList e) := by
  have inside : Item.xEventListItem s ∈ r (.pxEventList e) := (core.shows.container _ _).mpr waits
  rcases tasks : r (.pxEventList e) with _ | ⟨i,rest⟩
  · rw [tasks] at inside
    cases inside
  · have there : container i k = some (.pxEventList e) := (core.shows.container _ i).mp (by rw [tasks]; simp)
    have fits := core.fits i _ there
    cases i with
    | xGenericListItem t => exact fits.elim
    | xEventListItem t => exact ⟨t,by rw [headTask, headShows core.shows tasks]; rfl,there⟩

theorem heldMade {idle t : τ} {k : Kernel τ ε} (inv : Inv idle k) (waits : container (.xEventListItem t) k ≠ none) : Made t k := by
  rcases inv.held t waits with blocked | suspended
  · exact blockedMade blocked
  · unfold Made
    rw [suspended]
    simp

/- A suspended task that waits for nothing -/
theorem suspendedIff [DecidableEq ε] {t : τ} {k : Kernel τ ε} : xTaskIsTaskSuspended t k = true ↔
    container (.xGenericListItem t) k = some .xSuspendedTaskList ∧ container (.xEventListItem t) k = none := by
  unfold xTaskIsTaskSuspended
  simp only [Bool.and_eq_true, Bool.not_eq_true', decide_eq_true_eq, decide_eq_false_iff_not]
  constructor
  · rintro ⟨⟨generic,_⟩,event⟩
    exact ⟨generic,event⟩
  · rintro ⟨generic,event⟩
    exact ⟨⟨generic,by rw [event]; simp⟩,event⟩

end Heads

section Waking
variable {τ ε : Type} [DecidableEq τ] [DecidableEq ε] {idle t : τ} {k : Kernel τ ε}

/- A task that cannot be made ready yet goes to the pending ones. -/
theorem pendSound {m : Lists (ListName ε) (Item τ)} {r : ListName ε → List (Item τ)} (inv : Inv idle k)
    (core : Core { k with lists := m } r) (values : m.xItemValue = k.lists.xItemValue)
    (containers : m.pvContainer = Function.update k.lists.pvContainer (.xEventListItem t) none)
    (waits : Blocked t k ∨ container (.xGenericListItem t) k = some .xSuspendedTaskList) :
    Touched idle t k (enterEnd .xPendingReadyList (.xEventListItem t) { k with lists := m }) ∧
      Pended (enterEnd .xPendingReadyList (.xEventListItem t) { k with lists := m }) t := by
  have free : container (.xEventListItem t) { k with lists := m } = none := by simp [container, containers]
  obtain ⟨m',r',entered,core',values',containers'⟩ := coreEnterEnd (l := .xPendingReadyList) core free trivial (by simp [Delaying])
  rw [entered]
  have places : m'.pvContainer = Function.update k.lists.pvContainer (.xEventListItem t) (some .xPendingReadyList) := by
    rw [containers', containers]
    simp
  have same : ∀ s, container (.xGenericListItem s) { k with lists := m' } = container (.xGenericListItem s) k := fun s => by
    simp [container, places]
  have others : Others t k { k with lists := m' } := by
    refine othersOf t (fun s mine => ?_) (fun s _ => congrFun (values'.trans values) _) (UInt32.le_refl _)
    simp [places, mine]
  refine ⟨othersTouched (invOthers inv ⟨r',core'⟩ others (fun delayed => ?_) (fun _ => ?_) (fun mine => ?_) inv.current
    (rollCongr inv.made (fun s => by unfold Made; rw [same]) rfl)) others,by simp [Pended, container, places]⟩
  · rw [same] at delayed
    exact timelyKept (inv.ahead t delayed) (congrFun (values'.trans values) _) rfl (UInt32.le_refl _)
  · unfold Blocked
    rw [same]
    exact waits
  · rw [same, mine]
    exact inv.idle

theorem removeEventSound {e : ε} {s : τ} (inv : Inv idle k) (waits : container (.xEventListItem s) k = some (.pxEventList e)) :
    ∃ t b k', headTask (.pxEventList e) k = some t ∧ xTaskRemoveFromEventList e k = some (b,k') ∧ Touched idle t k k' ∧
      (k.uxSchedulerSuspended = 0 → container (.xGenericListItem t) k' = some (.pxReadyTasksLists (k.uxPriority t))) ∧
        (k.uxSchedulerSuspended ≠ 0 → Pended k' t) := by
  obtain ⟨r,core⟩ := inv.sound
  obtain ⟨t,head,there⟩ := headPosted core waits
  have known : container (.xEventListItem t) k ≠ none := by rw [there]; simp
  obtain ⟨c,current⟩ := Option.ne_none_iff_exists'.mp inv.current
  by_cases awake : k.uxSchedulerSuspended = 0
  · obtain ⟨k₁,k₂,left,gone,sound,readied,next⟩ := readyEvent core known (heldMade inv known)
    have inv' := invReadied inv sound readied (fun s same => same ▸ heldMade inv known) next
    have asleep : k₁.uxSchedulerSuspended = 0 := by
      obtain ⟨m,_,left',_⟩ := coreLeave core there
      rw [left] at left'
      cases left'
      exact awake
    obtain ⟨m,top,next',fields⟩ := readied.rest
    have moved : readyOrPend t k₁ = some (prvAddTaskToReadyList t k₂) := by
      unfold readyOrPend
      rw [if_pos asleep, gone]
      rfl
    have seen : currentPriority (prvAddTaskToReadyList t k₂) = some (k.uxPriority c) := by
      rw [fields]
      exact congrArg (Option.map _) current
    exact ⟨t,_,_,head,(afterwards head).trans ((afterwards left).trans ((afterwards moved).trans (afterwards seen))),
      readiedTouched inv' readied,fun _ => (readied.moved t rfl).1,fun late => absurd awake late⟩
  · obtain ⟨m,r',left,core',values,containers⟩ := coreLeave core there
    obtain ⟨touched,pended⟩ := pendSound inv core' values containers (inv.held t known)
    have moved : readyOrPend t { k with lists := m } =
        some (enterEnd .xPendingReadyList (.xEventListItem t) { k with lists := m }) := if_neg awake
    have seen : currentPriority (enterEnd .xPendingReadyList (.xEventListItem t) { k with lists := m }) =
        some (k.uxPriority c) := congrArg (Option.map _) current
    exact ⟨t,_,_,head,(afterwards head).trans ((afterwards left).trans ((afterwards moved).trans (afterwards seen))),
      touched,fun early => absurd early awake,fun _ => pended⟩

theorem suspendedReady (inv : Inv idle k) (suspended : xTaskIsTaskSuspended t k = true) :
    ∃ k₁, leaveList (.xGenericListItem t) k = some k₁ ∧ Inv idle (prvAddTaskToReadyList t k₁) ∧
      Readied (· = t) k (prvAddTaskToReadyList t k₁) := by
  obtain ⟨generic,event⟩ := suspendedIff.mp suspended
  obtain ⟨r,core⟩ := inv.sound
  have made : Made t k := by
    unfold Made
    rw [generic]
    simp
  obtain ⟨k₁,k₂,left,gone,sound,readied,next⟩ := readyOne core made
  obtain ⟨m,_,left',_,_,containers⟩ := coreLeave core generic
  cases left.symm.trans left'
  have alone : container (.xEventListItem t) { k with lists := m } = none := by
    rw [← event]
    simp [container, containers]
  have same : k₂ = { k with lists := m } := by
    rw [leaveEvent, if_pos alone] at gone
    exact (Option.some.inj gone).symm
  rw [same] at sound readied next
  exact ⟨_,left,invReadied inv sound readied (fun s mine => mine ▸ made) next,readied⟩

theorem resumeSound (inv : Inv idle k) (t : τ) : ∃ k', vTaskResume t k = some k' ∧ Touched idle t k k' ∧
    (k.pxCurrentTCB ≠ some t → xTaskIsTaskSuspended t k = true →
      container (.xGenericListItem t) k' = some (.pxReadyTasksLists (k.uxPriority t))) := by
  unfold vTaskResume
  by_cases mine : k.pxCurrentTCB = some t
  · exact ⟨k,if_pos mine,touchedSelf inv t,fun other => absurd mine other⟩
  · rw [if_neg mine]
    by_cases suspended : xTaskIsTaskSuspended t k = true
    · rw [if_pos suspended]
      obtain ⟨k₁,left,inv',readied⟩ := suspendedReady inv suspended
      obtain ⟨c,current⟩ := Option.ne_none_iff_exists'.mp inv'.current
      have seen : currentPriority (prvAddTaskToReadyList t k₁) = some ((prvAddTaskToReadyList t k₁).uxPriority c) :=
        congrArg (Option.map _) current
      refine ⟨_,(afterwards left).trans (afterwards seen),touchedAlike (readiedTouched inv' readied) (yieldAlike _ _),
        fun _ _ => ?_⟩
      unfold container
      rw [(yieldAlike _ _).lists]
      exact (readied.moved t rfl).1
    · exact ⟨k,if_neg suspended,touchedSelf inv t,fun _ there => absurd there suspended⟩

theorem resumeFromISRSound (inv : Inv idle k) (t : τ) : ∃ b k', xTaskResumeFromISR t k = some (b,k') ∧ Touched idle t k k' ∧
    (xTaskIsTaskSuspended t k = true →
      container (.xGenericListItem t) k' = some (.pxReadyTasksLists (k.uxPriority t)) ∨ Pended k' t) := by
  unfold xTaskResumeFromISR
  by_cases suspended : xTaskIsTaskSuspended t k = true
  · rw [if_pos suspended]
    obtain ⟨c,current⟩ := Option.ne_none_iff_exists'.mp inv.current
    have seen : currentPriority k = some (k.uxPriority c) := congrArg (Option.map _) current
    by_cases awake : k.uxSchedulerSuspended = 0
    · obtain ⟨k₁,left,inv',readied⟩ := suspendedReady inv suspended
      have moved : readyOrPend t k = some (prvAddTaskToReadyList t k₁) := by
        unfold readyOrPend
        rw [if_pos awake, left]
        rfl
      exact ⟨_,_,(afterwards seen).trans (afterwards moved),readiedTouched inv' readied,
        fun _ => Or.inl (readied.moved t rfl).1⟩
    · obtain ⟨generic,event⟩ := suspendedIff.mp suspended
      obtain ⟨r,core⟩ := inv.sound
      have moved : readyOrPend t k = some (enterEnd .xPendingReadyList (.xEventListItem t) k) := if_neg awake
      obtain ⟨touched,pended⟩ := pendSound inv core rfl (Function.update_eq_self_iff.mpr event.symm).symm (Or.inr generic)
      exact ⟨_,_,(afterwards seen).trans (afterwards moved),touched,fun _ => Or.inr pended⟩
  · exact ⟨false,k,if_neg suspended,touchedSelf inv t,fun there => absurd there suspended⟩

/- A task leaves whatever it is on. -/
theorem detached {r : ListName ε → List (Item τ)} (core : Core k r) (made : Made t k) : ∃ k₁ m r',
    leaveList (.xGenericListItem t) k = some k₁ ∧ leaveEvent t k₁ = some { k with lists := m } ∧ Core { k with lists := m } r' ∧
      Others t k { k with lists := m } ∧ container (.xGenericListItem t) { k with lists := m } = none ∧
        container (.xEventListItem t) { k with lists := m } = none := by
  obtain ⟨l,there⟩ := Option.ne_none_iff_exists'.mp made
  obtain ⟨m₁,r₁,left,core₁,values₁,containers₁⟩ := coreLeave core there
  obtain ⟨m₂,r₂,gone,core₂,values₂,containers₂⟩ := coreLeaveEvent core₁ t
  refine ⟨_,m₂,r₂,left,gone,core₂,?_,by simp [container, containers₂, containers₁],by simp [container, containers₂]⟩
  refine othersOf t (fun s mine => ?_) (fun s _ => congrFun (values₂.trans values₁) _) (UInt32.le_refl _)
  simp [containers₂, containers₁, mine]

theorem suspendSound {h : Option τ} (inv : Inv idle k) (handle : prvGetTCBFromHandle h k = some t) (made : Made t k)
    (busy : t ≠ idle) : ∃ k', suspendSection h k = some (t,k') ∧ Touched idle t k k' ∧
      container (.xGenericListItem t) k' = some .xSuspendedTaskList := by
  obtain ⟨r,core⟩ := inv.sound
  obtain ⟨k₁,m,r',left,gone,core',others,free,_⟩ := detached core made
  exact ⟨_,(afterwards handle).trans ((afterwards left).trans (afterwards gone)),
    parkSound (l := .xSuspendedTaskList) inv core' others made busy free (Or.inl rfl)⟩

theorem deleteSound {h : Option τ} (inv : Inv idle k) (handle : prvGetTCBFromHandle h k = some t) (made : Made t k)
    (busy : t ≠ idle) : ∃ k', deleteSection h k = some (t,k') ∧ Touched idle t k k' ∧
      container (.xGenericListItem t) k' = some .xTasksWaitingTermination := by
  obtain ⟨r,core⟩ := inv.sound
  obtain ⟨k₁,m,r',left,gone,core',others,free,alone⟩ := detached core made
  obtain ⟨touched,there⟩ := parkSound (l := .xTasksWaitingTermination) inv core' others made busy free (Or.inr ⟨rfl,alone⟩)
  exact ⟨_,(afterwards handle).trans ((afterwards left).trans (afterwards gone)),
    touchedAlike touched ⟨rfl,rfl,rfl,rfl,rfl,rfl,rfl,rfl,rfl,rfl⟩,there⟩

end Waking
end YunbaIot.FreeRtosTasks
