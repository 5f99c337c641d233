import YunbaIot.TaskResume

/-! What the calls of tasks and interrupts do: each changes the places of one task, or makes tasks ready. -/
namespace YunbaIot.FreeRtosTasks
open FreeRtosList

section Changes
variable {τ ε : Type} {idle t : τ} {k k' k'' : Kernel τ ε}

/- The fields of the scheduler itself -/
structure Calm (k k' : Kernel τ ε) : Prop where
  running : k'.xSchedulerRunning = k.xSchedulerRunning
  suspended : k'.uxSchedulerSuspended = k.uxSchedulerSuspended
  pended : k'.uxPendedTicks = k.uxPendedTicks
  tick : k'.xTickCount = k.xTickCount
  overflows : k'.xNumOfOverflows = k.xNumOfOverflows

/- Only t changes places. -/
structure Others (t : τ) (k k' : Kernel τ ε) : Prop where
  generic : ∀ s, s ≠ t → container (.xGenericListItem s) k' = container (.xGenericListItem s) k
  event : ∀ s, s ≠ t → container (.xEventListItem s) k' = container (.xEventListItem s) k
  wake : ∀ s, s ≠ t → wakeTime s k' = wakeTime s k
  delayed : k'.pxDelayedTaskList = k.pxDelayedTaskList
  next : k'.xNextTaskUnblockTime ≤ k.xNextTaskUnblockTime
  calm : Calm k k'

theorem calmTrans (first : Calm k k') (second : Calm k' k'') : Calm k k'' :=
  ⟨second.running.trans first.running,second.suspended.trans first.suspended,second.pended.trans first.pended,
    second.tick.trans first.tick,second.overflows.trans first.overflows⟩

theorem othersTrans (first : Others t k k') (second : Others t k' k'') : Others t k k'' :=
  ⟨fun s other => (second.generic s other).trans (first.generic s other),
    fun s other => (second.event s other).trans (first.event s other),
    fun s other => (second.wake s other).trans (first.wake s other),
    second.delayed.trans first.delayed,
    UInt32.le_trans second.next first.next,calmTrans first.calm second.calm⟩

theorem othersSelf (t : τ) (k : Kernel τ ε) : Others t k k :=
  ⟨fun _ _ => rfl,fun _ _ => rfl,fun _ _ => rfl,rfl,UInt32.le_refl _,rfl,rfl,rfl,rfl,rfl⟩

theorem invOthers (inv : Inv idle k) (sound : Sound k') (others : Others t k k')
    (ahead : container (.xGenericListItem t) k' = some k'.pxDelayedTaskList → Timely k' t)
    (held : container (.xEventListItem t) k' ≠ none →
      Blocked t k' ∨ container (.xGenericListItem t) k' = some .xSuspendedTaskList)
    (stays : t = idle → ∃ p, container (.xGenericListItem t) k' = some (.pxReadyTasksLists p))
    (current : k'.pxCurrentTCB ≠ none) (made : Roll (Made · k') k'.uxCurrentNumberOfTasks) : Inv idle k' := by
  refine ⟨sound,fun s there => ?_,fun s waits => ?_,?_,current,made,others.calm.running.trans inv.running⟩
  · by_cases mine : s = t
    · subst mine
      exact ahead there
    · rw [others.generic s mine, others.delayed] at there
      exact timelyKept (inv.ahead s there) (others.wake s mine) others.calm.tick others.next
  · by_cases mine : s = t
    · subst mine
      exact held waits
    · rw [others.event s mine] at waits
      unfold Blocked
      rw [others.generic s mine]
      exact inv.held s waits
  · by_cases mine : t = idle
    · exact mine ▸ stays mine
    · obtain ⟨p,there⟩ := inv.idle
      exact ⟨p,(others.generic idle (Ne.symm mine)).trans there⟩

/- A call leaves a task alone. -/
structure Spared (s : τ) (k k' : Kernel τ ε) : Prop where
  generic : container (.xGenericListItem s) k' = container (.xGenericListItem s) k
  event : container (.xEventListItem s) k' = container (.xEventListItem s) k
  wake : wakeTime s k' = wakeTime s k
  tick : k'.xTickCount = k.xTickCount

/- A call that concerns one task at most -/
structure Touched (idle t : τ) (k k' : Kernel τ ε) : Prop where
  inv : Inv idle k'
  spared : ∀ s, s ≠ t → Spared s k k'

theorem othersTouched (inv : Inv idle k') (others : Others t k k') : Touched idle t k k' :=
  ⟨inv,fun s mine => ⟨others.generic s mine,others.event s mine,others.wake s mine,others.calm.tick⟩⟩

theorem readiedTouched (inv : Inv idle k') (readied : Readied (· = t) k k') : Touched idle t k k' := by
  obtain ⟨m,top,next,fields⟩ := readied.rest
  refine ⟨inv,fun s mine => ⟨(readied.kept s mine).1,(readied.kept s mine).2,congrFun readied.values _,?_⟩⟩
  rw [fields]

theorem sparedAlike {s : τ} (spared : Spared s k k') (alike : Alike k' k'') : Spared s k k'' := by
  have places : ∀ i, container i k'' = container i k' := fun i => by unfold container; rw [alike.lists]
  obtain ⟨generic,event,wake,tick⟩ := spared
  refine ⟨(places _).trans generic,(places _).trans event,?_,alike.tick.trans tick⟩
  rw [← wake]
  unfold wakeTime
  rw [alike.lists]

theorem touchedAlike (touched : Touched idle t k k') (alike : Alike k' k'') : Touched idle t k k'' :=
  ⟨invAlike touched.inv alike,fun s mine => sparedAlike (touched.spared s mine) alike⟩

theorem touchedSelf (inv : Inv idle k) (t : τ) : Touched idle t k k := othersTouched inv (othersSelf t k)

theorem yieldAlike (b : Bool) (k : Kernel τ ε) : Alike k (yieldIf b k) := by
  unfold yieldIf
  split <;> exact ⟨rfl,rfl,rfl,rfl,rfl,rfl,rfl,rfl,rfl,rfl⟩

/- The same tasks are there as before. -/
theorem madeOthers (inv : Inv idle k) (others : Others t k k') (before : Made t k) (after : Made t k')
    (number : k'.uxCurrentNumberOfTasks = k.uxCurrentNumberOfTasks) : Roll (Made · k') k'.uxCurrentNumberOfTasks := by
  refine rollCongr inv.made (fun s => ?_) number
  by_cases mine : s = t
  · subst mine
    exact iff_of_true before after
  · unfold Made
    rw [others.generic s mine]

/- A task that is ready waits for no event. -/
theorem readyAlone (inv : Inv idle k) {p : Priority} (there : container (.xGenericListItem t) k = some (.pxReadyTasksLists p)) :
    container (.xEventListItem t) k = none := by
  by_contra waits
  rcases inv.held t waits with blocked | suspended
  · exact readyUnblocked there blocked
  · rw [there] at suspended
    cases suspended

/- One task has left its lists or entered others. -/
theorem othersOf {m : Lists (ListName ε) (Item τ)} {top : Priority} {next : UInt32} (t : τ)
    (containers : ∀ s, s ≠ t → m.pvContainer (.xGenericListItem s) = k.lists.pvContainer (.xGenericListItem s) ∧
      m.pvContainer (.xEventListItem s) = k.lists.pvContainer (.xEventListItem s))
    (values : ∀ s, s ≠ t → m.xItemValue (.item (.xGenericListItem s)) = k.lists.xItemValue (.item (.xGenericListItem s)))
    (low : next ≤ k.xNextTaskUnblockTime) :
    Others t k { k with lists := m, uxTopReadyPriority := top, xNextTaskUnblockTime := next } :=
  ⟨fun s other => (containers s other).1,fun s other => (containers s other).2,values,rfl,low,
    rfl,rfl,rfl,rfl,rfl⟩

end Changes

section Blocking
variable {τ ε : Type} [DecidableEq τ] [DecidableEq ε] {idle t : τ} {k : Kernel τ ε} {r : ListName ε → List (Item τ)}

/- Where a task that is put off goes, and when it wakes -/
structure PutOff (t : τ) (wake : UInt32) (k k' : Kernel τ ε) : Prop where
  blocked : Blocked t k'
  wakes : wakeTime t k' = wake
  event : container (.xEventListItem t) k' = container (.xEventListItem t) k
  ahead : container (.xGenericListItem t) k' = some k'.pxDelayedTaskList → Timely k' t
  others : Others t k k'
  current : k'.pxCurrentTCB = k.pxCurrentTCB
  number : k'.uxCurrentNumberOfTasks = k.uxCurrentNumberOfTasks

theorem addDelayed {wake : UInt32} (core : Core k r) (current : k.pxCurrentTCB = some t)
    (free : container (.xGenericListItem t) k = none) (apart : wake = k.xTickCount → k.xTickCount + 1 ≠ 0) :
    ∃ k', prvAddCurrentTaskToDelayedList wake k = some k' ∧ Sound k' ∧ PutOff t wake k k' := by
  let k₁ := setItemValue (.xGenericListItem t) wake k
  have core₁ : Core k₁ r := coreSetValue core fun l there => by
    rw [free] at there
    cases there
  have value : wakeTime t k₁ = wake := Function.update_self ..
  have other : ∀ s, s ≠ t → wakeTime s k₁ = wakeTime s k := fun s mine => Function.update_of_ne (by simpa using mine) ..
  obtain ⟨first,second,distinct⟩ := delayedIs core
  have fitting : ∀ {l}, Delaying l → Awaits k₁ l t → Fits k₁ l (.xGenericListItem t) := by
    rintro l (rfl | rfl) awaits <;> exact awaits
  unfold prvAddCurrentTaskToDelayedList
  simp only [current, Option.bind_eq_bind, Option.bind_some]
  by_cases beyond : wake < k.xTickCount
  · have awaits : Awaits k₁ k.pxOverflowDelayedTaskList t := fun _ => by rw [value]; exact beyond
    obtain ⟨m,r',entered,core',values,containers⟩ := coreEnterSorted core₁ free (fitting second awaits)
    refine ⟨{ k₁ with lists := m },?_,⟨r',core'⟩,?_⟩
    · change ite (wake < k.xTickCount) _ _ = _
      rw [if_pos beyond]
      exact entered
    · have there : container (.xGenericListItem t) { k₁ with lists := m } = some k.pxOverflowDelayedTaskList := by
        simp [container, containers]
      refine ⟨⟨_,there,second⟩,?_,?_,fun same => ?_,othersOf t (fun s mine => ?_) (fun s mine => ?_) (UInt32.le_refl _),rfl,rfl⟩
      · exact (congrFun values _).trans value
      · simp [container, containers, k₁, setItemValue, listSetListItemValue, setValue]
      · rw [there] at same
        exact absurd (Option.some.inj same).symm distinct
      · simp [containers, k₁, setItemValue, listSetListItemValue, setValue, mine]
      · exact (congrFun values _).trans (other s mine)
  · have not_past : k.xTickCount ≤ wake := UInt32.not_lt.mp beyond
    have room : k.xTickCount + 1 ≠ 0 :=
      if now : wake = k.xTickCount then apart now else notLast (UInt32.lt_of_le_of_ne not_past (Ne.symm now))
    have awaits : Awaits k₁ k.pxDelayedTaskList t := fun same => absurd same distinct
    obtain ⟨m,r',entered,core',values,containers⟩ := coreEnterSorted core₁ free (fitting first awaits)
    let next := if wake < k.xNextTaskUnblockTime then wake else k.xNextTaskUnblockTime
    have low : next ≤ k.xNextTaskUnblockTime ∧ next ≤ wake := by
      simp only [next]
      split_ifs with less
      · exact ⟨UInt32.le_of_lt less,UInt32.le_refl _⟩
      · exact ⟨UInt32.le_refl _,UInt32.not_lt.mp less⟩
    refine ⟨{ k₁ with lists := m, xNextTaskUnblockTime := next },?_,⟨r',core'.shows,core'.two,core'.fits,core'.sorted⟩,?_⟩
    · change ite (wake < k.xTickCount) _ _ = _
      rw [if_neg beyond]
      have same : enterSorted k₁.pxDelayedTaskList (.xGenericListItem t) k₁ = some { k₁ with lists := m } := entered
      rw [show setItemValue (.xGenericListItem t) wake k = k₁ from rfl, same]
      rw [Option.bind_some]
      by_cases less : wake < k.xNextTaskUnblockTime
      · rw [show next = wake from if_pos less]
        exact congrArg some (if_pos less)
      · rw [show next = k.xNextTaskUnblockTime from if_neg less]
        exact congrArg some (if_neg less)
    · have there : container (.xGenericListItem t) { k₁ with lists := m, xNextTaskUnblockTime := next } =
          some k.pxDelayedTaskList := by
        simp [container, containers]
      have wakes : wakeTime t { k₁ with lists := m, xNextTaskUnblockTime := next } = wake :=
        (congrFun values _).trans value
      refine ⟨⟨_,there,first⟩,wakes,?_,fun _ => ?_,othersOf t (fun s mine => ?_) (fun s mine => ?_) low.1,rfl,rfl⟩
      · simp [container, containers, k₁, setItemValue, listSetListItemValue, setValue]
      · unfold Timely
        rw [wakes]
        exact ⟨⟨not_past,room⟩,low.2⟩
      · simp [containers, k₁, setItemValue, listSetListItemValue, setValue, mine]
      · exact (congrFun values _).trans (other s mine)

/- The running task, which may block: it is ready, and it is not the idle task. -/
structure Runs (idle t : τ) (k : Kernel τ ε) : Prop where
  current : k.pxCurrentTCB = some t
  ready : container (.xGenericListItem t) k = some (.pxReadyTasksLists (k.uxPriority t))
  busy : t ≠ idle

theorem blockSound {wake : UInt32} (inv : Inv idle k) (runs : Runs idle t k)
    (apart : wake = k.xTickCount → k.xTickCount + 1 ≠ 0) :
    ∃ k', blockUntil wake k = some k' ∧ Inv idle k' ∧ PutOff t wake k k' := by
  obtain ⟨r,core⟩ := inv.sound
  obtain ⟨m,r₁,gone,core₁,values,containers⟩ := coreLeave core runs.ready
  have free : container (.xGenericListItem t) { k with lists := m } = none := by simp [container, containers]
  obtain ⟨k',added,sound,off⟩ := addDelayed core₁ runs.current free apart
  have others₁ : Others t k { k with lists := m } :=
    othersOf t (fun s mine => by simp [containers, mine]) (fun s _ => congrFun values _) (UInt32.le_refl _)
  have others := othersTrans others₁ off.others
  refine ⟨k',?_,?_,off.blocked,off.wakes,?_,off.ahead,others,off.current,off.number⟩
  · exact (afterwards runs.current).trans ((afterwards gone).trans added)
  · exact invOthers inv sound others off.ahead (fun _ => Or.inl off.blocked) (fun same => absurd same runs.busy)
      (by rw [off.current]; exact inv.current)
      (madeOthers inv others (readyMade runs.ready) (blockedMade off.blocked) off.number)
  · rw [off.event]
    simp [container, containers]

/- A task is put where no time wakes it. -/
theorem parkSound {m : Lists (ListName ε) (Item τ)} {l : ListName ε} (inv : Inv idle k) (core : Core { k with lists := m } r)
    (others : Others t k { k with lists := m }) (before : Made t k) (busy : t ≠ idle)
    (free : container (.xGenericListItem t) { k with lists := m } = none) (parks : l = .xSuspendedTaskList ∨
      l = .xTasksWaitingTermination ∧ container (.xEventListItem t) { k with lists := m } = none) :
    Touched idle t k (enterEnd l (.xGenericListItem t) { k with lists := m }) ∧
      container (.xGenericListItem t) (enterEnd l (.xGenericListItem t) { k with lists := m }) = some l := by
  have plain : ¬Delaying l := by rcases parks with rfl | ⟨rfl,_⟩ <;> simp [Delaying]
  have fits : Fits { k with lists := m } l (.xGenericListItem t) := by rcases parks with rfl | ⟨rfl,_⟩ <;> trivial
  obtain ⟨m',r',entered,core',values,containers⟩ := coreEnterEnd core free fits plain
  rw [entered]
  have there : container (.xGenericListItem t) { k with lists := m' } = some l := by simp [container, containers]
  have others' : Others t k { k with lists := m' } := by
    refine othersTrans others (othersOf t (fun s mine => ?_) (fun s _ => congrFun values _) (UInt32.le_refl _))
    simp [containers, mine]
  refine ⟨othersTouched (invOthers inv ⟨r',core'⟩ others' (fun delayed => ?_) (fun waits => ?_) (fun same => absurd same busy)
    inv.current (madeOthers inv others' before (by unfold Made; rw [there]; simp) rfl)) others',there⟩
  · have := (delayedIs core').1
    rw [there] at delayed
    rw [← Option.some.inj delayed] at this
    exact absurd this plain
  · rcases parks with rfl | ⟨_,alone⟩
    · exact Or.inr there
    · refine absurd ?_ waits
      rw [← alone]
      simp [container, containers]

theorem laterTick {tick n : UInt32} (some_time : n ≠ 0) : tick + n ≠ tick := fun same => some_time (by grind)

theorem placeSound {e : ε} {n : UInt32} (inv : Inv idle k) (runs : Runs idle t k) (some_time : n ≠ 0) :
    ∃ k', vTaskPlaceOnEventList e n k = some k' ∧ Touched idle t k k' ∧
      (n ≠ portMaxDelay → Blocked t k' ∧ wakeTime t k' = k.xTickCount + n) := by
  obtain ⟨r,core⟩ := inv.sound
  have alone := readyAlone inv runs.ready
  obtain ⟨m₁,r₁,posted,core₁,values₁,containers₁⟩ := coreEnterSorted (l := .pxEventList e) core alone trivial
  have there : container (.xGenericListItem t) { k with lists := m₁ } = some (.pxReadyTasksLists (k.uxPriority t)) := by
    rw [← runs.ready]
    simp [container, containers₁]
  obtain ⟨m₂,r₂,gone,core₂,values₂,containers₂⟩ := coreLeave core₁ there
  have free : container (.xGenericListItem t) { k with lists := m₂ } = none := by simp [container, containers₂]
  have others₂ : Others t k { k with lists := m₂ } := by
    refine othersOf t (fun s mine => ?_) (fun s _ => congrFun (values₂.trans values₁) _) (UInt32.le_refl _)
    simp [containers₂, containers₁, mine]
  have ran : vTaskPlaceOnEventList e n k = if n = portMaxDelay then
      some (enterEnd .xSuspendedTaskList (.xGenericListItem t) { k with lists := m₂ })
      else prvAddCurrentTaskToDelayedList (k.xTickCount + n) { k with lists := m₂ } :=
    (afterwards runs.current).trans ((afterwards posted).trans (afterwards gone))
  rw [ran]
  by_cases forever : n = portMaxDelay
  · rw [if_pos forever]
    exact ⟨_,rfl,(parkSound inv core₂ others₂ (readyMade runs.ready) runs.busy free (Or.inl rfl)).1,
      fun short => absurd forever short⟩
  · rw [if_neg forever]
    obtain ⟨k',added,sound,off⟩ := addDelayed core₂ runs.current free fun same => absurd same (laterTick some_time)
    have others := othersTrans others₂ off.others
    refine ⟨k',added,othersTouched ?_ others,fun _ => ⟨off.blocked,off.wakes⟩⟩
    exact invOthers inv sound others off.ahead (fun _ => Or.inl off.blocked) (fun same => absurd same runs.busy)
      (by rw [off.current]; exact inv.current)
      (madeOthers inv others (readyMade runs.ready) (blockedMade off.blocked) off.number)

end Blocking
end YunbaIot.FreeRtosTasks
