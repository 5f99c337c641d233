import YunbaIot.TaskControl

/-! Tasks that change their priority, come into being or are freed. -/
namespace YunbaIot.FreeRtosTasks
open FreeRtosList

section Rolls
variable {τ : Type}

theorem rollAdd {P : τ → Prop} {n : UInt32} {t : τ} (roll : Roll P n) (new : ¬P t) (room : n ≠ 0xffffffff) :
    Roll (fun s => s = t ∨ P s) (n + 1) := by
  obtain ⟨ts,once,members,length⟩ := roll
  refine ⟨t :: ts,List.nodup_cons.mpr ⟨fun inside => new ((members t).mp inside),once⟩,fun s => ?_,?_⟩
  · rw [List.mem_cons, members]
  · have on := tickOn n
    have small : n.toNat ≠ (0xffffffff : UInt32).toNat := fun same => room (UInt32.toNat_inj.mp same)
    rw [List.length_cons, length, on, if_neg (by simp at small; omega)]

theorem rollDrop [DecidableEq τ] {P : τ → Prop} {n : UInt32} {t : τ} (roll : Roll P n) (there : P t) :
    Roll (fun s => s ≠ t ∧ P s) (n - 1) := by
  obtain ⟨ts,once,members,length⟩ := roll
  have inside := (members t).mpr there
  have some_left := List.length_pos_of_mem inside
  refine ⟨ts.erase t,once.erase t,fun s => ?_,?_⟩
  · rw [once.mem_erase_iff, members]
  · have := n.toNat_lt
    rw [List.length_erase_of_mem inside, length, UInt32.toNat_sub]
    simp only [UInt32.reduceToNat]
    omega

end Rolls

section Changes
variable {τ ε : Type} {idle t : τ} {k k' : Kernel τ ε} {r : ListName ε → List (Item τ)}

theorem sparedTrans {k'' : Kernel τ ε} (first : Spared t k k') (second : Spared t k' k'') : Spared t k k'' :=
  ⟨second.generic.trans first.generic,second.event.trans first.event,second.wake.trans first.wake,second.tick.trans first.tick⟩

theorem touchedTrans {k'' : Kernel τ ε} (first : Touched idle t k k') (second : Touched idle t k' k'') : Touched idle t k k'' :=
  ⟨second.inv,fun s mine => sparedTrans (first.spared s mine) (second.spared s mine)⟩

theorem rollSame (inv : Inv idle k) (made : Made t k) : Roll (fun s => s = t ∨ Made s k) k.uxCurrentNumberOfTasks :=
  rollCongr inv.made (fun _ => ⟨Or.inr,fun either => either.elim (fun same => same ▸ made) id⟩) rfl

theorem coreSetPriority [DecidableEq τ] (core : Core k r) (away : ∀ q, container (.xGenericListItem t) k ≠ some (.pxReadyTasksLists q))
    (p : Priority) : Core (setPriority t p k) r := by
  refine ⟨core.shows,core.two,fun i l there => ?_,core.sorted⟩
  have fits := core.fits i l there
  cases i with
  | xEventListItem s => cases l <;> exact fits
  | xGenericListItem s =>
    cases l with
    | pxReadyTasksLists q =>
      have other : s ≠ t := by
        rintro rfl
        exact away q there
      exact ⟨(Function.update_of_ne other ..).trans fits.1,fits.2⟩
    | _ => exact fits

theorem othersPriority [DecidableEq τ] (t : τ) (p : Priority) (k : Kernel τ ε) : Others t k (setPriority t p k) :=
  ⟨fun _ _ => rfl,fun _ _ => rfl,fun _ _ => rfl,rfl,UInt32.le_refl _,rfl,rfl,rfl,rfl,rfl⟩

theorem headDeleted (core : Core k r) {s : τ} (there : container (.xGenericListItem s) k = some .xTasksWaitingTermination) :
    ∃ t, headTask .xTasksWaitingTermination k = some t ∧
      container (.xGenericListItem t) k = some .xTasksWaitingTermination := by
  have inside := (core.shows.container _ _).mpr there
  rcases tasks : r .xTasksWaitingTermination with _ | ⟨i,rest⟩
  · rw [tasks] at inside
    cases inside
  · have here : container i k = some .xTasksWaitingTermination := (core.shows.container _ i).mp (by rw [tasks]; simp)
    have fits := core.fits i _ here
    cases i with
    | xEventListItem t => exact fits.elim
    | xGenericListItem t => exact ⟨t,by rw [headTask, headShows core.shows tasks]; rfl,here⟩

end Changes

section Priorities
variable {τ ε : Type} [DecidableEq τ] [DecidableEq ε] {idle t : τ} {k k' : Kernel τ ε} {r : ListName ε → List (Item τ)}

theorem wakeEvent (s t : τ) (v : UInt32) (k : Kernel τ ε) : wakeTime s (setItemValue (.xEventListItem t) v k) = wakeTime s k := by
  show Function.update k.lists.xItemValue (.item (.xEventListItem t)) v (.item (.xGenericListItem s)) = _
  exact Function.update_of_ne (by simp) ..

theorem othersValue (t : τ) (v : UInt32) (k : Kernel τ ε) : Others t k (setItemValue (.xEventListItem t) v k) :=
  ⟨fun _ _ => rfl,fun _ _ => rfl,fun s _ => wakeEvent s t v k,rfl,UInt32.le_refl _,rfl,rfl,rfl,rfl,rfl⟩

theorem coreEventValue (core : Core k r) (t : τ) (v : UInt32) : Core (setItemValue (.xEventListItem t) v k) r :=
  coreSetValue core fun _ _ => ⟨t,rfl⟩

/- A task that was on no list enters its ready list. -/
theorem rejoinSound (inv : Inv idle k) (core : Core k' r) (others : Others t k k')
    (free : container (.xGenericListItem t) k' = none) (alone : container (.xEventListItem t) k' = none)
    (current : k'.pxCurrentTCB ≠ none) (roll : Roll (fun s => s = t ∨ Made s k) k'.uxCurrentNumberOfTasks) :
    Touched idle t k (prvAddTaskToReadyList t k') ∧
      container (.xGenericListItem t) (prvAddTaskToReadyList t k') = some (.pxReadyTasksLists (k'.uxPriority t)) := by
  obtain ⟨m,top,r',added,core',values,containers⟩ := coreReady core free
  rw [added]
  have there : container (.xGenericListItem t) { k' with lists := m, uxTopReadyPriority := top } =
      some (.pxReadyTasksLists (k'.uxPriority t)) := by
    simp [container, containers]
  have others' : Others t k { k' with lists := m, uxTopReadyPriority := top } := by
    refine othersTrans others (othersOf t (fun s mine => ?_) (fun s _ => congrFun values _) (UInt32.le_refl _))
    simp [containers, mine]
  refine ⟨othersTouched (invOthers inv ⟨r',core'⟩ others' (fun delayed => ?_) (fun waits => ?_) (fun _ => ⟨_,there⟩) current
    (rollCongr roll (fun s => ?_) rfl)) others',there⟩
  · exact absurd ⟨_,delayed,(delayedIs core').1⟩ (readyUnblocked there)
  · refine absurd ?_ waits
    rw [← alone]
    simp [container, containers]
  · by_cases mine : s = t
    · subst mine
      exact iff_of_true (Or.inl rfl) (readyMade there)
    · unfold Made
      rw [others'.generic s mine]
      simp [mine]

/- A task that is not ready only gets the priority. -/
theorem reprioritiseSound (inv : Inv idle k) (t : τ) (p : Priority) : ∃ k', reprioritise t p k = some k' ∧
    Touched idle t k k' ∧ (Blocked t k → Spared t k k') := by
  obtain ⟨r,core⟩ := inv.sound
  unfold reprioritise
  by_cases ready : container (.xGenericListItem t) k = some (.pxReadyTasksLists (k.uxPriority t))
  · rw [if_pos ready]
    obtain ⟨m,r₁,gone,core₁,values,containers⟩ := coreLeave core ready
    have free : container (.xGenericListItem t) { k with lists := m } = none := by simp [container, containers]
    have alone : container (.xEventListItem t) { k with lists := m } = none := by
      rw [← readyAlone inv ready]
      simp [container, containers]
    have core₂ := coreSetPriority core₁ (fun q there => by rw [free] at there; cases there) p
    have others : Others t k (setPriority t p { k with lists := m }) :=
      othersTrans (othersOf t (fun s mine => by simp [containers, mine]) (fun s _ => congrFun values _) (UInt32.le_refl _))
        (othersPriority t p _)
    refine ⟨_,by rw [gone]; rfl,(rejoinSound inv core₂ others free alone inv.current ?_).1,
      fun blocked => absurd blocked (readyUnblocked ready)⟩
    exact rollSame inv (readyMade ready)
  · rw [if_neg ready]
    have away : ∀ q, container (.xGenericListItem t) k ≠ some (.pxReadyTasksLists q) := fun q there => by
      obtain ⟨same,_⟩ := core.fits _ _ there
      exact ready (same ▸ there)
    have core' := coreSetPriority core away p
    refine ⟨_,rfl,othersTouched (invOthers inv ⟨r,core'⟩ (othersPriority t p k) (inv.ahead t) (inv.held t) (fun mine => ?_)
      inv.current inv.made) (othersPriority t p k),fun _ => ⟨rfl,rfl,rfl,rfl⟩⟩
    obtain ⟨q,there⟩ := inv.idle
    exact absurd (mine ▸ there) (away q)

theorem eventValueSound (inv : Inv idle k) (t : τ) (v : UInt32) : Touched idle t k (setItemValue (.xEventListItem t) v k) := by
  obtain ⟨r,core⟩ := inv.sound
  have others := othersValue t v k
  refine othersTouched (invOthers inv ⟨r,coreEventValue core t v⟩ others (fun there => ?_) (inv.held t) (fun mine => ?_)
    inv.current inv.made) others
  · exact timelyKept (inv.ahead t there) (wakeEvent t t v k) rfl (UInt32.le_refl _)
  · rw [mine]
    exact inv.idle

theorem eventSpared (t : τ) (p : Priority) (k : Kernel τ ε) : Spared t k (setItemValue (.xEventListItem t) (eventValue p) k) :=
  ⟨rfl,rfl,wakeEvent t t (eventValue p) k,rfl⟩

theorem prioritySetSound {h : Option τ} (inv : Inv idle k) (handle : prvGetTCBFromHandle h k = some t) (u : UInt32) :
    ∃ k', vTaskPrioritySet h u k = some k' ∧ Touched idle t k k' ∧ (Blocked t k → Spared t k k') := by
  obtain ⟨c,current⟩ := Option.ne_none_iff_exists'.mp inv.current
  have seen : currentPriority k = some (k.uxPriority c) := congrArg (Option.map _) current
  let p := validPriority u
  by_cases same : k.uxBasePriority t = p
  · exact ⟨k,(afterwards handle).trans (if_pos same),touchedSelf inv t,fun _ => ⟨rfl,rfl,rfl,rfl⟩⟩
  · let k₁ : Kernel τ ε := setBasePriority t p k
    have alike : Alike k k₁ := ⟨rfl,rfl,rfl,rfl,rfl,rfl,rfl,rfl,rfl,rfl⟩
    let k₂ := setItemValue (.xEventListItem t) (eventValue p) k₁
    have touched₂ : Touched idle t k k₂ :=
      touchedTrans (touchedAlike (touchedSelf inv t) alike) (eventValueSound (invAlike inv alike) t (eventValue p))
    obtain ⟨k₃,moved,touched₃,stays⟩ := reprioritiseSound touched₂.inv t
      (if decide (k.uxBasePriority t ≠ k.uxPriority t) then k₂.uxPriority t else p)
    have first : Spared t k k₂ := ⟨rfl,rfl,wakeEvent t t (eventValue p) k₁,rfl⟩
    exact ⟨_,(afterwards handle).trans ((if_neg same).trans ((afterwards seen).trans (afterwards moved))),
      touchedAlike (touchedTrans touched₂ touched₃) (yieldAlike _ _),fun blocked =>
        sparedAlike (sparedTrans first (stays blocked)) (yieldAlike _ _)⟩

theorem inheritSound (inv : Inv idle k) (t : τ) : ∃ k', vTaskPriorityInherit (some t) k = some k' ∧ Touched idle t k k' ∧
    (Blocked t k → Spared t k k') := by
  obtain ⟨c,current⟩ := Option.ne_none_iff_exists'.mp inv.current
  have seen : currentPriority k = some (k.uxPriority c) := congrArg (Option.map _) current
  by_cases below : k.uxPriority t < k.uxPriority c
  · have touched := eventValueSound inv t (eventValue (k.uxPriority c))
    obtain ⟨k',moved,touched',stays⟩ := reprioritiseSound touched.inv t (k.uxPriority c)
    exact ⟨k',(afterwards seen).trans ((if_pos below).trans moved),touchedTrans touched touched',fun blocked =>
      sparedTrans (eventSpared t (k.uxPriority c) k) (stays blocked)⟩
  · exact ⟨k,(afterwards seen).trans (if_neg below),touchedSelf inv t,fun _ => ⟨rfl,rfl,rfl,rfl⟩⟩

/- A task gives a mutex back while it is ready. -/
theorem disinheritSound (inv : Inv idle k) (ready : container (.xGenericListItem t) k = some (.pxReadyTasksLists (k.uxPriority t))) :
    ∃ k', vTaskPriorityDisinherit (some t) k = some k' ∧ Touched idle t k k' := by
  unfold vTaskPriorityDisinherit
  by_cases same : k.uxPriority t = k.uxBasePriority t
  · exact ⟨k,if_pos same,touchedSelf inv t⟩
  · obtain ⟨r,core⟩ := inv.sound
    obtain ⟨m,r₁,gone,core₁,values,containers⟩ := coreLeave core ready
    have free : container (.xGenericListItem t) { k with lists := m } = none := by simp [container, containers]
    have alone : container (.xEventListItem t) { k with lists := m } = none := by
      rw [← readyAlone inv ready]
      simp [container, containers]
    have core₂ := coreSetPriority core₁ (fun q there => by rw [free] at there; cases there) (k.uxBasePriority t)
    have core₃ := coreEventValue core₂ t (eventValue (k.uxBasePriority t))
    have others₁ : Others t k { k with lists := m } :=
      othersOf t (fun s mine => by simp [containers, mine]) (fun s _ => congrFun values _) (UInt32.le_refl _)
    have others := othersTrans (othersTrans others₁ (othersPriority t (k.uxBasePriority t) _))
      (othersValue t (eventValue (k.uxBasePriority t)) _)
    refine ⟨_,(if_neg same).trans (by rw [gone]; rfl),
      (rejoinSound inv core₃ others free alone inv.current (rollSame inv (readyMade ready))).1⟩

/- A task control block that no list knows of -/
def Fresh (t : τ) (k : Kernel τ ε) : Prop :=
  container (.xGenericListItem t) k = none ∧ container (.xEventListItem t) k = none

theorem initialised (fresh : Fresh t k) (u : UInt32) : prvInitialiseTCBVariables t u k =
    setItemValue (.xEventListItem t) (eventValue (validPriority u))
      (setBasePriority t (validPriority u) (setPriority t (validPriority u) k)) := by
  have still : ∀ {i : Item τ}, k.lists.pvContainer i = none → Function.update k.lists.pvContainer i none = k.lists.pvContainer :=
    fun {i} none => Function.update_eq_self_iff.mpr none.symm
  unfold prvInitialiseTCBVariables vListInitialiseItem setContainer setBasePriority setPriority
  dsimp only
  rw [still fresh.1, still fresh.2]

theorem createdIs {k₃ : Kernel τ ε} (fresh : Fresh t k) (u : UInt32) (chosen : chooseCurrent t u
    { setItemValue (.xEventListItem t) (eventValue (validPriority u))
        (setBasePriority t (validPriority u) (setPriority t (validPriority u) k)) with
      uxCurrentNumberOfTasks := k.uxCurrentNumberOfTasks + 1 } = k₃) :
    createSection t u k = prvAddTaskToReadyList t k₃ := by
  unfold createSection
  rw [initialised fresh]
  subst chosen
  rfl

/- Once the scheduler runs, the running task is chosen by a switch only. -/
theorem chooseKept (u : UInt32) (current : k.pxCurrentTCB ≠ none) (running : k.xSchedulerRunning = true) :
    chooseCurrent t u k = k := by
  obtain ⟨c,known⟩ := Option.ne_none_iff_exists'.mp current
  unfold chooseCurrent
  rw [known]
  simp [running]

/- While the scheduler runs, a new task is ready, and the others stay where they are. -/
theorem createSound (inv : Inv idle k) (fresh : Fresh t k) (room : k.uxCurrentNumberOfTasks ≠ 0xffffffff) (u : UInt32) :
    Touched idle t k (createSection t u k) ∧
      container (.xGenericListItem t) (createSection t u k) = some (.pxReadyTasksLists (validPriority u)) := by
  obtain ⟨r,core⟩ := inv.sound
  let p := validPriority u
  let k₁ : Kernel τ ε := setBasePriority t p (setPriority t p k)
  let k₂ := setItemValue (.xEventListItem t) (eventValue p) k₁
  let k₃ : Kernel τ ε := { k₂ with uxCurrentNumberOfTasks := k₂.uxCurrentNumberOfTasks + 1 }
  have core₁ : Core (setPriority t p k) r := coreSetPriority core (fun q there => by rw [fresh.1] at there; cases there) p
  have alike₁ : Alike (setPriority t p k) k₁ := ⟨rfl,rfl,rfl,rfl,rfl,rfl,rfl,rfl,rfl,rfl⟩
  have core₂ : Core k₂ r := coreEventValue (coreAlike core₁ alike₁) t (eventValue p)
  have core₃ : Core k₃ r := ⟨core₂.shows,core₂.two,core₂.fits,core₂.sorted⟩
  have others₁ : Others t k k₁ := ⟨fun _ _ => rfl,fun _ _ => rfl,fun _ _ => rfl,rfl,UInt32.le_refl _,rfl,rfl,rfl,rfl,rfl⟩
  have others₂ : Others t k k₂ := othersTrans others₁ (othersValue t (eventValue p) k₁)
  have others₃ : Others t k k₃ := ⟨others₂.generic,others₂.event,others₂.wake,rfl,UInt32.le_refl _,rfl,rfl,rfl,rfl,rfl⟩
  have roll : Roll (fun s => s = t ∨ Made s k) k₃.uxCurrentNumberOfTasks :=
    rollAdd inv.made (fun made => made fresh.1) room
  have kept : chooseCurrent t u k₃ = k₃ := chooseKept u inv.current inv.running
  obtain ⟨touched,there⟩ := rejoinSound inv core₃ others₃ fresh.1 fresh.2 inv.current roll
  rw [createdIs fresh u kept]
  have same : k₃.uxPriority t = validPriority u := Function.update_self ..
  exact ⟨touched,by rw [← same]; exact there⟩

theorem freeSound {s : τ} (inv : Inv idle k) (there : container (.xGenericListItem s) k = some .xTasksWaitingTermination) :
    ∃ t k', headTask .xTasksWaitingTermination k = some t ∧ freeDeleted k = some k' ∧ Touched idle t k k' ∧ Fresh t k' := by
  obtain ⟨r,core⟩ := inv.sound
  obtain ⟨t,head,here⟩ := headDeleted core there
  obtain ⟨m,r',gone,core',values,containers⟩ := coreLeave core here
  let k₁ : Kernel τ ε := { k with lists := m }
  let k₂ : Kernel τ ε := { k₁ with
    uxCurrentNumberOfTasks := k₁.uxCurrentNumberOfTasks - 1, uxTasksDeleted := k₁.uxTasksDeleted - 1 }
  have others₁ : Others t k k₁ :=
    othersOf t (fun s mine => by simp [containers, mine]) (fun s _ => congrFun values _) (UInt32.le_refl _)
  have others₂ : Others t k k₂ := ⟨others₁.generic,others₁.event,others₁.wake,rfl,UInt32.le_refl _,rfl,rfl,rfl,rfl,rfl⟩
  have free : container (.xGenericListItem t) k₂ = none := by
    show m.pvContainer _ = none
    simp [containers]
  have waited : container (.xEventListItem t) k = none := by
    by_contra waits
    rcases inv.held t waits with ⟨l,other,delaying⟩ | suspended
    · rw [here] at other
      cases other
      simp [Delaying] at delaying
    · rw [here] at suspended
      cases suspended
  have alone : container (.xEventListItem t) k₂ = none := by
    rw [← waited]
    show m.pvContainer _ = _
    simp [container, containers]
  refine ⟨t,k₂,head,(afterwards head).trans (afterwards gone),othersTouched ?_ others₂,free,alone⟩
  refine invOthers inv ⟨r',core'.shows,core'.two,core'.fits,core'.sorted⟩ others₂ (fun delayed => ?_) (fun waits => absurd alone waits)
    (fun mine => ?_) inv.current (rollCongr (rollDrop inv.made (t := t) ?_) (fun s => ?_) rfl)
  · rw [free] at delayed
    cases delayed
  · obtain ⟨p,ready⟩ := inv.idle
    rw [← mine, here] at ready
    cases ready
  · unfold Made
    rw [here]
    simp
  · by_cases mine : s = t
    · subst mine
      simp [Made, free]
    · unfold Made
      rw [others₂.generic s mine]
      simp [mine]

end Priorities
end YunbaIot.FreeRtosTasks
