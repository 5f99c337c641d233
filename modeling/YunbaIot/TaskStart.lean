import YunbaIot.TaskRun

/-! The kernel before the scheduler runs: the lists are initialised with the first task, and every task is ready. -/
namespace YunbaIot.FreeRtosTasks
open FreeRtosList LinkedRing

section Empty
variable {τ ε : Type}

theorem emptyShowsNone : Shows (emptyLists : Lists (ListName ε) (Item τ)) fun _ => [] :=
  ⟨fun _ => ringEmpty rfl rfl,fun _ _ => iff_of_false (List.not_mem_nil) (by simp [emptyLists]),fun _ => rfl,fun _ => rfl,
    fun _ => List.mem_cons_self ..⟩

end Empty

section Start
variable {τ ε : Type} [DecidableEq τ] [DecidableEq ε] {k : Kernel τ ε} {t : τ}

structure Before (k : Kernel τ ε) : Prop where
  sound : Sound k
  ready : ∀ t l, container (.xGenericListItem t) k = some l → ∃ p, l = .pxReadyTasksLists p
  alone : ∀ t, container (.xEventListItem t) k = none
  current : k.pxCurrentTCB ≠ none
  made : Roll (Made · k) k.uxCurrentNumberOfTasks
  running : k.xSchedulerRunning = false
  awake : k.uxSchedulerSuspended = 0

theorem initialiseLists {m : Lists (ListName ε) (Item τ)} (shows : Shows m fun _ => []) (ls : List (ListName ε)) :
    Shows (ls.foldl (fun m l => vListInitialise l m) m) fun _ => [] := by
  induction ls generalizing m with
  | nil => exact shows
  | cons l ls ih => exact ih (initialiseShows shows rfl)

/- A task is ready from the moment it is created. -/
theorem enlisted {k' : Kernel τ ε} {r : ListName ε → List (Item τ)} (core : Core k' r)
    (ready : ∀ s l, container (.xGenericListItem s) k' = some l → ∃ p, l = .pxReadyTasksLists p)
    (alone : ∀ s, container (.xEventListItem s) k' = none) (fresh : container (.xGenericListItem t) k' = none)
    (current : k'.pxCurrentTCB ≠ none) (roll : Roll (fun s => s = t ∨ Made s k') k'.uxCurrentNumberOfTasks)
    (running : k'.xSchedulerRunning = false) (awake : k'.uxSchedulerSuspended = 0) :
    Before (prvAddTaskToReadyList t k') ∧ ∀ s, Made s (prvAddTaskToReadyList t k') ↔ s = t ∨ Made s k' := by
  obtain ⟨m,top,r',added,core',_,containers⟩ := coreReady core fresh
  rw [added]
  have mine : container (.xGenericListItem t) { k' with lists := m, uxTopReadyPriority := top } =
      some (.pxReadyTasksLists (k'.uxPriority t)) := by
    simp [container, containers]
  have other : ∀ s, s ≠ t → container (.xGenericListItem s) { k' with lists := m, uxTopReadyPriority := top } =
      container (.xGenericListItem s) k' := fun s mine => by
    simp [container, containers, mine]
  have members : ∀ s, Made s { k' with lists := m, uxTopReadyPriority := top } ↔ s = t ∨ Made s k' := by
    intro s
    by_cases same : s = t
    · subst same
      exact iff_of_true (readyMade mine) (Or.inl rfl)
    · unfold Made
      rw [other s same]
      simp [same]
  refine ⟨⟨⟨r',core'⟩,fun s l there => ?_,fun s => ?_,current,rollCongr roll (fun s => (members s).symm) rfl,running,awake⟩,members⟩
  · by_cases same : s = t
    · subst same
      rw [mine] at there
      exact ⟨_,(Option.some.inj there).symm⟩
    · rw [other s same] at there
      exact ready s l there
  · rw [← alone s]
    simp [container, containers]

theorem createBefore (before : Before k) (new : ¬Made t k) (room : k.uxCurrentNumberOfTasks ≠ 0xffffffff) (u : UInt32) :
    Before (xTaskGenericCreate t u k) ∧ (∀ s, Made s (xTaskGenericCreate t u k) ↔ s = t ∨ Made s k) ∧
      (xTaskGenericCreate t u k).uxCurrentNumberOfTasks = k.uxCurrentNumberOfTasks + 1 := by
  obtain ⟨r,core⟩ := before.sound
  have fresh : Fresh t k := ⟨not_not.mp new,before.alone t⟩
  let p := validPriority u
  let k₁ : Kernel τ ε := setBasePriority t p (setPriority t p k)
  let k₂ : Kernel τ ε := { setItemValue (.xEventListItem t) (eventValue p) k₁ with
    uxCurrentNumberOfTasks := k.uxCurrentNumberOfTasks + 1 }
  have core₁ : Core (setPriority t p k) r := coreSetPriority core (fun q there => by rw [fresh.1] at there; cases there) p
  have core₂ : Core (setItemValue (.xEventListItem t) (eventValue p) k₁) r :=
    coreEventValue (k := k₁) ⟨core₁.shows,core₁.two,core₁.fits,core₁.sorted⟩ t (eventValue p)
  obtain ⟨c,known⟩ := Option.ne_none_iff_exists'.mp before.current
  obtain ⟨d,chosen⟩ : ∃ d : τ, chooseCurrent t u k₂ = { k₂ with pxCurrentTCB := some d } := by
    have pointer : k₂.pxCurrentTCB = some c := known
    unfold chooseCurrent
    rw [pointer]
    dsimp only
    split
    · exact ⟨t,rfl⟩
    · exact ⟨c,by rw [← pointer]⟩
  have made : xTaskGenericCreate t u k = prvAddTaskToReadyList t { k₂ with pxCurrentTCB := some d } := by
    have still : (prvAddTaskToReadyList t { k₂ with pxCurrentTCB := some d }).xSchedulerRunning = false := by
      obtain ⟨m,top,r',added,_⟩ := coreReady (k := { k₂ with pxCurrentTCB := some d }) (t := t)
        ⟨core₂.shows,core₂.two,core₂.fits,core₂.sorted⟩ fresh.1
      rw [added]
      exact before.running
    unfold xTaskGenericCreate
    rw [createdIs fresh u chosen]
    dsimp only
    rw [still]
    rfl
  have core₃ : Core { k₂ with pxCurrentTCB := some d } r := ⟨core₂.shows,core₂.two,core₂.fits,core₂.sorted⟩
  obtain ⟨before',members⟩ := enlisted core₃ before.ready before.alone fresh.1 (by simp) (rollAdd before.made new room)
    before.running before.awake
  rw [made]
  refine ⟨before',members,?_⟩
  obtain ⟨m,top,r',added,_⟩ := coreReady (k := { k₂ with pxCurrentTCB := some d }) (t := t)
    ⟨core₂.shows,core₂.two,core₂.fits,core₂.sorted⟩ fresh.1
  rw [added]

/- The first task brings the lists with it. -/
theorem createFirst (t : τ) (u : UInt32) : Before (xTaskGenericCreate t u (initially : Kernel τ ε)) ∧
    (∀ s, Made s (xTaskGenericCreate t u (initially : Kernel τ ε)) ↔ s = t) ∧
      (xTaskGenericCreate t u (initially : Kernel τ ε)).uxCurrentNumberOfTasks = 1 := by
  have fresh : Fresh t (initially : Kernel τ ε) := ⟨rfl,rfl⟩
  let p := validPriority u
  let k₁ : Kernel τ ε := setItemValue (.xEventListItem t) (eventValue p) (setBasePriority t p (setPriority t p initially))
  let k₂ : Kernel τ ε := { k₁ with uxCurrentNumberOfTasks := 1, pxCurrentTCB := some t }
  let k₃ := prvInitialiseTaskLists k₂
  have shows : Shows k₃.lists fun _ => [] := by
    have blank := valueShows (i := .xEventListItem t) (emptyShowsNone (τ := τ) (ε := ε)) (eventValue p)
    have ready := initialiseLists blank (priorities.map .pxReadyTasksLists)
    rw [List.foldl_map] at ready
    exact initialiseLists ready
      [.xDelayedTaskList1,.xDelayedTaskList2,.xPendingReadyList,.xTasksWaitingTermination,.xSuspendedTaskList]
  have nowhere : ∀ i, container i k₃ = none := by
    intro i
    by_contra there
    obtain ⟨l,here⟩ := Option.ne_none_iff_exists'.mp there
    have := (shows.container l i).mpr here
    cases this
  have core : Core k₃ fun _ => [] := by
    refine ⟨shows,Or.inl ⟨rfl,rfl⟩,fun i l there => ?_,fun l _ => List.Pairwise.nil⟩
    rw [nowhere] at there
    cases there
  have roll : Roll (fun s => s = t ∨ Made s k₃) k₃.uxCurrentNumberOfTasks := by
    refine ⟨[t],List.nodup_singleton t,fun s => ?_,rfl⟩
    rw [List.mem_singleton]
    exact ⟨Or.inl,fun either => either.elim id fun made => absurd (nowhere _) made⟩
  obtain ⟨before,members⟩ := enlisted core (fun s l there => by rw [nowhere] at there; cases there) (fun s => nowhere _)
    (nowhere _) (show k₃.pxCurrentTCB ≠ none by simp [k₃, prvInitialiseTaskLists, k₂]) roll rfl rfl
  obtain ⟨m,top,r',added,_⟩ := coreReady core (nowhere (.xGenericListItem t))
  have made : xTaskGenericCreate t u (initially : Kernel τ ε) = prvAddTaskToReadyList t k₃ := by
    have chosen : chooseCurrent t u { k₁ with uxCurrentNumberOfTasks := 0 + 1 } = k₃ := rfl
    unfold xTaskGenericCreate
    rw [createdIs fresh u chosen, added]
    rfl
  rw [made]
  refine ⟨before,fun s => ?_,by rw [added]; rfl⟩
  rw [members]
  exact ⟨fun either => either.elim id fun made => absurd (nowhere _) made,Or.inl⟩

/- The kernel once these tasks have been created -/
def Created (made : List τ) (k : Kernel τ ε) : Prop := made = [] ∧ k = initially ∨
  Before k ∧ (∀ s, Made s k ↔ s ∈ made) ∧ k.uxCurrentNumberOfTasks.toNat = made.length

theorem createdStep {made : List τ} (created : Created made k) (new : t ∉ made) (room : made.length + 1 < 2 ^ 32) (u : UInt32) :
    Created (t :: made) (xTaskGenericCreate t u k) ∧ Before (xTaskGenericCreate t u k) := by
  rcases created with ⟨rfl,rfl⟩ | ⟨before,members,count⟩
  · obtain ⟨before,members,count⟩ := createFirst (ε := ε) t u
    exact ⟨Or.inr ⟨before,fun s => by rw [members, List.mem_singleton],by rw [count]; rfl⟩,before⟩
  · have full : k.uxCurrentNumberOfTasks ≠ 0xffffffff := by
      intro same
      rw [same] at count
      simp only [UInt32.reduceToNat] at count
      omega
    obtain ⟨before',members',count'⟩ := createBefore before (fun there => new ((members t).mp there)) full u
    refine ⟨Or.inr ⟨before',fun s => by rw [members', members, List.mem_cons],?_⟩,before'⟩
    rw [count', tickOn, if_neg (by omega), count, List.length_cons]

theorem createdAll (tasks : List (τ × UInt32)) : ∀ {made : List τ} {k : Kernel τ ε}, Created made k →
    (made ++ tasks.map Prod.fst).Nodup → made.length + tasks.length < 2 ^ 32 →
      ∃ made', Created made' (createTasks tasks k) ∧
        (∀ s, s ∈ made' ↔ s ∈ made ∨ s ∈ tasks.map Prod.fst) ∧ made'.length = made.length + tasks.length := by
  induction tasks with
  | nil => exact fun {made k} created _ _ => ⟨made,created,fun s => by simp,rfl⟩
  | cons t tasks ih =>
    intro made k created once room
    rw [List.map_cons] at once
    have parts := List.nodup_append.mp once
    have new : t.1 ∉ made := fun inside => parts.2.2 t.1 inside t.1 (List.mem_cons_self ..) rfl
    rw [List.length_cons] at room
    obtain ⟨created',_⟩ := createdStep created new (by omega) t.2
    have once' : (t.1 :: made ++ tasks.map Prod.fst).Nodup := by
      rw [List.cons_append]
      exact (List.perm_middle.nodup_iff).mp once
    obtain ⟨made',all,members,length⟩ := ih created' once' (by rw [List.length_cons]; omega)
    refine ⟨made',all,fun s => ?_,by rw [length, List.length_cons, List.length_cons]; omega⟩
    rw [members, List.map_cons, List.mem_cons, List.mem_cons]
    tauto

theorem startSound {idle timer : τ} {tasks : List (τ × UInt32)} (once : (idle :: timer :: tasks.map Prod.fst).Nodup)
    (few : tasks.length + 2 < 2 ^ 32) : ∃ k₂ k : Kernel τ ε,
      vTaskStartScheduler idle timer (createTasks tasks initially) = some k ∧ Inv idle k ∧
        vTaskSwitchContext k₂ = some k ∧ Inv idle k₂ ∧ k₂.uxSchedulerSuspended = 0 := by
  obtain ⟨apart,rest⟩ := List.nodup_cons.mp once
  obtain ⟨apart',distinct⟩ := List.nodup_cons.mp rest
  rw [List.mem_cons, not_or] at apart
  obtain ⟨made,created,members,length⟩ := createdAll (ε := ε) tasks (Or.inl ⟨rfl,rfl⟩) (by simpa using distinct)
    (by simp only [List.length_nil]; omega)
  simp only [List.not_mem_nil, false_or, List.length_nil, Nat.zero_add] at members length
  obtain ⟨created₁,_⟩ := createdStep created (t := idle) (fun inside => apart.2 ((members idle).mp inside)) (by omega) 0
  obtain ⟨created₂,before⟩ := createdStep created₁ (t := timer) (fun inside => by
    rcases List.mem_cons.mp inside with same | there
    · exact apart.1 same.symm
    · exact apart' ((members timer).mp there)) (by rw [List.length_cons]; omega) 2
  generalize built : xTaskGenericCreate timer 2 (xTaskGenericCreate idle 0 (createTasks tasks (initially : Kernel τ ε))) = k₁
    at created₂ before
  have idles : Made idle k₁ := by
    rcases created₂ with ⟨none,_⟩ | ⟨_,all,_⟩
    · cases none
    · exact (all idle).mpr (by simp)
  let k₂ : Kernel τ ε := { k₁ with xSchedulerRunning := true, xTickCount := 0 }
  have unblocked : ∀ t l, container (.xGenericListItem t) k₂ = some l → ¬Delaying l := by
    intro t l there delaying
    obtain ⟨p,rfl⟩ := before.ready t l there
    simp [Delaying] at delaying
  have inv : Inv idle k₂ := by
    obtain ⟨r,core⟩ := before.sound
    refine ⟨⟨r,core.shows,core.two,fun i l there => ?_,core.sorted⟩,fun t there => ?_,fun t waits => absurd (before.alone t) waits,?_,
      before.current,before.made,rfl⟩
    · refine fitsRetimed (core.fits i l there) rfl rfl fun t same delaying => ?_
      subst same
      exact absurd delaying (unblocked t l there)
    · exact absurd (delayedIs core).1 (unblocked t _ there)
    · obtain ⟨l,there⟩ := Option.ne_none_iff_exists'.mp idles
      obtain ⟨p,rfl⟩ := before.ready idle l there
      exact ⟨p,there⟩
  obtain ⟨r,core⟩ := inv.sound
  obtain ⟨t,k₃,switched,inv₃,_⟩ := switchSound inv core before.awake
  refine ⟨k₂,k₃,?_,inv₃,switched,inv,before.awake⟩
  unfold vTaskStartScheduler
  rw [built]
  exact switched

theorem reachSound {idle timer : τ} (reach : Reach idle timer k) : Inv idle k := by
  induction reach with
  | start once few began =>
    obtain ⟨_,k',began',inv,_⟩ := startSound (ε := ε) once few
    cases began.symm.trans began'
    exact inv
  | step _ allowed done ih =>
    obtain ⟨k',ran,inv',_⟩ := performs ih allowed
    cases done.symm.trans ran
    exact inv'

end Start
end YunbaIot.FreeRtosTasks
