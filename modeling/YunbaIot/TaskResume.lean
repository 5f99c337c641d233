import YunbaIot.TaskTick

/-! The end of a suspension of the scheduler: pending tasks are made ready, and the ticks held back are made up. -/
namespace YunbaIot.FreeRtosTasks
open FreeRtosList

section Keeping
variable {τ ε : Type} {idle : τ} {k k' : Kernel τ ε}

/- The invariant says nothing of these. -/
structure Alike (k k' : Kernel τ ε) : Prop where
  lists : k'.lists = k.lists
  priority : k'.uxPriority = k.uxPriority
  top : k'.uxTopReadyPriority = k.uxTopReadyPriority
  current : k'.pxCurrentTCB = k.pxCurrentTCB
  number : k'.uxCurrentNumberOfTasks = k.uxCurrentNumberOfTasks
  tick : k'.xTickCount = k.xTickCount
  next : k'.xNextTaskUnblockTime = k.xNextTaskUnblockTime
  delayed : k'.pxDelayedTaskList = k.pxDelayedTaskList
  overflow : k'.pxOverflowDelayedTaskList = k.pxOverflowDelayedTaskList
  running : k'.xSchedulerRunning = k.xSchedulerRunning

theorem coreAlike {r : ListName ε → List (Item τ)} (core : Core k r) (alike : Alike k k') : Core k' r := by
  refine ⟨alike.lists ▸ core.shows,?_,fun i l there => ?_,alike.lists ▸ core.sorted⟩
  · rw [alike.delayed, alike.overflow]
    exact core.two
  · unfold container at there
    rw [alike.lists] at there
    exact fitsCongr (core.fits i l there) alike.priority (by rw [alike.top]) alike.overflow alike.tick
      (by rw [alike.lists])

theorem invAlike (inv : Inv idle k) (alike : Alike k k') : Inv idle k' := by
  obtain ⟨r,core⟩ := inv.sound
  have places : ∀ i, container i k' = container i k := fun i => by unfold container; rw [alike.lists]
  have wake : ∀ t, wakeTime t k' = wakeTime t k := fun t => by unfold wakeTime; rw [alike.lists]
  refine ⟨⟨r,coreAlike core alike⟩,fun t there => ?_,fun t waits => ?_,?_,by rw [alike.current]; exact inv.current,
    rollCongr inv.made (fun t => ?_) alike.number,alike.running.trans inv.running⟩
  · rw [places, alike.delayed] at there
    exact timelyKept (inv.ahead t there) (wake t) alike.tick (by rw [alike.next]; exact UInt32.le_refl _)
  · rw [places] at waits ⊢
    unfold Blocked
    rw [places]
    exact inv.held t waits
  · rw [places]
    exact inv.idle
  · unfold Made
    rw [places]

theorem blockedMade {t : τ} (blocked : Blocked t k) : Made t k := by
  obtain ⟨l,there,_⟩ := blocked
  unfold Made
  rw [there]
  simp

theorem readyMade {t : τ} {p : Priority} (there : container (.xGenericListItem t) k = some (.pxReadyTasksLists p)) : Made t k := by
  unfold Made
  rw [there]
  simp

theorem invReadied {S : τ → Prop} (inv : Inv idle k) (sound : Sound k') (readied : Readied S k k') (live : ∀ t, S t → Made t k)
    (next : k'.xNextTaskUnblockTime = k.xNextTaskUnblockTime) : Inv idle k' := by
  obtain ⟨m,top,next',fields⟩ := readied.rest
  have steady := readiedSteady readied
  have left_out : ∀ t, Blocked t k' → ¬S t := fun t blocked woken => readyUnblocked (readied.moved t woken).1 blocked
  refine ⟨sound,fun t there => ?_,fun t waits => ?_,?_,by rw [steady.current]; exact inv.current,
    rollCongr inv.made (fun t => ?_) steady.number,steady.running.trans inv.running⟩
  · obtain ⟨_,core⟩ := sound
    rw [(readied.kept t (left_out t ⟨_,there,(delayedIs core).1⟩)).1] at there
    rw [show k'.pxDelayedTaskList = k.pxDelayedTaskList by rw [fields]] at there
    exact timelyKept (inv.ahead t there) (congrFun readied.values _) (by rw [fields]) (by rw [next]; exact UInt32.le_refl _)
  · have out : ¬S t := fun woken => waits (readied.moved t woken).2
    obtain ⟨generic,event⟩ := readied.kept t out
    rw [event] at waits
    unfold Blocked
    rw [generic]
    exact inv.held t waits
  · obtain ⟨p,there⟩ := inv.idle
    by_cases woken : S idle
    · exact ⟨_,(readied.moved idle woken).1⟩
    · exact ⟨p,(readied.kept idle woken).1.trans there⟩
  · by_cases woken : S t
    · exact iff_of_true (live t woken) (readyMade (readied.moved t woken).1)
    · unfold Made
      rw [(readied.kept t woken).1]

theorem elapsedAlike {n : Nat} {k'' : Kernel τ ε} (elapsed : Elapsed n k k') (alike : Alike k' k'')
    (base : k''.uxBasePriority = k'.uxBasePriority)
    (suspended : k''.uxSchedulerSuspended = k'.uxSchedulerSuspended) : Elapsed n k k'' := by
  have places : ∀ i, container i k'' = container i k' := fun i => by unfold container; rw [alike.lists]
  have same : ∀ t, left t k'' = left t k' := fun t => by unfold left wakeTime; rw [alike.lists, alike.tick]
  refine ⟨fun t blocked some_time soon => ?_,fun t blocked later => ?_,fun t free => ?_,steadyTrans elapsed.steady
    ⟨alike.priority,base,alike.current,alike.number,alike.running,suspended⟩,alike.tick.trans elapsed.tick⟩
  · rw [places, places]
    exact elapsed.due t blocked some_time soon
  · unfold Blocked
    rw [places, places, same]
    exact elapsed.still t blocked later
  · rw [places, places]
    exact elapsed.rest t free

theorem elapsedNone (k : Kernel τ ε) : Elapsed 0 k k :=
  ⟨fun _ _ some_time => absurd some_time (lt_irrefl 0),fun _ blocked _ => ⟨blocked,rfl,rfl⟩,fun _ _ => ⟨rfl,rfl⟩,
    ⟨rfl,rfl,rfl,rfl,rfl,rfl⟩,(UInt32.add_zero _).symm⟩

end Keeping

section Resuming
variable {τ ε : Type} [DecidableEq τ] [DecidableEq ε] {idle : τ}

theorem catchUpSound (n : Nat) : ∀ (k : Kernel τ ε) (yields : Bool), Inv idle k → k.uxSchedulerSuspended = 0 →
    ∃ b k', catchUp n yields k = some (b,k') ∧ Inv idle k' ∧ Elapsed n k k' ∧
      k'.uxPendedTicks = k.uxPendedTicks - UInt32.ofNat n := by
  induction n with
  | zero => exact fun k yields inv running => ⟨yields,k,rfl,inv,elapsedNone k,(UInt32.sub_zero _).symm⟩
  | succ n ih =>
    intro k yields inv running
    obtain ⟨switch,k₁,ticked,inv₁,elapsed₁,pended₁⟩ := tickSound inv running
    let k₂ : Kernel τ ε := { k₁ with uxPendedTicks := k₁.uxPendedTicks - 1 }
    have alike : Alike k₁ k₂ := ⟨rfl,rfl,rfl,rfl,rfl,rfl,rfl,rfl,rfl,rfl⟩
    have inv₂ : Inv idle k₂ := invAlike inv₁ alike
    have elapsed₂ : Elapsed 1 k k₂ := elapsedAlike elapsed₁ alike rfl rfl
    obtain ⟨b,k',ran,inv',elapsed',pended'⟩ := ih k₂ (yields || switch) inv₂ (by
      show k₁.uxSchedulerSuspended = 0
      rw [elapsed₁.steady.suspended, running])
    refine ⟨b,k',?_,inv',?_,?_⟩
    · rw [catchUp, ticked]
      exact ran
    · rw [Nat.add_comm n 1]
      exact elapsedTrans elapsed₂ elapsed'
    · rw [pended', show k₂.uxPendedTicks = k₁.uxPendedTicks - 1 from rfl, pended₁, UInt32.ofNat_add]
      grind

/- What xTaskResumeAll does where it ends the suspension -/
theorem resumedSound {k : Kernel τ ε} (inv : Inv idle k) (running : k.uxSchedulerSuspended = 0) :
    ∃ b k₁ k', resumed k = some (b,k') ∧ Inv idle k' ∧ Readied (Pended k) k k₁ ∧ Elapsed k.uxPendedTicks.toNat k₁ k' ∧
      k'.uxPendedTicks = 0 := by
  obtain ⟨r,core⟩ := inv.sound
  have live : ∀ t, Pended k t → Made t k := by
    intro t pended
    rcases inv.held t (by rw [pended]; simp) with blocked | suspended
    · exact blockedMade blocked
    · unfold Made
      rw [suspended]
      simp
  obtain ⟨b,k₁,ran,sound₁,readied,next⟩ := readyPendingSound (listCurrentListLength .xPendingReadyList k.lists + 1) k r false core
    inv.current live (by rw [listCurrentListLength, core.shows.count]; omega)
  have inv₁ := invReadied inv sound₁ readied live next
  have steady := readiedSteady readied
  have same : k₁.uxPendedTicks = k.uxPendedTicks := by
    obtain ⟨_,_,_,fields⟩ := readied.rest
    rw [fields]
  obtain ⟨b',k₂,caught,inv₂,elapsed,pended⟩ := catchUpSound k.uxPendedTicks.toNat k₁ b inv₁ (steady.suspended.trans running)
  have none_left : k₂.uxPendedTicks = 0 := by rw [pended, same, UInt32.ofNat_toNat, UInt32.sub_self]
  unfold resumed
  by_cases yields : (b' || k₂.xYieldPending) = true
  · have alike : Alike k₂ (portYield { k₂ with xYieldPending := false }) := ⟨rfl,rfl,rfl,rfl,rfl,rfl,rfl,rfl,rfl,rfl⟩
    refine ⟨true,k₁,portYield { k₂ with xYieldPending := false },?_,invAlike inv₂ alike,readied,
      elapsedAlike elapsed alike rfl rfl,none_left⟩
    rw [ran]
    simp only [Option.bind_eq_bind, Option.bind_some, same, caught, yields, if_true]
  · refine ⟨false,k₁,k₂,?_,inv₂,readied,elapsed,none_left⟩
    rw [ran]
    simp only [Option.bind_eq_bind, Option.bind_some, same, caught, yields]
    rfl

end Resuming
end YunbaIot.FreeRtosTasks
