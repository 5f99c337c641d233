import YunbaIot.TaskFrames

/-! The ticks of a run: the tick count, the overflows and the ticks that are held back while the scheduler is suspended. -/
namespace YunbaIot.FreeRtosTasks
open FreeRtosList

section Clocks
variable {τ ε : Type} {k k' k'' : Kernel τ ε}

/- Calls that have nothing to do with time -/
structure SameClock (k k' : Kernel τ ε) : Prop where
  tick : k'.xTickCount = k.xTickCount
  overflows : k'.xNumOfOverflows = k.xNumOfOverflows
  pended : k'.uxPendedTicks = k.uxPendedTicks
  suspended : k'.uxSchedulerSuspended = k.uxSchedulerSuspended

theorem sameClockTrans (first : SameClock k k') (second : SameClock k' k'') : SameClock k k'' :=
  ⟨second.tick.trans first.tick,second.overflows.trans first.overflows,second.pended.trans first.pended,
    second.suspended.trans first.suspended⟩

theorem relistedClock (relisted : Relisted k k') : SameClock k k' := by
  obtain ⟨m,top,next,rfl⟩ := relisted
  exact ⟨rfl,rfl,rfl,rfl⟩

theorem yieldClock (b : Bool) (k : Kernel τ ε) : SameClock k (yieldIf b k) := by
  unfold yieldIf portYield
  split <;> exact ⟨rfl,rfl,rfl,rfl⟩

/- The ticks so far, as the two counters have them -/
def clock (k : Kernel τ ε) : Nat := k.xNumOfOverflows.toNat * 2 ^ 32 + k.xTickCount.toNat

/- n ticks have passed, of which i come from interrupts or are stepped over now and the others are from those held back. -/
structure Clocked (i n : Nat) (k k' : Kernel τ ε) : Prop where
  clock : clock k' = (clock k + n) % 2 ^ 64
  kept : k'.xTickCount + k'.uxPendedTicks = k.xTickCount + k.uxPendedTicks + UInt32.ofNat i

theorem clockBound (k : Kernel τ ε) : clock k < 2 ^ 64 := by
  have := k.xNumOfOverflows.toNat_lt
  have := k.xTickCount.toNat_lt
  unfold clock
  omega

theorem sameClocked (same : SameClock k k') : Clocked 0 0 k k' := by
  have bound := clockBound k
  refine ⟨?_,?_⟩
  · rw [Nat.add_zero, Nat.mod_eq_of_lt bound]
    unfold clock
    rw [same.tick, same.overflows]
  · rw [same.tick, same.pended]
    exact (UInt32.add_zero _).symm

theorem clockedTrans {i j n m : Nat} (first : Clocked i n k k') (second : Clocked j m k' k'') :
    Clocked (i + j) (n + m) k k'' := by
  refine ⟨?_,?_⟩
  · rw [second.clock, first.clock, Nat.mod_add_mod, Nat.add_assoc]
  · rw [second.kept, first.kept, UInt32.add_assoc, UInt32.ofNat_add]

/- The overflows are counted when the tick count is back at 0. -/
theorem advanceClocked (done : advance k = some k') : Clocked 1 1 k k' ∧ k'.uxPendedTicks = k.uxPendedTicks ∧
    k'.uxSchedulerSuspended = k.uxSchedulerSuspended := by
  have on := tickOn k.xTickCount
  have bound := clockBound k
  have low := k.xTickCount.toNat_lt
  unfold advance at done
  dsimp only at done
  split at done
  · rename_i wraps
    have last : k.xTickCount.toNat + 1 = 2 ^ 32 := by
      rw [wraps, UInt32.toNat_zero] at on
      split at on <;> omega
    have beyond : ∃ next, k' = { k with
        xTickCount := k.xTickCount + 1, pxDelayedTaskList := k.pxOverflowDelayedTaskList
        pxOverflowDelayedTaskList := k.pxDelayedTaskList, xNumOfOverflows := k.xNumOfOverflows + 1
        xNextTaskUnblockTime := next } := by
      unfold taskSwitchDelayedLists at done
      dsimp only at done
      split at done
      · cases done
        exact ⟨_,rfl⟩
      · obtain ⟨t,_,rfl⟩ := Option.map_eq_some_iff.mp done
        exact ⟨_,rfl⟩
    obtain ⟨next,rfl⟩ := beyond
    refine ⟨⟨?_,?_⟩,rfl,rfl⟩
    · unfold clock at bound ⊢
      simp only [wraps, UInt32.toNat_zero, UInt32.toNat_add, UInt32.reduceToNat]
      omega
    · grind
  · rename_i stays
    cases done
    refine ⟨⟨?_,?_⟩,rfl,rfl⟩
    · have next : (k.xTickCount + 1).toNat = k.xTickCount.toNat + 1 := by
        split at on
        · exact absurd (UInt32.toNat_inj.mp on) stays
        · exact on
      unfold clock at bound ⊢
      simp only [next]
      have := k.xNumOfOverflows.toNat_lt
      have := (k.xTickCount + 1).toNat_lt
      omega
    · grind

/- A step stays below xNextTaskUnblockTime, so that the counter does not pass 0. -/
theorem stepClocked {n : UInt32} (within : k.xTickCount.toNat + n.toNat ≤ k.xNextTaskUnblockTime.toNat) :
    Clocked n.toNat n.toNat k (vTaskStepTick n k) := by
  have bound := clockBound (vTaskStepTick n k)
  have high := k.xNextTaskUnblockTime.toNat_lt
  refine ⟨?_,?_⟩
  · unfold clock vTaskStepTick at bound ⊢
    simp only [UInt32.toNat_add] at bound ⊢
    omega
  · rw [UInt32.ofNat_toNat]
    change k.xTickCount + n + k.uxPendedTicks = k.xTickCount + k.uxPendedTicks + n
    grind

end Clocks

section Frames
variable {τ ε : Type} [DecidableEq τ] [DecidableEq ε] {k k' : Kernel τ ε}

theorem tickClocked {b : Bool} (awake : k.uxSchedulerSuspended = 0) (done : xTaskIncrementTick k = some (b,k')) :
    Clocked 1 1 k k' ∧ k'.uxPendedTicks = k.uxPendedTicks ∧ k'.uxSchedulerSuspended = 0 := by
  unfold xTaskIncrementTick at done
  rw [if_pos awake] at done
  obtain ⟨k₁,advanced,done⟩ := Option.bind_eq_some_iff.mp done
  obtain ⟨⟨b₁,k₂⟩,expired,done⟩ := Option.bind_eq_some_iff.mp done
  obtain ⟨current,_,done⟩ := Option.bind_eq_some_iff.mp done
  obtain ⟨_,rfl⟩ := Prod.mk.inj (Option.some.inj done)
  obtain ⟨clocked,pended,suspended⟩ := advanceClocked advanced
  have same := relistedClock (expireRelisted expired)
  exact ⟨clockedTrans clocked (sameClocked same),same.pended.trans pended,same.suspended.trans (suspended.trans awake)⟩

/- The ticks held back are made up for one by one. -/
theorem catchUpClocked (n : Nat) : ∀ {k : Kernel τ ε} {b b' : Bool} {k' : Kernel τ ε}, k.uxSchedulerSuspended = 0 →
    catchUp n b k = some (b',k') → Clocked 0 n k k' := by
  induction n with
  | zero =>
    intro k b b' k' _ done
    cases done
    exact sameClocked ⟨rfl,rfl,rfl,rfl⟩
  | succ n ih =>
    intro k b b' k' awake done
    obtain ⟨⟨b₁,k₁⟩,ticked,done⟩ := Option.bind_eq_some_iff.mp done
    obtain ⟨⟨time,kept⟩,pended,awake₁⟩ := tickClocked awake ticked
    have back : Clocked 0 1 k { k₁ with uxPendedTicks := k₁.uxPendedTicks - 1 } := by
      refine ⟨time,?_⟩
      simp only [pended] at kept ⊢
      grind
    have rest := clockedTrans back (ih awake₁ done)
    rwa [Nat.add_comm 1 n] at rest

theorem resumedClocked {b : Bool} (awake : k.uxSchedulerSuspended = 0) (done : resumed k = some (b,k')) :
    Clocked 0 k.uxPendedTicks.toNat k k' := by
  obtain ⟨⟨b₁,k₁⟩,readied,done⟩ := Option.bind_eq_some_iff.mp done
  obtain ⟨⟨b₂,k₂⟩,caught,done⟩ := Option.bind_eq_some_iff.mp done
  have first := relistedClock (readyPendingRelisted _ readied)
  rw [first.pended] at caught
  have whole := clockedTrans (sameClocked first) (catchUpClocked _ (first.suspended.trans awake) caught)
  rw [Nat.zero_add, Nat.zero_add] at whole
  change ite (b₂ || k₂.xYieldPending) _ _ = _ at done
  split at done <;> cases done
  · exact ⟨whole.clock,whole.kept⟩
  · exact whole

theorem reprioritiseClock {t : τ} {p : Priority} (done : reprioritise t p k = some k') : SameClock k k' := by
  have first := relistedClock (reprioritiseRelisted done)
  exact ⟨first.tick,first.overflows,first.pended,first.suspended⟩

theorem switchClock (done : vTaskSwitchContext k = some k') : SameClock k k' := by
  obtain ⟨k₁,relisted,⟨_,rfl⟩ | ⟨t,rfl⟩⟩ := switchRelisted done
  all_goals
    have first := relistedClock relisted
    exact ⟨first.tick,first.overflows,first.pended,first.suspended⟩

theorem prioritySetClock {h : Option τ} {u : UInt32} (done : vTaskPrioritySet h u k = some k') : SameClock k k' := by
  obtain ⟨t,_,done⟩ := Option.bind_eq_some_iff.mp done
  dsimp only at done
  split at done
  · cases done
    exact ⟨rfl,rfl,rfl,rfl⟩
  · obtain ⟨current,_,done⟩ := Option.bind_eq_some_iff.mp done
    obtain ⟨k₁,changed,done⟩ := Option.bind_eq_some_iff.mp done
    have first := reprioritiseClock changed
    cases done
    have kept : SameClock k k₁ := ⟨first.tick,first.overflows,first.pended,first.suspended⟩
    exact sameClockTrans kept (yieldClock _ _)

theorem inheritClock {h : Option τ} (done : vTaskPriorityInherit h k = some k') : SameClock k k' := by
  unfold vTaskPriorityInherit at done
  split at done
  · cases done
    exact ⟨rfl,rfl,rfl,rfl⟩
  · obtain ⟨current,_,done⟩ := Option.bind_eq_some_iff.mp done
    split at done
    · have first := reprioritiseClock done
      exact ⟨first.tick,first.overflows,first.pended,first.suspended⟩
    · cases done
      exact ⟨rfl,rfl,rfl,rfl⟩

theorem disinheritClock {h : Option τ} (done : vTaskPriorityDisinherit h k = some k') : SameClock k k' := by
  unfold vTaskPriorityDisinherit at done
  split at done
  · cases done
    exact ⟨rfl,rfl,rfl,rfl⟩
  · split at done
    · cases done
      exact ⟨rfl,rfl,rfl,rfl⟩
    · obtain ⟨k₁,gone,rfl⟩ := Option.map_eq_some_iff.mp done
      have first := relistedClock (leaveRelisted gone)
      refine sameClockTrans ⟨?_,?_,?_,?_⟩ (relistedClock (readyRelisted _ _))
      exacts [first.tick,first.overflows,first.pended,first.suspended]

theorem enterClock (t : τ) (u : UInt32) (k : Kernel τ ε) : SameClock k (createSection t u k) := by
  have chosen : ∀ k : Kernel τ ε, SameClock k (chooseCurrent t u k) := by
    intro k
    unfold chooseCurrent prvInitialiseTaskLists
    split
    · dsimp only
      split <;> exact ⟨rfl,rfl,rfl,rfl⟩
    · split <;> exact ⟨rfl,rfl,rfl,rfl⟩
  unfold createSection
  refine sameClockTrans (sameClockTrans ?_ (chosen _)) (relistedClock (readyRelisted t _))
  exact ⟨rfl,rfl,rfl,rfl⟩

theorem createClock (t : τ) (u : UInt32) (k : Kernel τ ε) : SameClock k (xTaskGenericCreate t u k) :=
  sameClockTrans (enterClock t u k) (yieldClock _ _)

/- The ticks that arrive with a call, by an interrupt or by a step over those that had none -/
def arrivals : Call τ ε → Nat
  | .xPortSysTickHandle => 1
  | .vTaskStepTick n => n.toNat
  | _ => 0

/- The calls that neither move the tick count nor have to do with the suspension of the scheduler -/
def Plain : Call τ ε → Prop
  | .xPortSysTickHandle | .vTaskStepTick _ | .vTaskSuspendAll | .xTaskResumeAll => False
  | _ => True

theorem plainClock {c : Call τ ε} (done : perform k c = some k')
    (plain : Plain c) :
    SameClock k k' := by
  cases c with
  | delaySection n => exact relistedClock (blockRelisted done)
  | delayUntilSection previous increment =>
    obtain ⟨⟨wake,k₁⟩,ran,rfl⟩ := Option.map_eq_some_iff.mp done
    exact relistedClock (delayUntilRelisted ran)
  | vTaskPlaceOnEventList e n => exact relistedClock (placeRelisted done)
  | vTaskPlaceOnEventListRestricted e n => exact relistedClock (placeRestrictedRelisted done)
  | xTaskRemoveFromEventList e =>
    obtain ⟨⟨b,k₁⟩,ran,rfl⟩ := Option.map_eq_some_iff.mp done
    obtain ⟨_,_,_,_,_,relisted,_⟩ := removeEventRelisted ran
    exact relistedClock relisted
  | suspendSection h =>
    obtain ⟨⟨t,k₁⟩,ran,rfl⟩ := Option.map_eq_some_iff.mp done
    obtain ⟨_,_,_,_,_,_,relisted⟩ := suspendRelisted ran
    exact relistedClock relisted
  | deleteSection h =>
    obtain ⟨⟨t,k₁⟩,ran,rfl⟩ := Option.map_eq_some_iff.mp done
    obtain ⟨_,_,_,_,_,_,_,relisted,rfl⟩ := deleteRelisted ran
    have first := relistedClock relisted
    exact ⟨first.tick,first.overflows,first.pended,first.suspended⟩
  | vTaskResume t =>
    obtain rfl | ⟨_,_,_,relisted,_,rfl,_⟩ := resumeRelisted done
    · exact ⟨rfl,rfl,rfl,rfl⟩
    · exact sameClockTrans (relistedClock relisted) (yieldClock _ _)
  | xTaskResumeFromISR t =>
    obtain ⟨⟨b,k₁⟩,ran,rfl⟩ := Option.map_eq_some_iff.mp done
    obtain ⟨_,rfl⟩ | ⟨_,relisted,_⟩ := resumeFromISRRelisted ran
    · exact ⟨rfl,rfl,rfl,rfl⟩
    · exact relistedClock relisted
  | vTaskPrioritySet h u => exact prioritySetClock done
  | vTaskPriorityInherit h => exact inheritClock done
  | vTaskPriorityDisinherit h => exact disinheritClock done
  | createSection t u =>
    cases done
    exact enterClock t u k
  | freeDeleted =>
    obtain ⟨_,_,_,_,relisted,rfl⟩ := freeRelisted done
    have first := relistedClock relisted
    exact ⟨first.tick,first.overflows,first.pended,first.suspended⟩
  | vTaskMissedYield | portYield =>
    cases done
    exact ⟨rfl,rfl,rfl,rfl⟩
  | SoftIsrHdl =>
    unfold perform SoftIsrHdl at done
    dsimp only at done
    split at done
    · obtain ⟨k₁,switched,rfl⟩ := Option.map_eq_some_iff.mp done
      have first := switchClock switched
      exact ⟨first.tick,first.overflows,first.pended,first.suspended⟩
    · cases done
      exact ⟨rfl,rfl,rfl,rfl⟩
  | xPortSysTickHandle | vTaskStepTick | vTaskSuspendAll | xTaskResumeAll => exact plain.elim

theorem resumeAllClocked {b : Bool} (someone : k.uxCurrentNumberOfTasks > 0) (done : xTaskResumeAll k = some (b,k')) :
    Clocked 0 (if k.uxSchedulerSuspended = 1 then k.uxPendedTicks.toNat else 0) k k' := by
  unfold xTaskResumeAll at done
  dsimp only at done
  by_cases last : k.uxSchedulerSuspended = 1
  · have zero := (lastSuspension _).mpr last
    rw [if_pos ⟨zero,someone⟩] at done
    have made := resumedClocked zero done
    rw [if_pos last]
    exact ⟨made.clock,made.kept⟩
  · rw [if_neg fun both => last ((lastSuspension _).mp both.1)] at done
    cases done
    rw [if_neg last]
    have still := sameClocked (k := k) ⟨rfl,rfl,rfl,rfl⟩
    exact ⟨still.clock,still.kept⟩

/- The end of the interrupt -/
theorem tickSwitched {b : Bool} (done : (if b = true then vTaskSwitchContext k else some k) = some k') : SameClock k k' := by
  split at done
  · exact switchClock done
  · cases done
    exact ⟨rfl,rfl,rfl,rfl⟩

theorem callClocked {idle : τ} {c : Call τ ε} (inv : Inv idle k) (allowed : Allowed idle k c) (done : perform k c = some k') :
    Clocked (arrivals c) (ticksOf k c + jumpOf c) k k' := by
  cases c with
  | vTaskSuspendAll =>
    cases done
    have still := sameClocked (k := k) ⟨rfl,rfl,rfl,rfl⟩
    exact ⟨still.clock,still.kept⟩
  | xTaskResumeAll =>
    obtain ⟨⟨b,k₁⟩,ran,rfl⟩ := Option.map_eq_some_iff.mp done
    exact resumeAllClocked (someTask inv) ran
  | vTaskStepTick n =>
    cases done
    show Clocked n.toNat (0 + n.toNat) k (vTaskStepTick n k)
    rw [Nat.zero_add]
    exact stepClocked allowed.1
  | xPortSysTickHandle =>
    obtain ⟨⟨b,k₁⟩,ticked,done⟩ := Option.bind_eq_some_iff.mp done
    have switched := tickSwitched done
    by_cases awake : k.uxSchedulerSuspended = 0
    · have made := clockedTrans (tickClocked awake ticked).1 (sameClocked switched)
      rw [ticksOf, if_pos awake]
      exact made
    · rw [xTaskIncrementTick, if_neg awake] at ticked
      obtain ⟨_,rfl⟩ := Prod.mk.inj (Option.some.inj ticked)
      rw [ticksOf, if_neg awake]
      have held := sameClocked switched
      refine ⟨held.clock,held.kept.trans ?_⟩
      change k.xTickCount + (k.uxPendedTicks + 1) + 0 = k.xTickCount + k.uxPendedTicks + 1
      grind
  | _ => exact sameClocked (plainClock done trivial)

end Frames
end YunbaIot.FreeRtosTasks
