import YunbaIot.TaskStart

/-! What the calls write of the kernel besides the lists. -/
namespace YunbaIot.FreeRtosTasks
open FreeRtosList

section Frames
variable {τ ε : Type} {k k' k'' : Kernel τ ε}

/- The lists, and what is kept of them to find the next task -/
def Relisted (k k' : Kernel τ ε) : Prop :=
  ∃ m top next, k' = { k with lists := m, uxTopReadyPriority := top, xNextTaskUnblockTime := next }

theorem relistedSelf (k : Kernel τ ε) : Relisted k k := ⟨_,_,_,rfl⟩

theorem relistedTrans (first : Relisted k k') (second : Relisted k' k'') : Relisted k k'' := by
  obtain ⟨_,_,_,rfl⟩ := first
  obtain ⟨m,top,next,rfl⟩ := second
  exact ⟨m,top,next,rfl⟩

theorem relistedSuspended (relisted : Relisted k k') : k'.uxSchedulerSuspended = k.uxSchedulerSuspended := by
  obtain ⟨_,_,_,rfl⟩ := relisted
  rfl

end Frames

section Calls
variable {τ ε : Type} [DecidableEq τ] [DecidableEq ε] {k k' : Kernel τ ε}

theorem leaveRelisted {i : Item τ} (done : leaveList i k = some k') : Relisted k k' := by
  obtain ⟨removed,_,rfl⟩ := Option.map_eq_some_iff.mp done
  exact ⟨_,_,_,rfl⟩

theorem leaveEventRelisted {t : τ} (done : leaveEvent t k = some k') : Relisted k k' := by
  unfold leaveEvent at done
  split at done
  · cases done
    exact relistedSelf k
  · exact leaveRelisted done

theorem enterSortedRelisted {l : ListName ε} {i : Item τ} (done : enterSorted l i k = some k') : Relisted k k' := by
  obtain ⟨lists,_,rfl⟩ := Option.map_eq_some_iff.mp done
  exact ⟨_,_,_,rfl⟩

theorem readyRelisted (t : τ) (k : Kernel τ ε) : Relisted k (prvAddTaskToReadyList t k) := by
  unfold prvAddTaskToReadyList taskRecordReadyPriority enterEnd
  split <;> exact ⟨_,_,_,rfl⟩

theorem addDelayedRelisted {wake : UInt32} (done : prvAddCurrentTaskToDelayedList wake k = some k') : Relisted k k' := by
  obtain ⟨t,_,done⟩ := Option.bind_eq_some_iff.mp done
  have timed : Relisted k (setItemValue (.xGenericListItem t) wake k) := ⟨_,_,_,rfl⟩
  refine relistedTrans timed ?_
  dsimp only at done
  split at done
  · exact enterSortedRelisted done
  · obtain ⟨k₁,entered,done⟩ := Option.bind_eq_some_iff.mp done
    refine relistedTrans (enterSortedRelisted entered) ?_
    cases done
    split <;> exact ⟨_,_,_,rfl⟩

theorem blockRelisted {wake : UInt32} (done : blockUntil wake k = some k') : Relisted k k' := by
  obtain ⟨t,_,done⟩ := Option.bind_eq_some_iff.mp done
  obtain ⟨k₁,gone,done⟩ := Option.bind_eq_some_iff.mp done
  exact relistedTrans (leaveRelisted gone) (addDelayedRelisted done)

theorem delayUntilRelisted {previous increment wake : UInt32} (done : delayUntilSection previous increment k = some (wake,k')) :
    Relisted k k' := by
  unfold delayUntilSection at done
  dsimp only at done
  split at done
  · obtain ⟨k₁,blocked,same⟩ := Option.map_eq_some_iff.mp done
    obtain ⟨_,rfl⟩ := Prod.mk.inj same
    exact blockRelisted blocked
  · cases done
    exact relistedSelf k

theorem placeRelisted {e : ε} {n : UInt32} (done : vTaskPlaceOnEventList e n k = some k') : Relisted k k' := by
  obtain ⟨t,_,done⟩ := Option.bind_eq_some_iff.mp done
  obtain ⟨k₁,entered,done⟩ := Option.bind_eq_some_iff.mp done
  obtain ⟨k₂,gone,done⟩ := Option.bind_eq_some_iff.mp done
  refine relistedTrans (enterSortedRelisted entered) (relistedTrans (leaveRelisted gone) ?_)
  split at done
  · cases done
    exact ⟨_,_,_,rfl⟩
  · exact addDelayedRelisted done

theorem placeRestrictedRelisted {e : ε} {n : UInt32} (done : vTaskPlaceOnEventListRestricted e n k = some k') :
    Relisted k k' := by
  obtain ⟨t,_,done⟩ := Option.bind_eq_some_iff.mp done
  obtain ⟨k₁,gone,done⟩ := Option.bind_eq_some_iff.mp done
  have posted : Relisted k (enterEnd (.pxEventList e) (.xEventListItem t) k) := ⟨_,_,_,rfl⟩
  exact relistedTrans posted (relistedTrans (leaveRelisted gone) (addDelayedRelisted done))

theorem readyOrPendRelisted {t : τ} (done : readyOrPend t k = some k') : Relisted k k' := by
  unfold readyOrPend at done
  split at done
  · obtain ⟨k₁,gone,rfl⟩ := Option.map_eq_some_iff.mp done
    exact relistedTrans (leaveRelisted gone) (readyRelisted t k₁)
  · cases done
    exact ⟨_,_,_,rfl⟩

/- With whether the task that is woken may run now -/
theorem removeEventRelisted {e : ε} {b : Bool} (done : xTaskRemoveFromEventList e k = some (b,k')) : ∃ t k₁,
    headTask (.pxEventList e) k = some t ∧ leaveList (.xEventListItem t) k = some k₁ ∧ readyOrPend t k₁ = some k' ∧
      Relisted k k' ∧ ∀ c, k.pxCurrentTCB = some c → b = decide (k.uxPriority t ≥ k.uxPriority c) := by
  obtain ⟨t,head,done⟩ := Option.bind_eq_some_iff.mp done
  obtain ⟨k₁,gone,done⟩ := Option.bind_eq_some_iff.mp done
  obtain ⟨k₂,readied,done⟩ := Option.bind_eq_some_iff.mp done
  obtain ⟨p,seen,done⟩ := Option.bind_eq_some_iff.mp done
  obtain ⟨rfl,rfl⟩ := Prod.mk.inj (Option.some.inj done)
  have relisted := relistedTrans (leaveRelisted gone) (readyOrPendRelisted readied)
  refine ⟨t,k₁,head,gone,readied,relisted,fun c current => ?_⟩
  obtain ⟨m,top,next,rfl⟩ := relisted
  rw [currentPriority, current] at seen
  cases seen
  rfl

theorem parkRelisted {t : τ} {k₁ k₂ : Kernel τ ε} (gone : leaveList (.xGenericListItem t) k = some k₁)
    (gone' : leaveEvent t k₁ = some k₂) (l : ListName ε) : Relisted k (enterEnd l (.xGenericListItem t) k₂) := by
  obtain ⟨m,top,next,rfl⟩ := relistedTrans (leaveRelisted gone) (leaveEventRelisted gone')
  exact ⟨_,_,_,rfl⟩

theorem suspendRelisted {h : Option τ} {t : τ} (done : suspendSection h k = some (t,k')) : ∃ k₁ k₂,
    prvGetTCBFromHandle h k = some t ∧ leaveList (.xGenericListItem t) k = some k₁ ∧ leaveEvent t k₁ = some k₂ ∧
      k' = enterEnd .xSuspendedTaskList (.xGenericListItem t) k₂ ∧ Relisted k k' := by
  obtain ⟨t,handle,done⟩ := Option.bind_eq_some_iff.mp done
  obtain ⟨k₁,gone,done⟩ := Option.bind_eq_some_iff.mp done
  obtain ⟨k₂,gone',done⟩ := Option.bind_eq_some_iff.mp done
  obtain ⟨rfl,rfl⟩ := Prod.mk.inj (Option.some.inj done)
  exact ⟨k₁,k₂,handle,gone,gone',rfl,parkRelisted gone gone' .xSuspendedTaskList⟩

theorem deleteRelisted {h : Option τ} {t : τ} (done : deleteSection h k = some (t,k')) : ∃ k₁ k₂ k₃,
    prvGetTCBFromHandle h k = some t ∧ leaveList (.xGenericListItem t) k = some k₁ ∧ leaveEvent t k₁ = some k₂ ∧
      k₃ = enterEnd .xTasksWaitingTermination (.xGenericListItem t) k₂ ∧ Relisted k k₃ ∧
        k' = { k₃ with uxTasksDeleted := k₃.uxTasksDeleted + 1 } := by
  obtain ⟨t,handle,done⟩ := Option.bind_eq_some_iff.mp done
  obtain ⟨k₁,gone,done⟩ := Option.bind_eq_some_iff.mp done
  obtain ⟨k₂,gone',done⟩ := Option.bind_eq_some_iff.mp done
  obtain ⟨rfl,rfl⟩ := Prod.mk.inj (Option.some.inj done)
  exact ⟨k₁,k₂,_,handle,gone,gone',rfl,parkRelisted gone gone' .xTasksWaitingTermination,rfl⟩

theorem resumeRelisted {t : τ} (done : vTaskResume t k = some k') : k' = k ∨ k.pxCurrentTCB ≠ some t ∧ ∃ k₁,
    leaveList (.xGenericListItem t) k = some k₁ ∧ Relisted k (prvAddTaskToReadyList t k₁) ∧
      ∃ b, k' = yieldIf b (prvAddTaskToReadyList t k₁) ∧
        ∀ c, k.pxCurrentTCB = some c → b = decide (k.uxPriority t ≥ k.uxPriority c) := by
  unfold vTaskResume at done
  split at done
  · cases done
    exact Or.inl rfl
  · rename_i other
    split at done
    · obtain ⟨k₁,gone,done⟩ := Option.bind_eq_some_iff.mp done
      obtain ⟨p,seen,done⟩ := Option.bind_eq_some_iff.mp done
      cases done
      have relisted := relistedTrans (leaveRelisted gone) (readyRelisted t k₁)
      refine Or.inr ⟨other,k₁,gone,relisted,_,rfl,fun c current => ?_⟩
      obtain ⟨m,top,next,same⟩ := relisted
      rw [currentPriority, same, current] at seen
      cases seen
      rw [same]
    · cases done
      exact Or.inl rfl

theorem resumeFromISRRelisted {t : τ} {b : Bool} (done : xTaskResumeFromISR t k = some (b,k')) : b = false ∧ k' = k ∨
    readyOrPend t k = some k' ∧ Relisted k k' ∧ ∀ c, k.pxCurrentTCB = some c →
      b = (decide (k.uxPriority t ≥ k.uxPriority c) && decide (k.uxSchedulerSuspended = 0)) := by
  unfold xTaskResumeFromISR at done
  split at done
  · obtain ⟨p,seen,done⟩ := Option.bind_eq_some_iff.mp done
    obtain ⟨k₁,readied,done⟩ := Option.bind_eq_some_iff.mp done
    obtain ⟨rfl,rfl⟩ := Prod.mk.inj (Option.some.inj done)
    refine Or.inr ⟨readied,readyOrPendRelisted readied,fun c current => ?_⟩
    rw [currentPriority, current] at seen
    cases seen
    rfl
  · cases done
    exact Or.inl ⟨rfl,rfl⟩

theorem freeRelisted (done : freeDeleted k = some k') : ∃ t k₁, headTask .xTasksWaitingTermination k = some t ∧
    leaveList (.xGenericListItem t) k = some k₁ ∧ Relisted k k₁ ∧ k' = { k₁ with
      uxCurrentNumberOfTasks := k₁.uxCurrentNumberOfTasks - 1, uxTasksDeleted := k₁.uxTasksDeleted - 1 } := by
  obtain ⟨t,head,done⟩ := Option.bind_eq_some_iff.mp done
  obtain ⟨k₁,gone,done⟩ := Option.bind_eq_some_iff.mp done
  cases done
  exact ⟨t,k₁,head,gone,leaveRelisted gone,rfl⟩

/- A task of another priority, on the ready list of that priority if it was on one -/
theorem reprioritiseRelisted {t : τ} {p : Priority} (done : reprioritise t p k = some k') : Relisted (setPriority t p k) k' := by
  unfold reprioritise at done
  split at done
  · obtain ⟨k₁,gone,rfl⟩ := Option.map_eq_some_iff.mp done
    have relisted : Relisted (setPriority t p k) (setPriority t p k₁) := by
      obtain ⟨m,top,next,rfl⟩ := leaveRelisted gone
      exact ⟨_,_,_,rfl⟩
    exact relistedTrans relisted (readyRelisted t _)
  · cases done
    exact relistedSelf _

theorem switchRelisted (done : vTaskSwitchContext k = some k') : ∃ k₁, Relisted k k₁ ∧
    (k.uxSchedulerSuspended ≠ 0 ∧ k' = { k₁ with xYieldPending := true } ∨ ∃ t, k' = { k₁ with pxCurrentTCB := some t }) := by
  unfold vTaskSwitchContext at done
  split at done <;> rename_i suspended
  · cases done
    exact ⟨k,relistedSelf k,Or.inl ⟨suspended,rfl⟩⟩
  · obtain ⟨p,_,done⟩ := Option.bind_eq_some_iff.mp done
    obtain ⟨t,_,done⟩ := Option.bind_eq_some_iff.mp done
    cases done
    exact ⟨{ k with uxTopReadyPriority := p, lists := _ },⟨_,_,_,rfl⟩,Or.inr ⟨t,rfl⟩⟩

theorem unblockRelisted {tick : UInt32} (n : Nat) : ∀ {k : Kernel τ ε} {b b' : Bool} {k' : Kernel τ ε},
    unblock tick n b k = some (b',k') → Relisted k k' := by
  induction n with
  | zero =>
    intro k b b' k' done
    cases done
  | succ n ih =>
    intro k b b' k' done
    unfold unblock at done
    split at done
    · cases done
      exact ⟨_,_,_,rfl⟩
    · obtain ⟨t,_,done⟩ := Option.bind_eq_some_iff.mp done
      dsimp only at done
      split at done
      · cases done
        exact ⟨_,_,_,rfl⟩
      · obtain ⟨k₁,gone,done⟩ := Option.bind_eq_some_iff.mp done
        obtain ⟨k₂,gone',done⟩ := Option.bind_eq_some_iff.mp done
        obtain ⟨current,_,done⟩ := Option.bind_eq_some_iff.mp done
        exact relistedTrans (leaveRelisted gone)
          (relistedTrans (leaveEventRelisted gone') (relistedTrans (readyRelisted t k₂) (ih done)))

theorem expireRelisted {b : Bool} (done : expire k = some (b,k')) : Relisted k k' := by
  unfold expire at done
  split at done
  · exact unblockRelisted _ done
  · cases done
    exact relistedSelf k

theorem readyPendingRelisted (n : Nat) : ∀ {k : Kernel τ ε} {b b' : Bool} {k' : Kernel τ ε},
    readyPending n b k = some (b',k') → Relisted k k' := by
  induction n with
  | zero =>
    intro k b b' k' done
    cases done
  | succ n ih =>
    intro k b b' k' done
    unfold readyPending at done
    split at done
    · cases done
      exact relistedSelf k
    · obtain ⟨t,_,done⟩ := Option.bind_eq_some_iff.mp done
      obtain ⟨k₁,gone,done⟩ := Option.bind_eq_some_iff.mp done
      obtain ⟨k₂,gone',done⟩ := Option.bind_eq_some_iff.mp done
      obtain ⟨current,_,done⟩ := Option.bind_eq_some_iff.mp done
      exact relistedTrans (leaveRelisted gone)
        (relistedTrans (leaveRelisted gone') (relistedTrans (readyRelisted t k₂) (ih done)))

end Calls

section Whole
variable {τ ε : Type} [DecidableEq τ] [DecidableEq ε] {idle timer t : τ} {k k' : Kernel τ ε}

/-! A function that has several calls in a run is made of them, and a run may have it as a whole. -/

theorem yieldReach (reach : Reach idle timer k) (b : Bool) : Reach idle timer (yieldIf b k) := by
  cases b with
  | false => exact reach
  | true => exact .step (c := .portYield) reach trivial rfl

theorem resumeAndYieldReach (reach : Reach idle timer k) (suspended : k.uxSchedulerSuspended ≠ 0)
    (done : resumeAndYield k = some k') : Reach idle timer k' := by
  obtain ⟨⟨b,k₁⟩,resumed,done⟩ := Option.bind_eq_some_iff.mp done
  cases done
  exact yieldReach (.step (c := .xTaskResumeAll) reach suspended (by rw [perform, resumed]; rfl)) _

theorem suspendAllReach (reach : Reach idle timer k) (room : k.uxSchedulerSuspended ≠ 0xffffffff) :
    Reach idle timer (vTaskSuspendAll k) ∧ (vTaskSuspendAll k).uxSchedulerSuspended ≠ 0 :=
  ⟨.step (c := .vTaskSuspendAll) reach room rfl,fun zero => room (by
    have : k.uxSchedulerSuspended + 1 = 0 := zero
    grind)⟩

theorem delayReach {n : UInt32} (reach : Reach idle timer k) (runs : Runs idle t k)
    (room : k.uxSchedulerSuspended ≠ 0xffffffff) (done : vTaskDelay n k = some k') : Reach idle timer k' := by
  unfold vTaskDelay at done
  split at done <;> rename_i some_time
  · obtain ⟨k₁,blocked,done⟩ := Option.bind_eq_some_iff.mp done
    obtain ⟨reach₁,suspended⟩ := suspendAllReach reach room
    have allowed : Allowed idle (vTaskSuspendAll k) (.delaySection n) :=
      ⟨by rintro rfl; exact absurd some_time (by decide),t,runs.current,runs.ready,runs.busy⟩
    refine resumeAndYieldReach (.step reach₁ allowed blocked) ?_ done
    rw [relistedSuspended (blockRelisted blocked)]
    exact suspended
  · cases done
    exact yieldReach reach true

theorem delayUntilReach {previous increment wake : UInt32} (reach : Reach idle timer k) (runs : Runs idle t k)
    (room : k.uxSchedulerSuspended ≠ 0xffffffff) (done : vTaskDelayUntil previous increment k = some (wake,k')) :
    Reach idle timer k' := by
  obtain ⟨⟨w,k₁⟩,blocked,done⟩ := Option.bind_eq_some_iff.mp done
  obtain ⟨k₂,resumed,done⟩ := Option.bind_eq_some_iff.mp done
  obtain ⟨_,rfl⟩ := Prod.mk.inj (Option.some.inj done)
  obtain ⟨reach₁,suspended⟩ := suspendAllReach reach room
  have allowed : Allowed idle (vTaskSuspendAll k) (.delayUntilSection previous increment) :=
    ⟨t,runs.current,runs.ready,runs.busy⟩
  refine resumeAndYieldReach (.step reach₁ allowed (by rw [perform, blocked]; rfl)) ?_ resumed
  rw [relistedSuspended (delayUntilRelisted blocked)]
  exact suspended

/- The scheduler runs, so that a yield is all that follows. -/
theorem suspendReach {h : Option τ} (reach : Reach idle timer k) (names : Names idle k h) (done : vTaskSuspend h k = some k') :
    Reach idle timer k' := by
  obtain ⟨⟨s,k₁⟩,parked,done⟩ := Option.bind_eq_some_iff.mp done
  have reach₁ : Reach idle timer k₁ := .step (c := .suspendSection h) reach names (by rw [perform, parked]; rfl)
  dsimp only at done
  rw [if_pos (reachSound reach₁).running] at done
  split at done <;> cases done
  · exact reach₁
  · exact yieldReach reach₁ true

theorem deleteReach {h : Option τ} (reach : Reach idle timer k) (names : Names idle k h) (done : vTaskDelete h k = some k') :
    Reach idle timer k' := by
  obtain ⟨⟨s,k₁⟩,parked,done⟩ := Option.bind_eq_some_iff.mp done
  cases done
  exact yieldReach (.step (c := .deleteSection h) reach names (by rw [perform, parked]; rfl)) _

theorem createReach {u : UInt32} (reach : Reach idle timer k) (fresh : Fresh t k)
    (room : k.uxCurrentNumberOfTasks ≠ 0xffffffff) : Reach idle timer (xTaskGenericCreate t u k) :=
  yieldReach (.step (c := .createSection t u) reach ⟨fresh,room⟩ rfl) _

end Whole
end YunbaIot.FreeRtosTasks
