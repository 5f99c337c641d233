import YunbaIot.TaskSwitch

/-! Runs of the kernel: calls of the running task and interrupts, in any order. -/
namespace YunbaIot.FreeRtosTasks
open FreeRtosList

/- A function that an interrupt may come into has a call for each of its pieces: its critical section, or what it does while
the scheduler is suspended, and the yield behind it. -/
inductive Call (τ ε : Type) where
  | vTaskSuspendAll
  | xTaskResumeAll
  | delaySection (xTicksToDelay : UInt32)
  | delayUntilSection (pxPreviousWakeTime xTimeIncrement : UInt32)
  | vTaskPlaceOnEventList (pxEventList : ε) (xTicksToWait : UInt32)
  | vTaskPlaceOnEventListRestricted (pxEventList : ε) (xTicksToWait : UInt32)
  | xTaskRemoveFromEventList (pxEventList : ε)
  | vTaskMissedYield
  | suspendSection (xTaskToSuspend : Option τ)
  | vTaskResume (xTaskToResume : τ)
  | xTaskResumeFromISR (xTaskToResume : τ)
  | vTaskPrioritySet (xTask : Option τ) (uxNewPriority : UInt32)
  | vTaskPriorityInherit (pxMutexHolder : Option τ)
  | vTaskPriorityDisinherit (pxMutexHolder : Option τ)
  | createSection (pxNewTCB : τ) (uxPriority : UInt32)
  | deleteSection (xTaskToDelete : Option τ)
  | freeDeleted
  | portYield
  | SoftIsrHdl
  | vTaskStepTick (xTicksToJump : UInt32)
  | xPortSysTickHandle

section Steps
variable {τ ε : Type} [DecidableEq τ] [DecidableEq ε]

def perform (k : Kernel τ ε) : Call τ ε → Option (Kernel τ ε)
  | .vTaskSuspendAll => some (vTaskSuspendAll k)
  | .xTaskResumeAll => (xTaskResumeAll k).map Prod.snd
  | .delaySection n => delaySection n k
  | .delayUntilSection previous increment => (delayUntilSection previous increment k).map Prod.snd
  | .vTaskPlaceOnEventList e n => vTaskPlaceOnEventList e n k
  | .vTaskPlaceOnEventListRestricted e n => vTaskPlaceOnEventListRestricted e n k
  | .xTaskRemoveFromEventList e => (xTaskRemoveFromEventList e k).map Prod.snd
  | .vTaskMissedYield => some (vTaskMissedYield k)
  | .suspendSection h => (suspendSection h k).map Prod.snd
  | .vTaskResume t => vTaskResume t k
  | .xTaskResumeFromISR t => (xTaskResumeFromISR t k).map Prod.snd
  | .vTaskPrioritySet h p => vTaskPrioritySet h p k
  | .vTaskPriorityInherit h => vTaskPriorityInherit h k
  | .vTaskPriorityDisinherit h => vTaskPriorityDisinherit h k
  | .createSection t p => some (createSection t p k)
  | .deleteSection h => (deleteSection h k).map Prod.snd
  | .freeDeleted => freeDeleted k
  | .portYield => some (portYield k)
  | .SoftIsrHdl => SoftIsrHdl k
  | .vTaskStepTick n => some (vTaskStepTick n k)
  | .xPortSysTickHandle => xPortSysTickHandle k

/- A handle names a task that was not deleted; the idle task is to stay ready. -/
def Names (idle : τ) (k : Kernel τ ε) (h : Option τ) : Prop := ∃ t, prvGetTCBFromHandle h k = some t ∧ t ≠ idle ∧ Made t k ∧
  container (.xGenericListItem t) k ≠ some .xTasksWaitingTermination

/- What the callers see to -/
def Allowed (idle : τ) (k : Kernel τ ε) : Call τ ε → Prop
  | .vTaskSuspendAll => k.uxSchedulerSuspended ≠ 0xffffffff
  | .xTaskResumeAll => k.uxSchedulerSuspended ≠ 0
  | .delaySection n => n ≠ 0 ∧ ∃ t, Runs idle t k
  | .delayUntilSection _ _ => ∃ t, Runs idle t k
  | .vTaskPlaceOnEventList _ n => n ≠ 0 ∧ ∃ t, Runs idle t k
  -- the timer task waits for 0 ticks where it finds no timer when the count is 0
  | .vTaskPlaceOnEventListRestricted _ n => (n = 0 → k.xTickCount + 1 ≠ 0) ∧ ∃ t, Runs idle t k
  | .xTaskRemoveFromEventList e => ∃ t, container (.xEventListItem t) k = some (.pxEventList e)
  | .suspendSection h => Names idle k h
  | .deleteSection h => Names idle k h
  | .vTaskPriorityDisinherit h => ∀ t ∈ h, container (.xGenericListItem t) k = some (.pxReadyTasksLists (k.uxPriority t))
  | .createSection t _ => Fresh t k ∧ k.uxCurrentNumberOfTasks ≠ 0xffffffff
  | .freeDeleted => ∃ t, container (.xGenericListItem t) k = some .xTasksWaitingTermination
  -- what is asserted; nobody may be left on the current list when the next tick switches the lists
  | .vTaskStepTick n => k.xTickCount.toNat + n.toNat ≤ k.xNextTaskUnblockTime.toNat ∧
      (k.xTickCount + n + 1 = 0 → listListIsEmpty k.pxDelayedTaskList k.lists = true)
  | _ => True

/- The ticks that a call makes -/
def ticksOf (k : Kernel τ ε) : Call τ ε → Nat
  | .xPortSysTickHandle => if k.uxSchedulerSuspended = 0 then 1 else 0
  | .xTaskResumeAll => if k.uxSchedulerSuspended = 1 then k.uxPendedTicks.toNat else 0
  | _ => 0

/- The ticks that were suppressed, and that a call steps over -/
def jumpOf : Call τ ε → Nat
  | .vTaskStepTick n => n.toNat
  | _ => 0

/- The calls that take a task out of a delayed list before its time -/
def Recalls (k : Kernel τ ε) (s : τ) : Call τ ε → Prop
  | .suspendSection h | .deleteSection h => prvGetTCBFromHandle h k = some s
  | .xTaskRemoveFromEventList e => headTask (.pxEventList e) k = some s
  | _ => False

end Steps

section Waiting
variable {τ ε : Type} {idle s : τ} {k k' k'' : Kernel τ ε}

/- A blocked task after n ticks, and j that were stepped over: only a tick wakes it. -/
structure Waits (j n : Nat) (s : τ) (k k' : Kernel τ ε) : Prop where
  due : 0 < n → left s k ≤ n → ∃ p, container (.xGenericListItem s) k' = some (.pxReadyTasksLists p)
  still : n = 0 ∨ n < left s k → Blocked s k' ∧ left s k' + (n + j) = left s k ∧
    container (.xEventListItem s) k' = container (.xEventListItem s) k

theorem sparedLeft (spared : Spared s k k') : (Blocked s k' ↔ Blocked s k) ∧ left s k' = left s k := by
  unfold Blocked left
  rw [spared.generic, spared.wake, spared.tick]
  exact ⟨Iff.rfl,rfl⟩

theorem sparedWaits (blocked : Blocked s k) (spared : Spared s k k') : Waits 0 0 s k k' :=
  ⟨fun some_time => absurd some_time (lt_irrefl 0),
    fun _ => ⟨(sparedLeft spared).1.mpr blocked,(sparedLeft spared).2,spared.event⟩⟩

theorem waitsSpared {j n : Nat} (waits : Waits j n s k k') (spared : Spared s k' k'') : Waits j n s k k'' := by
  refine ⟨fun some_time soon => ?_,fun later => ?_⟩
  · obtain ⟨p,there⟩ := waits.due some_time soon
    exact ⟨p,spared.generic.trans there⟩
  · obtain ⟨blocked,closer,event⟩ := waits.still later
    exact ⟨(sparedLeft spared).1.mpr blocked,(sparedLeft spared).2.symm ▸ closer,spared.event.trans event⟩

theorem elapsedWaits {n : Nat} (blocked : Blocked s k) (spared : Spared s k k') (elapsed : Elapsed n k' k'') :
    Waits 0 n s k k'' := by
  obtain ⟨same,time⟩ := sparedLeft spared
  refine ⟨fun some_time soon => ?_,fun later => ?_⟩
  · exact ⟨_,(elapsed.due s (same.mpr blocked) some_time (by omega)).1⟩
  · obtain ⟨blocked',closer,event⟩ := elapsed.still s (same.mpr blocked) (by omega)
    exact ⟨blocked',by omega,event.trans spared.event⟩

theorem alikeSpared (alike : Alike k k') (s : τ) : Spared s k k' :=
  have self : Spared s k k := ⟨rfl,rfl,rfl,rfl⟩
  sparedAlike self alike

theorem readiedSpared {S : τ → Prop} (readied : Readied S k k') (out : ¬S s) : Spared s k k' := by
  obtain ⟨_,_,_,fields⟩ := readied.rest
  exact ⟨(readied.kept s out).1,(readied.kept s out).2,congrFun readied.values _,by rw [fields]⟩

/- What a step does for all tasks that wait -/
def Serves (idle : τ) (j n : Nat) (recalls : τ → Prop) (k k' : Kernel τ ε) : Prop :=
  Inv idle k' ∧ ∀ s, Blocked s k → ¬Pended k s → ¬recalls s → Waits j n s k k'

theorem sparesServes {recalls : τ → Prop} (inv' : Inv idle k')
    (spared : ∀ s, Blocked s k → ¬recalls s → Spared s k k') : Serves idle 0 0 recalls k k' :=
  ⟨inv',fun s blocked _ stays => sparedWaits blocked (spared s blocked stays)⟩

theorem touchedServes {t : τ} {recalls : τ → Prop} (touched : Touched idle t k k')
    (about : ¬Blocked t k ∨ recalls t ∨ (Blocked t k → Spared t k k')) : Serves idle 0 0 recalls k k' := by
  refine sparesServes touched.inv fun s blocked stays => ?_
  by_cases mine : s = t
  · subst mine
    rcases about with out | recalled | spared
    · exact absurd blocked out
    · exact absurd recalled stays
    · exact spared blocked
  · exact touched.spared s mine

theorem someTask (inv : Inv idle k) : k.uxCurrentNumberOfTasks > 0 := by
  obtain ⟨ts,_,members,length⟩ := inv.made
  obtain ⟨p,there⟩ := inv.idle
  have := List.length_pos_of_mem ((members idle).mpr (readyMade there))
  rw [gt_iff_lt, UInt32.lt_iff_toNat_lt]
  simp only [UInt32.toNat_zero]
  omega

theorem lastSuspension (n : UInt32) : n - 1 = 0 ↔ n = 1 := by grind

theorem blockedAwake [DecidableEq ε] {t : τ} (blocked : Blocked t k) : ¬xTaskIsTaskSuspended t k = true := by
  rw [suspendedIff]
  rintro ⟨generic,_⟩
  obtain ⟨l,there,delaying⟩ := blocked
  rw [generic] at there
  cases there
  simp [Delaying] at delaying

theorem namedServes {recalls : τ → Prop} {h : Option τ} {f : Option (Kernel τ ε)} (names : Names idle k h)
    (call : ∀ t, prvGetTCBFromHandle h k = some t → Made t k → t ≠ idle → ∃ k', f = some k' ∧ Touched idle t k k')
    (recalled : ∀ t, prvGetTCBFromHandle h k = some t → recalls t) : ∃ k', f = some k' ∧ Serves idle 0 0 recalls k k' := by
  obtain ⟨t,handle,busy,made,_⟩ := names
  obtain ⟨k',ran,touched⟩ := call t handle made busy
  exact ⟨k',ran,touchedServes touched (Or.inr (Or.inl (recalled t handle)))⟩

theorem handled (inv : Inv idle k) (h : Option τ) : ∃ t, prvGetTCBFromHandle h k = some t := by
  cases h with
  | some t => exact ⟨t,rfl⟩
  | none => exact Option.ne_none_iff_exists'.mp inv.current

/- The ticks that are stepped over are none that a task is to wake at. -/
theorem stepServes {n : UInt32} (inv : Inv idle k) (allowed : Allowed idle k (.vTaskStepTick n)) :
    Serves idle n.toNat 0 (fun _ => False) k (vTaskStepTick n k) := by
  obtain ⟨within,switches⟩ := allowed
  obtain ⟨r,core⟩ := inv.sound
  have high := k.xNextTaskUnblockTime.toNat_lt
  have sum : (k.xTickCount + n).toNat = k.xTickCount.toNat + n.toNat := by
    rw [UInt32.toNat_add]
    omega
  have next : k.xTickCount + n ≤ k.xNextTaskUnblockTime := by
    rw [UInt32.le_iff_toNat_le]
    omega
  have up : k.xTickCount ≤ k.xTickCount + n := by
    rw [UInt32.le_iff_toNat_le]
    omega
  have core' : Core (vTaskStepTick n k) r := by
    refine ⟨core.shows,core.two,fun i l there => ?_,core.sorted⟩
    refine fitsRetimed (core.fits i l there) rfl rfl fun t same delaying old => ?_
    subst same
    exact UInt32.lt_of_lt_of_le (awaitsOf core delaying there old) up
  have room : ∀ t, container (.xGenericListItem t) k = some k.pxDelayedTaskList → k.xTickCount + n + 1 ≠ 0 := by
    intro t there wraps
    have inside := (core.shows.container k.pxDelayedTaskList _).mpr there
    rw [(emptyShows core.shows _).mp (switches wraps)] at inside
    cases inside
  refine ⟨⟨⟨r,core'⟩,fun t there => ?_,inv.held,inv.idle,inv.current,inv.made,inv.running⟩,fun s blocked _ _ => ⟨?_,fun _ => ?_⟩⟩
  · have beyond := (inv.ahead t there).2
    exact ⟨⟨UInt32.le_trans next beyond,room t there⟩,beyond⟩
  · exact fun some_time => absurd some_time (lt_irrefl 0)
  · refine ⟨blocked,?_,rfl⟩
    have a := (wakeTime s k).toNat_lt
    have b := k.xTickCount.toNat_lt
    show (wakeTime s k - (k.xTickCount + n)).toNat + (0 + n.toNat) = (wakeTime s k - k.xTickCount).toNat
    rw [UInt32.toNat_sub, UInt32.toNat_sub, sum]
    obtain ⟨l,there,delaying⟩ := blocked
    rcases delayingIs core delaying with rfl | rfl
    · have beyond := UInt32.le_iff_toNat_le.mp (inv.ahead s there).2
      omega
    · have early := UInt32.lt_iff_toNat_lt.mp (awaitsOf core delaying there rfl)
      omega

end Waiting

section Serving
variable {τ ε : Type} [DecidableEq τ] [DecidableEq ε] {idle : τ} {k : Kernel τ ε}

theorem resumeAllSound (inv : Inv idle k) : ∃ b k', xTaskResumeAll k = some (b,k') ∧
    Serves idle 0 (if k.uxSchedulerSuspended = 1 then k.uxPendedTicks.toNat else 0) (fun _ => False) k k' ∧
      (k.uxSchedulerSuspended = 1 → k'.uxPendedTicks = 0 ∧ ∀ s, Pended k s → ∃ p,
        container (.xGenericListItem s) k' = some (.pxReadyTasksLists p)) := by
  let k₀ : Kernel τ ε := { k with uxSchedulerSuspended := k.uxSchedulerSuspended - 1 }
  have alike : Alike k k₀ := ⟨rfl,rfl,rfl,rfl,rfl,rfl,rfl,rfl,rfl,rfl⟩
  have inv₀ : Inv idle k₀ := invAlike inv alike
  by_cases last : k.uxSchedulerSuspended = 1
  · have zero : k₀.uxSchedulerSuspended = 0 := (lastSuspension _).mpr last
    obtain ⟨b,k₁,k',ran,inv',readied,elapsed,pended⟩ := resumedSound inv₀ zero
    refine ⟨b,k',(if_pos ⟨zero,someTask inv₀⟩).trans ran,⟨inv',fun s blocked free _ => ?_⟩,fun _ => ⟨pended,fun s waits => ?_⟩⟩
    · rw [if_pos last]
      exact elapsedWaits blocked (sparedTrans (alikeSpared alike s) (readiedSpared readied free)) elapsed
    · have ready := (readied.moved s waits).1
      exact ⟨_,(elapsed.rest s (readyUnblocked ready)).1.trans ready⟩
  · have more : ¬(k₀.uxSchedulerSuspended = 0 ∧ k₀.uxCurrentNumberOfTasks > 0) :=
      fun both => last ((lastSuspension _).mp both.1)
    refine ⟨false,k₀,if_neg more,?_,fun same => absurd same last⟩
    rw [if_neg last]
    exact sparesServes inv₀ fun s _ _ => alikeSpared alike s

theorem switchServes (inv : Inv idle k) : ∃ k', vTaskSwitchContext k = some k' ∧ Inv idle k' ∧ ∀ s, Spared s k k' := by
  by_cases awake : k.uxSchedulerSuspended = 0
  · obtain ⟨r,core⟩ := inv.sound
    obtain ⟨t,k',ran,inv',chosen⟩ := switchSound inv core awake
    exact ⟨k',ran,inv',chosen.spared⟩
  · obtain ⟨k',ran,inv',_,spared⟩ := switchLater inv awake
    exact ⟨k',ran,inv',spared⟩

theorem tickServes (inv : Inv idle k) : ∃ k', xPortSysTickHandle k = some k' ∧
    Serves idle 0 (if k.uxSchedulerSuspended = 0 then 1 else 0) (fun _ => False) k k' := by
  by_cases awake : k.uxSchedulerSuspended = 0
  · obtain ⟨b,k₁,ticked,inv₁,elapsed,_⟩ := tickSound inv awake
    obtain ⟨k₂,switched,inv₂,spared⟩ := switchServes inv₁
    have waits : ∀ s, Blocked s k → Waits 0 1 s k k₁ := fun s blocked =>
      elapsedWaits blocked ⟨rfl,rfl,rfl,rfl⟩ elapsed
    rw [if_pos awake]
    cases b with
    | true => exact ⟨k₂,(afterwards ticked).trans switched,inv₂,fun s blocked _ _ => waitsSpared (waits s blocked) (spared s)⟩
    | false => exact ⟨k₁,afterwards ticked,inv₁,fun s blocked _ _ => waits s blocked⟩
  · let k₁ : Kernel τ ε := { k with uxPendedTicks := k.uxPendedTicks + 1 }
    have alike : Alike k k₁ := ⟨rfl,rfl,rfl,rfl,rfl,rfl,rfl,rfl,rfl,rfl⟩
    have ticked : xTaskIncrementTick k = some (false,k₁) := if_neg awake
    rw [if_neg awake]
    exact ⟨k₁,afterwards ticked,sparesServes (invAlike inv alike) fun s _ _ => alikeSpared alike s⟩

theorem softServes (inv : Inv idle k) : ∃ k', SoftIsrHdl k = some k' ∧ Serves idle 0 0 (fun _ => False) k k' := by
  unfold SoftIsrHdl
  by_cases asked : k.SWReq = true
  · obtain ⟨k₁,switched,inv₁,spared⟩ := switchServes inv
    let k₂ : Kernel τ ε := { k₁ with SWReq := false }
    have alike : Alike k₁ k₂ := ⟨rfl,rfl,rfl,rfl,rfl,rfl,rfl,rfl,rfl,rfl⟩
    refine ⟨k₂,(if_pos asked).trans (by rw [switched]; rfl),
      sparesServes (invAlike inv₁ alike) fun s _ _ => sparedAlike (spared s) alike⟩
  · exact ⟨k,if_neg asked,sparesServes inv fun s _ _ => ⟨rfl,rfl,rfl,rfl⟩⟩

/- The ticks that are still to come after vTaskDelayUntil's section has blocked the task -/
theorem shouldDelayIff (tick previous increment : UInt32) : shouldDelay tick previous (previous + increment) = true ↔
    (tick - previous).toNat < increment.toNat := by
  have a := tick.toNat_lt
  have b := previous.toNat_lt
  have c := increment.toNat_lt
  unfold shouldDelay
  rw [UInt32.toNat_sub]
  split <;> rename_i beyond
  · rw [UInt32.lt_iff_toNat_lt] at beyond
    simp only [Bool.and_eq_true, decide_eq_true_eq, gt_iff_lt, UInt32.lt_iff_toNat_lt, UInt32.toNat_add]
    omega
  · rw [UInt32.lt_iff_toNat_lt] at beyond
    simp only [Bool.or_eq_true, decide_eq_true_eq, gt_iff_lt, UInt32.lt_iff_toNat_lt, UInt32.toNat_add]
    omega

theorem shouldDelayApart {tick previous wake : UInt32} (should : shouldDelay tick previous wake = true) : wake ≠ tick := by
  rintro rfl
  unfold shouldDelay at should
  split at should <;> rename_i beyond
  · simp [UInt32.lt_irrefl] at should
  · simp only [gt_iff_lt, UInt32.lt_irrefl, decide_false, Bool.or_false, decide_eq_true_eq] at should
    exact beyond should

theorem restrictedSound {e : ε} {n : UInt32} {t : τ} (inv : Inv idle k) (runs : Runs idle t k)
    (room : n = 0 → k.xTickCount + 1 ≠ 0) :
    ∃ k', vTaskPlaceOnEventListRestricted e n k = some k' ∧ Touched idle t k k' := by
  obtain ⟨r,core⟩ := inv.sound
  have alone := readyAlone inv runs.ready
  obtain ⟨m₁,r₁,posted,core₁,values₁,containers₁⟩ := coreEnterEnd (l := .pxEventList e) core alone trivial (by simp [Delaying])
  have there : container (.xGenericListItem t) { k with lists := m₁ } = some (.pxReadyTasksLists (k.uxPriority t)) := by
    rw [← runs.ready]
    simp [container, containers₁]
  obtain ⟨m₂,r₂,gone,core₂,values₂,containers₂⟩ := coreLeave core₁ there
  have free : container (.xGenericListItem t) { k with lists := m₂ } = none := by simp [container, containers₂]
  have others₂ : Others t k { k with lists := m₂ } := by
    refine othersOf t (fun s mine => ?_) (fun s _ => congrFun (values₂.trans values₁) _) (UInt32.le_refl _)
    simp [containers₂, containers₁, mine]
  obtain ⟨k',added,sound,off⟩ := addDelayed core₂ runs.current free
    (show k.xTickCount + n = k.xTickCount → k.xTickCount + 1 ≠ 0 from fun same => room (by grind))
  have others := othersTrans others₂ off.others
  refine ⟨k',?_,othersTouched ?_ others⟩
  · refine (afterwards runs.current).trans ?_
    rw [posted]
    exact (afterwards gone).trans added
  · exact invOthers inv sound others off.ahead (fun _ => Or.inl off.blocked) (fun same => absurd same runs.busy)
      (by rw [off.current]; exact inv.current)
      (madeOthers inv others (readyMade runs.ready) (blockedMade off.blocked) off.number)

theorem delayUntilSound (previous increment : UInt32) {t : τ} (inv : Inv idle k) (runs : Runs idle t k) :
    ∃ k', delayUntilSection previous increment k = some (previous + increment,k') ∧ Touched idle t k k' ∧
      ((k.xTickCount - previous).toNat < increment.toNat →
        Blocked t k' ∧ left t k' = increment.toNat - (k.xTickCount - previous).toNat ∧
          container (.xEventListItem t) k' = none) ∧
      (increment.toNat ≤ (k.xTickCount - previous).toNat → k' = k) := by
  have exact_when := shouldDelayIff k.xTickCount previous increment
  unfold delayUntilSection
  by_cases should : shouldDelay k.xTickCount previous (previous + increment) = true
  · obtain ⟨k',ran,inv',off⟩ := blockSound inv runs fun same => absurd same (shouldDelayApart should)
    have soon := exact_when.mp should
    refine ⟨k',(if_pos should).trans (by rw [ran]; rfl),othersTouched inv' off.others,fun _ => ⟨off.blocked,?_,?_⟩,
      fun late => by omega⟩
    swap
    · rw [off.event]
      exact readyAlone inv runs.ready
    unfold left
    rw [off.wakes, off.others.calm.tick]
    have a := k.xTickCount.toNat_lt
    have b := previous.toNat_lt
    have c := increment.toNat_lt
    rw [UInt32.toNat_sub] at soon ⊢
    rw [UInt32.toNat_sub, UInt32.toNat_add]
    omega
  · refine ⟨k,if_neg should,touchedSelf inv t,fun soon => absurd (exact_when.mpr soon) should,fun _ => rfl⟩

theorem resumeStays {t : τ} (blocked : Blocked t k) : perform k (.vTaskResume t) = some k := by
  show vTaskResume t k = some k
  unfold vTaskResume
  split
  · rfl
  · exact if_neg (blockedAwake blocked)

/- No call fails, each keeps the invariant, and the tasks that wait are served as their time comes. -/
theorem performs {c : Call τ ε} (inv : Inv idle k) (allowed : Allowed idle k c) : ∃ k', perform k c = some k' ∧
    Serves idle (jumpOf c) (ticksOf k c) (Recalls k · c) k k' := by
  have unchanged : ∀ {k' : Kernel τ ε} {recalls : τ → Prop}, Alike k k' → Serves idle 0 0 recalls k k' := fun alike =>
    sparesServes (invAlike inv alike) fun s _ _ => alikeSpared alike s
  have running : ∀ {t}, Runs idle t k → ¬Blocked t k := fun runs => readyUnblocked runs.ready
  cases c with
  | vTaskSuspendAll => exact ⟨_,rfl,unchanged ⟨rfl,rfl,rfl,rfl,rfl,rfl,rfl,rfl,rfl,rfl⟩⟩
  | xTaskResumeAll =>
    obtain ⟨b,k',ran,serves,_⟩ := resumeAllSound inv
    exact ⟨k',by rw [perform, ran]; rfl,serves⟩
  | delaySection n =>
    obtain ⟨some_time,t,runs⟩ := allowed
    obtain ⟨k',ran,inv',off⟩ := blockSound inv runs fun same => absurd same (laterTick some_time)
    exact ⟨k',ran,touchedServes (othersTouched inv' off.others) (Or.inl (running runs))⟩
  | delayUntilSection previous increment =>
    obtain ⟨t,runs⟩ := allowed
    obtain ⟨k',ran,touched,_⟩ := delayUntilSound previous increment inv runs
    exact ⟨k',by rw [perform, ran]; rfl,touchedServes touched (Or.inl (running runs))⟩
  | vTaskPlaceOnEventList e n =>
    obtain ⟨some_time,t,runs⟩ := allowed
    obtain ⟨k',ran,touched,_⟩ := placeSound inv runs some_time
    exact ⟨k',ran,touchedServes touched (Or.inl (running runs))⟩
  | vTaskPlaceOnEventListRestricted e n =>
    obtain ⟨room,t,runs⟩ := allowed
    obtain ⟨k',ran,touched⟩ := restrictedSound inv runs room
    exact ⟨k',ran,touchedServes touched (Or.inl (running runs))⟩
  | xTaskRemoveFromEventList e =>
    obtain ⟨s,waits⟩ := allowed
    obtain ⟨t,b,k',head,ran,touched,_⟩ := removeEventSound inv waits
    exact ⟨k',by rw [perform, ran]; rfl,touchedServes touched (Or.inr (Or.inl head))⟩
  | vTaskMissedYield => exact ⟨_,rfl,unchanged ⟨rfl,rfl,rfl,rfl,rfl,rfl,rfl,rfl,rfl,rfl⟩⟩
  | suspendSection h =>
    refine namedServes allowed (fun t handle made busy => ?_) fun t handle => handle
    obtain ⟨k',ran,touched,_⟩ := suspendSound inv handle made busy
    exact ⟨k',by rw [perform, ran]; rfl,touched⟩
  | deleteSection h =>
    refine namedServes allowed (fun t handle made busy => ?_) fun t handle => handle
    obtain ⟨k',ran,touched,_⟩ := deleteSound inv handle made busy
    exact ⟨k',by rw [perform, ran]; rfl,touched⟩
  | vTaskResume t =>
    obtain ⟨k',ran,touched,_⟩ := resumeSound inv t
    refine ⟨k',ran,touchedServes touched (Or.inr (Or.inr fun blocked => ?_))⟩
    rw [show vTaskResume t k = some k from resumeStays blocked] at ran
    cases ran
    exact ⟨rfl,rfl,rfl,rfl⟩
  | xTaskResumeFromISR t =>
    obtain ⟨b,k',ran,touched,_⟩ := resumeFromISRSound inv t
    refine ⟨k',by rw [perform, ran]; rfl,touchedServes touched (Or.inr (Or.inr fun blocked => ?_))⟩
    rw [xTaskResumeFromISR, if_neg (blockedAwake blocked)] at ran
    cases ran
    exact ⟨rfl,rfl,rfl,rfl⟩
  | vTaskPrioritySet h u =>
    obtain ⟨t,handle⟩ := handled inv h
    obtain ⟨k',ran,touched,stays⟩ := prioritySetSound inv handle u
    exact ⟨k',ran,touchedServes touched (Or.inr (Or.inr stays))⟩
  | vTaskPriorityInherit h =>
    cases h with
    | none => exact ⟨k,rfl,unchanged ⟨rfl,rfl,rfl,rfl,rfl,rfl,rfl,rfl,rfl,rfl⟩⟩
    | some t =>
      obtain ⟨k',ran,touched,stays⟩ := inheritSound inv t
      exact ⟨k',ran,touchedServes touched (Or.inr (Or.inr stays))⟩
  | vTaskPriorityDisinherit h =>
    cases h with
    | none => exact ⟨k,rfl,unchanged ⟨rfl,rfl,rfl,rfl,rfl,rfl,rfl,rfl,rfl,rfl⟩⟩
    | some t =>
      have ready := allowed t rfl
      obtain ⟨k',ran,touched⟩ := disinheritSound inv ready
      exact ⟨k',ran,touchedServes touched (Or.inl (readyUnblocked ready))⟩
  | createSection t u =>
    obtain ⟨fresh,room⟩ := allowed
    refine ⟨_,rfl,touchedServes (createSound inv fresh room u).1 (Or.inl fun blocked => ?_)⟩
    exact blockedMade blocked fresh.1
  | freeDeleted =>
    obtain ⟨s,there⟩ := allowed
    obtain ⟨t,k',head,ran,touched,_⟩ := freeSound inv there
    obtain ⟨r,core⟩ := inv.sound
    obtain ⟨t',head',deleted⟩ := headDeleted core there
    cases head.symm.trans head'
    refine ⟨k',ran,touchedServes touched (Or.inl ?_)⟩
    rintro ⟨l,here,delaying⟩
    rw [deleted] at here
    cases here
    simp [Delaying] at delaying
  | portYield => exact ⟨_,rfl,unchanged ⟨rfl,rfl,rfl,rfl,rfl,rfl,rfl,rfl,rfl,rfl⟩⟩
  | SoftIsrHdl => exact softServes inv
  | vTaskStepTick n => exact ⟨_,rfl,stepServes inv allowed⟩
  | xPortSysTickHandle => exact tickServes inv

def createTasks (tasks : List (τ × UInt32)) (k : Kernel τ ε) : Kernel τ ε :=
  tasks.foldl (fun k t => xTaskGenericCreate t.1 t.2 k) k

/- From the first switch on -/
inductive Reach (idle timer : τ) : Kernel τ ε → Prop where
  | start {tasks : List (τ × UInt32)} {k : Kernel τ ε} (once : (idle :: timer :: tasks.map Prod.fst).Nodup)
      (few : tasks.length + 2 < 2 ^ 32)
      (began : vTaskStartScheduler idle timer (createTasks tasks initially) = some k) : Reach idle timer k
  | step {k k' : Kernel τ ε} {c : Call τ ε} : Reach idle timer k → Allowed idle k c → perform k c = some k' →
      Reach idle timer k'

end Serving
end YunbaIot.FreeRtosTasks
