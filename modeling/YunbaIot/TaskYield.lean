import YunbaIot.TaskHighest

/-! What each call does about it: the highest task goes on running, or a switch is asked for. -/
namespace YunbaIot.FreeRtosTasks
open FreeRtosList

section Calls
variable {τ ε : Type} [DecidableEq τ] [DecidableEq ε] {idle c t : τ} {k k' : Kernel τ ε}

/- Another task changes its priority, and is not above the running one after that. -/
theorem reprioritiseOther {q : Priority} (inv : Inv idle k) (leads : Leads c k) (other : t ≠ c)
    (low : container (.xGenericListItem t) k = some (.pxReadyTasksLists (k.uxPriority t)) → q ≤ k.uxPriority c)
    (done : reprioritise t q k = some k') : Leads c k' := by
  obtain ⟨_,ran,touched,_⟩ := reprioritiseSound inv t q
  cases done.symm.trans ran
  obtain ⟨r,core⟩ := inv.sound
  have mine : (setPriority t q k).uxPriority c = k.uxPriority c := Function.update_of_ne other.symm ..
  have same : k'.uxPriority c = k.uxPriority c ∧ k'.pxCurrentTCB = k.pxCurrentTCB := by
    obtain ⟨m,top,next,rfl⟩ := reprioritiseRelisted done
    exact ⟨mine,rfl⟩
  refine ⟨same.2.trans leads.current,?_,?_⟩
  · rw [(touched.spared c other.symm).generic, same.1]
    exact leads.ready
  · unfold reprioritise at done
    split at done <;> rename_i ready
    · obtain ⟨k₁,gone,rfl⟩ := Option.map_eq_some_iff.mp done
      have off := aboveLeave leads.above gone
      have priority : k₁.uxPriority = k.uxPriority := by
        obtain ⟨m,top,next,rfl⟩ := leaveRelisted gone
        rfl
      have mine₁ : (setPriority t q k₁).uxPriority c = k₁.uxPriority c := Function.update_of_ne other.symm ..
      refine aboveReady (fun s p there => ?_) ?_
      · rw [mine₁]
        exact off s p there
      · have yours : (setPriority t q k₁).uxPriority t = q := Function.update_self ..
        rw [mine₁, priority, yours]
        exact low ready
    · cases done
      intro s p there
      rw [mine]
      exact leads.above s p there

/- The running task is made one of a higher priority. -/
theorem reprioritiseSelf {q : Priority} (leads : Leads c k) (up : k.uxPriority c ≤ q)
    (done : reprioritise c q k = some k') : Leads c k' := by
  unfold reprioritise at done
  rw [if_pos leads.ready] at done
  obtain ⟨k₁,gone,rfl⟩ := Option.map_eq_some_iff.mp done
  have off := aboveLeave leads.above gone
  have pointer : k₁.pxCurrentTCB = some c := by
    obtain ⟨m,top,next,rfl⟩ := leaveRelisted gone
    exact leads.current
  have priority : k₁.uxPriority = k.uxPriority := by
    obtain ⟨m,top,next,rfl⟩ := leaveRelisted gone
    rfl
  have mine : (setPriority c q k₁).uxPriority c = q := Function.update_self ..
  obtain ⟨m,top,next,same⟩ := readyRelisted c (setPriority c q k₁)
  have above : Above c (prvAddTaskToReadyList c (setPriority c q k₁)) := by
    refine aboveReady (fun s p there => ?_) (le_refl _)
    rw [mine]
    refine (off s p there).trans ?_
    rwa [priority]
  refine ⟨by rw [same]; exact pointer,?_,above⟩
  unfold container
  rw [readyPlaces, Function.update_self, same]

theorem prioritySetLeads {h : Option τ} {u : UInt32} (inv : Inv idle k) (leads : Leads c k)
    (done : vTaskPrioritySet h u k = some k') : Asked k' ∨ Leads c k' := by
  obtain ⟨t,handle,done⟩ := Option.bind_eq_some_iff.mp done
  dsimp only at done
  split at done <;> rename_i change_it
  · cases done
    exact Or.inr leads
  · obtain ⟨p,seen,done⟩ := Option.bind_eq_some_iff.mp done
    obtain ⟨k₁,moved,done⟩ := Option.bind_eq_some_iff.mp done
    cases done
    rw [currentPriority, leads.current] at seen
    cases seen
    let k₂ := setItemValue (.xEventListItem t) (eventValue (validPriority u)) (setBasePriority t (validPriority u) k)
    have inv₂ : Inv idle k₂ := by
      have alike : Alike k (setBasePriority t (validPriority u) k) := ⟨rfl,rfl,rfl,rfl,rfl,rfl,rfl,rfl,rfl,rfl⟩
      exact (eventValueSound (invAlike inv alike) t _).inv
    have leads₂ : Leads c k₂ := ⟨leads.current,leads.ready,leads.above⟩
    have low : container (.xGenericListItem t) k = some (.pxReadyTasksLists (k.uxPriority t)) →
      k.uxPriority t ≤ k.uxPriority c := leads.above t _
    rw [leads.current]
    by_cases up : validPriority u > k.uxBasePriority t
    · rw [if_pos up]
      by_cases mine : c = t
      · subst mine
        refine Or.inr (leadsYield _ (reprioritiseSelf leads₂ ?_ moved))
        split <;> rename_i inherited
        · exact le_refl _
        · have own : k.uxBasePriority c = k.uxPriority c := by simpa using inherited
          exact own.symm.trans_le (le_of_lt up)
      · by_cases high : validPriority u ≥ k.uxPriority c
        · left
          simp only [Option.some.injEq, mine, decide_false, Bool.not_false, high, decide_true, Bool.and_self]
          exact yieldAsked k₁
        · refine Or.inr (leadsYield _ (reprioritiseOther inv₂ leads₂ (Ne.symm mine) (fun ready => ?_) moved))
          split
          · exact low ready
          · exact le_of_lt (not_le.mp high)
    · rw [if_neg up]
      by_cases mine : c = t
      · left
        simp only [mine, decide_true]
        exact yieldAsked k₁
      · refine Or.inr (leadsYield _ (reprioritiseOther inv₂ leads₂ (Ne.symm mine) (fun ready => ?_) moved))
        split <;> rename_i inherited
        · exact low ready
        · have own : k.uxBasePriority t = k.uxPriority t := by simpa using inherited
          exact (not_lt.mp up).trans (own.trans_le (low ready))

theorem inheritLeads {h : Option τ} (inv : Inv idle k) (leads : Leads c k) (done : vTaskPriorityInherit h k = some k') :
    Leads c k' := by
  unfold vTaskPriorityInherit at done
  split at done
  · cases done
    exact leads
  · rename_i t
    obtain ⟨p,seen,done⟩ := Option.bind_eq_some_iff.mp done
    rw [currentPriority, leads.current] at seen
    cases seen
    split at done <;> rename_i below
    · have leads₂ : Leads c (setItemValue (.xEventListItem t) (eventValue (k.uxPriority c)) k) :=
        ⟨leads.current,leads.ready,leads.above⟩
      have other : t ≠ c := by
        rintro rfl
        exact lt_irrefl _ below
      exact reprioritiseOther (eventValueSound inv t _).inv leads₂ other (fun _ => le_refl _) done
    · cases done
      exact leads

theorem createLeads {u : UInt32} (inv : Inv idle k) (fresh : Fresh t k) (room : k.uxCurrentNumberOfTasks ≠ 0xffffffff)
    (leads : Leads c k) : outranksCurrent u (createSection t u k) = true ∨ Leads c (createSection t u k) := by
  have other : c ≠ t := by
    rintro rfl
    have ready := leads.ready
    rw [fresh.1] at ready
    cases ready
  let k₂ : Kernel τ ε := { setItemValue (.xEventListItem t) (eventValue (validPriority u))
      (setBasePriority t (validPriority u) (setPriority t (validPriority u) k)) with
    uxCurrentNumberOfTasks := k.uxCurrentNumberOfTasks + 1 }
  have kept : chooseCurrent t u k₂ = k₂ := chooseKept u inv.current inv.running
  have is := createdIs fresh u kept
  have stays := ((createSound inv fresh room u).1.spared c other).generic
  have mine : k₂.uxPriority c = k.uxPriority c := Function.update_of_ne other ..
  have yours : k₂.uxPriority t = validPriority u := Function.update_self ..
  have above₂ : Above c k₂ := fun s p there => (leads.above s p there).trans_eq mine.symm
  have above₃ := aboveReady (t := t) above₂
  have pointer : k₂.pxCurrentTCB = some c := leads.current
  rw [yours, mine] at above₃
  obtain ⟨m,top,next,ready⟩ := readyRelisted t k₂
  rw [is] at stays ⊢
  generalize prvAddTaskToReadyList t k₂ = k₃ at stays above₃ ready ⊢
  have leader : k₃.pxCurrentTCB = some c := by rw [ready]; exact pointer
  have priority : k₃.uxPriority c = k.uxPriority c := by rw [ready]; exact mine
  have flag : outranksCurrent u k₃ = decide ((k.uxPriority c).val < u.toNat) := by
    rw [outranksCurrent, leader, Option.any_some, priority]
  rw [flag]
  by_cases outranks : (k.uxPriority c).val < u.toNat
  · exact Or.inl (decide_eq_true outranks)
  · have low : validPriority u ≤ k.uxPriority c := by
      unfold validPriority
      split
      · exact Fin.le_def.mpr (not_lt.mp outranks)
      · rename_i large
        have := (k.uxPriority c).isLt
        rw [UInt32.lt_iff_toNat_lt] at large
        simp only [configMaxPriorities, UInt32.reduceToNat] at large
        omega
    refine Or.inr ⟨leader,?_,above₃ low⟩
    rw [priority]
    exact stays.trans leads.ready

/- The calls that leave it to their caller to yield -/
def owes (k : Kernel τ ε) : Call τ ε → Bool
  | .delaySection _ | .delayUntilSection _ _ | .vTaskPlaceOnEventList _ _ | .vTaskPlaceOnEventListRestricted _ _ => true
  | .xTaskRemoveFromEventList e => (xTaskRemoveFromEventList e k).any Prod.fst
  | .xTaskResumeFromISR t => (xTaskResumeFromISR t k).any Prod.fst
  | .vTaskPriorityDisinherit h => h.any fun t => k.uxPriority t ≠ k.uxBasePriority t
  | .suspendSection h | .deleteSection h => prvGetTCBFromHandle h k = k.pxCurrentTCB
  | .createSection t u => outranksCurrent u (createSection t u k)
  | _ => false

/- Whether a caller still has to after a call -/
def due (k : Kernel τ ε) (c : Call τ ε) (owed : Bool) : Bool :=
  match c with
  | .portYield => false
  -- a switch that xTaskResumeAll has asked for is not asked for again
  | .xTaskResumeAll => owed && !(xTaskResumeAll k).any Prod.fst
  | .vTaskMissedYield => owed && k.uxSchedulerSuspended = 0
  | c => owed || owes k c

theorem switchHighest (inv : Inv idle k) (awake : k.uxSchedulerSuspended = 0) (done : vTaskSwitchContext k = some k') :
    Highest k' := by
  obtain ⟨r,core⟩ := inv.sound
  obtain ⟨t,_,ran,_,chosen⟩ := switchSound inv core awake
  cases done.symm.trans ran
  have priority : k'.uxPriority = k.uxPriority := by
    obtain ⟨k₁,⟨m,top,next,rfl⟩,⟨_,rfl⟩ | ⟨t,rfl⟩⟩ := switchRelisted done <;> rfl
  refine ⟨t,chosen.current,?_,fun s p there => ?_⟩
  · rw [(chosen.spared t).generic, priority]
    exact chosen.ready
  · rw [(chosen.spared s).generic] at there
    rw [priority]
    exact chosen.highest s p there

theorem removeEventLeads {e : ε} {b : Bool} {s : τ} (inv : Inv idle k) (leads : Leads c k)
    (waits : container (.xEventListItem s) k = some (.pxEventList e)) (done : xTaskRemoveFromEventList e k = some (b,k')) :
    b = true ∨ Leads c k' := by
  obtain ⟨t,_,_,head,ran,touched,_⟩ := removeEventSound inv waits
  cases done.symm.trans ran
  obtain ⟨t',k₁,head',gone,readied,relisted,flag⟩ := removeEventRelisted done
  cases head.symm.trans head'
  rw [flag c leads.current]
  by_cases low : k.uxPriority t < k.uxPriority c
  · have other : t ≠ c := by
      rintro rfl
      exact lt_irrefl _ low
    have above₁ := aboveLeave leads.above gone
    obtain ⟨m,top,next,rfl⟩ := leaveRelisted gone
    exact Or.inr (awayLeads leads touched other (aboveReadyOrPend above₁ (fun _ => le_of_lt low) readied) relisted)
  · exact Or.inl (decide_eq_true (not_lt.mp low))

theorem resumeFromISRLeads {b : Bool} (inv : Inv idle k) (leads : Leads c k) (done : xTaskResumeFromISR t k = some (b,k')) :
    b = true ∨ Leads c k' := by
  obtain ⟨_,_,ran,touched,_⟩ := resumeFromISRSound inv t
  cases done.symm.trans ran
  obtain ⟨_,rfl⟩ | ⟨readied,relisted,flag⟩ := resumeFromISRRelisted done
  · exact Or.inr leads
  · by_cases other : t = c
    · subst other
      unfold xTaskResumeFromISR at done
      split at done <;> rename_i suspended
      · rw [suspendedIff, leads.ready] at suspended
        cases suspended.1
      · cases done
        exact Or.inr leads
    · by_cases yields : b = true
      · exact Or.inl yields
      · refine Or.inr (awayLeads leads touched other (aboveReadyOrPend leads.above (fun awake => ?_) readied) relisted)
        rw [flag c leads.current, decide_eq_true awake, Bool.and_true, decide_eq_true_eq, not_le] at yields
        exact le_of_lt yields

theorem resumeLeads (inv : Inv idle k) (leads : Leads c k) (done : vTaskResume t k = some k') : Asked k' ∨ Leads c k' := by
  obtain ⟨_,ran,touched,_⟩ := resumeSound inv t
  cases done.symm.trans ran
  obtain rfl | ⟨other,k₁,gone,relisted,b,rfl,flag⟩ := resumeRelisted done
  · exact Or.inr leads
  · have apart : t ≠ c := fun same => other (same ▸ leads.current)
    by_cases low : k.uxPriority t < k.uxPriority c
    · have above₁ := aboveLeave leads.above gone
      have alike : Alike (yieldIf b (prvAddTaskToReadyList t k₁)) (prvAddTaskToReadyList t k₁) := by
        unfold yieldIf
        split <;> exact ⟨rfl,rfl,rfl,rfl,rfl,rfl,rfl,rfl,rfl,rfl⟩
      have touched₁ := touchedAlike touched alike
      refine Or.inr (leadsYield _ (awayLeads leads touched₁ apart (aboveReady above₁ ?_) relisted))
      obtain ⟨m,top,next,rfl⟩ := leaveRelisted gone
      exact le_of_lt low
    · left
      rw [flag c leads.current, decide_eq_true (not_lt.mp low)]
      exact yieldAsked _

theorem parkLeads {k₁ k₂ : Kernel τ ε} {l : ListName ε} (leads : Leads c k)
    (touched : Touched idle t k (enterEnd l (.xGenericListItem t) k₂)) (other : ∀ p, l ≠ .pxReadyTasksLists p) (apart : t ≠ c)
    (gone : leaveList (.xGenericListItem t) k = some k₁) (gone' : leaveEvent t k₁ = some k₂) :
    Leads c (enterEnd l (.xGenericListItem t) k₂) :=
  awayLeads leads touched apart (aboveEnter (aboveLeaveEvent (aboveLeave leads.above gone) gone') other)
    (parkRelisted gone gone' l)

theorem suspendLeads {h : Option τ} (inv : Inv idle k) (names : Names idle k h) (leads : Leads c k)
    (done : suspendSection h k = some (t,k')) : prvGetTCBFromHandle h k = k.pxCurrentTCB ∨ Leads c k' := by
  obtain ⟨t,handle,busy,made,_⟩ := names
  obtain ⟨_,ran,touched,_⟩ := suspendSound inv handle made busy
  cases done.symm.trans ran
  obtain ⟨k₁,k₂,_,gone,gone',rfl,_⟩ := suspendRelisted done
  by_cases mine : k.pxCurrentTCB = some t
  · exact Or.inl (handle.trans mine.symm)
  · have apart : t ≠ c := fun same => mine (same ▸ leads.current)
    exact Or.inr (parkLeads leads touched (by simp) apart gone gone')

theorem deleteLeads {h : Option τ} (inv : Inv idle k) (names : Names idle k h) (leads : Leads c k)
    (done : deleteSection h k = some (t,k')) : prvGetTCBFromHandle h k = k.pxCurrentTCB ∨ Leads c k' := by
  obtain ⟨t,handle,busy,made,_⟩ := names
  obtain ⟨_,ran,touched,_⟩ := deleteSound inv handle made busy
  cases done.symm.trans ran
  obtain ⟨k₁,k₂,k₃,_,gone,gone',rfl,_,rfl⟩ := deleteRelisted done
  by_cases mine : k.pxCurrentTCB = some t
  · exact Or.inl (handle.trans mine.symm)
  · have apart : t ≠ c := fun same => mine (same ▸ leads.current)
    have touched₃ : Touched idle t k (enterEnd .xTasksWaitingTermination (.xGenericListItem t) k₂) :=
      touchedAlike touched ⟨rfl,rfl,rfl,rfl,rfl,rfl,rfl,rfl,rfl,rfl⟩
    exact Or.inr (leadsCongr (parkLeads leads touched₃ (by simp) apart gone gone') rfl rfl rfl)

theorem freeLeads {s : τ} (inv : Inv idle k) (leads : Leads c k)
    (there : container (.xGenericListItem s) k = some .xTasksWaitingTermination) (done : freeDeleted k = some k') :
    Leads c k' := by
  obtain ⟨r,core⟩ := inv.sound
  obtain ⟨t,head,here⟩ := headDeleted core there
  obtain ⟨t',k₁,head',gone,relisted,rfl⟩ := freeRelisted done
  cases head.symm.trans head'
  have above := aboveLeave leads.above gone
  have apart : c ≠ t := by
    rintro rfl
    have ready := leads.ready
    rw [here] at ready
    cases ready
  have places := leavePlaces gone
  obtain ⟨m,top,next,rfl⟩ := relisted
  refine ⟨leads.current,?_,above⟩
  unfold container
  rw [places, Function.update_of_ne (by simpa using apart)]
  exact leads.ready

theorem softHighest (inv : Inv idle k) (before : Highest k ∨ Asked k) (done : SoftIsrHdl k = some k') :
    Highest k' ∨ Asked k' := by
  unfold SoftIsrHdl at done
  split at done
  · obtain ⟨k₁,switched,rfl⟩ := Option.map_eq_some_iff.mp done
    by_cases awake : k.uxSchedulerSuspended = 0
    · obtain ⟨c,leads⟩ := switchHighest inv awake switched
      exact Or.inl ⟨c,leadsCongr leads rfl rfl rfl⟩
    · rw [vTaskSwitchContext, if_pos awake] at switched
      cases switched
      exact Or.inr (Or.inr ⟨awake,rfl⟩)
  · cases done
    exact before

theorem tickHighest (inv : Inv idle k) (before : Highest k ∨ Asked k) (done : xPortSysTickHandle k = some k') :
    Highest k' ∨ Asked k' := by
  obtain ⟨⟨b,k₁⟩,ticked,switched⟩ := Option.bind_eq_some_iff.mp done
  change ite (b = true) _ _ = _ at switched
  by_cases awake : k.uxSchedulerSuspended = 0
  · obtain ⟨_,_,ran,inv₁,elapsed,_⟩ := tickSound inv awake
    cases ticked.symm.trans ran
    split at switched <;> rename_i yes
    · exact Or.inl (switchHighest inv₁ (elapsed.steady.suspended.trans awake) switched)
    · cases switched
      refine before.imp (fun ⟨c,leads⟩ => ⟨c,(tickLeads inv awake leads ticked).resolve_left yes⟩) fun asked => ?_
      refine Or.inl ((tickQuiet awake ticked).soft.trans ?_)
      exact asked.resolve_right fun held => held.1 awake
  · rw [xTaskIncrementTick, if_neg awake] at ticked
    obtain ⟨rfl,rfl⟩ := Prod.mk.inj (Option.some.inj ticked)
    cases switched
    exact before.imp (fun ⟨c,leads⟩ => ⟨c,leadsCongr leads rfl rfl rfl⟩) id

theorem resumeAllHighest {b : Bool} (inv : Inv idle k) (done : xTaskResumeAll k = some (b,k')) : (b = true → k'.SWReq = true) ∧ (Asked k → Asked k') ∧
      (Highest k → Highest k' ∨ Asked k') := by
  let k₀ : Kernel τ ε := { k with uxSchedulerSuspended := k.uxSchedulerSuspended - 1 }
  have inv₀ : Inv idle k₀ := invAlike inv ⟨rfl,rfl,rfl,rfl,rfl,rfl,rfl,rfl,rfl,rfl⟩
  unfold xTaskResumeAll at done
  change ite (k₀.uxSchedulerSuspended = 0 ∧ k₀.uxCurrentNumberOfTasks > 0) _ _ = _ at done
  split at done <;> rename_i last
  · have ends := fun c => resumedLeads (c := c) inv₀ last.1 done
    obtain ⟨c,_⟩ := Option.ne_none_iff_exists'.mp inv.current
    refine ⟨(ends c).2.1,fun asked => Or.inl ((ends c).1 (asked.imp id And.right)),fun ⟨c,leads⟩ => ?_⟩
    rcases (ends c).2.2 (leadsCongr leads rfl rfl rfl) with soft | leads'
    · exact Or.inr (Or.inl soft)
    · exact Or.inl ⟨c,leads'⟩
  · obtain ⟨rfl,rfl⟩ := Prod.mk.inj (Option.some.inj done)
    refine ⟨fun no => absurd no Bool.false_ne_true,fun asked => asked.imp id fun held => ⟨?_,held.2⟩,
      fun ⟨c,leads⟩ => Or.inl ⟨c,leadsCongr leads rfl rfl rfl⟩⟩
    exact fun zero => last ⟨zero,someTask inv₀⟩

/- What was asked for stays asked for. -/
theorem askedStays {c : Call τ ε} (inv : Inv idle k) (allowed : Allowed idle k c) (asked : Asked k)
    (done : perform k c = some k') : Highest k' ∨ Asked k' := by
  cases c with
  | vTaskSuspendAll =>
    cases done
    refine Or.inr (asked.imp id fun held => ⟨fun zero => allowed ?_,held.2⟩)
    change k.uxSchedulerSuspended + 1 = 0 at zero
    grind
  | xTaskResumeAll =>
    obtain ⟨⟨b,k₁⟩,ran,rfl⟩ := Option.map_eq_some_iff.mp done
    exact Or.inr ((resumeAllHighest inv ran).2.1 asked)
  | delaySection n => exact Or.inr (askedRelisted (blockRelisted done) asked)
  | delayUntilSection previous increment =>
    obtain ⟨⟨wake,k₁⟩,ran,rfl⟩ := Option.map_eq_some_iff.mp done
    exact Or.inr (askedRelisted (delayUntilRelisted ran) asked)
  | vTaskPlaceOnEventList e n => exact Or.inr (askedRelisted (placeRelisted done) asked)
  | vTaskPlaceOnEventListRestricted e n => exact Or.inr (askedRelisted (placeRestrictedRelisted done) asked)
  | xTaskRemoveFromEventList e =>
    obtain ⟨⟨b,k₁⟩,ran,rfl⟩ := Option.map_eq_some_iff.mp done
    obtain ⟨_,_,_,_,_,relisted,_⟩ := removeEventRelisted ran
    exact Or.inr (askedRelisted relisted asked)
  | vTaskMissedYield =>
    cases done
    exact Or.inr (asked.imp id fun held => ⟨held.1,rfl⟩)
  | suspendSection h =>
    obtain ⟨⟨t,k₁⟩,ran,rfl⟩ := Option.map_eq_some_iff.mp done
    obtain ⟨_,_,_,_,_,_,relisted⟩ := suspendRelisted ran
    exact Or.inr (askedRelisted relisted asked)
  | deleteSection h =>
    obtain ⟨⟨t,k₁⟩,ran,rfl⟩ := Option.map_eq_some_iff.mp done
    obtain ⟨_,_,k₃,_,_,_,_,relisted,rfl⟩ := deleteRelisted ran
    have parked : Asked k₃ := askedRelisted relisted asked
    exact Or.inr parked
  | vTaskResume t =>
    obtain rfl | ⟨_,_,_,relisted,_,rfl,_⟩ := resumeRelisted done
    · exact Or.inr asked
    · exact Or.inr (askedYield _ (askedRelisted relisted asked))
  | xTaskResumeFromISR t =>
    obtain ⟨⟨b,k₁⟩,ran,rfl⟩ := Option.map_eq_some_iff.mp done
    obtain ⟨_,rfl⟩ | ⟨_,relisted,_⟩ := resumeFromISRRelisted ran
    · exact Or.inr asked
    · exact Or.inr (askedRelisted relisted asked)
  | vTaskPrioritySet h u =>
    obtain ⟨t,_,done⟩ := Option.bind_eq_some_iff.mp done
    dsimp only at done
    split at done
    · cases done
      exact Or.inr asked
    · obtain ⟨p,_,done⟩ := Option.bind_eq_some_iff.mp done
      obtain ⟨k₁,moved,done⟩ := Option.bind_eq_some_iff.mp done
      cases done
      exact Or.inr (askedYield _ (askedRelisted (reprioritiseRelisted moved) asked))
  | vTaskPriorityInherit h =>
    cases h with
    | none =>
      cases done
      exact Or.inr asked
    | some t =>
      obtain ⟨p,_,done⟩ := Option.bind_eq_some_iff.mp done
      split at done
      · exact Or.inr (askedRelisted (reprioritiseRelisted done) asked)
      · cases done
        exact Or.inr asked
  | vTaskPriorityDisinherit h =>
    cases h with
    | none =>
      cases done
      exact Or.inr asked
    | some t =>
      unfold perform vTaskPriorityDisinherit at done
      dsimp only at done
      split at done
      · cases done
        exact Or.inr asked
      · obtain ⟨k₁,gone,rfl⟩ := Option.map_eq_some_iff.mp done
        have left_it : Asked k₁ := askedRelisted (leaveRelisted gone) asked
        exact Or.inr (askedRelisted (readyRelisted t _) left_it)
  | createSection t u =>
    cases done
    obtain ⟨fresh,_⟩ := allowed
    rw [createdIs fresh u (chooseKept u inv.current inv.running)]
    exact Or.inr (askedRelisted (readyRelisted t _) asked)
  | freeDeleted =>
    obtain ⟨_,k₁,_,_,relisted,rfl⟩ := freeRelisted done
    have left_it : Asked k₁ := askedRelisted relisted asked
    exact Or.inr left_it
  | portYield =>
    cases done
    exact Or.inr (Or.inl rfl)
  | SoftIsrHdl => exact softHighest inv (Or.inr asked) done
  | vTaskStepTick n =>
    cases done
    exact Or.inr asked
  | xPortSysTickHandle => exact tickHighest inv (Or.inr asked) done

/- A call that leaves the highest task running, or asks, or has its caller ask -/
theorem highestStays {c : Call τ ε} (inv : Inv idle k) (allowed : Allowed idle k c) (highest : Highest k)
    (done : perform k c = some k') : owes k c = true ∨ Highest k' ∨ Asked k' := by
  obtain ⟨t,leads⟩ := highest
  have either : Asked k' ∨ Leads t k' → owes k c = true ∨ Highest k' ∨ Asked k' := fun split =>
    Or.inr (split.symm.imp (fun leads' => ⟨t,leads'⟩) id)
  cases c with
  | vTaskSuspendAll | vTaskMissedYield | portYield | vTaskStepTick =>
    cases done
    exact either (Or.inr (leadsCongr leads rfl rfl rfl))
  | xTaskResumeAll =>
    obtain ⟨⟨b,k₁⟩,ran,rfl⟩ := Option.map_eq_some_iff.mp done
    exact Or.inr ((resumeAllHighest inv ran).2.2 ⟨t,leads⟩)
  | delaySection n => exact Or.inl rfl
  | delayUntilSection previous increment => exact Or.inl rfl
  | vTaskPlaceOnEventList e n => exact Or.inl rfl
  | vTaskPlaceOnEventListRestricted e n => exact Or.inl rfl
  | xTaskRemoveFromEventList e =>
    obtain ⟨s,waits⟩ := allowed
    obtain ⟨⟨b,k₁⟩,ran,rfl⟩ := Option.map_eq_some_iff.mp done
    rcases removeEventLeads inv leads waits ran with yes | leads'
    · exact Or.inl (by rw [owes, ran]; exact yes)
    · exact either (Or.inr leads')
  | suspendSection h =>
    obtain ⟨⟨s,k₁⟩,ran,rfl⟩ := Option.map_eq_some_iff.mp done
    exact (suspendLeads inv allowed leads ran).elim (fun mine => Or.inl (decide_eq_true mine)) fun leads' => either (Or.inr leads')
  | deleteSection h =>
    obtain ⟨⟨s,k₁⟩,ran,rfl⟩ := Option.map_eq_some_iff.mp done
    exact (deleteLeads inv allowed leads ran).elim (fun mine => Or.inl (decide_eq_true mine)) fun leads' => either (Or.inr leads')
  | vTaskResume s => exact either (resumeLeads inv leads done)
  | xTaskResumeFromISR s =>
    obtain ⟨⟨b,k₁⟩,ran,rfl⟩ := Option.map_eq_some_iff.mp done
    rcases resumeFromISRLeads inv leads ran with yes | leads'
    · exact Or.inl (by rw [owes, ran]; exact yes)
    · exact either (Or.inr leads')
  | vTaskPrioritySet h u => exact either (prioritySetLeads inv leads done)
  | vTaskPriorityInherit h => exact either (Or.inr (inheritLeads inv leads done))
  | vTaskPriorityDisinherit h =>
    cases h with
    | none =>
      cases done
      exact either (Or.inr leads)
    | some s =>
      by_cases same : k.uxPriority s = k.uxBasePriority s
      · have still : k = k' := Option.some.inj ((if_pos same).symm.trans done)
        exact either (Or.inr (still ▸ leads))
      · exact Or.inl (by simp [owes, same])
  | createSection s u =>
    cases done
    obtain ⟨fresh,room⟩ := allowed
    exact (createLeads inv fresh room leads).elim Or.inl fun leads' => either (Or.inr leads')
  | freeDeleted =>
    obtain ⟨s,there⟩ := allowed
    exact either (Or.inr (freeLeads inv leads there done))
  | SoftIsrHdl => exact Or.inr (softHighest inv (Or.inl ⟨t,leads⟩) done)
  | xPortSysTickHandle => exact Or.inr (tickHighest inv (Or.inl ⟨t,leads⟩) done)

end Calls
end YunbaIot.FreeRtosTasks
