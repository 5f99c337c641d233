import YunbaIot.TaskFrames

/-! Whether the running task is still the one to run when tasks become ready. -/
namespace YunbaIot.FreeRtosTasks
open FreeRtosList

section Ranks
variable {τ ε : Type} {c : τ} {k k' : Kernel τ ε}

/- No ready task has a higher priority than c. -/
def Above (c : τ) (k : Kernel τ ε) : Prop :=
  ∀ s p, container (.xGenericListItem s) k = some (.pxReadyTasksLists p) → p ≤ k.uxPriority c

structure Leads (c : τ) (k : Kernel τ ε) : Prop where
  current : k.pxCurrentTCB = some c
  ready : container (.xGenericListItem c) k = some (.pxReadyTasksLists (k.uxPriority c))
  above : Above c k

def Highest (k : Kernel τ ε) : Prop := ∃ c, Leads c k

/- A switch comes when interrupts may, or when the scheduler is resumed. -/
def Asked (k : Kernel τ ε) : Prop := k.SWReq = true ∨ k.uxSchedulerSuspended ≠ 0 ∧ k.xYieldPending = true

/- Where every item is on the list it was on, on none or on one that does not hold the ready tasks -/
theorem aboveLess (above : Above c k) (priority : k'.uxPriority = k.uxPriority)
    (places : ∀ s p, container (.xGenericListItem s) k' = some (.pxReadyTasksLists p) →
      container (.xGenericListItem s) k = some (.pxReadyTasksLists p)) : Above c k' := by
  intro s p there
  rw [priority]
  exact above s p (places s p there)

theorem leadsCongr (leads : Leads c k) (lists : k'.lists = k.lists) (priority : k'.uxPriority = k.uxPriority)
    (current : k'.pxCurrentTCB = k.pxCurrentTCB) : Leads c k' := by
  have places : ∀ i, container i k' = container i k := fun i => by unfold container; rw [lists]
  refine ⟨current.trans leads.current,?_,aboveLess leads.above priority fun s p there => by rwa [places] at there⟩
  rw [places, priority]
  exact leads.ready

theorem leadsYield (b : Bool) (leads : Leads c k) : Leads c (yieldIf b k) := by
  unfold yieldIf
  split
  · exact ⟨leads.current,leads.ready,leads.above⟩
  · exact leads

/- Another task is moved. -/
theorem awayLeads {idle t : τ} (leads : Leads c k) (touched : Touched idle t k k') (other : t ≠ c) (above : Above c k')
    (relisted : Relisted k k') : Leads c k' := by
  refine ⟨?_,?_,above⟩
  · obtain ⟨m,top,next,rfl⟩ := relisted
    exact leads.current
  · rw [(touched.spared c other.symm).generic]
    obtain ⟨m,top,next,rfl⟩ := relisted
    exact leads.ready

theorem askedRelisted (relisted : Relisted k k') (asked : Asked k) : Asked k' := by
  obtain ⟨m,top,next,rfl⟩ := relisted
  exact asked

theorem askedYield (b : Bool) (asked : Asked k) : Asked (yieldIf b k) := by
  unfold yieldIf portYield
  split
  · exact Or.inl rfl
  · exact asked

/- The requests that are still open -/
structure Quiet (k k' : Kernel τ ε) : Prop where
  soft : k'.SWReq = k.SWReq
  pending : k'.xYieldPending = k.xYieldPending

theorem quietRelisted (relisted : Relisted k k') : Quiet k k' := by
  obtain ⟨m,top,next,rfl⟩ := relisted
  exact ⟨rfl,rfl⟩

theorem quietTrans {k'' : Kernel τ ε} (first : Quiet k k') (second : Quiet k' k'') : Quiet k k'' :=
  ⟨second.soft.trans first.soft,second.pending.trans first.pending⟩

theorem advanceQuiet (done : advance k = some k') : Quiet k k' := by
  unfold advance at done
  dsimp only at done
  split at done
  · unfold taskSwitchDelayedLists at done
    dsimp only at done
    split at done
    · cases done
      exact ⟨rfl,rfl⟩
    · obtain ⟨t,_,rfl⟩ := Option.map_eq_some_iff.mp done
      exact ⟨rfl,rfl⟩
  · cases done
    exact ⟨rfl,rfl⟩

theorem yieldAsked (k : Kernel τ ε) : Asked (yieldIf true k) := Or.inl rfl

end Ranks

section Moves
variable {τ ε : Type} [DecidableEq τ] [DecidableEq ε] {c t : τ} {k k' : Kernel τ ε} {l : ListName ε}

theorem leavePlaces {i : Item τ} (done : leaveList i k = some k') :
    k'.lists.pvContainer = Function.update k.lists.pvContainer i none := by
  obtain ⟨⟨n,m⟩,removed,rfl⟩ := Option.map_eq_some_iff.mp done
  obtain ⟨l,_,removed⟩ := Option.bind_eq_some_iff.mp removed
  cases removed
  dsimp only
  split_ifs <;> rfl

theorem aboveLeave {i : Item τ} (above : Above c k) (done : leaveList i k = some k') : Above c k' := by
  have priority : k'.uxPriority = k.uxPriority := by
    obtain ⟨m,top,next,rfl⟩ := leaveRelisted done
    rfl
  refine aboveLess above priority fun s p there => ?_
  unfold container at there ⊢
  rw [leavePlaces done] at there
  by_cases same : Item.xGenericListItem s = i
  · rw [same, Function.update_self] at there
    cases there
  · rwa [Function.update_of_ne same] at there

theorem aboveLeaveEvent (above : Above c k) (done : leaveEvent t k = some k') : Above c k' := by
  unfold leaveEvent at done
  split at done
  · cases done
    exact above
  · exact aboveLeave above done

theorem aboveEnter {i : Item τ} (above : Above c k) (other : ∀ p, l ≠ .pxReadyTasksLists p) : Above c (enterEnd l i k) := by
  refine aboveLess above rfl fun s p there => ?_
  change Function.update k.lists.pvContainer i (some l) (.xGenericListItem s) = _ at there
  by_cases same : Item.xGenericListItem s = i
  · rw [same, Function.update_self] at there
    exact absurd (Option.some.inj there) (other p)
  · rwa [Function.update_of_ne same] at there

theorem readyPlaces (t : τ) (k : Kernel τ ε) : (prvAddTaskToReadyList t k).lists.pvContainer =
    Function.update k.lists.pvContainer (.xGenericListItem t) (some (.pxReadyTasksLists (k.uxPriority t))) := by
  unfold prvAddTaskToReadyList taskRecordReadyPriority
  split <;> rfl

theorem aboveReady (above : Above c k) (low : k.uxPriority t ≤ k.uxPriority c) : Above c (prvAddTaskToReadyList t k) := by
  have priority : (prvAddTaskToReadyList t k).uxPriority = k.uxPriority := by
    obtain ⟨m,top,next,same⟩ := readyRelisted t k
    rw [same]
  intro s p there
  rw [priority]
  unfold container at there
  rw [readyPlaces] at there
  by_cases same : s = t
  · subst same
    rw [Function.update_self] at there
    cases there
    exact low
  · rw [Function.update_of_ne (by simpa using same)] at there
    exact above s p there

theorem aboveReadyOrPend (above : Above c k) (low : k.uxSchedulerSuspended = 0 → k.uxPriority t ≤ k.uxPriority c)
    (done : readyOrPend t k = some k') : Above c k' := by
  unfold readyOrPend at done
  split at done <;> rename_i awake
  · obtain ⟨k₁,gone,rfl⟩ := Option.map_eq_some_iff.mp done
    have above₁ := aboveLeave above gone
    obtain ⟨m,top,next,rfl⟩ := leaveRelisted gone
    exact aboveReady above₁ (low awake)
  · cases done
    exact aboveEnter above (by simp)

theorem wokenAbove {p : Priority} (current : k.pxCurrentTCB = some c) (above : Above c k)
    (seen : currentPriority (prvAddTaskToReadyList t k) = some p) :
    (prvAddTaskToReadyList t k).uxPriority t ≥ p ∨ Above c (prvAddTaskToReadyList t k) := by
  obtain ⟨m,top,next,same⟩ := readyRelisted t k
  have ready := aboveReady (t := t) above
  rw [currentPriority, same, current] at seen
  cases seen
  rw [same] at ready ⊢
  by_cases low : k.uxPriority t ≤ k.uxPriority c
  · exact Or.inr (ready low)
  · exact Or.inl (le_of_lt (not_le.mp low))

/- The loops say so when a task that is not below the running one has become ready. -/
theorem unblockAbove {tick : UInt32} (n : Nat) : ∀ {k : Kernel τ ε} {b b' : Bool} {k' : Kernel τ ε},
    k.pxCurrentTCB = some c → unblock tick n b k = some (b',k') →
      (b = true → b' = true) ∧ (Above c k → b' = true ∨ Above c k') := by
  induction n with
  | zero =>
    intro k b b' k' _ done
    cases done
  | succ n ih =>
    intro k b b' k' current done
    unfold unblock at done
    split at done
    · cases done
      exact ⟨id,Or.inr⟩
    · obtain ⟨t,_,done⟩ := Option.bind_eq_some_iff.mp done
      dsimp only at done
      split at done
      · cases done
        exact ⟨id,Or.inr⟩
      · obtain ⟨k₁,gone,done⟩ := Option.bind_eq_some_iff.mp done
        obtain ⟨k₂,gone',done⟩ := Option.bind_eq_some_iff.mp done
        obtain ⟨p,seen,done⟩ := Option.bind_eq_some_iff.mp done
        have off : Above c k → Above c k₂ := fun above => aboveLeaveEvent (aboveLeave above gone) gone'
        have pointer : k₂.pxCurrentTCB = some c := by
          obtain ⟨m,top,next,same⟩ := relistedTrans (leaveRelisted gone) (leaveEventRelisted gone')
          rw [same]
          exact current
        have pointer' : (prvAddTaskToReadyList t k₂).pxCurrentTCB = some c := by
          obtain ⟨m,top,next,same⟩ := readyRelisted t k₂
          rw [same]
          exact pointer
        obtain ⟨kept,rest⟩ := ih pointer' done
        refine ⟨fun yes => kept (by simp [yes]),fun above => ?_⟩
        rcases wokenAbove pointer (off above) seen with high | low
        · exact Or.inl (kept (by simp [high]))
        · exact rest low

theorem readyPendingAbove (n : Nat) : ∀ {k : Kernel τ ε} {b b' : Bool} {k' : Kernel τ ε},
    k.pxCurrentTCB = some c → readyPending n b k = some (b',k') →
      (b = true → b' = true) ∧ (Above c k → b' = true ∨ Above c k') := by
  induction n with
  | zero =>
    intro k b b' k' _ done
    cases done
  | succ n ih =>
    intro k b b' k' current done
    unfold readyPending at done
    split at done
    · cases done
      exact ⟨id,Or.inr⟩
    · obtain ⟨t,_,done⟩ := Option.bind_eq_some_iff.mp done
      obtain ⟨k₁,gone,done⟩ := Option.bind_eq_some_iff.mp done
      obtain ⟨k₂,gone',done⟩ := Option.bind_eq_some_iff.mp done
      obtain ⟨p,seen,done⟩ := Option.bind_eq_some_iff.mp done
      have off : Above c k → Above c k₂ := fun above => aboveLeave (aboveLeave above gone) gone'
      have pointer : k₂.pxCurrentTCB = some c := by
        obtain ⟨m,top,next,same⟩ := relistedTrans (leaveRelisted gone) (leaveRelisted gone')
        rw [same]
        exact current
      have pointer' : (prvAddTaskToReadyList t k₂).pxCurrentTCB = some c := by
        obtain ⟨m,top,next,same⟩ := readyRelisted t k₂
        rw [same]
        exact pointer
      obtain ⟨kept,rest⟩ := ih pointer' done
      refine ⟨fun yes => kept (by simp [yes]),fun above => ?_⟩
      rcases wokenAbove pointer (off above) seen with high | low
      · exact Or.inl (kept (by simp [high]))
      · exact rest low

end Moves

section Ticks
variable {τ ε : Type} [DecidableEq τ] [DecidableEq ε] {idle c : τ} {k k' : Kernel τ ε}

theorem tickLeads {b : Bool} (inv : Inv idle k) (awake : k.uxSchedulerSuspended = 0) (leads : Leads c k)
    (done : xTaskIncrementTick k = some (b,k')) : b = true ∨ Leads c k' := by
  obtain ⟨_,_,ran,_,elapsed,_⟩ := tickSound inv awake
  cases done.symm.trans ran
  unfold xTaskIncrementTick at done
  rw [if_pos awake] at done
  obtain ⟨k₁,advanced',done⟩ := Option.bind_eq_some_iff.mp done
  obtain ⟨⟨b₂,k₂⟩,expired',done⟩ := Option.bind_eq_some_iff.mp done
  obtain ⟨p,_,done⟩ := Option.bind_eq_some_iff.mp done
  obtain ⟨rfl,rfl⟩ := Prod.mk.inj (Option.some.inj done)
  obtain ⟨_,moved,first⟩ := advanced inv
  cases advanced'.symm.trans moved
  have leads₁ : Leads c k₁ := leadsCongr leads first.lists first.steady.priority first.steady.current
  have above : b₂ = true ∨ Above c k₂ := by
    unfold expire at expired'
    split at expired'
    · exact (unblockAbove _ leads₁.current expired').2 leads₁.above
    · cases expired'
      exact Or.inr leads₁.above
  rcases above with switch | above
  · exact Or.inl (by rw [switch]; rfl)
  · refine Or.inr ⟨elapsed.steady.current.trans leads.current,?_,above⟩
    rw [(elapsed.rest c (readyUnblocked leads.ready)).1, elapsed.steady.priority]
    exact leads.ready

theorem tickQuiet {b : Bool} (awake : k.uxSchedulerSuspended = 0) (done : xTaskIncrementTick k = some (b,k')) :
    Quiet k k' := by
  unfold xTaskIncrementTick at done
  rw [if_pos awake] at done
  obtain ⟨k₁,advanced',done⟩ := Option.bind_eq_some_iff.mp done
  obtain ⟨⟨b₂,k₂⟩,expired',done⟩ := Option.bind_eq_some_iff.mp done
  obtain ⟨p,_,done⟩ := Option.bind_eq_some_iff.mp done
  obtain ⟨_,rfl⟩ := Prod.mk.inj (Option.some.inj done)
  exact quietTrans (advanceQuiet advanced') (quietRelisted (expireRelisted expired'))

theorem catchUpLeads (n : Nat) : ∀ {k : Kernel τ ε} {b b' : Bool} {k' : Kernel τ ε}, Inv idle k →
    k.uxSchedulerSuspended = 0 → catchUp n b k = some (b',k') →
      Quiet k k' ∧ (b = true → b' = true) ∧ (Leads c k → b' = true ∨ Leads c k') := by
  induction n with
  | zero =>
    intro k b b' k' _ _ done
    cases done
    exact ⟨⟨rfl,rfl⟩,id,Or.inr⟩
  | succ n ih =>
    intro k b b' k' inv awake done
    obtain ⟨switch,k₁,ticked,inv₁,elapsed,_⟩ := tickSound inv awake
    have rest := (afterwards ticked).symm.trans done
    let k₂ : Kernel τ ε := { k₁ with uxPendedTicks := k₁.uxPendedTicks - 1 }
    have inv₂ : Inv idle k₂ := invAlike inv₁ ⟨rfl,rfl,rfl,rfl,rfl,rfl,rfl,rfl,rfl,rfl⟩
    obtain ⟨quiet,kept,leads⟩ := ih (k := k₂) inv₂ (elapsed.steady.suspended.trans awake) rest
    have quiet₁ := tickQuiet awake ticked
    refine ⟨⟨quiet.soft.trans quiet₁.soft,quiet.pending.trans quiet₁.pending⟩,fun yes => kept (by simp [yes]),fun before => ?_⟩
    rcases tickLeads inv awake before ticked with yes | leads₁
    · exact Or.inl (kept (by simp [yes]))
    · exact leads (leadsCongr leads₁ rfl rfl rfl)

/- A request that came up while the scheduler was suspended is made good. -/
theorem resumedLeads {b : Bool} (inv : Inv idle k) (awake : k.uxSchedulerSuspended = 0) (done : resumed k = some (b,k')) :
    (k.SWReq = true ∨ k.xYieldPending = true → k'.SWReq = true) ∧ (b = true → k'.SWReq = true) ∧
      (Leads c k → k'.SWReq = true ∨ Leads c k') := by
  obtain ⟨r,core⟩ := inv.sound
  have live : ∀ t, Pended k t → Made t k := fun t pended => heldMade inv (by rw [pended]; simp)
  obtain ⟨b₁,k₁,ran,sound₁,readied,next⟩ := readyPendingSound (listCurrentListLength .xPendingReadyList k.lists + 1) k r false
    core inv.current live (by rw [listCurrentListLength, core.shows.count]; omega)
  have inv₁ := invReadied inv sound₁ readied live next
  have steady := readiedSteady readied
  have rest := (afterwards ran).symm.trans done
  obtain ⟨⟨b₂,k₂⟩,caught,ending⟩ := Option.bind_eq_some_iff.mp rest
  obtain ⟨quiet,kept,leads⟩ := catchUpLeads (c := c) _ inv₁ (steady.suspended.trans awake) caught
  have quiet' := quietTrans (quietRelisted (readyPendingRelisted _ ran)) quiet
  change ite (b₂ || k₂.xYieldPending) _ _ = _ at ending
  by_cases yields : (b₂ || k₂.xYieldPending) = true
  · rw [if_pos yields] at ending
    cases ending
    exact ⟨fun _ => rfl,fun _ => rfl,fun _ => Or.inl rfl⟩
  · rw [if_neg yields] at ending
    cases ending
    simp only [Bool.or_eq_true, not_or] at yields
    refine ⟨fun asked => ?_,fun no => absurd no Bool.false_ne_true,fun before => ?_⟩
    · refine asked.elim (fun soft => quiet'.soft.trans soft) fun pending => ?_
      exact absurd (quiet'.pending.trans pending) yields.2
    · have current : k₁.pxCurrentTCB = some c := steady.current.trans before.current
      have above₁ : Above c k₁ := by
        refine ((readyPendingAbove _ before.current ran).2 before.above).resolve_left fun high => ?_
        exact yields.1 (kept high)
      have ready₁ : container (.xGenericListItem c) k₁ = some (.pxReadyTasksLists (k₁.uxPriority c)) := by
        have alone : ¬Pended k c := fun pended => by
          have := readyAlone inv before.ready
          rw [pended] at this
          cases this
        rw [(readied.kept c alone).1, steady.priority]
        exact before.ready
      exact Or.inr ((leads ⟨current,ready₁,above₁⟩).resolve_left yields.1)

end Ticks

end YunbaIot.FreeRtosTasks
