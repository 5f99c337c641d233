import Mathlib.Tactic.Ring
import YunbaIot.TaskReady

/-! What one tick, and the ticks that were held back, do to every task. -/
namespace YunbaIot.FreeRtosTasks
open FreeRtosList

/- How many tasks there are of a kind -/
def Roll {τ : Type} (P : τ → Prop) (n : UInt32) : Prop := ∃ ts : List τ, ts.Nodup ∧ (∀ t, t ∈ ts ↔ P t) ∧ ts.length = n.toNat

section Invariant
variable {τ ε : Type}

def Blocked (t : τ) (k : Kernel τ ε) : Prop := ∃ l, container (.xGenericListItem t) k = some l ∧ Delaying l

/- The ticks until a blocked task wakes -/
def left (t : τ) (k : Kernel τ ε) : Nat := (wakeTime t k - k.xTickCount).toNat

def Made (t : τ) (k : Kernel τ ε) : Prop := container (.xGenericListItem t) k ≠ none

/- What holds of the kernel between any two of its steps -/
structure Inv (idle : τ) (k : Kernel τ ε) : Prop where
  sound : Sound k
  ahead : Ahead k
  held : ∀ t, container (.xEventListItem t) k ≠ none →
    Blocked t k ∨ container (.xGenericListItem t) k = some .xSuspendedTaskList
  idle : ∃ p, container (.xGenericListItem idle) k = some (.pxReadyTasksLists p)
  current : k.pxCurrentTCB ≠ none
  made : Roll (Made · k) k.uxCurrentNumberOfTasks
  running : k.xSchedulerRunning = true

/- What no tick and no wake-up touches -/
structure Steady (k k' : Kernel τ ε) : Prop where
  priority : k'.uxPriority = k.uxPriority
  base : k'.uxBasePriority = k.uxBasePriority
  current : k'.pxCurrentTCB = k.pxCurrentTCB
  number : k'.uxCurrentNumberOfTasks = k.uxCurrentNumberOfTasks
  running : k'.xSchedulerRunning = k.xSchedulerRunning
  suspended : k'.uxSchedulerSuspended = k.uxSchedulerSuspended

theorem steadyTrans {k k' k'' : Kernel τ ε} (first : Steady k k') (second : Steady k' k'') : Steady k k'' :=
  ⟨second.priority.trans first.priority,second.base.trans first.base,second.current.trans first.current,
    second.number.trans first.number,second.running.trans first.running,second.suspended.trans first.suspended⟩

theorem readiedSteady {S : τ → Prop} {k k' : Kernel τ ε} (change : Readied S k k') : Steady k k' := by
  obtain ⟨_,_,_,same⟩ := change.rest
  rw [same]
  exact ⟨rfl,rfl,rfl,rfl,rfl,rfl⟩

/- Every blocked task comes n ticks closer to its time, those it has come for are ready. -/
structure Elapsed (n : Nat) (k k' : Kernel τ ε) : Prop where
  due : ∀ t, Blocked t k → 0 < n → left t k ≤ n →
    container (.xGenericListItem t) k' = some (.pxReadyTasksLists (k.uxPriority t)) ∧ container (.xEventListItem t) k' = none
  still : ∀ t, Blocked t k → n = 0 ∨ n < left t k →
    Blocked t k' ∧ left t k' = left t k - n ∧ container (.xEventListItem t) k' = container (.xEventListItem t) k
  rest : ∀ t, ¬Blocked t k → container (.xGenericListItem t) k' = container (.xGenericListItem t) k ∧
    container (.xEventListItem t) k' = container (.xEventListItem t) k
  steady : Steady k k'
  tick : k'.xTickCount = k.xTickCount + UInt32.ofNat n

theorem readyUnblocked {t : τ} {k : Kernel τ ε} {p : Priority}
    (there : container (.xGenericListItem t) k = some (.pxReadyTasksLists p)) : ¬Blocked t k := by
  rintro ⟨l,other,delaying⟩
  rw [there] at other
  cases other
  simp [Delaying] at delaying

theorem elapsedTrans {n m : Nat} {k k' k'' : Kernel τ ε} (first : Elapsed n k k') (second : Elapsed m k' k'') :
    Elapsed (n + m) k k'' := by
  refine ⟨fun t blocked some_time soon => ?_,fun t blocked later => ?_,fun t free => ?_,
    steadyTrans first.steady second.steady,?_⟩
  · by_cases early : n = 0 ∨ n < left t k
    · obtain ⟨blocked',closer,_⟩ := first.still t blocked early
      have := second.due t blocked' (by omega) (by omega)
      rwa [first.steady.priority] at this
    · obtain ⟨ready,gone⟩ := first.due t blocked (by omega) (by omega)
      obtain ⟨generic,event⟩ := second.rest t (readyUnblocked ready)
      rw [generic, event]
      exact ⟨ready,gone⟩
  · obtain ⟨blocked',closer,event⟩ := first.still t blocked (by omega)
    obtain ⟨blocked'',closer',event'⟩ := second.still t blocked' (by omega)
    exact ⟨blocked'',by omega,event'.trans event⟩
  · obtain ⟨generic,event⟩ := first.rest t free
    have free' : ¬Blocked t k' := by
      unfold Blocked
      rw [generic]
      exact free
    obtain ⟨generic',event'⟩ := second.rest t free'
    exact ⟨generic'.trans generic,event'.trans event⟩
  · rw [second.tick, first.tick, UInt32.add_assoc, UInt32.ofNat_add]

theorem delayingIs {k : Kernel τ ε} {r : ListName ε → List (Item τ)} (core : Core k r) {l : ListName ε} (delaying : Delaying l) :
    l = k.pxDelayedTaskList ∨ l = k.pxOverflowDelayedTaskList := by
  rcases core.two with ⟨a,b⟩ | ⟨a,b⟩ <;> rcases delaying with rfl | rfl <;> simp [a, b]

theorem awaitsOf {k : Kernel τ ε} {r : ListName ε → List (Item τ)} (core : Core k r) {l : ListName ε} (delaying : Delaying l)
    {t : τ} (there : container (.xGenericListItem t) k = some l) : Awaits k l t := by
  have fits := core.fits _ l there
  rcases delaying with rfl | rfl <;> exact fits

/- Between the tick and the loop nothing that is due is lost. -/
def AtHand (k : Kernel τ ε) : Prop := ∀ t, container (.xGenericListItem t) k = some k.pxDelayedTaskList →
  k.xNextTaskUnblockTime ≤ wakeTime t k

theorem fitsRetimed {k k' : Kernel τ ε} {l : ListName ε} {i : Item τ} (fits : Fits k l i) (priority : k'.uxPriority = k.uxPriority) (top : k'.uxTopReadyPriority = k.uxTopReadyPriority)
    (awaits : ∀ t, i = .xGenericListItem t → Delaying l → Awaits k' l t) : Fits k' l i := by
  cases i with
  | xEventListItem t => cases l <;> exact fits
  | xGenericListItem t =>
    cases l with
    | pxReadyTasksLists p => exact ⟨priority ▸ fits.1,top ▸ fits.2⟩
    | xDelayedTaskList1 => exact awaits t rfl (Or.inl rfl)
    | xDelayedTaskList2 => exact awaits t rfl (Or.inr rfl)
    | _ => exact fits

end Invariant

section Advancing
variable {τ ε : Type} {idle : τ} {k : Kernel τ ε}

theorem tickOn (t : UInt32) : (t + 1).toNat = if t.toNat + 1 = 2 ^ 32 then 0 else t.toNat + 1 := by
  have := t.toNat_lt
  rw [UInt32.toNat_add]
  simp only [UInt32.reduceToNat]
  split <;> omega

/- What the tick count itself does; the tasks are those that the loop is to wake. -/
structure Advanced (k k' : Kernel τ ε) : Prop where
  sound : Sound k'
  hand : AtHand k'
  woken : ∀ t, Woken k' t ↔ Blocked t k ∧ left t k ≤ 1
  steady : Steady k k'
  lists : k'.lists = k.lists
  tick : k'.xTickCount = k.xTickCount + 1
  pended : k'.uxPendedTicks = k.uxPendedTicks

theorem lastTick {tick : UInt32} (wraps : tick + 1 = 0) : tick.toNat + 1 = 2 ^ 32 := by
  have on := tickOn tick
  rw [wraps, UInt32.toNat_zero] at on
  split at on <;> omega

theorem nextTick {tick : UInt32} (stays : tick + 1 ≠ 0) : (tick + 1).toNat = tick.toNat + 1 := by
  have on := tickOn tick
  split at on
  · exact absurd (UInt32.toNat_inj.mp on) stays
  · exact on

/- The lists are switched when no task is left on the current one. -/
theorem advancedOver (inv : Inv idle k) (wraps : k.xTickCount + 1 = 0) : ∃ k', advance k = some k' ∧ Advanced k k' := by
  obtain ⟨r,core⟩ := inv.sound
  have last := lastTick wraps
  have nobody : ∀ t, container (.xGenericListItem t) k ≠ some k.pxDelayedTaskList := fun t there =>
    (inv.ahead t there).1.2 wraps
  let switched : UInt32 → Kernel τ ε := fun next => { k with
    xTickCount := k.xTickCount + 1, pxDelayedTaskList := k.pxOverflowDelayedTaskList
    pxOverflowDelayedTaskList := k.pxDelayedTaskList, xNumOfOverflows := k.xNumOfOverflows + 1
    xNextTaskUnblockTime := next }
  have core' : ∀ next, Core (switched next) r := by
    refine fun next => ⟨core.shows,core.two.symm.imp And.symm And.symm,fun i l there => ?_,core.sorted⟩
    refine fitsRetimed (core.fits i l there) rfl rfl fun t same delaying old => ?_
    subst same
    rw [show l = k.pxDelayedTaskList from old] at there
    exact absurd there (nobody t)
  have woken : ∀ next t, Woken (switched next) t ↔ Blocked t k ∧ left t k ≤ 1 := by
    intro next t
    have first : wakeTime t k ≤ k.xTickCount + 1 ↔ wakeTime t k = 0 := by rw [wraps, UInt32.le_zero_iff]
    -- what is on the other list wakes before the last value of the counter
    have due : container (.xGenericListItem t) k = some k.pxOverflowDelayedTaskList → (left t k ≤ 1 ↔ wakeTime t k = 0) := by
      intro there
      have early := UInt32.lt_iff_toNat_lt.mp (awaitsOf core (delayedIs core).2.1 there rfl)
      unfold left
      rw [UInt32.toNat_sub, ← UInt32.toNat_inj, UInt32.toNat_zero]
      omega
    constructor
    · rintro ⟨there,now⟩
      exact ⟨⟨_,there,(delayedIs core).2.1⟩,(due there).mpr (first.mp now)⟩
    · rintro ⟨⟨l,there,delaying⟩,soon⟩
      rcases delayingIs core delaying with rfl | rfl
      · exact absurd there (nobody t)
      · exact ⟨there,first.mpr ((due there).mp soon)⟩
  have steady : ∀ next, Steady k (switched next) := fun next => ⟨rfl,rfl,rfl,rfl,rfl,rfl⟩
  unfold advance
  dsimp only
  rw [if_pos wraps]
  unfold taskSwitchDelayedLists
  dsimp only
  rcases tasks : r k.pxOverflowDelayedTaskList with _ | ⟨i,rest⟩
  · rw [if_pos ((emptyShows core.shows _).mpr tasks)]
    refine ⟨switched portMaxDelay,rfl,⟨r,core' _⟩,fun t there => ?_,woken _,steady _,rfl,rfl,rfl⟩
    have : Item.xGenericListItem t ∈ r k.pxOverflowDelayedTaskList := (core.shows.container _ _).mpr there
    rw [tasks] at this
    cases this
  · have delaying := (delayedIs core).2.1
    obtain ⟨t,rfl,head⟩ := headGeneric core delaying tasks
    rw [if_neg (by rw [emptyShows core.shows, tasks]; simp)]
    have first : headTask k.pxOverflowDelayedTaskList (switched k.xNextTaskUnblockTime) = some t := head
    refine ⟨switched (wakeTime t k),congrArg (Option.map _) first,⟨r,core' _⟩,fun s there => ?_,woken _,steady _,rfl,rfl,rfl⟩
    exact headFirst core delaying tasks there

theorem advancedOn (inv : Inv idle k) (stays : k.xTickCount + 1 ≠ 0) : ∃ k', advance k = some k' ∧ Advanced k k' := by
  obtain ⟨r,core⟩ := inv.sound
  have on := nextTick stays
  have low := (k.xTickCount + 1).toNat_lt
  unfold advance
  dsimp only
  rw [if_neg stays]
  refine ⟨_,rfl,⟨r,core.shows,core.two,fun i l there => ?_,core.sorted⟩,fun t there => (inv.ahead t there).2,fun t => ?_,
    ⟨rfl,rfl,rfl,rfl,rfl,rfl⟩,rfl,rfl,rfl⟩
  · refine fitsRetimed (core.fits i l there) rfl rfl fun t same delaying old => ?_
    subst same
    have := UInt32.lt_iff_toNat_lt.mp (awaitsOf core delaying there old)
    show wakeTime t k < k.xTickCount + 1
    rw [UInt32.lt_iff_toNat_lt]
    omega
  · constructor
    · rintro ⟨there,now⟩
      have not_past := UInt32.le_iff_toNat_le.mp (inv.ahead t there).1.1
      have reached : (wakeTime t k).toNat ≤ (k.xTickCount + 1).toNat := UInt32.le_iff_toNat_le.mp now
      refine ⟨⟨_,there,(delayedIs core).1⟩,?_⟩
      unfold left
      rw [UInt32.toNat_sub]
      omega
    · rintro ⟨⟨l,there,delaying⟩,soon⟩
      unfold left at soon
      rw [UInt32.toNat_sub] at soon
      rcases delayingIs core delaying with rfl | rfl
      · have not_past := UInt32.le_iff_toNat_le.mp (inv.ahead t there).1.1
        have := (wakeTime t k).toNat_lt
        refine ⟨there,UInt32.le_iff_toNat_le.mpr ?_⟩
        show (wakeTime t k).toNat ≤ (k.xTickCount + 1).toNat
        omega
      · have := UInt32.lt_iff_toNat_lt.mp (awaitsOf core delaying there rfl)
        omega

theorem advanced (inv : Inv idle k) : ∃ k', advance k = some k' ∧ Advanced k k' :=
  if wraps : k.xTickCount + 1 = 0 then advancedOver inv wraps else advancedOn inv wraps

theorem leftAdvanced {k' : Kernel τ ε} {t : τ} (advanced : Advanced k k') (later : 1 < left t k) : left t k' = left t k - 1 := by
  have a := (wakeTime t k).toNat_lt
  have b := k.xTickCount.toNat_lt
  unfold left wakeTime at later ⊢
  rw [UInt32.toNat_sub] at later
  rw [advanced.lists, advanced.tick, UInt32.toNat_sub, UInt32.toNat_sub, tickOn]
  unfold wakeTime at a
  split <;> omega

theorem rollCongr {P Q : τ → Prop} {n m : UInt32} (roll : Roll P n) (same : ∀ t, P t ↔ Q t) (number : m = n) : Roll Q m := by
  obtain ⟨ts,once,members,length⟩ := roll
  exact ⟨ts,once,fun t => (members t).trans (same t),number ▸ length⟩

end Advancing

section Ticking
variable {τ ε : Type} [DecidableEq τ] [DecidableEq ε] {idle : τ} {k : Kernel τ ε}

theorem expired (sound : Sound k) (hand : AtHand k) (current : k.pxCurrentTCB ≠ none) : ∃ b k', expire k = some (b,k') ∧
    Sound k' ∧ Readied (Woken k) k k' ∧ Ahead k' := by
  obtain ⟨r,core⟩ := sound
  unfold expire
  by_cases due : k.xTickCount ≥ k.xNextTaskUnblockTime
  · rw [if_pos due]
    refine unblockSound _ k r false core current ?_
    rw [listCurrentListLength, core.shows.count]
    omega
  · rw [if_neg due]
    have later : ∀ t, container (.xGenericListItem t) k = some k.pxDelayedTaskList → k.xTickCount < wakeTime t k :=
      fun t there => UInt32.lt_of_lt_of_le (UInt32.not_le.mp due) (hand t there)
    exact ⟨false,k,rfl,⟨r,core⟩,readiedCongr (readiedNone k) fun t => iff_of_false (fun none => none)
      fun woken => UInt32.not_le.mpr (later t woken.1) woken.2,fun t there => laterTimely (later t there) (hand t there)⟩

theorem tickSound (inv : Inv idle k) (running : k.uxSchedulerSuspended = 0) : ∃ b k', xTaskIncrementTick k = some (b,k') ∧
    Inv idle k' ∧ Elapsed 1 k k' ∧ k'.uxPendedTicks = k.uxPendedTicks := by
  obtain ⟨k₁,moved,first⟩ := advanced inv
  obtain ⟨b,k₂,ran,sound₂,readied,ahead⟩ := expired first.sound first.hand (by rw [first.steady.current]; exact inv.current)
  have steady := steadyTrans first.steady (readiedSteady readied)
  have places : ∀ i, container i k₁ = container i k := fun i => by unfold container; rw [first.lists]
  obtain ⟨c,known⟩ := Option.ne_none_iff_exists'.mp inv.current
  have elapsed : Elapsed 1 k k₂ := by
    refine ⟨fun t blocked _ soon => ?_,fun t blocked later => ?_,fun t free => ?_,steady,?_⟩
    · have := readied.moved t ((first.woken t).mpr ⟨blocked,soon⟩)
      rwa [first.steady.priority] at this
    · obtain ⟨generic,event⟩ := readied.kept t fun woken => by
        have := ((first.woken t).mp woken).2
        omega
      rw [places] at generic event
      refine ⟨?_,?_,event⟩
      · unfold Blocked
        rw [generic]
        exact blocked
      · rw [← leftAdvanced first (by omega)]
        obtain ⟨_,_,_,same⟩ := readied.rest
        unfold left wakeTime listGetListItemValue
        rw [readied.values, same]
    · obtain ⟨generic,event⟩ := readied.kept t fun woken => free ((first.woken t).mp woken).1
      rw [places] at generic event
      exact ⟨generic,event⟩
    · obtain ⟨_,_,_,same⟩ := readied.rest
      rw [same]
      exact first.tick
  obtain ⟨_,_,_,fields⟩ := readied.rest
  refine ⟨b || listCurrentListLength (.pxReadyTasksLists (k₂.uxPriority c)) k₂.lists > 1,k₂,?_,?_,elapsed,?_⟩
  · unfold xTaskIncrementTick
    rw [if_pos running, moved]
    have pointer : k₂.pxCurrentTCB = some c := steady.current.trans known
    simp [ran, currentPriority, pointer]
  · refine ⟨sound₂,ahead,fun t waits => ?_,?_,by rw [steady.current]; exact inv.current,?_,steady.running.trans inv.running⟩
    · by_cases blocked : Blocked t k
      · by_cases soon : left t k ≤ 1
        · exact absurd (elapsed.due t blocked Nat.one_pos soon).2 waits
        · exact Or.inl (elapsed.still t blocked (by omega)).1
      · obtain ⟨generic,event⟩ := elapsed.rest t blocked
        rw [event] at waits
        rw [generic]
        exact Or.inr ((inv.held t waits).resolve_left blocked)
    · obtain ⟨p,there⟩ := inv.idle
      exact ⟨p,(elapsed.rest idle (readyUnblocked there)).1.trans there⟩
    · refine rollCongr inv.made (fun t => ?_) steady.number
      by_cases blocked : Blocked t k
      · have live : Made t k := by
          obtain ⟨l,there,_⟩ := blocked
          unfold Made
          rw [there]
          simp
        refine iff_of_true live ?_
        by_cases soon : left t k ≤ 1
        · unfold Made
          rw [(elapsed.due t blocked Nat.one_pos soon).1]
          simp
        · obtain ⟨l,there,_⟩ := (elapsed.still t blocked (by omega)).1
          unfold Made
          rw [there]
          simp
      · unfold Made
        rw [(elapsed.rest t blocked).1]
  · rw [fields]
    exact first.pended

end Ticking
end YunbaIot.FreeRtosTasks
