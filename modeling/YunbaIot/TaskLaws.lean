import YunbaIot.TaskClock
import YunbaIot.TaskYield

/-! What holds of the kernel in every run, whatever tasks and interrupts do in whatever order. -/
namespace YunbaIot.FreeRtosTasks
open FreeRtosList

section States
variable {τ ε : Type} {idle : τ} {k : Kernel τ ε}

/- The tasks on each kind of list -/
structure Placed (idle : τ) (k : Kernel τ ε) : Prop where
  ready : ∀ t p, container (.xGenericListItem t) k = some (.pxReadyTasksLists p) →
    k.uxPriority t = p ∧ p ≤ k.uxTopReadyPriority ∧ container (.xEventListItem t) k = none
  delayed : ∀ t, container (.xGenericListItem t) k = some k.pxDelayedTaskList →
    k.xTickCount ≤ wakeTime t k ∧ k.xNextTaskUnblockTime ≤ wakeTime t k
  overflow : ∀ t, container (.xGenericListItem t) k = some k.pxOverflowDelayedTaskList → wakeTime t k < k.xTickCount
  switched : k.xTickCount + 1 = 0 → listListIsEmpty k.pxDelayedTaskList k.lists = true
  waiting : ∀ t, container (.xEventListItem t) k ≠ none →
    Blocked t k ∨ container (.xGenericListItem t) k = some .xSuspendedTaskList
  idle : ∃ p, container (.xGenericListItem idle) k = some (.pxReadyTasksLists p)
  number : ∃ ts : List τ, ts.Nodup ∧ (∀ t, t ∈ ts ↔ Made t k) ∧ ts.length = k.uxCurrentNumberOfTasks.toNat
  lists : ∃ r, Shows k.lists r ∧ ∀ l, Delaying l → Sorted k.lists (r l)

end States

section Runs
variable {τ ε : Type} [DecidableEq τ] [DecidableEq ε] {idle timer : τ} {k k' : Kernel τ ε}

/- Two tasks of one priority, the idle task and the timer task -/
def workers : List (Nat × UInt32) := [(2,5),(3,5)]
def started : Kernel Nat Nat := (vTaskStartScheduler 0 1 (createTasks workers initially)).get (by decide +kernel)

theorem startedBegan : vTaskStartScheduler 0 1 (createTasks workers initially) = some started := (Option.some_get _).symm

theorem startedReach : Reach 0 1 started := .start (by decide) (by decide) startedBegan

theorem startedRuns : Runs 0 2 started := by constructor <;> decide +kernel

/- With whether a caller still has to yield -/
inductive Debts (idle timer : τ) : Bool → Kernel τ ε → Prop where
  | start {tasks : List (τ × UInt32)} {k : Kernel τ ε} (once : (idle :: timer :: tasks.map Prod.fst).Nodup)
      (few : tasks.length + 2 < 2 ^ 32)
      (began : vTaskStartScheduler idle timer (createTasks tasks initially) = some k) : Debts idle timer false k
  | step {owed : Bool} {k k' : Kernel τ ε} {c : Call τ ε} : Debts idle timer owed k → Allowed idle k c →
      perform k c = some k' → Debts idle timer (due k c owed) k'

theorem debtsReach {owed : Bool} (run : Debts idle timer owed k) : Reach idle timer k := by
  induction run with
  | start once few began => exact .start once few began
  | step _ allowed done ih => exact .step ih allowed done

theorem dueStays {c : Call τ ε} {owed : Bool} (inv : Inv idle k) (allowed : Allowed idle k c)
    (before : owed = true ∨ Highest k ∨ Asked k) (done : perform k c = some k') :
    due k c owed = true ∨ Highest k' ∨ Asked k' := by
  have kept : Highest k ∨ Asked k → owes k c = true ∨ Highest k' ∨ Asked k' := fun either =>
    either.elim (fun highest => highestStays inv allowed highest done) fun asked => Or.inr (askedStays inv allowed asked done)
  cases c with
  | portYield =>
    cases done
    exact Or.inr (Or.inr (Or.inl rfl))
  | xTaskResumeAll =>
    obtain ⟨⟨b,k₁⟩,ran,rfl⟩ := Option.map_eq_some_iff.mp done
    cases b with
    | true => exact Or.inr (Or.inr (Or.inl ((resumeAllHighest inv ran).1 rfl)))
    | false =>
      rcases before with debt | either
      · exact Or.inl (by rw [due, debt, ran]; rfl)
      · exact (kept either).imp (fun no => absurd no Bool.false_ne_true) id
  | vTaskMissedYield =>
    cases done
    by_cases awake : k.uxSchedulerSuspended = 0
    · rcases before with debt | either
      · exact Or.inl (by rw [due, debt, decide_eq_true awake]; rfl)
      · exact (kept either).imp (fun no => absurd no Bool.false_ne_true) id
    · exact Or.inr (Or.inr (Or.inr ⟨awake,rfl⟩))
  | _ =>
    change (owed || owes k _) = true ∨ _
    rcases before with debt | either
    · exact Or.inl (by rw [debt]; rfl)
    · exact (kept either).imp (fun yes => by rw [yes, Bool.or_true]) id

theorem highestRuns {owed : Bool} (run : Debts idle timer owed k) : owed = true ∨ Highest k ∨ Asked k := by
  induction run with
  | start once few began =>
    obtain ⟨k₂,k,began',_,switched,inv₂,awake⟩ := startSound (ε := ε) once few
    cases began.symm.trans began'
    exact Or.inr (Or.inl (switchHighest inv₂ awake switched))
  | step run allowed done ih => exact dueStays (reachSound (debtsReach run)) allowed ih done

def sliced : Kernel Nat Nat := (xPortSysTickHandle started).get (by decide +kernel)

theorem highestRunsSliced : due started .xPortSysTickHandle false = true ∨ Highest sliced ∨ Asked sliced := by
  have allowed : Allowed 0 started .xPortSysTickHandle := trivial
  have tick : perform started .xPortSysTickHandle = some sliced := (Option.some_get _).symm
  exact highestRuns (.step (.start (by decide) (by decide) startedBegan) allowed tick)

/- Runs whose calls keep to a rule, with the ticks that have arrived and those that have passed, which the rule may know -/
inductive Course (idle : τ) (rule : Nat → Kernel τ ε → Call τ ε → Prop) : Nat → Nat → Kernel τ ε → Kernel τ ε → Prop where
  | stay (k : Kernel τ ε) : Course idle rule 0 0 k k
  | step {i n : Nat} {k k₁ k₂ : Kernel τ ε} {c : Call τ ε} : Course idle rule i n k k₁ → Allowed idle k₁ c → rule n k₁ c →
      perform k₁ c = some k₂ → Course idle rule (i + arrivals c) (n + (ticksOf k₁ c + jumpOf c)) k k₂

theorem courseInv {rule : Nat → Kernel τ ε → Call τ ε → Prop} {i n : Nat} (inv : Inv idle k)
    (course : Course idle rule i n k k') : Inv idle k' := by
  induction course with
  | stay => exact inv
  | step _ allowed _ done ih =>
    obtain ⟨k',ran,inv',_⟩ := performs (ih inv) allowed
    cases done.symm.trans ran
    exact inv'

/-! Delays -/

/- A task that waits n ticks, m of them past, for time alone or for an event that does not come -/
structure Sleeps (t : τ) (n m : Nat) (k : Kernel τ ε) : Prop where
  blocked : Blocked t k
  left : left t k + m = n
  alone : ¬Pended k t

/- A call that neither recalls the task nor makes the tick that wakes it -/
def Early (t : τ) (n m : Nat) (k : Kernel τ ε) (c : Call τ ε) : Prop :=
  ¬Recalls k t c ∧ (ticksOf k c = 0 ∨ m + ticksOf k c < n)

theorem sleepsOn {rule : Nat → Kernel τ ε → Call τ ε → Prop} {t : τ} {n s m i : Nat} (inv : Inv idle k) (sleeps : Sleeps t n s k)
    (early : ∀ m k c, rule m k c → Early t n (s + m) k c) (course : Course idle rule i m k k') : Sleeps t n (s + m) k' := by
  induction course with
  | stay => exact sleeps
  | @step i m k k₁ k₂ c course allowed kept done ih =>
    obtain ⟨blocked,time,alone⟩ := ih inv sleeps
    obtain ⟨stays,sooner⟩ := early m k₁ c kept
    obtain ⟨_,ran,_,waits⟩ := performs (courseInv inv course) allowed
    cases done.symm.trans ran
    obtain ⟨blocked',time',event⟩ := (waits t blocked alone stays).still (by omega)
    refine ⟨blocked',by omega,?_⟩
    unfold Pended
    rw [event]
    exact alone

theorem wakes {t : τ} {n m : Nat} {c : Call τ ε} (inv : Inv idle k) (sleeps : Sleeps t n m k) (allowed : Allowed idle k c)
    (stays : ¬Recalls k t c) (ticks : 0 < ticksOf k c) (time : n ≤ m + ticksOf k c) :
    ∃ k' p, perform k c = some k' ∧ container (.xGenericListItem t) k' = some (.pxReadyTasksLists p) := by
  have rest := sleeps.left
  obtain ⟨k',ran,_,waits⟩ := performs inv allowed
  obtain ⟨p,ready⟩ := (waits t sleeps.blocked sleeps.alone stays).due ticks (by omega)
  exact ⟨k',p,ran,ready⟩

theorem delaySleeps {t : τ} {n : UInt32} (inv : Inv idle k) (runs : Runs idle t k) (some_time : n ≠ 0)
    (done : delaySection n k = some k') : Inv idle k' ∧ Sleeps t n.toNat 0 k' := by
  obtain ⟨_,ran,inv',off⟩ := blockSound inv runs fun same => absurd same (laterTick some_time)
  cases done.symm.trans ran
  refine ⟨inv',off.blocked,?_,fun pended => ?_⟩
  · unfold left
    rw [off.wakes, off.others.calm.tick]
    exact congrArg UInt32.toNat (by grind)
  · unfold Pended at pended
    rw [off.event, readyAlone inv runs.ready] at pended
    cases pended

/- vTaskDelay: the task sleeps for exactly the ticks it asked for; stepped over to its time, until the next tick. -/
theorem delayExact {t : τ} {n : UInt32} {m i : Nat} {k₁ k₂ : Kernel τ ε} (reach : Reach idle timer k) (runs : Runs idle t k)
    (some_time : n ≠ 0) (done : delaySection n k = some k₁) (course : Course idle (Early t n.toNat) i m k₁ k₂) :
    Blocked t k₂ ∧ left t k₂ + m = n.toNat ∧ ∀ c, Allowed idle k₂ c → ¬Recalls k₂ t c → 0 < ticksOf k₂ c →
      n.toNat ≤ m + ticksOf k₂ c →
        ∃ k₃ p, perform k₂ c = some k₃ ∧ container (.xGenericListItem t) k₃ = some (.pxReadyTasksLists p) := by
  obtain ⟨inv₁,sleeps⟩ := delaySleeps (reachSound reach) runs some_time done
  have now := sleepsOn inv₁ sleeps (fun m k c early => (Nat.zero_add m).symm ▸ early) course
  rw [Nat.zero_add] at now
  exact ⟨now.blocked,now.left,fun c allowed stays ticks time => wakes (courseInv inv₁ course) now allowed stays ticks time⟩

/- The running task goes to sleep for three ticks; one of them comes, and the others are stepped over. -/
def dozing : Kernel Nat Nat := (delaySection 3 started).get (by decide +kernel)
def ticked : Kernel Nat Nat := (xPortSysTickHandle dozing).get (by decide +kernel)
def stepped : Kernel Nat Nat := vTaskStepTick 2 ticked

theorem delayExactStepped : Blocked 2 stepped ∧ left 2 stepped + 3 = (3 : UInt32).toNat ∧
    ∀ c, Allowed 0 stepped c → ¬Recalls stepped 2 c → 0 < ticksOf stepped c → (3 : UInt32).toNat ≤ 3 + ticksOf stepped c →
      ∃ k₃ p, perform stepped c = some k₃ ∧ container (.xGenericListItem 2) k₃ = some (.pxReadyTasksLists p) := by
  have tick : perform dozing .xPortSysTickHandle = some ticked := (Option.some_get _).symm
  have allowed : Allowed 0 dozing .xPortSysTickHandle := trivial
  have allowed' : Allowed 0 ticked (.vTaskStepTick 2) := by
    constructor <;> decide +kernel
  have counted : ticksOf dozing .xPortSysTickHandle = 1 := by decide +kernel
  have early : Early 2 (3 : UInt32).toNat 0 dozing .xPortSysTickHandle := ⟨id,Or.inr (by rw [counted]; decide)⟩
  have course : Course 0 (Early 2 (3 : UInt32).toNat) _ _ dozing ticked := .step (.stay dozing) allowed early tick
  rw [counted] at course
  have stays : Early 2 (3 : UInt32).toNat 1 ticked (.vTaskStepTick 2) := ⟨id,Or.inl rfl⟩
  have step : perform ticked (.vTaskStepTick 2) = some stepped := rfl
  exact delayExact startedReach startedRuns (by decide) (Option.some_get _).symm (.step course allowed' stays step)

/- vTaskDelayUntil: the task wakes at its period whatever has been spent of it, and goes on where all of it has. -/
theorem delayUntilExact {t : τ} {previous increment wake : UInt32} {k₁ : Kernel τ ε} (reach : Reach idle timer k)
    (runs : Runs idle t k) (done : delayUntilSection previous increment k = some (wake,k₁)) :
    wake = previous + increment ∧ (increment.toNat ≤ (k.xTickCount - previous).toNat → k₁ = k) ∧
      ((k.xTickCount - previous).toNat < increment.toNat → ∀ i m k₂,
        Course idle (fun m => Early t increment.toNat ((k.xTickCount - previous).toNat + m)) i m k₁ k₂ →
          Blocked t k₂ ∧ left t k₂ + ((k.xTickCount - previous).toNat + m) = increment.toNat ∧ ∀ c, Allowed idle k₂ c →
            ¬Recalls k₂ t c → 0 < ticksOf k₂ c → increment.toNat ≤ (k.xTickCount - previous).toNat + m + ticksOf k₂ c →
              ∃ k₃ p, perform k₂ c = some k₃ ∧ container (.xGenericListItem t) k₃ = some (.pxReadyTasksLists p)) := by
  have inv := reachSound reach
  obtain ⟨_,ran,touched,blocks,goes_on⟩ := delayUntilSound previous increment inv runs
  obtain ⟨rfl,rfl⟩ := Prod.mk.inj (Option.some.inj (done.symm.trans ran))
  refine ⟨rfl,goes_on,fun soon i m k₂ course => ?_⟩
  obtain ⟨blocked,left_over,alone⟩ := blocks soon
  have sleeps : Sleeps t increment.toNat (k.xTickCount - previous).toNat k₁ :=
    ⟨blocked,by omega,fun pended => by rw [Pended, alone] at pended; cases pended⟩
  have now := sleepsOn touched.inv sleeps (fun _ _ _ early => early) course
  exact ⟨now.blocked,now.left,fun c allowed stays ticks time => wakes (courseInv touched.inv course) now allowed stays ticks time⟩

theorem pacedSome : (delayUntilSection 0 3 started).isSome := by decide +kernel
def paced : UInt32 × Kernel Nat Nat := (delayUntilSection 0 3 started).get pacedSome

theorem delayUntilExactPaced : paced.1 = 0 + 3 ∧
    ((3 : UInt32).toNat ≤ (started.xTickCount - 0).toNat → paced.2 = started) ∧
      ((started.xTickCount - 0).toNat < (3 : UInt32).toNat → ∀ i m k₂,
        Course 0 (fun m => Early 2 (3 : UInt32).toNat ((started.xTickCount - 0).toNat + m)) i m paced.2 k₂ →
          Blocked 2 k₂ ∧ left 2 k₂ + ((started.xTickCount - 0).toNat + m) = (3 : UInt32).toNat ∧ ∀ c, Allowed 0 k₂ c →
            ¬Recalls k₂ 2 c → 0 < ticksOf k₂ c → (3 : UInt32).toNat ≤ (started.xTickCount - 0).toNat + m + ticksOf k₂ c →
              ∃ k₃ p, perform k₂ c = some k₃ ∧ container (.xGenericListItem 2) k₃ = some (.pxReadyTasksLists p)) :=
  have done : delayUntilSection 0 3 started = some paced := (Option.some_get pacedSome).symm
  delayUntilExact startedReach startedRuns (done.trans (congrArg some (Prod.eta paced).symm))

/-! Ticks and time outs -/

theorem courseClocked {rule : Nat → Kernel τ ε → Call τ ε → Prop} {i n : Nat} (inv : Inv idle k)
    (course : Course idle rule i n k k') : Clocked i n k k' := by
  induction course with
  | stay => exact sameClocked ⟨rfl,rfl,rfl,rfl⟩
  | step course allowed _ done ih => exact clockedTrans (ih inv) (callClocked (courseInv inv course) allowed done)

/- No tick is held back while the scheduler is not suspended. -/
def Settled (k : Kernel τ ε) : Prop := k.uxSchedulerSuspended = 0 → k.uxPendedTicks = 0

theorem settledCall {c : Call τ ε} (inv : Inv idle k) (allowed : Allowed idle k c) (settled : Settled k)
    (done : perform k c = some k') : Settled k' := by
  have resumes : ∀ {b : Bool} {k₁ : Kernel τ ε}, k.uxSchedulerSuspended ≠ 0 → xTaskResumeAll k = some (b,k₁) → Settled k₁ := by
    intro b k₁ held ran
    obtain ⟨_,_,ran',_,ends⟩ := resumeAllSound inv
    cases ran.symm.trans ran'
    by_cases last : k.uxSchedulerSuspended = 1
    · exact fun _ => (ends last).1
    · have more : ¬(k.uxSchedulerSuspended - 1 = 0 ∧ k.uxCurrentNumberOfTasks > 0) := fun both =>
        last ((lastSuspension _).mp both.1)
      unfold xTaskResumeAll at ran
      rw [if_neg more] at ran
      cases ran
      exact fun zero => absurd ((lastSuspension _).mp zero) last
  cases c with
  | vTaskSuspendAll =>
    cases done
    intro zero
    change k.uxSchedulerSuspended + 1 = 0 at zero
    exact absurd (show k.uxSchedulerSuspended = 0xffffffff by grind) allowed
  | xTaskResumeAll =>
    obtain ⟨⟨b,k₁⟩,ran,rfl⟩ := Option.map_eq_some_iff.mp done
    exact resumes allowed ran
  | xPortSysTickHandle =>
    obtain ⟨⟨b,k₁⟩,ticked,done⟩ := Option.bind_eq_some_iff.mp done
    have switched := tickSwitched done
    intro zero
    rw [switched.pended]
    rw [switched.suspended] at zero
    by_cases awake : k.uxSchedulerSuspended = 0
    · exact (tickClocked awake ticked).2.1.trans (settled awake)
    · rw [xTaskIncrementTick, if_neg awake] at ticked
      obtain ⟨_,rfl⟩ := Prod.mk.inj (Option.some.inj ticked)
      exact absurd zero awake
  | vTaskStepTick n =>
    cases done
    exact settled
  | _ =>
    have same := plainClock done trivial
    intro zero
    exact same.pended.trans (settled (same.suspended.symm.trans zero))

theorem courseSettled {rule : Nat → Kernel τ ε → Call τ ε → Prop} {i n : Nat} (inv : Inv idle k) (settled : Settled k)
    (course : Course idle rule i n k k') : Settled k' := by
  induction course with
  | stay => exact settled
  | step course allowed _ done ih => exact settledCall (courseInv inv course) allowed (ih inv settled) done

theorem startClock {tasks : List (τ × UInt32)}
    (began : vTaskStartScheduler idle timer (createTasks tasks initially) = some k) :
    clock k = 0 ∧ k.uxPendedTicks = 0 ∧ k.uxSchedulerSuspended = 0 := by
  have created : ∀ (tasks : List (τ × UInt32)) (k : Kernel τ ε), SameClock k (createTasks tasks k) := by
    intro tasks
    induction tasks with
    | nil => exact fun k => ⟨rfl,rfl,rfl,rfl⟩
    | cons t tasks ih => exact fun k => sameClockTrans (createClock t.1 t.2 k) (ih _)
  have before := sameClockTrans (created tasks initially) (sameClockTrans (createClock idle 0 _) (createClock timer 2 _))
  have switched := switchClock began
  refine ⟨?_,switched.pended.trans before.pended,switched.suspended.trans before.suspended⟩
  unfold clock
  rw [switched.tick, switched.overflows]
  change (xTaskGenericCreate timer 2 (xTaskGenericCreate idle 0 (createTasks tasks initially))).xNumOfOverflows.toNat * _ + 0 = 0
  rw [before.overflows]
  show (0 : UInt32).toNat * 2 ^ 32 + 0 = 0
  simp

/- No tick is lost, and none is counted twice, whether an interrupt brought it or it was stepped over. -/
theorem ticksConserved {tasks : List (τ × UInt32)} {k₀ : Kernel τ ε} {rule : Nat → Kernel τ ε → Call τ ε → Prop} {i n : Nat}
    (once : (idle :: timer :: tasks.map Prod.fst).Nodup) (few : tasks.length + 2 < 2 ^ 32)
    (began : vTaskStartScheduler idle timer (createTasks tasks initially) = some k₀) (course : Course idle rule i n k₀ k) :
    k.xTickCount + k.uxPendedTicks = UInt32.ofNat i ∧ (k.uxSchedulerSuspended = 0 → k.xTickCount = UInt32.ofNat i) ∧
      k.xTickCount = UInt32.ofNat n ∧ k.xNumOfOverflows = UInt32.ofNat (n / 2 ^ 32) := by
  obtain ⟨zero,none_held,_⟩ := startClock began
  obtain ⟨_,_,began',inv,_⟩ := startSound (ε := ε) once few
  cases began.symm.trans began'
  have counted := courseClocked inv course
  have settled := courseSettled inv (fun _ => none_held) course
  have tick₀ : k₀.xTickCount = 0 := by
    unfold clock at zero
    exact UInt32.toNat_inj.mp (by simp only [UInt32.toNat_zero]; omega)
  have kept := counted.kept
  rw [tick₀, none_held, UInt32.add_zero, UInt32.zero_add] at kept
  have time := counted.clock
  rw [zero, Nat.zero_add] at time
  have low := k.xTickCount.toNat_lt
  have high := k.xNumOfOverflows.toNat_lt
  unfold clock at time
  refine ⟨kept,fun still => ?_,UInt32.toNat_inj.mp ?_,UInt32.toNat_inj.mp ?_⟩
  · rw [settled still, UInt32.add_zero] at kept
    exact kept
  · rw [UInt32.toNat_ofNat']
    omega
  · rw [UInt32.toNat_ofNat']
    omega

theorem ticksConservedStarted : started.xTickCount + started.uxPendedTicks = UInt32.ofNat 0 ∧
    (started.uxSchedulerSuspended = 0 → started.xTickCount = UInt32.ofNat 0) ∧
      started.xTickCount = UInt32.ofNat 0 ∧ started.xNumOfOverflows = UInt32.ofNat (0 / 2 ^ 32) :=
  have course : Course 0 (fun _ _ _ => True) 0 0 started started := .stay started
  ticksConserved (by decide) (by decide) startedBegan course

/- The calls that end a suspension of the scheduler -/
def Ends (k : Kernel τ ε) : Call τ ε → Prop
  | .xTaskResumeAll => k.uxSchedulerSuspended = 1
  | _ => False

theorem reprioritiseEvent {s t : τ} {p : Priority} (done : reprioritise s p k = some k') :
    container (.xEventListItem t) k' = container (.xEventListItem t) k := by
  unfold reprioritise at done
  split at done
  · obtain ⟨k₁,gone,rfl⟩ := Option.map_eq_some_iff.mp done
    unfold container
    rw [readyPlaces, Function.update_of_ne (by simp)]
    exact (congrFun (leavePlaces gone) _).trans (Function.update_of_ne (by simp) ..)
  · cases done
    rfl

/- Calls that are neither the tick nor end a suspension leave a pending task pending. -/
theorem pendedPlain {c : Call τ ε} {t : τ} (inv : Inv idle k) (pended : Pended k t) (allowed : Allowed idle k c)
    (stays : ¬Recalls k t c) (plain : c ≠ .xPortSysTickHandle ∧ c ≠ .xTaskResumeAll)
    (done : perform k c = some k') : Pended k' t := by
  have waits : container (.xEventListItem t) k ≠ none := by
    rw [pended]
    simp
  have spared : Spared t k k' → Pended k' t := fun spared => spared.event.trans pended
  have away : ∀ {s}, Runs idle s k → t ≠ s := by
    rintro s runs rfl
    exact waits (readyAlone inv runs.ready)
  have asleep : ¬xTaskIsTaskSuspended t k = true := fun suspended => waits (suspendedIff.mp suspended).2
  cases c with
  | vTaskSuspendAll | vTaskMissedYield | portYield | vTaskStepTick =>
    cases done
    exact pended
  | delaySection n =>
    obtain ⟨some_time,s,runs⟩ := allowed
    obtain ⟨_,ran,inv',off⟩ := blockSound inv runs fun same => absurd same (laterTick some_time)
    cases done.symm.trans ran
    exact spared ((othersTouched inv' off.others).spared t (away runs))
  | delayUntilSection previous increment =>
    obtain ⟨s,runs⟩ := allowed
    obtain ⟨_,ran,touched,_⟩ := delayUntilSound previous increment inv runs
    rw [perform, ran] at done
    cases done
    exact spared (touched.spared t (away runs))
  | vTaskPlaceOnEventList e n =>
    obtain ⟨some_time,s,runs⟩ := allowed
    obtain ⟨_,ran,touched,_⟩ := placeSound (e := e) inv runs some_time
    cases done.symm.trans ran
    exact spared (touched.spared t (away runs))
  | vTaskPlaceOnEventListRestricted e n =>
    obtain ⟨room,s,runs⟩ := allowed
    obtain ⟨_,ran,touched⟩ := restrictedSound (e := e) inv runs room
    cases done.symm.trans ran
    exact spared (touched.spared t (away runs))
  | xTaskRemoveFromEventList e =>
    obtain ⟨s,posted⟩ := allowed
    obtain ⟨h,_,_,head,ran,touched,_⟩ := removeEventSound inv posted
    rw [perform, ran] at done
    cases done
    exact spared (touched.spared t fun same => stays (same ▸ head))
  | suspendSection h =>
    obtain ⟨s,handle,busy,made,_⟩ := allowed
    obtain ⟨_,ran,touched,_⟩ := suspendSound inv handle made busy
    rw [perform, ran] at done
    cases done
    exact spared (touched.spared t fun same => stays (same ▸ handle))
  | deleteSection h =>
    obtain ⟨s,handle,busy,made,_⟩ := allowed
    obtain ⟨_,ran,touched,_⟩ := deleteSound inv handle made busy
    rw [perform, ran] at done
    cases done
    exact spared (touched.spared t fun same => stays (same ▸ handle))
  | vTaskResume s =>
    obtain ⟨_,ran,touched,_⟩ := resumeSound inv s
    cases done.symm.trans ran
    by_cases mine : t = s
    · subst mine
      unfold vTaskResume at ran
      rw [if_neg asleep, ite_self] at ran
      cases ran
      exact pended
    · exact spared (touched.spared t mine)
  | xTaskResumeFromISR s =>
    obtain ⟨_,_,ran,touched,_⟩ := resumeFromISRSound inv s
    rw [perform, ran] at done
    cases done
    by_cases mine : t = s
    · subst mine
      rw [xTaskResumeFromISR, if_neg asleep] at ran
      cases ran
      exact pended
    · exact spared (touched.spared t mine)
  | vTaskPrioritySet h u =>
    obtain ⟨s,_,done⟩ := Option.bind_eq_some_iff.mp done
    dsimp only at done
    split at done
    · cases done
      exact pended
    · obtain ⟨p,_,done⟩ := Option.bind_eq_some_iff.mp done
      obtain ⟨k₁,moved,done⟩ := Option.bind_eq_some_iff.mp done
      cases done
      unfold Pended container
      rw [(yieldAlike _ k₁).lists]
      exact (reprioritiseEvent moved).trans pended
  | vTaskPriorityInherit h =>
    cases h with
    | none =>
      cases done
      exact pended
    | some s =>
      obtain ⟨p,_,done⟩ := Option.bind_eq_some_iff.mp done
      split at done
      · exact (reprioritiseEvent done).trans pended
      · cases done
        exact pended
  | vTaskPriorityDisinherit h =>
    cases h with
    | none =>
      cases done
      exact pended
    | some s =>
      obtain ⟨_,ran,touched⟩ := disinheritSound inv (allowed s rfl)
      cases done.symm.trans ran
      refine spared (touched.spared t ?_)
      rintro rfl
      exact waits (readyAlone inv (allowed t rfl))
  | createSection s u =>
    cases done
    obtain ⟨fresh,room⟩ := allowed
    refine spared ((createSound inv fresh room u).1.spared t ?_)
    rintro rfl
    exact waits fresh.2
  | freeDeleted =>
    obtain ⟨s,k₁,_,gone,_,rfl⟩ := freeRelisted done
    unfold Pended container
    rw [leavePlaces gone, Function.update_of_ne (by simp)]
    exact pended
  | SoftIsrHdl =>
    change SoftIsrHdl k = some k' at done
    unfold SoftIsrHdl at done
    split at done
    · obtain ⟨k₁,switched,rfl⟩ := Option.map_eq_some_iff.mp done
      obtain ⟨_,switched',_,spares⟩ := switchServes inv
      cases switched.symm.trans switched'
      exact (spares t).event.trans pended
    · cases done
      exact pended
  | xPortSysTickHandle => exact absurd rfl plain.1
  | xTaskResumeAll => exact absurd rfl plain.2

/- A task whose event has come while the scheduler was suspended -/
structure Remembered (t : τ) (k : Kernel τ ε) : Prop where
  asleep : k.uxSchedulerSuspended ≠ 0
  pended : Pended k t

theorem rememberedStays {c : Call τ ε} {t : τ} (inv : Inv idle k) (remembered : Remembered t k) (allowed : Allowed idle k c)
    (stays : ¬Recalls k t c) (held : ¬Ends k c) (done : perform k c = some k') : Remembered t k' := by
  obtain ⟨asleep,pended⟩ := remembered
  -- a resumption that is not the last one
  have resumes : ∀ {b : Bool} {k₁ : Kernel τ ε}, k.uxSchedulerSuspended ≠ 1 → xTaskResumeAll k = some (b,k₁) →
      Remembered t k₁ := by
    intro b k₁ last ran
    unfold xTaskResumeAll at ran
    rw [if_neg fun both => last ((lastSuspension _).mp both.1)] at ran
    cases ran
    exact ⟨fun zero => last ((lastSuspension _).mp zero),pended⟩
  cases c with
  | xTaskResumeAll =>
    obtain ⟨⟨b,k₁⟩,ran,rfl⟩ := Option.map_eq_some_iff.mp done
    exact resumes held ran
  | xPortSysTickHandle =>
    obtain ⟨⟨b,k₁⟩,ticked,done⟩ := Option.bind_eq_some_iff.mp done
    rw [xTaskIncrementTick, if_neg asleep] at ticked
    obtain ⟨rfl,rfl⟩ := Prod.mk.inj (Option.some.inj ticked)
    cases done
    exact ⟨asleep,pended⟩
  | vTaskSuspendAll =>
    cases done
    refine ⟨fun zero => allowed ?_,pended⟩
    change k.uxSchedulerSuspended + 1 = 0 at zero
    grind
  | vTaskStepTick n =>
    cases done
    exact ⟨asleep,pended⟩
  | _ =>
    refine ⟨?_,pendedPlain inv pended allowed stays ⟨by simp,by simp⟩ done⟩
    rw [(plainClock done trivial).suspended]
    exact asleep

theorem courseRemembered {t : τ} {i n : Nat} (inv : Inv idle k) (remembered : Remembered t k)
    (course : Course idle (fun _ k c => ¬Recalls k t c ∧ ¬Ends k c) i n k k') : Remembered t k' := by
  induction course with
  | stay => exact remembered
  | step course allowed kept done ih =>
    exact rememberedStays (courseInv inv course) (ih inv remembered) allowed kept.1 kept.2 done

/- The waiting task that an event is for becomes ready, at once or at the end of the suspension, whatever comes between. -/
theorem eventDelivered {e : ε} {s : τ} (reach : Reach idle timer k)
    (waits : container (.xEventListItem s) k = some (.pxEventList e)) : ∃ t b k₁, headTask (.pxEventList e) k = some t ∧
    xTaskRemoveFromEventList e k = some (b,k₁) ∧
      (k.uxSchedulerSuspended = 0 → container (.xGenericListItem t) k₁ = some (.pxReadyTasksLists (k.uxPriority t))) ∧
      (k.uxSchedulerSuspended ≠ 0 → ∀ i n k₂, Course idle (fun _ k c => ¬Recalls k t c ∧ ¬Ends k c) i n k₁ k₂ →
        ∀ c, Allowed idle k₂ c → Ends k₂ c →
          ∃ k₃ p, perform k₂ c = some k₃ ∧ container (.xGenericListItem t) k₃ = some (.pxReadyTasksLists p)) := by
  have inv := reachSound reach
  obtain ⟨t,b,k₁,head,ran,touched,ready,pends⟩ := removeEventSound inv waits
  refine ⟨t,b,k₁,head,ran,ready,fun asleep i n k₂ course c allowed ends => ?_⟩
  have asleep₁ : k₁.uxSchedulerSuspended ≠ 0 := by
    obtain ⟨_,_,_,_,_,relisted,_⟩ := removeEventRelisted ran
    rw [(relistedClock relisted).suspended]
    exact asleep
  have now := courseRemembered touched.inv ⟨asleep₁,pends asleep⟩ course
  obtain ⟨b',k',resumes,_,wakes⟩ := resumeAllSound (courseInv touched.inv course)
  cases c with
  | xTaskResumeAll =>
    obtain ⟨p,there⟩ := (wakes ends).2 t now.pended
    exact ⟨k',p,by rw [perform, resumes]; rfl,there⟩
  | _ => exact ends.elim

def waiting : Kernel Nat Nat := (vTaskPlaceOnEventList 7 10 started).get (by decide +kernel)

theorem eventDeliveredWaiting : ∃ t b k₁, headTask (.pxEventList 7) waiting = some t ∧
    xTaskRemoveFromEventList 7 waiting = some (b,k₁) ∧ (waiting.uxSchedulerSuspended = 0 →
      container (.xGenericListItem t) k₁ = some (.pxReadyTasksLists (waiting.uxPriority t))) ∧
      (waiting.uxSchedulerSuspended ≠ 0 → ∀ i n k₂, Course 0 (fun _ k c => ¬Recalls k t c ∧ ¬Ends k c) i n k₁ k₂ →
        ∀ c, Allowed 0 k₂ c → Ends k₂ c →
          ∃ k₃ p, perform k₂ c = some k₃ ∧ container (.xGenericListItem t) k₃ = some (.pxReadyTasksLists p)) := by
  have allowed : Allowed 0 started (.vTaskPlaceOnEventList 7 10) := ⟨by decide,2,startedRuns⟩
  have placed : perform started (.vTaskPlaceOnEventList 7 10) = some waiting := (Option.some_get _).symm
  have reach : Reach 0 1 waiting := .step startedReach allowed placed
  exact eventDelivered (s := 2) reach (by decide +kernel)

end Runs
end YunbaIot.FreeRtosTasks
