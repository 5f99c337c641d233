import YunbaIot.LightCalls
import Mathlib.Algebra.Order.BigOperators.Group.Finset
import Mathlib.Logic.Function.Iterate

/-! Fading comes to an end: no pass over the channels takes one away from its target, and each
brings nearer what is not there yet. -/
namespace YunbaIot.Fading
open LightAdj LightCalls

def gap (x y : UInt32) : Nat := (x.toNat - y.toNat) + (y.toNat - x.toNat)

theorem gapSame {x y : UInt32} (none : gap x y = 0) : x = y := by
  unfold gap at none
  exact UInt32.toNat_inj.mp (by omega)

theorem gapSelf (x : UInt32) : gap x x = 0 := by
  unfold gap
  omega

/-! One channel -/

/- Above this a duty could wrap round in the filter; a request in the units of the driver is
never above. -/
def top : Nat := 193275

theorem scaledTop (value : UInt32) : (scaled value).toNat ≤ top := by
  have whole : (value * pwmDepth).toNat ≤ 4294967295 := Nat.le_of_lt_succ (UInt32.toNat_lt _)
  have units : (scaled value).toNat = (value * pwmDepth).toNat / 22222 := UInt32.toNat_div _ _
  have greatest : 4294967295 / 22222 = top := rfl
  rw [units, ← greatest]
  exact Nat.div_le_div_right whole

theorem absMinusGap (x y : UInt32) : (absMinus x y).toNat = gap x y := by
  unfold absMinus gap
  split
  · rename_i below
    have less : x.toNat < y.toNat := UInt32.lt_iff_toNat_lt.mp below
    rw [UInt32.toNat_sub_of_le y x (UInt32.le_iff_toNat_le.mpr (Nat.le_of_lt less))]
    omega
  · rename_i above
    have most : y.toNat ≤ x.toNat := Nat.le_of_not_lt fun less => above (UInt32.lt_iff_toNat_lt.mpr less)
    rw [UInt32.toNat_sub_of_le x y (UInt32.le_iff_toNat_le.mpr most)]
    omega

theorem filterExact {now target : UInt32} (small : now.toNat ≤ top) (aimed : target.toNat ≤ top) :
    ((now * 7 + target) >>> 3).toNat = (now.toNat * 7 + target.toNat) / 8 := by
  have sum : now.toNat * 7 + target.toNat < 2 ^ 32 := by
    unfold top at small aimed
    omega
  have product : (now * 7).toNat = now.toNat * 7 := by
    rw [UInt32.toNat_mul]
    exact Nat.mod_eq_of_lt (Nat.lt_of_le_of_lt (Nat.le_add_right _ _) sum)
  have whole : (now * 7 + target).toNat = now.toNat * 7 + target.toNat := by
    rw [UInt32.toNat_add, product]
    exact Nat.mod_eq_of_lt sum
  rw [UInt32.toNat_shiftRight, whole]
  exact Nat.shiftRight_eq_div_pow _ 3

/- The filter rounds down: from below it may stand still, but only so near that it is snapped. -/
theorem nearerGap {now target : UInt32} (small : now.toNat ≤ top) (aimed : target.toNat ≤ top) :
    (nearer now target).toNat ≤ top ∧ gap (nearer now target) target ≤ gap now target ∧
      (now ≠ target → gap (nearer now target) target < gap now target) := by
  have filtered := filterExact small aimed
  have apart : now ≠ target → now.toNat ≠ target.toNat := fun differ same => differ (UInt32.toNat_inj.mp same)
  unfold nearer
  dsimp only
  split
  · rw [gapSelf]
    refine ⟨aimed,Nat.zero_le _,fun differ => ?_⟩
    have different := apart differ
    unfold gap
    omega
  · rename_i far
    have wide : 20 ≤ gap ((now * 7 + target) >>> 3) target := by
      rw [← absMinusGap]
      exact Nat.le_of_not_lt fun less => far (UInt32.lt_iff_toNat_lt.mpr less)
    unfold gap at wide ⊢
    rw [filtered] at wide ⊢
    refine ⟨?_,?_,fun differ => ?_⟩
    · omega
    · omega
    · have different := apart differ
      omega

variable {δ : Type}

/-! What all calls keep -/

/- Nowhere a duty that could wrap round. -/
structure Within (s : Light δ) : Prop where
  now : ∀ i, (s.dutyNow i).toNat ≤ top
  target : ∀ i, (s.currentDuty i).toNat ≤ top
  events : ∀ slot k, ((s.lightEvtArr slot).duty k).toNat ≤ top

theorem filledTop {tmp : PwmParam} (small : ∀ k, (tmp.duty k).toNat ≤ top) (r g b cw ww period : UInt32) (k : Fin 8) :
    ((filled r g b cw ww period tmp).duty k).toNat ≤ top := by
  unfold filled update
  dsimp only
  split
  · exact scaledTop ww
  · split
    · exact scaledTop cw
    · split
      · exact scaledTop b
      · split
        · exact scaledTop g
        · split
          · exact scaledTop r
          · exact small k

theorem fillWithin {s : Light δ} (within : Within s) (total next : UInt8) (slot : Nat) (r g b cw ww period : UInt32) :
    Within { s with
      totalUsedLightEvtNum := total
      curFreeLightEvtIdx := next
      lightEvtArr := update s.lightEvtArr slot (filled r g b cw ww period (s.lightEvtArr slot)) } := by
  refine ⟨within.now,within.target,fun j => ?_⟩
  dsimp only
  by_cases here : j = slot
  · rw [here, updateAt]
    exact filledTop (within.events slot) r g b cw ww period
  · rw [updateOther _ _ here]
    exact within.events j

theorem bootWithin (driver : δ) : Within (boot driver) := ⟨fun _ => Nat.zero_le _,fun _ => Nat.zero_le _,fun _ _ => Nat.zero_le _⟩

variable [Pwm δ]

theorem passWithin (s : Light δ) (within : Within s) : Within (pwmStart (adjustChannels s)) := by
  obtain ⟨_,_,same,_⟩ := adjusted s
  rw [same]
  exact ⟨fun i => (nearerGap (within.now i) (within.target i)).1,within.target,within.events⟩

theorem takeWithin (s : Light δ) (_ : 0 < s.totalUsedLightEvtNum) (within : Within s) : Within (takeEvent s) := by
  obtain ⟨_,_,same⟩ := takenEvent s
  rw [same]
  exact ⟨within.now,fun i => within.events _ _,within.events⟩

theorem callsWithin (depth : Nat) :
    (∀ s t : Light δ, Within s → lightPwmDhAdjProc depth s = some t → Within t) ∧
    (∀ s t : Light δ, Within s → lightPwmSmoothAdjProc depth s = some t → Within t) :=
  bothKeep passWithin (fun _ _ _ within => ⟨within.now,within.target,within.events⟩) takeWithin
    (fun _ _ within => ⟨within.now,within.target,within.events⟩) depth

theorem stepWithin (s : Light δ) (call : Call) (within : Within s) : Within (step s call) := by
  cases call with
  | timer => exact (callsWithin _).1 s _ within (timerReturns s)
  | aim r g b cw ww period =>
    obtain ⟨_,refused⟩ | ⟨next,slot,returns⟩ := aimCases s r g b cw ww period
    · rw [refused]
      exact within
    · exact (callsWithin _).2 _ _ (fillWithin within _ next slot r g b cw ww period) returns

theorem initWithin (driver : δ) : Within (userLightInit driver) := by
  refine initKeeps (fun _ _ within => ⟨within.now,within.target,within.events⟩) ?_
  exact stepWithin (boot driver) (.aim appMaxPwm appMaxPwm appMaxPwm appMaxPwm appMaxPwm 1000) (bootWithin driver)

theorem runWithin (driver : δ) (calls : List Call) : Within (Run.run step (userLightInit driver) calls) :=
  Run.runInvariant stepWithin calls (initWithin driver)

/-! What one call does -/

section Gives

variable (gives : Gives δ)
include gives

theorem passEffect (s : Light δ) :
    let p := pwmStart (adjustChannels s)
    p.dutyNow = faded s ∧ p.pwmDuty = faded s ∧ p.currentDuty = s.currentDuty := by
  obtain ⟨_,_,same,last⟩ := adjusted s
  rw [same]
  exact ⟨rfl,last gives,rfl⟩

theorem dhEffect {depth : Nat} {s t : Light δ} (empty : s.totalUsedLightEvtNum.toNat = 0)
    (returns : lightPwmDhAdjProc depth s = some t) :
    t.dutyNow = faded s ∧ t.pwmDuty = faded s ∧ t.currentDuty = s.currentDuty ∧
      (t.changeFinish = true ↔ faded s = s.currentDuty) := by
  obtain ⟨now,duty,target⟩ := passEffect gives s
  have total := adjustedTotal s
  generalize passed : pwmStart (adjustChannels s) = p at now duty target total
  have differs := diffExact p
  rw [duty, target] at differs
  cases depth with
  | zero => cases returns
  | succ depth =>
    by_cases differ : checkPwmCurrentDutyDiff p = true
    · rw [dhDiffers passed depth differ] at returns
      cases returns
      exact ⟨now,duty,target,iff_of_false Bool.false_ne_true (differs.mp differ)⟩
    · have there : faded s = s.currentDuty := not_not.mp fun apart => differ (differs.mpr apart)
      rw [dhReached passed depth differ] at returns
      have none : ¬0 < p.totalUsedLightEvtNum := by
        rw [total]
        exact Nat.not_lt_of_le (Nat.le_of_eq empty)
      obtain ⟨asleep,rfl⟩ := smoothRests (s := { p with changeFinish := true, timerArmed := false }) none returns
      exact ⟨now,duty,target,iff_of_true rfl there⟩

/- Against the targets behind it, a call leaves every channel where it is or fades it once. -/
def Moves (s t : Light δ) : Prop :=
  (s.changeFinish = false ∧ t.dutyNow = s.dutyNow ∧ t.pwmDuty = s.pwmDuty) ∨
    ((∀ i, t.dutyNow i = nearer (s.dutyNow i) (t.currentDuty i)) ∧ t.pwmDuty = t.dutyNow)

theorem dhMoves {depth : Nat} {s t : Light δ} (empty : s.totalUsedLightEvtNum.toNat = 0)
    (returns : lightPwmDhAdjProc depth s = some t) : Moves s t := by
  obtain ⟨now,duty,target,_⟩ := dhEffect gives empty returns
  right
  rw [now, duty, target]
  exact ⟨fun _ => rfl,rfl⟩

/- With one event the passes end after it. -/
theorem smoothMoves {depth : Nat} {s t : Light δ} (one : s.totalUsedLightEvtNum.toNat = 1)
    (returns : lightPwmSmoothAdjProc depth s = some t) : Moves s t := by
  have waits : 0 < s.totalUsedLightEvtNum := UInt8.lt_iff_toNat_lt.mpr (one ▸ Nat.one_pos)
  have left : (takeEvent s).totalUsedLightEvtNum.toNat = 0 := by
    have total := takenTotal waits
    omega
  obtain ⟨_,_,same⟩ := takenEvent s
  have now : (takeEvent s).dutyNow = s.dutyNow := by rw [same]
  have duty : (takeEvent s).pwmDuty = s.pwmDuty := by rw [same]
  have finish : (takeEvent s).changeFinish = s.changeFinish := by rw [same]
  cases depth with
  | zero => cases returns
  | succ depth =>
    rw [smoothWaits depth waits] at returns
    split at returns
    · obtain ⟨u,nested,rfl⟩ := Option.map_eq_some_iff.mp returns
      obtain ⟨asleep,quiet⟩ := settled u
      rw [quiet]
      have moves := dhMoves gives left nested
      unfold Moves at moves ⊢
      rw [now, duty, finish] at moves
      exact moves
    · rename_i going
      obtain ⟨asleep,quiet⟩ := settled (takeEvent s)
      rw [quiet] at returns
      cases returns
      exact .inl ⟨finish ▸ Bool.eq_false_of_not_eq_true going,now,duty⟩

theorem stepMoves {s : Light δ} (empty : s.totalUsedLightEvtNum.toNat = 0) (call : Call) : Moves s (step s call) := by
  cases call with
  | timer => exact dhMoves gives empty (timerReturns s)
  | aim r g b cw ww period =>
    have none : s.totalUsedLightEvtNum = 0 := UInt8.toNat_inj.mp empty
    obtain ⟨full,_⟩ | ⟨next,slot,returns⟩ := aimCases s r g b cw ww period
    · rw [none] at full
      exact absurd full (by decide)
    · have moves := fun one => smoothMoves gives one returns
      refine moves ?_
      rw [none]
      rfl

/-! Whole runs -/

theorem initEven (driver : δ) : (userLightInit driver).pwmDuty = (userLightInit driver).dutyNow := by
  refine @initKeeps δ _ (fun s => s.pwmDuty = s.dutyNow) (fun _ _ even => even) driver ?_
  have start : (boot driver).totalUsedLightEvtNum.toNat = 0 := rfl
  obtain ⟨going,_⟩ | ⟨_,even⟩ := stepMoves gives start
    (.aim appMaxPwm appMaxPwm appMaxPwm appMaxPwm appMaxPwm 1000)
  · cases going
  · exact even

theorem stepEven {s : Light δ} (empty : s.totalUsedLightEvtNum.toNat = 0) (call : Call) (even : s.pwmDuty = s.dutyNow) :
    (step s call).pwmDuty = (step s call).dutyNow := by
  obtain ⟨_,now,duty⟩ | ⟨_,passed⟩ := stepMoves gives empty call
  · rw [now, duty, even]
  · exact passed

theorem runEven (driver : δ) (calls : List Call) :
    (Run.run step (userLightInit driver) calls).pwmDuty = (Run.run step (userLightInit driver) calls).dutyNow :=
  (@Run.runInvariant (Light δ) Call step (fun s => s.totalUsedLightEvtNum.toNat = 0 ∧ s.pwmDuty = s.dutyNow)
    (fun _ call ready => ⟨stepEmpties call ready.1,stepEven gives ready.1 call ready.2⟩) (userLightInit driver) calls
    ⟨initEmpties driver,initEven gives driver⟩).2

theorem stepNearer {s : Light δ} (within : Within s) (empty : s.totalUsedLightEvtNum.toNat = 0)
    (even : s.pwmDuty = s.dutyNow) (call : Call) (i : Channel) :
    gap ((step s call).pwmDuty i) ((step s call).currentDuty i) ≤ gap (s.pwmDuty i) ((step s call).currentDuty i) := by
  obtain ⟨_,_,duty⟩ | ⟨faded,passed⟩ := stepMoves gives empty call
  · rw [duty]
  · rw [passed, faded, even]
    exact (nearerGap (within.now i) ((stepWithin s call within).target i)).2.1

def distance (s : Light δ) : Nat := ∑ i, gap (s.dutyNow i) (s.currentDuty i)

theorem timerNearer {s : Light δ} (within : Within s) (empty : s.totalUsedLightEvtNum.toNat = 0)
    (going : faded s ≠ s.currentDuty) : distance (timerFires s) < distance s := by
  obtain ⟨now,_,target,_⟩ := dhEffect gives empty (timerReturns s)
  obtain ⟨i,apart⟩ := Function.ne_iff.mp going
  have channel (j : Channel) : gap (faded s j) (s.currentDuty j) ≤ gap (s.dutyNow j) (s.currentDuty j) :=
    (nearerGap (within.now j) (within.target j)).2.1
  have less : gap (faded s i) (s.currentDuty i) < gap (s.dutyNow i) (s.currentDuty i) := by
    refine (nearerGap (within.now i) (within.target i)).2.2 fun same => apart (gapSame ?_)
    have still := channel i
    rw [same, gapSelf] at still
    exact Nat.eq_zero_of_le_zero still
  unfold distance
  rw [now, target]
  exact Finset.sum_lt_sum (fun j _ => channel j) ⟨i,Finset.mem_univ i,less⟩

theorem fadeReaches (bound : Nat) {s : Light δ} (within : Within s) (empty : s.totalUsedLightEvtNum.toNat = 0)
    (near : distance s < bound) :
    ∃ n, (timerFires^[n + 1] s).changeFinish = true ∧ (timerFires^[n + 1] s).pwmDuty = s.currentDuty := by
  induction bound generalizing s with
  | zero => exact absurd near (Nat.not_lt_zero _)
  | succ bound ih =>
    obtain ⟨_,duty,target,finish⟩ := dhEffect gives empty (timerReturns s)
    by_cases there : faded s = s.currentDuty
    · exact ⟨0,finish.mpr there,duty.trans there⟩
    · have less := timerNearer gives within empty there
      obtain ⟨n,finished,reached⟩ := ih (stepWithin s .timer within) (stepEmpties .timer empty)
        (Nat.lt_of_lt_of_le less (Nat.le_of_lt_succ near))
      refine ⟨n + 1,?_⟩
      rw [Function.iterate_succ_apply]
      exact ⟨finished,reached.trans target⟩

/-- With a driver that gives back what was set last, fading comes to an end: calls nested in one
another return from any state, no call takes a duty away from its target, and calls of the timer
alone bring every duty to it. -/
theorem fadingEnds (driver : δ) (calls : List Call) :
    let s := Run.run step (userLightInit driver) calls
    (∀ u : Light δ, ∃ t, ∀ depth ≥ depthOf u, lightPwmDhAdjProc depth u = some t) ∧
    (∀ u : Light δ, ∃ t, ∀ depth ≥ depthOf u, lightPwmSmoothAdjProc depth u = some t) ∧
    (∀ call i, gap ((step s call).pwmDuty i) ((step s call).currentDuty i) ≤
      gap (s.pwmDuty i) ((step s call).currentDuty i)) ∧
    ∃ n, (timerFires^[n + 1] s).changeFinish = true ∧ (timerFires^[n + 1] s).pwmDuty = s.currentDuty := by
  intro s
  have within := runWithin driver calls
  have empty := runEmpties driver calls
  refine ⟨fun u => ?_,fun u => ?_,?_,?_⟩
  · exact (bothReturn (depthOf u)).1 u (by unfold depthOf; omega)
  · exact (bothReturn (depthOf u)).2 u (by unfold depthOf; omega)
  · exact stepNearer gives within empty (runEven gives driver calls)
  · exact fadeReaches gives (distance s + 1) within empty (Nat.lt_succ_self _)

end Gives

/- A driver as plain registers. -/
structure Registers where
  duty : Channel → UInt32
  period : UInt32

instance : Pwm Registers where
  setDuty duty channel registers := { registers with duty := update registers.duty channel duty }
  getDuty channel registers := registers.duty channel
  setPeriod period registers := { registers with period := period }
  getPeriod registers := registers.period
  start registers := registers

theorem registersGive : Gives Registers := fun duty i registers => updateAt registers.duty i duty

theorem registersEnd :
    let s := Run.run step (userLightInit (Registers.mk (fun _ => 0) 1000)) [.timer,.aim 0 11111 22222 0 0 500,.timer]
    ∃ n, (timerFires^[n + 1] s).changeFinish = true ∧ (timerFires^[n + 1] s).pwmDuty = s.currentDuty := by
  have ends := fadingEnds registersGive (Registers.mk (fun _ => 0) 1000) [.timer,.aim 0 11111 22222 0 0 500,.timer]
  obtain ⟨_,_,_,ended⟩ := ends
  exact ended

end YunbaIot.Fading
