import YunbaIot.LightAdj
import YunbaIot.Run

/-! What the two functions that call each other do: the calls stop with the last event, and what
a pass over the channels and the taking of an event keep is kept by all of them. -/
namespace YunbaIot.LightCalls
open LightAdj

variable {δ : Type}

/-! The ring and the end of a fade -/

theorem mallocAllots {s u : Light δ} {slot : Nat} (allotted : lightEvtMalloc s = (some slot,u)) :
    ∃ next, u = { s with totalUsedLightEvtNum := s.totalUsedLightEvtNum + 1, curFreeLightEvtIdx := next } := by
  unfold lightEvtMalloc at allotted
  dsimp only at allotted
  split at allotted
  · cases allotted
  · obtain ⟨_,rfl⟩ := Prod.mk.inj allotted
    exact ⟨_,rfl⟩

theorem mallocTotal {s u : Light δ} {slot : Nat} (allotted : lightEvtMalloc s = (some slot,u)) :
    u.totalUsedLightEvtNum.toNat ≤ s.totalUsedLightEvtNum.toNat + 1 := by
  obtain ⟨next,rfl⟩ := mallocAllots allotted
  rw [UInt8.toNat_add]
  exact Nat.mod_le _ _

theorem mallocRefuses {s u : Light δ} (refused : lightEvtMalloc s = (none,u)) :
    lightEvtQnum < s.totalUsedLightEvtNum + 1 ∧ u = s := by
  unfold lightEvtMalloc at refused
  dsimp only at refused
  split at refused
  · rename_i full
    obtain ⟨_,rfl⟩ := Prod.mk.inj refused
    rw [UInt8.add_sub_cancel]
    exact ⟨full,rfl⟩
  · cases refused

theorem settled (s : Light δ) : ∃ asleep, settle s = { s with lightSleepFlg := asleep } := by
  unfold settle
  split
  · split
    · exact ⟨true,rfl⟩
    · exact ⟨s.lightSleepFlg,rfl⟩
  · exact ⟨s.lightSleepFlg,rfl⟩

theorem settledTotal (s : Light δ) : (settle s).totalUsedLightEvtNum = s.totalUsedLightEvtNum := by
  obtain ⟨_,same⟩ := settled s
  rw [same]

theorem diffExact (s : Light δ) : checkPwmCurrentDutyDiff s = true ↔ s.pwmDuty ≠ s.currentDuty := by
  unfold checkPwmCurrentDutyDiff
  simp [Function.ne_iff]

variable [Pwm δ]

/-! One pass over the channels -/

theorem updateAt {ι α : Type} [DecidableEq ι] (f : ι → α) (i : ι) (a : α) : update f i a i = a := if_pos rfl

theorem updateOther {ι α : Type} [DecidableEq ι] (f : ι → α) {i j : ι} (a : α) (apart : j ≠ i) : update f i a j = f j :=
  if_neg apart

/- pwm_get_duty returns what pwm_set_duty was given. -/
def Gives (δ : Type) [Pwm δ] : Prop := ∀ (duty : UInt32) (i : Channel) (driver : δ),
  Pwm.getDuty i (Pwm.setDuty duty i driver) = duty

theorem setDuty (duty : UInt32) (i : Channel) (s : Light δ) : ∃ kept driver,
    userLightSetDuty duty i s = { s with pwmDuty := kept, driver := driver } ∧
      (Gives δ → kept = update s.pwmDuty i duty) := by
  unfold userLightSetDuty
  split
  · exact ⟨_,_,rfl,fun gives => by rw [gives]⟩
  · rename_i same
    refine ⟨s.pwmDuty,s.driver,rfl,fun _ => ?_⟩
    funext j
    by_cases here : j = i
    · rw [here, updateAt]
      exact (not_not.mp same).symm
    · exact (updateOther _ _ here).symm

def faded (s : Light δ) (i : Channel) : UInt32 := nearer (s.dutyNow i) (s.currentDuty i)

theorem adjustedOne (s : Light δ) (i : Channel) : ∃ kept driver,
    adjustChannel s i = { s with dutyNow := update s.dutyNow i (faded s i), pwmDuty := kept, driver := driver } ∧
      (Gives δ → kept = update s.pwmDuty i (faded s i)) := by
  obtain ⟨kept,driver,same,last⟩ := setDuty (faded s i) i { s with dutyNow := update s.dutyNow i (faded s i) }
  refine ⟨kept,driver,?_,last⟩
  rw [← same, adjustChannel]
  simp only [updateAt, faded]

theorem adjustedMany (channels : List Channel) (once : channels.Nodup) (s : Light δ) : ∃ kept driver,
    channels.foldl adjustChannel s =
      { s with
        dutyNow := fun i => if i ∈ channels then faded s i else s.dutyNow i
        pwmDuty := kept
        driver := driver } ∧
      (Gives δ → kept = fun i => if i ∈ channels then faded s i else s.pwmDuty i) := by
  induction channels generalizing s with
  | nil => exact ⟨s.pwmDuty,s.driver,by simp,fun _ => by simp⟩
  | cons i later ih =>
    obtain ⟨fresh,others⟩ := List.nodup_cons.mp once
    obtain ⟨first,between,one,set⟩ := adjustedOne s i
    obtain ⟨kept,driver,rest,last⟩ := ih others (adjustChannel s i)
    rw [one] at rest last
    refine ⟨kept,driver,?_,fun gives => ?_⟩
    · rw [List.foldl_cons, one, rest]
      simp only [Light.mk.injEq,true_and,and_true,List.mem_cons]
      funext j
      by_cases here : j = i
      · subst here
        simp [fresh,updateAt]
      · simp [here,updateOther,faded]
    · rw [last gives, set gives]
      funext j
      by_cases here : j = i
      · subst here
        simp [fresh,updateAt]
      · simp [here,updateOther,faded]

theorem adjusted (s : Light δ) : ∃ kept driver,
    pwmStart (adjustChannels s) = { s with dutyNow := faded s, pwmDuty := kept, driver := driver } ∧
      (Gives δ → kept = faded s) := by
  obtain ⟨kept,driver,whole,last⟩ := adjustedMany (List.finRange 3) (List.nodup_finRange 3) s
  refine ⟨kept,Pwm.start driver,?_,fun gives => ?_⟩
  · rw [adjustChannels, whole, pwmStart]
    simp
  · rw [last gives]
    simp

/-! The depth of the calls -/

theorem adjustedTotal (s : Light δ) : (pwmStart (adjustChannels s)).totalUsedLightEvtNum = s.totalUsedLightEvtNum := by
  obtain ⟨_,_,same,_⟩ := adjusted s
  rw [same]

/- The channels and the duties are left as they are, and so are the events. -/
theorem takenEvent (s : Light δ) : ∃ kept driver, takeEvent s =
    { s with
      totalUsedLightEvtNum := s.totalUsedLightEvtNum - 1
      curEvtIdxToBeUse := if lightEvtQnum - 1 < s.curEvtIdxToBeUse + 1 then 0 else s.curEvtIdxToBeUse + 1
      currentDuty := asked (s.lightEvtArr s.curEvtIdxToBeUse.toNat)
      copied := s.copied ++ [asked (s.lightEvtArr s.curEvtIdxToBeUse.toNat)]
      pwmPeriod := kept
      driver := driver } := by
  unfold takeEvent userLightSetPeriod lightEvtFree
  dsimp only
  split
  · exact ⟨_,_,rfl⟩
  · exact ⟨_,_,rfl⟩

theorem takenTotal {s : Light δ} (some : 0 < s.totalUsedLightEvtNum) :
    (takeEvent s).totalUsedLightEvtNum.toNat + 1 = s.totalUsedLightEvtNum.toNat := by
  obtain ⟨kept,driver,same⟩ := takenEvent s
  have one : (1 : UInt8).toNat ≤ s.totalUsedLightEvtNum.toNat := UInt8.lt_iff_toNat_lt.mp some
  rw [same, UInt8.toNat_sub_of_le _ _ (UInt8.le_iff_toNat_le.mpr one)]
  exact Nat.sub_add_cancel one

theorem dhDiffers {s p : Light δ} (passed : pwmStart (adjustChannels s) = p) (depth : Nat)
    (differs : checkPwmCurrentDutyDiff p = true) :
    lightPwmDhAdjProc (depth + 1) s = some { p with changeFinish := false, timerArmed := true } := by
  rw [lightPwmDhAdjProc, passed, if_pos differs]

theorem dhReached {s p : Light δ} (passed : pwmStart (adjustChannels s) = p) (depth : Nat)
    (reached : ¬checkPwmCurrentDutyDiff p = true) :
    lightPwmDhAdjProc (depth + 1) s = lightPwmSmoothAdjProc depth { p with changeFinish := true, timerArmed := false } := by
  rw [lightPwmDhAdjProc, passed, if_neg reached]

theorem smoothWaits {s : Light δ} (depth : Nat) (waits : 0 < s.totalUsedLightEvtNum) :
    lightPwmSmoothAdjProc (depth + 1) s =
      if (takeEvent s).changeFinish then (lightPwmDhAdjProc depth (takeEvent s)).map settle
      else some (settle (takeEvent s)) := by
  rw [lightPwmSmoothAdjProc, if_pos waits]

theorem smoothEmpty {s : Light δ} (depth : Nat) (empty : ¬0 < s.totalUsedLightEvtNum) :
    lightPwmSmoothAdjProc (depth + 1) s = some (settle s) := by
  rw [lightPwmSmoothAdjProc, if_neg empty]

theorem smoothRests {depth : Nat} {s t : Light δ} (empty : ¬0 < s.totalUsedLightEvtNum)
    (returns : lightPwmSmoothAdjProc depth s = some t) : ∃ asleep, t = { s with lightSleepFlg := asleep } := by
  cases depth with
  | zero => cases returns
  | succ depth =>
    obtain ⟨asleep,same⟩ := settled s
    rw [smoothEmpty depth empty, same] at returns
    exact ⟨asleep,(Option.some.inj returns).symm⟩

theorem deeperThan {p : Nat → Prop} {depth : Nat} (each : ∀ more ≥ depth, p (more + 1)) : ∀ deeper ≥ depth + 1, p deeper := by
  intro deeper deep
  cases deeper with
  | zero => exact absurd deep (Nat.not_succ_le_zero depth)
  | succ more => exact each more (Nat.le_of_succ_le_succ deep)

/- Every call of the one from the other leaves less to do: an event is taken, or the pass over
the channels is done. -/
theorem bothReturn (depth : Nat) :
    (∀ s : Light δ, 2 * s.totalUsedLightEvtNum.toNat + 2 ≤ depth →
      ∃ t, ∀ deeper ≥ depth, lightPwmDhAdjProc deeper s = some t) ∧
    (∀ s : Light δ, 2 * s.totalUsedLightEvtNum.toNat + 1 ≤ depth →
      ∃ t, ∀ deeper ≥ depth, lightPwmSmoothAdjProc deeper s = some t) := by
  induction depth with
  | zero => exact ⟨fun _ enough => by omega,fun _ enough => by omega⟩
  | succ depth ih =>
    obtain ⟨fade,smooth⟩ := ih
    constructor
    · intro s enough
      have total := adjustedTotal s
      by_cases differs : checkPwmCurrentDutyDiff (pwmStart (adjustChannels s)) = true
      · exact ⟨_,deeperThan fun more _ => dhDiffers rfl more differs⟩
      · obtain ⟨t,returns⟩ := smooth { pwmStart (adjustChannels s) with changeFinish := true, timerArmed := false }
          (by simp only [total]; omega)
        refine ⟨t,deeperThan fun more deep => ?_⟩
        rw [dhReached rfl more differs]
        exact returns more deep
    · intro s enough
      by_cases some : 0 < s.totalUsedLightEvtNum
      · have total := takenTotal some
        by_cases finished : (takeEvent s).changeFinish = true
        · obtain ⟨t,returns⟩ := fade (takeEvent s) (by omega)
          refine ⟨settle t,deeperThan fun more deep => ?_⟩
          rw [smoothWaits more some, if_pos finished, returns more deep]
          rfl
        · refine ⟨settle (takeEvent s),deeperThan fun more _ => ?_⟩
          rw [smoothWaits more some, if_neg finished]
      · exact ⟨settle s,deeperThan fun more _ => smoothEmpty more some⟩

theorem timerReturns (s : Light δ) : lightPwmDhAdjProc (depthOf s) s = some (timerFires s) := by
  obtain ⟨t,returns⟩ := (bothReturn (depthOf s)).1 s (by unfold depthOf; omega)
  rw [timerFires, returns (depthOf s) (Nat.le_refl _)]
  rfl

theorem aimReturns {s u : Light δ} {slot : Nat} (allotted : lightEvtMalloc s = (some slot,u))
    (r g b cw ww period : UInt32) :
    lightPwmSmoothAdjProc (depthOf s)
        { u with lightEvtArr := update u.lightEvtArr slot (filled r g b cw ww period (u.lightEvtArr slot)) } =
      some (step s (.aim r g b cw ww period)) := by
  have total := mallocTotal allotted
  obtain ⟨t,returns⟩ := (bothReturn (depthOf s)).2
    { u with lightEvtArr := update u.lightEvtArr slot (filled r g b cw ww period (u.lightEvtArr slot)) }
    (by unfold depthOf; dsimp only; omega)
  rw [step, lightSetAim, allotted]
  dsimp only
  rw [returns (depthOf s) (Nat.le_refl _)]
  rfl

theorem aimRefused {s u : Light δ} (refused : lightEvtMalloc s = (none,u)) (r g b cw ww period : UInt32) :
    step s (.aim r g b cw ww period) = s := by
  rw [step, lightSetAim, refused, (mallocRefuses refused).2]
  rfl

theorem aimCases (s : Light δ) (r g b cw ww period : UInt32) :
    lightEvtQnum < s.totalUsedLightEvtNum + 1 ∧ step s (.aim r g b cw ww period) = s ∨ ∃ next slot,
      lightPwmSmoothAdjProc (depthOf s)
          { s with
            totalUsedLightEvtNum := s.totalUsedLightEvtNum + 1
            curFreeLightEvtIdx := next
            lightEvtArr := update s.lightEvtArr slot (filled r g b cw ww period (s.lightEvtArr slot)) } =
        some (step s (.aim r g b cw ww period)) := by
  cases allotted : lightEvtMalloc s with
  | mk result u =>
    cases result with
    | none => exact .inl ⟨(mallocRefuses allotted).1,aimRefused allotted r g b cw ww period⟩
    | some slot =>
      have returns := aimReturns allotted r g b cw ww period
      obtain ⟨next,rfl⟩ := mallocAllots allotted
      exact .inr ⟨next,slot,returns⟩

/-! What is kept -/

section Kept

variable {inv : Light δ → Prop}
  (adjusting : ∀ s, inv s → inv (pwmStart (adjustChannels s)))
  (flagging : ∀ s finish armed, inv s → inv { s with changeFinish := finish, timerArmed := armed })
  (taking : ∀ s, 0 < s.totalUsedLightEvtNum → inv s → inv (takeEvent s))
  (sleeping : ∀ s asleep, inv s → inv { s with lightSleepFlg := asleep })
include adjusting flagging taking sleeping

theorem bothKeep (depth : Nat) :
    (∀ s t, inv s → lightPwmDhAdjProc depth s = some t → inv t) ∧
    (∀ s t, inv s → lightPwmSmoothAdjProc depth s = some t → inv t) := by
  have settling (u : Light δ) (holds : inv u) : inv (settle u) := by
    obtain ⟨asleep,same⟩ := settled u
    rw [same]
    exact sleeping u asleep holds
  induction depth with
  | zero =>
    constructor
    all_goals
      intro s t _ returns
      cases returns
  | succ depth ih =>
    obtain ⟨fade,smooth⟩ := ih
    constructor
    · intro s t holds returns
      by_cases differs : checkPwmCurrentDutyDiff (pwmStart (adjustChannels s)) = true
      · rw [dhDiffers rfl depth differs] at returns
        rw [← Option.some.inj returns]
        exact flagging (pwmStart (adjustChannels s)) false true (adjusting s holds)
      · rw [dhReached rfl depth differs] at returns
        exact smooth _ t (flagging (pwmStart (adjustChannels s)) true false (adjusting s holds)) returns
    · intro s t holds returns
      by_cases waits : 0 < s.totalUsedLightEvtNum
      · have taken := taking s waits holds
        rw [smoothWaits depth waits] at returns
        split at returns
        · obtain ⟨u,nested,rfl⟩ := Option.map_eq_some_iff.mp returns
          exact settling _ (fade _ u taken nested)
        · cases returns
          exact settling _ taken
      · rw [smoothEmpty depth waits] at returns
        cases returns
        exact settling _ holds

end Kept

/-! How many events are left -/

theorem noneAdded {depth : Nat} {s t : Light δ} (returns : lightPwmDhAdjProc depth s = some t) :
    t.totalUsedLightEvtNum.toNat ≤ s.totalUsedLightEvtNum.toNat := by
  refine (@bothKeep δ _ (fun u => u.totalUsedLightEvtNum.toNat ≤ s.totalUsedLightEvtNum.toNat) ?_ ?_ ?_ ?_ depth).1 s t
    (Nat.le_refl _) returns
  · intro u few
    rw [adjustedTotal]
    exact few
  · intro u finish armed few
    exact few
  · intro u waits few
    exact Nat.le_trans (Nat.le_of_succ_le (Nat.le_of_eq (takenTotal waits))) few
  · intro u asleep few
    exact few

/- Where one event waits at most, none is left behind. -/
theorem noneLeft {depth : Nat} {s t : Light δ} (one : s.totalUsedLightEvtNum.toNat ≤ 1)
    (returns : lightPwmSmoothAdjProc depth s = some t) : t.totalUsedLightEvtNum.toNat = 0 := by
  cases depth with
  | zero => cases returns
  | succ depth =>
    by_cases waits : 0 < s.totalUsedLightEvtNum
    · have total := takenTotal waits
      rw [smoothWaits depth waits] at returns
      split at returns
      · obtain ⟨u,nested,rfl⟩ := Option.map_eq_some_iff.mp returns
        have left := noneAdded nested
        rw [settledTotal]
        omega
      · cases returns
        rw [settledTotal]
        omega
    · have none : s.totalUsedLightEvtNum.toNat = 0 := Nat.eq_zero_of_not_pos waits
      rw [smoothEmpty depth waits] at returns
      cases returns
      rw [settledTotal, none]

/- Between two calls from outside no event waits. -/
theorem stepEmpties {s : Light δ} (call : Call) (empty : s.totalUsedLightEvtNum.toNat = 0) :
    (step s call).totalUsedLightEvtNum.toNat = 0 := by
  cases call with
  | timer => exact Nat.eq_zero_of_le_zero (empty ▸ noneAdded (timerReturns s))
  | aim r g b cw ww period =>
    obtain ⟨_,refused⟩ | ⟨next,slot,returns⟩ := aimCases s r g b cw ww period
    · rw [refused]
      exact empty
    · refine noneLeft ?_ returns
      rw [UInt8.toNat_add, empty]
      exact Nat.mod_le _ _

theorem initKeeps {inv : Light δ → Prop} (driving : ∀ s driver, inv s → inv { s with driver := driver }) {driver : δ}
    (asked : inv (step (boot driver) (.aim appMaxPwm appMaxPwm appMaxPwm appMaxPwm appMaxPwm 1000))) :
    inv (userLightInit driver) := driving _ _ asked

theorem initEmpties (driver : δ) : (userLightInit driver).totalUsedLightEvtNum.toNat = 0 :=
  @initKeeps δ _ (fun s => s.totalUsedLightEvtNum.toNat = 0) (fun _ _ empty => empty) driver
    (stepEmpties (.aim appMaxPwm appMaxPwm appMaxPwm appMaxPwm appMaxPwm 1000) rfl)

theorem runEmpties (driver : δ) (calls : List Call) :
    (Run.run step (userLightInit driver) calls).totalUsedLightEvtNum.toNat = 0 :=
  @Run.runInvariant (Light δ) Call step (fun s => s.totalUsedLightEvtNum.toNat = 0) (fun _ call => stepEmpties call)
    (userLightInit driver) calls (initEmpties driver)

end YunbaIot.LightCalls
