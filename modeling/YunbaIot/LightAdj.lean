import Mathlib.Data.List.FinRange
import Mathlib.Tactic.Common

/-! user_light_adj.c and what it uses of user_light.c: requests for a colour wait in a ring of
events, and a timer brings the duty of each channel nearer to that of the request in front. -/
namespace YunbaIot.LightAdj

-- PWM_CHANNEL is 3: red, green and blue
abbrev Channel := Fin 3

def pwmDepth : UInt32 := 1023
def appMaxPwm : UInt32 := 22222
def lightEvtQnum : UInt8 := 40

structure PwmParam where
  period : UInt32
  freq : UInt32
  duty : Fin 8 → UInt32

/- The driver is in a binary library; `δ` is whatever it keeps. -/
class Pwm (δ : Type) where
  setDuty : UInt32 → Channel → δ → δ
  getDuty : Channel → δ → UInt32
  setPeriod : UInt32 → δ → δ
  getPeriod : δ → UInt32
  start : δ → δ

/- The static variables, light_param, the driver, and in `copied` every value current_duty took
from an event. -/
structure Light (δ : Type) where
  curFreeLightEvtIdx : UInt8
  totalUsedLightEvtNum : UInt8
  curEvtIdxToBeUse : UInt8
  lightEvtArr : Nat → PwmParam
  currentDuty : Channel → UInt32
  dutyNow : Channel → UInt32
  changeFinish : Bool
  lightSleepFlg : Bool
  timerArmed : Bool
  pwmPeriod : UInt32
  pwmDuty : Channel → UInt32
  driver : δ
  copied : List (Channel → UInt32)

def update {ι α : Type} [DecidableEq ι] (f : ι → α) (i : ι) (a : α) : ι → α := fun j => if j = i then a else f j

variable {δ : Type} [Pwm δ]

/-! What was set last -/

def userLightSetDuty (duty : UInt32) (channel : Channel) (s : Light δ) : Light δ :=
  if duty ≠ s.pwmDuty channel then
    let driver := Pwm.setDuty duty channel s.driver
    { s with driver := driver, pwmDuty := update s.pwmDuty channel (Pwm.getDuty channel driver) }
  else s

def userLightSetPeriod (period : UInt32) (s : Light δ) : Light δ :=
  if period ≠ s.pwmPeriod then
    let driver := Pwm.setPeriod period s.driver
    { s with driver := driver, pwmPeriod := Pwm.getPeriod driver }
  else s

/-! The ring -/

def lightEvtMalloc (s : Light δ) : Option Nat × Light δ :=
  let total := s.totalUsedLightEvtNum + 1
  if lightEvtQnum < total then (none,{ s with totalUsedLightEvtNum := total - 1 })
  else
    let next := s.curFreeLightEvtIdx + 1
    (some s.curFreeLightEvtIdx.toNat,{ s with
      totalUsedLightEvtNum := total
      curFreeLightEvtIdx := if lightEvtQnum - 1 < next then 0 else next })

def lightEvtFree (s : Light δ) : Light δ := { s with totalUsedLightEvtNum := s.totalUsedLightEvtNum - 1 }

/-! Fading -/

def absMinus (x y : UInt32) : UInt32 := if x < y then y - x else x - y

def nearer (now target : UInt32) : UInt32 :=
  let now := (now * 7 + target) >>> 3
  if absMinus now target < 20 then target else now

def adjustChannel (s : Light δ) (i : Channel) : Light δ :=
  let s := { s with dutyNow := update s.dutyNow i (nearer (s.dutyNow i) (s.currentDuty i)) }
  userLightSetDuty (s.dutyNow i) i s

def adjustChannels (s : Light δ) : Light δ := (List.finRange 3).foldl adjustChannel s

def pwmStart (s : Light δ) : Light δ := { s with driver := Pwm.start s.driver }

def checkPwmCurrentDutyDiff (s : Light δ) : Bool := (List.finRange 3).any fun i => s.pwmDuty i ≠ s.currentDuty i

def checkPwmDutyZero (s : Light δ) : Bool := (List.finRange 3).all fun i => s.pwmDuty i = 0

/- light_save_target_duty saves nothing, since SAVE_LIGHT_PARAM is 0. -/
def settle (s : Light δ) : Light δ :=
  if s.changeFinish then
    if checkPwmDutyZero s then { s with lightSleepFlg := true } else s
  else s

/- current_duty has room for the first three duties of an event. -/
def asked (event : PwmParam) (i : Channel) : UInt32 := event.duty (i.castLE (by decide))

/- The event in front becomes the target. -/
def takeEvent (s : Light δ) : Light δ :=
  let event := s.lightEvtArr s.curEvtIdxToBeUse.toNat
  let s := userLightSetPeriod event.period s
  let next := s.curEvtIdxToBeUse + 1
  lightEvtFree { s with
    currentDuty := asked event
    copied := s.copied ++ [asked event]
    curEvtIdxToBeUse := if lightEvtQnum - 1 < next then 0 else next }

mutual

/- Two functions that call each other; the first argument bounds the depth of the calls. -/
def lightPwmDhAdjProc : Nat → Light δ → Option (Light δ)
  | 0, _ => none
  | depth+1, s =>
    let s := pwmStart (adjustChannels s)
    if checkPwmCurrentDutyDiff s then some { s with changeFinish := false, timerArmed := true }
    else lightPwmSmoothAdjProc depth { s with changeFinish := true, timerArmed := false }

def lightPwmSmoothAdjProc : Nat → Light δ → Option (Light δ)
  | 0, _ => none
  | depth+1, s =>
    if 0 < s.totalUsedLightEvtNum then
      let s := takeEvent s
      if s.changeFinish then (lightPwmDhAdjProc depth s).map settle else some (settle s)
    else some (settle s)

end

/- A request in the units of the driver; LIGHT_CURRENT_LIMIT is 0. -/
def scaled (value : UInt32) : UInt32 := value * pwmDepth / appMaxPwm

def filled (r g b cw ww period : UInt32) (tmp : PwmParam) : PwmParam :=
  { tmp with
    period := if period < 1000 then period else 1000
    duty := update (update (update (update (update tmp.duty 0 (scaled r)) 1 (scaled g)) 2 (scaled b)) 3 (scaled cw)) 4
      (scaled ww) }

def lightSetAim (depth : Nat) (r g b cw ww period : UInt32) (s : Light δ) : Option (Light δ) :=
  match lightEvtMalloc s with
  | (none,s) => some s
  | (some slot,s) =>
    lightPwmSmoothAdjProc depth
      { s with lightEvtArr := update s.lightEvtArr slot (filled r g b cw ww period (s.lightEvtArr slot)) }

/-! Runs -/

/- user_light_init up to its request; the driver is as pwm_init leaves it. -/
def boot (driver : δ) : Light δ where
  curFreeLightEvtIdx := 0
  totalUsedLightEvtNum := 0
  curEvtIdxToBeUse := 0
  lightEvtArr _ := ⟨0,0,fun _ => 0⟩
  currentDuty _ := 0
  dutyNow _ := 0
  changeFinish := true
  lightSleepFlg := false
  timerArmed := false
  pwmPeriod := 1000
  pwmDuty _ := appMaxPwm
  driver := driver
  copied := []

inductive Call where
  | aim (r g b cw ww period : UInt32)
  | timer

/- No call goes deeper than two functions for each event and one for the end. -/
def depthOf (s : Light δ) : Nat := 2 * s.totalUsedLightEvtNum.toNat + 4

def timerFires (s : Light δ) : Light δ := (lightPwmDhAdjProc (depthOf s) s).getD s

def step (s : Light δ) : Call → Light δ
  | .aim r g b cw ww period => (lightSetAim (depthOf s) r g b cw ww period s).getD s
  | .timer => timerFires s

/- user_light_init; its writes behind the end of light_param are left out. -/
def userLightInit (driver : δ) : Light δ :=
  let s := step (boot driver) (.aim appMaxPwm appMaxPwm appMaxPwm appMaxPwm appMaxPwm 1000)
  { s with driver := Pwm.setDuty appMaxPwm 2 (Pwm.setDuty appMaxPwm 1 (Pwm.setDuty appMaxPwm 0 s.driver)) }

end YunbaIot.LightAdj
