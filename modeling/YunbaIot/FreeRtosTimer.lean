import Mathlib.Tactic.Common

/-! The timers of MQTTFreeRTOS.c over the tick counter of tasks.c. A clock is the list
of the readings the code will get, one for each look at the counter; when the list is
used up every deadline has passed, so each run of the code is a run on a finite clock. -/
namespace YunbaIot.FreeRtosTimer

structure Tick where
  xNumOfOverflows : Nat
  xTickCount : UInt32
  deriving DecidableEq, Repr

structure TimeOut where
  xOverflowCount : Nat
  xTimeOnEntering : UInt32
  deriving DecidableEq, Repr

structure Timer where
  xTicksToWait : UInt32
  xTimeOut : TimeOut
  deriving DecidableEq, Repr

def portMaxDelay : UInt32 := 0xffffffff
def portTickRateMs : UInt32 := 10

def vTaskSetTimeOutState (now : Tick) : TimeOut := ⟨now.xNumOfOverflows,now.xTickCount⟩

def xTaskCheckForTimeOut (now : Tick) (timer : Timer) : Bool × Timer :=
  let elapsed := now.xTickCount - timer.xTimeOut.xTimeOnEntering
  if timer.xTicksToWait = portMaxDelay then (false, timer)
  else if now.xNumOfOverflows ≠ timer.xTimeOut.xOverflowCount ∧
      timer.xTimeOut.xTimeOnEntering ≤ now.xTickCount then (true, timer)
  else if elapsed < timer.xTicksToWait then
    (false, ⟨timer.xTicksToWait - elapsed,vTaskSetTimeOutState now⟩)
  else (true, timer)

structure Checked where
  expired : Bool
  timer : Timer
  clock : List Tick

def timerIsExpired (timer : Timer) : List Tick → Checked
  | [] => ⟨true,timer,[]⟩
  | now :: later =>
    let r := xTaskCheckForTimeOut now timer
    ⟨r.1,r.2,later⟩

structure Left where
  ms : UInt32
  timer : Timer
  clock : List Tick

def timerLeftMs (timer : Timer) (clock : List Tick) : Left :=
  let c := timerIsExpired timer clock
  ⟨c.timer.xTicksToWait * portTickRateMs,c.timer,c.clock⟩

def timerInit : Timer := ⟨0,⟨0,0⟩⟩

structure Armed where
  timer : Timer
  clock : List Tick

def timerCountdownMs (timeoutMs : UInt32) : List Tick → Armed
  | [] => ⟨⟨timeoutMs / portTickRateMs,⟨0,0⟩⟩,[]⟩
  | now :: later => ⟨⟨timeoutMs / portTickRateMs,vTaskSetTimeOutState now⟩,later⟩

def timerCountdown (timeout : UInt32) (clock : List Tick) : Armed := timerCountdownMs (timeout * 1000) clock

theorem expiredClock (timer : Timer) (clock : List Tick) :
    (timerIsExpired timer clock).clock.length ≤ clock.length := by
  cases clock with
  | nil => exact Nat.le_refl _
  | cons now later => simp [timerIsExpired]

/- A check that finds the timer running has used up a reading. -/
theorem runningClock {timer : Timer} {clock : List Tick} (running : (timerIsExpired timer clock).expired = false) :
    (timerIsExpired timer clock).clock.length < clock.length := by
  cases clock with
  | nil => simp [timerIsExpired] at running
  | cons now later => simp [timerIsExpired]

theorem leftClock (timer : Timer) (clock : List Tick) :
    (timerLeftMs timer clock).clock.length ≤ clock.length := expiredClock timer clock

theorem countdownClock (ms : UInt32) (clock : List Tick) :
    (timerCountdownMs ms clock).clock.length ≤ clock.length := by
  cases clock with
  | nil => exact Nat.le_refl _
  | cons now later => simp [timerCountdownMs]

end YunbaIot.FreeRtosTimer
