import YunbaIot.FreeRtosList

/-! tasks.c: the states of the tasks, the tick and the choice of the running task. Tasks and event lists are of any
types; a failed step is one that reads through a pointer the code does not have. -/
namespace YunbaIot.FreeRtosTasks
open FreeRtosList

def configMaxPriorities : UInt32 := 15
abbrev Priority := Fin 15

inductive ListName (ε : Type) where
  | pxReadyTasksLists (uxPriority : Priority)
  | xDelayedTaskList1
  | xDelayedTaskList2
  | xPendingReadyList
  | xTasksWaitingTermination
  | xSuspendedTaskList
  | pxEventList (xEvent : ε)
  deriving DecidableEq, Repr

inductive Item (τ : Type) where
  | xGenericListItem (pxTCB : τ)
  | xEventListItem (pxTCB : τ)
  deriving DecidableEq, Repr

structure Kernel (τ ε : Type) where
  lists : Lists (ListName ε) (Item τ)
  uxPriority : τ → Priority
  uxBasePriority : τ → Priority
  pxCurrentTCB : Option τ
  pxDelayedTaskList : ListName ε
  pxOverflowDelayedTaskList : ListName ε
  uxCurrentNumberOfTasks : UInt32
  uxTasksDeleted : UInt32
  xTickCount : UInt32
  uxTopReadyPriority : Priority
  xSchedulerRunning : Bool
  uxSchedulerSuspended : UInt32
  uxPendedTicks : UInt32
  xYieldPending : Bool
  xNumOfOverflows : UInt32
  xNextTaskUnblockTime : UInt32
  SWReq : Bool

def pvOwner {τ ε : Type} : Node (ListName ε) (Item τ) → Option τ
  | .item (.xGenericListItem pxTCB) => some pxTCB
  | .item (.xEventListItem pxTCB) => some pxTCB
  | .xListEnd _ => none

/- A priority that is too large is made the largest one. -/
def validPriority (uxPriority : UInt32) : Priority :=
  if small : uxPriority < configMaxPriorities then ⟨uxPriority.toNat,UInt32.lt_iff_toNat_lt.mp small⟩ else 14

def eventValue (uxPriority : Priority) : UInt32 := configMaxPriorities - UInt32.ofNat uxPriority.val

section Tasks
variable {τ ε : Type} [DecidableEq τ] [DecidableEq ε]

def setPriority (pxTCB : τ) (uxPriority : Priority) (k : Kernel τ ε) : Kernel τ ε :=
  { k with uxPriority := Function.update k.uxPriority pxTCB uxPriority }
def setBasePriority (pxTCB : τ) (uxPriority : Priority) (k : Kernel τ ε) : Kernel τ ε :=
  { k with uxBasePriority := Function.update k.uxBasePriority pxTCB uxPriority }
def setItemValue (i : Item τ) (v : UInt32) (k : Kernel τ ε) : Kernel τ ε :=
  { k with lists := listSetListItemValue i v k.lists }

/- PendSV(1) -/
def portYield (k : Kernel τ ε) : Kernel τ ε := { k with SWReq := true }
def yieldIf (b : Bool) (k : Kernel τ ε) : Kernel τ ε := if b then portYield k else k

def container (i : Item τ) (k : Kernel τ ε) : Option (ListName ε) := k.lists.pvContainer i
def currentPriority (k : Kernel τ ε) : Option Priority := k.pxCurrentTCB.map k.uxPriority
def prvGetTCBFromHandle (pxHandle : Option τ) (k : Kernel τ ε) : Option τ := pxHandle <|> k.pxCurrentTCB

def leaveList (i : Item τ) (k : Kernel τ ε) : Option (Kernel τ ε) :=
  (uxListRemove i k.lists).map fun removed => { k with lists := removed.2 }
def leaveEvent (pxTCB : τ) (k : Kernel τ ε) : Option (Kernel τ ε) :=
  if container (.xEventListItem pxTCB) k = none then some k else leaveList (.xEventListItem pxTCB) k
def enterEnd (l : ListName ε) (i : Item τ) (k : Kernel τ ε) : Kernel τ ε := { k with lists := vListInsertEnd l i k.lists }
def enterSorted (l : ListName ε) (i : Item τ) (k : Kernel τ ε) : Option (Kernel τ ε) :=
  (vListInsert l i k.lists).map fun lists => { k with lists }

def taskRecordReadyPriority (uxPriority : Priority) (k : Kernel τ ε) : Kernel τ ε :=
  if uxPriority > k.uxTopReadyPriority then { k with uxTopReadyPriority := uxPriority } else k

def prvAddTaskToReadyList (pxTCB : τ) (k : Kernel τ ε) : Kernel τ ε :=
  enterEnd (.pxReadyTasksLists (k.uxPriority pxTCB)) (.xGenericListItem pxTCB)
    (taskRecordReadyPriority (k.uxPriority pxTCB) k)

/- The while loop of taskSELECT_HIGHEST_PRIORITY_TASK -/
def topReady (k : Kernel τ ε) : (n : Nat) → n < 15 → Option Priority
  | 0, small => if listListIsEmpty (.pxReadyTasksLists ⟨0,small⟩) k.lists then none else some ⟨0,small⟩
  | n+1, small => if listListIsEmpty (.pxReadyTasksLists ⟨n + 1,small⟩) k.lists then topReady k n (by omega)
    else some ⟨n + 1,small⟩

def taskSelectHighestPriorityTask (k : Kernel τ ε) : Option (Kernel τ ε) := do
  let uxTopReadyPriority ← topReady k k.uxTopReadyPriority.val k.uxTopReadyPriority.isLt
  let next := listGetOwnerOfNextEntry (.pxReadyTasksLists uxTopReadyPriority) k.lists
  let pxCurrentTCB ← pvOwner next.1
  some { k with uxTopReadyPriority, lists := next.2, pxCurrentTCB := some pxCurrentTCB }

def headTask (l : ListName ε) (k : Kernel τ ε) : Option τ := pvOwner (listGetOwnerOfHeadEntry l k.lists)
def wakeTime (pxTCB : τ) (k : Kernel τ ε) : UInt32 := listGetListItemValue (.xGenericListItem pxTCB) k.lists

def taskSwitchDelayedLists (k : Kernel τ ε) : Option (Kernel τ ε) :=
  let k := { k with
    pxDelayedTaskList := k.pxOverflowDelayedTaskList, pxOverflowDelayedTaskList := k.pxDelayedTaskList
    xNumOfOverflows := k.xNumOfOverflows + 1 }
  if listListIsEmpty k.pxDelayedTaskList k.lists then some { k with xNextTaskUnblockTime := portMaxDelay }
  else (headTask k.pxDelayedTaskList k).map fun pxTCB => { k with xNextTaskUnblockTime := wakeTime pxTCB k }

def vTaskSwitchContext (k : Kernel τ ε) : Option (Kernel τ ε) :=
  if k.uxSchedulerSuspended ≠ 0 then some { k with xYieldPending := true } else taskSelectHighestPriorityTask k

/- The interrupt that portYield asks for; _xt_timer_int1, which it calls where a switch is due, is in libmain.a alone and
   is taken to be vTaskSwitchContext. -/
def SoftIsrHdl (k : Kernel τ ε) : Option (Kernel τ ε) :=
  if k.SWReq then (vTaskSwitchContext k).map fun k => { k with SWReq := false } else some k

/-! The tick -/

/- The for loop of xTaskIncrementTick, over no more tasks than are delayed -/
def unblock (xConstTickCount : UInt32) : Nat → Bool → Kernel τ ε → Option (Bool × Kernel τ ε)
  | 0, _, _ => none
  | tasks+1, xSwitchRequired, k =>
    if listListIsEmpty k.pxDelayedTaskList k.lists then
      some (xSwitchRequired,{ k with xNextTaskUnblockTime := portMaxDelay })
    else do
      let pxTCB ← headTask k.pxDelayedTaskList k
      let xItemValue := wakeTime pxTCB k
      if xConstTickCount < xItemValue then some (xSwitchRequired,{ k with xNextTaskUnblockTime := xItemValue })
      else do
        let k ← leaveList (.xGenericListItem pxTCB) k
        let k ← leaveEvent pxTCB k
        let k := prvAddTaskToReadyList pxTCB k
        let current ← currentPriority k
        unblock xConstTickCount tasks (xSwitchRequired || k.uxPriority pxTCB ≥ current) k

def advance (k : Kernel τ ε) : Option (Kernel τ ε) :=
  let k := { k with xTickCount := k.xTickCount + 1 }
  if k.xTickCount = 0 then taskSwitchDelayedLists k else some k

def expire (k : Kernel τ ε) : Option (Bool × Kernel τ ε) :=
  if k.xTickCount ≥ k.xNextTaskUnblockTime then
    unblock k.xTickCount (listCurrentListLength k.pxDelayedTaskList k.lists + 1) false k
  else some (false,k)

def xTaskIncrementTick (k : Kernel τ ε) : Option (Bool × Kernel τ ε) :=
  if k.uxSchedulerSuspended = 0 then do
    let k ← advance k
    let (xSwitchRequired,k) ← expire k
    let current ← currentPriority k
    some (xSwitchRequired || listCurrentListLength (.pxReadyTasksLists current) k.lists > 1,k)
  else some (false,{ k with uxPendedTicks := k.uxPendedTicks + 1 })

/- Within its assertion the jump ends before the next task wakes, or when it does. -/
def vTaskStepTick (xTicksToJump : UInt32) (k : Kernel τ ε) : Kernel τ ε := { k with xTickCount := k.xTickCount + xTicksToJump }

/- The interrupt -/
def xPortSysTickHandle (k : Kernel τ ε) : Option (Kernel τ ε) := do
  let (switch,k) ← xTaskIncrementTick k
  if switch then vTaskSwitchContext k else some k

/-! Suspending the scheduler -/

def vTaskSuspendAll (k : Kernel τ ε) : Kernel τ ε := { k with uxSchedulerSuspended := k.uxSchedulerSuspended + 1 }

/- The first while loop of xTaskResumeAll, over no more tasks than are pending -/
def readyPending : Nat → Bool → Kernel τ ε → Option (Bool × Kernel τ ε)
  | 0, _, _ => none
  | tasks+1, xYieldRequired, k =>
    if listListIsEmpty .xPendingReadyList k.lists then some (xYieldRequired,k)
    else do
      let pxTCB ← headTask .xPendingReadyList k
      let k ← leaveList (.xEventListItem pxTCB) k
      let k ← leaveList (.xGenericListItem pxTCB) k
      let k := prvAddTaskToReadyList pxTCB k
      let current ← currentPriority k
      readyPending tasks (xYieldRequired || k.uxPriority pxTCB ≥ current) k

/- The second one, which runs uxPendedTicks down to 0 -/
def catchUp : Nat → Bool → Kernel τ ε → Option (Bool × Kernel τ ε)
  | 0, xYieldRequired, k => some (xYieldRequired,k)
  | ticks+1, xYieldRequired, k => do
    let (switch,k) ← xTaskIncrementTick k
    catchUp ticks (xYieldRequired || switch) { k with uxPendedTicks := k.uxPendedTicks - 1 }

def resumed (k : Kernel τ ε) : Option (Bool × Kernel τ ε) := do
  let (required,k) ← readyPending (listCurrentListLength .xPendingReadyList k.lists + 1) false k
  let (xYieldRequired,k) ← catchUp k.uxPendedTicks.toNat required k
  if xYieldRequired || k.xYieldPending then some (true,portYield { k with xYieldPending := false }) else some (false,k)

def xTaskResumeAll (k : Kernel τ ε) : Option (Bool × Kernel τ ε) :=
  let k := { k with uxSchedulerSuspended := k.uxSchedulerSuspended - 1 }
  if k.uxSchedulerSuspended = 0 ∧ k.uxCurrentNumberOfTasks > 0 then resumed k else some (false,k)

/-! Delaying -/

def prvAddCurrentTaskToDelayedList (xTimeToWake : UInt32) (k : Kernel τ ε) : Option (Kernel τ ε) := do
  let current ← k.pxCurrentTCB
  let k := setItemValue (.xGenericListItem current) xTimeToWake k
  if xTimeToWake < k.xTickCount then enterSorted k.pxOverflowDelayedTaskList (.xGenericListItem current) k
  else do
    let k ← enterSorted k.pxDelayedTaskList (.xGenericListItem current) k
    some (if xTimeToWake < k.xNextTaskUnblockTime then { k with xNextTaskUnblockTime := xTimeToWake } else k)

/- The running task leaves the ready tasks. -/
def blockUntil (xTimeToWake : UInt32) (k : Kernel τ ε) : Option (Kernel τ ε) := do
  let current ← k.pxCurrentTCB
  let k ← leaveList (.xGenericListItem current) k
  prvAddCurrentTaskToDelayedList xTimeToWake k

/- What vTaskDelay does while the scheduler is suspended -/
def delaySection (xTicksToDelay : UInt32) (k : Kernel τ ε) : Option (Kernel τ ε) := blockUntil (k.xTickCount + xTicksToDelay) k

/- xTaskResumeAll, and a yield where it was not made -/
def resumeAndYield (k : Kernel τ ε) : Option (Kernel τ ε) := do
  let (xAlreadyYielded,k) ← xTaskResumeAll k
  some (yieldIf (!xAlreadyYielded) k)

def vTaskDelay (xTicksToDelay : UInt32) (k : Kernel τ ε) : Option (Kernel τ ε) :=
  if xTicksToDelay > 0 then do
    let k ← delaySection xTicksToDelay (vTaskSuspendAll k)
    resumeAndYield k
  else some (portYield k)

def shouldDelay (xConstTickCount pxPreviousWakeTime xTimeToWake : UInt32) : Bool :=
  if xConstTickCount < pxPreviousWakeTime then xTimeToWake < pxPreviousWakeTime && xTimeToWake > xConstTickCount
  else xTimeToWake < pxPreviousWakeTime || xTimeToWake > xConstTickCount

/- With the wake time for the next call -/
def delayUntilSection (pxPreviousWakeTime xTimeIncrement : UInt32) (k : Kernel τ ε) : Option (UInt32 × Kernel τ ε) :=
  let xTimeToWake := pxPreviousWakeTime + xTimeIncrement
  if shouldDelay k.xTickCount pxPreviousWakeTime xTimeToWake then (blockUntil xTimeToWake k).map fun k => (xTimeToWake,k)
  else some (xTimeToWake,k)

def vTaskDelayUntil (pxPreviousWakeTime xTimeIncrement : UInt32) (k : Kernel τ ε) : Option (UInt32 × Kernel τ ε) := do
  let (pxPreviousWakeTime,k) ← delayUntilSection pxPreviousWakeTime xTimeIncrement (vTaskSuspendAll k)
  let k ← resumeAndYield k
  some (pxPreviousWakeTime,k)

/-! Events -/

def vTaskPlaceOnEventList (pxEventList : ε) (xTicksToWait : UInt32) (k : Kernel τ ε) : Option (Kernel τ ε) := do
  let current ← k.pxCurrentTCB
  let k ← enterSorted (.pxEventList pxEventList) (.xEventListItem current) k
  let k ← leaveList (.xGenericListItem current) k
  if xTicksToWait = portMaxDelay then some (enterEnd .xSuspendedTaskList (.xGenericListItem current) k)
  else prvAddCurrentTaskToDelayedList (k.xTickCount + xTicksToWait) k

def vTaskPlaceOnEventListRestricted (pxEventList : ε) (xTicksToWait : UInt32) (k : Kernel τ ε) : Option (Kernel τ ε) := do
  let current ← k.pxCurrentTCB
  let k ← leaveList (.xGenericListItem current) (enterEnd (.pxEventList pxEventList) (.xEventListItem current) k)
  prvAddCurrentTaskToDelayedList (k.xTickCount + xTicksToWait) k

/- Ready, or pending until the scheduler is resumed -/
def readyOrPend (pxTCB : τ) (k : Kernel τ ε) : Option (Kernel τ ε) :=
  if k.uxSchedulerSuspended = 0 then (leaveList (.xGenericListItem pxTCB) k).map (prvAddTaskToReadyList pxTCB)
  else some (enterEnd .xPendingReadyList (.xEventListItem pxTCB) k)

def xTaskRemoveFromEventList (pxEventList : ε) (k : Kernel τ ε) : Option (Bool × Kernel τ ε) := do
  let pxUnblockedTCB ← headTask (.pxEventList pxEventList) k
  let k ← leaveList (.xEventListItem pxUnblockedTCB) k
  let k ← readyOrPend pxUnblockedTCB k
  let current ← currentPriority k
  some (k.uxPriority pxUnblockedTCB ≥ current,k)

def vTaskMissedYield (k : Kernel τ ε) : Kernel τ ε := { k with xYieldPending := true }

structure TimeOut where
  xOverflowCount : UInt32
  xTimeOnEntering : UInt32
  deriving DecidableEq, Repr

def vTaskSetTimeOutState (k : Kernel τ ε) : TimeOut := ⟨k.xNumOfOverflows,k.xTickCount⟩

/- The time out and the ticks to wait as they are left -/
def xTaskCheckForTimeOut (pxTimeOut : TimeOut) (pxTicksToWait : UInt32) (k : Kernel τ ε) : Bool × TimeOut × UInt32 :=
  if pxTicksToWait = portMaxDelay then (false,pxTimeOut,pxTicksToWait)
  else if k.xNumOfOverflows ≠ pxTimeOut.xOverflowCount ∧ k.xTickCount ≥ pxTimeOut.xTimeOnEntering then
    (true,pxTimeOut,pxTicksToWait)
  else if k.xTickCount - pxTimeOut.xTimeOnEntering < pxTicksToWait then
    (false,vTaskSetTimeOutState k,pxTicksToWait - (k.xTickCount - pxTimeOut.xTimeOnEntering))
  else (true,pxTimeOut,pxTicksToWait)

/-! Suspending and resuming a task -/

/- Its critical section, behind which an interrupt may come before the yield -/
def suspendSection (xTaskToSuspend : Option τ) (k : Kernel τ ε) : Option (τ × Kernel τ ε) := do
  let pxTCB ← prvGetTCBFromHandle xTaskToSuspend k
  let k ← leaveList (.xGenericListItem pxTCB) k
  let k ← leaveEvent pxTCB k
  some (pxTCB,enterEnd .xSuspendedTaskList (.xGenericListItem pxTCB) k)

def vTaskSuspend (xTaskToSuspend : Option τ) (k : Kernel τ ε) : Option (Kernel τ ε) := do
  let (pxTCB,k) ← suspendSection xTaskToSuspend k
  if k.pxCurrentTCB ≠ some pxTCB then some k
  else if k.xSchedulerRunning then some (portYield k)
  else if (listCurrentListLength .xSuspendedTaskList k.lists : Nat) = k.uxCurrentNumberOfTasks.toNat then
    some { k with pxCurrentTCB := none }
  else vTaskSwitchContext k

def xTaskIsTaskSuspended (xTask : τ) (k : Kernel τ ε) : Bool :=
  container (.xGenericListItem xTask) k = some .xSuspendedTaskList &&
    !(container (.xEventListItem xTask) k = some .xPendingReadyList) && container (.xEventListItem xTask) k = none

def vTaskResume (xTaskToResume : τ) (k : Kernel τ ε) : Option (Kernel τ ε) :=
  if k.pxCurrentTCB = some xTaskToResume then some k
  else if xTaskIsTaskSuspended xTaskToResume k then do
    let k ← leaveList (.xGenericListItem xTaskToResume) k
    let k := prvAddTaskToReadyList xTaskToResume k
    let current ← currentPriority k
    some (yieldIf (k.uxPriority xTaskToResume ≥ current) k)
  else some k

def xTaskResumeFromISR (xTaskToResume : τ) (k : Kernel τ ε) : Option (Bool × Kernel τ ε) :=
  if xTaskIsTaskSuspended xTaskToResume k then do
    let current ← currentPriority k
    let xYieldRequired := decide (k.uxPriority xTaskToResume ≥ current) && k.uxSchedulerSuspended = 0
    let k ← readyOrPend xTaskToResume k
    some (xYieldRequired,k)
  else some (false,k)

/-! Priorities -/

/- Off its ready list before the priority changes, and onto the one it then belongs to -/
def reprioritise (pxTCB : τ) (uxPriority : Priority) (k : Kernel τ ε) : Option (Kernel τ ε) :=
  if container (.xGenericListItem pxTCB) k = some (.pxReadyTasksLists (k.uxPriority pxTCB)) then
    (leaveList (.xGenericListItem pxTCB) k).map fun k => prvAddTaskToReadyList pxTCB (setPriority pxTCB uxPriority k)
  else some (setPriority pxTCB uxPriority k)

def vTaskPrioritySet (xTask : Option τ) (uxNewPriority : UInt32) (k : Kernel τ ε) : Option (Kernel τ ε) := do
  let uxNewPriority := validPriority uxNewPriority
  let pxTCB ← prvGetTCBFromHandle xTask k
  let uxCurrentBasePriority := k.uxBasePriority pxTCB
  if uxCurrentBasePriority = uxNewPriority then some k
  else do
    let current ← currentPriority k
    let mine := decide (k.pxCurrentTCB = some pxTCB)
    let xYieldRequired := if uxNewPriority > uxCurrentBasePriority then !mine && decide (uxNewPriority ≥ current) else mine
    let inherited := decide (uxCurrentBasePriority ≠ k.uxPriority pxTCB)
    let k := setItemValue (.xEventListItem pxTCB) (eventValue uxNewPriority) (setBasePriority pxTCB uxNewPriority k)
    let k ← reprioritise pxTCB (if inherited then k.uxPriority pxTCB else uxNewPriority) k
    some (yieldIf xYieldRequired k)

def vTaskPriorityInherit (pxMutexHolder : Option τ) (k : Kernel τ ε) : Option (Kernel τ ε) :=
  match pxMutexHolder with
  | none => some k
  | some pxTCB => do
    let current ← currentPriority k
    if k.uxPriority pxTCB < current then
      reprioritise pxTCB current (setItemValue (.xEventListItem pxTCB) (eventValue current) k)
    else some k

def vTaskPriorityDisinherit (pxMutexHolder : Option τ) (k : Kernel τ ε) : Option (Kernel τ ε) :=
  match pxMutexHolder with
  | none => some k
  | some pxTCB =>
    if k.uxPriority pxTCB = k.uxBasePriority pxTCB then some k
    else (leaveList (.xGenericListItem pxTCB) k).map fun k =>
      prvAddTaskToReadyList pxTCB (setItemValue (.xEventListItem pxTCB) (eventValue (k.uxBasePriority pxTCB))
        (setPriority pxTCB (k.uxBasePriority pxTCB) k))

/-! Creating and deleting tasks -/

def priorities : List Priority := List.finRange 15

def prvInitialiseTaskLists (k : Kernel τ ε) : Kernel τ ε :=
  let lists := priorities.foldl (fun m uxPriority => vListInitialise (.pxReadyTasksLists uxPriority) m) k.lists
  let lists := vListInitialise .xDelayedTaskList1 lists
  let lists := vListInitialise .xDelayedTaskList2 lists
  let lists := vListInitialise .xPendingReadyList lists
  let lists := vListInitialise .xTasksWaitingTermination lists
  let lists := vListInitialise .xSuspendedTaskList lists
  { k with lists, pxDelayedTaskList := .xDelayedTaskList1, pxOverflowDelayedTaskList := .xDelayedTaskList2 }

def prvInitialiseTCBVariables (pxTCB : τ) (uxPriority : UInt32) (k : Kernel τ ε) : Kernel τ ε :=
  let uxPriority := validPriority uxPriority
  let k := setBasePriority pxTCB uxPriority (setPriority pxTCB uxPriority k)
  let lists := vListInitialiseItem (.xEventListItem pxTCB) (vListInitialiseItem (.xGenericListItem pxTCB) k.lists)
  setItemValue (.xEventListItem pxTCB) (eventValue uxPriority) { k with lists }

/- Which task runs once pxNewTCB has been counted -/
def chooseCurrent (pxNewTCB : τ) (uxPriority : UInt32) (k : Kernel τ ε) : Kernel τ ε :=
  match k.pxCurrentTCB with
  | none =>
    let k := { k with pxCurrentTCB := some pxNewTCB }
    if k.uxCurrentNumberOfTasks = 1 then prvInitialiseTaskLists k else k
  | some current =>
    if !k.xSchedulerRunning && (k.uxPriority current).val ≤ uxPriority.toNat then { k with pxCurrentTCB := some pxNewTCB }
    else k

def outranksCurrent (uxPriority : UInt32) (k : Kernel τ ε) : Bool :=
  k.pxCurrentTCB.any fun current => (k.uxPriority current).val < uxPriority.toNat

/- Up to the end of the critical section; pxNewTCB is what prvAllocateTCBAndStack gives, where it gives something. -/
def createSection (pxNewTCB : τ) (uxPriority : UInt32) (k : Kernel τ ε) : Kernel τ ε :=
  let k := prvInitialiseTCBVariables pxNewTCB uxPriority k
  let k := chooseCurrent pxNewTCB uxPriority { k with uxCurrentNumberOfTasks := k.uxCurrentNumberOfTasks + 1 }
  prvAddTaskToReadyList pxNewTCB k

def xTaskGenericCreate (pxNewTCB : τ) (uxPriority : UInt32) (k : Kernel τ ε) : Kernel τ ε :=
  let k := createSection pxNewTCB uxPriority k
  yieldIf (k.xSchedulerRunning && outranksCurrent uxPriority k) k

/- Its critical section -/
def deleteSection (xTaskToDelete : Option τ) (k : Kernel τ ε) : Option (τ × Kernel τ ε) := do
  let pxTCB ← prvGetTCBFromHandle xTaskToDelete k
  let k ← leaveList (.xGenericListItem pxTCB) k
  let k ← leaveEvent pxTCB k
  let k := enterEnd .xTasksWaitingTermination (.xGenericListItem pxTCB) k
  some (pxTCB,{ k with uxTasksDeleted := k.uxTasksDeleted + 1 })

def vTaskDelete (xTaskToDelete : Option τ) (k : Kernel τ ε) : Option (Kernel τ ε) := do
  let (pxTCB,k) ← deleteSection xTaskToDelete k
  some (yieldIf (k.xSchedulerRunning && k.pxCurrentTCB = some pxTCB) k)

/- The critical section of the loop of prvCheckTasksWaitingTermination, where the list was not found empty -/
def freeDeleted (k : Kernel τ ε) : Option (Kernel τ ε) := do
  let pxTCB ← headTask .xTasksWaitingTermination k
  let k ← leaveList (.xGenericListItem pxTCB) k
  some { k with
    uxCurrentNumberOfTasks := k.uxCurrentNumberOfTasks - 1, uxTasksDeleted := k.uxTasksDeleted - 1 }

/- Before anything is created the lists hold nothing. -/
def emptyLists : Lists (ListName ε) (Item τ) where
  pxNext n := n
  pxPrevious n := n
  xItemValue _ := portMaxDelay
  pvContainer _ := none
  pxIndex l := .xListEnd l
  uxNumberOfItems _ := 0

def initially : Kernel τ ε where
  lists := emptyLists
  uxPriority _ := 0
  uxBasePriority _ := 0
  pxCurrentTCB := none
  pxDelayedTaskList := .xDelayedTaskList1
  pxOverflowDelayedTaskList := .xDelayedTaskList1
  uxCurrentNumberOfTasks := 0
  uxTasksDeleted := 0
  xTickCount := 0
  uxTopReadyPriority := 0
  xSchedulerRunning := false
  uxSchedulerSuspended := 0
  uxPendedTicks := 0
  xYieldPending := false
  xNumOfOverflows := 0
  xNextTaskUnblockTime := portMaxDelay
  SWReq := false

/- With the idle and the timer task; xPortStartScheduler switches to the first task. -/
def vTaskStartScheduler (idle timer : τ) (k : Kernel τ ε) : Option (Kernel τ ε) :=
  let k := xTaskGenericCreate timer 2 (xTaskGenericCreate idle 0 k)
  vTaskSwitchContext { k with xSchedulerRunning := true, xTickCount := 0 }

end Tasks
end YunbaIot.FreeRtosTasks
