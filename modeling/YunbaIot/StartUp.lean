import YunbaIot.Run

/-! The start-up loop of yunba_mqtt_client_task: one turn makes the call of the state it
finds. Only ST_CONNECT looks at the result; every other state moves on whatever it is, and
no state leads back to NetworkConnect. -/
namespace YunbaIot.StartUp
open Run

inductive MqttState where
  | stInit | stConnect | stReg | stSub | stPublish | stRunning | stDis | stReconn
  deriving DecidableEq, Repr

inductive Call where
  | networkConnect | mqttConnect | mqttSubscribe | mqttSetAlias
  deriving DecidableEq, Repr

structure Made where
  call : Call
  rc : Int
  deriving DecidableEq, Repr

/- MQTT_State and the calls made so far, the latest first. -/
structure Task where
  state : MqttState
  made : List Made
  deriving DecidableEq, Repr

def boot : Task := ⟨.stInit,[]⟩

/- One turn of the loop, the call of which returns rc. -/
def turn (t : Task) (rc : Int) : Task :=
  match t.state with
  | .stInit => ⟨.stConnect,⟨.networkConnect,rc⟩ :: t.made⟩
  | .stConnect => ⟨if rc ≠ 0 then .stConnect else .stReg,⟨.mqttConnect,rc⟩ :: t.made⟩
  | .stReg => ⟨.stSub,⟨.mqttSubscribe,rc⟩ :: t.made⟩
  | .stSub => ⟨.stRunning,⟨.mqttSetAlias,rc⟩ :: t.made⟩
  | .stPublish | .stDis | .stReconn => t
  -- the loop was left
  | .stRunning => t

def task (results : List Int) : Task := run turn boot results

def latest (call : Call) (made : List Made) : Option Made := made.find? (·.call = call)

/- The calls made since the latest one of this kind. -/
def age (call : Call) (made : List Made) : Nat := made.findIdx (·.call = call)

/- The most recent calls of the four kinds succeeded, one after the other. -/
structure Succeeded (made : List Made) : Prop where
  each : ∀ call, latest call made = some ⟨call,0⟩
  networkFirst : age .mqttConnect made < age .networkConnect made
  thenSubscribe : age .mqttSubscribe made < age .mqttConnect made
  thenAlias : age .mqttSetAlias made < age .mqttSubscribe made

/- A run is in ST_RUNNING only through success, and can still get there. -/
structure Proper (results : List Int) : Prop where
  entered : (task results).state = .stRunning → Succeeded (task results).made
  goes : ∃ more, (task (results ++ more)).state = .stRunning ∧ Succeeded (task (results ++ more)).made

/- A state that moves on whatever its call returns is left with a success. -/
def Checked (t : Task) (rc : Int) : Prop := t.state ∈ [.stInit,.stReg,.stSub] → rc = 0

/-! What the loop has called -/

def connects (rcs : List Int) : List Made := rcs.map (⟨.mqttConnect,·⟩)

/- The calls behind every state, with a result for each. -/
inductive Called : Task → Prop where
  | atInit : Called boot
  | atConnect (network : Int) (failed : List Int) : Called ⟨.stConnect,connects failed ++ [⟨.networkConnect,network⟩]⟩
  | atReg (network : Int) (failed : List Int) :
      Called ⟨.stReg,⟨.mqttConnect,0⟩ :: (connects failed ++ [⟨.networkConnect,network⟩])⟩
  | atSub (network subscribe : Int) (failed : List Int) :
      Called ⟨.stSub,⟨.mqttSubscribe,subscribe⟩ :: ⟨.mqttConnect,0⟩ ::
        (connects failed ++ [⟨.networkConnect,network⟩])⟩
  | atRunning (network subscribe setAlias : Int) (failed : List Int) :
      Called ⟨.stRunning,⟨.mqttSetAlias,setAlias⟩ :: ⟨.mqttSubscribe,subscribe⟩ :: ⟨.mqttConnect,0⟩ ::
        (connects failed ++ [⟨.networkConnect,network⟩])⟩

theorem turnCalled {t : Task} (rc : Int) (called : Called t) : Called (turn t rc) := by
  cases called with
  | atInit => exact .atConnect rc []
  | atConnect network failed =>
    by_cases again : rc = 0
    · rw [again]
      exact .atReg network failed
    · have stays : turn ⟨.stConnect,connects failed ++ [⟨.networkConnect,network⟩]⟩ rc =
          ⟨.stConnect,connects (rc :: failed) ++ [⟨.networkConnect,network⟩]⟩ := by simp [turn, again, connects]
      rw [stays]
      exact .atConnect network (rc :: failed)
  | atReg network failed => exact .atSub network rc failed
  | atSub network subscribe failed => exact .atRunning network subscribe rc failed
  | atRunning network subscribe setAlias failed => exact .atRunning network subscribe setAlias failed

theorem taskCalled (results : List Int) : Called (task results) :=
  runInvariant (fun _ rc called => turnCalled rc called) results .atInit

theorem taskAppend (results more : List Int) : task (results ++ more) = run turn (task results) more := by
  unfold task run
  exact List.foldl_append

/-! Results that are looked at, and results that are not -/

/- Every call but MQTTConnect has succeeded. -/
def Sound (made : List Made) : Prop := ∀ m ∈ made, m.call ≠ .mqttConnect → m.rc = 0

theorem soundCons {m : Made} {made : List Made} : Sound (m :: made) ↔ (m.call ≠ .mqttConnect → m.rc = 0) ∧ Sound made :=
  List.forall_mem_cons

theorem turnSound {t : Task} (rc : Int) (called : Called t) : Sound (turn t rc).made ↔ Sound t.made ∧ Checked t rc := by
  cases called <;> simp [turn, soundCons, Checked, boot, and_comm]

theorem runSound {t : Task} (called : Called t) (results : List Int) :
    Sound (run turn t results).made ↔ Sound t.made ∧ Along turn Checked t results := by
  induction results generalizing t with
  | nil => exact ⟨fun sound => ⟨sound,trivial⟩,fun h => h.1⟩
  | cons rc later ih =>
    have first := turnSound rc called
    have rest := ih (turnCalled rc called)
    calc Sound (run turn (turn t rc) later).made
        ↔ Sound (turn t rc).made ∧ Along turn Checked (turn t rc) later := rest
      _ ↔ (Sound t.made ∧ Checked t rc) ∧ Along turn Checked (turn t rc) later := by rw [first]
      _ ↔ Sound t.made ∧ Checked t rc ∧ Along turn Checked (turn t rc) later := and_assoc

theorem taskSound (results : List Int) : Sound (task results).made ↔ Along turn Checked boot results := by
  have sound := runSound .atInit results
  have none : Sound boot.made := fun m inside => by cases inside
  exact ⟨fun s => (sound.mp s).2,fun along => sound.mpr ⟨none,along⟩⟩

theorem noneConnected (call : Call) (other : call ≠ .mqttConnect) (failed : List Int) (behind : List Made) :
    latest call (connects failed ++ behind) = latest call behind := by
  induction failed with
  | nil => rfl
  | cons rc failed ih =>
    have skipped : latest call (⟨.mqttConnect,rc⟩ :: (connects failed ++ behind)) =
        latest call (connects failed ++ behind) :=
      List.find?_cons_of_neg (by simpa using other.symm)
    exact skipped.trans ih

/- In ST_RUNNING the most recent calls succeeded exactly when every call but MQTTConnect did. -/
theorem runningSucceeded {t : Task} (called : Called t) (running : t.state = .stRunning) :
    Succeeded t.made ↔ Sound t.made := by
  cases called with
  | atRunning network subscribe setAlias failed =>
    have netLatest := noneConnected .networkConnect (by decide) failed [⟨.networkConnect,network⟩]
    constructor
    · intro succeeded
      have net := succeeded.each .networkConnect
      have sub := succeeded.each .mqttSubscribe
      have ali := succeeded.each .mqttSetAlias
      simp only [latest, reduceCtorEq, decide_false, Bool.false_eq_true, not_false_eq_true, List.find?_cons_of_neg,
        decide_true, List.find?_cons_of_pos, Option.some.injEq, Made.mk.injEq, true_and] at net sub ali netLatest
      rw [netLatest] at net
      rintro m inside other
      simp only [connects, List.mem_cons, List.mem_append, List.mem_map, List.not_mem_nil, or_false] at inside
      rcases inside with rfl | rfl | rfl | ⟨rc,_,rfl⟩ | rfl
      · exact ali
      · exact sub
      · rfl
      · exact absurd rfl other
      · simpa using net
    · intro sound
      have net : network = 0 := sound ⟨.networkConnect,network⟩ (by simp) nofun
      have sub : subscribe = 0 := sound ⟨.mqttSubscribe,subscribe⟩ (by simp) nofun
      have ali : setAlias = 0 := sound ⟨.mqttSetAlias,setAlias⟩ (by simp) nofun
      subst net sub ali
      refine ⟨?_,?_,?_,?_⟩
      · intro call
        cases call with
        | networkConnect =>
          have behind : latest .networkConnect (connects failed ++ [⟨.networkConnect,0⟩]) = some ⟨.networkConnect,0⟩ := netLatest
          simpa [latest] using behind
        | mqttConnect => rfl
        | mqttSubscribe => rfl
        | mqttSetAlias => rfl
      · simp [age, List.findIdx_cons]
      · simp [age, List.findIdx_cons]
      · simp [age, List.findIdx_cons]
  | _ => cases running

/-! Reaching ST_RUNNING -/

/- The results that lead on from a state when every call succeeds. -/
def ahead : MqttState → List Int
  | .stInit => [0,0,0,0]
  | .stConnect => [0,0,0]
  | .stReg => [0,0]
  | .stSub => [0]
  | _ => []

theorem aheadRuns {t : Task} (called : Called t) :
    (run turn t (ahead t.state)).state = .stRunning ∧ Along turn Checked t (ahead t.state) := by
  cases called <;> simp [ahead, boot, run, turn, Along, Checked]

/-- ST_RUNNING stays within reach, whatever the calls returned so far. -/
theorem runningReachable (results : List Int) : ∃ more, (task (results ++ more)).state = .stRunning :=
  ⟨ahead (task results).state,by rw [taskAppend]; exact (aheadRuns (taskCalled results)).1⟩

theorem properRun (results : List Int) : Proper results ↔ Along turn Checked boot results := by
  rw [← taskSound]
  have called := taskCalled results
  constructor
  · rintro ⟨_,more,running,succeeded⟩
    have sound := (runningSucceeded (taskCalled _) running).mp succeeded
    rw [taskAppend, runSound called] at sound
    exact sound.1
  · intro sound
    refine ⟨fun running => (runningSucceeded called running).mpr sound,ahead (task results).state,?_⟩
    have arrived : (task (results ++ ahead (task results).state)).state = .stRunning := by
      rw [taskAppend]
      exact (aheadRuns called).1
    refine ⟨arrived,(runningSucceeded (taskCalled _) arrived).mpr ?_⟩
    rw [taskAppend, runSound called]
    exact ⟨sound,(aheadRuns called).2⟩

/- The subscription fails, and the task runs without it. -/
theorem runningUnsubscribed : (task [0,0,-1,0]).state = .stRunning ∧
    latest .mqttSubscribe (task [0,0,-1,0]).made = some ⟨.mqttSubscribe,-1⟩ ∧ ¬Proper [0,0,-1,0] := by
  refine ⟨by decide,by decide,fun proper => ?_⟩
  have subscribed := (proper.entered (by decide)).each .mqttSubscribe
  exact absurd subscribed (by decide)

end YunbaIot.StartUp
