import YunbaIot.FreeRtosSocket
import YunbaIot.LinkInvariant
import YunbaIot.Run

/-! mqtt_client.c as tasks on one socket: the client task connects, MQTTRun cycles, and
every failed ping too many starts a task that disconnects and connects again. The mutex
guards MQTTDisconnect, MQTTConnect and a round of MQTTRun, not what lies between. -/
namespace YunbaIot.Reconnect
open FreeRtosTimer MqttTransport MqttPacket MqttDeserialize MqttSerialize MqttClient FreeRtosSocket LinkInvariant

variable {τ : Type}

/-! MQTTConnect in pieces -/

inductive Connecting (τ : Type) where
  | returned (rc : Int) (st : St τ)
  | waiting (o : Outcome τ)

def Connecting.st : Connecting τ → St τ
  | .returned _ st => st
  | .waiting o => o.st

def connectBegin (net : Network τ) (options : Option ConnectData) (st : St τ) : Connecting τ :=
  if st.client.isconnected ≠ 0 then .returned failure st
  else
    let sent := sendConnect net options st
    if sent.rc ≠ success then .returned sent.rc sent.st else .waiting ⟨failure,sent.timer,sent.st⟩

/- One round of waitfor(c, CONNACK, &connect_timer) and what MQTTConnect makes of its end. -/
def connectRound (net : Network τ) (timer : Timer) (st : St τ) : Connecting τ :=
  let check := timerIsExpired timer st.wire.clock
  let st := st.setClock check.clock
  if check.expired then .returned failure st
  else
    let c := cycle net check.timer st
    if c.rc = MsgType.connack.code then
      .returned (connackCode (mqttDeserializeConnack c.st.client.readbuf.byte c.st.client.readbufSize)) c.st
    else .waiting c

def connectRounds (net : Network τ) : Nat → Connecting τ → Connecting τ
  | 0, c => c
  | _, .returned rc st => .returned rc st
  | rounds+1, .waiting o => connectRounds net rounds (connectRound net o.timer o.st)

def setConnected (rc : Int) (st : St τ) : St τ :=
  if rc = success then { st with client := { st.client with isconnected := 1 } } else st

theorem failureNotConnack : failure ≠ (MsgType.connack.code : Int) := by decide

theorem waitforRounds (net : Network τ) (fuel : Nat) (o : Outcome τ) (enough : o.st.wire.clock.length < fuel)
    (other : o.rc ≠ MsgType.connack.code) :
    let w := waitforLoop net .connack fuel o
    ∃ rounds, connectRounds net rounds (.waiting o) =
      if w.rc = MsgType.connack.code then
        .returned (connackCode (mqttDeserializeConnack w.st.client.readbuf.byte w.st.client.readbufSize)) w.st
      else .returned failure w.st := by
  induction fuel generalizing o with
  | zero => omega
  | succ fuel ih =>
    unfold waitforLoop
    by_cases running : (timerIsExpired o.timer o.st.wire.clock).expired = true
    · refine ⟨1,?_⟩
      simp [connectRounds, connectRound, running, other]
    · have shorter := roundClock net running
      by_cases awaited : (cycle net (timerIsExpired o.timer o.st.wire.clock).timer
          (o.st.setClock (timerIsExpired o.timer o.st.wire.clock).clock)).rc = MsgType.connack.code
      · refine ⟨1,?_⟩
        simp [connectRounds, connectRound, running, awaited]
      · obtain ⟨rounds,same⟩ := ih _ (by omega) awaited
        refine ⟨rounds+1,?_⟩
        simp only [connectRounds, connectRound, running, awaited, if_false]
        exact same

/- The pieces are MQTTConnect: under one stretch of the wire they return what it does. -/
theorem connectPieces (net : Network τ) (options : Option ConnectData) (st : St τ) :
    ∃ rounds rc st', connectRounds net rounds (connectBegin net options st) = .returned rc st' ∧
      mqttConnect net options true st = (rc, setConnected rc st') := by
  unfold connectBegin mqttConnect
  split
  · exact ⟨0,failure,st,rfl,rfl⟩
  · dsimp only
    split
    · rename_i failed
      refine ⟨0,_,_,rfl,?_⟩
      simp [setConnected, failed]
    · obtain ⟨rounds,same⟩ := waitforRounds net ((sendConnect net options st).st.wire.clock.length + 1)
        ⟨failure,(sendConnect net options st).timer,(sendConnect net options st).st⟩ (Nat.lt_succ_self _)
        failureNotConnack
      refine ⟨rounds,(awaitConnack net (sendConnect net options st).timer (sendConnect net options st).st).1,
        (awaitConnack net (sendConnect net options st).timer (sendConnect net options st).st).2,?_,?_⟩
      · rw [same]
        unfold awaitConnack waitfor
        dsimp only
        split <;> rfl
      · rw [if_pos rfl]
        unfold setConnected
        split <;> rfl

theorem connectBeginSt (net : Network τ) (options : Option ConnectData) (st : St τ) :
    (connectBegin net options st).st = if st.client.isconnected ≠ 0 then st else (sendConnect net options st).st := by
  unfold connectBegin
  split
  · rfl
  · dsimp only
    split <;> rfl

theorem connectRoundSt (net : Network τ) (timer : Timer) (st : St τ) :
    let check := timerIsExpired timer st.wire.clock
    (connectRound net timer st).st =
      if check.expired then st.setClock check.clock else (cycle net check.timer (st.setClock check.clock)).st := by
  unfold connectRound
  dsimp only
  split
  · rfl
  · split <;> rfl

/-! The tasks -/

/- What a stretch under the mutex meets: the readings of the clock, the outcomes of its
socket calls, and what the other tasks do in front of each. -/
structure Env where
  clock : List Tick
  recvs : List (Option (List UInt8))
  sends : List (Option Nat)
  moves : List (List Move)

structure Holder where
  task : Nat
  timer : Timer
  deriving DecidableEq

-- `holder` is the task that waits for its CONNACK and keeps the mutex.
structure World where
  st : St Link
  holder : Option Holder

def onLink (f : Link → Link) (st : St Link) : St Link := { st with wire := { st.wire with link := f st.wire.link } }

def load (env : Env) (st : St Link) : St Link :=
  { st with wire := ⟨env.clock,
    { st.wire.link with recvs := env.recvs, sends := env.sends, moves := env.moves }⟩ }

/- mqttclient_disconnect_internal, once for each ThreadStart of the stretch. -/
def spawn (before after : St Link) : St Link :=
  let started := (after.trace.drop before.trace.length).count .threadStart
  onLink (fun l => { l with tasks := l.tasks ++ List.replicate started ⟨.connectLost,.mqttDisconnect⟩ }) after

/- The client task stays in ST_CONNECT until MQTTConnect succeeds, then starts MQTTRun. -/
def connectReturned (rc : Int) (t : Task) : Task :=
  match t.role with
  | .client => { t with pc := if rc = success then .done else .mqttConnect }
  | .connectLost => { t with pc := .done }

def proceed (task : Nat) (before : St Link) : Connecting Link → World
  | .waiting o => ⟨spawn before o.st,some ⟨task,o.timer⟩⟩
  | .returned rc st =>
    ⟨onLink (fun l => { l with tasks := l.tasks.modify task (connectReturned rc) })
      (spawn before (setConnected rc st)),none⟩

def runTimer (env : Env) : Armed := timerCountdownMs 200 env.clock
def running (env : Env) (st : St Link) : St Link := (load env st).setClock (runTimer env).clock

inductive Step where
  | mqttRun (env : Env)
  | mqttDisconnect (task : Nat) (env : Env)
  | move (m : Move)
  | mqttConnect (task : Nat) (env : Env)
  | waitfor (env : Env)

def World.pc (w : World) (task : Nat) : Option Pc := w.st.wire.link.tasks[task]?.map Task.pc

-- Task 0 is the client task.
def Step.Enabled (w : World) : Step → Prop
  | .mqttRun _ => w.holder = none ∧ w.pc 0 = some .done
  | .mqttDisconnect task _ => w.holder = none ∧ w.pc task = some .mqttDisconnect
  | .move _ => True
  | .mqttConnect task _ => w.holder = none ∧ w.pc task = some .mqttConnect
  | .waitfor _ => w.holder ≠ none

instance (w : World) : (s : Step) → Decidable (s.Enabled w)
  | .mqttRun _ => inferInstanceAs (Decidable (w.holder = none ∧ w.pc 0 = some .done))
  | .mqttDisconnect task _ => inferInstanceAs (Decidable (w.holder = none ∧ w.pc task = some .mqttDisconnect))
  | .move _ => inferInstanceAs (Decidable True)
  | .mqttConnect task _ => inferInstanceAs (Decidable (w.holder = none ∧ w.pc task = some .mqttConnect))
  | .waitfor _ => inferInstanceAs (Decidable (w.holder ≠ none))

def World.step (options : ConnectData) (w : World) : Step → World
  | .mqttRun env => ⟨spawn w.st (cycle sockets (runTimer env).timer (running env w.st)).st,none⟩
  | .mqttDisconnect task env =>
    ⟨onLink (fun l => l.goto task .closesocket) (mqttDisconnect sockets (load env w.st)).2,none⟩
  | .move m => { w with st := onLink (fun l => l.act m) w.st }
  | .mqttConnect task env => proceed task w.st (connectBegin sockets (some options) (load env w.st))
  | .waitfor env =>
    match w.holder with
    | none => w
    | some h => proceed h.task w.st (connectRound sockets h.timer (load env w.st))

def fire (options : ConnectData) (w : World) (s : Step) : World := if s.Enabled w then w.step options s else w

/- Behind NetworkInit and MQTTClientInit the client task is about to call NetworkConnect. -/
def boot (sendbuf readbuf : Memory) (stack : UInt64) : World :=
  let st := St.static ⟨[],{ networkInit with tasks := [⟨.client,.socket⟩] }⟩
  ⟨mqttClientInit 30000 sendbuf 200 readbuf 200 { st with stack := stack },none⟩

end YunbaIot.Reconnect
