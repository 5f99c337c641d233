import YunbaIot.LinkInvariant
import YunbaIot.Outage
import YunbaIot.Session

/-! Outages over every run of the calls of an application: the history of signals and starts
that the calls make, and how far a start of the connection-lost task stands for one outage. -/
namespace YunbaIot.OutageRun
open FreeRtosTimer MqttTransport MqttPacket MqttDeserialize MqttSerialize MqttClient MqttRead MqttEffects LinkInvariant
  Session Outage

variable {τ : Type} {net : Network τ}

/-! The history of a run -/

/- What an event of the trace is to the history. A PINGREQ counts where keepalive sees the
result of its send. -/
def eventMarks : Event → List Mark
  | .received packet => if packetKind packet = some MsgType.pingresp.code then [.signal .pingresp] else []
  | .sendPacket packet _ rc =>
    if packetKind packet = some MsgType.pingreq.code ∨ rc ≠ success then [] else [.signal .sent]
  | .threadStart => [.started]
  | _ => []

def added (a b : St τ) : List Mark := (b.trace.drop a.trace.length).flatMap eventMarks

/- The ping of keepalive, if one is due. -/
def pingMarks (net : Network τ) (st : St τ) : List Mark :=
  if st.client.keepAliveInterval ≠ 0 ∧ (timerIsExpired st.client.pingTimer st.wire.clock).expired = true then
    [.signal (if (keepalive net st).1 = success then .pingSent else .pingFailed)]
  else []

def keepaliveMarks (net : Network τ) (st : St τ) : List Mark :=
  pingMarks net st ++ added st (keepalive net st).2

def cycleMarks (net : Network τ) (timer : Timer) (st : St τ) : List Mark :=
  let p := readPacket net timer st
  let h := handle net (packetType p.rc) p.timer p.st
  added st h.st ++ if h.exit then [] else keepaliveMarks net h.st

def waitforMarks (net : Network τ) (type : MsgType) : Nat → Outcome τ → List Mark
  | 0, _ => []
  | fuel+1, o =>
    let check := timerIsExpired o.timer o.st.wire.clock
    let st := o.st.setClock check.clock
    if check.expired then []
    else
      let c := cycle net check.timer st
      cycleMarks net check.timer st ++ if c.rc = type.code then [] else waitforMarks net type fuel c

/- A request and the wait for its answer. -/
def requestMarks (net : Network τ) (waits : Bool) (type : MsgType) (st : St τ) (sent : Outcome τ) : List Mark :=
  added st sent.st ++
    if waits ∧ sent.rc = success then
      waitforMarks net type (sent.st.wire.clock.length + 1) ⟨failure,sent.timer,sent.st⟩
    else []

def connectMarks (net : Network τ) (options : Option ConnectData) (block : Bool) (st : St τ) : List Mark :=
  if st.client.isconnected ≠ 0 then []
  else requestMarks net block .connack st (sendConnect net options st) ++
    if (mqttConnect net options block st).1 = success then [.signal .connected] else []

def unsubscribeMarks (net : Network τ) (topicFilter : CString) (st : St τ) : List Mark :=
  if st.client.isconnected = 0 then []
  else requestMarks net true .unsuback st (sendUnsubscribe net topicFilter st)

def opMarks (net : Network τ) (st : St τ) : Op → List Mark
  | .connect options block => connectMarks net options block st
  | .unsubscribe topicFilter => unsubscribeMarks net topicFilter st
  | .cycle timer => cycleMarks net timer st
  | op => added st (apply net st op)

def history (net : Network τ) (st : St τ) (ops : List Op) : List Mark :=
  Run.outputs (apply net) (opMarks net) st ops

/- The calls on a client that is set up. -/
def Working : Op → Prop
  | .clientInit .. => False
  | _ => True

/-! What every step does to the counter -/

theorem addedEvents {a b : St τ} (new : List Event) (gained : b.trace = a.trace ++ new) :
    added a b = new.flatMap eventMarks := by
  unfold added
  rw [gained, List.drop_left]

/- An event that the counter does not heed. -/
def Unheeded (e : Event) : Prop := eventMarks e = [] ∨ eventMarks e = [.signal .sent]

theorem unheededMarks (c : UInt8) {new : List Event} (unheeded : ∀ e ∈ new, Unheeded e) :
    Advances c (new.flatMap eventMarks) c := by
  induction new with
  | nil => exact .none rfl
  | cons e later ih =>
    have rest := ih fun e inside => unheeded e (List.mem_cons_of_mem _ inside)
    have now : Advances c (eventMarks e) c := by
      rcases unheeded e (List.mem_cons_self ..) with none | sent
      · rw [none]
        exact .none rfl
      · rw [sent]
        exact ⟨[.sent],rfl,rfl⟩
    exact now.trans rest

theorem stillAdvances {a b : St τ} (gains : Gains Unheeded a b) (still : Still a b) :
    Advances a.client.failConnCount (added a b) b.client.failConnCount := by
  obtain ⟨new,gained,unheeded⟩ := gains
  rw [addedEvents _ gained, still.count]
  exact unheededMarks a.client.failConnCount unheeded

theorem sendUnheeded {t : MsgType} (other : t ≠ .pingreq) {e : Event} (send : SendOf t e) : Unheeded e := by
  cases e with
  | sendPacket packet transmitted rc =>
    have kind : packetKind packet = some t.code := send
    have apart : packetKind packet ≠ some MsgType.pingreq.code := fun same =>
      other (MsgType.codeInjective (Option.some.inj (kind.symm.trans same)))
    by_cases whole : rc = success
    · right
      simp [eventMarks, apart, whole]
    · left
      simp [eventMarks, whole]
  | _ => exact False.elim send

theorem sendSerializedAdvances {s : Serialized} {t : MsgType} (opens : Opens s t) (other : t ≠ .pingreq)
    (timer : Timer) {a b : St τ} (trace : b.trace = a.trace) (still : Still a b) :
    Advances a.client.failConnCount (added a (sendSerialized net s timer b).st)
      (sendSerialized net s timer b).st.client.failConnCount :=
  stillAdvances ((Gains.none trace).trans ((sendSerializedGains opens timer b).mono fun _ => sendUnheeded other))
    (still.trans (sendSerializedStill net s timer b))

theorem handleUnheeded {e : Event} (event : HandleEvent e) : Unheeded e := by
  rcases event with ⟨m,rfl⟩ | ⟨cmd,status,payload,rfl⟩ | ⟨t,known,send⟩
  · exact Or.inl rfl
  · exact Or.inl rfl
  · have acks : t ≠ .pingreq := by
      rintro rfl
      simp at known
    exact sendUnheeded acks send

theorem handleCount (net : Network τ) {type : Nat} (other : MsgType.ofCode type ≠ some .pingresp) (timer : Timer)
    (st : St τ) :
    (handle net type timer st).st.client.failConnCount = st.client.failConnCount := by
  unfold handle
  split
  · unfold handleConnack
    dsimp only
    split <;> rfl
  · rfl
  · rfl
  · exact (handlePublishStill timer st).count
  · exact (answerAckStill .pubrel timer st).count
  · exact (answerAckStill .pubcomp timer st).count
  · exact absurd (by assumption) other
  · rcases handleExtcmdState timer st with same | same
    · rw [same]
    · rw [same]
      exact (deliverextStill _ st).count
  · rfl

/-! Incoming packets -/

/- A packet read and handled, a PINGRESP with its reset. -/
theorem handledAdvances (net : Network τ) (timer : Timer) (st : St τ) :
    let p := readPacket net timer st
    let h := handle net (packetType p.rc) p.timer p.st
    Advances st.client.failConnCount (added st h.st) h.st.client.failConnCount := by
  have client : (readPacket net timer st).st.client.failConnCount = st.client.failConnCount := by
    rw [readPacketClient]
  have gains : Gains HandleEvent (readPacket net timer st).st
      (handle net (packetType (readPacket net timer st).rc) (readPacket net timer st).timer
        (readPacket net timer st).st).st :=
    handleGains _ _ _
  dsimp only
  by_cases ping : MsgType.ofCode (packetType (readPacket net timer st).rc) = some .pingresp
  · have handled : handle net (packetType (readPacket net timer st).rc) (readPacket net timer st).timer
        (readPacket net timer st).st = handlePingresp (readPacket net timer st).timer (readPacket net timer st).st := by
      simp only [handle, ping]
    have code := MsgType.codeOfCode ping
    rcases readPacketKind net timer st with ⟨failed,_⟩ | ⟨packet,received,kind⟩
    · rw [failed] at code
      cases code
    · have answer : eventMarks (.received packet) = [.signal .pingresp] := if_pos (kind.trans (congrArg some code))
      have new : (handlePingresp (readPacket net timer st).timer (readPacket net timer st).st).st.trace =
          st.trace ++ [.received packet] := received
      rw [handled, addedEvents _ new, List.flatMap_singleton, answer]
      exact ⟨[.pingresp],rfl,rfl⟩
  · have quiet := handleCount net ping (readPacket net timer st).timer (readPacket net timer st).st
    have read : Gains Unheeded st (readPacket net timer st).st := by
      rcases readPacketKind net timer st with ⟨_,same⟩ | ⟨packet,received,kind⟩
      · exact .none same
      · refine .one received (Or.inl (if_neg fun same => ping ?_))
        rw [Option.some.inj (kind.symm.trans same), MsgType.ofCodeCode]
    obtain ⟨new,gained,unheeded⟩ := read.trans (gains.mono fun _ => handleUnheeded)
    rw [addedEvents _ gained, quiet, client]
    exact unheededMarks st.client.failConnCount unheeded

/-! keepalive -/

theorem pingEventsUnmarked (bufSize : Nat) (timer : Timer) (st : St τ) :
    (sentEvents net (mqttSerializePingreq bufSize) timer st).flatMap eventMarks = [] := by
  have sends : ∀ e ∈ sentEvents net (mqttSerializePingreq bufSize) timer st, SendOf .pingreq e :=
    sentEventsOf (zeroOpens bufSize .pingreq) timer st
  apply List.flatMap_eq_nil_iff.mpr
  intro e inside
  have send := sends e inside
  cases e with
  | sendPacket packet transmitted rc =>
    have kind : packetKind packet = some MsgType.pingreq.code := send
    simp [eventMarks, kind]
  | _ => exact False.elim send

theorem pingFailedAdvances (st : St τ) :
    Advances st.client.failConnCount (.signal .pingFailed :: added st (pingFailed st))
      (pingFailed st).client.failConnCount := by
  refine ⟨[.pingFailed],?_,?_⟩
  · unfold pingFailed marks starts
    dsimp only
    split
    · rename_i due
      rw [addedEvents [.threadStart] rfl]
      simp [due, marks, eventMarks]
    · rename_i early
      rw [addedEvents [] (by simp [St.armPing, St.setClock])]
      simp [early, marks]
  · unfold pingFailed
    dsimp only
    split <;> rfl

theorem addedSame {a b : St τ} (same : b.trace = a.trace) : added a b = [] :=
  addedEvents [] (by rw [same, List.append_nil])

theorem addedBehind {a b c : St τ} {new : List Event} (gained : b.trace = a.trace ++ new)
    (more : ∃ later, c.trace = b.trace ++ later) : added a c = new.flatMap eventMarks ++ added b c := by
  obtain ⟨later,behind⟩ := more
  have whole : c.trace = a.trace ++ (new ++ later) := by
    rw [behind, gained, List.append_assoc]
  rw [addedEvents _ whole, addedEvents _ behind, List.flatMap_append]

theorem pingFailedTrace (st : St τ) : ∃ later, (pingFailed st).trace = st.trace ++ later := by
  obtain ⟨later,gained,_⟩ := pingFailedGains st
  exact ⟨later,gained⟩

/- keepalive where it sends its PINGREQ, with the ping timer checked and its own one set. -/
def pingReady (st : St τ) : St τ :=
  let check := timerIsExpired st.client.pingTimer st.wire.clock
  { st.setClock (timerCountdownMs 1000 check.clock).clock with
    client := { st.client with pingTimer := check.timer } }

def pingSend (net : Network τ) (st : St τ) : Outcome τ :=
  let check := timerIsExpired st.client.pingTimer st.wire.clock
  sendSerialized net (mqttSerializePingreq st.client.bufSize) (timerCountdownMs 1000 check.clock).timer (pingReady st)

theorem keepalivePings (net : Network τ) {st : St τ} (due : PingDue st) :
    keepalive net st = ((pingSend net st).rc,
      if (pingSend net st).rc = success then pingSent (pingSend net st).st else pingFailed (pingSend net st).st) := by
  unfold keepalive
  dsimp only
  rw [if_neg due.1, if_pos due.2]
  rfl

/- The PINGREQ itself leaves neither a mark nor a change of the counter. -/
theorem pingSendSilent (net : Network τ) (st : St τ) :
    (∃ new, (pingSend net st).st.trace = st.trace ++ new ∧ new.flatMap eventMarks = []) ∧
      (pingSend net st).st.client.failConnCount = st.client.failConnCount := by
  have opens := zeroOpens st.client.bufSize .pingreq
  have still : Still st (pingReady st) := ⟨rfl,rfl⟩
  exact ⟨⟨_,sendSerializedTrace net opens _ (pingReady st),pingEventsUnmarked _ _ _⟩,
    (still.trans (sendSerializedStill net _ _ (pingReady st))).count⟩

theorem keepaliveAdvances (net : Network τ) (st : St τ) :
    Advances st.client.failConnCount (keepaliveMarks net st) (keepalive net st).2.client.failConnCount := by
  unfold keepaliveMarks pingMarks
  by_cases due : PingDue st
  · obtain ⟨⟨new,gained,silent⟩,count⟩ := pingSendSilent net st
    have pinged : st.client.keepAliveInterval ≠ 0 ∧ _ := due
    rw [if_pos pinged, keepalivePings net due]
    dsimp only
    split
    · have same : (pingSent (pingSend net st).st).trace = st.trace ++ new := gained
      rw [addedEvents _ same, silent]
      exact ⟨[.pingSent],rfl,rfl⟩
    · rw [addedBehind gained (pingFailedTrace _), silent, ← count]
      exact pingFailedAdvances (pingSend net st).st
  · obtain ⟨_,trace,still⟩ := keepaliveIdle net due
    have unpinged : ¬ (st.client.keepAliveInterval ≠ 0 ∧ _) := due
    rw [if_neg unpinged, addedSame trace]
    exact .none still.count

/-! cycle and the calls -/

theorem cycleAdvances (net : Network τ) (timer : Timer) (st : St τ) :
    Advances st.client.failConnCount (cycleMarks net timer st) (cycle net timer st).st.client.failConnCount := by
  have handled := handledAdvances net timer st
  rw [cycleSt]
  unfold cycleMarks
  dsimp only at handled ⊢
  split
  · rw [List.append_nil]
    exact handled
  · exact handled.trans (keepaliveAdvances net _)

theorem waitforAdvances (net : Network τ) (type : MsgType) (fuel : Nat) (o : Outcome τ) :
    Advances o.st.client.failConnCount (waitforMarks net type fuel o)
      (waitforLoop net type fuel o).st.client.failConnCount := by
  induction fuel generalizing o with
  | zero => exact .none rfl
  | succ fuel ih =>
    unfold waitforMarks waitforLoop
    dsimp only
    split
    · exact .none rfl
    · have now := cycleAdvances net (timerIsExpired o.timer o.st.wire.clock).timer
        (o.st.setClock (timerIsExpired o.timer o.st.wire.clock).clock)
      split
      · rw [List.append_nil]
        exact now
      · exact now.trans (ih _)

/- The state a request and its wait leave. -/
def waited (net : Network τ) (waits : Bool) (type : MsgType) (sent : Outcome τ) : St τ :=
  if waits ∧ sent.rc = success then (waitfor net type sent.timer sent.st).st else sent.st

theorem requestAdvances (waits : Bool) (type : MsgType) {a : St τ} {sent : Outcome τ}
    (first : Advances a.client.failConnCount (added a sent.st) sent.st.client.failConnCount) :
    Advances a.client.failConnCount (requestMarks net waits type a sent)
      (waited net waits type sent).client.failConnCount := by
  unfold requestMarks waited
  split
  · exact first.trans (waitforAdvances net type _ _)
  · rw [List.append_nil]
    exact first

theorem connectCount (net : Network τ) (options : Option ConnectData) (block : Bool) {st : St τ}
    (down : st.client.isconnected = 0) :
    (mqttConnect net options block st).2.client.failConnCount =
      (waited net block .connack (sendConnect net options st)).client.failConnCount := by
  have waits (timer : Timer) (s : St τ) : (awaitConnack net timer s).2 = (waitfor net .connack timer s).st := by
    unfold awaitConnack
    dsimp only
    split <;> rfl
  unfold mqttConnect waited
  rw [if_neg (not_not_intro down)]
  cases block with
  | false => rfl
  | true =>
    by_cases sent : (sendConnect net options st).rc = success
    · simp only [sent, ne_eq, not_true_eq_false, if_false, if_true, and_self, ← waits]
      split <;> rfl
    · simp [sent]

theorem connectAdvances (net : Network τ) (options : Option ConnectData) (block : Bool) (st : St τ) :
    Advances st.client.failConnCount (connectMarks net options block st)
      (mqttConnect net options block st).2.client.failConnCount := by
  unfold connectMarks
  by_cases down : st.client.isconnected = 0
  · have sent : Advances st.client.failConnCount (added st (sendConnect net options st).st)
        (sendConnect net options st).st.client.failConnCount :=
      sendSerializedAdvances (connectOpens _ _) nofun _ rfl ⟨rfl,rfl⟩
    rw [if_neg (not_not_intro down), connectCount net options block down]
    apply (requestAdvances block .connack sent).trans
    split
    · exact ⟨[.connected],rfl,rfl⟩
    · exact .none rfl
  · rw [if_pos down, mqttConnect, if_pos down]
    exact .none rfl

theorem unsubscribeCount (net : Network τ) (topicFilter : CString) {st : St τ} (up : st.client.isconnected ≠ 0) :
    (mqttUnsubscribe net topicFilter st).2.client.failConnCount =
      (waited net true .unsuback (sendUnsubscribe net topicFilter st)).client.failConnCount := by
  have waits (rc : Int) (timer : Timer) (s : St τ) :
      (awaitUnsuback net rc timer s).2 = (waitfor net .unsuback timer s).st := by
    unfold awaitUnsuback
    dsimp only
    split <;> rfl
  unfold mqttUnsubscribe waited
  rw [if_neg up]
  by_cases sent : (sendUnsubscribe net topicFilter st).rc = success
  · simp [sent, waits]
  · simp [sent]

theorem unsubscribeAdvances (net : Network τ) (topicFilter : CString) (st : St τ) :
    Advances st.client.failConnCount (unsubscribeMarks net topicFilter st)
      (mqttUnsubscribe net topicFilter st).2.client.failConnCount := by
  unfold unsubscribeMarks
  by_cases down : st.client.isconnected = 0
  · rw [if_pos down, mqttUnsubscribe, if_pos down]
    exact .none rfl
  · have sent : Advances st.client.failConnCount (added st (sendUnsubscribe net topicFilter st).st)
        (sendUnsubscribe net topicFilter st).st.client.failConnCount :=
      sendSerializedAdvances (unsubscribeOpens _ _ _ _) nofun _ rfl ⟨rfl,rfl⟩
    rw [if_neg down, unsubscribeCount net topicFilter down]
    exact requestAdvances true .unsuback sent

theorem endedAdvances {a b c : St τ} {e : Event} (gains : Gains Unheeded a b) (still : Still a b)
    (ended : c.trace = b.trace ++ [e]) (silent : eventMarks e = [])
    (count : c.client.failConnCount = b.client.failConnCount) :
    Advances a.client.failConnCount (added a c) c.client.failConnCount := by
  obtain ⟨new,gained,unheeded⟩ := gains.trans (.one ended (Or.inl silent))
  rw [addedEvents _ gained, count, still.count]
  exact unheededMarks a.client.failConnCount unheeded

/-- Every call but the set-up of a client takes the failure counter where its history says. -/
theorem applyAdvances (net : Network τ) (st : St τ) {op : Op} (working : Working op) :
    Advances st.client.failConnCount (opMarks net st op) (apply net st op).client.failConnCount := by
  cases op with
  | clientInit => exact False.elim working
  | connect options block => exact connectAdvances net options block st
  | unsubscribe topicFilter => exact unsubscribeAdvances net topicFilter st
  | cycle timer => exact cycleAdvances net timer st
  | publish topicName message =>
    unfold opMarks apply mqttPublish
    dsimp only
    split
    · rw [addedSame rfl]
      exact .none rfl
    · split
      · exact sendSerializedAdvances (publishOpens _ _ _ _ _ _ _) nofun _ rfl ⟨rfl,rfl⟩
      · exact sendSerializedAdvances (publishOpens _ _ _ _ _ _ _) nofun _ rfl ⟨rfl,rfl⟩
  | subscribe topicFilter qos =>
    unfold opMarks apply mqttSubscribe
    dsimp only
    split
    · rw [addedSame rfl]
      exact .none rfl
    · exact sendSerializedAdvances (subscribeOpens _ _ _ _) nofun _ rfl ⟨rfl,rfl⟩
  | extendedCmd cmd payload qos retained =>
    unfold opMarks apply mqttExtendedCmd
    dsimp only
    split
    · have clocked : added st (st.setClock (commandTimer st).clock) = [] := addedSame rfl
      rw [clocked]
      exact .none rfl
    · split
      · exact sendSerializedAdvances (extendedcmdOpens _ _ _ _ _ _ _) nofun _ rfl ⟨rfl,rfl⟩
      · exact sendSerializedAdvances (extendedcmdOpens _ _ _ _ _ _ _) nofun _ rfl ⟨rfl,rfl⟩
  | disconnect =>
    have sent : Gains (SendOf .disconnect) (st.setClock (commandTimer st).clock)
        (sendSerialized net (mqttSerializeZero st.client.bufSize MsgType.disconnect.code) (commandTimer st).timer
          (st.setClock (commandTimer st).clock)).st :=
      sendSerializedGains (zeroOpens st.client.bufSize .disconnect) _ _
    have still := sendSerializedStill net (mqttSerializeZero st.client.bufSize MsgType.disconnect.code)
      (commandTimer st).timer (st.setClock (commandTimer st).clock)
    have other : MsgType.disconnect ≠ .pingreq := nofun
    unfold opMarks apply mqttDisconnect mqttSerializeDisconnect
    dsimp only
    generalize sendSerialized net _ _ _ = o at sent still ⊢
    have clocked : Still st (st.setClock (commandTimer st).clock) := ⟨rfl,rfl⟩
    exact endedAdvances (sent.mono fun _ => sendUnheeded other) (clocked.trans still) rfl rfl rfl

theorem historyAdvances (net : Network τ) (st : St τ) (ops : List Op) (working : ∀ op ∈ ops, Working op) :
    Advances st.client.failConnCount (history net st ops)
      (Run.run (apply net) st ops).client.failConnCount := by
  induction ops generalizing st with
  | nil => exact .none rfl
  | cons op later ih =>
    have now := applyAdvances net st (working op (List.mem_cons_self ..))
    exact now.trans (ih (apply net st op) fun op inside => working op (List.mem_cons_of_mem _ inside))

/-- In a run of a client that has been set up, the connection-lost task is started at most once
an outage, and after four failed pings, if and only if every ping that fails is one of the first
three since the counter was cleared or the fourth of a row that nothing interrupted. -/
theorem oneReconnectExact (net : Network τ) (commandTimeoutMs : UInt32) (sendbuf : Memory) (sendbufSize : Nat)
    (readbuf : Memory) (readbufSize : Nat) (st : St τ) (ops : List Op) (working : ∀ op ∈ ops, Working op) :
    let st := mqttClientInit commandTimeoutMs sendbuf sendbufSize readbuf readbufSize st
    OneReconnect (history net st ops) ↔ Meets ⟨0,false⟩ ((history net st ops).filterMap Mark.input) := by
  intro st
  obtain ⟨signals,same,_⟩ := historyAdvances net st ops working
  have fresh : st.client.failConnCount = 0 := rfl
  rw [same, fresh, marksInputs, ← onceMeets signals clearedAgrees]
  exact (oncePrefix ⟨0,false⟩ (marks 0 signals)).symm

/-! A session that pings at 60 s and finds the link broken, each later look at the ping timer
at one of the given seconds -/

def looks (seconds : List UInt32) : List Tick := seconds.flatMap fun s => List.replicate 6 ⟨0,s * 100⟩

def outage (seconds : List UInt32) : St Script :=
  let broken := List.replicate seconds.length (.error 0 0)
  mqttClientInit 30000 (.ofList []) 100 (.ofList []) 100
    (St.static ⟨looks (0 :: seconds),⟨[],[],.accept 14 :: broken⟩⟩)

def rounds (n : Nat) : List Op := .connect none false :: List.replicate n (.cycle ⟨100,⟨0,0⟩⟩)

theorem roundsWorking (n : Nat) : ∀ op ∈ rounds n, Working op := by
  intro op inside
  rcases List.mem_cons.mp inside with rfl | round
  · trivial
  · rw [(List.mem_replicate.mp round).2]
    trivial

theorem fourRounds : history scripted (outage [60,80,100,120]) (rounds 4) =
    [.signal .sent,.signal .connected,.signal .pingFailed,.signal .pingFailed,.signal .pingFailed,
      .signal .pingFailed,.started] := by
  decide +kernel

theorem fourRoundsReconnect : OneReconnect (history scripted (outage [60,80,100,120]) (rounds 4)) := by
  apply (oneReconnectExact scripted _ _ _ _ _ _ (rounds 4) (roundsWorking 4)).mpr
  have run := fourRounds
  rw [outage] at run
  rw [run]
  exact ⟨trivial,trivial,Or.inl (by decide),Or.inl (by decide),Or.inl (by decide),Or.inr ⟨rfl,rfl⟩,trivial⟩

/- A second after the fourth failure the ping timer is still expired. -/
theorem fiveRounds : history scripted (outage [60,80,100,120,121]) (rounds 5) =
    [.signal .sent,.signal .connected,.signal .pingFailed,.signal .pingFailed,.signal .pingFailed,
      .signal .pingFailed,.started,.signal .pingFailed,.started] := by
  decide +kernel

theorem fiveRoundsReconnectTwice : ¬ OneReconnect (history scripted (outage [60,80,100,120,121]) (rounds 5)) := by
  rw [fiveRounds]
  intro once
  have second := once [.signal .sent,.signal .connected,.signal .pingFailed,.signal .pingFailed,.signal .pingFailed,
    .signal .pingFailed,.started,.signal .pingFailed] (List.prefix_refl _)
  cases second.1

end YunbaIot.OutageRun
