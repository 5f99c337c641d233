import YunbaIot.Framing
import YunbaIot.Session

/-! The calls of sendPacket that a call of the client makes, and session gating of the bytes
that go out. The retry of sendPacket offers `length` bytes from &c->buf[sent], so a
transport that has taken a part of the packet is offered stale bytes of the send buffer
behind it, and these may be a packet of an earlier session. -/
namespace YunbaIot.SendCalls
open FreeRtosTimer MqttTransport MqttPacket MqttDeserialize MqttSerialize MqttClient MqttRead Framing MqttEffects Session

variable {τ : Type} {net : Network τ}

/- A packet, and the timer and state its sender gives sendPacket with it. -/
structure SendCall (τ : Type) where
  packet : Serialized
  timer : Timer
  st : St τ

/- No write of the loop takes more than the packet still has. -/
def TakesWithin (net : Network τ) (byte : Nat → UInt8) (length : Nat) : Nat → SendLoop τ → Prop
  | 0, _ => True
  | fuel+1, s =>
    let check := timerIsExpired s.timer s.wire.clock
    let left := timerLeftMs check.timer check.clock
    let offered := Memory.slice byte s.sent length
    let w := net.mqttwrite offered left.ms { s.wire with clock := left.clock }
    s.sent < length → check.expired = false → w.1.taken ≤ length - s.sent ∧
      (0 ≤ w.1.rc → TakesWithin net byte length fuel
        ⟨w.1.rc,s.sent + w.1.rc.toNat,s.transmitted ++ offered.take w.1.taken,left.timer,w.2⟩)

def SendCall.Within (net : Network τ) (x : SendCall τ) : Prop :=
  0 < x.packet.rc → TakesWithin net (x.st.emit x.packet.written).client.buf.byte x.packet.rc.toNat
    (x.st.wire.clock.length + 1) ⟨failure,0,[],x.timer,x.st.wire⟩

/-! The packets each part of the client sends -/

def publishCalls (timer : Timer) (st : St τ) : List (SendCall τ) :=
  let out := mqttDeserializePublish st.client.readbuf.byte st.client.readbufSize
  let msg := publishMessage st.client.readbuf.byte out
  if out.rc ≠ 1 ∨ msg.qos = 0 then []
  else [⟨publishAck st.client.bufSize msg.qos (msg.id.getD st.stack),timer,st⟩]

def answerCalls (answer : MsgType) (timer : Timer) (st : St τ) : List (SendCall τ) :=
  let out := mqttDeserializeAck st.client.readbuf.byte st.client.readbufSize
  if out.rc ≠ 1 then []
  else [⟨mqttSerializeAck st.client.bufSize answer.code 0 (out.packetid.getD st.stack),timer,st⟩]

def handleCalls (packetType : Nat) (timer : Timer) (st : St τ) : List (SendCall τ) :=
  match MsgType.ofCode packetType with
  | some .publish => publishCalls timer st
  | some .pubrec => answerCalls .pubrel timer st
  | some .pubrel => answerCalls .pubcomp timer st
  | _ => []

def keepaliveCalls (st : St τ) : List (SendCall τ) :=
  let check := timerIsExpired st.client.pingTimer st.wire.clock
  let checked := { st.setClock check.clock with client := { st.client with pingTimer := check.timer } }
  let armed := timerCountdownMs 1000 checked.wire.clock
  if st.client.keepAliveInterval ≠ 0 ∧ check.expired = true then
    [⟨mqttSerializePingreq checked.client.bufSize,armed.timer,checked.setClock armed.clock⟩]
  else []

def cycleCalls (net : Network τ) (timer : Timer) (st : St τ) : List (SendCall τ) :=
  let p := readPacket net timer st
  let type := packetType p.rc
  let h := handle net type p.timer p.st
  handleCalls type p.timer p.st ++ if h.exit then [] else keepaliveCalls h.st

def waitforLoopCalls (net : Network τ) (type : MsgType) : Nat → Outcome τ → List (SendCall τ)
  | 0, _ => []
  | fuel+1, o =>
    let check := timerIsExpired o.timer o.st.wire.clock
    let st := o.st.setClock check.clock
    if check.expired then []
    else
      let c := cycle net check.timer st
      cycleCalls net check.timer st ++ if c.rc = type.code then [] else waitforLoopCalls net type fuel c

def waitforCalls (net : Network τ) (type : MsgType) (timer : Timer) (st : St τ) : List (SendCall τ) :=
  waitforLoopCalls net type (st.wire.clock.length + 1) ⟨failure,timer,st⟩

def connectCall (options : Option ConnectData) (st : St τ) : SendCall τ :=
  let armed := commandTimer st
  let options := options.getD ConnectData.initializer
  let st := st.setClock armed.clock
  let st := { st with client := { st.client with keepAliveInterval := options.keepAliveInterval.toUInt32 } }
  ⟨mqttSerializeConnect st.client.bufSize options,armed.timer,st.armPing st.client.keepAliveInterval⟩

def publishCall (topicName : CString) (message : Publication) (st : St τ) : SendCall τ :=
  let armed := commandTimer st
  let st := st.setClock armed.clock
  let id := if message.qos = 1 ∨ message.qos = 2 then getNextPacketId st else (message.id, st)
  ⟨mqttSerializePublish id.2.client.bufSize 0 message.qos message.retained id.1 ⟨some topicName,none⟩ message.payload,
    armed.timer,id.2⟩

def subscribeCall (topicFilter : CString) (qos : Nat) (st : St τ) : SendCall τ :=
  let armed := commandTimer st
  let id := getNextPacketId (st.setClock armed.clock)
  ⟨mqttSerializeSubscribe id.2.client.bufSize 0 id.1 [⟨⟨some topicFilter,none⟩,qos⟩],armed.timer,id.2⟩

def unsubscribeCall (topicFilter : CString) (st : St τ) : SendCall τ :=
  let armed := commandTimer st
  let id := getNextPacketId (st.setClock armed.clock)
  ⟨mqttSerializeUnsubscribe id.2.client.bufSize 0 id.1 [⟨some topicFilter,none⟩],armed.timer,id.2⟩

def extendedCmdCall (cmd : UInt8) (payload : List UInt8) (qos retained : Nat) (st : St τ) : SendCall τ :=
  let armed := commandTimer st
  let st := st.setClock armed.clock
  let id := if qos = 1 ∨ qos = 2 then getNextPacketId st else (0, st)
  ⟨mqttSerializeExtendedcmd id.2.client.bufSize 0 qos retained id.1 cmd payload,armed.timer,id.2⟩

def disconnectCall (st : St τ) : SendCall τ :=
  let armed := commandTimer st
  ⟨mqttSerializeDisconnect st.client.bufSize,armed.timer,st.setClock armed.clock⟩

def SendCall.run (net : Network τ) (x : SendCall τ) : Outcome τ := sendSerialized net x.packet x.timer x.st

def connectCalls (net : Network τ) (options : Option ConnectData) (block : Bool) (st : St τ) : List (SendCall τ) :=
  let sent := (connectCall options st).run net
  if st.client.isconnected ≠ 0 then []
  else connectCall options st ::
    if block = true ∧ sent.rc = success then waitforCalls net .connack sent.timer sent.st else []

def unsubscribeCalls (net : Network τ) (topicFilter : CString) (st : St τ) : List (SendCall τ) :=
  let sent := (unsubscribeCall topicFilter st).run net
  if st.client.isconnected = 0 then []
  else unsubscribeCall topicFilter st ::
    if sent.rc = success then waitforCalls net .unsuback sent.timer sent.st else []

/- Every packet that one call of the application sends, each where it is sent. -/
def sendCalls (net : Network τ) (st : St τ) : Op → List (SendCall τ)
  | .clientInit .. => []
  | .connect options block => connectCalls net options block st
  | .publish topicName message => if st.client.isconnected = 0 then [] else [publishCall topicName message st]
  | .subscribe topicFilter qos => if st.client.isconnected = 0 then [] else [subscribeCall topicFilter qos st]
  | .unsubscribe topicFilter => unsubscribeCalls net topicFilter st
  | .extendedCmd cmd payload qos retained =>
    if st.client.isconnected = 0 then [] else [extendedCmdCall cmd payload qos retained st]
  | .disconnect => [disconnectCall st]
  | .cycle timer => cycleCalls net timer st

/-! What goes out -/

/- No byte behind the packet has gone out. -/
def Bounded : Event → Prop
  | .sendPacket packet transmitted _ => transmitted.length ≤ packet.length
  | _ => True

theorem takenLength (net : Network τ) (out offered : List UInt8) (ms : UInt32) (w : Wire τ) :
    (out ++ offered.take (net.mqttwrite offered ms w).1.taken).length =
      out.length + (net.mqttwrite offered ms w).1.taken := by
  rw [List.length_append, List.length_take, Nat.min_eq_left (net.writeFits offered ms w)]

theorem loopBounded (byte : Nat → UInt8) (length fuel : Nat) (s : SendLoop τ)
    (within : TakesWithin net byte length fuel s) (counted : s.transmitted.length = s.sent) (room : s.sent ≤ length) :
    (sendLoop net byte length fuel s).transmitted.length ≤ length := by
  induction fuel generalizing s with
  | zero =>
    rw [sendLoop, counted]
    exact room
  | succ fuel ih =>
    unfold sendLoop
    split
    · rename_i unfinished
      dsimp only
      cases running : (timerIsExpired s.timer s.wire.clock).expired with
      | true =>
        rw [if_pos rfl, counted]
        exact room
      | false =>
        rw [if_neg (by decide)]
        obtain ⟨fits,later⟩ := within unfinished running
        split
        · dsimp only
          rw [takenLength, counted]
          exact (Nat.add_le_add_left fits s.sent).trans (by omega)
        · rename_i fine
          have count := net.writeCount _ _ _ (Int.not_lt.mp fine)
          refine ih _ (later (Int.not_lt.mp fine)) ?_ ?_
          · dsimp only
            rw [takenLength, counted, count, Int.toNat_natCast]
          · dsimp only
            rw [count, Int.toNat_natCast]
            exact (Nat.add_le_add_left fits s.sent).trans (by omega)
    · rw [counted]
      exact room

theorem runBounded {x : SendCall τ} (within : x.Within net) : Gains Bounded x.st (x.run net).st := by
  unfold SendCall.run sendSerialized
  dsimp only
  split
  · exact .none rfl
  · rename_i positive
    refine .one (sendPacketTrace _ _ _) ?_
    have loop := loopBounded _ _ _ _ (within (Int.not_le.mp positive)) rfl (Nat.zero_le _)
    exact loop.trans (Memory.sliceLength _ _ _).ge

theorem publishBounded {timer : Timer} {st : St τ} (within : ∀ x ∈ publishCalls timer st, x.Within net) :
    Gains Bounded st (handlePublish net timer st).st := by
  unfold publishCalls at within
  rw [handlePublishCases]
  split
  · exact .none rfl
  · rename_i accepted
    split
    · rename_i acknowledged
      rw [if_neg (not_or.mpr ⟨accepted,acknowledged⟩)] at within
      exact (runBounded (within _ (List.mem_singleton_self _))).trans (.one rfl trivial)
    · exact .none rfl

theorem answerBounded {answer : MsgType} {timer : Timer} {st : St τ}
    (within : ∀ x ∈ answerCalls answer timer st, x.Within net) : Gains Bounded st (answerAck net answer timer st).st := by
  unfold answerCalls at within
  rw [answerAckCases]
  split
  · exact .none rfl
  · rename_i accepted
    rw [if_neg accepted] at within
    exact runBounded (within _ (List.mem_singleton_self _))

theorem handleBounded {type : Nat} {timer : Timer} {st : St τ}
    (within : ∀ x ∈ handleCalls type timer st, x.Within net) : Gains Bounded st (handle net type timer st).st := by
  unfold handleCalls at within
  unfold handle
  split
  · unfold handleConnack
    dsimp only
    split <;> exact .none rfl
  · exact .none rfl
  · exact .none rfl
  · rename_i publish
    rw [publish] at within
    exact publishBounded within
  · rename_i pubrec
    rw [pubrec] at within
    exact answerBounded within
  · rename_i pubrel
    rw [pubrel] at within
    exact answerBounded within
  · exact .none rfl
  · rcases handleExtcmdState timer st with same | same
    · exact .none (by rw [same])
    · rw [same]
      unfold deliverextMessage
      split
      · exact .one rfl trivial
      · exact .none rfl
  · exact .none rfl

theorem keepaliveBounded {st : St τ} (within : ∀ x ∈ keepaliveCalls st, x.Within net) :
    Gains Bounded st (keepalive net st).2 := by
  unfold keepaliveCalls at within
  unfold keepalive
  split
  · exact .none rfl
  · rename_i alive
    dsimp only at within ⊢
    split
    · rename_i expired
      rw [if_pos ⟨alive,expired⟩] at within
      have pinged := runBounded (within _ (List.mem_singleton_self _))
      refine (Gains.none rfl).trans (pinged.trans ?_)
      split
      · exact .none rfl
      · unfold pingFailed
        dsimp only
        split
        · exact .one rfl trivial
        · exact .none rfl
    · exact .none rfl

theorem readBounded (net : Network τ) (timer : Timer) (st : St τ) : Gains Bounded st (readPacket net timer st).st := by
  rcases readPacketReceived net timer st with ⟨_,same⟩ | ⟨_,received,_⟩
  · exact .none same
  · exact .one received trivial

theorem cycleBounded {timer : Timer} {st : St τ} (within : ∀ x ∈ cycleCalls net timer st, x.Within net) :
    Gains Bounded st (cycle net timer st).st := by
  unfold cycleCalls at within
  have handled := (readBounded net timer st).trans
    (handleBounded fun x inside => within x (List.mem_append_left _ inside))
  rw [cycleSt]
  split
  · exact handled
  · rename_i stays
    refine handled.trans (keepaliveBounded fun x inside => within x (List.mem_append_right _ ?_))
    rw [if_neg stays]
    exact inside

theorem waitforLoopBounded (type : MsgType) (fuel : Nat) (o : Outcome τ)
    (within : ∀ x ∈ waitforLoopCalls net type fuel o, x.Within net) :
    Gains Bounded o.st (waitforLoop net type fuel o).st := by
  induction fuel generalizing o with
  | zero => exact .none rfl
  | succ fuel ih =>
    unfold waitforLoopCalls at within
    unfold waitforLoop
    dsimp only at within ⊢
    split
    · exact .none rfl
    · rename_i running
      rw [if_neg running] at within
      have round := cycleBounded fun x inside => within x (List.mem_append_left _ inside)
      refine (Gains.none rfl).trans ?_
      split
      · exact round
      · rename_i again
        refine round.trans (ih _ fun x inside => within x (List.mem_append_right _ ?_))
        rw [if_neg again]
        exact inside

theorem waitforBounded {type : MsgType} {timer : Timer} {st : St τ}
    (within : ∀ x ∈ waitforCalls net type timer st, x.Within net) : Gains Bounded st (waitfor net type timer st).st :=
  waitforLoopBounded type _ _ within

theorem awaitConnackSt (net : Network τ) (timer : Timer) (st : St τ) :
    (awaitConnack net timer st).2 = (waitfor net .connack timer st).st := by
  unfold awaitConnack
  dsimp only
  split <;> rfl

theorem awaitUnsubackSt (net : Network τ) (rc : Int) (timer : Timer) (st : St τ) :
    (awaitUnsuback net rc timer st).2 = (waitfor net .unsuback timer st).st := by
  unfold awaitUnsuback
  dsimp only
  split <;> rfl

theorem connectBounded {options : Option ConnectData} {block : Bool} {st : St τ}
    (within : ∀ x ∈ connectCalls net options block st, x.Within net) :
    Gains Bounded st (mqttConnect net options block st).2 := by
  unfold connectCalls at within
  unfold mqttConnect
  split
  · exact .none rfl
  · rename_i down
    dsimp only at within
    rw [if_neg down] at within
    have before : (connectCall options st).st.trace = st.trace := rfl
    have named : sendConnect net options st = (connectCall options st).run net := rfl
    rw [named]
    generalize connectCall options st = x at within before ⊢
    have sent : Gains Bounded st (x.run net).st := (Gains.none before).trans (runBounded (within x (List.mem_cons_self ..)))
    have waited (blocking : block = true) (fine : (x.run net).rc = success) :
        Gains Bounded st (awaitConnack net (x.run net).timer (x.run net).st).2 := by
      rw [awaitConnackSt]
      refine sent.trans (waitforBounded fun y inside => within y (List.mem_cons_of_mem _ ?_))
      rw [if_pos ⟨blocking,fine⟩]
      exact inside
    dsimp only
    split
    · rename_i blocking
      split
      · exact sent
      · rename_i fine
        have gained := waited blocking (not_not.mp fine)
        split
        · exact gained.trans (.none rfl)
        · exact gained
    · exact sent

theorem unsubscribeBounded {topicFilter : CString} {st : St τ}
    (within : ∀ x ∈ unsubscribeCalls net topicFilter st, x.Within net) :
    Gains Bounded st (mqttUnsubscribe net topicFilter st).2 := by
  unfold unsubscribeCalls at within
  unfold mqttUnsubscribe
  split
  · exact .none rfl
  · rename_i on
    dsimp only at within
    rw [if_neg on] at within
    have before : (unsubscribeCall topicFilter st).st.trace = st.trace := rfl
    have named : sendUnsubscribe net topicFilter st = (unsubscribeCall topicFilter st).run net := rfl
    rw [named]
    generalize unsubscribeCall topicFilter st = x at within before ⊢
    have sent : Gains Bounded st (x.run net).st := (Gains.none before).trans (runBounded (within x (List.mem_cons_self ..)))
    dsimp only
    split
    · exact sent
    · rename_i fine
      rw [awaitUnsubackSt]
      refine sent.trans (waitforBounded fun y inside => within y (List.mem_cons_of_mem _ ?_))
      rw [if_pos (not_not.mp fine)]
      exact inside

/- A call that sends one packet, and only when connected. -/
theorem oneBounded {x : SendCall τ} {st : St τ} {result : Int × St τ}
    (within : ∀ y ∈ (if st.client.isconnected = 0 then [] else [x]), y.Within net) (same : x.st.trace = st.trace)
    (off : st.client.isconnected = 0 → result.2.trace = st.trace)
    (on : st.client.isconnected ≠ 0 → result.2 = (x.run net).st) : Gains Bounded st result.2 := by
  by_cases down : st.client.isconnected = 0
  · exact .none (off down)
  · rw [if_neg down] at within
    rw [on down]
    exact (Gains.none same).trans (runBounded (within x (List.mem_singleton_self x)))

theorem packetIdTrace (acknowledged : Prop) [Decidable acknowledged] (id : UInt64) (st : St τ) :
    (if acknowledged then getNextPacketId st else (id, st)).2.trace = st.trace := by
  split <;> rfl

theorem publishOpBounded {topicName : CString} {message : Publication} {st : St τ}
    (within : ∀ x ∈ sendCalls net st (.publish topicName message), x.Within net) :
    Gains Bounded st (mqttPublish net topicName message st).2 := by
  have same : (publishCall topicName message st).st.trace = st.trace := packetIdTrace _ _ _
  refine oneBounded (x := publishCall topicName message st) within same (fun down => ?_) fun up => ?_
  · rw [mqttPublish, if_pos down]
  · rw [mqttPublish, if_neg up]
    rfl

theorem subscribeBounded {topicFilter : CString} {qos : Nat} {st : St τ}
    (within : ∀ x ∈ sendCalls net st (.subscribe topicFilter qos), x.Within net) :
    Gains Bounded st (mqttSubscribe net topicFilter qos st).2 := by
  refine oneBounded (x := subscribeCall topicFilter qos st) within rfl (fun down => ?_) fun up => ?_
  · rw [mqttSubscribe, if_pos down]
  · rw [mqttSubscribe, if_neg up]
    rfl

theorem extendedCmdBounded {cmd : UInt8} {payload : List UInt8} {qos retained : Nat} {st : St τ}
    (within : ∀ x ∈ sendCalls net st (.extendedCmd cmd payload qos retained), x.Within net) :
    Gains Bounded st (mqttExtendedCmd net cmd payload qos retained st).2 := by
  have same : (extendedCmdCall cmd payload qos retained st).st.trace = st.trace := packetIdTrace _ _ _
  refine oneBounded (x := extendedCmdCall cmd payload qos retained st) within same (fun down => ?_) fun up => ?_
  · have still : (st.setClock (commandTimer st).clock).client.isconnected = 0 := down
    rw [mqttExtendedCmd, if_pos still]
    rfl
  · have still : (st.setClock (commandTimer st).clock).client.isconnected ≠ 0 := up
    rw [mqttExtendedCmd, if_neg still]
    rfl

theorem disconnectBounded {st : St τ} (within : (disconnectCall st).Within net) :
    Gains Bounded st (mqttDisconnect net st).2 := by
  have sent : Gains Bounded st ((disconnectCall st).run net).st := (Gains.none rfl).trans (runBounded within)
  exact sent.trans (.one rfl trivial)

theorem applyBounded {st : St τ} {op : Op} (within : ∀ x ∈ sendCalls net st op, x.Within net) :
    Gains Bounded st (apply net st op) := by
  cases op with
  | clientInit => exact .one rfl trivial
  | connect => exact connectBounded within
  | publish => exact publishOpBounded within
  | subscribe => exact subscribeBounded within
  | unsubscribe => exact unsubscribeBounded within
  | extendedCmd => exact extendedCmdBounded within
  | disconnect => exact disconnectBounded (within _ (List.mem_singleton_self _))
  | cycle => exact cycleBounded within

/-! Session gating -/

/- A whole packet of the type goes to the transport: the one that is meant, or one that
lies behind it among the bytes the transport takes. -/
def Hands (t : MsgType) : Event → Prop
  | .sendPacket packet transmitted _ => packetKind packet = some t.code ∨
    ∃ between p behind, transmitted = packet ++ stream between ++ WirePacket.bytes p ++ behind ∧
      MqttHeader.type p.header = t.code
  | _ => False

structure Gating (st : St τ) : Prop where
  connected : st.client.isconnected ≠ 0 → Granted st.trace
  gated : ∀ before e, before ++ [e] <+: st.trace →
    (∃ t ∈ [MsgType.publish,.subscribe,.unsubscribe,.extcmd], Hands t e) → Granted before

theorem boundedHands {t : MsgType} {e : Event} (bounded : Bounded e) (hands : Hands t e) : SendOf t e := by
  cases e with
  | sendPacket packet transmitted rc =>
    rcases hands with meant | ⟨between,p,behind,rfl,_⟩
    · exact meant
    · have long : (packet ++ stream between ++ p.bytes ++ behind).length ≤ packet.length := bounded
      simp only [List.length_append, WirePacket.bytes, List.length_cons] at long
      omega
  | received | message | extMessage | threadStart | clientInit | disconnected => exact False.elim hands

/- The sends of every call find a transport that takes nothing from behind their packets. -/
def WithinPackets (net : Network τ) (st : St τ) (op : Op) : Prop := ∀ x ∈ sendCalls net st op, x.Within net

/-- In every run of the calls in which no write takes more than its packet still has, the
client is connected, and hands over a packet of a session, only after a granting CONNACK
of that session. -/
theorem sessionGated (net : Network τ) (wire : Wire τ) (times : List UInt32) (stack : UInt64) (ops : List Op)
    (within : Run.Along (apply net) (WithinPackets net) (initial wire times stack) ops) :
    Gating (Run.run (apply net) (initial wire times stack) ops) := by
  have meant := sessionGuarded net wire times stack ops
  have kept (st : St τ) (op : Op) (before : ∀ e ∈ st.trace, Bounded e) (fine : WithinPackets net st op) :
      ∀ e ∈ (apply net st op).trace, Bounded e := by
    obtain ⟨new,same,ok⟩ := applyBounded fine
    intro e inside
    rw [same] at inside
    exact (List.mem_append.mp inside).elim (before e) (ok e)
  have start : ∀ e ∈ (initial wire times stack).trace, Bounded e := by
    intro e inside
    cases inside
  have bounded := Run.alongInvariant kept start within
  refine ⟨meant.connected,fun before e inside ⟨t,gated,hands⟩ => meant.gated before e inside ⟨t,gated,?_⟩⟩
  exact boundedHands (bounded e (inside.subset (by simp))) hands

theorem finishedWithin (byte : Nat → UInt8) (length fuel : Nat) (s : SendLoop τ) (finished : length ≤ s.sent) :
    TakesWithin net byte length fuel s := by
  cases fuel with
  | zero => trivial
  | succ fuel => exact fun unfinished => absurd unfinished (Nat.not_lt.mpr finished)

/- A transport that takes every byte takes a packet in one write. -/
theorem writesAllWithin (writes : WritesAll net) (x : SendCall τ) : x.Within net := by
  intro _ unfinished _
  dsimp only
  rw [writes.write]
  refine ⟨(Memory.sliceLength _ _ _).le,fun _ => finishedWithin _ _ _ _ ?_⟩
  dsimp only
  rw [Memory.sliceLength, Int.toNat_natCast]
  omega

def letter : CString := ⟨[0x61],List.forall_mem_singleton.mpr (by decide)⟩

/- A session on the ideal transport: CONNECT, its CONNACK, a PUBLISH. -/
def sessionOps : List Op :=
  [.clientInit 30000 (.ofList []) 64 (.ofList []) 64,.connect none false,.cycle ⟨20,⟨0,0⟩⟩,
    .publish letter ⟨0,0,0,[0x62]⟩]

theorem sessionOpsGated : Gating (Run.run (apply pipe) (initial ⟨List.replicate 9 ⟨0,0⟩,[0x20,2,0,0]⟩ [] 0) sessionOps) :=
  sessionGated pipe ⟨List.replicate 9 ⟨0,0⟩,[0x20,2,0,0]⟩ [] 0 sessionOps
    (Run.alongEvery (fun _ _ _ x _ => writesAllWithin pipeWrites x) _)

/- A PUBLISH of a session that has ended lies behind the CONNECT of the next, of which the
transport takes first thirteen bytes and then as many as the whole packet has. -/
def stalePayload : List UInt8 := List.replicate 9 0x78 ++ [0x30,3,0,1,0x61]
def staleOps : List Op :=
  [.clientInit 30000 (.ofList []) 64 (.ofList []) 64,.connect none false,.cycle ⟨20,⟨0,0⟩⟩,
    .publish letter ⟨0,0,0,stalePayload⟩,.disconnect,.connect none false]
def staleWire : Wire Script := ⟨List.replicate 40 ⟨0,0⟩,
  ⟨[0x20,2,0,0],List.replicate 4 .full,[.accept 64,.accept 64,.accept 64,.accept 13,.accept 14]⟩⟩

def connectBytes : List UInt8 := [0x10,12,0,4,0x4d,0x51,0x54,0x54,4,2,0,60,0,0]
def staleBefore : List Event :=
  [.clientInit,.sendPacket connectBytes connectBytes success,.received [0x20,2,0,0],
    .sendPacket (0x30 :: 17 :: 0 :: 1 :: 0x61 :: stalePayload) (0x30 :: 17 :: 0 :: 1 :: 0x61 :: stalePayload) success,
    .sendPacket [0xe0,0] [0xe0,0] success,.disconnected]
def staleEvent : Event :=
  .sendPacket connectBytes (connectBytes ++ ([0x30,3,0,1,0x61] ++ List.replicate 8 0)) failure

theorem staleTrace : (Run.run (apply scripted) (initial staleWire [] 0) staleOps).trace = staleBefore ++ [staleEvent] := by
  decide +kernel

theorem stalePublishHanded : ¬ Gating (Run.run (apply scripted) (initial staleWire [] 0) staleOps) := by
  intro gating
  have whole : staleBefore ++ [staleEvent] <+: (Run.run (apply scripted) (initial staleWire [] 0) staleOps).trace :=
    ⟨[],(List.append_nil _).trans staleTrace.symm⟩
  have publish : Hands .publish staleEvent :=
    Or.inr ⟨[],⟨0x30,[3],[0,1,0x61],by decide,by decide,by decide⟩,List.replicate 8 0,rfl,rfl⟩
  exact gating.gated staleBefore staleEvent whole ⟨.publish,by simp,publish⟩

end YunbaIot.SendCalls
