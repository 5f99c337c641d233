import YunbaIot.MqttEffects
import YunbaIot.MqttRead
import YunbaIot.Run

/-! Sessions over every run of the calls of an application: connected means that a CONNACK
with return code 0 was processed since the last MQTTClientInit or MQTTDisconnect, and
sendPacket is given application packets after one. What the transport takes is the matter
of SendCalls. -/
namespace YunbaIot.Session
open FreeRtosTimer MqttTransport MqttPacket MqttDeserialize MqttSerialize MqttClient MqttRead MqttEffects

variable {τ : Type} {net : Network τ}

inductive Op where
  | clientInit (commandTimeoutMs : UInt32) (sendbuf : Memory) (sendbufSize : Nat) (readbuf : Memory)
      (readbufSize : Nat)
  | connect (options : Option ConnectData) (block : Bool)
  | publish (topicName : CString) (message : Publication)
  | subscribe (topicFilter : CString) (qos : Nat)
  | unsubscribe (topicFilter : CString)
  | extendedCmd (cmd : UInt8) (payload : List UInt8) (qos retained : Nat)
  | disconnect
  | cycle (timer : Timer)

def apply (net : Network τ) (st : St τ) : Op → St τ
  | .clientInit ms sendbuf sendbufSize readbuf readbufSize =>
    mqttClientInit ms sendbuf sendbufSize readbuf readbufSize st
  | .connect options block => (mqttConnect net options block st).2
  | .publish topicName message => (mqttPublish net topicName message st).2
  | .subscribe topicFilter qos => (mqttSubscribe net topicFilter qos st).2
  | .unsubscribe topicFilter => (mqttUnsubscribe net topicFilter st).2
  | .extendedCmd cmd payload qos retained => (mqttExtendedCmd net cmd payload qos retained st).2
  | .disconnect => (mqttDisconnect net st).2
  | .cycle timer => (MqttClient.cycle net timer st).st

/- The client before the first call, on any transport, clock and stack. -/
def initial (wire : Wire τ) (times : List UInt32) (stack : UInt64) : St τ :=
  { St.static wire with times := times, stack := stack }

/- A CONNACK packet with return code 0. -/
def Grants (packet : List UInt8) : Prop :=
  ∃ header flags more, packet = header :: (mqttPacketEncode (2 + more.length) ++ flags :: 0 :: more) ∧
    MqttHeader.type header = MsgType.connack.code

def grant (granted : Prop) : Event → Prop
  | .received packet => granted ∨ Grants packet
  | .clientInit | .disconnected => False
  | _ => granted
def Granted (trace : List Event) : Prop := trace.foldl grant False

-- packets that sendPacket is to be given in a session only
def Gated (e : Event) : Prop := ∃ t ∈ [MsgType.publish,.subscribe,.unsubscribe,.extcmd], SendOf t e

structure Guarded (st : St τ) : Prop where
  connected : st.client.isconnected ≠ 0 → Granted st.trace
  gated : ∀ before e, before ++ [e] <+: st.trace → Gated e → Granted before

theorem grantedSnoc (before : List Event) (e : Event) : Granted (before ++ [e]) ↔ grant (Granted before) e := by
  unfold Granted
  rw [List.foldl_append]
  exact Iff.rfl

-- events that end no session
def Steady (e : Event) : Prop := e ≠ .clientInit ∧ e ≠ .disconnected

theorem steadyGrant {e : Event} (steady : Steady e) {granted : Prop} (h : granted) : grant granted e := by
  cases e with
  | received => exact Or.inl h
  | clientInit => exact absurd rfl steady.1
  | disconnected => exact absurd rfl steady.2
  | sendPacket | message | extMessage | threadStart => exact h

theorem steadyGranted {before : List Event} (new : List Event) (steady : ∀ e ∈ new, Steady e)
    (granted : Granted before) : Granted (before ++ new) := by
  unfold Granted at *
  rw [List.foldl_append]
  generalize before.foldl grant False = now at granted ⊢
  induction new generalizing now with
  | nil => exact granted
  | cons e later ih =>
    exact ih (fun e inside => steady e (List.mem_cons_of_mem _ inside)) _
      (steadyGrant (steady e (List.mem_cons_self ..)) granted)

theorem sendSteady {t : MsgType} {e : Event} (send : SendOf t e) : Steady e := by
  cases e with
  | sendPacket => exact ⟨by simp,by simp⟩
  | received | message | extMessage | threadStart | clientInit | disconnected => exact False.elim send

theorem sendKind {s t : MsgType} {e : Event} (a : SendOf s e) (b : SendOf t e) : s = t := by
  cases e with
  | sendPacket packet _ _ =>
    have same : some s.code = some t.code := a.symm.trans b
    exact MsgType.codeInjective (Option.some.inj same)
  | received | message | extMessage | threadStart | clientInit | disconnected => exact False.elim a

/- Packets outside the gate, and any packet once there is a session. -/
def Allowed (granted : Prop) (e : Event) : Prop := Steady e ∧ (Gated e → granted)

theorem sendAllowed {t : MsgType} (free : t ∉ [MsgType.publish,.subscribe,.unsubscribe,.extcmd]) (granted : Prop)
    {e : Event} (send : SendOf t e) : Allowed granted e := by
  refine ⟨sendSteady send,fun ⟨s,gated,same⟩ => ?_⟩
  rw [sendKind same send] at gated
  exact absurd gated free

theorem prefixSplit {before front new : List Event} {e : Event} (inside : before ++ [e] <+: front ++ new) :
    before ++ [e] <+: front ∨ ∃ mid, before = front ++ mid ∧ mid ++ [e] <+: new := by
  by_cases short : (before ++ [e]).length ≤ front.length
  · exact Or.inl (List.prefix_of_prefix_length_le inside (List.prefix_append front new) short)
  · have room : front.length ≤ before.length := by
      simp only [List.length_append, List.length_singleton] at short
      omega
    obtain ⟨mid,rfl⟩ := List.prefix_of_prefix_length_le (List.prefix_append front new)
      ((List.prefix_append before [e]).trans inside) room
    rw [List.append_assoc, List.prefix_append_right_inj] at inside
    exact Or.inr ⟨mid,rfl,inside⟩

/- What a call may do that leaves the connection flag to be justified. -/
theorem guardedGains {a b : St τ} (guarded : Guarded a) (h : Gains (Allowed (Granted a.trace)) a b)
    (connected : b.client.isconnected ≠ 0 → a.client.isconnected ≠ 0 ∨ Granted b.trace) : Guarded b := by
  obtain ⟨new,same,allowed⟩ := h
  refine ⟨fun on => ?_,fun before e inside gate => ?_⟩
  · rcases connected on with already | granted
    · rw [same]
      exact steadyGranted new (fun e inside => (allowed e inside).1) (guarded.connected already)
    · exact granted
  · rw [same] at inside
    rcases prefixSplit inside with old | ⟨mid,rfl,later⟩
    · exact guarded.gated before e old gate
    · have member : e ∈ new := later.subset (by simp)
      apply steadyGranted mid
      · intro e inside
        exact (allowed e (later.subset (by simp [inside]))).1
      · exact (allowed e member).2 gate

theorem guardedSame {a b : St τ} (guarded : Guarded a) (trace : b.trace = a.trace)
    (connected : b.client.isconnected = a.client.isconnected) : Guarded b :=
  guardedGains guarded (.none trace) (fun on => Or.inl (by rw [← connected]; exact on))

theorem sendSerializedGuarded {s : Serialized} {t : MsgType} {st : St τ} (opens : Opens s t) (timer : Timer)
    (guarded : Guarded st) (may : t ∈ [MsgType.publish,.subscribe,.unsubscribe,.extcmd] → Granted st.trace) :
    Guarded (sendSerialized net s timer st).st := by
  refine guardedGains guarded ((sendSerializedGains opens timer st).mono fun e send => ?_) (fun on => Or.inl ?_)
  · by_cases gated : t ∈ [MsgType.publish,.subscribe,.unsubscribe,.extcmd]
    · exact ⟨sendSteady send,fun _ => may gated⟩
    · exact sendAllowed gated _ send
  · rw [(sendSerializedStill net _ timer st).connected] at on
    exact on

/-! cycle and the wait for a CONNACK -/

/- What the deserializer takes for a granting CONNACK is one, length field included. -/
theorem admittedGrants {st : St τ} {length : Nat} (bound : length < 128 ^ 4)
    (there : Memory.Holds st.client.readbuf.byte 1 (mqttPacketEncode length)) (admitted : Admitted st) :
    Grants (Memory.slice st.client.readbuf.byte 0 (1 + (mqttPacketEncode length).length + length)) := by
  obtain ⟨_,code⟩ := admitted
  generalize st.client.readbuf.byte = byte at there code ⊢
  have remaining := remainingLengthHolds (c := ⟨1,[0]⟩) bound there
  simp only [mqttDeserializeConnack, readCharFirst, remaining] at code
  split at code
  · cases code
  · split at code
    · cases code
    · rename_i type long
      obtain ⟨more,rfl⟩ := Nat.exists_eq_add_of_le (Nat.le_of_not_lt long)
      have zero : byte (1 + (mqttPacketEncode (2 + more)).length + 1) = 0 := Option.some.inj code
      refine ⟨byte 0,byte (1 + (mqttPacketEncode (2 + more)).length),
        Memory.slice byte (1 + (mqttPacketEncode (2 + more)).length + 2) more,?_,not_not.mp type⟩
      have field := Memory.sliceOfHolds there
      rw [Memory.sliceLength, Memory.sliceAppend, Memory.sliceAppend byte 0 1, Memory.sliceAppend byte _ 2 more,
        Nat.zero_add, Nat.zero_add, field]
      simp [Memory.slice, zero]

theorem readGuarded {st : St τ} (timer : Timer) (guarded : Guarded st) : Guarded (readPacket net timer st).st := by
  have connected : (readPacket net timer st).st.client.isconnected = st.client.isconnected := by
    rw [readPacketClient]
  rcases readPacketReceived net timer st with ⟨_,same⟩ | ⟨_,received,_⟩
  · exact guardedSame guarded same connected
  · refine guardedGains guarded (.one received ⟨⟨by simp,by simp⟩,fun ⟨_,_,send⟩ => False.elim send⟩) (fun on => Or.inl ?_)
    rw [← connected]
    exact on

theorem readGranted {st : St τ} {timer : Timer} (arrived : (readPacket net timer st).rc ≠ failure)
    (admitted : Admitted (readPacket net timer st).st) : Granted (readPacket net timer st).st.trace := by
  rcases readPacketReceived net timer st with ⟨failed,_⟩ | ⟨_,received,there⟩
  · exact absurd failed arrived
  · rw [received, grantedSnoc]
    exact Or.inr (admittedGrants (announcedBound net timer st) there admitted)

theorem cycleAllowed (granted : Prop) {e : Event} (event : CycleEvent e) : Allowed granted e := by
  rcases event with (⟨m,rfl⟩ | ⟨_,_,_,rfl⟩ | ⟨t,known,send⟩) | rfl | send
  · exact ⟨⟨by simp,by simp⟩,fun ⟨_,_,send⟩ => False.elim send⟩
  · exact ⟨⟨by simp,by simp⟩,fun ⟨_,_,send⟩ => False.elim send⟩
  · have apart : ∀ t ∈ [MsgType.puback,.pubrec,.pubrel,.pubcomp],
        t ∉ [MsgType.publish,.subscribe,.unsubscribe,.extcmd] := by decide
    exact sendAllowed (apart t known) granted send
  · exact ⟨⟨by simp,by simp⟩,fun ⟨_,_,send⟩ => False.elim send⟩
  · exact sendAllowed (by decide) granted send

theorem cycleConnected (timer : Timer) (st : St τ) :
    (cycle net timer st).st.client.isconnected = (readPacket net timer st).st.client.isconnected ∨
      (readPacket net timer st).rc ≠ failure ∧ Admitted (readPacket net timer st).st := by
  have kept : ∀ st' : St τ, (if (handle net (packetType (readPacket net timer st).rc) (readPacket net timer st).timer
      (readPacket net timer st).st).exit then st' else (keepalive net st').2).client.isconnected =
        st'.client.isconnected := by
    intro st'
    split
    · rfl
    · exact keepaliveConnected st'
  rw [cycleSt, kept]
  rcases handleConnected net (packetType (readPacket net timer st).rc) (readPacket net timer st).timer
    (readPacket net timer st).st with same | ⟨connack,admitted⟩
  · exact Or.inl same
  · refine Or.inr ⟨fun failed => ?_,admitted⟩
    rw [failed] at connack
    cases connack

theorem cycleGuarded (net : Network τ) {st : St τ} (timer : Timer) (guarded : Guarded st) : Guarded (cycle net timer st).st := by
  have gains := cycleGains net timer st
  refine guardedGains (readGuarded timer guarded) (gains.mono fun e event => cycleAllowed _ event) (fun on => ?_)
  rcases cycleConnected timer st with same | ⟨arrived,admitted⟩
  · rw [same] at on
    exact Or.inl on
  · obtain ⟨new,same,events⟩ := gains
    rw [same]
    exact Or.inr (steadyGranted new (fun e inside => (cycleAllowed False (events e inside)).1)
      (readGranted arrived admitted))

/- The wait ends with a call of cycle that returns the awaited type, or it fails. -/
theorem waitforLoopGuarded (type : MsgType) (fuel : Nat) (o : Outcome τ) (guarded : Guarded o.st)
    (other : o.rc ≠ type.code) :
    Guarded (waitforLoop net type fuel o).st ∧
      ((waitforLoop net type fuel o).rc = type.code →
        ∃ timer st, waitforLoop net type fuel o = cycle net timer st) := by
  induction fuel generalizing o with
  | zero => exact ⟨guarded,fun same => absurd same other⟩
  | succ fuel ih =>
    have checked : Guarded (o.st.setClock (timerIsExpired o.timer o.st.wire.clock).clock) :=
      guardedSame guarded rfl rfl
    unfold waitforLoop
    dsimp only
    split
    · exact ⟨checked,fun same => absurd same other⟩
    · have cycled := cycleGuarded net (timerIsExpired o.timer o.st.wire.clock).timer checked
      split
      · exact ⟨cycled,fun _ => ⟨_,_,rfl⟩⟩
      · rename_i again
        exact ih _ cycled again

theorem waitforGuarded (net : Network τ) (type : MsgType) (timer : Timer) {st : St τ} (guarded : Guarded st) :
    Guarded (waitfor net type timer st).st ∧
      ((waitfor net type timer st).rc = type.code → ∃ timer' st', waitfor net type timer st = cycle net timer' st') :=
  waitforLoopGuarded type _ ⟨failure,timer,st⟩ guarded (by
    have negative : failure < 0 := by decide
    simp only
    omega)

theorem cycleAwaited {timer : Timer} {st : St τ} (awaited : (cycle net timer st).rc = MsgType.connack.code) :
    (readPacket net timer st).rc ≠ failure := by
  intro failed
  unfold cycle at awaited
  dsimp only at awaited
  rw [failed] at awaited
  cases awaited

theorem awaitConnackGuarded (net : Network τ) (timer : Timer) {st : St τ} (guarded : Guarded st) :
    Guarded (awaitConnack net timer st).2 ∧
      ((awaitConnack net timer st).1 = success → Granted (awaitConnack net timer st).2.trace) := by
  obtain ⟨kept,last⟩ := waitforGuarded net .connack timer guarded
  unfold awaitConnack
  dsimp only
  split
  · rename_i awaited
    refine ⟨kept,fun zero => ?_⟩
    have admitted := connackAdmitted zero
    obtain ⟨timer',st',same⟩ := last awaited
    rw [same] at awaited admitted ⊢
    have read := cycleKeeps (anyWrites net) timer' st'
    obtain ⟨new,trace,events⟩ := cycleGains net timer' st'
    rw [trace]
    apply steadyGranted new (fun e inside => (cycleAllowed False (events e inside)).1)
    apply readGranted (cycleAwaited awaited)
    unfold Admitted at admitted ⊢
    rw [read.readbuf, read.readbufSize] at admitted
    exact admitted
  · exact ⟨kept,fun zero => absurd zero failureNotSuccess⟩

/-! The calls of an application -/

/- Every sending call of a session: a gated packet goes out under the flag. -/
theorem gatedSend {s : Serialized} {t : MsgType} {a b : St τ} (opens : Opens s t) (timer : Timer) (guarded : Guarded a)
    (on : a.client.isconnected ≠ 0) (flag : b.client.isconnected = a.client.isconnected) (trace : b.trace = a.trace) :
    Guarded (sendSerialized net s timer b).st :=
  sendSerializedGuarded opens timer (guardedSame guarded trace flag) fun _ => by
    rw [trace]
    exact guarded.connected on

theorem sendConnectGuarded (net : Network τ) (options : Option ConnectData) {st : St τ} (guarded : Guarded st) :
    Guarded (sendConnect net options st).st :=
  sendSerializedGuarded (connectOpens _ _) _ (guardedSame guarded rfl rfl) fun gated => absurd gated (by decide)

/- The wait of a blocking call, on which the flag is set. -/
theorem connectGuarded (options : Option ConnectData) (block : Bool) {st : St τ} (guarded : Guarded st) :
    Guarded (mqttConnect net options block st).2 := by
  have sent := sendConnectGuarded net options guarded
  obtain ⟨waited,granted⟩ := awaitConnackGuarded net (sendConnect net options st).timer sent
  unfold mqttConnect
  split
  · exact guarded
  · dsimp only
    split
    · split
      · exact sent
      · split
        · rename_i zero
          exact ⟨fun _ => granted zero,waited.gated⟩
        · exact waited
    · exact sent

theorem publishGuarded (topicName : CString) (message : Publication) {st : St τ} (guarded : Guarded st) :
    Guarded (mqttPublish net topicName message st).2 := by
  unfold mqttPublish
  split
  · exact guarded
  · rename_i on
    dsimp only
    split
    · exact gatedSend (publishOpens _ _ _ _ _ _ _) _ guarded on rfl rfl
    · exact gatedSend (publishOpens _ _ _ _ _ _ _) _ guarded on rfl rfl

theorem subscribeGuarded (topicFilter : CString) (qos : Nat) {st : St τ} (guarded : Guarded st) :
    Guarded (mqttSubscribe net topicFilter qos st).2 := by
  unfold mqttSubscribe
  split
  · exact guarded
  · rename_i on
    exact gatedSend (subscribeOpens _ _ _ _) _ guarded on rfl rfl

theorem unsubscribeGuarded (topicFilter : CString) {st : St τ} (guarded : Guarded st) :
    Guarded (mqttUnsubscribe net topicFilter st).2 := by
  unfold mqttUnsubscribe
  split
  · exact guarded
  · rename_i on
    have sent : Guarded (sendUnsubscribe net topicFilter st).st :=
      gatedSend (unsubscribeOpens _ _ _ _) _ guarded on rfl rfl
    dsimp only
    split
    · exact sent
    · have waited := (waitforGuarded net .unsuback (sendUnsubscribe net topicFilter st).timer sent).1
      unfold awaitUnsuback
      dsimp only
      split <;> exact waited

theorem extendedCmdGuarded (cmd : UInt8) (payload : List UInt8) (qos retained : Nat) {st : St τ}
    (guarded : Guarded st) : Guarded (mqttExtendedCmd net cmd payload qos retained st).2 := by
  unfold mqttExtendedCmd
  dsimp only
  split
  · exact guardedSame guarded rfl rfl
  · rename_i on
    split
    · exact gatedSend (extendedcmdOpens _ _ _ _ _ _ _) _ guarded on rfl rfl
    · exact gatedSend (extendedcmdOpens _ _ _ _ _ _ _) _ guarded on rfl rfl

/- The two calls that end a session: the flag is down, so nothing is owed. -/
theorem endedGuarded {a b : St τ} {e : Event} (guarded : Guarded a) (ended : b.trace = a.trace ++ [e])
    (free : ¬ Gated e) (down : b.client.isconnected = 0) : Guarded b := by
  refine ⟨fun on => absurd down on,fun before other inside gate => ?_⟩
  rw [ended] at inside
  rcases prefixSplit inside with old | ⟨mid,rfl,last⟩
  · exact guarded.gated before other old gate
  · have same : other = e := List.mem_singleton.mp (last.subset (by simp))
    rw [same] at gate
    exact absurd gate free

theorem clientInitGuarded (ms : UInt32) (sendbuf : Memory) (sendbufSize : Nat) (readbuf : Memory)
    (readbufSize : Nat) {st : St τ} (guarded : Guarded st) :
    Guarded (mqttClientInit ms sendbuf sendbufSize readbuf readbufSize st) :=
  endedGuarded guarded rfl (fun ⟨_,_,send⟩ => False.elim send) rfl

theorem disconnectGuarded {st : St τ} (guarded : Guarded st) : Guarded (mqttDisconnect net st).2 := by
  have sent : Guarded (sendSerialized net (mqttSerializeDisconnect st.client.bufSize) (commandTimer st).timer
      (st.setClock (commandTimer st).clock)).st :=
    sendSerializedGuarded (zeroOpens _ .disconnect) _ (guardedSame guarded rfl rfl) fun gated => absurd gated (by decide)
  exact endedGuarded sent rfl (fun ⟨_,_,send⟩ => False.elim send) rfl

theorem applyGuarded (st : St τ) (op : Op) (guarded : Guarded st) : Guarded (apply net st op) := by
  cases op with
  | clientInit ms sendbuf sendbufSize readbuf readbufSize => exact clientInitGuarded _ _ _ _ _ guarded
  | connect options block => exact connectGuarded options block guarded
  | publish topicName message => exact publishGuarded topicName message guarded
  | subscribe topicFilter qos => exact subscribeGuarded topicFilter qos guarded
  | unsubscribe topicFilter => exact unsubscribeGuarded topicFilter guarded
  | extendedCmd cmd payload qos retained => exact extendedCmdGuarded cmd payload qos retained guarded
  | disconnect => exact disconnectGuarded guarded
  | cycle timer => exact cycleGuarded net timer guarded

/-- In every run of the calls the client is connected, and gives sendPacket a packet of a
session, only after a granting CONNACK of that session. -/
theorem sessionGuarded (net : Network τ) (wire : Wire τ) (times : List UInt32) (stack : UInt64) (ops : List Op) :
    Guarded (Run.run (apply net) (initial wire times stack) ops) := by
  have start : Guarded (initial wire times stack) := by
    refine ⟨fun on => absurd rfl on,fun before e inside => ?_⟩
    have none := inside.length_le
    simp [initial, St.static] at none
  exact Run.runInvariant applyGuarded ops start

end YunbaIot.Session
