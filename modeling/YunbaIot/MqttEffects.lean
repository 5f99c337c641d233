import YunbaIot.MqttClient

/-! What the parts of the client leave alone and what they add to the trace: sending,
keepalive and the cases of cycle. `kept` is what every write to the transport keeps, and
every look at the clock. -/
namespace YunbaIot.MqttEffects
open FreeRtosTimer MqttTransport MqttPacket MqttDeserialize MqttSerialize MqttClient

variable {τ : Type} {net : Network τ} {kept : Wire τ → Prop}

structure WriteKeeps (net : Network τ) (kept : Wire τ → Prop) : Prop where
  write : ∀ bs ms w, kept w → kept (net.mqttwrite bs ms w).2
  look : ∀ w clock, clock.length ≤ w.clock.length → kept w → kept { w with clock := clock }

theorem linkWrites (held : τ → Prop) (write : ∀ bs ms w, held w.link → held (net.mqttwrite bs ms w).2.link) :
    WriteKeeps net fun w => held w.link := ⟨write,fun _ _ _ => id⟩
theorem anyWrites (net : Network τ) : WriteKeeps net fun _ => True :=
  ⟨fun _ _ _ _ => trivial,fun _ _ _ _ => trivial⟩

/- What was read last stays, and so does what every write keeps. -/
structure Keeps (kept : Wire τ → Prop) (a b : St τ) : Prop where
  wire : kept a.wire → kept b.wire
  readbuf : b.client.readbuf = a.client.readbuf
  readbufSize : b.client.readbufSize = a.client.readbufSize
  bufSize : b.client.bufSize = a.client.bufSize

/- Neither the flag of the session nor the failure counter moves. -/
structure Still (a b : St τ) : Prop where
  connected : b.client.isconnected = a.client.isconnected
  count : b.client.failConnCount = a.client.failConnCount

def Gains (allowed : Event → Prop) (a b : St τ) : Prop :=
  ∃ new, b.trace = a.trace ++ new ∧ ∀ e ∈ new, allowed e

theorem Keeps.refl (st : St τ) : Keeps kept st st := ⟨id,rfl,rfl,rfl⟩
theorem Keeps.trans {a b c : St τ} (h : Keeps kept a b) (k : Keeps kept b c) : Keeps kept a c :=
  ⟨fun ok => k.wire (h.wire ok),k.readbuf.trans h.readbuf,k.readbufSize.trans h.readbufSize,k.bufSize.trans h.bufSize⟩

theorem Still.refl (st : St τ) : Still st st := ⟨rfl,rfl⟩
theorem Still.trans {a b c : St τ} (h : Still a b) (k : Still b c) : Still a c :=
  ⟨k.connected.trans h.connected,k.count.trans h.count⟩

theorem Gains.none {allowed : Event → Prop} {a b : St τ} (same : b.trace = a.trace) : Gains allowed a b :=
  ⟨[],by simp [same],by simp⟩
theorem Gains.one {allowed : Event → Prop} {a b : St τ} {e : Event} (added : b.trace = a.trace ++ [e])
    (ok : allowed e) : Gains allowed a b :=
  ⟨[e],added,by simpa using ok⟩
theorem Gains.trans {allowed : Event → Prop} {a b c : St τ} (h : Gains allowed a b) (k : Gains allowed b c) :
    Gains allowed a c := by
  obtain ⟨first,same,ok⟩ := h
  obtain ⟨second,same',ok'⟩ := k
  refine ⟨first ++ second,by rw [same', same, List.append_assoc],fun e inside => ?_⟩
  rcases List.mem_append.mp inside with before | behind
  · exact ok e before
  · exact ok' e behind
theorem Gains.mono {allowed more : Event → Prop} {a b : St τ} (h : Gains allowed a b)
    (wider : ∀ e, allowed e → more e) : Gains more a b := by
  obtain ⟨new,same,ok⟩ := h
  exact ⟨new,same,fun e inside => wider e (ok e inside)⟩

/- An observation that no gained event shows up in. -/
theorem observeGains {β : Type} {allowed : Event → Prop} {a b : St τ} (f : Event → Option β)
    (h : Gains allowed a b) (silent : ∀ e, allowed e → f e = none) :
    b.trace.filterMap f = a.trace.filterMap f := by
  obtain ⟨new,same,ok⟩ := h
  have none : new.filterMap f = [] := List.filterMap_eq_nil_iff.mpr fun e inside => silent e (ok e inside)
  rw [same, List.filterMap_append, none, List.append_nil]

def packetKind (packet : List UInt8) : Option Nat := packet.head?.map MqttHeader.type

/- A serializer that reports a length has written that many bytes, the first of them a
header of this type. -/
def Opens (s : Serialized) (t : MsgType) : Prop :=
  s.rc ≤ 0 ∨ s.rc = s.written.length ∧ packetKind s.written = some t.code

theorem tooShortOpens (t : MsgType) : Opens tooShort t := Or.inl (by decide)
theorem doneOpens (t : MsgType) (dup qos retain : Nat) (rest : List UInt8) :
    Opens (done (MqttHeader.byte t.code dup qos retain :: rest)) t := by
  refine Or.inr ⟨rfl,?_⟩
  have code : t.code % 16 = t.code := by cases t <;> rfl
  simp [done, packetKind, code]

theorem zeroOpens (buflen : Int) (t : MsgType) : Opens (mqttSerializeZero buflen t.code) t := by
  unfold mqttSerializeZero
  split
  · exact tooShortOpens t
  · exact doneOpens t 0 0 0 _

theorem ackOpens (buflen : Int) (t : MsgType) (dup : Nat) (id : UInt64) :
    Opens (mqttSerializeAck buflen t.code dup id) t := by
  unfold mqttSerializeAck
  split
  · exact tooShortOpens t
  · exact doneOpens t dup _ 0 _

theorem connectOpens (buflen : Int) (options : ConnectData) : Opens (mqttSerializeConnect buflen options) .connect := by
  unfold mqttSerializeConnect
  dsimp only
  split
  · exact tooShortOpens .connect
  · exact doneOpens .connect 0 0 0 _

theorem publishOpens (buflen : Int) (dup : Nat) (qos : Int) (retained : Nat) (id : UInt64) (topic : MqttString) (payload : List UInt8) :
    Opens (mqttSerializePublish buflen dup qos retained id topic payload) .publish := by
  unfold mqttSerializePublish
  dsimp only
  split
  · exact tooShortOpens .publish
  · exact doneOpens .publish dup (qosBits qos) retained _

theorem subscribeOpens (buflen : Int) (dup : Nat) (id : UInt64) (topics : List TopicRequest) :
    Opens (mqttSerializeSubscribe buflen dup id topics) .subscribe := by
  unfold mqttSerializeSubscribe
  dsimp only
  split
  · exact tooShortOpens .subscribe
  · exact doneOpens .subscribe dup 1 0 _

theorem unsubscribeOpens (buflen : Int) (dup : Nat) (id : UInt64) (filters : List MqttString) :
    Opens (mqttSerializeUnsubscribe buflen dup id filters) .unsubscribe := by
  unfold mqttSerializeUnsubscribe
  dsimp only
  split
  · exact tooShortOpens .unsubscribe
  · exact doneOpens .unsubscribe dup 1 0 _

theorem extendedcmdOpens (buflen : Int) (dup : Nat) (qos : Int) (retained : Nat) (id : UInt64) (cmd : UInt8) (payload : List UInt8) :
    Opens (mqttSerializeExtendedcmd buflen dup qos retained id cmd payload) .extcmd := by
  unfold mqttSerializeExtendedcmd
  dsimp only
  split
  · exact tooShortOpens .extcmd
  · exact doneOpens .extcmd dup (qosBits qos) retained _

/-! Sending -/

theorem sendLoopKeeps (keeps : WriteKeeps net kept) (byte : Nat → UInt8) (length fuel : Nat) (s : SendLoop τ)
    (ok : kept s.wire) : kept (sendLoop net byte length fuel s).wire := by
  induction fuel generalizing s with
  | zero => exact ok
  | succ fuel ih =>
    unfold sendLoop
    split
    · have checked := expiredClock s.timer s.wire.clock
      have asked := leftClock (timerIsExpired s.timer s.wire.clock).timer (timerIsExpired s.timer s.wire.clock).clock
      dsimp only
      split
      · exact keeps.look _ _ checked ok
      · have before := keeps.look s.wire _ (Nat.le_trans asked checked) ok
        split
        · exact keeps.write _ _ _ before
        · exact ih _ (keeps.write _ _ _ before)
    · exact ok

theorem sendPacketKeeps (keeps : WriteKeeps net kept) (length : Nat) (timer : Timer) (st : St τ) :
    Keeps kept st (sendPacket net length timer st).st := by
  have loop := sendLoopKeeps keeps st.client.buf.byte length (st.wire.clock.length + 1)
    ⟨failure,0,[],timer,st.wire⟩
  unfold sendPacket
  dsimp only
  split
  · exact ⟨fun ok => keeps.look _ _ (countdownClock _ _) (loop ok),rfl,rfl,rfl⟩
  · exact ⟨loop,rfl,rfl,rfl⟩

def sent (net : Network τ) (length : Nat) (timer : Timer) (st : St τ) : Event :=
  .sendPacket (Memory.slice st.client.buf.byte 0 length) (sendRun net length timer st).transmitted
    (sendPacket net length timer st).rc

theorem sendPacketTrace (length : Nat) (timer : Timer) (st : St τ) :
    (sendPacket net length timer st).st.trace = st.trace ++ [sent net length timer st] := by
  unfold sent sendPacket
  dsimp only
  split <;> rfl

theorem sendPacketStill (length : Nat) (timer : Timer) (st : St τ) : Still st (sendPacket net length timer st).st := by
  unfold sendPacket
  dsimp only
  split <;> exact ⟨rfl,rfl⟩

theorem emittedSlice (st : St τ) (bs : List UInt8) : Memory.slice (st.emit bs).client.buf.byte 0 bs.length = bs :=
  Memory.sliceOfHolds (Memory.holdsStore _ 0 bs)

/- What a serialized packet adds to the trace: itself, if it has a length. -/
def sentEvents (net : Network τ) (s : Serialized) (timer : Timer) (st : St τ) : List Event :=
  if s.rc ≤ 0 then []
  else [.sendPacket s.written (sendRun net s.rc.toNat timer (st.emit s.written)).transmitted
    (sendSerialized net s timer st).rc]

theorem sendSerializedKeeps (keeps : WriteKeeps net kept) (s : Serialized) (timer : Timer) (st : St τ) :
    Keeps kept st (sendSerialized net s timer st).st := by
  have emitted : Keeps kept st (st.emit s.written) := ⟨id,rfl,rfl,rfl⟩
  unfold sendSerialized
  dsimp only
  split
  · exact emitted
  · exact emitted.trans (sendPacketKeeps keeps _ _ _)

theorem sendSerializedTrace (net : Network τ) {s : Serialized} {t : MsgType} (opens : Opens s t) (timer : Timer) (st : St τ) :
    (sendSerialized net s timer st).st.trace = st.trace ++ sentEvents net s timer st := by
  unfold sentEvents sendSerialized
  dsimp only
  split
  · simp [St.emit]
  · rename_i positive
    rcases opens with short | ⟨whole,_⟩
    · exact absurd short positive
    · have packet := emittedSlice st s.written
      rw [sendPacketTrace]
      unfold sent
      rw [whole, Int.toNat_natCast, packet]
      rfl

theorem sendSerializedStill (net : Network τ) (s : Serialized) (timer : Timer) (st : St τ) :
    Still st (sendSerialized net s timer st).st := by
  have emitted : Still st (st.emit s.written) := ⟨rfl,rfl⟩
  unfold sendSerialized
  dsimp only
  split
  · exact emitted
  · exact emitted.trans (sendPacketStill _ _ _)

def SendOf (t : MsgType) : Event → Prop
  | .sendPacket packet _ _ => packetKind packet = some t.code
  | _ => False

theorem sentEventsOf {s : Serialized} {t : MsgType} (opens : Opens s t) (timer : Timer) (st : St τ) :
    ∀ e ∈ sentEvents net s timer st, SendOf t e := by
  unfold sentEvents
  split
  · simp
  · rename_i positive
    rcases opens with short | ⟨_,kind⟩
    · exact absurd short positive
    · simpa [SendOf] using kind

theorem sendSerializedGains {s : Serialized} {t : MsgType} (opens : Opens s t) (timer : Timer) (st : St τ) :
    Gains (SendOf t) st (sendSerialized net s timer st).st :=
  ⟨_,sendSerializedTrace net opens timer st,sentEventsOf opens timer st⟩

/-! keepalive -/

def KeepaliveEvent (e : Event) : Prop := e = .threadStart ∨ SendOf .pingreq e

theorem pingFailedKeeps (keeps : WriteKeeps net kept) (st : St τ) : Keeps kept st (pingFailed st) := by
  unfold pingFailed
  dsimp only
  split
  · exact ⟨id,rfl,rfl,rfl⟩
  · exact ⟨keeps.look _ _ (countdownClock _ _),rfl,rfl,rfl⟩

theorem pingFailedGains (st : St τ) : Gains KeepaliveEvent st (pingFailed st) := by
  unfold pingFailed
  dsimp only
  split
  · exact .one rfl (Or.inl rfl)
  · exact .none rfl

/- keepalive from the state its look at the ping timer leaves. -/
theorem keepaliveCases (keeps : WriteKeeps net kept) (st : St τ) :
    (keepalive net st).2 = st ∨
    ∃ st₁ : St τ, Keeps kept st st₁ ∧ st₁.trace = st.trace ∧ Still st st₁ ∧
      ((keepalive net st).2 = st₁ ∨
        ∃ timer, (keepalive net st).2 =
          let o := sendSerialized net (mqttSerializePingreq st.client.bufSize) timer st₁
          if o.rc = success then pingSent o.st else pingFailed o.st) := by
  unfold keepalive
  split
  · exact Or.inl rfl
  · have checked := expiredClock st.client.pingTimer st.wire.clock
    right
    dsimp only
    split
    · have armed := countdownClock 1000 (timerIsExpired st.client.pingTimer st.wire.clock).clock
      refine ⟨_,?_,?_,?_,Or.inr ⟨_,rfl⟩⟩
      · exact ⟨keeps.look _ _ (Nat.le_trans armed checked),rfl,rfl,rfl⟩
      · rfl
      · exact ⟨rfl,rfl⟩
    · refine ⟨_,?_,?_,?_,Or.inl rfl⟩
      · exact ⟨keeps.look _ _ checked,rfl,rfl,rfl⟩
      · rfl
      · exact ⟨rfl,rfl⟩

theorem keepaliveKeeps (keeps : WriteKeeps net kept) (st : St τ) : Keeps kept st (keepalive net st).2 := by
  rcases keepaliveCases keeps st with same | ⟨st₁,checked,_,_,same | ⟨timer,same⟩⟩
  · rw [same]
    exact .refl st
  · rw [same]
    exact checked
  · have sends := sendSerializedKeeps keeps (mqttSerializePingreq st.client.bufSize) timer st₁
    rw [same]
    dsimp only
    split
    · exact checked.trans (sends.trans ⟨id,rfl,rfl,rfl⟩)
    · exact checked.trans (sends.trans (pingFailedKeeps keeps _))

theorem keepaliveGains (net : Network τ) (st : St τ) : Gains KeepaliveEvent st (keepalive net st).2 := by
  rcases keepaliveCases (anyWrites net) st with same | ⟨st₁,_,quiet,_,same | ⟨timer,same⟩⟩
  · exact .none (by rw [same])
  · exact .none (by rw [same, quiet])
  · have sends : Gains (SendOf .pingreq) st₁
        (sendSerialized net (mqttSerializePingreq st.client.bufSize) timer st₁).st :=
      sendSerializedGains (zeroOpens st.client.bufSize .pingreq) timer st₁
    have pings : Gains KeepaliveEvent st (sendSerialized net (mqttSerializePingreq st.client.bufSize) timer st₁).st :=
      (Gains.none quiet).trans (sends.mono fun _ => Or.inr)
    rw [same]
    dsimp only
    split
    · exact pings.trans (.none rfl)
    · exact pings.trans (pingFailedGains _)

theorem keepaliveConnected (st : St τ) : (keepalive net st).2.client.isconnected = st.client.isconnected := by
  rcases keepaliveCases (anyWrites net) st with same | ⟨st₁,_,_,still,same | ⟨timer,same⟩⟩
  · rw [same]
  · rw [same, still.connected]
  · have sends := (still.trans (sendSerializedStill net (mqttSerializePingreq st.client.bufSize) timer st₁)).connected
    rw [same]
    dsimp only
    split
    · exact sends
    · rw [← sends]
      unfold pingFailed
      dsimp only
      split <;> rfl

/-! The cases of cycle -/

def HandleEvent (e : Event) : Prop :=
  (∃ m, e = .message m) ∨ (∃ cmd status payload, e = .extMessage cmd status payload) ∨
    ∃ t ∈ [MsgType.puback,.pubrec,.pubrel,.pubcomp], SendOf t e

theorem deliverextKeeps (out : ExtendedcmdOut) (st : St τ) : Keeps kept st (deliverextMessage out st) := by
  unfold deliverextMessage
  split <;> exact ⟨id,rfl,rfl,rfl⟩

theorem deliverextGains (out : ExtendedcmdOut) (st : St τ) : Gains HandleEvent st (deliverextMessage out st) := by
  unfold deliverextMessage
  split
  · exact .one rfl (Or.inr (Or.inl ⟨_,_,_,rfl⟩))
  · exact .none rfl

theorem deliverextStill (out : ExtendedcmdOut) (st : St τ) : Still st (deliverextMessage out st) := by
  unfold deliverextMessage
  split <;> exact ⟨rfl,rfl⟩

theorem publishAckOpens (bufSize qos : Nat) (id : UInt64) :
    ∃ t ∈ [MsgType.puback,.pubrec,.pubrel,.pubcomp], Opens (publishAck bufSize qos id) t := by
  unfold publishAck
  split
  · exact ⟨.puback,by simp,ackOpens _ _ _ _⟩
  · split
    · exact ⟨.pubrec,by simp,ackOpens _ _ _ _⟩
    · exact ⟨.puback,by simp,Or.inl (Int.le_refl 0)⟩

theorem handlePublishCases (net : Network τ) (timer : Timer) (st : St τ) :
    let out := mqttDeserializePublish st.client.readbuf.byte st.client.readbufSize
    let msg := publishMessage st.client.readbuf.byte out
    let sent := sendSerialized net (publishAck st.client.bufSize msg.qos (msg.id.getD st.stack)) timer st
    handlePublish net timer st =
      if out.rc ≠ 1 then ⟨success,true,timer,st⟩
      else if msg.qos ≠ 0 then ⟨sent.rc,false,sent.timer,deliverMessage msg sent.st⟩
      else ⟨success,false,timer,st⟩ := rfl

theorem handlePublishKeeps (keeps : WriteKeeps net kept) (timer : Timer) (st : St τ) :
    Keeps kept st (handlePublish net timer st).st := by
  rw [handlePublishCases]
  split
  · exact .refl st
  · split
    · exact (sendSerializedKeeps keeps _ timer st).trans ⟨id,rfl,rfl,rfl⟩
    · exact .refl st

theorem handlePublishGains (timer : Timer) (st : St τ) : Gains HandleEvent st (handlePublish net timer st).st := by
  rw [handlePublishCases]
  split
  · exact .none rfl
  · split
    · obtain ⟨t,known,opens⟩ := publishAckOpens st.client.bufSize _ _
      exact ((sendSerializedGains opens timer st).mono fun _ is => Or.inr (Or.inr ⟨t,known,is⟩)).trans
        (.one rfl (Or.inl ⟨_,rfl⟩))
    · exact .none rfl

theorem handlePublishStill (timer : Timer) (st : St τ) : Still st (handlePublish net timer st).st := by
  rw [handlePublishCases]
  split
  · exact .refl st
  · split
    · exact (sendSerializedStill net _ timer st).trans ⟨rfl,rfl⟩
    · exact .refl st

theorem answerAckCases (net : Network τ) (answer : MsgType) (timer : Timer) (st : St τ) :
    let out := mqttDeserializeAck st.client.readbuf.byte st.client.readbufSize
    let sent := sendSerialized net
      (mqttSerializeAck st.client.bufSize answer.code 0 (out.packetid.getD st.stack)) timer st
    (answerAck net answer timer st).st = if out.rc ≠ 1 then st else sent.st := by
  unfold answerAck
  dsimp only
  split
  · rfl
  · split <;> rfl

theorem answerAckKeeps (keeps : WriteKeeps net kept) (answer : MsgType) (timer : Timer) (st : St τ) :
    Keeps kept st (answerAck net answer timer st).st := by
  rw [answerAckCases]
  split
  · exact .refl st
  · exact sendSerializedKeeps keeps _ timer st

theorem answerAckGains {answer : MsgType} (known : answer ∈ [MsgType.puback,.pubrec,.pubrel,.pubcomp])
    (timer : Timer) (st : St τ) : Gains HandleEvent st (answerAck net answer timer st).st := by
  rw [answerAckCases]
  split
  · exact .none rfl
  · exact (sendSerializedGains (ackOpens _ answer _ _) timer st).mono fun _ is => Or.inr (Or.inr ⟨answer,known,is⟩)

theorem answerAckStill (answer : MsgType) (timer : Timer) (st : St τ) :
    Still st (answerAck net answer timer st).st := by
  rw [answerAckCases]
  split
  · exact .refl st
  · exact sendSerializedStill net _ timer st

theorem handleExtcmdState (timer : Timer) (st : St τ) :
    (handleExtcmd timer st).st = st ∨
      (handleExtcmd timer st).st =
        deliverextMessage (mqttDeserializeExtendedcmd st.client.readbuf.byte st.client.readbufSize) st := by
  unfold handleExtcmd
  dsimp only
  split
  · exact Or.inl rfl
  · exact Or.inr rfl

/- A CONNACK that the deserializer takes and whose return code is 0. -/
def Admitted (st : St τ) : Prop :=
  let out := mqttDeserializeConnack st.client.readbuf.byte st.client.readbufSize
  out.rc = 1 ∧ out.connackRc = some 0

theorem connackAdmitted {st : St τ}
    (zero : connackCode (mqttDeserializeConnack st.client.readbuf.byte st.client.readbufSize) = success) :
    Admitted st := by
  unfold connackCode at zero
  split at zero
  · rename_i accepted
    refine ⟨accepted,?_⟩
    cases code : (mqttDeserializeConnack st.client.readbuf.byte st.client.readbufSize).connackRc with
    | none => simp [code, success] at zero
    | some c =>
      have nul : c.toNat = 0 := by
        rw [code, Option.getD_some] at zero
        exact Int.ofNat_eq_zero.mp zero
      rw [show c = 0 from UInt8.toNat_inj.mp nul]
  · exact absurd zero failureNotSuccess

theorem handleConnackConnected (timer : Timer) (st : St τ) :
    (handleConnack timer st).st.client.isconnected = st.client.isconnected ∨ Admitted st := by
  unfold handleConnack
  dsimp only
  split
  · exact Or.inr (connackAdmitted (by assumption))
  · exact Or.inl rfl

theorem handleKeeps (keeps : WriteKeeps net kept) (type : Nat) (timer : Timer) (st : St τ) :
    Keeps kept st (handle net type timer st).st := by
  unfold handle
  split
  · unfold handleConnack
    dsimp only
    split <;> exact ⟨id,rfl,rfl,rfl⟩
  · exact .refl st
  · exact .refl st
  · exact handlePublishKeeps keeps timer st
  · exact answerAckKeeps keeps .pubrel timer st
  · exact answerAckKeeps keeps .pubcomp timer st
  · exact ⟨id,rfl,rfl,rfl⟩
  · rcases handleExtcmdState timer st with same | same
    · rw [same]
      exact .refl st
    · rw [same]
      exact deliverextKeeps _ st
  · exact .refl st

theorem handleGains (type : Nat) (timer : Timer) (st : St τ) :
    Gains HandleEvent st (handle net type timer st).st := by
  unfold handle
  split
  · unfold handleConnack
    dsimp only
    split <;> exact .none rfl
  · exact .none rfl
  · exact .none rfl
  · exact handlePublishGains timer st
  · exact answerAckGains (by simp) timer st
  · exact answerAckGains (by simp) timer st
  · exact .none rfl
  · rcases handleExtcmdState timer st with same | same
    · exact .none (by rw [same])
    · rw [same]
      exact deliverextGains _ st
  · exact .none rfl

theorem handleConnected (net : Network τ) (type : Nat) (timer : Timer) (st : St τ) :
    (handle net type timer st).st.client.isconnected = st.client.isconnected ∨
      MsgType.ofCode type = some .connack ∧ Admitted st := by
  unfold handle
  split
  · rename_i connack
    rcases handleConnackConnected timer st with same | admitted
    · exact Or.inl same
    · exact Or.inr ⟨connack,admitted⟩
  · exact Or.inl rfl
  · exact Or.inl rfl
  · exact Or.inl (handlePublishStill timer st).connected
  · exact Or.inl (answerAckStill .pubrel timer st).connected
  · exact Or.inl (answerAckStill .pubcomp timer st).connected
  · exact Or.inl rfl
  · left
    rcases handleExtcmdState timer st with same | same
    · rw [same]
    · rw [same]
      exact (deliverextStill _ st).connected
  · exact Or.inl rfl

/-! cycle behind its read -/

def CycleEvent (e : Event) : Prop := HandleEvent e ∨ KeepaliveEvent e

theorem cycleSt (net : Network τ) (timer : Timer) (st : St τ) :
    let p := readPacket net timer st
    let h := handle net (packetType p.rc) p.timer p.st
    (cycle net timer st).st = if h.exit then h.st else (keepalive net h.st).2 := rfl

theorem cycleKeeps (keeps : WriteKeeps net kept) (timer : Timer) (st : St τ) :
    Keeps kept (readPacket net timer st).st (cycle net timer st).st := by
  have handled := handleKeeps keeps (packetType (readPacket net timer st).rc) (readPacket net timer st).timer
    (readPacket net timer st).st
  rw [cycleSt]
  split
  · exact handled
  · exact handled.trans (keepaliveKeeps keeps _)

theorem cycleGains (net : Network τ) (timer : Timer) (st : St τ) :
    Gains CycleEvent (readPacket net timer st).st (cycle net timer st).st := by
  have handled : Gains CycleEvent (readPacket net timer st).st (handle net (packetType (readPacket net timer st).rc)
      (readPacket net timer st).timer (readPacket net timer st).st).st := (handleGains _ _ _).mono fun _ => Or.inl
  rw [cycleSt]
  split
  · exact handled
  · exact handled.trans ((keepaliveGains net _).mono fun _ => Or.inr)

end YunbaIot.MqttEffects
