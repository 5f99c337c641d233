import YunbaIot.Framing
import YunbaIot.MqttEffects
import YunbaIot.PublishGrammar
import YunbaIot.Run

/-! The well-formed packets a server sends, what they ask of the client, and what one
call of cycle does with each. -/
namespace YunbaIot.Incoming
open FreeRtosTimer MqttTransport MqttPacket MqttDeserialize MqttSerialize MqttClient MqttRead Framing MqttEffects

-- Only an acknowledged quality of service has a packet id.
inductive QoS where
  | qos0
  | qos1 (id : UInt64)
  | qos2 (id : UInt64)
  deriving DecidableEq

def QoS.code : QoS → Nat
  | .qos0 => 0 | .qos1 _ => 1 | .qos2 _ => 2
def QoS.id : QoS → Option UInt64
  | .qos0 => none
  | .qos1 id | .qos2 id => some id
def QoS.idBytes : QoS → List UInt8
  | .qos0 => []
  | .qos1 id | .qos2 id => writeInt64 id

structure Publish where
  dup : Bool
  retained : Bool
  qos : QoS
  topic : List UInt8
  payload : List UInt8
  named : topic.length < 65536

-- topic a, payload b
def Publish.letters (qos : QoS) : Publish := ⟨false,false,qos,[0x61],[0x62],by decide⟩

def Publish.header (p : Publish) : UInt8 :=
  MqttHeader.byte MsgType.publish.code p.dup.toNat p.qos.code p.retained.toNat
def Publish.body (p : Publish) : List UInt8 :=
  writeInt p.topic.length ++ p.topic ++ p.qos.idBytes ++ p.payload
def Publish.message (p : Publish) : Message :=
  ⟨p.dup.toNat,p.qos.code,p.retained.toNat,p.qos.id,some p.topic,some p.payload⟩

/- `other` is every packet of a type that asks for neither delivery nor an answer. -/
inductive Content where
  | publish (p : Publish)
  | pubrec (header : UInt8) (id : UInt64) (type : MqttHeader.type header = MsgType.pubrec.code)
  | pubrel (header : UInt8) (id : UInt64) (type : MqttHeader.type header = MsgType.pubrel.code)
  | other (header : UInt8) (body : List UInt8)
      (type : ∀ t ∈ [MsgType.publish,.pubrec,.pubrel], MqttHeader.type header ≠ t.code)

def Content.header : Content → UInt8
  | .publish p => p.header
  | .pubrec header _ _ | .pubrel header _ _ | .other header _ _ => header
def Content.body : Content → List UInt8
  | .publish p => p.body
  | .pubrec _ id _ | .pubrel _ id _ => writeInt64 id
  | .other _ body _ => body

/- The message a packet carries, and the one cycle hands to the message handler. -/
def Content.message : Content → Option Message
  | .publish p => some p.message
  | _ => none
def Content.handled : Content → Option Message
  | .publish p => if p.qos = .qos0 then none else some p.message
  | _ => none

/- The acknowledgement a packet asks for. -/
def Content.answer : Content → Option (MsgType × UInt64)
  | .publish p => match p.qos with
    | .qos0 => none
    | .qos1 id => some (.puback,id)
    | .qos2 id => some (.pubrec,id)
  | .pubrec _ id _ => some (.pubrel,id)
  | .pubrel _ id _ => some (.pubcomp,id)
  | .other _ _ _ => none

structure Arrival where
  content : Content
  field : List UInt8
  ended : Base128.terminated field = true
  short : field.length ≤ maxRemainingLengthBytes
  counts : Base128.value field = content.body.length

def Arrival.packet (a : Arrival) : WirePacket :=
  ⟨a.content.header,a.field,a.content.body,a.ended,a.short,a.counts⟩

/- A packet of any content in its shortest form. -/
def Content.arrival (c : Content) (bound : c.body.length < 128 ^ 4) : Arrival :=
  ⟨c,mqttPacketEncode c.body.length,by rw [mqttPacketEncodeEncodes]; exact Base128.encodeTerminated _,
    by rw [mqttPacketEncodeEncodes]; exact Base128.encodeLength 3 _ bound,
    by rw [mqttPacketEncodeEncodes]; exact Base128.valueEncode _⟩

variable {τ : Type} {net : Network τ}

theorem publishType (p : Publish) : MqttHeader.type p.header = MsgType.publish.code := by
  simp [Publish.header, MsgType.code]

theorem publishDup (p : Publish) : MqttHeader.dup p.header = p.dup.toNat := by
  rw [Publish.header, MqttHeader.dupByte]
  cases p.dup <;> rfl

theorem publishQoS (p : Publish) : MqttHeader.qos p.header = p.qos.code := by
  rw [Publish.header, MqttHeader.qosByte]
  cases p.qos <;> rfl

theorem publishRetain (p : Publish) : MqttHeader.retain p.header = p.retained.toNat := by
  rw [Publish.header, MqttHeader.retainByte]
  cases p.retained <;> rfl

theorem idBytesLength (q : QoS) : q.idBytes.length = if 0 < q.code then 8 else 0 := by
  cases q <;> rfl

theorem idRead {byte : Nat → UInt8} {q : QoS} {c : Cursor} (there : Memory.Holds byte c.pos q.idBytes) :
    (if 0 < q.code then some (readInt64 byte c).1 else none) = q.id := by
  cases q with
  | qos0 => rfl
  | qos1 id => rw [readInt64Written there]; rfl
  | qos2 id => rw [readInt64Written there]; rfl

theorem publishLength (p : Publish) :
    p.body.length = 2 + p.topic.length + p.qos.idBytes.length + p.payload.length := by
  simp only [Publish.body, List.length_append, writeInt, List.length_cons, List.length_nil]

theorem topicLengthHolds {byte : Nat → UInt8} {off n : Nat} (bound : n < 65536)
    (there : Memory.Holds byte off (writeInt n)) : PublishGrammar.topicLength byte off = n := by
  have read : readInt byte ⟨off,[]⟩ = (n,(Cursor.mk off []).advance 2) := readIntWritten bound there
  rw [PublishGrammar.readIntTopic] at read
  exact congrArg Prod.fst read

/- The fields of a canonical PUBLISH, each where the grammar looks for it. -/
structure Placed (byte : Nat → UInt8) (p : Publish) : Prop where
  header : byte 0 = p.header
  remLen : PublishGrammar.remLen byte = p.body.length
  start : PublishGrammar.start byte = ⟨PublishGrammar.bodyAt byte,(PublishGrammar.head byte).reads⟩
  topicLength : PublishGrammar.topicLength byte (PublishGrammar.bodyAt byte) = p.topic.length
  topic : Memory.Holds byte (PublishGrammar.bodyAt byte + 2) p.topic
  id : Memory.Holds byte (PublishGrammar.bodyAt byte + 2 + p.topic.length) p.qos.idBytes
  payload : Memory.Holds byte (PublishGrammar.bodyAt byte + 2 + p.topic.length + p.qos.idBytes.length) p.payload

theorem canonicalPlaced {byte : Nat → UInt8} {p : Publish} (bound : p.body.length < 128 ^ 4)
    (there : Memory.Holds byte 0 (p.header :: (mqttPacketEncode p.body.length ++ p.body))) : Placed byte p := by
  obtain ⟨header,rest⟩ := there
  obtain ⟨length,body⟩ := Memory.holdsAppend.mp rest
  have ended : Base128.terminated (mqttPacketEncode p.body.length) = true := by
    rw [mqttPacketEncodeEncodes]
    exact Base128.encodeTerminated _
  have short : (mqttPacketEncode p.body.length).length ≤ maxRemainingLengthBytes := by
    rw [mqttPacketEncodeEncodes]
    exact Base128.encodeLength 3 _ bound
  have field : PublishGrammar.field byte = mqttPacketEncode p.body.length := lengthFieldHolds length ended short
  have place : 0 + 1 + (mqttPacketEncode p.body.length).length = PublishGrammar.bodyAt byte := by
    rw [PublishGrammar.bodyAt, field]
  rw [place] at body
  obtain ⟨front,payload⟩ := Memory.holdsAppend.mp body
  obtain ⟨front,id⟩ := Memory.holdsAppend.mp front
  obtain ⟨number,topic⟩ := Memory.holdsAppend.mp front
  simp only [List.length_append, ← Nat.add_assoc] at topic id payload
  refine ⟨header,?_,?_,topicLengthHolds p.named number,topic,id,payload⟩
  · rw [PublishGrammar.remLen, field, mqttPacketEncodeEncodes, Base128.valueEncode]
  · rw [PublishGrammar.start, field, overrun, if_pos ended]
    rfl

/- A PUBLISH that lies in the buffer in its canonical form is taken apart as it was put
together. -/
theorem publishHolds {byte : Nat → UInt8} {p : Publish} (placed : Placed byte p)
    (bound : p.body.length < 128 ^ 4) (buflen : Nat) :
    let out := mqttDeserializePublish byte buflen
    out.rc = 1 ∧ publishMessage byte out = p.message := by
  obtain ⟨header,remLen,start,topicLength,topic,id,payload⟩ := placed
  have length := publishLength p
  have type : MqttHeader.type (byte 0) = MsgType.publish.code := by rw [header, publishType]
  have size : PublishGrammar.idSize byte = p.qos.idBytes.length := by
    rw [PublishGrammar.idSize, header, publishQoS, idBytesLength]
  obtain ⟨dup,qos,retained⟩ := PublishGrammar.publishFlags buflen type
  obtain ⟨rc,topicLen,topicData,packetid,data,payloadlen,_⟩ := PublishGrammar.topicWhole buflen type (by
    rw [start, remLen, topicLength]
    omega)
  simp only [start, topicLength, header, publishQoS, size, remLen] at topicLen topicData packetid data payloadlen
  have count : (p.body.length : Int) - 2 - p.topic.length - p.qos.idBytes.length = p.payload.length := by omega
  have word : (UInt32.ofInt (p.payload.length : Int)).toNat = p.payload.length := by
    rw [UInt32.ofInt, UInt32.toNat_ofNat']
    omega
  have number : (mqttDeserializePublish byte buflen).packetid = p.qos.id := packetid.trans (idRead id)
  refine ⟨rc,?_⟩
  simp only [publishMessage, dup, qos, retained, number, topicLen, topicData, data, payloadlen, count,
    Option.getD_some, Option.map_some, word, header, publishDup, publishQoS, publishRetain,
    Memory.sliceOfHolds topic, Memory.sliceOfHolds payload]
  rfl

/-! One call of cycle -/

/- What the answer to a packet adds to the trace. -/
def answers (net : Network τ) (c : Content) (timer : Timer) (st : St τ) : List Event :=
  match c.answer with
  | some (t,id) => sentEvents net (mqttSerializeAck st.client.bufSize t.code 0 id) timer st
  | none => []
def deliveries (c : Content) : List Event := c.handled.toList.map .message

-- events that are neither packets nor messages of the kinds counted here
def QuietEvent (e : Event) : Prop := (∃ cmd status payload, e = .extMessage cmd status payload) ∨ KeepaliveEvent e

def InReadbuf (c : Content) (st : St τ) : Prop :=
  Memory.Holds st.client.readbuf.byte 0 (c.header :: (mqttPacketEncode c.body.length ++ c.body))

theorem handlePublishTrace {p : Publish} {st : St τ} (timer : Timer) (bound : p.body.length < 128 ^ 4)
    (there : InReadbuf (.publish p) st) :
    (handlePublish net timer st).st.trace =
      st.trace ++ answers net (.publish p) timer st ++ deliveries (.publish p) := by
  obtain ⟨rc,message⟩ := publishHolds (canonicalPlaced bound there) bound st.client.readbufSize
  rw [handlePublishCases, rc, message, if_neg (not_not_intro rfl)]
  cases qos : p.qos with
  | qos0 => simp [answers, deliveries, Content.answer, Content.handled, Publish.message, qos, QoS.code]
  | qos1 id =>
    have sends := sendSerializedTrace net (ackOpens st.client.bufSize .puback 0 id) timer st
    simp [answers, deliveries, Content.answer, Content.handled, Publish.message, qos, QoS.code, QoS.id,
      publishAck, deliverMessage, St.log, sends]
  | qos2 id =>
    have sends := sendSerializedTrace net (ackOpens st.client.bufSize .pubrec 0 id) timer st
    simp [answers, deliveries, Content.answer, Content.handled, Publish.message, qos, QoS.code, QoS.id,
      publishAck, deliverMessage, St.log, sends]

theorem answerAckTrace {header : UInt8} {id : UInt64} {st : St τ} (answer : MsgType) (timer : Timer)
    (there : Memory.Holds st.client.readbuf.byte 0 (header :: (mqttPacketEncode 8 ++ writeInt64 id))) :
    (answerAck net answer timer st).st.trace =
      st.trace ++ sentEvents net (mqttSerializeAck st.client.bufSize answer.code 0 id) timer st := by
  obtain ⟨rc,_,packetid⟩ := ackHolds there st.client.readbufSize
  rw [answerAckCases, rc, packetid, if_neg (not_not_intro rfl)]
  exact sendSerializedTrace net (ackOpens _ answer 0 id) timer st

/- A packet of the remaining types brings at most a command reply to the application. -/
theorem handleOther (net : Network τ) {header : UInt8} (timer : Timer) (st : St τ)
    (type : ∀ t ∈ [MsgType.publish,.pubrec,.pubrel], MqttHeader.type header ≠ t.code) :
    Gains QuietEvent st (handle net (MqttHeader.type header) timer st).st := by
  unfold handle
  split
  · unfold handleConnack
    dsimp only
    split <;> exact .none rfl
  · exact .none rfl
  · exact .none rfl
  · rename_i code
    exact absurd (MsgType.codeOfCode code) (type .publish (by simp))
  · rename_i code
    exact absurd (MsgType.codeOfCode code) (type .pubrec (by simp))
  · rename_i code
    exact absurd (MsgType.codeOfCode code) (type .pubrel (by simp))
  · exact .none rfl
  · rcases handleExtcmdState timer st with same | same
    · exact .none (by rw [same])
    · rw [same]
      unfold deliverextMessage
      split
      · exact .one rfl (Or.inl ⟨_,_,_,rfl⟩)
      · exact .none rfl
  · exact .none rfl

theorem handleContent (net : Network τ) {c : Content} {st : St τ} (timer : Timer) (bound : c.body.length < 128 ^ 4)
    (there : InReadbuf c st) :
    ∃ quiet, (handle net (MqttHeader.type c.header) timer st).st.trace =
      st.trace ++ answers net c timer st ++ deliveries c ++ quiet ∧ ∀ e ∈ quiet, QuietEvent e := by
  cases c with
  | publish p =>
    have type : handle net (MqttHeader.type p.header) timer st = handlePublish net timer st := by
      rw [publishType]
      rfl
    refine ⟨[],?_,by simp⟩
    rw [Content.header, type, handlePublishTrace timer bound there, List.append_nil]
  | pubrec header id type =>
    have code : handle net (MqttHeader.type header) timer st = answerAck net .pubrel timer st := by
      rw [type]
      rfl
    refine ⟨[],?_,by simp⟩
    rw [Content.header, code, answerAckTrace .pubrel timer there]
    simp [answers, deliveries, Content.answer, Content.handled]
  | pubrel header id type =>
    have code : handle net (MqttHeader.type header) timer st = answerAck net .pubcomp timer st := by
      rw [type]
      rfl
    refine ⟨[],?_,by simp⟩
    rw [Content.header, code, answerAckTrace .pubcomp timer there]
    simp [answers, deliveries, Content.answer, Content.handled]
  | other header body type =>
    obtain ⟨quiet,same,ok⟩ := handleOther net timer st type
    refine ⟨quiet,?_,ok⟩
    rw [Content.header, same]
    simp [answers, deliveries, Content.answer, Content.handled]

theorem arrivalBound (a : Arrival) : a.content.body.length < 128 ^ 4 := calc
  a.content.body.length < 128 ^ a.field.length := by
    rw [← a.counts]
    exact Base128.valueBound _
  _ ≤ 128 ^ 4 := Nat.pow_le_pow_right (by omega) a.short

/-! What a call gets -/

/- Nothing, or a whole packet in undivided reads that fits the read buffer. What other
calls do to the stream is the matter of SplitReads. -/
def Gets (net : Network τ) (timer : Timer) (st : St τ) : Option Arrival → Prop
  | none => (head net timer st).result.stored = []
  | some a => Brings net timer st a.packet ∧ a.packet.canonical.length ≤ st.client.readbufSize

/- The packet that is read, its answer and its delivery. -/
def effects (net : Network τ) (timer : Timer) (st : St τ) : Option Arrival → List Event
  | none => []
  | some a => [.received a.packet.canonical] ++
      answers net a.content (readPacket net timer st).timer (readPacket net timer st).st ++ deliveries a.content

structure Serves (net : Network τ) (timer : Timer) (st : St τ) (arrival : Option Arrival) : Prop where
  trace : ∃ quiet, (cycle net timer st).st.trace = st.trace ++ effects net timer st arrival ++ quiet ∧
    ∀ e ∈ quiet, QuietEvent e
  bufSize : (cycle net timer st).st.client.bufSize = st.client.bufSize

theorem cycleBufSize (net : Network τ) (timer : Timer) (st : St τ) :
    (cycle net timer st).st.client.bufSize = st.client.bufSize := by
  rw [(cycleKeeps (anyWrites net) timer st).bufSize, readPacketClient]

theorem keepaliveQuiet (net : Network τ) (st : St τ) : Gains QuietEvent st (keepalive net st).2 :=
  (keepaliveGains net st).mono fun _ => Or.inr

theorem cycleIdle {timer : Timer} {st : St τ} (nothing : (head net timer st).result.stored = []) :
    Serves net timer st none := by
  have absent : (head net timer st).result.rc ≠ 1 := askNothing net Nat.one_pos nothing
  have failed := noHeader net timer st absent
  have idle : Gains QuietEvent (readPacket net timer st).st (cycle net timer st).st := by
    rw [cycleSt, failed]
    exact keepaliveQuiet net _
  have before : (readPacket net timer st).st.trace = st.trace := by
    rw [failed]
    rfl
  obtain ⟨quiet,same,ok⟩ := idle
  refine ⟨⟨quiet,?_,ok⟩,cycleBufSize net timer st⟩
  rw [same, before]
  simp [effects]

theorem cycleTakes {timer : Timer} {st : St τ} {a : Arrival} (brings : Brings net timer st a.packet) :
    Serves net timer st (some a) := by
  have takes := bringsTakes brings
  have type : packetType (readPacket net timer st).rc = MqttHeader.type a.content.header := by
    rw [takes.rc]
    exact packetTypeByte _
  obtain ⟨quiet,handled,ok⟩ := handleContent net (readPacket net timer st).timer (arrivalBound a) takes.buffer
  rw [takes.trace] at handled
  refine ⟨?_,cycleBufSize net timer st⟩
  rw [cycleSt, type]
  split
  · refine ⟨quiet,?_,ok⟩
    rw [handled]
    simp [effects]
  · obtain ⟨more,alive,ok'⟩ := keepaliveQuiet net (handle net (MqttHeader.type a.content.header)
      (readPacket net timer st).timer (readPacket net timer st).st).st
    refine ⟨quiet ++ more,?_,fun e inside => ?_⟩
    · rw [alive, handled]
      simp [effects]
    · rcases List.mem_append.mp inside with before | behind
      · exact ok e before
      · exact ok' e behind

theorem getsServes {timer : Timer} {st : St τ} {arrival : Option Arrival} (gets : Gets net timer st arrival) :
    Serves net timer st arrival := by
  cases arrival with
  | none => exact cycleIdle gets
  | some a => exact cycleTakes gets.1

/-! Runs of cycle, each call with the packet it gets -/

abbrev Call : Type := Option Arrival × Timer

def step (net : Network τ) (st : St τ) (call : Call) : St τ := (cycle net call.2 st).st
def cycles (net : Network τ) (st : St τ) (calls : List Call) : St τ := Run.run (step net) st calls

def Undivided (net : Network τ) (st : St τ) (calls : List Call) : Prop :=
  Run.Along (step net) (fun st call => Gets net call.2 st call.1) st calls

/- A transport that has the packets of the calls and returns every requested byte. -/
theorem suppliedUndivided {rest : τ → List UInt8} (supplies : Supplies net rest) {tail : List UInt8}
    {calls : List (Arrival × Timer)} {st : St τ}
    (ahead : rest st.wire.link = stream (calls.map fun call => call.1.packet) ++ tail)
    (fits : ∀ call ∈ calls, call.1.packet.canonical.length ≤ st.client.readbufSize) :
    Undivided net st (calls.map fun call => (some call.1,call.2)) := by
  induction calls generalizing st with
  | nil => trivial
  | cons call later ih =>
    have first : rest st.wire.link =
        call.1.packet.bytes ++ (stream (later.map fun call => call.1.packet) ++ tail) := by
      rw [ahead]
      simp [stream]
    obtain ⟨brings,position⟩ := suppliedBrings call.2 supplies call.1.packet _ first
    have writes : WriteKeeps net fun w => rest w.link = stream (later.map fun call => call.1.packet) ++ tail :=
      linkWrites (fun link => rest link = _) fun bs ms w same => (supplies.write bs ms w).trans same
    have keeps := cycleKeeps writes call.2 st
    refine ⟨⟨brings,fits call (List.mem_cons_self ..)⟩,ih ?_ fun other inside => ?_⟩
    · exact keeps.wire (by rw [(bringsTakes brings).wire, position])
    · have size : (step net st (some call.1,call.2)).client.readbufSize = st.client.readbufSize := by
        rw [step, keeps.readbufSize, readPacketClient]
      rw [size]
      exact fits other (List.mem_cons_of_mem _ inside)

end YunbaIot.Incoming
