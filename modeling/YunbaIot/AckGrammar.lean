import YunbaIot.MqttEffects
import YunbaIot.PublishGrammar

/-! MQTTDeserialize_ack and MQTTDeserialize_unsuback against the grammar of an acknowledgement
with a packet id of eight bytes: what they accept and load, and what cycle answers with. -/
namespace YunbaIot.AckGrammar
open FreeRtosTimer MqttTransport MqttPacket MqttDeserialize MqttSerialize MqttClient MqttEffects
open PublishGrammar (field remLen bodyAt start readInt64Id remaining singleByte startEnded startWithin)

variable (byte : Nat → UInt8) (buflen : Nat)

/- A length field that ends, and eight bytes or more behind it, all in the buffer. -/
structure Frame : Prop where
  wellFormed : Base128.terminated (field byte) = true
  inside : bodyAt byte + remLen byte ≤ buflen
  room : 8 ≤ remLen byte

structure AckExact : Prop where
  accepts : (mqttDeserializeAck byte buflen).rc = 1 ↔ Frame byte buflen
  packetid : (mqttDeserializeAck byte buflen).rc = 1 → (mqttDeserializeAck byte buflen).packetid =
    some (UInt64.ofNat (BigEndian.value (Memory.slice byte (bodyAt byte) 8)))
  inBounds : ∀ i ∈ (mqttDeserializeAck byte buflen).reads, i < buflen

structure UnsubackExact : Prop where
  accepts : (mqttDeserializeUnsuback byte buflen).rc = 1 ↔
    Frame byte buflen ∧ MqttHeader.type (byte 0) = MsgType.unsuback.code
  inBounds : ∀ i ∈ (mqttDeserializeUnsuback byte buflen).reads, i < buflen

/- A packet without room for an id that is not taken for accepted: its length field is not a
single byte. -/
structure Refused : Prop where
  short : remLen byte < 2
  wide : (field byte).length ≠ 1
  inside : bodyAt byte ≤ buflen

variable {byte}

theorem ackShort (short : remLen byte < 2) :
    let out := mqttDeserializeAck byte buflen
    out.rc = (((field byte).length + overrun (field byte) : Nat) : Int) ∧
      out.packettype = MqttHeader.type (byte 0) ∧ out.packetid = none ∧ out.reads = (start byte).reads := by
  simp only [mqttDeserializeAck, remaining, if_pos short]
  exact ⟨trivial,rfl,trivial,rfl⟩

theorem ackLong (long : ¬ remLen byte < 2) :
    let out := mqttDeserializeAck byte buflen
    out.rc = 1 ∧ out.packettype = MqttHeader.type (byte 0) ∧
      out.packetid = some (UInt64.ofNat (BigEndian.value (Memory.slice byte (start byte).pos 8))) ∧
      out.reads = ((start byte).advance 8).reads := by
  simp only [mqttDeserializeAck, remaining, if_neg long, readInt64Id]
  exact ⟨trivial,rfl,rfl,rfl⟩

/- A short packet is accepted where the returned length of its length field is 1. -/
theorem shortAccepted (short : remLen byte < 2) :
    (mqttDeserializeAck byte buflen).rc = 1 ↔ (field byte).length = 1 := by
  rw [(ackShort buflen short).1, ← singleByte]
  omega

theorem ackType : (mqttDeserializeAck byte buflen).packettype = MqttHeader.type (byte 0) := by
  by_cases short : remLen byte < 2
  · exact (ackShort buflen short).2.1
  · exact (ackLong buflen short).2.1

theorem unsubackCode : (mqttDeserializeUnsuback byte buflen).rc = 1 ↔
    MqttHeader.type (byte 0) = MsgType.unsuback.code ∨ (mqttDeserializeAck byte buflen).rc = 1 := by
  unfold mqttDeserializeUnsuback
  dsimp only
  rw [ackType]
  split
  · rename_i unsuback
    exact ⟨fun _ => Or.inl unsuback,fun _ => rfl⟩
  · rename_i other
    exact ⟨Or.inr,fun h => h.resolve_left other⟩

theorem unsubackReads : (mqttDeserializeUnsuback byte buflen).reads = (mqttDeserializeAck byte buflen).reads := by
  unfold mqttDeserializeUnsuback
  dsimp only
  split <;> rfl

theorem frameLong (frame : Frame byte buflen) : ¬ remLen byte < 2 := by
  have room := frame.room
  omega

theorem frameInBounds (frame : Frame byte buflen) : ∀ i ∈ (mqttDeserializeAck byte buflen).reads, i < buflen := by
  have place := startEnded frame.wellFormed
  have inside := frame.inside
  have room := frame.room
  have header : (start byte).Within buflen := (startWithin buflen).mpr (by omega)
  rw [(ackLong buflen (frameLong buflen frame)).2.2.2]
  refine (Cursor.withinAdvance (start byte) 8 buflen).mpr ⟨header,Or.inr ?_⟩
  omega

theorem shortInBounds (short : remLen byte < 2) :
    (∀ i ∈ (mqttDeserializeAck byte buflen).reads, i < buflen) ↔ bodyAt byte ≤ buflen := by
  rw [(ackShort buflen short).2.2.2]
  exact startWithin buflen

theorem frameExact (frame : Frame byte buflen) : AckExact byte buflen := by
  obtain ⟨rc,_,packetid,_⟩ := ackLong buflen (frameLong buflen frame)
  refine ⟨⟨fun _ => frame,fun _ => rc⟩,fun _ => ?_,frameInBounds buflen frame⟩
  rw [packetid, startEnded frame.wellFormed]

theorem ackExact : AckExact byte buflen ↔ Frame byte buflen ∨ Refused byte buflen := by
  constructor
  · intro follows
    by_cases short : remLen byte < 2
    · have noFrame : ¬ Frame byte buflen := fun frame => frameLong buflen frame short
      have wide : (field byte).length ≠ 1 := fun one => noFrame (follows.accepts.mp ((shortAccepted buflen short).mpr one))
      exact Or.inr ⟨short,wide,(shortInBounds buflen short).mp follows.inBounds⟩
    · exact Or.inl (follows.accepts.mp (ackLong buflen short).1)
  · rintro (frame | refused)
    · exact frameExact buflen frame
    · have noFrame : ¬ Frame byte buflen := fun frame => frameLong buflen frame refused.short
      have code : (mqttDeserializeAck byte buflen).rc ≠ 1 := fun one =>
        refused.wide ((shortAccepted buflen refused.short).mp one)
      exact ⟨⟨fun one => absurd one code,fun frame => absurd frame noFrame⟩,fun one => absurd one code,
        (shortInBounds buflen refused.short).mpr refused.inside⟩

theorem unsubackExact : UnsubackExact byte buflen ↔
    (Frame byte buflen ∧ MqttHeader.type (byte 0) = MsgType.unsuback.code) ∨
      (Refused byte buflen ∧ MqttHeader.type (byte 0) ≠ MsgType.unsuback.code) := by
  constructor
  · rintro ⟨accepts,inBounds⟩
    rw [unsubackCode] at accepts
    rw [unsubackReads] at inBounds
    by_cases unsuback : MqttHeader.type (byte 0) = MsgType.unsuback.code
    · exact Or.inl (accepts.mp (Or.inl unsuback))
    · have code : (mqttDeserializeAck byte buflen).rc ≠ 1 := fun one => unsuback (accepts.mp (Or.inr one)).2
      have short : remLen byte < 2 := by
        by_contra long
        exact code (ackLong buflen long).1
      have wide : (field byte).length ≠ 1 := fun one => code ((shortAccepted buflen short).mpr one)
      exact Or.inr ⟨⟨short,wide,(shortInBounds buflen short).mp inBounds⟩,unsuback⟩
  · rintro (⟨frame,unsuback⟩ | ⟨refused,other⟩)
    · refine ⟨?_,?_⟩
      · rw [unsubackCode]
        exact ⟨fun _ => ⟨frame,unsuback⟩,fun _ => Or.inl unsuback⟩
      · rw [unsubackReads]
        exact frameInBounds buflen frame
    · refine ⟨?_,?_⟩
      · rw [unsubackCode]
        refine ⟨fun code => ?_,fun h => absurd h.2 other⟩
        have one := (shortAccepted buflen refused.short).mp (code.resolve_left other)
        exact absurd one refused.wide
      · rw [unsubackReads]
        exact (shortInBounds buflen refused.short).mpr refused.inside

/-! The answers of cycle -/

section Answers
variable {τ : Type} (net : Network τ) (timer : Timer) (st : St τ)

/- An answer goes out to the packet in readbuf, and the deserializer has assigned no id. -/
def AnsweredUnassigned (t : MsgType) : Prop :=
  (handle net t.code timer st).st.trace ≠ st.trace ∧
    (mqttDeserializeAck st.client.readbuf.byte st.client.readbufSize).packetid = none

/- Every serialized packet is offered to the transport. -/
theorem answerSent (answer : MsgType) (id : UInt64) :
    (sendSerialized net (mqttSerializeAck st.client.bufSize answer.code 0 id) timer st).st.trace ≠ st.trace ↔
      4 ≤ st.client.bufSize := by
  have trace := sendSerializedTrace net (ackOpens st.client.bufSize answer 0 id) timer st
  rw [trace, sentEvents, mqttSerializeAck]
  by_cases room : (st.client.bufSize : Int) < 4
  · simp only [if_pos room, tooShort, bufferTooShort]
    refine ⟨fun sent => ?_,fun more => by omega⟩
    simp at sent
  · have some : ¬ (done (MqttHeader.byte answer.code 0 (if answer.code = MsgType.pubrel.code then 1 else 0) 0 ::
        mqttPacketEncode 8 ++ writeInt64 id)).rc ≤ 0 := by
      simp only [done, List.cons_append, List.length_cons]
      omega
    simp only [if_neg room, if_neg some]
    refine ⟨fun _ => by omega,fun _ => ?_⟩
    simp

theorem answeredUnassigned (answer : MsgType) :
    ((answerAck net answer timer st).st.trace ≠ st.trace ∧
      (mqttDeserializeAck st.client.readbuf.byte st.client.readbufSize).packetid = none) ↔
    remLen st.client.readbuf.byte < 2 ∧ (field st.client.readbuf.byte).length = 1 ∧ 4 ≤ st.client.bufSize := by
  rw [answerAckCases]
  by_cases short : remLen st.client.readbuf.byte < 2
  · have unassigned := (ackShort st.client.readbufSize short).2.2.1
    have accepted := shortAccepted st.client.readbufSize short
    split
    · rename_i refused
      exact ⟨fun h => absurd rfl h.1,fun h => absurd (accepted.mpr h.2.1) refused⟩
    · rename_i taken
      have one := accepted.mp (not_not.mp taken)
      have sent := answerSent net timer st answer
        ((mqttDeserializeAck st.client.readbuf.byte st.client.readbufSize).packetid.getD st.stack)
      exact ⟨fun h => ⟨short,one,sent.mp h.1⟩,fun h => ⟨sent.mpr h.2.2,unassigned⟩⟩
  · have assigned := (ackLong st.client.readbufSize short).2.2.1
    refine ⟨fun h => ?_,fun h => absurd h.1 short⟩
    rw [assigned] at h
    cases h.2

theorem callersUnassigned {t : MsgType} (asks : t = .pubrec ∨ t = .pubrel) :
    AnsweredUnassigned net timer st t ↔
      remLen st.client.readbuf.byte < 2 ∧ (field st.client.readbuf.byte).length = 1 ∧ 4 ≤ st.client.bufSize := by
  rcases asks with rfl | rfl
  · exact answeredUnassigned net timer st .pubrel
  · exact answeredUnassigned net timer st .pubcomp

end Answers

/-- The two deserializers follow the grammar on exactly the frames and the packets they refuse,
and an answer of cycle carries an id that was assigned unless the packet has no room for one
behind a length field of one byte. -/
theorem acknowledgementExact {τ : Type} (byte : Nat → UInt8) (buflen : Nat) (net : Network τ) (timer : Timer)
    (st : St τ) :
    (AckExact byte buflen ↔ Frame byte buflen ∨ Refused byte buflen) ∧
    (UnsubackExact byte buflen ↔
      (Frame byte buflen ∧ MqttHeader.type (byte 0) = MsgType.unsuback.code) ∨
        (Refused byte buflen ∧ MqttHeader.type (byte 0) ≠ MsgType.unsuback.code)) ∧
    ((¬ AnsweredUnassigned net timer st .pubrec ∧ ¬ AnsweredUnassigned net timer st .pubrel) ↔
      ¬ (remLen st.client.readbuf.byte < 2 ∧ (field st.client.readbuf.byte).length = 1 ∧ 4 ≤ st.client.bufSize)) := by
  refine ⟨ackExact buflen,unsubackExact buflen,?_⟩
  rw [callersUnassigned net timer st (Or.inl rfl), callersUnassigned net timer st (Or.inr rfl), and_self]

/- A client with this packet in readbuf and room to answer. -/
def asked (packet : List UInt8) : St (List UInt8) :=
  let blank := St.static ⟨[⟨0,0⟩,⟨0,0⟩],[]⟩
  { blank with client := { blank.client with bufSize := 10, readbuf := .ofList packet, readbufSize := packet.length } }

def emptyPubrel : List UInt8 := [0x62,0]
def wholePubrec : List UInt8 := [0x50,8,0,0,0,0,0,0,0,7]

/- A PUBREL of remaining length 0 is accepted and answered, and a PUBREC is accepted as an
UNSUBACK. -/
theorem emptyPubrelAnswered :
    ¬ AckExact (Memory.ofList emptyPubrel).byte 2 ∧ ¬ UnsubackExact (Memory.ofList wholePubrec).byte 10 ∧
      AnsweredUnassigned pipe ⟨100,⟨0,0⟩⟩ (asked emptyPubrel) .pubrel := by
  refine ⟨fun follows => ?_,fun follows => ?_,?_,rfl⟩
  · have frame := follows.accepts.mp (by decide)
    exact absurd frame.room (by decide)
  · have unsuback := follows.accepts.mp (by decide)
    exact absurd unsuback.2 (by decide)
  · decide

/-! What MQTTSerialize_ack writes -/

structure AckYields (out : AckOut) (packettype dup : Nat) (packetid : UInt64) : Prop where
  rc : out.rc = 1
  packettype : out.packettype = packettype
  dup : out.dup = dup
  packetid : out.packetid = some packetid

/-- A serialized acknowledgement is read back with its type, flag and id, and every id on its
own. -/
theorem ackRoundTrip (packettype : Fin 16) (dup : Fin 2) (packetid : UInt64) (buflen : Int) (room : 10 ≤ buflen)
    (byte : Nat → UInt8) (there : Memory.Holds byte 0 (mqttSerializeAck buflen packettype dup packetid).written)
    (buflen' : Nat) :
    AckYields (mqttDeserializeAck byte buflen') packettype dup packetid ∧
      ∀ (byte' : Nat → UInt8) (c : Cursor), Memory.Holds byte' c.pos (writeInt64 packetid) →
        readInt64 byte' c = (packetid,c.advance 8) := by
  have long : ¬ buflen < 4 := by omega
  have written : (mqttSerializeAck buflen packettype dup packetid).written = MqttHeader.byte packettype dup
      (if (packettype : Nat) = MsgType.pubrel.code then 1 else 0) 0 :: (mqttPacketEncode 8 ++ writeInt64 packetid) := by
    rw [mqttSerializeAck, if_neg long]
    rfl
  rw [written] at there
  obtain ⟨rc,type,id⟩ := ackHolds there buflen'
  have flag : (mqttDeserializeAck byte buflen').dup = MqttHeader.dup (byte 0) := by
    unfold mqttDeserializeAck
    dsimp only
    split <;> rfl
  refine ⟨⟨rc,?_,?_,id⟩,fun _ _ => readInt64Written⟩
  · rw [type, MqttHeader.typeByte, Nat.mod_eq_of_lt packettype.isLt]
  · rw [flag, there.1, MqttHeader.dupByte, Nat.mod_eq_of_lt dup.isLt]

def highPubrel : Nat → UInt8 := ((Memory.ofList []).store 0 (mqttSerializeAck 10 6 1 0xFF80000080008001).written).byte

theorem highRoundTrip : AckYields (mqttDeserializeAck highPubrel 10) 6 1 0xFF80000080008001 :=
  (ackRoundTrip 6 1 0xFF80000080008001 10 (by decide) highPubrel (Memory.holdsStore _ 0 _) 10).1

end YunbaIot.AckGrammar
