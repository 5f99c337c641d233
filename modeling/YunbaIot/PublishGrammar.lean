import YunbaIot.MqttDeserialize

/-! MQTTDeserialize_publish against the PUBLISH grammar: which buffers it accepts,
which slices it hands out and which offsets it loads. -/
namespace YunbaIot.PublishGrammar
open MqttPacket MqttDeserialize

variable (byte : Nat → UInt8) (buflen : Nat)

def field : List UInt8 := lengthField byte ⟨1,[0]⟩
def remLen : Nat := Base128.value (field byte)
def bodyAt : Nat := 1 + (field byte).length
def topicLength (off : Nat) : Nat := BigEndian.value (Memory.slice byte off 2)
def idSize : Nat := if 0 < MqttHeader.qos (byte 0) then 8 else 0

/- A whole PUBLISH packet at the start of the buffer. -/
structure Frame : Prop where
  publish : MqttHeader.type (byte 0) = MsgType.publish.code
  wellFormed : Base128.terminated (field byte) = true
  inside : bodyAt byte + remLen byte ≤ buflen
  room : 2 + topicLength byte (bodyAt byte) + idSize byte ≤ remLen byte

structure Slices (out : PublishOut) : Prop where
  topicLen : out.topicLen = some (topicLength byte (bodyAt byte))
  topicData : out.topicData = some (bodyAt byte + 2)
  packetid : out.packetid = if 0 < MqttHeader.qos (byte 0) then
    some (UInt64.ofNat (BigEndian.value
      (Memory.slice byte (bodyAt byte + 2 + topicLength byte (bodyAt byte)) 8))) else none
  payload : out.payload = some (bodyAt byte + 2 + topicLength byte (bodyAt byte) + idSize byte)
  payloadlen : out.payloadlen =
    some ((remLen byte : Int) - 2 - topicLength byte (bodyAt byte) - idSize byte)
  nonnegative : ∀ n, out.payloadlen = some n → 0 ≤ n

structure Exact : Prop where
  accepts : (mqttDeserializePublish byte buflen).rc = 1 ↔ Frame byte buflen
  slices : (mqttDeserializePublish byte buflen).rc = 1 → Slices byte (mqttDeserializePublish byte buflen)
  inBounds : ∀ i ∈ (mqttDeserializePublish byte buflen).reads, i < buflen

/- A packet cut short in its topic whose length field is not a single byte: the only
rejection after which the returned length of the length field is not taken for 1. -/
structure CutShort : Prop where
  wide : (field byte).length ≠ 1
  short : remLen byte < 2 ∧ bodyAt byte ≤ buflen ∨
    2 ≤ remLen byte ∧ bodyAt byte + overrun (field byte) + 2 ≤ buflen ∧
      remLen byte < 2 + topicLength byte (bodyAt byte + overrun (field byte))

def Regular : Prop :=
  0 < buflen ∧ (MqttHeader.type (byte 0) ≠ MsgType.publish.code ∨ Frame byte buflen ∨ CutShort byte buflen)

variable {byte}

theorem readIntTopic (c : Cursor) : readInt byte c = (topicLength byte c.pos, c.advance 2) := by
  simp [readInt, topicLength, Memory.slice, BigEndian.value]

theorem readInt64Id (c : Cursor) :
    readInt64 byte c = (UInt64.ofNat (BigEndian.value (Memory.slice byte c.pos 8)), c.advance 8) := by
  refine Prod.ext ?_ rfl
  apply UInt64.toNat_inj.mp
  have bound := (readInt64 byte c).1.toNat_lt
  rw [readInt64Value] at bound ⊢
  rw [UInt64.toNat_ofNat', Nat.mod_eq_of_lt bound]

/- readMQTTLenString takes a string that lies before `enddata`, and of another one at most
its length. -/
theorem stringFits {c : Cursor} {enddata : Nat} (fits : c.pos + 2 + topicLength byte c.pos ≤ enddata) :
    readMqttLenString byte c enddata = ⟨1,some (topicLength byte c.pos),some (c.pos + 2),
      ⟨c.pos + 2 + topicLength byte c.pos,(c.advance 2).reads⟩⟩ := by
  have go : c.pos + 1 < enddata := by omega
  have ends : (c.advance 2).pos + topicLength byte c.pos ≤ enddata := fits
  simp only [readMqttLenString, if_pos go, readIntTopic, if_pos ends]
  rfl

theorem stringCut {c : Cursor} {enddata : Nat} (cut : enddata < c.pos + 2 + topicLength byte c.pos) :
    (readMqttLenString byte c enddata).rc = 0 ∧
      (readMqttLenString byte c enddata).cursor = if c.pos + 2 ≤ enddata then c.advance 2 else c := by
  have past : ¬ (c.advance 2).pos + topicLength byte c.pos ≤ enddata := Nat.not_le_of_lt cut
  by_cases go : c.pos + 1 < enddata
  · simp only [readMqttLenString, if_pos go, readIntTopic, if_neg past]
    exact ⟨trivial,(if_pos go).symm⟩
  · simp only [readMqttLenString, if_neg go]
    exact ⟨trivial,(if_neg go).symm⟩

/- Loads of the header and the length field. -/
def head (byte : Nat → UInt8) : Cursor := (Cursor.mk 0 []).advance (bodyAt byte)

theorem remaining : remainingLength byte (readChar byte ⟨0,[]⟩).2 =
    ⟨(field byte).length + overrun (field byte),remLen byte,
      ⟨bodyAt byte + overrun (field byte),(head byte).reads⟩⟩ := by
  have start : (readChar byte ⟨0,[]⟩).2 = ⟨1,[0]⟩ := rfl
  have loads : (head byte).reads = ((Cursor.mk 1 [0]).advance (field byte).length).reads := by
    have one : Cursor.mk 1 [0] = (Cursor.mk 0 []).advance 1 := rfl
    rw [one, Cursor.advanceAdvance]
    rfl
  rw [start, remainingLengthField, loads]
  simp only [field, remLen, bodyAt, Nat.add_assoc]

/- curdata behind the length field, as the code moves it. -/
def start (byte : Nat → UInt8) : Cursor := ⟨bodyAt byte + overrun (field byte),(head byte).reads⟩

theorem firstByte (byte : Nat → UInt8) : (readChar byte ⟨0,[]⟩).1 = byte 0 :=
  congrArg Prod.fst (readCharFirst byte)

theorem remainingStart : remainingLength byte (readChar byte ⟨0,[]⟩).2 =
    ⟨(field byte).length + overrun (field byte),remLen byte,start byte⟩ := remaining

/- Where the field ends, the body begins at the same place for the code and the grammar. -/
theorem startEnded (ended : Base128.terminated (field byte) = true) : (start byte).pos = bodyAt byte := by
  have none : overrun (field byte) = 0 := if_pos ended
  simp only [start, none, Nat.add_zero]

theorem otherType (other : MqttHeader.type (byte 0) ≠ MsgType.publish.code) :
    mqttDeserializePublish byte buflen = ⟨0,none,none,none,none,none,none,none,none,[0]⟩ := by
  unfold mqttDeserializePublish
  exact if_pos other

/- The three exits behind the type check, by how the remaining length compares with the
topic string. -/
theorem tooShort (publish : MqttHeader.type (byte 0) = MsgType.publish.code) (short : remLen byte < 2) :
    let out := mqttDeserializePublish byte buflen
    out.rc = (field byte).length + overrun (field byte) ∧ out.reads = (start byte).reads := by
  have stop : ¬ (bodyAt byte + overrun (field byte) + 1 < bodyAt byte + overrun (field byte) + remLen byte) := by
    omega
  simp only [mqttDeserializePublish, firstByte, publish, ne_eq, not_true_eq_false, if_false, remaining,
    readMqttLenString, if_neg stop, true_or, if_true]
  exact ⟨by push_cast; rfl,rfl⟩

theorem topicCut (publish : MqttHeader.type (byte 0) = MsgType.publish.code) (two : 2 ≤ remLen byte)
    (cut : remLen byte < 2 + topicLength byte (start byte).pos) :
    let out := mqttDeserializePublish byte buflen
    out.rc = (field byte).length + overrun (field byte) ∧ out.reads = ((start byte).advance 2).reads := by
  simp only [start] at cut
  have go : bodyAt byte + overrun (field byte) + 1 < bodyAt byte + overrun (field byte) + remLen byte := by
    omega
  have past : ¬ (bodyAt byte + overrun (field byte) + 2 +
      topicLength byte (bodyAt byte + overrun (field byte)) ≤
      bodyAt byte + overrun (field byte) + remLen byte) := by omega
  simp only [mqttDeserializePublish, firstByte, publish, ne_eq, not_true_eq_false, if_false, remaining,
    readMqttLenString, if_pos go, readIntTopic, Cursor.advance, if_neg past, true_or, if_true]
  exact ⟨by push_cast; rfl,rfl⟩

theorem topicWhole (publish : MqttHeader.type (byte 0) = MsgType.publish.code)
    (whole : 2 + topicLength byte (start byte).pos ≤ remLen byte) :
    let out := mqttDeserializePublish byte buflen
    let t := topicLength byte (start byte).pos
    let after := { (start byte).advance 2 with pos := (start byte).pos + 2 + t }
    out.rc = 1 ∧ out.topicLen = some t ∧ out.topicData = some ((start byte).pos + 2) ∧
      out.packetid = (if 0 < MqttHeader.qos (byte 0) then some (readInt64 byte after).1 else none) ∧
      out.payload = some (after.pos + idSize byte) ∧
      out.payloadlen = some ((remLen byte : Int) - 2 - t - idSize byte) ∧
      out.reads = (after.advance (idSize byte)).reads := by
  simp only [start] at whole
  have go : bodyAt byte + overrun (field byte) + 1 < bodyAt byte + overrun (field byte) + remLen byte := by
    omega
  have fits : bodyAt byte + overrun (field byte) + 2 +
      topicLength byte (bodyAt byte + overrun (field byte)) ≤
      bodyAt byte + overrun (field byte) + remLen byte := by omega
  have ordered : ¬ (bodyAt byte + overrun (field byte) + remLen byte <
      bodyAt byte + overrun (field byte) + 2 +
        topicLength byte (bodyAt byte + overrun (field byte))) := by omega
  simp only [mqttDeserializePublish, firstByte, publish, ne_eq, not_true_eq_false, if_false, remaining,
    readMqttLenString, if_pos go, readIntTopic, Cursor.advance, if_pos fits, one_ne_zero, false_or,
    if_neg ordered]
  by_cases acked : 0 < MqttHeader.qos (byte 0)
  · simp only [if_pos acked, idSize, start, readInt64Id, Cursor.advance, Option.some.injEq]
    refine ⟨trivial,trivial,trivial,trivial,trivial,?_,trivial⟩
    push_cast
    omega
  · simp only [if_neg acked, idSize, start, Option.some.injEq, List.range'_zero, List.append_nil,
      Nat.add_zero]
    refine ⟨trivial,trivial,trivial,trivial,trivial,?_,trivial⟩
    push_cast
    omega

/- The header flags are handed out whatever follows. -/
theorem publishFlags (publish : MqttHeader.type (byte 0) = MsgType.publish.code) :
    let out := mqttDeserializePublish byte buflen
    out.dup = some (MqttHeader.dup (byte 0)) ∧ out.qos = some (MqttHeader.qos (byte 0)) ∧
      out.retained = some (MqttHeader.retain (byte 0)) := by
  simp only [mqttDeserializePublish, firstByte, publish, ne_eq, not_true_eq_false, if_false]
  split
  · exact ⟨rfl,rfl,rfl⟩
  · split <;> exact ⟨rfl,rfl,rfl⟩

theorem fieldPositive (byte : Nat → UInt8) : 0 < (field byte).length := by
  rcases bufcharFull byte maxRemainingLengthBytes ⟨1,[0]⟩ with whole | full
  · exact List.length_pos_iff.mpr (Base128.terminatedNonempty whole)
  · have four : (field byte).length = 4 := full
    omega

theorem singleByte : (field byte).length + overrun (field byte) = 1 ↔ (field byte).length = 1 := by
  have positive := fieldPositive byte
  constructor
  · intro h
    omega
  · intro one
    rcases bufcharFull byte maxRemainingLengthBytes ⟨1,[0]⟩ with whole | full
    · have none : overrun (field byte) = 0 := if_pos whole
      omega
    · have four : (field byte).length = 4 := full
      omega

theorem startWithin : (start byte).Within buflen ↔ bodyAt byte ≤ buflen := by
  have same : (start byte).Within buflen ↔ (head byte).Within buflen := Iff.rfl
  have nonzero : bodyAt byte ≠ 0 := by
    unfold bodyAt
    omega
  rw [same, head, Cursor.withinAdvance]
  simp [Cursor.Within, nonzero]

/- Every rejection behind the type check returns the length of the length field. -/
theorem rejectedExact (noFrame : ¬ Frame byte buflen)
    (code : (mqttDeserializePublish byte buflen).rc = (field byte).length + overrun (field byte)) :
    Exact byte buflen ↔
      (field byte).length ≠ 1 ∧ ∀ i ∈ (mqttDeserializePublish byte buflen).reads, i < buflen := by
  have one : (mqttDeserializePublish byte buflen).rc = 1 ↔ (field byte).length = 1 := by
    rw [code, ← singleByte]
    omega
  constructor
  · intro h
    exact ⟨fun single => noFrame (h.accepts.mp (one.mpr single)),h.inBounds⟩
  · rintro ⟨wide,inside⟩
    exact ⟨⟨fun h => absurd (one.mp h) wide,fun h => absurd h noFrame⟩,
      fun h => absurd (one.mp h) wide,inside⟩

theorem frameExact (frame : Frame byte buflen) : Exact byte buflen := by
  have at0 := startEnded frame.wellFormed
  have room := frame.room
  have inside := frame.inside
  have out := topicWhole buflen frame.publish (by rw [at0]; omega)
  simp only [at0] at out
  obtain ⟨rc,topicLen,topicData,packetid,payload,payloadlen,reads⟩ := out
  refine ⟨⟨fun _ => frame,fun _ => rc⟩,fun _ => ?_,?_⟩
  · refine ⟨topicLen,topicData,?_,payload,payloadlen,?_⟩
    · rw [packetid, readInt64Id]
    · intro n same
      rw [payloadlen] at same
      cases same
      omega
  · rw [reads]
    have body : (start byte).Within buflen := (startWithin buflen).mpr (by omega)
    have topic : ((start byte).advance 2).Within buflen :=
      (Cursor.withinAdvance _ _ _).mpr ⟨body,Or.inr (by rw [at0]; omega)⟩
    exact (Cursor.withinAdvance { (start byte).advance 2 with
      pos := bodyAt byte + 2 + topicLength byte (bodyAt byte) } _ _).mpr ⟨topic,Or.inr (by simp only; omega)⟩

theorem otherExact (other : MqttHeader.type (byte 0) ≠ MsgType.publish.code) :
    Exact byte buflen ↔ Regular byte buflen := by
  have out := otherType buflen other
  refine ⟨fun h => ⟨h.inBounds 0 (by simp [out]),Or.inl other⟩,fun h => ⟨?_,?_,?_⟩⟩
  · rw [out]
    exact ⟨fun accepted => by simp at accepted,fun f => absurd f.publish other⟩
  · rw [out]
    intro accepted
    simp at accepted
  · rw [out]
    simpa using h.1

theorem shortExact (publish : MqttHeader.type (byte 0) = MsgType.publish.code) (short : remLen byte < 2) :
    Exact byte buflen ↔ Regular byte buflen := by
  have noFrame : ¬ Frame byte buflen := fun f => by
    have room := f.room
    omega
  obtain ⟨code,reads⟩ := tooShort buflen publish short
  have loads : (∀ i ∈ (mqttDeserializePublish byte buflen).reads, i < buflen) ↔ bodyAt byte ≤ buflen := by
    rw [reads]
    exact startWithin buflen
  rw [rejectedExact buflen noFrame code, loads]
  refine ⟨fun ⟨wide,inside⟩ => ?_,fun ⟨_,cases⟩ => ?_⟩
  · have first : 0 < bodyAt byte := by
      unfold bodyAt
      omega
    exact ⟨by omega,Or.inr (Or.inr ⟨wide,Or.inl ⟨short,inside⟩⟩)⟩
  · rcases cases with other | frame | cut
    · exact absurd publish other
    · exact absurd frame noFrame
    · rcases cut.short with ⟨_,inside⟩ | ⟨two,_⟩
      · exact ⟨cut.wide,inside⟩
      · omega

theorem wholeExact (publish : MqttHeader.type (byte 0) = MsgType.publish.code)
    (whole : 2 + topicLength byte (start byte).pos ≤ remLen byte) :
    Exact byte buflen ↔ Regular byte buflen := by
  have code := (topicWhole buflen publish whole).1
  refine ⟨fun h => ?_,fun ⟨_,cases⟩ => ?_⟩
  · have frame := h.accepts.mp code
    have inside := frame.inside
    unfold bodyAt at inside
    exact ⟨by omega,Or.inr (Or.inl frame)⟩
  · simp only [start] at whole
    rcases cases with other | frame | cut
    · exact absurd publish other
    · exact frameExact buflen frame
    · rcases cut.short with ⟨low,_⟩ | ⟨_,_,low⟩ <;> omega

theorem cutExact (publish : MqttHeader.type (byte 0) = MsgType.publish.code) (two : 2 ≤ remLen byte)
    (cut : remLen byte < 2 + topicLength byte (start byte).pos) :
    Exact byte buflen ↔ Regular byte buflen := by
  have noFrame : ¬ Frame byte buflen := fun f => by
    have room := f.room
    rw [startEnded f.wellFormed] at cut
    omega
  obtain ⟨code,reads⟩ := topicCut buflen publish two cut
  have loads : (∀ i ∈ (mqttDeserializePublish byte buflen).reads, i < buflen) ↔
      bodyAt byte + overrun (field byte) + 2 ≤ buflen := by
    rw [reads]
    refine (Cursor.withinAdvance _ _ _).trans ?_
    rw [startWithin]
    simp only [start]
    omega
  rw [rejectedExact buflen noFrame code, loads]
  refine ⟨fun ⟨wide,inside⟩ => ⟨by omega,Or.inr (Or.inr ⟨wide,Or.inr ⟨two,inside,cut⟩⟩)⟩,fun ⟨_,cases⟩ => ?_⟩
  rcases cases with other | frame | broken
  · exact absurd publish other
  · exact absurd frame noFrame
  · rcases broken.short with ⟨low,_⟩ | ⟨_,inside,_⟩
    · omega
    · exact ⟨broken.wide,inside⟩

/-- MQTTDeserialize_publish follows the grammar on exactly the regular buffers. -/
theorem deserializePublishExact (byte : Nat → UInt8) (buflen : Nat) :
    Exact byte buflen ↔ Regular byte buflen := by
  by_cases publish : MqttHeader.type (byte 0) = MsgType.publish.code
  · by_cases short : remLen byte < 2
    · exact shortExact buflen publish short
    · by_cases whole : 2 + topicLength byte (start byte).pos ≤ remLen byte
      · exact wholeExact buflen publish whole
      · exact cutExact buflen publish (by omega) (by omega)
  · exact otherExact buflen publish

/- A PUBLISH of remaining length 0 is accepted: the 1 is the length of its length field. -/
theorem emptyPublishAccepted :
    (mqttDeserializePublish (Memory.ofList [0x30,0x00]).byte 2).rc = 1 ∧
      ¬ Exact (Memory.ofList [0x30,0x00]).byte 2 := by
  have accepted : (mqttDeserializePublish (Memory.ofList [0x30,0x00]).byte 2).rc = 1 := by decide
  refine ⟨accepted,fun h => ?_⟩
  have room := (h.accepts.mp accepted).room
  have none : remLen (Memory.ofList [0x30,0x00]).byte = 0 := by decide
  omega

end YunbaIot.PublishGrammar
