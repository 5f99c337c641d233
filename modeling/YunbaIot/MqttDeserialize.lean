import YunbaIot.MqttPacket

/-! The client-side deserializers. Each takes the bytes behind its buffer pointer,
whatever lies past `buflen`, and returns its result code with the out parameters it
assigned (`none`: left as the caller had it) and the offsets it loaded. `buflen` is a
parameter of the source that no branch looks at. -/
namespace YunbaIot.MqttDeserialize
open MqttPacket

/- Result code, remaining length and curdata after `curdata += (rc = MQTTPacket_decodeBuf(..))`:
curdata moves by the returned length, the loads are those of bufptr. -/
structure Remaining where
  rc : Nat
  mylen : Nat
  curdata : Cursor

def remainingLength (byte : Nat → UInt8) (curdata : Cursor) : Remaining :=
  let d := mqttPacketDecodeBuf byte curdata
  ⟨d.len,d.value,⟨curdata.pos + d.len,d.source.reads⟩⟩

structure PublishOut where
  rc : Int
  dup : Option Nat
  qos : Option Nat
  retained : Option Nat
  packetid : Option UInt64
  topicLen : Option Nat
  topicData : Option Nat
  payload : Option Nat
  payloadlen : Option Int
  reads : List Nat
  deriving DecidableEq, Repr

def mqttDeserializePublish (byte : Nat → UInt8) (_buflen : Nat) : PublishOut :=
  let header := readChar byte ⟨0,[]⟩
  if MqttHeader.type header.1 ≠ MsgType.publish.code then
    ⟨0,none,none,none,none,none,none,none,none,header.2.reads⟩
  else
    let dup := MqttHeader.dup header.1
    let qos := MqttHeader.qos header.1
    let retained := MqttHeader.retain header.1
    let rem := remainingLength byte header.2
    let enddata := rem.curdata.pos + rem.mylen
    let topic := readMqttLenString byte rem.curdata enddata
    if topic.rc = 0 ∨ enddata < topic.cursor.pos then
      ⟨rem.rc,some dup,some qos,some retained,none,topic.len,topic.data,none,none,topic.cursor.reads⟩
    else if 0 < qos then
      let id := readInt64 byte topic.cursor
      ⟨1,some dup,some qos,some retained,some id.1,topic.len,topic.data,some id.2.pos,
        some (enddata - id.2.pos),id.2.reads⟩
    else
      ⟨1,some dup,some qos,some retained,none,topic.len,topic.data,some topic.cursor.pos,
        some (enddata - topic.cursor.pos),topic.cursor.reads⟩

structure AckOut where
  rc : Int
  packettype : Nat
  dup : Nat
  packetid : Option UInt64
  reads : List Nat
  deriving DecidableEq, Repr

def mqttDeserializeAck (byte : Nat → UInt8) (_buflen : Nat) : AckOut :=
  let header := readChar byte ⟨0,[]⟩
  let dup := MqttHeader.dup header.1
  let type := MqttHeader.type header.1
  let rem := remainingLength byte header.2
  if rem.mylen < 2 then ⟨rem.rc,type,dup,none,rem.curdata.reads⟩
  else
    let id := readInt64 byte rem.curdata
    ⟨1,type,dup,some id.1,id.2.reads⟩

-- The type is compared after the ack was read, whatever the ack's own result.
def mqttDeserializeUnsuback (byte : Nat → UInt8) (buflen : Nat) : AckOut :=
  let ack := mqttDeserializeAck byte buflen
  if ack.packettype = MsgType.unsuback.code then { ack with rc := 1 } else ack

structure ConnackOut where
  rc : Int
  sessionPresent : Option Nat
  connackRc : Option UInt8
  reads : List Nat
  deriving DecidableEq, Repr

def mqttDeserializeConnack (byte : Nat → UInt8) (_buflen : Nat) : ConnackOut :=
  let header := readChar byte ⟨0,[]⟩
  if MqttHeader.type header.1 ≠ MsgType.connack.code then ⟨0,none,none,header.2.reads⟩
  else
    let rem := remainingLength byte header.2
    if rem.mylen < 2 then ⟨rem.rc,none,none,rem.curdata.reads⟩
    else
      let flags := readChar byte rem.curdata
      let code := readChar byte flags.2
      ⟨1,some (flags.1.toNat / 128),some code.1,code.2.reads⟩

/- `granted` holds what was stored at grantedQoSs[0], [1], ... in this order, also
past the array the caller passed. -/
structure SubackOut where
  rc : Int
  packetid : Option UInt64
  count : Option Nat
  granted : List UInt8
  reads : List Nat
  deriving DecidableEq, Repr

structure Grants where
  rc : Int
  granted : List UInt8
  cursor : Cursor

def subackLoop (byte : Nat → UInt8) (maxcount enddata : Nat) : Nat → List UInt8 → Cursor → Grants
  | 0, granted, c => ⟨1,granted,c⟩
  | left+1, granted, c =>
    if c.pos < enddata then
      if maxcount < granted.length then ⟨-1,granted,c⟩
      else
        let code := readChar byte c
        subackLoop byte maxcount enddata left (granted ++ [code.1]) code.2
    else ⟨1,granted,c⟩

def mqttDeserializeSuback (byte : Nat → UInt8) (maxcount _buflen : Nat) : SubackOut :=
  let header := readChar byte ⟨0,[]⟩
  if MqttHeader.type header.1 ≠ MsgType.suback.code then ⟨0,none,none,[],header.2.reads⟩
  else
    let rem := remainingLength byte header.2
    let enddata := rem.curdata.pos + rem.mylen
    if rem.mylen < 2 then ⟨rem.rc,none,none,[],rem.curdata.reads⟩
    else
      let id := readInt64 byte rem.curdata
      let out := subackLoop byte maxcount enddata (enddata - id.2.pos) [] id.2
      ⟨out.rc,some id.1,some out.granted.length,out.granted,out.cursor.reads⟩

structure ExtendedcmdOut where
  rc : Int
  dup : Option Nat
  qos : Option Nat
  retained : Option Nat
  packetid : Option UInt64
  cmd : Option UInt8
  status : Option UInt8
  payload : Option Nat
  payloadlen : Option Nat
  reads : List Nat
  deriving DecidableEq, Repr

def mqttDeserializeExtendedcmd (byte : Nat → UInt8) (_buflen : Nat) : ExtendedcmdOut :=
  let header := readChar byte ⟨0,[]⟩
  if MqttHeader.type header.1 ≠ MsgType.extcmd.code then
    ⟨0,none,none,none,none,none,none,none,none,header.2.reads⟩
  else
    let rem := remainingLength byte header.2
    let id := readInt64 byte rem.curdata
    let cmd := readChar byte id.2
    let status := readChar byte cmd.2
    let payloadlen := readInt byte status.2
    ⟨1,some (MqttHeader.dup header.1),some (MqttHeader.qos header.1),some (MqttHeader.retain header.1),
      some id.1,some cmd.1,some status.1,some payloadlen.2.pos,some payloadlen.1,payloadlen.2.reads⟩

theorem bufcharField (byte : Nat → UInt8) (limit : Nat) (c : Cursor) :
    (Base128.fieldFrom (bufchar byte) limit c).2 =
        c.advance (Base128.fieldFrom (bufchar byte) limit c).1.length ∧
      Memory.Holds byte c.pos (Base128.fieldFrom (bufchar byte) limit c).1 := by
  induction limit generalizing c with
  | zero => exact ⟨by simp [Base128.fieldFrom], trivial⟩
  | succ limit ih =>
    have step : c.advance 1 = (c.next byte).2 := by simpa using (Cursor.advanceNext byte c 0).symm
    simp only [Base128.fieldFrom, bufchar]
    split
    · exact ⟨by simp [step], rfl, trivial⟩
    · have rest := ih (c.next byte).2
      refine ⟨?_, rfl, rest.2⟩
      rw [rest.1, ← step, Cursor.advanceAdvance, List.length_cons, Nat.add_comm]

/- A buffer never refuses a byte: the field ends by itself or at the limit. -/
theorem bufcharFull (byte : Nat → UInt8) (limit : Nat) (c : Cursor) :
    Base128.terminated (Base128.fieldFrom (bufchar byte) limit c).1 = true ∨
      (Base128.fieldFrom (bufchar byte) limit c).1.length = limit := by
  induction limit generalizing c with
  | zero => exact Or.inr rfl
  | succ limit ih =>
    simp only [Base128.fieldFrom, bufchar]
    split
    · rename_i last
      exact Or.inl (by simpa [Base128.terminated] using last)
    · rename_i more
      rcases ih (c.next byte).2 with whole | full
      · left
        have cont : 128 ≤ (c.next byte).1.toNat := by omega
        rw [Base128.terminatedCons (Base128.terminatedNonempty whole), whole]
        simpa using cont
      · exact Or.inr (by simpa using full)

/- The length-field bytes behind a cursor, and by how much the returned length counts
past them: a field still continuing after four bytes costs one more. -/
def lengthField (byte : Nat → UInt8) (c : Cursor) : List UInt8 :=
  (Base128.fieldFrom (bufchar byte) maxRemainingLengthBytes c).1
def overrun (field : List UInt8) : Nat := if Base128.terminated field then 0 else 1

theorem remainingLengthField (byte : Nat → UInt8) (c : Cursor) :
    remainingLength byte c =
      let field := lengthField byte c
      ⟨field.length + overrun field,Base128.value field,
        ⟨c.pos + (field.length + overrun field),(c.advance field.length).reads⟩⟩ := by
  have after := (bufcharField byte maxRemainingLengthBytes c).1
  simp only [remainingLength, mqttPacketDecodeBuf, mqttPacketDecodeField, after]
  rfl

/- A length field that lies behind the cursor is what the reader makes of it. -/
theorem lengthFieldHolds {byte : Nat → UInt8} {c : Cursor} {field : List UInt8}
    (there : Memory.Holds byte c.pos field) (ended : Base128.terminated field = true)
    (short : field.length ≤ maxRemainingLengthBytes) : lengthField byte c = field :=
  (Base128.fieldExact (bufchar byte) (fun bs c => Memory.Holds byte c.pos bs)
    (fun _ _ _ holds => ⟨congrArg Option.some holds.1,holds.2⟩) field maxRemainingLengthBytes c ended short there).1

/- A length of any size, of which the reader looks at no more than four bytes. -/
theorem lengthFieldCut {byte : Nat → UInt8} {c : Cursor} {length : Nat}
    (there : Memory.Holds byte c.pos (mqttPacketEncode length)) :
    lengthField byte c = (Base128.encode length).take maxRemainingLengthBytes := by
  rw [mqttPacketEncodeEncodes] at there
  exact (Base128.fieldAhead (bufchar byte) (fun bs c => Memory.Holds byte c.pos bs)
    (fun _ _ _ holds => ⟨congrArg Option.some holds.1,holds.2⟩) _ maxRemainingLengthBytes c
    (Base128.encodeTerminated length) there).1

theorem mylenHolds {byte : Nat → UInt8} {c : Cursor} {length : Nat}
    (there : Memory.Holds byte c.pos (mqttPacketEncode length)) :
    (remainingLength byte c).mylen = length % 2 ^ 28 := by
  rw [remainingLengthField, lengthFieldCut there]
  exact Base128.valueTake 4 length

/- The returned length of a field too long is five, where the packet writes it in five. -/
theorem overlongHolds {byte : Nat → UInt8} {c : Cursor} {length : Nat} (long : 2 ^ 28 ≤ length)
    (there : Memory.Holds byte c.pos (mqttPacketEncode length)) : (remainingLength byte c).rc = 5 := by
  have cut : maxRemainingLengthBytes < (Base128.encode length).length := by
    have bound := Base128.valueBound (Base128.encode length)
    rw [Base128.valueEncode] at bound
    by_contra short
    have scale : 128 ^ (Base128.encode length).length ≤ 128 ^ 4 :=
      Nat.pow_le_pow_right (by omega) (Nat.le_of_not_lt short)
    omega
  have size : ((Base128.encode length).take maxRemainingLengthBytes).length = 4 := by
    rw [List.length_take, Nat.min_eq_left (Nat.le_of_lt cut)]
    rfl
  rw [remainingLengthField, lengthFieldCut there]
  simp only [size, overrun, Base128.terminatedTake (Base128.encodeTerminated length) cut]
  rfl

theorem decodeBufField {byte : Nat → UInt8} {c : Cursor} {field : List UInt8} (there : Memory.Holds byte c.pos field)
    (ended : Base128.terminated field = true) (short : field.length ≤ maxRemainingLengthBytes) :
    mqttPacketDecodeBuf byte c = ⟨field.length,Base128.value field,c.advance field.length⟩ := by
  have taken := lengthFieldHolds there ended short
  have after := (bufcharField byte maxRemainingLengthBytes c).1
  unfold lengthField at taken
  rw [taken] at after
  simp only [mqttPacketDecodeBuf, mqttPacketDecodeField, taken, after, ended, if_true, Nat.add_zero]

theorem decodeBufHolds {byte : Nat → UInt8} {c : Cursor} {length : Nat} (bound : length < 128 ^ 4)
    (there : Memory.Holds byte c.pos (mqttPacketEncode length)) :
    mqttPacketDecodeBuf byte c =
      ⟨(mqttPacketEncode length).length,length,c.advance (mqttPacketEncode length).length⟩ := by
  rw [mqttPacketEncodeEncodes] at *
  rw [decodeBufField there (Base128.encodeTerminated length) (Base128.encodeLength 3 length bound), Base128.valueEncode]

theorem remainingLengthHolds {byte : Nat → UInt8} {c : Cursor} {length : Nat} (bound : length < 128 ^ 4)
    (there : Memory.Holds byte c.pos (mqttPacketEncode length)) :
    remainingLength byte c =
      ⟨(mqttPacketEncode length).length,length,c.advance (mqttPacketEncode length).length⟩ := by
  unfold remainingLength
  rw [decodeBufHolds bound there]
  rfl

/- An acknowledgement in its canonical form. -/
theorem ackHolds {byte : Nat → UInt8} {header : UInt8} {id : UInt64}
    (there : Memory.Holds byte 0 (header :: (mqttPacketEncode 8 ++ writeInt64 id))) (buflen : Nat) :
    let out := mqttDeserializeAck byte buflen
    out.rc = 1 ∧ out.packettype = MqttHeader.type header ∧ out.packetid = some id := by
  obtain ⟨first,rest⟩ := there
  obtain ⟨length,body⟩ := Memory.holdsAppend.mp rest
  have small : 8 < 128 ^ 4 := by decide
  have remaining : remainingLength byte ⟨1,[0]⟩ = ⟨1,8,(Cursor.mk 1 [0]).advance 1⟩ :=
    remainingLengthHolds small length
  have packetid : readInt64 byte ((Cursor.mk 1 [0]).advance 1) = (id,_) := readInt64Written body
  have start : readChar byte ⟨0,[]⟩ = (header,⟨1,[0]⟩) := by rw [← first]; rfl
  simp [mqttDeserializeAck, start, remaining, packetid]

end YunbaIot.MqttDeserialize
