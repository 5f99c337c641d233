import YunbaIot.SelfFraming

/-! What MQTTDeserialize_publish makes of the bytes MQTTSerialize_publish writes. -/
namespace YunbaIot.PublishRoundTrip
open MqttPacket MqttDeserialize MqttSerialize ControlPacket SelfFraming

/- Everything a PUBLISH carries, as slices of the buffer it was read from. -/
structure Yields (byte : Nat → UInt8) (out : PublishOut) (dup qos retained : Nat) (packetid : Option UInt64)
    (topic payload : List UInt8) : Prop where
  rc : out.rc = 1
  dup : out.dup = some dup
  qos : out.qos = some qos
  retained : out.retained = some retained
  packetid : out.packetid = packetid
  topic : ∃ start, out.topicData = some start ∧ out.topicLen = some topic.length ∧
    Memory.slice byte start topic.length = topic
  payload : ∃ start, out.payload = some start ∧ out.payloadlen = some (payload.length : Int) ∧
    Memory.slice byte start payload.length = payload

/- The flags of the header, read back bit by bit. -/
theorem flagsBack {dup qos retained : Nat} (flags : dup < 2 ∧ qos < 4 ∧ retained < 2) :
    let header := MqttHeader.byte MsgType.publish.code dup (qosBits qos) retained
    MqttHeader.type header = MsgType.publish.code ∧ MqttHeader.dup header = dup ∧ MqttHeader.qos header = qos ∧
      MqttHeader.retain header = retained := by
  refine ⟨?_,?_,?_,?_⟩
  · rw [MqttHeader.typeByte]
    rfl
  · rw [MqttHeader.dupByte]
    omega
  · rw [MqttHeader.qosByte, qosBits]
    omega
  · rw [MqttHeader.retainByte]
    omega

theorem publishYields {byte : Nat → UInt8} {dup qos retained body : Nat} {packetid : UInt64} {topicName : MqttString}
    {payload : List UInt8} (flags : dup < 2 ∧ qos < 4 ∧ retained < 2) (single : Single topicName)
    (short : mqttstrlen topicName ≤ 65535)
    (there : Framed byte (Request.publish dup qos retained packetid topicName payload).frame body) (buflen : Nat) :
    Yields byte (mqttDeserializePublish byte buflen) dup qos retained (if 0 < qos then some packetid else none)
      (stringBytes topicName) payload := by
  obtain ⟨header,remaining,holds,behind⟩ := there
  simp only [Request.frame] at header remaining holds
  obtain ⟨type,dupBit,qosBit,retainBit⟩ := flagsBack flags
  rw [← header] at type dupBit qosBit retainBit
  have place := bodyPlace behind [0]
  have idSize := idLength (qos : Int) packetid
  have size : (publishBody qos packetid topicName payload).length = 2 + mqttstrlen topicName +
      ((if 0 < (qos : Int) then writeInt64 packetid else []).length + payload.length) := by
    simp only [publishBody, List.length_append, writeMqttStringLength single]
  obtain ⟨topicThere,rest⟩ := Memory.holdsAppend.mp holds
  obtain ⟨idThere,payloadThere⟩ := Memory.holdsAppend.mp rest
  rw [← place] at topicThere
  obtain ⟨reads,read,content⟩ := readStringWritten (body + (publishBody qos packetid topicName payload).length)
    single short topicThere (by rw [place, size]; omega)
  rw [place] at read content
  rw [writeMqttStringLength single, ← Nat.add_assoc] at idThere payloadThere
  have topic : Memory.slice byte (body + 2) (stringBytes topicName).length = stringBytes topicName := by
    rw [← mqttstrlenBytes]
    exact content
  have payloadAt := Memory.sliceOfHolds payloadThere
  have before : ¬ body + (publishBody qos packetid topicName payload).length < body + 2 + mqttstrlen topicName := by
    omega
  unfold mqttDeserializePublish
  simp only [readCharFirst, type, dupBit, qosBit, retainBit, remaining, place, read, ne_eq, not_true_eq_false, if_false,
    Int.one_ne_zero, before, or_self]
  split
  · rename_i acknowledged
    have natural : 0 < (qos : Int) := by omega
    simp only [natural, if_true] at idThere idSize size payloadAt
    have id : readInt64 byte ⟨body + 2 + mqttstrlen topicName,reads⟩ = (packetid,_) := readInt64Written idThere
    rw [id]
    refine ⟨rfl,rfl,rfl,rfl,rfl,⟨_,rfl,by rw [mqttstrlenBytes],topic⟩,⟨_,rfl,?_,payloadAt⟩⟩
    simp only [Cursor.advance, Option.some.injEq]
    omega
  · rename_i plain
    have natural : ¬ 0 < (qos : Int) := by omega
    simp only [natural, if_false] at idSize size payloadAt
    refine ⟨rfl,rfl,rfl,rfl,rfl,⟨_,rfl,by rw [mqttstrlenBytes],topic⟩,⟨_,rfl,?_,payloadAt⟩⟩
    simp only [Option.some.injEq]
    omega

theorem publishWellFormed {topicName : MqttString} (single : Single topicName) (dup : Nat) (qos : Int) (retained : Nat)
    (packetid : UInt64) (payload : List UInt8) :
    (Request.publish dup qos retained packetid topicName payload).WellFormed := by
  refine ⟨fun s inside => ?_,fun options same => by cases same⟩
  rw [List.mem_singleton.mp inside]
  exact single

/-- A PUBLISH that is serialized is read back with every flag, id, topic and payload it had. -/
theorem publishRoundTrip (dup retained : Fin 2) (qos : Fin 4) (packetid : UInt64) (topicName : MqttString)
    (single : Single topicName) (short : mqttstrlen topicName ≤ 65535) (payload : List UInt8) (buflen : Int)
    (bound : mqttSerializePublishLength qos topicName payload.length < lengthLimit)
    (accepted : 0 < (mqttSerializePublish buflen dup qos retained packetid topicName payload).rc)
    (byte : Nat → UInt8)
    (there : Memory.Holds byte 0 (mqttSerializePublish buflen dup qos retained packetid topicName payload).written)
    (buflen' : Nat) :
    Yields byte (mqttDeserializePublish byte buflen') dup qos retained
      (if 0 < (qos : Nat) then some packetid else none) (stringBytes topicName) payload := by
  have whole := publishWellFormed single dup (qos : Nat) retained packetid payload
  have same := serializeFrame whole buflen
  have size := remainingCounts whole
  simp only [Request.serialize, Request.remaining] at same size
  rw [same] at accepted there
  rw [size] at bound
  rw [serializeWritten accepted] at there
  exact publishYields ⟨dup.isLt,qos.isLt,retained.isLt⟩ single short (framed bound there) buflen'

/- Topic a, payload b, QoS 1, dup and retained set. -/
def lettersPublish : Serialized :=
  mqttSerializePublish 32 (1 : Fin 2) (1 : Fin 4) (1 : Fin 2) 0x0102030405060708 ⟨none,some [0x61]⟩ [0x62]
def lettersBuffer : Nat → UInt8 := ((Memory.ofList []).store 0 lettersPublish.written).byte

theorem lettersRoundTrip : Yields lettersBuffer (mqttDeserializePublish lettersBuffer 32) 1 1 1
    (some 0x0102030405060708) [0x61] [0x62] :=
  publishRoundTrip 1 1 1 0x0102030405060708 ⟨none,some [0x61]⟩ (Or.inl rfl) (by decide) [0x62] 32 (by decide)
    (by decide) lettersBuffer (Memory.holdsStore _ 0 _) 32

end YunbaIot.PublishRoundTrip
