import YunbaIot.MqttDeserialize
import YunbaIot.MqttSerialize

/-! A control packet as a header byte and a body: the serializers that compute a length
write frames, and a deserializer finds the body of a frame behind its length field. -/
namespace YunbaIot.ControlPacket
open MqttPacket MqttDeserialize MqttSerialize

structure Frame where
  header : UInt8
  body : List UInt8

def Frame.bytes (f : Frame) : List UInt8 := f.header :: (mqttPacketEncode f.body.length ++ f.body)

/- MQTTPacket_len decides, then the frame is written. -/
def Frame.serialize (buflen : Int) (f : Frame) : Serialized :=
  if buflen < mqttPacketLen f.body.length then tooShort else done f.bytes

/- The largest body a length field of four bytes can announce is one byte shorter. -/
def lengthLimit : Nat := 2 ^ 28

theorem bytesLength (f : Frame) : f.bytes.length = 1 + (mqttPacketEncode f.body.length).length + f.body.length := by
  simp only [Frame.bytes, List.length_cons, List.length_append]
  omega

/- The estimate of MQTTPacket_len covers the frame. -/
theorem estimateCovers {f : Frame} (bound : f.body.length < lengthLimit) :
    f.bytes.length ≤ mqttPacketLen f.body.length := by
  have one := Base128.encodeLength 0 f.body.length
  have two := Base128.encodeLength 1 f.body.length
  have three := Base128.encodeLength 2 f.body.length
  have four := Base128.encodeLength 3 f.body.length bound
  rw [← mqttPacketEncodeEncodes] at one two three four
  simp only [Nat.zero_add, Nat.reduceAdd, Nat.reducePow] at one two three four
  rw [bytesLength]
  unfold mqttPacketLen
  dsimp only
  split
  · have fits := one (by omega)
    omega
  · split
    · have fits := two (by omega)
      omega
    · split
      · have fits := three (by omega)
        omega
      · omega

theorem serializeWritten {buflen : Int} {f : Frame} (accepted : 0 < (f.serialize buflen).rc) :
    f.serialize buflen = done f.bytes := by
  unfold Frame.serialize at accepted ⊢
  split
  · rename_i short
    rw [if_pos short] at accepted
    cases accepted
  · rfl

/- What stands in a buffer that holds a frame. -/
structure Framed (byte : Nat → UInt8) (f : Frame) (body : Nat) : Prop where
  header : byte 0 = f.header
  remaining : ∀ reads, remainingLength byte ⟨1,reads⟩ = ⟨body - 1,f.body.length,(Cursor.mk 1 reads).advance (body - 1)⟩
  holds : Memory.Holds byte body f.body
  behind : 1 < body

def bodyAt (f : Frame) : Nat := 1 + (mqttPacketEncode f.body.length).length

theorem framed {byte : Nat → UInt8} {f : Frame} (bound : f.body.length < lengthLimit)
    (there : Memory.Holds byte 0 f.bytes) : Framed byte f (bodyAt f) := by
  obtain ⟨header,rest⟩ := there
  obtain ⟨length,body⟩ := Memory.holdsAppend.mp rest
  have positive := Base128.encodePositive f.body.length
  rw [← mqttPacketEncodeEncodes] at positive
  have place : bodyAt f - 1 = (mqttPacketEncode f.body.length).length := by
    unfold bodyAt
    omega
  refine ⟨header,fun reads => ?_,body,by unfold bodyAt; omega⟩
  rw [place]
  exact remainingLengthHolds bound length

theorem bodyPlace {body : Nat} (behind : 1 < body) (reads : List Nat) :
    ((Cursor.mk 1 reads).advance (body - 1)).pos = body := Nat.add_sub_of_le (Nat.le_of_lt behind)

/-! Strings -/

/- At most one of the two representations is set. -/
def Single (s : MqttString) : Prop := s.cstring = none ∨ s.lenstring = none
instance (s : MqttString) : Decidable (Single s) := inferInstanceAs (Decidable (_ ∨ _))

def stringBytes (s : MqttString) : List UInt8 :=
  match s.cstring with
  | some c => c.bytes
  | none => s.lenstring.getD []

theorem mqttstrlenBytes (s : MqttString) : mqttstrlen s = (stringBytes s).length := by
  obtain ⟨cstring,lenstring⟩ := s
  cases cstring <;> rfl

theorem writeMqttStringBytes {s : MqttString} (single : Single s) :
    writeMqttString s = writeInt (stringBytes s).length ++ stringBytes s := by
  obtain ⟨cstring,lenstring⟩ := s
  unfold writeMqttString stringBytes
  rcases single with no | no
  · simp only at no
    subst no
    cases lenstring with
    | none => rfl
    | some bs =>
      cases bs with
      | nil => rfl
      | cons b bs => rfl
  · simp only at no
    subst no
    cases cstring with
    | none => rfl
    | some c => rfl

@[simp] theorem writeIntLength (n : Nat) : (writeInt n).length = 2 := rfl

theorem writeMqttStringLength {s : MqttString} (single : Single s) : (writeMqttString s).length = 2 + mqttstrlen s := by
  rw [writeMqttStringBytes single, mqttstrlenBytes]
  simp

/- A string read where it was written. -/
theorem readStringWritten {byte : Nat → UInt8} {c : Cursor} {s : MqttString} (enddata : Nat) (single : Single s)
    (short : mqttstrlen s ≤ 65535) (there : Memory.Holds byte c.pos (writeMqttString s))
    (inside : c.pos + 2 + mqttstrlen s ≤ enddata) :
    ∃ reads, readMqttLenString byte c enddata =
        ⟨1,some (mqttstrlen s),some (c.pos + 2),⟨c.pos + 2 + mqttstrlen s,reads⟩⟩ ∧
      Memory.slice byte (c.pos + 2) (mqttstrlen s) = stringBytes s := by
  rw [writeMqttStringBytes single, ← mqttstrlenBytes] at there
  obtain ⟨length,bytes⟩ := Memory.holdsAppend.mp there
  have read : readInt byte c = (mqttstrlen s,c.advance 2) := readIntWritten (by omega) length
  have content : Memory.slice byte (c.pos + 2) (mqttstrlen s) = stringBytes s := by
    rw [mqttstrlenBytes]
    exact Memory.sliceOfHolds bytes
  have room : c.pos + 1 < enddata := by omega
  have ends : (c.advance 2).pos + mqttstrlen s ≤ enddata := inside
  refine ⟨(c.advance 2).reads,?_,content⟩
  unfold readMqttLenString
  rw [if_pos room, read]
  dsimp only
  rw [if_pos ends]
  rfl

end YunbaIot.ControlPacket
