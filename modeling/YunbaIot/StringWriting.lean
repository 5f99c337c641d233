import YunbaIot.ControlPacket
import YunbaIot.PublishGrammar

/-! writeMQTTString against MQTTstrlen and readMQTTLenString: which strings take the room
that was counted for them and are read back. -/
namespace YunbaIot.StringWriting
open MqttPacket
open PublishGrammar (topicLength stringFits)

/- The bytes behind the length: the length-delimited form is preferred, where MQTTstrlen
prefers the C string. -/
def written (s : MqttString) : List UInt8 :=
  if 0 < s.lenstringLen then s.lenstring.getD []
  else match s.cstring with
    | some c => c.bytes
    | none => []

theorem writeMqttStringWritten (s : MqttString) : writeMqttString s = writeInt (written s).length ++ written s := by
  unfold writeMqttString written
  split
  · rfl
  · cases s.cstring with
    | none => rfl
    | some c => rfl

theorem writtenLength (s : MqttString) : (writeMqttString s).length = 2 + (written s).length := by
  rw [writeMqttStringWritten, List.length_append, ControlPacket.writeIntLength]

theorem writeIntValue (n : Nat) : BigEndian.value (writeInt n) = n % 65536 := by
  simp only [writeInt, BigEndian.value, List.foldl_cons, List.foldl_nil, UInt8.toNat_ofNat']
  omega

/- readMQTTLenString on the string where it was written. -/
structure ReadBack (byte : Nat → UInt8) (c : Cursor) (enddata : Nat) (bytes : List UInt8) : Prop where
  rc : (readMqttLenString byte c enddata).rc = 1
  data : ∃ start n, (readMqttLenString byte c enddata).data = some start ∧
    (readMqttLenString byte c enddata).len = some n ∧ Memory.slice byte start n = bytes
  behind : (readMqttLenString byte c enddata).cursor.pos = c.pos + 2 + bytes.length

structure Agrees (s : MqttString) : Prop where
  advance : (writeMqttString s).length = 2 + mqttstrlen s
  announced : BigEndian.value ((writeMqttString s).take 2) = ((writeMqttString s).drop 2).length
  back : ∀ byte c enddata, Memory.Holds byte c.pos (writeMqttString s) →
    c.pos + (writeMqttString s).length ≤ enddata → ReadBack byte c enddata ((writeMqttString s).drop 2)

/- Where both forms are set they are equally long. -/
def SameLength (s : MqttString) : Prop := ∀ c, s.cstring = some c → 0 < s.lenstringLen → strlen c = s.lenstringLen

theorem countedExact (s : MqttString) : (written s).length = mqttstrlen s ↔ SameLength s := by
  obtain ⟨cstring,lenstring⟩ := s
  unfold written mqttstrlen SameLength MqttString.lenstringLen
  cases cstring with
  | none =>
    simp only [reduceCtorEq, false_implies, implies_true, iff_true]
    split
    · rfl
    · rename_i empty
      simp only [List.length_nil]
      omega
  | some c =>
    simp only [Option.some.injEq, forall_eq']
    split
    · rename_i long
      exact ⟨fun same _ => same.symm,fun same => (same long).symm⟩
    · rename_i empty
      exact ⟨fun _ long => absurd long empty,fun _ => rfl⟩

theorem writtenDrop (s : MqttString) : (writeMqttString s).drop 2 = written s := by
  rw [writeMqttStringWritten]
  rfl

theorem announcedExact (s : MqttString) :
    BigEndian.value ((writeMqttString s).take 2) = ((writeMqttString s).drop 2).length ↔ (written s).length ≤ 65535 := by
  have length : (writeMqttString s).take 2 = writeInt (written s).length := by
    rw [writeMqttStringWritten]
    rfl
  rw [length, writtenDrop, writeIntValue]
  omega

theorem readBack {s : MqttString} (short : (written s).length ≤ 65535) {byte : Nat → UInt8} {c : Cursor} {enddata : Nat}
    (there : Memory.Holds byte c.pos (writeMqttString s)) (inside : c.pos + (writeMqttString s).length ≤ enddata) :
    ReadBack byte c enddata (written s) := by
  rw [writtenLength] at inside
  rw [writeMqttStringWritten] at there
  obtain ⟨length,bytes⟩ := Memory.holdsAppend.mp there
  have counted : topicLength byte c.pos = (written s).length := by
    have read := Memory.sliceOfHolds length
    unfold topicLength
    rw [show 2 = (writeInt (written s).length).length from rfl, read, writeIntValue]
    omega
  have fits : c.pos + 2 + topicLength byte c.pos ≤ enddata := by
    rw [counted]
    omega
  have out := stringFits fits
  rw [counted] at out
  refine ⟨by rw [out],⟨c.pos + 2,(written s).length,by rw [out],by rw [out],Memory.sliceOfHolds bytes⟩,by rw [out]⟩

/-- A string is written in the room MQTTstrlen counts and read back from there exactly when its
two forms, where both are set, have one length and this is a number of two bytes. -/
theorem stringWritingExact (s : MqttString) : Agrees s ↔ SameLength s ∧ mqttstrlen s ≤ 65535 := by
  have counted := countedExact s
  have size := writtenLength s
  constructor
  · intro agrees
    have same : (written s).length = mqttstrlen s := by
      have advance := agrees.advance
      omega
    exact ⟨counted.mp same,same ▸ (announcedExact s).mp agrees.announced⟩
  · rintro ⟨same,short⟩
    have length := counted.mpr same
    rw [← length] at short
    refine ⟨by omega,(announcedExact s).mpr short,fun byte c enddata there inside => ?_⟩
    rw [writtenDrop]
    exact readBack short there inside

def bothForms : MqttString := ⟨some ⟨[],List.forall_mem_nil _⟩,some [98,99]⟩
def longString : MqttString := ⟨none,some (List.replicate 65536 97)⟩

/- No byte is counted and two are written, and 65536 bytes are announced as none. -/
theorem bothFormsDisagree : ¬ Agrees bothForms ∧ ¬ Agrees longString := by
  refine ⟨fun agrees => ?_,fun agrees => ?_⟩
  · exact absurd agrees.advance (by decide)
  · have short := (announcedExact longString).mp agrees.announced
    have long : (written longString).length = 65536 := by
      have size : longString.lenstringLen = 65536 := List.length_replicate
      rw [written, if_pos (by rw [size]; decide)]
      exact size
    omega

end YunbaIot.StringWriting
