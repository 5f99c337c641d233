import YunbaIot.MqttServer

/-! SUBACK and UNSUBACK between the server's serializers and the client's deserializers:
two bytes of the packet id are written where eight are read. -/
namespace YunbaIot.GrantRoundTrip
open MqttPacket MqttDeserialize MqttSerialize MqttServer

inductive Grant where
  | suback (packetid : UInt64) (grantedQoSs : List Int)
  | unsuback (packetid : UInt64)

def Grant.packetid : Grant → UInt64
  | .suback packetid _ => packetid
  | .unsuback packetid => packetid

def Grant.codes : Grant → List Int
  | .suback _ grantedQoSs => grantedQoSs
  | .unsuback _ => []

def Grant.serialize (buflen : Int) : Grant → Serialized
  | .suback packetid grantedQoSs => mqttSerializeSuback buflen packetid grantedQoSs
  | .unsuback packetid => mqttSerializeUnsuback buflen packetid

structure SubackYields (out : SubackOut) (id : UInt64) (codes : List Int) : Prop where
  rc : out.rc = 1
  packetid : out.packetid = some id
  count : out.count = some codes.length
  granted : out.granted.map (fun b => (b.toNat : Int)) = codes

/- The deserializer of the same packet type gives back what was serialized. -/
def Grant.Returns (byte : Nat → UInt8) (maxcount buflen : Nat) : Grant → Prop
  | .suback packetid grantedQoSs =>
    SubackYields (mqttDeserializeSuback byte maxcount buflen) packetid grantedQoSs
  | .unsuback packetid =>
    (mqttDeserializeUnsuback byte buflen).rc = 1 ∧
      (mqttDeserializeUnsuback byte buflen).packetid = some packetid

def Grant.type : Grant → MsgType
  | .suback .. => .suback
  | .unsuback _ => .unsuback

def Grant.bytes (g : Grant) : List UInt8 :=
  MqttHeader.byte g.type.code 0 0 0 :: (mqttPacketEncode (2 + g.codes.length) ++
    (writeSigned (toInt g.packetid) ++ g.codes.map UInt8.ofInt))

theorem serializeWritten {g : Grant} {buflen : Int} (accepted : 0 < (g.serialize buflen).rc) :
    (g.serialize buflen).written = g.bytes := by
  cases g with
  | suback packetid grantedQoSs =>
    simp only [Grant.serialize, mqttSerializeSuback] at accepted ⊢
    split
    · rename_i short
      rw [if_pos short] at accepted
      cases accepted
    · simp [done, Grant.bytes, Grant.codes, Grant.packetid, Grant.type]
  | unsuback packetid =>
    simp only [Grant.serialize, mqttSerializeUnsuback] at accepted ⊢
    split
    · rename_i short
      rw [if_pos short] at accepted
      cases accepted
    · simp [done, Grant.bytes, Grant.codes, Grant.packetid, Grant.type]

/-! Without a code the packet has four bytes, and the id is read out of them and the six behind -/

def emptyBytes (type : MsgType) (id : UInt64) : List UInt8 :=
  MqttHeader.byte type.code 0 0 0 :: (mqttPacketEncode 2 ++ writeSigned (toInt id))

/- The two bytes written and the six that lay behind them spell the id. -/
def Spelled (m : Memory) (id : UInt64) : Prop :=
  writeInt64 id = writeSigned (toInt id) ++ Memory.slice m.byte 4 6
instance (m : Memory) (id : UInt64) : Decidable (Spelled m id) := inferInstanceAs (Decidable (_ = _))

structure EmptyRead (byte : Nat → UInt8) (type : MsgType) : Prop where
  header : readChar byte ⟨0,[]⟩ = (MqttHeader.byte type.code 0 0 0,⟨1,[0]⟩)
  remaining : remainingLength byte ⟨1,[0]⟩ = ⟨1,2,⟨2,[0,1]⟩⟩

theorem emptyRead (m : Memory) (type : MsgType) (id : UInt64) : EmptyRead (m.store 0 (emptyBytes type id)).byte type where
  header := rfl
  remaining := by
    have length : Memory.Holds (m.store 0 (emptyBytes type id)).byte 1 (mqttPacketEncode 2) := ⟨rfl,trivial⟩
    have small : 2 < 128 ^ 4 := by decide
    exact remainingLengthHolds small length

theorem idRead (m : Memory) (type : MsgType) (id : UInt64) :
    (readInt64 (m.store 0 (emptyBytes type id)).byte ⟨2,[0,1]⟩).1 = id ↔ Spelled m id := by
  have written : Memory.slice (m.store 0 (emptyBytes type id)).byte 2 8 =
      writeSigned (toInt id) ++ Memory.slice m.byte 4 6 := rfl
  unfold Spelled
  constructor
  · intro same
    have value := congrArg UInt64.toNat same
    rw [readInt64Value, written, ← writeInt64Value] at value
    have bytes : writeSigned (toInt id) ++ Memory.slice m.byte 4 6 = writeInt64 id :=
      BigEndian.valueInjective rfl value
    exact bytes.symm
  · intro same
    apply UInt64.toNat_inj.mp
    rw [readInt64Value, written, ← same, writeInt64Value]

theorem unsubackExact (m : Memory) (id : UInt64) (buflen : Nat) :
    let out := mqttDeserializeUnsuback (m.store 0 (emptyBytes .unsuback id)).byte buflen
    (out.rc = 1 ∧ out.packetid = some id) ↔ Spelled m id := by
  have read := emptyRead m .unsuback id
  have type : MqttHeader.type (MqttHeader.byte MsgType.unsuback.code 0 0 0) = MsgType.unsuback.code := rfl
  simp only [mqttDeserializeUnsuback, mqttDeserializeAck, read.header, read.remaining, type, Nat.lt_irrefl, if_false,
    if_true, true_and, Option.some.injEq]
  exact idRead m .unsuback id

theorem emptySubackExact (m : Memory) (id : UInt64) (maxcount buflen : Nat) :
    SubackYields (mqttDeserializeSuback (m.store 0 (emptyBytes .suback id)).byte maxcount buflen) id [] ↔
      Spelled m id := by
  have read := emptyRead m .suback id
  have type : MqttHeader.type (MqttHeader.byte MsgType.suback.code 0 0 0) = MsgType.suback.code := rfl
  rw [← idRead m .suback id]
  simp only [mqttDeserializeSuback, read.header, read.remaining, type, ne_eq, not_true_eq_false, Nat.lt_irrefl, if_false]
  constructor
  · intro back
    exact Option.some.inj back.packetid
  · intro same
    exact ⟨rfl,congrArg some same,rfl,rfl⟩

/-! With codes the id takes the place of some of them -/

theorem subackLoopLength (byte : Nat → UInt8) (maxcount enddata left : Nat) (granted : List UInt8) (c : Cursor) :
    (subackLoop byte maxcount enddata left granted c).granted.length ≤ granted.length + left := by
  induction left generalizing granted c with
  | zero => exact Nat.le_refl _
  | succ left ih =>
    unfold subackLoop
    split
    · split
      · exact Nat.le_add_right ..
      · have rest := ih (granted ++ [(readChar byte c).1]) (readChar byte c).2
        rw [List.length_append, List.length_singleton] at rest
        exact Nat.le_trans rest (by omega)
    · exact Nat.le_add_right ..

theorem codesNever {byte : Nat → UInt8} {id : UInt64} {codes : List Int} (granting : codes ≠ []) {tail : List UInt8}
    (there : Memory.Holds byte 0
      (MqttHeader.byte MsgType.suback.code 0 0 0 :: (mqttPacketEncode (2 + codes.length) ++ tail)))
    (maxcount buflen : Nat) : ¬ SubackYields (mqttDeserializeSuback byte maxcount buflen) id codes := by
  intro back
  obtain ⟨header,rest⟩ := there
  obtain ⟨length,_⟩ := Memory.holdsAppend.mp rest
  have type : MqttHeader.type (byte 0) = MsgType.suback.code := by rw [header]; rfl
  have mylen : (remainingLength byte ⟨1,[0]⟩).mylen = (2 + codes.length) % 2 ^ 28 := mylenHolds length
  have count := back.count
  have positive := List.length_pos_iff.mpr granting
  simp only [mqttDeserializeSuback, readCharFirst, type, ne_eq, not_true_eq_false, if_false] at count
  split at count
  · cases count
  · rename_i long
    have few := subackLoopLength byte maxcount
      ((remainingLength byte ⟨1,[0]⟩).curdata.pos + (remainingLength byte ⟨1,[0]⟩).mylen)
      ((remainingLength byte ⟨1,[0]⟩).curdata.pos + (remainingLength byte ⟨1,[0]⟩).mylen -
        (readInt64 byte (remainingLength byte ⟨1,[0]⟩).curdata).2.pos) []
      (readInt64 byte (remainingLength byte ⟨1,[0]⟩).curdata).2
    have whole := Option.some.inj count
    have after : (readInt64 byte (remainingLength byte ⟨1,[0]⟩).curdata).2.pos =
        (remainingLength byte ⟨1,[0]⟩).curdata.pos + 8 := rfl
    have cut := Nat.mod_le (2 + codes.length) (2 ^ 28)
    rw [List.length_nil] at few
    omega

/-- An acknowledgement comes back exactly when it grants nothing and the bytes behind it
happen to complete its packet id. -/
theorem grantExact (g : Grant) (buflen : Int) (accepted : 0 < (g.serialize buflen).rc) (m : Memory)
    (maxcount buflen' : Nat) :
    g.Returns (m.store 0 (g.serialize buflen).written).byte maxcount buflen' ↔ g.codes = [] ∧ Spelled m g.packetid := by
  rw [serializeWritten accepted]
  cases g with
  | suback packetid grantedQoSs =>
    cases grantedQoSs with
    | nil =>
      have bytes : (Grant.suback packetid []).bytes = emptyBytes .suback packetid := rfl
      rw [bytes]
      simpa [Grant.Returns, Grant.codes, Grant.packetid] using emptySubackExact m packetid maxcount buflen'
    | cons code codes =>
      constructor
      · intro back
        exact absurd back (codesNever (List.cons_ne_nil code codes) (Memory.holdsStore m 0 _) maxcount buflen')
      · intro none
        cases none.1
  | unsuback packetid =>
    have bytes : (Grant.unsuback packetid).bytes = emptyBytes .unsuback packetid := rfl
    rw [bytes]
    simpa [Grant.Returns, Grant.codes, Grant.packetid] using unsubackExact m packetid buflen'

/-! Two acknowledgements under id 7 in a cleared buffer -/

def grantSeven : Grant := .suback 7 [1]
def doneSeven : Grant := .unsuback 7
def clearedAfter (g : Grant) : Nat → UInt8 := ((Memory.ofList []).store 0 (g.serialize 32).written).byte

theorem doneSevenLost : ¬ doneSeven.Returns (clearedAfter doneSeven) 4 32 := by
  intro back
  have exact := (grantExact doneSeven 32 (by decide) (Memory.ofList []) 4 32).mp back
  exact absurd exact.2 (by decide)

/- Both are reported as success, without the code and under another id. -/
theorem sevensShifted :
    (mqttDeserializeSuback (clearedAfter grantSeven) 4 32).rc = 1 ∧
      (mqttDeserializeSuback (clearedAfter grantSeven) 4 32).count = some 0 ∧
      ¬ grantSeven.Returns (clearedAfter grantSeven) 4 32 ∧
      (mqttDeserializeUnsuback (clearedAfter doneSeven) 32).rc = 1 ∧
      (mqttDeserializeUnsuback (clearedAfter doneSeven) 32).packetid = some 0x0007000000000000 ∧
      ¬ doneSeven.Returns (clearedAfter doneSeven) 4 32 := by
  have count : (mqttDeserializeSuback (clearedAfter grantSeven) 4 32).count = some 0 := by decide
  have id : (mqttDeserializeUnsuback (clearedAfter doneSeven) 32).packetid = some 0x0007000000000000 := by decide
  refine ⟨by decide,count,fun back => ?_,by decide,id,fun back => ?_⟩
  · have one := back.count
    rw [count] at one
    cases one
  · have seven := back.2
    rw [id] at seven
    exact absurd seven (by decide)

end YunbaIot.GrantRoundTrip
