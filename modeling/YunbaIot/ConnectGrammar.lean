import YunbaIot.MqttServer
import YunbaIot.PublishGrammar

/-! MQTTDeserialize_connect against the grammar of a CONNECT packet: which packets it accepts,
and which bytes it loads. -/
namespace YunbaIot.ConnectGrammar
open MqttPacket MqttDeserialize MqttSerialize MqttServer
open PublishGrammar (bodyAt start topicLength firstByte remaining startWithin stringFits stringCut)

variable (byte : Nat → UInt8) (len : Nat)

/-! Strings one behind the other -/

def afterString (pos : Nat) : Nat := pos + 2 + topicLength byte pos

/- As many strings as `count`, each up to `len`. -/
def Inside : Nat → Nat → Prop
  | 0, _ => True
  | count+1, pos => afterString byte pos ≤ len ∧ Inside count (afterString byte pos)

/- Strings for each of which the code first asks for so many bytes. -/
def Laid : List Nat → Nat → Prop
  | [], _ => True
  | room :: rooms, pos => pos + room ≤ len ∧ afterString byte pos ≤ len ∧ Laid rooms (afterString byte pos)

variable {byte len}

theorem laidInside {rooms : List Nat} {pos : Nat} (laid : Laid byte len rooms pos) :
    Inside byte len rooms.length pos := by
  induction rooms generalizing pos with
  | nil => trivial
  | cons room rooms ih => exact ⟨laid.2.1,ih laid.2.2⟩

theorem readCharAdvance (c : Cursor) : (readChar byte c).2 = c.advance 1 := by
  have next := Cursor.advanceNext byte c 0
  rw [Cursor.advanceZero] at next
  exact next

theorem stringRefused (c : Cursor) : (readMqttLenString byte c len).rc = 0 ↔ len < afterString byte c.pos := by
  by_cases fits : afterString byte c.pos ≤ len
  · rw [stringFits fits]
    simp only [Int.one_ne_zero, false_iff]
    omega
  · simp only [(stringCut (Nat.lt_of_not_le fits)).1, true_iff]
    omega

theorem stringPlace {c : Cursor} (fits : afterString byte c.pos ≤ len) :
    (readMqttLenString byte c len).cursor.pos = afterString byte c.pos := by
  rw [stringFits fits]
  rfl

/- A string is only loaded from where its length was found to be in the buffer. -/
theorem stringWithin (byte : Nat → UInt8) (len : Nat) (c : Cursor) :
    (readMqttLenString byte c len).cursor.Within len ↔ c.Within len := by
  have two : c.pos + 2 ≤ len → ((c.advance 2).Within len ↔ c.Within len) := fun room =>
    (Cursor.withinAdvance c 2 len).trans (and_iff_left (Or.inr room))
  by_cases fits : afterString byte c.pos ≤ len
  · have room : c.pos + 2 ≤ len := by
      unfold afterString at fits
      omega
    rw [stringFits fits]
    exact two room
  · rw [(stringCut (Nat.lt_of_not_le fits)).2]
    split
    · rename_i room
      exact two room
    · exact Iff.rfl

/-! The strings that the flags announce -/

def credentialRooms (flags : UInt8) : List Nat :=
  (if ConnectFlags.username flags ≠ 0 then [3] else []) ++ if ConnectFlags.password flags ≠ 0 then [3] else []
def rooms (flags : UInt8) : List Nat :=
  2 :: ((if ConnectFlags.will flags ≠ 0 then [2,2] else []) ++ credentialRooms flags)

def Paired (flags : UInt8) : Prop := ConnectFlags.password flags ≠ 0 → ConnectFlags.username flags ≠ 0

variable {flags : UInt8} {out : ConnectOut}

theorem credentialsWithin : (readCredentials byte len flags out).cursor.Within len ↔ out.cursor.Within len := by
  unfold readCredentials
  dsimp only
  split_ifs <;> simp only [stringWithin]

theorem willWithin : (readWill byte len flags out).cursor.Within len ↔ out.cursor.Within len := by
  unfold readWill
  dsimp only
  split_ifs <;> simp only [credentialsWithin, stringWithin]

theorem fieldsWithin (byte : Nat → UInt8) (len : Nat) (c : Cursor) :
    (readConnectFields byte len c).cursor.Within len ↔ c.Within len ∧ c.pos + 3 ≤ len := by
  have three : ((readChar byte c).2.advance 2).Within len ↔ c.Within len ∧ c.pos + 3 ≤ len := by
    rw [readCharAdvance, Cursor.advanceAdvance, Cursor.withinAdvance]
    simp
  rw [← three]
  unfold readConnectFields
  dsimp only
  split_ifs <;> simp only [ConnectOut.untouched, willWithin, stringWithin] <;> rfl

theorem laidNil (pos : Nat) : Laid byte len [] pos ↔ True := Iff.rfl

/- One string of those laid out is one that readMQTTLenString does not refuse. -/
theorem laidCons (room : Nat) (rooms : List Nat) (c : Cursor) : Laid byte len (room :: rooms) c.pos ↔
    ¬ len < c.pos + room ∧ ¬ (readMqttLenString byte c len).rc = 0 ∧
      Laid byte len rooms (readMqttLenString byte c len).cursor.pos := by
  by_cases fits : afterString byte c.pos ≤ len
  · simp only [Laid, stringRefused, stringPlace fits, Nat.not_lt]
  · simp only [Laid, stringRefused, Nat.not_lt, fits, false_and, and_false]

theorem laidTwo (rooms : List Nat) (c : Cursor) : Laid byte len (2 :: rooms) c.pos ↔
    ¬ (readMqttLenString byte c len).rc = 0 ∧ Laid byte len rooms (readMqttLenString byte c len).cursor.pos := by
  rw [laidCons, and_iff_right_iff_imp, stringRefused]
  rintro ⟨fits,_⟩
  unfold afterString at fits
  omega

theorem credentialsAccepted (unset : out.rc = 0) : (readCredentials byte len flags out).rc = 1 ↔
    Paired flags ∧ Laid byte len (credentialRooms flags) out.cursor.pos := by
  have other : ¬ out.rc = 1 := by
    rw [unset]
    decide
  unfold readCredentials Paired credentialRooms
  dsimp only
  by_cases username : ConnectFlags.username flags = 0
  · by_cases password : ConnectFlags.password flags = 0
    · simp [username, password, Laid]
    · simp [username, password, other]
  · by_cases password : ConnectFlags.password flags = 0
    · simp only [username, password, ne_eq, not_true_eq_false, not_false_eq_true, if_true, if_false, List.append_nil,
        false_implies, true_and, laidCons, laidNil, and_true]
      split_ifs <;> simp [*]
    · simp only [username, password, ne_eq, not_false_eq_true, if_true, if_false, List.cons_append, List.nil_append,
        true_implies, true_and, laidCons, laidNil, and_true]
      split_ifs <;> simp [*]

theorem willAccepted (unset : out.rc = 0) : (readWill byte len flags out).rc = 1 ↔ Paired flags ∧
    Laid byte len ((if ConnectFlags.will flags ≠ 0 then [2,2] else []) ++ credentialRooms flags) out.cursor.pos := by
  have other : ¬ out.rc = 1 := by
    rw [unset]
    decide
  unfold readWill
  dsimp only
  by_cases will : ConnectFlags.will flags = 0
  · rw [if_pos will, if_neg (not_not.mpr will)]
    exact credentialsAccepted unset
  · rw [if_neg will, if_pos will]
    simp only [List.cons_append, List.nil_append, laidTwo]
    split_ifs
    · simp [*]
    · simp [*]
    · rw [credentialsAccepted (by exact unset)]
      simp [*]

theorem fieldsAccepted (byte : Nat → UInt8) (len : Nat) (c : Cursor) : (readConnectFields byte len c).rc = 1 ↔
    Paired (byte c.pos) ∧ Laid byte len (rooms (byte c.pos)) (c.pos + 3) := by
  have place : c.pos + 3 = ((readInt byte (readChar byte c).2).2).pos := rfl
  unfold readConnectFields rooms
  dsimp only
  rw [place, laidTwo]
  by_cases refused : (readMqttLenString byte (readInt byte (readChar byte c).2).2 len).rc = 0
  · rw [if_pos refused]
    simp [ConnectOut.untouched, refused]
  · have flags : (readChar byte c).1 = byte c.pos := rfl
    rw [if_neg refused, willAccepted (by rfl), flags]
    simp [ConnectOut.untouched, refused]

/-! The packet -/

section Packet
variable (byte : Nat → UInt8) (len : Nat)

def nameLength : Nat := topicLength byte (start byte).pos
def nameAt : Nat := (start byte).pos + 2
def protocolName : List UInt8 := Memory.slice byte (nameAt byte) (nameLength byte)
def versionAt : Nat := afterString byte (start byte).pos
def flagsOf : UInt8 := byte (versionAt byte + 1)

def Supported : Prop :=
  byte (versionAt byte) = 3 ∧ protocolName byte = protocolMqisdp.bytes ∨
    byte (versionAt byte) = 4 ∧ protocolName byte = protocolMqtt.bytes

/- Version, flags and keep-alive are the four bytes behind the name. -/
structure Complete : Prop where
  protocol : Supported byte
  fields : versionAt byte + 4 ≤ len
  strings : Inside byte len (rooms (flagsOf byte)).length (versionAt byte + 4)
  paired : Paired (flagsOf byte)

/- The bytes of the name that memcmp may load, once the name was read. -/
def compared : List Nat := List.range' (nameAt byte) (min protocolMqisdp.bytes.length (nameLength byte))

structure ConnectExact : Prop where
  accepts : (mqttDeserializeConnect byte len).rc = 1 → Complete byte len
  loads : (mqttDeserializeConnect byte len).cursor.Within len
  names : versionAt byte ≤ len → ∀ i ∈ compared byte, i < len

/- The code's comparison, over as many bytes as the shorter name has. -/
def Passes : Prop := mqttPacketCheckVersion byte (nameLength byte) (nameAt byte) (byte (versionAt byte)) = true

/- A name read whole is followed by a version in the buffer, a name that passes by the flags
and the keep-alive, and it is one of the two names or the strings behind do not fit. -/
def Regular : Prop :=
  0 < len ∧ (MqttHeader.type (byte 0) ≠ MsgType.connect.code ∨
    bodyAt byte ≤ len ∧ (versionAt byte ≤ len → versionAt byte < len ∧
      (Passes byte → versionAt byte + 4 ≤ len ∧
        (Supported byte ∨ ¬ (Paired (flagsOf byte) ∧ Laid byte len (rooms (flagsOf byte)) (versionAt byte + 4))))))

end Packet

theorem nameRead : readMqttLenString byte (remainingLength byte (readChar byte ⟨0,[]⟩).2).curdata len =
    readMqttLenString byte (start byte) len := by
  rw [remaining]
  rfl

theorem nameCut (connect : MqttHeader.type (byte 0) = MsgType.connect.code) (cut : ¬ versionAt byte ≤ len) :
    (mqttDeserializeConnect byte len).rc = 0 ∧
      ((mqttDeserializeConnect byte len).cursor.Within len ↔ bodyAt byte ≤ len) := by
  have refused := (stringRefused (start byte)).mpr (Nat.lt_of_not_le cut)
  simp only [mqttDeserializeConnect, firstByte, connect, ne_eq, not_true_eq_false, if_false, nameRead, refused, true_or,
    if_true, ConnectOut.untouched, true_and]
  exact (stringWithin byte len (start byte)).trans (startWithin len)

/- What is loaded and done behind a name that was read. -/
theorem nameWhole (connect : MqttHeader.type (byte 0) = MsgType.connect.code) (whole : versionAt byte ≤ len) :
    ∃ version : Cursor, version.pos = versionAt byte + 1 ∧
      (version.Within len ↔ bodyAt byte ≤ len ∧ versionAt byte < len) ∧
      (¬ Passes byte → mqttDeserializeConnect byte len = .untouched version) ∧
      (Passes byte → mqttDeserializeConnect byte len = readConnectFields byte len version) := by
  let behind : Cursor := ⟨versionAt byte,((start byte).advance 2).reads⟩
  have name : readMqttLenString byte (start byte) len = ⟨1,some (nameLength byte),some (nameAt byte),behind⟩ :=
    stringFits whole
  have within : behind.Within len ↔ bodyAt byte ≤ len := by
    have same := stringWithin byte len (start byte)
    rw [name, startWithin] at same
    exact same
  refine ⟨(readChar byte behind).2,rfl,?_,fun other => ?_,fun passes => ?_⟩
  · rw [readCharAdvance, Cursor.withinAdvance, within]
    simp only [Nat.one_ne_zero, false_or]
    rfl
  · have go : ¬ ((1 : Int) = 0 ∨ len < behind.pos) := by simpa using whole
    simp only [mqttDeserializeConnect, firstByte, connect, ne_eq, not_true_eq_false, if_false, nameRead, name]
    exact (if_neg go).trans (if_neg other)
  · have go : ¬ ((1 : Int) = 0 ∨ len < behind.pos) := by simpa using whole
    simp only [mqttDeserializeConnect, firstByte, connect, ne_eq, not_true_eq_false, if_false, nameRead, name]
    exact (if_neg go).trans (if_pos passes)

theorem namesInside (whole : versionAt byte ≤ len) : ∀ i ∈ compared byte, i < len := by
  intro i inside
  have bounds := List.mem_range'_1.mp inside
  have least := Nat.min_le_right protocolMqisdp.bytes.length (nameLength byte)
  unfold versionAt afterString at whole
  unfold nameAt nameLength at *
  omega

/- Where the loads stay inside, acceptance only depends on the name. -/
theorem acceptsExact (connect : MqttHeader.type (byte 0) = MsgType.connect.code) (whole : versionAt byte ≤ len)
    (passes : Passes byte) : ConnectExact byte len ↔ bodyAt byte ≤ len ∧ versionAt byte + 4 ≤ len ∧
      (Supported byte ∨ ¬ (Paired (flagsOf byte) ∧ Laid byte len (rooms (flagsOf byte)) (versionAt byte + 4))) := by
  obtain ⟨version,place,within,_,read⟩ := nameWhole connect whole
  have out := read passes
  have code := fieldsAccepted byte len version
  have loads := fieldsWithin byte len version
  rw [within] at loads
  rw [place] at code loads
  rw [← out] at code loads
  have flags : byte (versionAt byte + 1) = flagsOf byte := rfl
  have three : versionAt byte + 1 + 3 = versionAt byte + 4 := rfl
  rw [flags, three] at code
  rw [three] at loads
  constructor
  · intro follows
    obtain ⟨⟨header,_⟩,fields⟩ := loads.mp follows.loads
    refine ⟨header,fields,?_⟩
    by_cases accepted : (mqttDeserializeConnect byte len).rc = 1
    · exact Or.inl (follows.accepts accepted).protocol
    · exact Or.inr fun laid => accepted (code.mpr laid)
  · rintro ⟨header,fields,named⟩
    refine ⟨fun accepted => ?_,loads.mpr ⟨⟨header,by omega⟩,fields⟩,namesInside⟩
    have laid := code.mp accepted
    exact ⟨named.resolve_right (not_not.mpr laid),fields,laidInside laid.2,laid.1⟩

/- Of a refused packet it only matters what was loaded. -/
theorem refusedExact (refused : (mqttDeserializeConnect byte len).rc ≠ 1) :
    ConnectExact byte len ↔ (mqttDeserializeConnect byte len).cursor.Within len :=
  ⟨fun follows => follows.loads,fun loads => ⟨fun accepted => absurd accepted refused,loads,namesInside⟩⟩

/-- MQTTDeserialize_connect accepts only complete packets of the two protocols, within the
buffer, on exactly the regular buffers. -/
theorem connectExact (byte : Nat → UInt8) (len : Nat) : ConnectExact byte len ↔ Regular byte len := by
  have header : bodyAt byte ≤ len → 0 < len := by
    unfold bodyAt
    omega
  unfold Regular
  by_cases connect : MqttHeader.type (byte 0) = MsgType.connect.code
  · rw [or_iff_right (not_not.mpr connect)]
    by_cases whole : versionAt byte ≤ len
    · by_cases passes : Passes byte
      · rw [acceptsExact connect whole passes]
        constructor
        · rintro ⟨body,fields,named⟩
          exact ⟨header body,body,fun _ => ⟨by omega,fun _ => ⟨fields,named⟩⟩⟩
        · rintro ⟨_,body,rest⟩
          exact ⟨body,(rest whole).2 passes⟩
      · obtain ⟨version,_,within,unread,_⟩ := nameWhole connect whole
        have out := unread passes
        have refused : (mqttDeserializeConnect byte len).rc ≠ 1 := by simp [out, ConnectOut.untouched]
        rw [refusedExact refused, out]
        refine within.trans ⟨?_,?_⟩
        · rintro ⟨body,inside⟩
          exact ⟨header body,body,fun _ => ⟨inside,fun p => absurd p passes⟩⟩
        · rintro ⟨_,body,rest⟩
          exact ⟨body,(rest whole).1⟩
    · obtain ⟨code,loads⟩ := nameCut connect whole
      have refused : (mqttDeserializeConnect byte len).rc ≠ 1 := by simp [code]
      rw [refusedExact refused, loads]
      refine ⟨fun body => ⟨header body,body,fun fits => absurd fits whole⟩,?_⟩
      rintro ⟨_,body,_⟩
      exact body
  · have out : mqttDeserializeConnect byte len = .untouched ⟨1,[0]⟩ := by
      unfold mqttDeserializeConnect
      exact if_pos connect
    have refused : (mqttDeserializeConnect byte len).rc ≠ 1 := by simp [out, ConnectOut.untouched]
    have loads : (mqttDeserializeConnect byte len).cursor.Within len ↔ 0 < len := by
      rw [out]
      simp [ConnectOut.untouched, Cursor.Within]
    rw [refusedExact refused, loads]
    exact ⟨fun nonempty => ⟨nonempty,Or.inl connect⟩,And.left⟩

/- A CONNECT with an empty protocol name, and one that ends with its protocol name. -/
def namelessConnect : List UInt8 := [0x10,8,0,0,4,2,0,60,0,0]
def nameOnlyConnect : List UInt8 := [0x10,6,0,4,77,81,84,84]

theorem namelessAccepted : ¬ ConnectExact (Memory.ofList namelessConnect).byte 10 ∧
    ¬ ConnectExact (Memory.ofList nameOnlyConnect).byte 8 := by
  refine ⟨fun follows => ?_,fun follows => ?_⟩
  · have complete := follows.accepts (by decide)
    rcases complete.protocol with ⟨_,name⟩ | ⟨_,name⟩
    · exact absurd name (by decide)
    · exact absurd name (by decide)
  · have eight := follows.loads 8 (by decide)
    exact absurd eight (by decide)

end YunbaIot.ConnectGrammar
