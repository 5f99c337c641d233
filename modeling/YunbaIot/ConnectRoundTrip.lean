import YunbaIot.MqttServer
import YunbaIot.SelfFraming

/-! What MQTTDeserialize_connect makes of the bytes MQTTSerialize_connect writes. The
server's side knows two of the three protocol headers and puts conditions of its own on user
name and password. -/
namespace YunbaIot.ConnectRoundTrip
open MqttPacket MqttDeserialize MqttSerialize MqttServer ControlPacket SelfFraming

/- One string read where it was written. -/
structure Took (byte : Nat → UInt8) (pos : Nat) (s : MqttString) (r : LenStringRead) : Prop where
  rc : r.rc = 1
  content : slotBytes byte (slot r) = some (stringBytes s)
  pos : r.cursor.pos = pos + (2 + mqttstrlen s)

structure Short (s : MqttString) : Prop where
  single : Single s
  short : mqttstrlen s ≤ 65535
instance (s : MqttString) : Decidable (Short s) :=
  decidable_of_iff (Single s ∧ mqttstrlen s ≤ 65535) ⟨fun h => ⟨h.1,h.2⟩,fun h => ⟨h.single,h.short⟩⟩

variable {byte : Nat → UInt8} {enddata : Nat}

theorem took (enddata : Nat) {c : Cursor} {s : MqttString} (fit : Short s) (there : Memory.Holds byte c.pos (writeMqttString s))
    (inside : c.pos + (2 + mqttstrlen s) ≤ enddata) : Took byte c.pos s (readMqttLenString byte c enddata) := by
  obtain ⟨reads,read,content⟩ := readStringWritten enddata fit.single fit.short there (by omega)
  rw [read]
  exact ⟨rfl,congrArg some content,by rw [← Nat.add_assoc]⟩

/- A string that the flags announce, or one the caller's data keeps. -/
def FieldHolds (byte : Nat → UInt8) (field : Option Slot) (s : MqttString) : Prop :=
  if present s then field.bind (slotBytes byte) = some (stringBytes s) else field = none

def optionalString (s : MqttString) : List MqttString := if present s then [s] else []

/-! User name and password -/

/- A password comes with a user name, and the last of the two is not empty. -/
structure CredentialsAccepted (username password : MqttString) : Prop where
  paired : present password → present username
  username : present username → present password ∨ stringBytes username ≠ []
  password : present password → stringBytes password ≠ []

structure CredentialsRead (byte : Nat → UInt8) (username password : MqttString) (out out' : ConnectOut) : Prop where
  accepted : CredentialsAccepted username password → out'.rc = 1 ∧ FieldHolds byte out'.username username ∧
    FieldHolds byte out'.password password
  refused : ¬ CredentialsAccepted username password → out'.rc = out.rc
  kept : ∃ rc cursor user pass, out' = { out with rc := rc, cursor := cursor, username := user, password := pass }

theorem fieldTook {c : Cursor} {s : MqttString} (given : present s = true)
    (read : Took byte c.pos s (readMqttLenString byte c enddata)) :
    FieldHolds byte (some (slot (readMqttLenString byte c enddata))) s := by
  unfold FieldHolds
  rw [if_pos given]
  exact read.content

theorem fieldAbsent {field : Option Slot} {s : MqttString} (absent : present s = false) (untouched : field = none) :
    FieldHolds byte field s := by
  unfold FieldHolds
  rw [absent]
  exact untouched

theorem absentShort {s : MqttString} (absent : present s = false) : Short s := by
  simp only [present, Bool.or_eq_false_iff, Option.isSome_eq_false_iff, Option.isNone_iff_eq_none] at absent
  refine ⟨Or.inl absent.1,?_⟩
  simp [mqttstrlen, MqttString.lenstringLen, absent.1, absent.2]

theorem optionalShort {s : MqttString} (short : ∀ t ∈ optionalString s, Short t) : Short s := by
  cases given : present s with
  | false => exact absentShort given
  | true =>
    have member : s ∈ optionalString s := by simp [optionalString, given]
    exact short s member

theorem notEmpty {s : MqttString} : stringBytes s ≠ [] ↔ 0 < mqttstrlen s := by
  rw [mqttstrlenBytes, List.length_pos_iff]

section Credentials
variable {username password : MqttString} {flags : UInt8} {out : ConnectOut}

theorem noCredentials (user : present username = false) (pass : present password = false)
    (userBit : ConnectFlags.username flags = 0) (passBit : ConnectFlags.password flags = 0)
    (fresh : out.username = none ∧ out.password = none) :
    CredentialsRead byte username password out (readCredentials byte enddata flags out) := by
  have result : readCredentials byte enddata flags out = { out with rc := 1 } := by
    simp only [readCredentials, userBit, passBit, if_true]
  rw [result]
  refine ⟨fun _ => ⟨rfl,fieldAbsent user fresh.1,fieldAbsent pass fresh.2⟩,fun bad => ?_,⟨_,_,_,_,rfl⟩⟩
  exact absurd ⟨by simp [pass],by simp [user],by simp [pass]⟩ bad

theorem passwordAlone (user : present username = false) (pass : present password = true)
    (userBit : ConnectFlags.username flags = 0) (passBit : ConnectFlags.password flags = 1) :
    CredentialsRead byte username password out (readCredentials byte enddata flags out) := by
  have result : readCredentials byte enddata flags out = out := by
    simp only [readCredentials, userBit, passBit, if_true, Nat.one_ne_zero, if_false]
  rw [result]
  refine ⟨fun ok => ?_,fun _ => rfl,⟨_,_,_,_,rfl⟩⟩
  have paired := ok.paired pass
  rw [user] at paired
  cases paired

theorem usernameAlone (short : Short username) (user : present username = true) (pass : present password = false)
    (userBit : ConnectFlags.username flags = 1) (passBit : ConnectFlags.password flags = 0)
    (fresh : out.password = none) (there : Memory.Holds byte out.cursor.pos (writeMqttString username))
    (ends : out.cursor.pos + (2 + mqttstrlen username) = enddata) :
    CredentialsRead byte username password out (readCredentials byte enddata flags out) := by
  have read := took enddata short there (Nat.le_of_eq ends)
  by_cases empty : enddata < out.cursor.pos + 3
  · have result : readCredentials byte enddata flags out = out := by
      simp only [readCredentials, userBit, if_pos empty, Nat.one_ne_zero, if_false]
    rw [result]
    refine ⟨fun ok => ?_,fun _ => rfl,⟨_,_,_,_,rfl⟩⟩
    rcases ok.username user with given | some
    · rw [pass] at given
      cases given
    · have long := notEmpty.mp some
      omega
  · have result : readCredentials byte enddata flags out =
        { out with
          rc := 1, username := some (slot (readMqttLenString byte out.cursor enddata)),
          cursor := (readMqttLenString byte out.cursor enddata).cursor } := by
      simp only [readCredentials, userBit, passBit, if_neg empty, Nat.one_ne_zero, if_false, if_true, read.rc,
        Int.one_ne_zero]
    rw [result]
    have some : stringBytes username ≠ [] := notEmpty.mpr (by omega)
    refine ⟨fun _ => ⟨rfl,fieldTook user read,fieldAbsent pass fresh⟩,fun bad => ?_,⟨_,_,_,_,rfl⟩⟩
    exact absurd ⟨by simp [pass],fun _ => Or.inr some,by simp [pass]⟩ bad

theorem bothCredentials (short : Short username) (shortPass : Short password) (user : present username = true)
    (pass : present password = true) (userBit : ConnectFlags.username flags = 1)
    (passBit : ConnectFlags.password flags = 1)
    (there : Memory.Holds byte out.cursor.pos (writeMqttString username ++ writeMqttString password))
    (ends : out.cursor.pos + (2 + mqttstrlen username) + (2 + mqttstrlen password) = enddata) :
    CredentialsRead byte username password out (readCredentials byte enddata flags out) := by
  obtain ⟨first,second⟩ := Memory.holdsAppend.mp there
  have read := took enddata short first (by omega)
  rw [writeMqttStringLength short.single, ← read.pos] at second
  have next := read.pos
  have readPass := took enddata shortPass second (by omega)
  have enough : ¬ enddata < out.cursor.pos + 3 := by omega
  by_cases empty : enddata < (readMqttLenString byte out.cursor enddata).cursor.pos + 3
  · have result : readCredentials byte enddata flags out =
        { out with
          username := some (slot (readMqttLenString byte out.cursor enddata)),
          cursor := (readMqttLenString byte out.cursor enddata).cursor } := by
      simp only [readCredentials, userBit, passBit, if_neg enough, if_pos empty, Nat.one_ne_zero, if_false, read.rc,
        Int.one_ne_zero]
    rw [result]
    refine ⟨fun ok => ?_,fun _ => rfl,⟨_,_,_,_,rfl⟩⟩
    have long := notEmpty.mp (ok.password pass)
    omega
  · have result : readCredentials byte enddata flags out =
        { out with
          rc := 1, username := some (slot (readMqttLenString byte out.cursor enddata)),
          password := some (slot (readMqttLenString byte (readMqttLenString byte out.cursor enddata).cursor enddata)),
          cursor := (readMqttLenString byte (readMqttLenString byte out.cursor enddata).cursor enddata).cursor } := by
      simp only [readCredentials, userBit, passBit, if_neg enough, if_neg empty, Nat.one_ne_zero, if_false, read.rc,
        readPass.rc, Int.one_ne_zero]
    rw [result]
    have some : stringBytes password ≠ [] := notEmpty.mpr (by omega)
    refine ⟨fun _ => ⟨rfl,fieldTook user read,fieldTook pass readPass⟩,fun bad => ?_,⟨_,_,_,_,rfl⟩⟩
    exact absurd ⟨fun _ => user,fun _ => Or.inl pass,fun _ => some⟩ bad

theorem credentialsRead (short : Short username) (shortPass : Short password)
    (userBit : ConnectFlags.username flags = if present username then 1 else 0)
    (passBit : ConnectFlags.password flags = if present password then 1 else 0)
    (fresh : out.username = none ∧ out.password = none)
    (there : Memory.Holds byte out.cursor.pos (filtersBytes (optionalString username ++ optionalString password)))
    (ends : out.cursor.pos + (filtersBytes (optionalString username ++ optionalString password)).length = enddata) :
    CredentialsRead byte username password out (readCredentials byte enddata flags out) := by
  have size := writeMqttStringLength short.single
  have sizePass := writeMqttStringLength shortPass.single
  cases user : present username with
  | false =>
    cases pass : present password with
    | false => exact noCredentials user pass (by simpa [user] using userBit) (by simpa [pass] using passBit) fresh
    | true => exact passwordAlone user pass (by simpa [user] using userBit) (by simpa [pass] using passBit)
  | true =>
    cases pass : present password with
    | false =>
      simp only [optionalString, user, pass, filtersBytes, if_true, Bool.false_eq_true, if_false, List.append_nil,
        List.flatMap_cons, List.flatMap_nil, size] at there ends
      exact usernameAlone short user pass (by simpa [user] using userBit) (by simpa [pass] using passBit) fresh.2
        there ends
    | true =>
      simp only [optionalString, user, pass, filtersBytes, if_true, List.cons_append, List.nil_append, List.append_nil,
        List.flatMap_cons, List.flatMap_nil, List.length_append, size, sizePass, ← Nat.add_assoc] at there ends
      exact bothCredentials short shortPass user pass (by simpa [user] using userBit) (by simpa [pass] using passBit)
        there (by omega)

end Credentials

/-! Flags and will -/

theorem connectFlagsToNat (options : ConnectData) :
    (connectFlags options).toNat = options.cleansession.toNat % 2 * 2 +
      (if options.willFlag ≠ 0 then 4 + options.will.qos.toNat % 4 * 8 + options.will.retained.toNat % 2 * 32 else 0) +
      (if present options.password then 64 else 0) + (if present options.username then 128 else 0) := by
  unfold connectFlags
  rw [UInt8.toNat_ofNat']
  apply Nat.mod_eq_of_lt
  split <;> split <;> split <;> omega

structure FlagsOf (options : ConnectData) : Prop where
  cleansession : ConnectFlags.cleansession (connectFlags options) = options.cleansession.toNat % 2
  will : ConnectFlags.will (connectFlags options) = if options.willFlag ≠ 0 then 1 else 0
  username : ConnectFlags.username (connectFlags options) = if present options.username then 1 else 0
  password : ConnectFlags.password (connectFlags options) = if present options.password then 1 else 0
  settings : options.willFlag ≠ 0 → ConnectFlags.willQoS (connectFlags options) = options.will.qos.toNat % 4 ∧
    ConnectFlags.willRetain (connectFlags options) = options.will.retained.toNat % 2

theorem flagsOf (options : ConnectData) : FlagsOf options := by
  have sum := connectFlagsToNat options
  refine ⟨?_,?_,?_,?_,fun willing => ?_⟩
  · unfold ConnectFlags.cleansession
    rw [sum]
    split <;> split <;> split <;> omega
  · unfold ConnectFlags.will
    rw [sum]
    split <;> split <;> split <;> omega
  · unfold ConnectFlags.username
    rw [sum]
    split <;> split <;> split <;> omega
  · unfold ConnectFlags.password
    rw [sum]
    split <;> split <;> split <;> omega
  · unfold ConnectFlags.willQoS ConnectFlags.willRetain
    rw [sum, if_pos willing]
    split <;> split <;> omega

/- The options the serializer is given: each member in the range of what it stands for. -/
structure Valid (options : ConnectData) : Prop where
  version : options.mqttVersion = 3 ∨ options.mqttVersion = 4 ∨ options.mqttVersion = 0x13
  strings : ∀ s ∈ options.clientID :: optionalFields options, Short s
  cleansession : options.cleansession.toNat < 2
  willQoS : options.willFlag ≠ 0 → options.will.qos.toNat < 3
  willRetained : options.willFlag ≠ 0 → options.will.retained.toNat < 2
instance (options : ConnectData) : Decidable (Valid options) :=
  decidable_of_iff ((options.mqttVersion = 3 ∨ options.mqttVersion = 4 ∨ options.mqttVersion = 0x13) ∧
      (∀ s ∈ options.clientID :: optionalFields options, Short s) ∧ options.cleansession.toNat < 2 ∧
      (options.willFlag ≠ 0 → options.will.qos.toNat < 3) ∧ (options.willFlag ≠ 0 → options.will.retained.toNat < 2))
    ⟨fun h => ⟨h.1,h.2.1,h.2.2.1,h.2.2.2.1,h.2.2.2.2⟩,
      fun h => ⟨h.version,h.strings,h.cleansession,h.willQoS,h.willRetained⟩⟩

structure WillYields (byte : Nat → UInt8) (options : ConnectData) (out : ConnectOut) : Prop where
  flag : out.willFlag = some (if options.willFlag ≠ 0 then 1 else 0)
  qos : options.willFlag ≠ 0 → out.willQoS = some options.will.qos.toNat
  retained : options.willFlag ≠ 0 → out.willRetained = some options.will.retained.toNat
  topicName : options.willFlag ≠ 0 → out.willTopicName.bind (slotBytes byte) = some (stringBytes options.will.topicName)
  message : options.willFlag ≠ 0 → out.willMessage.bind (slotBytes byte) = some (stringBytes options.will.message)

structure Yields (byte : Nat → UInt8) (options : ConnectData) (out : ConnectOut) : Prop where
  rc : out.rc = 1
  clientID : out.clientID.bind (slotBytes byte) = some (stringBytes options.clientID)
  keepAliveInterval : out.keepAliveInterval = some options.keepAliveInterval.toNat
  cleansession : out.cleansession = some options.cleansession.toNat
  will : WillYields byte options out
  username : FieldHolds byte out.username options.username
  password : FieldHolds byte out.password options.password

section Fields
variable {options : ConnectData} {out : ConnectOut}

/- What is known of the result after the client id is read. -/
structure Ends (byte : Nat → UInt8) (options : ConnectData) (out out' : ConnectOut) : Prop where
  accepted : CredentialsAccepted options.username options.password → out'.rc = 1 ∧ WillYields byte options out' ∧
    FieldHolds byte out'.username options.username ∧ FieldHolds byte out'.password options.password
  refused : ¬ CredentialsAccepted options.username options.password → out'.rc = out.rc
  kept : out'.clientID = out.clientID ∧ out'.keepAliveInterval = out.keepAliveInterval ∧
    out'.cleansession = out.cleansession

theorem endsOfCredentials {out₁ out' : ConnectOut} (will : WillYields byte options out₁)
    (read : CredentialsRead byte options.username options.password out₁ out') (rc : out₁.rc = out.rc)
    (same : out₁.clientID = out.clientID ∧ out₁.keepAliveInterval = out.keepAliveInterval ∧
      out₁.cleansession = out.cleansession) : Ends byte options out out' := by
  obtain ⟨accepted,refused,rc',cursor,user,pass,rfl⟩ := read
  obtain ⟨flag,qos,retained,topicName,message⟩ := will
  refine ⟨fun ok => ?_,fun bad => ?_,same⟩
  · obtain ⟨one,first,second⟩ := accepted ok
    exact ⟨one,⟨flag,qos,retained,topicName,message⟩,first,second⟩
  · exact (refused bad).trans rc

theorem fieldsShort (valid : Valid options) :
    (∀ s ∈ if options.willFlag ≠ 0 then [options.will.topicName,options.will.message] else [], Short s) ∧
      (∀ s ∈ optionalString options.username, Short s) ∧ ∀ s ∈ optionalString options.password, Short s := by
  have every := (List.forall_mem_cons.mp valid.strings).2
  simpa only [optionalFields, optionalString, List.forall_mem_append] using every

/- A client with a will: topic, message, then the credentials. -/
theorem willingEnds (valid : Valid options) (willing : options.willFlag ≠ 0)
    (fresh : out.username = none ∧ out.password = none)
    (there : Memory.Holds byte out.cursor.pos (filtersBytes (optionalFields options)))
    (ends : out.cursor.pos + (filtersBytes (optionalFields options)).length = enddata) :
    Ends byte options out (readWill byte enddata (connectFlags options) out) := by
  have flags := flagsOf options
  obtain ⟨wills,users,passwords⟩ := fieldsShort valid
  simp only [if_pos willing, List.forall_mem_cons] at wills
  obtain ⟨topic,message,_⟩ := wills
  have set : ¬ ConnectFlags.will (connectFlags options) = 0 := by
    rw [flags.will, if_pos willing]
    exact Nat.one_ne_zero
  have fields : filtersBytes (optionalFields options) = writeMqttString options.will.topicName ++
      (writeMqttString options.will.message ++
        filtersBytes (optionalString options.username ++ optionalString options.password)) := by
    simp only [optionalFields, optionalString, filtersBytes, if_pos willing, List.cons_append, List.nil_append,
      List.flatMap_cons]
  rw [fields] at there ends
  simp only [List.length_append, writeMqttStringLength topic.single, writeMqttStringLength message.single] at ends
  obtain ⟨topicThere,rest⟩ := Memory.holdsAppend.mp there
  obtain ⟨messageThere,credentials⟩ := Memory.holdsAppend.mp rest
  have readTopic := took enddata topic topicThere (by omega)
  have afterTopic := readTopic.pos
  rw [writeMqttStringLength topic.single, ← afterTopic] at messageThere credentials
  have readMessage := took enddata message messageThere (by omega)
  have afterMessage := readMessage.pos
  rw [writeMqttStringLength message.single, ← afterMessage] at credentials
  unfold readWill
  simp only [if_neg set, readTopic.rc, readMessage.rc, Int.one_ne_zero, if_false]
  refine endsOfCredentials ?_ (credentialsRead (optionalShort users) (optionalShort passwords) flags.username
    flags.password fresh credentials ?_) rfl ⟨rfl,rfl,rfl⟩
  · have settings := flags.settings willing
    have qos := valid.willQoS willing
    have retained := valid.willRetained willing
    refine ⟨congrArg some flags.will,fun _ => congrArg some ?_,fun _ => congrArg some ?_,fun _ => readTopic.content,
      fun _ => readMessage.content⟩
    · rw [settings.1]
      omega
    · rw [settings.2]
      omega
  · dsimp only
    omega

theorem unwillingEnds (valid : Valid options) (unwilling : ¬ options.willFlag ≠ 0)
    (fresh : out.username = none ∧ out.password = none)
    (there : Memory.Holds byte out.cursor.pos (filtersBytes (optionalFields options)))
    (ends : out.cursor.pos + (filtersBytes (optionalFields options)).length = enddata) :
    Ends byte options out (readWill byte enddata (connectFlags options) out) := by
  have flags := flagsOf options
  obtain ⟨_,users,passwords⟩ := fieldsShort valid
  have unset : ConnectFlags.will (connectFlags options) = 0 := by rw [flags.will, if_neg unwilling]
  have fields : filtersBytes (optionalFields options) =
      filtersBytes (optionalString options.username ++ optionalString options.password) := by
    simp only [optionalFields, optionalString, if_neg unwilling, List.nil_append]
  rw [fields] at there ends
  unfold readWill
  simp only [if_pos unset]
  refine endsOfCredentials ?_ (credentialsRead (optionalShort users) (optionalShort passwords) flags.username
    flags.password fresh there ends) rfl ⟨rfl,rfl,rfl⟩
  exact ⟨congrArg some flags.will,fun h => absurd h unwilling,fun h => absurd h unwilling,
    fun h => absurd h unwilling,fun h => absurd h unwilling⟩

theorem willEnds (valid : Valid options) (fresh : out.username = none ∧ out.password = none)
    (there : Memory.Holds byte out.cursor.pos (filtersBytes (optionalFields options)))
    (ends : out.cursor.pos + (filtersBytes (optionalFields options)).length = enddata) :
    Ends byte options out (readWill byte enddata (connectFlags options) out) := by
  by_cases willing : options.willFlag ≠ 0
  · exact willingEnds valid willing fresh there ends
  · exact unwillingEnds valid willing fresh there ends

def fieldsBytes (options : ConnectData) : List UInt8 :=
  connectFlags options :: (writeInt options.keepAliveInterval.toNat ++
    filtersBytes (options.clientID :: optionalFields options))

/- The result when the client id is read and the rest is not. -/
def clientRead (options : ConnectData) (client : LenStringRead) : ConnectOut :=
  { ConnectOut.untouched client.cursor with
    cleansession := some (ConnectFlags.cleansession (connectFlags options))
    keepAliveInterval := some options.keepAliveInterval.toNat
    clientID := some (slot client) }

theorem fieldsRead (valid : Valid options) {curdata : Cursor} (there : Memory.Holds byte curdata.pos (fieldsBytes options))
    (ends : curdata.pos + (fieldsBytes options).length = enddata) :
    (CredentialsAccepted options.username options.password → Yields byte options (readConnectFields byte enddata curdata)) ∧
      (¬ CredentialsAccepted options.username options.password → (readConnectFields byte enddata curdata).rc = 0) := by
  have short : Short options.clientID := valid.strings _ (List.mem_cons_self ..)
  have clean := valid.cleansession
  obtain ⟨flagsThere,rest⟩ := there
  obtain ⟨keepAliveThere,strings⟩ := Memory.holdsAppend.mp rest
  have fields : filtersBytes (options.clientID :: optionalFields options) =
      writeMqttString options.clientID ++ filtersBytes (optionalFields options) := List.flatMap_cons
  rw [fields] at strings
  obtain ⟨clientThere,optional⟩ := Memory.holdsAppend.mp strings
  simp only [fieldsBytes, fields, List.length_cons, List.length_append, writeIntLength,
    writeMqttStringLength short.single] at ends clientThere optional
  have flags : (readChar byte curdata).1 = connectFlags options := flagsThere
  have keepAlive : readInt byte (readChar byte curdata).2 = (options.keepAliveInterval.toNat,_) :=
    readIntWritten options.keepAliveInterval.toNat_lt keepAliveThere
  have inside : curdata.pos + 1 + 2 + (2 + mqttstrlen options.clientID) ≤ enddata := by omega
  have read : Took byte (curdata.pos + 1 + 2) options.clientID
      (readMqttLenString byte ((readChar byte curdata).2.advance 2) enddata) :=
    took enddata (c := (readChar byte curdata).2.advance 2) short clientThere inside
  unfold readConnectFields
  simp only [flags, keepAlive]
  generalize readMqttLenString byte ((readChar byte curdata).2.advance 2) enddata = client at read ⊢
  have after := read.pos
  rw [← after] at optional
  have rest : Ends byte options (clientRead options client)
      (readWill byte enddata (connectFlags options) (clientRead options client)) :=
    willEnds valid ⟨rfl,rfl⟩ optional (by simp only [clientRead, ConnectOut.untouched]; omega)
  simp only [read.rc, Int.one_ne_zero, if_false]
  obtain ⟨accepted,refused,client',keep,cleansession⟩ := rest
  refine ⟨fun ok => ?_,fun bad => refused bad⟩
  obtain ⟨rc,will,username,password⟩ := accepted ok
  refine ⟨rc,?_,keep,?_,will,username,password⟩
  · rw [← clientRead, client']
    exact read.content
  · rw [← clientRead, cleansession]
    refine congrArg some ((flagsOf options).cleansession.trans ?_)
    omega

/-! The whole packet -/

def protocolName (version : UInt8) : CString := if version = 4 then protocolMqtt else protocolMqisdp
def protocolString (version : UInt8) : MqttString := ⟨some (protocolName version),none⟩

theorem protocolWritten {version : UInt8} (known : version = 3 ∨ version = 4 ∨ version = 0x13) :
    protocolHeader version = writeMqttString (protocolString version) ++ [version] := by
  rcases known with rfl | rfl | rfl <;> rfl

/- The server's side knows 3 and 4 and not the version of the device. -/
theorem versionChecked {version : UInt8} (known : version = 3 ∨ version = 4 ∨ version = 0x13) {data : Nat}
    (name : Memory.slice byte data (strlen (protocolName version)) = (protocolName version).bytes) :
    mqttPacketCheckVersion byte (strlen (protocolName version)) data version = decide (version ≠ 0x13) := by
  rcases known with rfl | rfl | rfl
  · have same : Memory.slice byte data 6 = protocolMqisdp.bytes := name
    simp [mqttPacketCheckVersion, protocolMatches, protocolName, strlen, protocolMqisdp, protocolMqtt, same]
  · have same : Memory.slice byte data 4 = protocolMqtt.bytes := name
    simp [mqttPacketCheckVersion, protocolMatches, protocolName, strlen, protocolMqisdp, protocolMqtt, same]
  · rfl

theorem filtersBound {strings : List MqttString} (short : ∀ s ∈ strings, Short s) :
    (filtersBytes strings).length ≤ 65537 * strings.length := by
  induction strings with
  | nil => exact Nat.le_refl _
  | cons s strings ih =>
    have rest := ih fun t inside => short t (List.mem_cons_of_mem _ inside)
    obtain ⟨single,bound⟩ := short s (List.mem_cons_self ..)
    have first := writeMqttStringLength single
    simp only [filtersBytes, List.flatMap_cons, List.length_append, List.length_cons] at rest ⊢
    omega

theorem connectBound (valid : Valid options) : (connectBody options).length < lengthLimit := by
  have protocol : (protocolHeader options.mqttVersion).length ≤ 9 := by
    rcases valid.version with version | version | version <;> rw [version] <;> decide
  have strings := filtersBound valid.strings
  have few : (optionalFields options).length ≤ 4 := by
    unfold optionalFields
    split <;> split <;> split <;> simp
  simp only [connectBody, List.length_append, List.length_cons, writeIntLength, lengthLimit] at strings ⊢
  omega

/- The server's side reads the packet back: what it supports of what can be sent. -/
structure Accepted (options : ConnectData) : Prop where
  version : options.mqttVersion ≠ 0x13
  credentials : CredentialsAccepted options.username options.password

theorem frameRead (valid : Valid options) {body : Nat} (there : Framed byte (Request.connect options).frame body) :
    (Accepted options → Yields byte options (mqttDeserializeConnect byte (body + (connectBody options).length))) ∧
      (¬ Accepted options → (mqttDeserializeConnect byte (body + (connectBody options).length)).rc = 0) := by
  obtain ⟨header,remaining,holds,behind⟩ := there
  have type : MqttHeader.type (byte 0) = MsgType.connect.code := by
    rw [header, Request.frame]
    exact MqttHeader.typeByte ..
  have split : connectBody options =
      writeMqttString (protocolString options.mqttVersion) ++ (options.mqttVersion :: fieldsBytes options) := by
    simp only [connectBody, protocolWritten valid.version, fieldsBytes, List.append_assoc, List.cons_append,
      List.nil_append]
  have place := bodyPlace behind [0]
  simp only [Request.frame, split] at holds remaining
  obtain ⟨protocolThere,rest⟩ := Memory.holdsAppend.mp holds
  obtain ⟨versionThere,fields⟩ := rest
  have single : Single (protocolString options.mqttVersion) := Or.inr rfl
  have short : mqttstrlen (protocolString options.mqttVersion) ≤ 65535 := by
    rcases valid.version with version | version | version <;> rw [version] <;> decide
  have size := congrArg List.length split
  rw [List.length_append, writeMqttStringLength single] at size
  rw [writeMqttStringLength single] at versionThere fields
  rw [← place] at protocolThere
  obtain ⟨reads,read,content⟩ := readStringWritten (body + (connectBody options).length) single short
    protocolThere (by rw [place]; omega)
  rw [place] at read content
  rw [← Nat.add_assoc] at versionThere fields
  have version : (readChar byte ⟨body + 2 + mqttstrlen (protocolString options.mqttVersion),reads⟩).1 =
      options.mqttVersion := versionThere
  have checked : mqttPacketCheckVersion byte (mqttstrlen (protocolString options.mqttVersion)) (body + 2)
      options.mqttVersion = decide (options.mqttVersion ≠ 0x13) := versionChecked valid.version content
  have before : ¬ body + (connectBody options).length <
      body + 2 + mqttstrlen (protocolString options.mqttVersion) := by omega
  unfold mqttDeserializeConnect
  simp only [readCharFirst, type, remaining, read, version, checked, ne_eq, not_true_eq_false, if_false, Int.one_ne_zero, before,
    or_self, Option.getD_some, decide_eq_true_eq]
  split
  · rename_i supported
    have ends : (readChar byte ⟨body + 2 + mqttstrlen (protocolString options.mqttVersion),reads⟩).2.pos +
        (fieldsBytes options).length = body + (connectBody options).length := by
      simp only [readCharPos]
      rw [List.length_cons] at size
      omega
    have whole := fieldsRead valid fields ends
    exact ⟨fun ok => whole.1 ok.credentials,fun bad => whole.2 fun ok => bad ⟨supported,ok⟩⟩
  · rename_i unsupported
    exact ⟨fun ok => absurd ok.version unsupported,fun _ => rfl⟩

end Fields

/-- A CONNECT that is serialized is read back with everything it was given exactly where its
version is one the server's side knows and its credentials are ones it accepts. Every other
one is answered with failure. -/
theorem connectRoundTrip (options : ConnectData) (valid : Valid options) (buflen : Int)
    (accepted : 0 < (mqttSerializeConnect buflen options).rc) (byte : Nat → UInt8)
    (there : Memory.Holds byte 0 (mqttSerializeConnect buflen options).written) :
    let out := mqttDeserializeConnect byte (mqttSerializeConnect buflen options).written.length
    (Accepted options → Yields byte options out) ∧ (¬ Accepted options → out.rc = 0) := by
  have whole : (Request.connect options).WellFormed :=
    ⟨fun s inside => (valid.strings s inside).single,fun options' same => by
      cases same
      exact valid.version⟩
  have same : mqttSerializeConnect buflen options = (Request.connect options).frame.serialize buflen :=
    serializeFrame whole buflen
  rw [same] at accepted there ⊢
  rw [serializeWritten accepted] at there ⊢
  have size := bytesLength (Request.connect options).frame
  have read := frameRead valid (framed (connectBound valid) there)
  rw [done, size]
  exact read

def written (options : ConnectData) : Nat → UInt8 :=
  ((Memory.ofList []).store 0 (mqttSerializeConnect 64 options).written).byte
def decoded (options : ConnectData) : ConnectOut :=
  mqttDeserializeConnect (written options) (mqttSerializeConnect 64 options).written.length

/- Client c with a will, user u and password p. -/
def fullConnect : ConnectData :=
  ⟨4,⟨none,some [0x63]⟩,60,1,1,⟨⟨none,some [0x74]⟩,⟨none,some [0x6d]⟩,1,2⟩,⟨none,some [0x75]⟩,⟨none,some [0x70]⟩⟩

theorem fullRoundTrip : Yields (written fullConnect) fullConnect (decoded fullConnect) := by
  have accepted : Accepted fullConnect := ⟨by decide,by decide,by decide,by decide⟩
  exact (connectRoundTrip fullConnect (by decide) 64 (by decide) (written fullConnect)
    (Memory.holdsStore _ 0 _)).1 accepted

/- The version of the device, a password alone, a user name that is empty and an empty password. -/
def deviceConnect : ConnectData := { ConnectData.initializer with mqttVersion := 0x13 }
def passwordConnect : ConnectData := { ConnectData.initializer with password := ⟨none,some [0x70]⟩ }
def emptyUserConnect : ConnectData := { ConnectData.initializer with username := ⟨none,some []⟩ }
def emptyPasswordConnect : ConnectData := { fullConnect with password := ⟨none,some []⟩ }

def SentUnread (options : ConnectData) : Prop :=
  Valid options ∧ 0 < (mqttSerializeConnect 64 options).rc ∧ ¬ Yields (written options) options (decoded options)

theorem sentRefused {options : ConnectData} (valid : Valid options)
    (sent : 0 < (mqttSerializeConnect 64 options).rc) (refused : (decoded options).rc = 0) : SentUnread options := by
  refine ⟨valid,sent,fun back => ?_⟩
  have success := back.rc
  rw [refused] at success
  cases success

theorem connectsRefused : SentUnread deviceConnect ∧ SentUnread passwordConnect ∧ SentUnread emptyUserConnect ∧
    SentUnread emptyPasswordConnect :=
  ⟨sentRefused (by decide) (by decide) (by decide),sentRefused (by decide) (by decide) (by decide),
    sentRefused (by decide) (by decide) (by decide),sentRefused (by decide) (by decide) (by decide)⟩

end YunbaIot.ConnectRoundTrip
