import YunbaIot.CJson
import YunbaIot.MqttClient
import YunbaIot.Tlv

/-! MQTTPublish2: payload, topic and options are put one after the other into a block of 256
bytes, through a pointer that nothing holds back, and the options are counted by a byte. -/
namespace YunbaIot.Publish2
open Block CJson MqttPacket MqttTransport MqttClient

variable {τ : Type}

/-! The block -/

def pubBufSize : Nat := 256

structure PubBuf where
  bytes : List UInt8
  size : bytes.length = pubBufSize

/- pub_buf, and p as an offset into it. -/
structure Writer where
  buf : List UInt8
  p : Nat
  deriving DecidableEq, Repr

def put (bs : List UInt8) (w : Writer) : Defined Writer := (⟨·,w.p + bs.length⟩) <$> memcpy w.buf w.p bs

def putEntry (type : UInt8) (len : Nat) (value : List UInt8) (w : Writer) : Defined Writer :=
  put (Tlv.header type len) w >>= put (value.take len)

-- len is a uint16_t
def putString (type : UInt8) (s : List UInt8) (w : Writer) : Defined Writer := putEntry type (s.length % 65536) s w

/-! The options -/

def tlvTopic : UInt8 := 0
def tlvPayload : UInt8 := 1

def keys : List (List UInt8) :=
  [[116,111,112,105,99],[112,97,121,108,111,97,100],[112,108,97,116,102,111,114,109],
    [116,105,109,101,95,116,111,95,108,105,118,101],[116,105,109,101,95,100,101,108,97,121],
    [108,111,99,97,116,105,111,110],[113,111,115],[97,112,110,95,106,115,111,110]]

def keyTable : List (List UInt8 × Nat) := keys.zipIdx

/- The inner loop, from a key of the table on. -/
def tryKeys (string : Option (List UInt8)) (test : Item) : List (List UInt8 × Nat) → Writer → Defined Writer
  | [], w => .ok w
  | key :: later, w => do
    let name ← deref string
    if name = key.1 then
      let value ← deref test.valuestring
      let w ← putString (UInt8.ofNat key.2) value w
      tryKeys string test later w
    else tryKeys string test later w

def putOption (test : Option (Option (List UInt8) × Item)) (w : Writer) : Defined Writer := do
  let test ← deref test
  tryKeys test.1 test.2 keyTable w

/- The outer loop; none when the fuel ends before the loop does. -/
def optionsLoop (opt : Item) : Nat → UInt8 → Writer → Option (Defined Writer)
  | 0, _, _ => none
  | fuel+1, j, w =>
    if j.toNat < cJsonGetArraySize opt then
      match putOption (cJsonGetArrayItem opt j.toNat) w with
      | .error e => some (.error e)
      | .ok w => optionsLoop opt fuel (j + 1) w
    else some (.ok w)

def putOptions : Option Item → Nat → Writer → Option (Defined Writer)
  | none, _, w => some (.ok w)
  | some opt, fuel, w => optionsLoop opt fuel 0 w

/-! MQTTPublish2 -/

/- The command that was submitted, and what is returned. -/
structure Returned (τ : Type) where
  submitted : Option (List UInt8)
  rc : Int
  st : St τ

def publish2 : UInt8 := 7

def submit (net : Network τ) (st : St τ) (w : Writer) : Returned τ :=
  let bytes := w.buf.take w.p
  let sent := mqttExtendedCmd net publish2 bytes 1 0 st
  ⟨some bytes,sent.1,sent.2⟩

/- pubBuf is what malloc returned. -/
def mqttPublish2 (net : Network τ) (pubBuf : Option PubBuf) (topicName : CString) (payload : List UInt8)
    (opt : Option Item) (st : St τ) (fuel : Nat) : Option (Defined (Returned τ)) :=
  match pubBuf with
  | none => some (.ok ⟨none,-1,st⟩)
  | some buf =>
    match putEntry tlvPayload payload.length payload ⟨buf.bytes,0⟩ >>= putString tlvTopic topicName.bytes with
    | .error e => some (.error e)
    | .ok w => (putOptions opt fuel w).map (submit net st <$> ·)

/-! What is to be submitted -/

abbrev Member := CString × CString

def optObject (members : List Member) : Item := .object (members.map fun m => (m.1.bytes,.string m.2.bytes))

/- The entry of an option whose key is in the table. -/
def optionEntry (m : Member) : Option Tlv.Entry :=
  (keyTable.find? fun key => m.1.bytes = key.1).map fun key => ⟨UInt8.ofNat key.2,m.2.bytes⟩

def entries (topicName : CString) (payload : List UInt8) (members : Option (List Member)) : List Tlv.Entry :=
  ⟨tlvPayload,payload⟩ :: ⟨tlvTopic,topicName.bytes⟩ :: (members.getD []).filterMap optionEntry

def Fits (es : List Tlv.Entry) : Prop := Tlv.size es ≤ pubBufSize

structure Submits (net : Network τ) (es : List Tlv.Entry) (st : St τ) (r : Returned τ) : Prop where
  exact : ∀ bytes, r.submitted = some bytes →
    Tlv.parse bytes = some es ∧ (r.rc,r.st) = mqttExtendedCmd net publish2 bytes 1 0 st
  declined : r.submitted = none → r.rc = -1 ∧ r.st = st
  unfit : ¬Fits es → r.submitted = none

/- The call returns, with every store inside of the block. -/
def Publishes (net : Network τ) (pubBuf : Option PubBuf) (topicName : CString) (payload : List UInt8)
    (members : Option (List Member)) (st : St τ) : Prop :=
  ∃ fuel r, mqttPublish2 net pubBuf topicName payload (members.map optObject) st fuel = some (.ok r) ∧
    Submits net (entries topicName payload members) st r

/-! Entries behind each other -/

/- The bytes put so far, in a block of 256. -/
structure Holds (w : Writer) (es : List Tlv.Entry) : Prop where
  size : w.buf.length = pubBufSize
  bytes : w.buf.take w.p = Tlv.encode es
  place : w.p = Tlv.size es

theorem putOk (w : Writer) (bs : List UInt8) (fits : w.p + bs.length ≤ w.buf.length) :
    ∃ w', put bs w = .ok w' ∧ w'.buf.length = w.buf.length ∧ w'.p = w.p + bs.length ∧
      w'.buf.take w'.p = w.buf.take w.p ++ bs := by
  refine ⟨⟨w.buf.take w.p ++ bs ++ w.buf.drop (w.p + bs.length),w.p + bs.length⟩,?_,?_,rfl,?_⟩
  · have copied : memcpy w.buf w.p bs = .ok _ := memcpyOk.mpr ⟨fits,rfl⟩
    unfold put
    rw [copied]
    rfl
  · simp only [List.length_append, List.length_take, List.length_drop]
    omega
  · have length : (w.buf.take w.p ++ bs).length = w.p + bs.length := by
      simp only [List.length_append, List.length_take]
      omega
    dsimp only
    rw [← length, List.take_left]

theorem putEntryOk {w : Writer} {es : List Tlv.Entry} (held : Holds w es) {e : Tlv.Entry}
    (fits : Fits (es ++ [e])) : ∃ w', putEntry e.type e.value.length e.value w = .ok w' ∧ Holds w' (es ++ [e]) := by
  have room : w.p + 3 + e.value.length ≤ w.buf.length := by
    unfold Fits at fits
    rw [Tlv.sizeAppend, Tlv.sizeCons] at fits
    rw [held.size, held.place]
    simp only [Tlv.size, List.map_nil, List.sum_nil] at fits ⊢
    omega
  obtain ⟨first,put₁,size₁,p₁,bytes₁⟩ := putOk w (Tlv.header e.type e.value.length) (by
    show w.p + 3 ≤ _
    omega)
  obtain ⟨second,put₂,size₂,p₂,bytes₂⟩ := putOk first e.value (by
    rw [p₁, size₁]
    exact room)
  refine ⟨second,?_,by rw [size₂, size₁]; exact held.size,?_,?_⟩
  · unfold putEntry
    rw [put₁, List.take_length]
    exact put₂
  · rw [bytes₂, bytes₁, held.bytes, Tlv.encodeAppend, List.append_assoc]
    simp [Tlv.encode, Tlv.Entry.bytes]
  · rw [p₂, p₁, held.place, Tlv.sizeAppend]
    show _ + 3 + e.value.length = _ + (3 + e.value.length + 0)
    omega

theorem putStringOk {w : Writer} {es : List Tlv.Entry} (held : Holds w es) (type : UInt8) (s : List UInt8)
    (fits : Fits (es ++ [⟨type,s⟩])) : ∃ w', putString type s w = .ok w' ∧ Holds w' (es ++ [⟨type,s⟩]) := by
  have short := Tlv.sizeShort fits ⟨type,s⟩ (List.mem_append_right _ (List.mem_singleton_self _))
  have length : s.length % 65536 = s.length := Nat.mod_eq_of_lt (Nat.lt_of_lt_of_le short (by decide))
  unfold putString
  rw [length]
  exact putEntryOk held fits

/-! Options -/

theorem tryKeysNone {name : List UInt8} (value : List UInt8) {table : List (List UInt8 × Nat)}
    (absent : name ∉ table.map Prod.fst) (w : Writer) : tryKeys (some name) (.string value) table w = .ok w := by
  induction table with
  | nil => rfl
  | cons key later ih =>
    rw [List.map_cons, List.mem_cons, not_or] at absent
    rw [tryKeys]
    show (if name = key.1 then _ else tryKeys (some name) (.string value) later w) = _
    rw [if_neg absent.1]
    exact ih absent.2

/- At most one key of the table is the name of an option. -/
theorem tryKeysFirst (name value : List UInt8) {table : List (List UInt8 × Nat)} (single : (table.map Prod.fst).Nodup)
    (w : Writer) : tryKeys (some name) (.string value) table w =
      match table.find? fun key => name = key.1 with
      | none => .ok w
      | some key => putString (UInt8.ofNat key.2) value w := by
  induction table with
  | nil => rfl
  | cons key later ih =>
    obtain ⟨once,rest⟩ := List.nodup_cons.mp single
    rw [tryKeys]
    show (if name = key.1 then putString (UInt8.ofNat key.2) value w >>= tryKeys (some name) (.string value) later
      else tryKeys (some name) (.string value) later w) = _
    by_cases same : name = key.1
    · rw [if_pos same, List.find?_cons_of_pos (by simpa using same)]
      dsimp only
      cases done : putString (UInt8.ofNat key.2) value w with
      | error e => rfl
      | ok w' => exact tryKeysNone value (by rw [same]; exact once) w'
    · rw [if_neg same, List.find?_cons_of_neg (by simpa using same)]
      exact ih rest

theorem keysOnce : (keyTable.map Prod.fst).Nodup := by decide

def memberChild (m : Member) : Option (List UInt8) × Item := (some m.1.bytes,.string m.2.bytes)

theorem optChild (members : List Member) : (optObject members).child = members.map memberChild := by
  simp [optObject, Item.child, memberChild, Function.comp_def]

theorem putOptionOk {w : Writer} {es : List Tlv.Entry} (held : Holds w es) (m : Member)
    (fits : Fits (es ++ (optionEntry m).toList)) :
    ∃ w', putOption (some (memberChild m)) w = .ok w' ∧ Holds w' (es ++ (optionEntry m).toList) := by
  have tried : putOption (some (memberChild m)) w = _ := tryKeysFirst m.1.bytes m.2.bytes keysOnce w
  rw [tried]
  unfold optionEntry at fits ⊢
  generalize keyTable.find? (fun key => m.1.bytes = key.1) = found at fits ⊢
  cases found with
  | none => exact ⟨w,rfl,by simpa using held⟩
  | some key => exact putStringOk held _ _ fits

theorem fitsPrefix {first : List Tlv.Entry} (second : List Tlv.Entry) (fits : Fits (first ++ second)) : Fits first := by
  unfold Fits at fits ⊢
  rw [Tlv.sizeAppend] at fits
  omega

/- The loop from the option j on, that is before the last 255. -/
theorem optionsLoopOk {members : List Member} (few : members.length ≤ 255) (later : List Member) {j : UInt8}
    (from_j : members.drop j.toNat = later) {w : Writer} {es : List Tlv.Entry} (held : Holds w es)
    (fits : Fits (es ++ later.filterMap optionEntry)) :
    ∃ w', optionsLoop (optObject members) (later.length + 1) j w = some (.ok w') ∧
      Holds w' (es ++ later.filterMap optionEntry) := by
  have size : cJsonGetArraySize (optObject members) = members.length := by
    rw [cJsonGetArraySize, optChild, List.length_map]
  induction later generalizing j w es with
  | nil =>
    have past : ¬j.toNat < cJsonGetArraySize (optObject members) := by
      rw [size, Nat.not_lt]
      exact List.drop_eq_nil_iff.mp from_j
    exact ⟨w,by rw [List.length_nil, optionsLoop, if_neg past],by simpa using held⟩
  | cons m later ih =>
    have inside : j.toNat < members.length := by
      by_contra past
      rw [List.drop_eq_nil_of_le (Nat.not_lt.mp past)] at from_j
      cases from_j
    obtain ⟨here,behind⟩ := List.cons.inj ((List.drop_eq_getElem_cons inside).symm.trans from_j)
    have item : cJsonGetArrayItem (optObject members) j.toNat = some (memberChild m) := by
      rw [cJsonGetArrayItem, optChild, List.getElem?_map, List.getElem?_eq_getElem inside, here]
      rfl
    have next : (j + 1).toNat = j.toNat + 1 := by
      rw [UInt8.toNat_add]
      show (j.toNat + 1) % 256 = _
      omega
    have spread : es ++ (m :: later).filterMap optionEntry =
        es ++ (optionEntry m).toList ++ later.filterMap optionEntry := by
      cases single : optionEntry m <;> simp [single]
    rw [spread] at fits ⊢
    obtain ⟨w₁,done,held₁⟩ := putOptionOk held m (fitsPrefix _ fits)
    obtain ⟨w₂,rest,held₂⟩ := ih (j := j + 1) (by rw [next]; exact behind) held₁ fits
    refine ⟨w₂,?_,held₂⟩
    rw [List.length_cons, optionsLoop, if_pos (by rw [size]; exact inside), item, done]
    exact rest

/- A byte never counts past 255, so more options have no end. -/
theorem optionsLoopEndless (opt : Item) (many : 256 ≤ cJsonGetArraySize opt) (fuel : Nat) (j : UInt8) (w w' : Writer) :
    optionsLoop opt fuel j w ≠ some (.ok w') := by
  induction fuel generalizing j w with
  | zero => exact nofun
  | succ fuel ih =>
    have going : j.toNat < cJsonGetArraySize opt := Nat.lt_of_lt_of_le j.toNat_lt many
    rw [optionsLoop, if_pos going]
    split
    · exact nofun
    · exact ih _ _

/-! The whole call -/

section Call
variable {net : Network τ} {topicName : CString} {payload : List UInt8} {members : Option (List Member)} {st : St τ}

theorem putOptionsOk {w : Writer} {es : List Tlv.Entry} (held : Holds w es) (few : (members.getD []).length ≤ 255)
    (fits : Fits (es ++ (members.getD []).filterMap optionEntry)) :
    ∃ fuel w', putOptions (members.map optObject) fuel w = some (.ok w') ∧
      Holds w' (es ++ (members.getD []).filterMap optionEntry) := by
  cases members with
  | none => exact ⟨0,w,rfl,by simpa using held⟩
  | some ms =>
    obtain ⟨w',done,held'⟩ := optionsLoopOk few ms (j := 0) rfl held fits
    exact ⟨ms.length + 1,w',done,held'⟩

theorem publishes (buf : PubBuf) (few : (members.getD []).length ≤ 255)
    (fits : Fits (entries topicName payload members)) : Publishes net (some buf) topicName payload members st := by
  have start : Holds ⟨buf.bytes,0⟩ [] := ⟨buf.size,rfl,rfl⟩
  have short := Tlv.sizeShort fits
  obtain ⟨w₁,first,held₁⟩ := putEntryOk start (e := ⟨tlvPayload,payload⟩)
    (fitsPrefix (⟨tlvTopic,topicName.bytes⟩ :: (members.getD []).filterMap optionEntry) fits)
  obtain ⟨w₂,second,held₂⟩ := putStringOk held₁ tlvTopic topicName.bytes
    (fitsPrefix ((members.getD []).filterMap optionEntry) fits)
  obtain ⟨fuel,w,third,held⟩ := putOptionsOk held₂ few fits
  refine ⟨fuel,submit net st w,?_,?_,nofun,fun unfit => absurd fits unfit⟩
  · unfold mqttPublish2
    dsimp only at first ⊢
    rw [first]
    show (match putString tlvTopic topicName.bytes w₁ with | .error e => _ | .ok w => _) = _
    rw [second]
    dsimp only
    rw [third]
    rfl
  · rintro bytes same
    cases same
    refine ⟨?_,rfl⟩
    rw [held.bytes]
    exact Tlv.parsed fun e inside => Nat.lt_of_lt_of_le (short e inside) (by decide)

/- A payload that is longer than the block is stored past it. -/
theorem payloadPast {buf : PubBuf} {opt : Option Item} {fuel : Nat} (past : buf.bytes.length < 3 + payload.length) :
    mqttPublish2 net (some buf) topicName payload opt st fuel = some (.error .store) := by
  have room : 0 + (Tlv.header tlvPayload payload.length).length ≤ buf.bytes.length := by
    rw [buf.size]
    exact Nat.le_of_ble_eq_true rfl
  obtain ⟨w,header,size,p,_⟩ := putOk ⟨buf.bytes,0⟩ _ room
  have outside : ¬w.p + payload.length ≤ w.buf.length := by
    rw [p, size]
    show ¬0 + 3 + payload.length ≤ buf.bytes.length
    omega
  have copied : put payload w = .error .store := by
    unfold put memcpy
    rw [if_neg outside]
    rfl
  have stored : putEntry tlvPayload payload.length payload ⟨buf.bytes,0⟩ = .error .store := by
    unfold putEntry
    rw [header, List.take_length]
    exact copied
  unfold mqttPublish2
  dsimp only
  rw [stored]
  rfl

/- With a block the call either faults, goes on forever, or submits. -/
theorem submitted {buf : PubBuf} {fuel : Nat} {r : Returned τ}
    (returned : mqttPublish2 net (some buf) topicName payload (members.map optObject) st fuel = some (.ok r)) :
    r.submitted ≠ none ∧ (members.getD []).length ≤ 255 := by
  unfold mqttPublish2 at returned
  dsimp only at returned
  split at returned
  · cases returned
  · rename_i w _
    obtain ⟨done,looped,mapped⟩ := Option.map_eq_some_iff.mp returned
    obtain ⟨w',ok,rfl⟩ := mapOk.mp mapped
    subst ok
    refine ⟨nofun,?_⟩
    cases members with
    | none => exact Nat.zero_le _
    | some ms =>
      by_contra many
      refine optionsLoopEndless (optObject ms) ?_ fuel 0 w w' looped
      rw [cJsonGetArraySize, optChild, List.length_map]
      exact Nat.not_le.mp many

end Call

theorem publish2Exact (net : Network τ) (pubBuf : Option PubBuf) (topicName : CString) (payload : List UInt8)
    (members : Option (List Member)) (st : St τ) :
    Publishes net pubBuf topicName payload members st ↔
      pubBuf = none ∨ Fits (entries topicName payload members) ∧ (members.getD []).length ≤ 255 := by
  cases pubBuf with
  | none => exact ⟨fun _ => .inl rfl,fun _ => ⟨0,⟨none,-1,st⟩,rfl,nofun,fun _ => ⟨rfl,rfl⟩,fun _ => rfl⟩⟩
  | some buf =>
    constructor
    · rintro ⟨fuel,r,returned,submits⟩
      obtain ⟨some,few⟩ := submitted returned
      exact .inr ⟨by_contra fun unfit => some (submits.unfit unfit),few⟩
    · rintro (none | ⟨fits,few⟩)
      · cases none
      · exact publishes buf few fits

/- A payload that is longer than the block. -/
def clearedBuf : PubBuf := ⟨List.replicate 256 0,List.length_replicate⟩

def longPayload : List UInt8 := List.replicate 300 97

def topicT : CString := ⟨[116],by simp⟩

theorem longPayloadOverruns : mqttPublish2 pipe (some clearedBuf) topicT longPayload none (St.static ⟨[],[]⟩) 1 =
      some (.error .store) ∧
    ¬Publishes pipe (some clearedBuf) topicT longPayload none (St.static ⟨[],[]⟩) := by
  have past : clearedBuf.bytes.length < 3 + longPayload.length := by
    rw [clearedBuf.size, longPayload, List.length_replicate]
    decide
  have fault (fuel : Nat) :
      mqttPublish2 pipe (some clearedBuf) topicT longPayload none (St.static ⟨[],[]⟩) fuel = some (.error .store) :=
    payloadPast past
  refine ⟨fault 1,?_⟩
  rintro ⟨fuel,r,returned,_⟩
  have none := (fault fuel).symm.trans returned
  cases none

end YunbaIot.Publish2
