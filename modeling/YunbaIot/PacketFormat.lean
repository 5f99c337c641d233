import YunbaIot.MqttServer

/-! MQTTFormat.c: the packets of each side as text. What a call of snprintf prints is a
parameter, the bytes it would print into a buffer without end; what it stores of them, and
where, is followed from call to call. -/
namespace YunbaIot.PacketFormat
open MqttPacket MqttDeserialize MqttServer

/- The calls of snprintf, each with what its arguments are taken from. -/
inductive Text where
  | connect (data : ConnectOut)
  | will (data : ConnectOut)
  | userName (username : Option Slot)
  | password (password : Option Slot)
  | connack (out : ConnackOut)
  | publish (out : PublishOut)
  | ack (name : List UInt8) (packetid : Option UInt64)
  | dup (dup : Nat)
  | subscribe (out : TopicsOut)
  | suback (out : SubackOut)
  | unsubscribe (out : TopicsOut)
  | name (name : List UInt8)

structure Snprintf where
  text : Text → List UInt8
  -- the length is returned as an int
  int : ∀ t, (text t).length < 2^31

def mqttPacketNames : List (List UInt8) :=
  [[82,69,83,69,82,86,69,68],[67,79,78,78,69,67,84],[67,79,78,78,65,67,75],[80,85,66,76,73,83,72],
    [80,85,66,65,67,75],[80,85,66,82,69,67],[80,85,66,82,69,76],[80,85,66,67,79,77,80],
    [83,85,66,83,67,82,73,66,69],[83,85,66,65,67,75],[85,78,83,85,66,83,67,82,73,66,69],[85,78,83,85,66,65,67,75],
    [80,73,78,71,82,69,81],[80,73,78,71,82,69,83,80],[68,73,83,67,79,78,78,69,67,84]]

def mqttPacketGetName (packetid : Nat) : List UInt8 := mqttPacketNames.getD packetid []

/-! snprintf -/

/- n is a size_t: what is negative as an int is a large size. -/
def size (n : Int) : Nat := (n % 2^32).toNat

def snprintf (m : Memory) (s : Nat) (n : Int) (text : List UInt8) : Memory :=
  if size n = 0 then m else m.store s (text.take (size n - 1) ++ [0])

structure Output where
  strbuf : Memory
  strindex : Nat

section Format
variable (p : Snprintf) (strbuflen : Nat)

def print (t : Text) (o : Output) : Output :=
  ⟨snprintf o.strbuf o.strindex ((strbuflen : Int) - o.strindex) (p.text t),o.strindex + (p.text t).length⟩

/- A string slot that MQTTDeserialize_connect left alone is what was on the stack. -/
def filled (stack : Bool) : Option Slot → Bool
  | none => stack
  | some s => s.data.isSome && 0 < s.len.getD 0

def stringFormatConnect (stackUsername stackPassword : Bool) (data : ConnectOut) (o : Output) : Output :=
  let o := print p strbuflen (.connect data) o
  let o := if data.willFlag.getD 0 ≠ 0 then print p strbuflen (.will data) o else o
  let o := if filled stackUsername data.username then print p strbuflen (.userName data.username) o else o
  if filled stackPassword data.password then print p strbuflen (.password data.password) o else o

def stringFormatAck (packettype dup : Nat) (packetid : Option UInt64) (o : Output) : Output :=
  let o := print p strbuflen (.ack (mqttPacketGetName packettype) packetid) o
  if dup ≠ 0 then print p strbuflen (.dup dup) o else o

/- The text, and the most elements stored into one of the local arrays of length 1. -/
structure Formatted where
  output : Output
  elements : Nat

def formatPublish (byte : Nat → UInt8) (buflen : Nat) (o : Output) : Formatted :=
  let out := mqttDeserializePublish byte buflen
  ⟨if out.rc = 1 then print p strbuflen (.publish out) o else o,0⟩

def formatAck (byte : Nat → UInt8) (buflen : Nat) (o : Output) : Formatted :=
  let out := mqttDeserializeAck byte buflen
  ⟨if out.rc = 1 then stringFormatAck p strbuflen out.packettype out.dup out.packetid o else o,0⟩

def formatName (byte : Nat → UInt8) (o : Output) : Formatted :=
  ⟨print p strbuflen (.name (mqttPacketGetName (MqttHeader.type (byte 0)))) o,0⟩

/- before is what the caller's buffer holds. -/
def mqttFormatToClientString (before byte : Nat → UInt8) (buflen : Nat) : Formatted :=
  let o : Output := ⟨⟨before,[]⟩,0⟩
  match MsgType.ofCode (MqttHeader.type (byte 0)) with
  | some .connack =>
    let out := mqttDeserializeConnack byte buflen
    ⟨if out.rc = 1 then print p strbuflen (.connack out) o else o,0⟩
  | some .publish => formatPublish p strbuflen byte buflen o
  | some .puback | some .pubrec | some .pubrel | some .pubcomp => formatAck p strbuflen byte buflen o
  | some .suback =>
    let out := mqttDeserializeSuback byte 1 buflen
    ⟨if out.rc = 1 then print p strbuflen (.suback out) o else o,out.granted.length⟩
  | some .unsuback =>
    let out := mqttDeserializeUnsuback byte buflen
    ⟨if out.rc = 1 then stringFormatAck p strbuflen MsgType.unsuback.code 0 out.packetid o else o,0⟩
  | some .pingreq | some .pingresp | some .disconnect => formatName p strbuflen byte o
  | _ => ⟨o,0⟩

def formatToServer (stackUsername stackPassword : Bool) (byte : Nat → UInt8) (buflen : Nat) (o : Output) : Formatted :=
  match MsgType.ofCode (MqttHeader.type (byte 0)) with
  | some .connect =>
    let out := mqttDeserializeConnect byte buflen
    ⟨if out.rc = 1 then stringFormatConnect p strbuflen stackUsername stackPassword out o else o,0⟩
  | some .publish => formatPublish p strbuflen byte buflen o
  | some .puback | some .pubrec | some .pubrel | some .pubcomp => formatAck p strbuflen byte buflen o
  | some .subscribe =>
    let out := mqttDeserializeSubscribe byte 1 buflen
    ⟨if out.rc = 1 then print p strbuflen (.subscribe out) o else o,out.filters.length⟩
  | some .unsubscribe =>
    let out := mqttDeserializeUnsubscribe byte 1 buflen
    ⟨if out.rc = 1 then print p strbuflen (.unsubscribe out) o else o,out.filters.length⟩
  | some .pingreq | some .pingresp | some .disconnect => formatName p strbuflen byte o
  | _ => ⟨o,0⟩

def mqttFormatToServerString (stackUsername stackPassword : Bool) (before byte : Nat → UInt8) (buflen : Nat) : Formatted :=
  let f := formatToServer p strbuflen stackUsername stackPassword byte buflen ⟨⟨before,[]⟩,0⟩
  { f with output := { f.output with strbuf := f.output.strbuf.store strbuflen [0] } }

inductive Side where
  | client
  | server (stackUsername stackPassword : Bool)

def toString (side : Side) (before byte : Nat → UInt8) (buflen : Nat) : Formatted :=
  match side with
  | .client => mqttFormatToClientString p strbuflen before byte buflen
  | .server stackUsername stackPassword =>
    mqttFormatToServerString p strbuflen stackUsername stackPassword before byte buflen

end Format

/- Nothing is stored outside of strbuf and the local arrays, and strbuf holds a string. -/
structure Contained (strbuflen : Nat) (f : Formatted) : Prop where
  inside : ∀ s ∈ f.output.strbuf.stores, s.1 + s.2.length ≤ strbuflen
  arrays : f.elements ≤ 1
  ended : ∃ i, i < strbuflen ∧ f.output.strbuf.byte i = 0

/- A packet of a type that the client's formatter knows, taken by its deserializer. -/
def Accepted (byte : Nat → UInt8) (buflen : Nat) : Prop :=
  match MsgType.ofCode (MqttHeader.type (byte 0)) with
  | some .connack => (mqttDeserializeConnack byte buflen).rc = 1
  | some .publish => (mqttDeserializePublish byte buflen).rc = 1
  | some .puback | some .pubrec | some .pubrel | some .pubcomp => (mqttDeserializeAck byte buflen).rc = 1
  | some .suback => (mqttDeserializeSuback byte 1 buflen).rc = 1
  | some .unsuback => (mqttDeserializeUnsuback byte buflen).rc = 1
  | some .pingreq | some .pingresp | some .disconnect => True
  | _ => False

def AckType (byte : Nat → UInt8) : Prop :=
  MsgType.ofCode (MqttHeader.type (byte 0)) ∈ [some .puback,some .pubrec,some .pubrel,some .pubcomp]

structure ClientFits (p : Snprintf) (strbuflen : Nat) (before byte : Nat → UInt8) (buflen : Nat) : Prop where
  text : Accepted byte buflen ∨ ∃ i, i < strbuflen ∧ before i = 0
  grants : MsgType.ofCode (MqttHeader.type (byte 0)) = some .suback →
    (mqttDeserializeSuback byte 1 buflen).granted.length ≤ 1
  dup : AckType byte → (mqttDeserializeAck byte buflen).rc = 1 → (mqttDeserializeAck byte buflen).dup ≠ 0 →
    (p.text (.ack (mqttPacketGetName (mqttDeserializeAck byte buflen).packettype)
      (mqttDeserializeAck byte buflen).packetid)).length ≤ strbuflen

/-! One call, and a second one behind it -/

def fresh (before : Nat → UInt8) : Output := ⟨⟨before,[]⟩,0⟩

structure Written (strbuflen : Nat) (o : Output) : Prop where
  inside : ∀ s ∈ o.strbuf.stores, s.1 + s.2.length ≤ strbuflen
  ended : ∃ i, i < strbuflen ∧ o.strbuf.byte i = 0

section Calls
variable {p : Snprintf} {strbuflen : Nat}

theorem sizeOf {n : Nat} (small : n < 2^31) : size n = n := by
  unfold size
  omega

/- A call with room stores a string there. -/
theorem snprintfRoom (m : Memory) (s : Nat) {n : Nat} (room : 0 < n) (small : n < 2^31) (text : List UInt8) :
    ∃ bs, snprintf m s n text = m.store s bs ∧ bs.length ≤ n ∧ ∃ i, i < bs.length ∧ bs[i]? = some 0 := by
  unfold snprintf
  rw [sizeOf small, if_neg (by omega)]
  refine ⟨_,rfl,?_,(text.take (n - 1)).length,?_,?_⟩
  · simp only [List.length_append, List.length_take, List.length_singleton]
    omega
  · simp
  · simp

theorem printRoom (small : strbuflen < 2^31) {o : Output} (room : o.strindex < strbuflen) (t : Text)
    (inside : ∀ s ∈ o.strbuf.stores, s.1 + s.2.length ≤ strbuflen) : Written strbuflen (print p strbuflen t o) := by
  have left : (strbuflen : Int) - o.strindex = (strbuflen - o.strindex : Nat) := by omega
  obtain ⟨bs,stored,short,i,within,zero⟩ := snprintfRoom o.strbuf o.strindex (Nat.sub_pos_of_lt room) (by omega) (p.text t)
  unfold print
  rw [left, stored]
  refine ⟨?_,o.strindex + i,by omega,?_⟩
  · intro s there
    rcases List.mem_append.mp there with old | new
    · exact inside s old
    · rw [List.mem_singleton.mp new]
      show o.strindex + bs.length ≤ strbuflen
      omega
  · rw [List.getElem?_eq_getElem within] at zero
    exact (Memory.storeInside o.strbuf o.strindex bs i within).trans (Option.some.inj zero)

/- Right at the end nothing is stored. -/
theorem printEnd {o : Output} (here : o.strindex = strbuflen) (t : Text) :
    (print p strbuflen t o).strbuf = o.strbuf := by
  unfold print snprintf
  rw [here, Int.sub_self]
  rfl

/- Behind the end the size is large, and the text is stored there. -/
theorem printBehind (small : strbuflen < 2^31) {o : Output} (behind : strbuflen < o.strindex) (index : o.strindex < 2^31)
    (t : Text) : ¬Written strbuflen (print p strbuflen t o) := by
  have large : size ((strbuflen : Int) - o.strindex) ≠ 0 := by
    unfold size
    omega
  intro written
  unfold print snprintf at written
  rw [if_neg large] at written
  have past := written.inside _ (List.mem_append_right _ (List.mem_singleton_self _))
  dsimp only at past
  omega

theorem freshWritten (positive : 0 < strbuflen) (small : strbuflen < 2^31) (before : Nat → UInt8) (t : Text) :
    Written strbuflen (print p strbuflen t (fresh before)) := printRoom small positive t nofun

theorem ackWritten (positive : 0 < strbuflen) (small : strbuflen < 2^31) (before : Nat → UInt8) (packettype dup : Nat)
    (packetid : Option UInt64) :
    Written strbuflen (stringFormatAck p strbuflen packettype dup packetid (fresh before)) ↔
      (dup ≠ 0 → (p.text (.ack (mqttPacketGetName packettype) packetid)).length ≤ strbuflen) := by
  let t := Text.ack (mqttPacketGetName packettype) packetid
  have first : Written strbuflen (print p strbuflen t (fresh before)) := freshWritten positive small before t
  have index : (print p strbuflen t (fresh before)).strindex = (p.text t).length := Nat.zero_add _
  unfold stringFormatAck
  by_cases again : dup ≠ 0
  · rw [if_pos again]
    rcases Nat.lt_trichotomy (p.text t).length strbuflen with room | here | behind
    · exact ⟨fun _ _ => Nat.le_of_lt room,fun _ => printRoom small (index ▸ room) _ first.inside⟩
    · have same := printEnd (p := p) (index.trans here) (.dup dup)
      refine ⟨fun _ _ => Nat.le_of_eq here,fun _ => ⟨?_,?_⟩⟩
      · rw [same]
        exact first.inside
      · rw [same]
        exact first.ended
    · refine ⟨fun written => ?_,fun fits => absurd (fits again) (Nat.not_le_of_lt behind)⟩
      exact absurd written (printBehind small (index ▸ behind) (index ▸ p.int t) _)
  · rw [if_neg again]
    exact ⟨fun _ dup => absurd dup again,fun _ => first⟩

end Calls

/-! The client's packets -/

section Client
variable {p : Snprintf} {strbuflen : Nat} {before byte : Nat → UInt8} {buflen : Nat}

theorem contained {f : Formatted} (few : f.elements ≤ 1) : Contained strbuflen f ↔ Written strbuflen f.output :=
  ⟨fun h => ⟨h.inside,h.ended⟩,fun h => ⟨h.inside,few,h.ended⟩⟩

/- What was not formatted is as the caller left it. -/
theorem freshHeld : Written strbuflen (fresh before) ↔ ∃ i, i < strbuflen ∧ before i = 0 :=
  ⟨fun written => written.ended,fun held => ⟨nofun,held⟩⟩

theorem printedOr (positive : 0 < strbuflen) (small : strbuflen < 2^31) (t : Text) (accepted : Prop) [Decidable accepted] :
    Written strbuflen (if accepted then print p strbuflen t (fresh before) else fresh before) ↔
      accepted ∨ ∃ i, i < strbuflen ∧ before i = 0 := by
  split
  · rename_i yes
    exact ⟨fun _ => .inl yes,fun _ => freshWritten positive small before t⟩
  · rename_i no
    exact freshHeld.trans (or_iff_right no).symm

/- A type with neither a second call nor a local array. -/
theorem plainFits (notSuback : MsgType.ofCode (MqttHeader.type (byte 0)) ≠ some .suback) (notAck : ¬AckType byte) :
    ClientFits p strbuflen before byte buflen ↔ Accepted byte buflen ∨ ∃ i, i < strbuflen ∧ before i = 0 :=
  ⟨fun fits => fits.text,fun text => ⟨text,fun same => absurd same notSuback,fun ack => absurd ack notAck⟩⟩

theorem formatAckFits (positive : 0 < strbuflen) (small : strbuflen < 2^31) (ack : AckType byte)
    (accepts : Accepted byte buflen ↔ (mqttDeserializeAck byte buflen).rc = 1) :
    Contained strbuflen (formatAck p strbuflen byte buflen (fresh before)) ↔ ClientFits p strbuflen before byte buflen := by
  have notSuback : MsgType.ofCode (MqttHeader.type (byte 0)) ≠ some .suback := by
    intro same
    rw [AckType, same] at ack
    exact absurd ack (by decide)
  rw [contained (Nat.zero_le 1), formatAck]
  dsimp only
  by_cases taken : (mqttDeserializeAck byte buflen).rc = 1
  · rw [if_pos taken, ackWritten positive small]
    exact ⟨fun dup => ⟨.inl (accepts.mpr taken),fun same => absurd same notSuback,fun _ _ => dup⟩,fun fits => fits.dup ack taken⟩
  · rw [if_neg taken, freshHeld]
    refine ⟨fun held => ⟨.inr held,fun same => absurd same notSuback,fun _ yes => absurd yes taken⟩,fun fits => ?_⟩
    exact fits.text.resolve_left fun accepted => taken (accepts.mp accepted)

theorem formatNameFits (positive : 0 < strbuflen) (small : strbuflen < 2^31) :
    Contained strbuflen (formatName p strbuflen byte (fresh before)) :=
  (contained (Nat.zero_le 1)).mpr (freshWritten positive small before _)

theorem unsubackFits (positive : 0 < strbuflen) (small : strbuflen < 2^31) (out : AckOut) :
    Written strbuflen (if out.rc = 1 then stringFormatAck p strbuflen MsgType.unsuback.code 0 out.packetid (fresh before)
      else fresh before) ↔ out.rc = 1 ∨ ∃ i, i < strbuflen ∧ before i = 0 :=
  printedOr positive small (.ack (mqttPacketGetName MsgType.unsuback.code) out.packetid) (out.rc = 1)

theorem clientFits (positive : 0 < strbuflen) (small : strbuflen < 2^31) :
    Contained strbuflen (mqttFormatToClientString p strbuflen before byte buflen) ↔
      ClientFits p strbuflen before byte buflen := by
  have accepted : Accepted byte buflen ↔ Accepted byte buflen := Iff.rfl
  rw [mqttFormatToClientString]
  conv at accepted => rhs; rw [Accepted]
  have ackType : AckType byte ↔ AckType byte := Iff.rfl
  conv at ackType => rhs; rw [AckType]
  have plain := @plainFits p strbuflen before byte buflen
  cases kind : MsgType.ofCode (MqttHeader.type (byte 0)) with
  | none =>
    rw [kind] at accepted ackType plain
    rw [plain nofun (fun ack => absurd (ackType.mp ack) (by decide)), accepted]
    exact (contained (Nat.zero_le 1)).trans (freshHeld.trans (or_iff_right not_false).symm)
  | some t =>
    rw [kind] at accepted ackType plain
    cases t with
    | connect | subscribe | unsubscribe | extcmd =>
      rw [plain nofun (fun ack => absurd (ackType.mp ack) (by decide)), accepted]
      exact (contained (Nat.zero_le 1)).trans (freshHeld.trans (or_iff_right not_false).symm)
    | connack | publish =>
      rw [plain nofun (fun ack => absurd (ackType.mp ack) (by decide)), accepted]
      exact (contained (Nat.zero_le 1)).trans (printedOr positive small _ _)
    | unsuback =>
      rw [plain nofun (fun ack => absurd (ackType.mp ack) (by decide)), accepted]
      exact (contained (Nat.zero_le 1)).trans (unsubackFits positive small _)
    | puback | pubrec | pubrel | pubcomp => exact formatAckFits positive small (ackType.mpr (by decide)) accepted
    | pingreq | pingresp | disconnect =>
      rw [plain nofun (fun ack => absurd (ackType.mp ack) (by decide)), accepted]
      exact ⟨fun _ => .inl trivial,fun _ => formatNameFits positive small⟩
    | suback =>
      have printed := @printedOr p strbuflen before positive small (.suback (mqttDeserializeSuback byte 1 buflen))
        ((mqttDeserializeSuback byte 1 buflen).rc = 1)
      constructor
      · intro held
        have written : Written strbuflen _ := ⟨held.inside,held.ended⟩
        exact ⟨(printed.mp written).imp_left accepted.mpr,fun _ => held.arrays,fun ack => absurd (ackType.mp ack) (by decide)⟩
      · intro fits
        have written := printed.mpr (fits.text.imp_left accepted.mp)
        exact ⟨written.inside,fits.grants kind,written.ended⟩

end Client

theorem serverBehind (p : Snprintf) (strbuflen : Nat) (stackUsername stackPassword : Bool) (before byte : Nat → UInt8)
    (buflen : Nat) :
    ¬Contained strbuflen (mqttFormatToServerString p strbuflen stackUsername stackPassword before byte buflen) := by
  intro held
  have past := held.inside (strbuflen,[0]) (List.mem_append_right _ (List.mem_singleton_self _))
  exact absurd past (Nat.not_le_of_lt (Nat.lt_succ_self _))

theorem packetFormat (p : Snprintf) (side : Side) (strbuflen : Nat) (positive : 1 ≤ strbuflen) (small : strbuflen < 2^31)
    (before byte : Nat → UInt8) (buflen : Nat) :
    Contained strbuflen (toString p strbuflen side before byte buflen) ↔
      side = .client ∧ ClientFits p strbuflen before byte buflen := by
  cases side with
  | client => exact (clientFits positive small).trans (and_iff_right rfl).symm
  | server stackUsername stackPassword =>
    exact ⟨fun held => absurd held (serverBehind p strbuflen stackUsername stackPassword before byte buflen),
      fun h => (by cases h.1)⟩

/- snprintf for the names of packets, and for an ack of id 7 with its dup flag. -/
def printed : Text → List UInt8
  | .name name => name.take 16
  | .ack name _ => name.take 16 ++ [44,32,112,97,99,107,101,116,32,105,100,32,55]
  | .dup _ => [44,32,100,117,112,32,49]
  | _ => []

theorem printedShort (t : Text) : (printed t).length < 2^31 := by
  have short (name : List UInt8) : (name.take 16).length ≤ 16 := List.length_take_le ..
  cases t with
  | name name => exact Nat.lt_of_le_of_lt (short name) (by decide)
  | ack name id =>
    have first := short name
    simp only [printed, List.length_append, List.length_cons, List.length_nil]
    omega
  | _ => exact Nat.le_of_ble_eq_true rfl

def texts : Snprintf := ⟨printed,printedShort⟩

def dupPubrel : Nat → UInt8 := fun i => [0x6a,8,0,0,0,0,0,0,0,7].getD i 0

theorem dupPubrelContained : Contained 32 (toString texts 32 .client (fun _ => 255) dupPubrel 10) :=
  (packetFormat texts .client 32 (by decide) (by decide) (fun _ => 255) dupPubrel 10).mpr
    ⟨rfl,.inl rfl,nofun,fun _ _ _ => by decide⟩

def pingresp : Nat → UInt8 := fun i => [0xd0,0].getD i 0

/- The byte behind strbuf is stored for a PINGRESP already. -/
theorem pingrespBehind : (toString texts 16 (.server false false) (fun _ => 255) pingresp 2).output.strbuf.stores =
      [(0,[80,73,78,71,82,69,83,80,0]),(16,[0])] ∧
    ¬Contained 16 (toString texts 16 (.server false false) (fun _ => 255) pingresp 2) := by
  have stores : (toString texts 16 (.server false false) (fun _ => 255) pingresp 2).output.strbuf.stores =
      [(0,[80,73,78,71,82,69,83,80,0]),(16,[0])] := by decide
  refine ⟨stores,fun held => ?_⟩
  have past := held.inside (16,[0]) (by rw [stores]; decide)
  exact absurd past (by decide)

end YunbaIot.PacketFormat
