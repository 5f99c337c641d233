import YunbaIot.MqttClient
import YunbaIot.PlainText
import YunbaIot.UserParameters

/-! The two requests of MQTTClient.c to the ticket and the registration server, each answered
by a version byte, a length and a JSON text, whose members are copied out. Memory that the
code does not own is a fault, so an answer that makes one has no result. -/
namespace YunbaIot.ServerReply
open Block CJson FreeRtosTimer MqttPacket MqttTransport
open PlainText (Plain plainParse)
open UserParameters (ParmString loadUserParm)

variable {τ : Type}

/-! Requests -/

def memLen : Nat := 256
def httpTimeout : UInt32 := 3000

-- the members a, n, v and o
def hostJson (appkey : ParmString) : List UInt8 :=
  [123,34,97,34,58,34] ++ appkey.string.bytes ++
    [34,44,34,110,34,58,34,49,34,44,34,118,34,58,34,118,49,46,48,46,48,34,44,34,111,34,58,34,49,34,125]

-- the members a, p and d
def setupJson (appkey deviceid : ParmString) : List UInt8 :=
  [123,34,97,34,58,32,34] ++ appkey.string.bytes ++ [34,44,32,34,112,34,58,52,44,32,34,100,34,58,32,34] ++
    deviceid.string.bytes ++ [34,125]

def request (json : List UInt8) : List UInt8 := 1 :: writeInt json.length ++ json

/- The requests fit into buf, and with their NUL into json_data. -/
theorem requestsFit (appkey deviceid : ParmString) :
    (request (hostJson appkey)).length < memLen ∧ (request (setupJson appkey deviceid)).length < memLen := by
  have key : appkey.string.bytes.length < 54 := appkey.fits
  have id : deviceid.string.bytes.length < 54 := deviceid.fits
  constructor
  · simp only [request, hostJson, writeInt, memLen, List.length_append, List.length_cons, List.length_nil]
    omega
  · simp only [request, setupJson, writeInt, memLen, List.length_append, List.length_cons, List.length_nil]
    omega

/- What buf holds behind the read, whatever the read returns; none when the request was not
written whole. -/
def exchange (net : Network τ) (json : List UInt8) (wire : Wire τ) : Option (List UInt8) :=
  let sent := net.mqttwrite (request json) httpTimeout wire
  if sent.1.rc = json.length + 3 then
    let stored := (net.mqttread memLen httpTimeout sent.2).1.stored
    some (stored ++ List.replicate (memLen - stored.length) 0)
  else none

theorem exchangeLength {net : Network τ} {json : List UInt8} {wire : Wire τ} {buf : List UInt8}
    (answered : exchange net json wire = some buf) : buf.length = memLen := by
  unfold exchange at answered
  dsimp only at answered
  split at answered
  · have fits := net.readFits memLen httpTimeout (net.mqttwrite (request json) httpTimeout wire).2
    rw [← Option.some.inj answered, List.length_append, List.length_replicate]
    omega
  · cases answered

/-! Replies -/

def announced (buf : List UInt8) : Nat := (buf.getD 1 0).toNat * 256 + (buf.getD 2 0).toNat

structure Returned where
  rc : Int
  outputs : List (List UInt8)
  deriving DecidableEq, Repr

/- An output: the member it takes, and the block it is copied into. -/
abbrev Output := List UInt8 × List UInt8

def copyMembers (root : Item) : List Output → Defined (List (List UInt8))
  | [] => .ok []
  | output :: later => do
    let item ← deref (cJsonGetObjectItem root output.1)
    let valuestring ← deref item.valuestring
    let copied ← strcpy output.2 valuestring
    (copied :: ·) <$> copyMembers root later

section Replies
variable (numberValue : List UInt8 → Int)

/- The JSON text, when it is as long as announced. -/
def replyRoot (buf : List UInt8) : Defined (Option Item) := do
  let json ← cString (buf.drop 3)
  if announced buf = json.length then cJsonParse numberValue (buf.drop 3) else .ok none

/- What both requests do with their answer. -/
def takeReply (least : Nat) (outputs : List Output) : Option (List UInt8) → Defined Returned
  | none => .ok ⟨MqttClient.failure,outputs.map Prod.snd⟩
  | some buf => do
    match ← replyRoot numberValue buf with
    | none => .ok ⟨MqttClient.failure,outputs.map Prod.snd⟩
    | some root =>
      if least ≤ cJsonGetArraySize root then (⟨MqttClient.success,·⟩) <$> copyMembers root outputs
      else .ok ⟨MqttClient.failure,outputs.map Prod.snd⟩

/-! The requests -/

abbrev Buf (n : Nat) := {bytes : List UInt8 // bytes.length = n}

structure RegInfo where
  clientId : Buf 56
  username : Buf 56
  password : Buf 56
  deviceId : Buf 56

def hostOutputs (url : Buf 128) : List Output := [([99],url.val)]

def setupOutputs (info : RegInfo) : List Output :=
  [([99],info.clientId.val),([117],info.username.val),([112],info.password.val),([100],info.deviceId.val)]

/- What malloc has for buf and json_data. -/
structure Heap where
  buf : Bool
  jsonData : Bool

def mqttClientGetHostV2 (net : Network τ) (heap : Heap) (appkey : ParmString) (url : Buf 128) (wire : Wire τ) :
    Defined Returned :=
  if heap.buf then takeReply numberValue 1 (hostOutputs url) (exchange net (hostJson appkey) wire)
  else .ok ⟨MqttClient.failure,(hostOutputs url).map Prod.snd⟩

def mqttClientSetupWithAppkeyV2 (net : Network τ) (heap : Heap) (appkey : Option ParmString) (deviceid : ParmString)
    (info : RegInfo) (wire : Wire τ) : Defined Returned :=
  match appkey with
  | none => .ok ⟨MqttClient.failure,(setupOutputs info).map Prod.snd⟩
  | some appkey =>
    if heap.buf then
      if heap.jsonData then takeReply numberValue 4 (setupOutputs info) (exchange net (setupJson appkey deviceid) wire)
      else .error .null
    else .ok ⟨MqttClient.failure,(setupOutputs info).map Prod.snd⟩

/-! What a reply may do -/

/- The outputs behind a copy: each holds its member's string, its NUL, and the rest it held. -/
inductive Copied (root : Item) : List Output → List (List UInt8) → Prop where
  | nil : Copied root [] []
  | cons {name dest s item later copies} (member : cJsonGetObjectItem root name = some item)
      (value : item.valuestring = some s) (fits : s.length < dest.length) (rest : Copied root later copies) :
      Copied root ((name,dest) :: later) ((s ++ 0 :: dest.drop (s.length + 1)) :: copies)

/- FAILURE with the outputs as they were, or SUCCESS with the members of the reply. -/
def Answers (outputs : List Output) (reply : Option (List UInt8)) (result : Defined Returned) : Prop :=
  result = .ok ⟨MqttClient.failure,outputs.map Prod.snd⟩ ∨
    ∃ buf root copies, reply = some buf ∧ replyRoot numberValue buf = .ok (some root) ∧ Copied root outputs copies ∧
      result = .ok ⟨MqttClient.success,copies⟩

/- The outputs' members are there, are strings and fit. -/
def Members (root : Item) (outputs : List Output) : Prop :=
  ∀ output ∈ outputs, ∃ item s, cJsonGetObjectItem root output.1 = some item ∧ item.valuestring = some s ∧
    s.length < output.2.length

/- A reply with a NUL behind the length; where the text has the announced length, one that the
parser reads inside of buf, and with enough children one that has the members. -/
def Harmless (least : Nat) (outputs : List Output) (reply : Option (List UInt8)) : Prop :=
  ∀ buf, reply = some buf → 0 ∈ buf.drop 3 ∧ (announced buf = (text (buf.drop 3)).length →
    ∃ parsed, cJsonParse numberValue (buf.drop 3) = .ok parsed ∧
      ∀ root, parsed = some root → least ≤ cJsonGetArraySize root → Members root outputs)

/-! Copies -/

theorem copyMembersOk {root : Item} {outputs : List Output} {copies : List (List UInt8)} :
    copyMembers root outputs = .ok copies ↔ Copied root outputs copies := by
  induction outputs generalizing copies with
  | nil =>
    constructor
    · intro copied
      cases copied
      exact .nil
    · intro copied
      cases copied
      rfl
  | cons output later ih =>
    rw [copyMembers]
    constructor
    · intro copied
      obtain ⟨item,found,copied⟩ := bindOk.mp copied
      obtain ⟨s,value,copied⟩ := bindOk.mp copied
      obtain ⟨first,stored,copied⟩ := bindOk.mp copied
      obtain ⟨rest,behind,rfl⟩ := mapOk.mp copied
      obtain ⟨fits,rfl⟩ := strcpyOk.mp stored
      exact .cons (derefOk.mp found) (derefOk.mp value) fits (ih.mp behind)
    · intro copied
      cases copied with
      | cons member value fits rest =>
        refine bindOk.mpr ⟨_,derefOk.mpr member,bindOk.mpr ⟨_,derefOk.mpr value,?_⟩⟩
        exact bindOk.mpr ⟨_,strcpyOk.mpr ⟨fits,rfl⟩,mapOk.mpr ⟨_,ih.mpr rest,rfl⟩⟩

theorem membersCopied {root : Item} {outputs : List Output} : Members root outputs ↔ ∃ copies, Copied root outputs copies := by
  induction outputs with
  | nil => exact ⟨fun _ => ⟨[],.nil⟩,fun _ => nofun⟩
  | cons output later ih =>
    constructor
    · intro members
      obtain ⟨item,s,member,value,fits⟩ := members output List.mem_cons_self
      obtain ⟨copies,rest⟩ := ih.mp fun o inside => members o (List.mem_cons_of_mem _ inside)
      exact ⟨_,.cons member value fits rest⟩
    · rintro ⟨copies,copied⟩ o inside
      cases copied with
      | cons member value fits rest =>
        rcases List.mem_cons.mp inside with rfl | behind
        · exact ⟨_,_,member,value,fits⟩
        · exact ih.mpr ⟨_,rest⟩ o behind

/-! Replies -/

section Reply
variable {numberValue : List UInt8 → Int} {least : Nat} {outputs : List Output}

theorem takeReplyAnswers {buf : List UInt8} {root : Option Item} (parsed : replyRoot numberValue buf = .ok root)
    (members : ∀ r, root = some r → least ≤ cJsonGetArraySize r → Members r outputs) :
    Answers numberValue outputs (some buf) (takeReply numberValue least outputs (some buf)) := by
  unfold takeReply
  dsimp only
  rw [parsed]
  cases root with
  | none => exact .inl rfl
  | some r =>
    show Answers numberValue outputs (some buf) (if least ≤ cJsonGetArraySize r then _ else _)
    split
    · rename_i enough
      obtain ⟨copies,copied⟩ := membersCopied.mp (members r rfl enough)
      rw [copyMembersOk.mpr copied]
      exact .inr ⟨buf,r,copies,rfl,parsed,copied,rfl⟩
    · exact .inl rfl

theorem takeReplyMembers {buf : List UInt8} {result : Returned}
    (taken : takeReply numberValue least outputs (some buf) = .ok result) :
    ∃ root, replyRoot numberValue buf = .ok root ∧
      ∀ r, root = some r → least ≤ cJsonGetArraySize r → Members r outputs := by
  unfold takeReply at taken
  obtain ⟨root,parsed,taken⟩ := bindOk.mp taken
  refine ⟨root,parsed,?_⟩
  rintro r rfl enough
  dsimp only at taken
  rw [if_pos enough] at taken
  obtain ⟨copies,copied,_⟩ := mapOk.mp taken
  exact membersCopied.mpr ⟨copies,copyMembersOk.mp copied⟩

theorem replyRootOk {buf : List UInt8} {root : Option Item} : replyRoot numberValue buf = .ok root ↔
    0 ∈ buf.drop 3 ∧ if announced buf = (text (buf.drop 3)).length then cJsonParse numberValue (buf.drop 3) = .ok root
      else root = none := by
  unfold replyRoot
  rw [bindOk]
  constructor
  · rintro ⟨json,string,parsed⟩
    obtain ⟨ended,rfl⟩ := cStringOk.mp string
    refine ⟨ended,?_⟩
    split at parsed
    · rename_i same
      rw [if_pos same]
      exact parsed
    · rename_i other
      rw [if_neg other]
      exact (Except.ok.inj parsed).symm
  · rintro ⟨ended,parsed⟩
    refine ⟨_,cStringEnded ended,?_⟩
    split at parsed
    · rename_i same
      rw [if_pos same]
      exact parsed
    · rename_i other
      rw [if_neg other, parsed]

theorem answersHarmless (reply : Option (List UInt8)) :
    Answers numberValue outputs reply (takeReply numberValue least outputs reply) ↔
      Harmless numberValue least outputs reply := by
  cases reply with
  | none => exact ⟨fun _ => nofun,fun _ => .inl rfl⟩
  | some buf =>
    constructor
    · intro answers
      have defined : ∃ result, takeReply numberValue least outputs (some buf) = .ok result := by
        rcases answers with same | ⟨_,_,_,_,_,_,same⟩
        · exact ⟨_,same⟩
        · exact ⟨_,same⟩
      obtain ⟨result,taken⟩ := defined
      obtain ⟨root,parsed,members⟩ := takeReplyMembers taken
      obtain ⟨ended,parsed⟩ := replyRootOk.mp parsed
      rintro buf' same
      cases same
      refine ⟨ended,fun whole => ?_⟩
      rw [if_pos whole] at parsed
      exact ⟨root,parsed,members⟩
    · intro harmless
      obtain ⟨ended,whole⟩ := harmless buf rfl
      by_cases same : announced buf = (text (buf.drop 3)).length
      · obtain ⟨root,parsed,members⟩ := whole same
        exact takeReplyAnswers (replyRootOk.mpr ⟨ended,by rw [if_pos same]; exact parsed⟩) members
      · have unread : replyRoot numberValue buf = .ok none := replyRootOk.mpr ⟨ended,by rw [if_neg same]⟩
        exact takeReplyAnswers unread fun r none => by cases none

/- Where the text has no backslash, the members alone make a reply harmless. -/
theorem plainHarmless {buf : List UInt8} (plain : Plain (buf.drop 3)) :
    Harmless numberValue least outputs (some buf) ↔ (announced buf = (text (buf.drop 3)).length →
      ∀ root, cJsonParse numberValue (buf.drop 3) = .ok (some root) → least ≤ cJsonGetArraySize root →
        Members root outputs) := by
  constructor
  · intro harmless whole root read enough
    obtain ⟨parsed,same,members⟩ := (harmless buf rfl).2 whole
    exact members root (Except.ok.inj (same.symm.trans read)) enough
  · rintro members _ ⟨⟩
    refine ⟨plain.ended,fun whole => ?_⟩
    obtain ⟨parsed,read⟩ := plainParse numberValue plain
    exact ⟨parsed,read,fun root same => members whole root (read.trans (congrArg Except.ok same))⟩

end Reply

section Requests
variable {numberValue : List UInt8 → Int} (net : Network τ) (heap : Heap) (wire : Wire τ)

theorem hostAnswers (appkey : ParmString) (url : Buf 128) :
    Answers numberValue (hostOutputs url) (exchange net (hostJson appkey) wire)
        (mqttClientGetHostV2 numberValue net heap appkey url wire) ↔
      heap.buf = false ∨ Harmless numberValue 1 (hostOutputs url) (exchange net (hostJson appkey) wire) := by
  unfold mqttClientGetHostV2
  by_cases held : heap.buf = true
  · rw [if_pos held, answersHarmless]
    exact (or_iff_right (by rw [held]; decide)).symm
  · rw [if_neg held]
    exact ⟨fun _ => .inl (Bool.eq_false_iff.mpr held),fun _ => .inl rfl⟩

theorem setupAnswers (appkey : Option ParmString) (deviceid : ParmString) (info : RegInfo) :
    Answers numberValue (setupOutputs info) (appkey.bind fun key => exchange net (setupJson key deviceid) wire)
        (mqttClientSetupWithAppkeyV2 numberValue net heap appkey deviceid info wire) ↔
      heap.buf = false ∨ ∀ key, appkey = some key → heap.jsonData = true ∧
        Harmless numberValue 4 (setupOutputs info) (exchange net (setupJson key deviceid) wire) := by
  unfold mqttClientSetupWithAppkeyV2
  cases appkey with
  | none => exact ⟨fun _ => .inr nofun,fun _ => .inl rfl⟩
  | some key =>
    dsimp only [Option.bind]
    by_cases held : heap.buf = true
    · rw [if_pos held]
      by_cases json : heap.jsonData = true
      · rw [if_pos json, answersHarmless]
        refine ⟨fun harmless => .inr fun _ same => ?_,fun either => ?_⟩
        · cases same
          exact ⟨json,harmless⟩
        · exact (either.resolve_left (by rw [held]; decide) key rfl).2
      · rw [if_neg json]
        refine ⟨fun answers => ?_,fun either => absurd (either.resolve_left (by rw [held]; decide) key rfl).1 json⟩
        rcases answers with same | ⟨_,_,_,_,_,_,same⟩ <;> cases same
    · rw [if_neg held]
      exact ⟨fun _ => .inl (Bool.eq_false_iff.mpr held),fun _ => .inl rfl⟩

end Requests

/-- Neither request is harmed by what the servers return, exactly when its buffers could not be
had, when it was not written whole, and for harmless replies. -/
theorem serverReplies (net : Network τ) (heap : Heap) (appkey : ParmString) (setupKey : Option ParmString)
    (deviceid : ParmString) (url : Buf 128) (info : RegInfo) (wire : Wire τ) :
    (Answers numberValue (hostOutputs url) (exchange net (hostJson appkey) wire)
        (mqttClientGetHostV2 numberValue net heap appkey url wire) ↔
      heap.buf = false ∨ Harmless numberValue 1 (hostOutputs url) (exchange net (hostJson appkey) wire)) ∧
    (Answers numberValue (setupOutputs info) (setupKey.bind fun key => exchange net (setupJson key deviceid) wire)
        (mqttClientSetupWithAppkeyV2 numberValue net heap setupKey deviceid info wire) ↔
      heap.buf = false ∨ ∀ key, setupKey = some key → heap.jsonData = true ∧
        Harmless numberValue 4 (setupOutputs info) (exchange net (setupJson key deviceid) wire)) :=
  ⟨hostAnswers net heap wire appkey url,setupAnswers net heap wire setupKey deviceid info⟩

end Replies

/-! A reply without the member -/

def clearedUrl : Buf 128 := ⟨List.replicate 128 0,List.length_replicate⟩

/- A version byte, the length 7 and the object with a member x only. -/
def memberless : Wire (List UInt8) := ⟨[],[1,0,7,123,34,120,34,58,49,125]⟩

theorem memberlessFaults :
    mqttClientGetHostV2 (fun _ => 1) pipe ⟨true,true⟩ loadUserParm.appkey clearedUrl memberless = .error .null ∧
      ¬Answers (fun _ => 1) (hostOutputs clearedUrl) (exchange pipe (hostJson loadUserParm.appkey) memberless)
        (mqttClientGetHostV2 (fun _ => 1) pipe ⟨true,true⟩ loadUserParm.appkey clearedUrl memberless) := by
  have fault : mqttClientGetHostV2 (fun _ => 1) pipe ⟨true,true⟩ loadUserParm.appkey clearedUrl memberless = .error .null := by
    decide +kernel
  refine ⟨fault,fun answers => ?_⟩
  rw [fault] at answers
  rcases answers with same | ⟨_,_,_,_,_,_,same⟩ <;> cases same

end YunbaIot.ServerReply
