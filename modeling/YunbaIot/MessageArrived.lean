import YunbaIot.PlainText
import YunbaIot.UserPlug

/-! messageArrived of mqtt_client.c for PLUG_DEVICE: topic and payload are copied into blocks of
100 and 256 bytes, used as C strings, and read as a command for the relay. -/
namespace YunbaIot.MessageArrived
open Block CJson UserPlug
open PlainText (Plain plainParse)
open UserParameters (UserParm)

/-! Commands -/

def devidName : List UInt8 := [100,101,118,105,100]
def cmdName : List UInt8 := [99,109,100]
def statusName : List UInt8 := [115,116,97,116,117,115]
def plugSetName : List UInt8 := [112,108,117,103,95,115,101,116]
def plugGetName : List UInt8 := [112,108,117,103,95,103,101,116]

inductive Command where
  | ignored
  | plugSet (status : BitVec 32)
  | plugGet
  deriving DecidableEq, Repr

-- valueint as it is: the call finds no prototype that would make it a bool
def plugSet : Option Item → Command
  | some (.number n) => .plugSet (.ofInt 32 n)
  | _ => .ignored

def readCmd (root : Item) : Option Item → Defined Command
  | none => .ok .ignored
  | some pJcmd => do
    let cmd ← deref pJcmd.valuestring
    if cmd = plugSetName then .ok (plugSet (cJsonGetObjectItem root statusName))
    else if cmd = plugGetName then .ok .plugGet
    else .ok .ignored

def readCommand (parm : UserParm) (root : Item) : Defined Command :=
  match cJsonGetObjectItem root devidName with
  | none => .ok .ignored
  | some pJdevid => do
    let devid ← deref pJdevid.valuestring
    if parm.deviceid.id.bytes = devid then readCmd root (cJsonGetObjectItem root cmdName) else .ok .ignored

def perform (board : Board) (parm : UserParm) (p : Plug) : Command → Plug
  | .ignored => p
  | .plugSet status => userPlugSetStatus board status (some parm.deviceid) p
  | .plugGet => { p with queue := p.queue ++ [statusReport (userPlugGetStatus p) parm.deviceid] }

/-! Messages -/

structure Delivered where
  topicName : List UInt8
  payload : List UInt8

/- What zalloc has for buf and topic. -/
structure Heap where
  buf : Bool
  topic : Bool

def zeroed (n : Nat) : List UInt8 := List.replicate n 0

-- memset of a null pointer when there is no block
def copyTopic (heap : Heap) (topicName : List UInt8) : Defined (List UInt8) :=
  if heap.topic then memcpy (zeroed 100) 0 topicName else .error .null

section Messages
variable (numberValue : List UInt8 → Int) (board : Board) (parm : UserParm)

def obey (p : Plug) (buf : List UInt8) : Defined Plug := do
  match ← cJsonParse numberValue buf with
  | none => .ok p
  | some root => perform board parm p <$> readCommand parm root

def messageArrived (heap : Heap) (m : Delivered) (p : Plug) : Defined Plug :=
  if 256 < m.payload.length ∨ 100 < m.topicName.length then .ok p
  else if heap.buf = false then .ok p
  else do
    let buf ← memcpy (zeroed 256) 0 m.payload
    -- printed as a string
    let _ ← cString buf
    let topic ← copyTopic heap m.topicName
    let name ← cString topic
    if name = parm.aliasName.string.bytes then obey numberValue board parm p buf else .ok p

/-! What a message may do -/

def payloadCopy (m : Delivered) : List UInt8 := m.payload ++ zeroed (256 - m.payload.length)
def topicCopy (m : Delivered) : List UInt8 := m.topicName ++ zeroed (100 - m.topicName.length)

/- A payload for this device that sets the status. -/
def Orders (m : Delivered) : Prop :=
  ∃ root n, cJsonParse numberValue (payloadCopy m) = .ok (some root) ∧
    (cJsonGetObjectItem root devidName).bind Item.valuestring = some parm.deviceid.id.bytes ∧
    (cJsonGetObjectItem root cmdName).bind Item.valuestring = some plugSetName ∧
    cJsonGetObjectItem root statusName = some (.number n)

/- No fault, and another status only on the order of a message to the alias. -/
def Safe (m : Delivered) (p : Plug) (result : Defined Plug) : Prop :=
  ∃ p', result = .ok p' ∧ (p'.plugParam.status ≠ p.plugParam.status →
    m.topicName = parm.aliasName.string.bytes ∧ Orders numberValue parm m)

/- A devid that is a string, and a cmd that is one when the devid is the device's. -/
def Typed (root : Item) : Prop :=
  ∀ pJdevid, cJsonGetObjectItem root devidName = some pJdevid → ∃ devid, pJdevid.valuestring = some devid ∧
    (devid = parm.deviceid.id.bytes → ∀ pJcmd, cJsonGetObjectItem root cmdName = some pJcmd → ∃ cmd, pJcmd.valuestring = some cmd)

structure Tame (heap : Heap) (m : Delivered) (p : Plug) : Prop where
  topic : heap.topic = true
  payloadEnds : 0 ∈ payloadCopy m
  topicEnds : 0 ∈ topicCopy m
  -- the topic, up to its first zero byte, is the alias
  command : text (topicCopy m) = parm.aliasName.string.bytes → ∃ parsed, cJsonParse numberValue (payloadCopy m) = .ok parsed ∧
    ∀ root, parsed = some root → Typed parm root ∧ (m.topicName = parm.aliasName.string.bytes ∨
      ∀ status, readCommand parm root = .ok (.plugSet status) → lowByte status = p.plugParam.status)

end Messages

/-! Commands -/

section Commands
variable {parm : UserParm} {root : Item}

theorem readCmdOk {cmd : Option Item} :
    (∃ c, readCmd root cmd = .ok c) ↔ ∀ pJcmd, cmd = some pJcmd → ∃ s, pJcmd.valuestring = some s := by
  cases cmd with
  | none => exact ⟨fun _ => nofun,fun _ => ⟨_,rfl⟩⟩
  | some pJcmd =>
    constructor
    · rintro ⟨c,read⟩ _ same
      cases same
      obtain ⟨s,value,_⟩ := bindOk.mp read
      exact ⟨s,derefOk.mp value⟩
    · intro strings
      obtain ⟨s,value⟩ := strings pJcmd rfl
      have opened : readCmd root (some pJcmd) = if s = plugSetName then .ok (plugSet (cJsonGetObjectItem root statusName))
          else if s = plugGetName then .ok .plugGet else .ok .ignored := by
        rw [readCmd, value]
        rfl
      rw [opened]
      split
      · exact ⟨_,rfl⟩
      · split <;> exact ⟨_,rfl⟩

theorem readCommandOk : (∃ c, readCommand parm root = .ok c) ↔ Typed parm root := by
  unfold readCommand Typed
  cases cJsonGetObjectItem root devidName with
  | none => exact ⟨fun _ => nofun,fun _ => ⟨_,rfl⟩⟩
  | some pJdevid =>
    dsimp only
    constructor
    · rintro ⟨c,read⟩ _ same
      cases same
      obtain ⟨devid,value,read⟩ := bindOk.mp read
      refine ⟨devid,derefOk.mp value,fun own => ?_⟩
      rw [if_pos own.symm] at read
      exact readCmdOk.mp ⟨c,read⟩
    · intro typed
      obtain ⟨devid,value,cmds⟩ := typed pJdevid rfl
      rw [value]
      show ∃ c, (if parm.deviceid.id.bytes = devid then readCmd root (cJsonGetObjectItem root cmdName) else .ok .ignored) = .ok c
      split
      · rename_i own
        exact readCmdOk.mpr (cmds own.symm)
      · exact ⟨_,rfl⟩

theorem readCmdSets {cmd : Option Item} {status : BitVec 32} (read : readCmd root cmd = .ok (.plugSet status)) :
    cmd.bind Item.valuestring = some plugSetName ∧ ∃ n, cJsonGetObjectItem root statusName = some (.number n) := by
  cases cmd with
  | none => cases read
  | some pJcmd =>
    obtain ⟨s,value,read⟩ := bindOk.mp read
    split at read
    · rename_i sets
      refine ⟨(derefOk.mp value).trans (congrArg some sets),?_⟩
      have set := Except.ok.inj read
      unfold plugSet at set
      split at set
      · rename_i n found
        exact ⟨n,found⟩
      · cases set
    · split at read <;> cases read

/- Only plug_set with a number for this device sets the status. -/
theorem readCommandSets {status : BitVec 32} (read : readCommand parm root = .ok (.plugSet status)) :
    (cJsonGetObjectItem root devidName).bind Item.valuestring = some parm.deviceid.id.bytes ∧
      (cJsonGetObjectItem root cmdName).bind Item.valuestring = some plugSetName ∧
      ∃ n, cJsonGetObjectItem root statusName = some (.number n) := by
  unfold readCommand at read
  cases device : cJsonGetObjectItem root devidName with
  | none =>
    rw [device] at read
    cases read
  | some pJdevid =>
    rw [device] at read
    obtain ⟨devid,value,read⟩ := bindOk.mp read
    split at read
    · rename_i own
      exact ⟨(derefOk.mp value).trans (congrArg some own.symm),readCmdSets read⟩
    · cases read

theorem performStatus {board : Board} {p : Plug} {c : Command}
    (changed : (perform board parm p c).plugParam.status ≠ p.plugParam.status) :
    ∃ status, c = .plugSet status ∧ lowByte status ≠ p.plugParam.status := by
  cases c with
  | plugSet status =>
    refine ⟨status,rfl,?_⟩
    rw [perform, setStatusValue] at changed
    exact changed
  | ignored => exact absurd rfl changed
  | plugGet => exact absurd rfl changed

end Commands

/-! Messages -/

section Messages
variable {numberValue : List UInt8 → Int} {board : Board} {parm : UserParm} {heap : Heap} {m : Delivered} {p : Plug}

/- A message that is not too long, in blocks that were had. -/
theorem arrivedOk (short : m.payload.length ≤ 256) (shortTopic : m.topicName.length ≤ 100) (held : heap.buf = true) {p' : Plug} :
    messageArrived numberValue board parm heap m p = .ok p' ↔
      0 ∈ payloadCopy m ∧ heap.topic = true ∧ 0 ∈ topicCopy m ∧
        (if text (topicCopy m) = parm.aliasName.string.bytes then obey numberValue board parm p (payloadCopy m) else .ok p) =
          .ok p' := by
  have allowed : ¬(256 < m.payload.length ∨ 100 < m.topicName.length) := by omega
  have had : ¬heap.buf = false := by rw [held]; decide
  unfold messageArrived
  have payloadCopied : memcpy (zeroed 256) 0 m.payload = .ok (payloadCopy m) := zeroedCopy short
  have topicStored : memcpy (zeroed 100) 0 m.topicName = .ok (topicCopy m) := zeroedCopy shortTopic
  rw [if_neg allowed, if_neg had, payloadCopied]
  constructor
  · intro arrived
    obtain ⟨buf,copied,arrived⟩ := bindOk.mp arrived
    obtain ⟨_,printed,arrived⟩ := bindOk.mp arrived
    obtain ⟨topic,topicCopied,arrived⟩ := bindOk.mp arrived
    obtain ⟨name,read,arrived⟩ := bindOk.mp arrived
    cases copied
    unfold copyTopic at topicCopied
    split at topicCopied
    · rename_i topicHeld
      rw [topicStored] at topicCopied
      cases topicCopied
      obtain ⟨ends,rfl⟩ := cStringOk.mp read
      exact ⟨(cStringOk.mp printed).1,topicHeld,ends,arrived⟩
    · cases topicCopied
  · rintro ⟨payloadEnds,topicHeld,topicEnds,arrived⟩
    refine bindOk.mpr ⟨_,rfl,bindOk.mpr ⟨_,cStringEnded payloadEnds,bindOk.mpr ⟨topicCopy m,?_,?_⟩⟩⟩
    · unfold copyTopic
      rw [if_pos topicHeld]
      exact topicStored
    · exact bindOk.mpr ⟨_,cStringEnded topicEnds,arrived⟩

theorem obeyOk {buf : List UInt8} {p' : Plug} : obey numberValue board parm p buf = .ok p' ↔
    cJsonParse numberValue buf = .ok none ∧ p = p' ∨
      ∃ root c, cJsonParse numberValue buf = .ok (some root) ∧ readCommand parm root = .ok c ∧ perform board parm p c = p' := by
  constructor
  · intro obeyed
    obtain ⟨parsed,read,obeyed⟩ := bindOk.mp obeyed
    cases parsed with
    | none => exact .inl ⟨read,Except.ok.inj obeyed⟩
    | some root =>
      obtain ⟨c,command,done⟩ := mapOk.mp obeyed
      exact .inr ⟨root,c,read,command,done⟩
  · rintro (⟨read,rfl⟩ | ⟨root,c,read,command,done⟩)
    · exact bindOk.mpr ⟨none,read,rfl⟩
    · exact bindOk.mpr ⟨some root,read,mapOk.mpr ⟨c,command,done⟩⟩

theorem safeTame (short : m.payload.length ≤ 256) (shortTopic : m.topicName.length ≤ 100) (held : heap.buf = true) :
    Safe numberValue parm m p (messageArrived numberValue board parm heap m p) ↔ Tame numberValue parm heap m p := by
  unfold Safe
  constructor
  · rintro ⟨p',arrived,orders⟩
    obtain ⟨payloadEnds,topicHeld,topicEnds,obeyed⟩ := (arrivedOk short shortTopic held).mp arrived
    refine ⟨topicHeld,payloadEnds,topicEnds,fun named => ?_⟩
    rw [if_pos named] at obeyed
    rcases obeyOk.mp obeyed with ⟨read,_⟩ | ⟨root,c,read,command,rfl⟩
    · exact ⟨none,read,nofun⟩
    · refine ⟨some root,read,?_⟩
      rintro _ same
      cases same
      refine ⟨readCommandOk.mp ⟨c,command⟩,?_⟩
      by_cases exact : m.topicName = parm.aliasName.string.bytes
      · exact .inl exact
      · refine .inr fun status sets => ?_
        cases command.symm.trans sets
        by_contra other
        refine exact (orders ?_).1
        rw [perform, setStatusValue]
        exact other
  · intro tame
    by_cases named : text (topicCopy m) = parm.aliasName.string.bytes
    · obtain ⟨parsed,read,typed⟩ := tame.command named
      cases parsed with
      | none =>
        refine ⟨p,(arrivedOk short shortTopic held).mpr ⟨tame.payloadEnds,tame.topic,tame.topicEnds,?_⟩,fun h => absurd rfl h⟩
        rw [if_pos named]
        exact obeyOk.mpr (.inl ⟨read,rfl⟩)
      | some root =>
        obtain ⟨types,either⟩ := typed root rfl
        obtain ⟨c,command⟩ := readCommandOk.mpr types
        refine ⟨perform board parm p c,
          (arrivedOk short shortTopic held).mpr ⟨tame.payloadEnds,tame.topic,tame.topicEnds,?_⟩,fun changed => ?_⟩
        · rw [if_pos named]
          exact obeyOk.mpr (.inr ⟨root,c,read,command,rfl⟩)
        · obtain ⟨status,rfl,other⟩ := performStatus changed
          obtain ⟨devid,cmd,n,number⟩ := readCommandSets command
          exact ⟨either.resolve_right fun same => other (same status command),root,n,read,devid,cmd,number⟩
    · refine ⟨p,(arrivedOk short shortTopic held).mpr ⟨tame.payloadEnds,tame.topic,tame.topicEnds,?_⟩,fun h => absurd rfl h⟩
      rw [if_neg named]

/- An alias is shorter than the topic copy, and is read back from there. -/
theorem aliasRead (named : m.topicName = parm.aliasName.string.bytes) :
    0 ∈ topicCopy m ∧ text (topicCopy m) = parm.aliasName.string.bytes := by
  have short : m.topicName.length < 54 := named ▸ parm.aliasName.fits
  have nonzero : 0 ∉ m.topicName := fun inside =>
    parm.aliasName.string.noNul 0 (named ▸ inside) rfl
  have ended : topicCopy m = m.topicName ++ 0 :: zeroed (99 - m.topicName.length) := by
    obtain ⟨room,left⟩ : ∃ n, 100 - m.topicName.length = n + 1 := ⟨99 - m.topicName.length,by omega⟩
    have behind : 99 - m.topicName.length = room := by omega
    rw [topicCopy, left, behind]
    rfl
  rw [ended]
  exact ⟨List.mem_append_right _ List.mem_cons_self,(textOf nonzero _).trans named⟩

/- Where the payload has no backslash, the types of devid and cmd decide of a message to the
alias. -/
theorem plainTame (topicHeld : heap.topic = true) (plain : Plain (payloadCopy m))
    (named : m.topicName = parm.aliasName.string.bytes) :
    Tame numberValue parm heap m p ↔
      ∀ root, cJsonParse numberValue (payloadCopy m) = .ok (some root) → Typed parm root := by
  obtain ⟨topicEnds,aliased⟩ := aliasRead named
  constructor
  · intro tame root read
    obtain ⟨parsed,same,typed⟩ := tame.command aliased
    exact (typed root (Except.ok.inj (same.symm.trans read))).1
  · intro typed
    refine ⟨topicHeld,plain.ended,topicEnds,fun _ => ?_⟩
    obtain ⟨parsed,read⟩ := plainParse numberValue plain
    exact ⟨parsed,read,fun root same => ⟨typed root (read.trans (congrArg Except.ok same)),.inl named⟩⟩

end Messages

theorem messageSafe (numberValue : List UInt8 → Int) (board : Board) (parm : UserParm) (heap : Heap) (m : Delivered)
    (p : Plug) :
    Safe numberValue parm m p (messageArrived numberValue board parm heap m p) ↔
      (256 < m.payload.length ∨ 100 < m.topicName.length) ∨ heap.buf = false ∨ Tame numberValue parm heap m p := by
  by_cases long : 256 < m.payload.length ∨ 100 < m.topicName.length
  · refine ⟨fun _ => .inl long,fun _ => ⟨p,?_,fun h => absurd rfl h⟩⟩
    unfold messageArrived
    rw [if_pos long]
  · by_cases none : heap.buf = false
    · refine ⟨fun _ => .inr (.inl none),fun _ => ⟨p,?_,fun h => absurd rfl h⟩⟩
      unfold messageArrived
      rw [if_neg long, if_pos none]
    · rw [safeTame (by omega) (by omega) (by simpa using none)]
      exact ⟨fun tame => .inr (.inr tame),fun either => (either.resolve_left long).resolve_left none⟩

/- A devid that is a number, to the alias. -/
def numberedDevid : Delivered :=
  ⟨UserParameters.loadUserParm.aliasName.string.bytes,[123,34,100,101,118,105,100,34,58,49,125]⟩

theorem numberedDevidFaults :
    messageArrived (fun _ => 1) .smartPlug UserParameters.loadUserParm ⟨true,true⟩ numberedDevid (boot ⟨0,0,0,0⟩) =
        .error .null ∧
      ¬Safe (fun _ => 1) UserParameters.loadUserParm numberedDevid (boot ⟨0,0,0,0⟩)
        (messageArrived (fun _ => 1) .smartPlug UserParameters.loadUserParm ⟨true,true⟩ numberedDevid (boot ⟨0,0,0,0⟩)) := by
  have fault : messageArrived (fun _ => 1) .smartPlug UserParameters.loadUserParm ⟨true,true⟩ numberedDevid
      (boot ⟨0,0,0,0⟩) = .error .null := by decide +kernel
  refine ⟨fault,?_⟩
  rintro ⟨p',arrived,_⟩
  rw [fault] at arrived
  cases arrived

end YunbaIot.MessageArrived
