import YunbaIot.DhcpServer

/-! The option area of a message as its format has it, PAD bytes, options and END, and what
parse_options makes of it. The server takes a PAD for an option with a length byte, so PADs
are passed over two by two. -/
namespace YunbaIot.OptionArea
open DhcpServer

/-! The format -/

structure DhcpOption where
  code : UInt8
  data : List UInt8
  proper : code ≠ 0 ∧ code ≠ optionEnd
  size : data.length < 256

inductive Item where
  | pad
  | option (o : DhcpOption)

def encodeItem : Item → List UInt8
  | .pad => [0]
  | .option o => o.code :: UInt8.ofNat o.data.length :: o.data

def encode (items : List Item) : List UInt8 := items.flatMap encodeItem

/- The area with its END, inside what the server is told to parse. -/
structure AreaAt (byte : Nat → UInt8) (optptr : Nat) (len : Int) (items : List Item) : Prop where
  bytes : Memory.Holds byte optptr (encode items ++ [optionEnd])
  inside : ((encode items).length + 1 : Int) ≤ len

/-! What the area says -/

def typeOf : Item → Option UInt8
  | .pad => none
  | .option o => if o.code = optionMsgType then o.data.head? else none

def requestOf : Item → Option (List UInt8)
  | .pad => none
  | .option o => if o.code = optionReqIpaddr then some (o.data.take 4) else none

-- of several the last one counts
def lastSaid {α : Type} (said : Item → Option α) : List Item → Option α
  | [] => none
  | item :: later => (lastSaid said later).or (said item)

def comparison (client : UInt32) (request : Option (List UInt8)) : Nat :=
  request.elim stateIdle fun addr => if addr = addrBytes client then stateAck else stateNak

/- The state the message type and the requested address determine. -/
def determined (client : UInt32) (renew : Bool) (items : List Item) : Nat :=
  let type := lastSaid typeOf items
  let request := lastSaid requestOf items
  if type = some dhcpDiscover then stateOffer
  else if type = some dhcpRequest then
    if request = none then if renew then stateAck else stateNak else comparison client request
  else if type = some dhcpDecline then stateIdle
  else if type = some dhcpRelease then stateRelease
  else comparison client request

def Answered (byte : Nat → UInt8) (optptr : Nat) (len : Int) (items : List Item) : Prop :=
  ∀ client renew, parseOptions byte optptr len client renew = determined client renew items

/- A message type of a byte at least, a requested address of four at least. -/
structure Whole (o : DhcpOption) : Prop where
  type : o.code = optionMsgType → 1 ≤ o.data.length
  request : o.code = optionReqIpaddr → 4 ≤ o.data.length

/- Whole options, and PADs two by two. -/
inductive Paired : List Item → Prop where
  | nil : Paired []
  | pads {later} (next : Paired later) : Paired (.pad :: .pad :: later)
  | option {o later} (whole : Whole o) (next : Paired later) : Paired (.option o :: later)

theorem pairedAppend {before after : List Item} (first : Paired before) (second : Paired after) :
    Paired (before ++ after) := by
  induction first with
  | nil => exact second
  | pads next ih => exact .pads ih
  | option whole next ih => exact .option whole ih

theorem pairedPads (n : Nat) : Paired (List.replicate (2 * n) .pad) := by
  induction n with
  | zero => exact .nil
  | succ n ih => exact .pads ih

/-! What the loop gathers -/

/- The type and the state of an Options, without its reads. -/
def facts (s : Options) : UInt8 × Nat := (s.type,s.state)

def note (client : UInt32) (f : UInt8 × Nat) (o : DhcpOption) : UInt8 × Nat :=
  if o.code = optionMsgType then (o.data.headD 0,f.2)
  else if o.code = optionReqIpaddr then (f.1,comparison client (some (o.data.take 4)))
  else f

def gathered (client : UInt32) : UInt8 × Nat → List Item → UInt8 × Nat
  | f, [] => f
  | f, .pad :: later => gathered client f later
  | f, .option o :: later => gathered client (note client f o) later

theorem gatheredAppend (client : UInt32) (f : UInt8 × Nat) (before after : List Item) :
    gathered client f (before ++ after) = gathered client (gathered client f before) after := by
  induction before generalizing f with
  | nil => rfl
  | cons item later ih =>
    cases item with
    | pad => exact ih f
    | option o => exact ih (note client f o)

theorem gatheredPads (client : UInt32) (f : UInt8 × Nat) (n : Nat) :
    gathered client f (List.replicate n .pad) = f := by
  induction n with
  | zero => rfl
  | succ n ih => exact ih

theorem gatheredLast (client : UInt32) {items : List Item} (paired : Paired items) (f : UInt8 × Nat) :
    gathered client f items = ((lastSaid typeOf items).getD f.1,
      ((lastSaid requestOf items).map fun addr => comparison client (some addr)).getD f.2) := by
  induction paired generalizing f with
  | nil => rfl
  | pads next ih => simp [gathered,lastSaid,typeOf,requestOf,ih]
  | @option o later whole next ih =>
    rw [gathered, ih]
    have apart : optionMsgType ≠ optionReqIpaddr := by decide
    by_cases type : o.code = optionMsgType
    · obtain ⟨t,rest,data⟩ := List.exists_cons_of_length_pos (whole.type type)
      cases known : lastSaid typeOf later <;> simp [note,lastSaid,typeOf,requestOf,type,data,apart,known]
    · by_cases request : o.code = optionReqIpaddr
      · cases known : lastSaid requestOf later <;>
          simp [note,lastSaid,typeOf,requestOf,request,apart.symm,known]
      · simp [note,lastSaid,typeOf,requestOf,type,request]

theorem answeredFacts {s : Options} {f : UInt8 × Nat} (same : facts s = f) (renew : Bool) :
    answeredState renew s = answeredState renew ⟨f.1,f.2,[]⟩ := by
  subst same
  rfl

theorem gatheredAnswer (client : UInt32) (renew : Bool) {items : List Item} (paired : Paired items) {s : Options}
    (same : facts s = gathered client (0,stateIdle) items) :
    answeredState renew s = determined client renew items := by
  rw [answeredFacts same, gatheredLast client paired]
  unfold determined
  generalize lastSaid typeOf items = type
  generalize lastSaid requestOf items = request
  cases type with
  | none => cases request <;> simp [answeredState,comparison,dhcpDiscover,dhcpRequest,dhcpDecline,dhcpRelease]
  | some type =>
    cases request with
    | none => simp [answeredState,comparison,stateIdle,stateAck,stateNak]
    | some addr =>
      simp only [answeredState,comparison,Option.getD_some,Option.map_some,Option.some.injEq]
      by_cases own : addr = addrBytes client <;> simp [own]

/-! The loop over an area -/

theorem inspectOption {byte : Nat → UInt8} {client : UInt32} {optptr : Nat} {o : DhcpOption} (whole : Whole o)
    (holds : Memory.Holds byte optptr (encodeItem (.option o))) (s : Options) :
    facts (inspect byte client optptr s) = note client (facts s) o := by
  obtain ⟨code,_,data⟩ := holds
  unfold inspect note
  rw [code]
  dsimp only
  split
  · rename_i type
    obtain ⟨t,rest,same⟩ := List.exists_cons_of_length_pos (whole.type type)
    rw [same] at data ⊢
    simp [facts,data.1]
  · split
    · rename_i request
      have four := whole.request request
      have bytes := congrArg (List.take 4) (Memory.sliceOfHolds data)
      rw [Memory.sliceTake byte (optptr + 1 + 1) four] at bytes
      simp [facts,comparison,← bytes]
    · rfl

theorem inspectOther {byte : Nat → UInt8} {optptr : Nat} {code : UInt8} (client : UInt32) (s : Options)
    (here : byte optptr = code) (type : code ≠ optionMsgType) (request : code ≠ optionReqIpaddr) :
    facts (inspect byte client optptr s) = facts s := by
  unfold inspect
  dsimp only
  rw [here, if_neg type, if_neg request]
  rfl

theorem inspectPad {byte : Nat → UInt8} {optptr : Nat} (client : UInt32) (s : Options) (pad : byte optptr = 0) :
    facts (inspect byte client optptr s) = facts s := inspectOther client s pad (by decide) (by decide)

theorem loopStep {byte : Nat → UInt8} {client : UInt32} {last : Int} {fuel optptr : Nat} {s : Options}
    (inside : (optptr : Int) < last) (more : byte optptr ≠ optionEnd) :
    ∃ t, facts t = facts (inspect byte client optptr s) ∧ optionLoop byte client last (fuel + 1) optptr s =
      optionLoop byte client last fuel (optptr + (byte (optptr + 1)).toNat + 2) t := by
  rw [optionLoop, if_pos inside]
  dsimp only
  rw [if_neg more]
  let seen := inspect byte client optptr s
  exact ⟨{ seen with reads := seen.reads ++ [optptr + 1] },rfl,rfl⟩

theorem loopEnd {byte : Nat → UInt8} {client : UInt32} {last : Int} {fuel optptr : Nat} {s : Options}
    (inside : (optptr : Int) < last) (ended : byte optptr = optionEnd) :
    facts (optionLoop byte client last (fuel + 1) optptr s) = facts s := by
  rw [optionLoop, if_pos inside]
  dsimp only
  rw [if_pos ended]
  exact inspectOther client s ended (by decide) (by decide)

theorem loopBeyond {byte : Nat → UInt8} {client : UInt32} {last : Int} {fuel optptr : Nat} {s : Options}
    (beyond : last ≤ optptr) : optionLoop byte client last fuel optptr s = s := by
  cases fuel with
  | zero => rfl
  | succ fuel => rw [optionLoop, if_neg (Int.not_lt.mpr beyond)]

theorem encodePads (later : List Item) : encode (.pad :: .pad :: later) = 0 :: 0 :: encode later := rfl

theorem encodeOption (o : DhcpOption) (later : List Item) :
    encode (.option o :: later) = encodeItem (.option o) ++ encode later := List.flatMap_cons

theorem optionLength (o : DhcpOption) : (encodeItem (.option o)).length = o.data.length + 2 := rfl

/- Over whole options and PADs two by two the loop stays in step with the format. -/
theorem loopPaired {byte : Nat → UInt8} {client : UInt32} {last : Int} {items : List Item} (paired : Paired items)
    {fuel optptr : Nat} {s : Options} (holds : Memory.Holds byte optptr (encode items))
    (inside : (optptr + (encode items).length : Int) < last) (enough : (encode items).length < fuel) :
    ∃ left t, 0 < left ∧ facts t = gathered client (facts s) items ∧
      optionLoop byte client last fuel optptr s =
        optionLoop byte client last left (optptr + (encode items).length) t := by
  induction paired generalizing fuel optptr s with
  | nil => exact ⟨fuel,s,enough,rfl,rfl⟩
  | @pads later next ih =>
    rw [encodePads] at holds inside enough ⊢
    simp only [List.length_cons] at inside enough ⊢
    obtain ⟨first,second,rest⟩ := holds
    obtain ⟨fuel,rfl⟩ := Nat.exists_eq_succ_of_ne_zero (Nat.ne_of_gt (Nat.zero_lt_of_lt enough))
    have more : byte optptr ≠ optionEnd := first ▸ (by decide : (0 : UInt8) ≠ optionEnd)
    obtain ⟨t,same,moved⟩ := @loopStep byte client last fuel optptr s (by omega) more
    rw [second] at moved
    obtain ⟨left,u,some,found,ends⟩ := @ih fuel (optptr + 2) t rest (by push_cast; omega) (by omega)
    rw [same, inspectPad client s first] at found
    refine ⟨left,u,some,found,?_⟩
    rw [moved, Nat.add_assoc optptr _ 2]
    exact ends.trans (by rw [Nat.add_right_comm, Nat.add_assoc])
  | @option o later whole next ih =>
    rw [encodeOption] at holds inside enough ⊢
    obtain ⟨head,rest⟩ := Memory.holdsAppend.mp holds
    rw [List.length_append, optionLength] at inside enough ⊢
    rw [optionLength] at rest
    obtain ⟨fuel,rfl⟩ := Nat.exists_eq_succ_of_ne_zero (Nat.ne_of_gt (Nat.zero_lt_of_lt enough))
    have more : byte optptr ≠ optionEnd := head.1.symm ▸ o.proper.2
    obtain ⟨t,same,moved⟩ := @loopStep byte client last fuel optptr s (by omega) more
    have size : (byte (optptr + 1)).toNat = o.data.length := by
      rw [head.2.1, UInt8.toNat_ofNat', Nat.mod_eq_of_lt o.size]
    rw [size, Nat.add_assoc] at moved
    obtain ⟨left,u,some,found,ends⟩ := @ih fuel _ t rest (by push_cast at inside ⊢; omega) (by omega)
    rw [same, inspectOption whole head] at found
    refine ⟨left,u,some,found,?_⟩
    rw [moved]
    exact ends.trans (by rw [Nat.add_assoc])

/- An area in step with its format is answered as its options determine. -/
theorem pairedAnswered {byte : Nat → UInt8} {optptr : Nat} {len : Int} {items : List Item} (paired : Paired items)
    (area : AreaAt byte optptr len items) : Answered byte optptr len items := by
  intro client renew
  have inside := area.inside
  obtain ⟨holds,ended,_⟩ := Memory.holdsAppend.mp area.bytes
  obtain ⟨left,t,some,found,ends⟩ := @loopPaired byte client (optptr + len) items paired len.toNat optptr
    ⟨0,stateIdle,[]⟩ holds (by omega) (by omega)
  obtain ⟨left,rfl⟩ := Nat.exists_eq_succ_of_ne_zero (Nat.ne_of_gt some)
  have last := @loopEnd byte client (optptr + len) left (optptr + (encode items).length) t (by push_cast; omega) ended
  rw [← ends, found] at last
  exact gatheredAnswer client renew paired last

/-! PADs that are inserted -/

theorem saidAppend {α : Type} (said : Item → Option α) (before after : List Item) :
    lastSaid said (before ++ after) = (lastSaid said after).or (lastSaid said before) := by
  induction before with
  | nil => simp [lastSaid]
  | cons item later ih => simp [lastSaid,ih,Option.or_assoc]

theorem saidPads {α : Type} {said : Item → Option α} (silent : said .pad = none) (n : Nat) :
    lastSaid said (List.replicate n .pad) = none := by
  induction n with
  | zero => rfl
  | succ n ih => simp [List.replicate_succ,lastSaid,ih,silent]

theorem determinedPads (client : UInt32) (renew : Bool) (before after : List Item) (n : Nat) :
    determined client renew (before ++ List.replicate n .pad ++ after) = determined client renew (before ++ after) := by
  have typeless : lastSaid typeOf (List.replicate n .pad) = none := saidPads rfl n
  have unrequested : lastSaid requestOf (List.replicate n .pad) = none := saidPads rfl n
  simp [determined,saidAppend,typeless,unrequested]

def msgType (type : UInt8) : DhcpOption := ⟨optionMsgType,[type],by decide,(by decide : 1 < 256)⟩

theorem typeWhole (type : UInt8) : Whole (msgType type) :=
  ⟨fun _ => Nat.le_refl 1,fun other => absurd other (by decide : optionMsgType ≠ optionReqIpaddr)⟩

theorem typedDiscover (client : UInt32) (renew : Bool) (before : List Item) :
    determined client renew (before ++ [.option (msgType dhcpDiscover)]) = stateOffer := by
  simp [determined,saidAppend,lastSaid,typeOf,msgType]

theorem typedRelease (client : UInt32) (renew : Bool) (before : List Item) :
    determined client renew (before ++ [.option (msgType dhcpRelease)]) = stateRelease := by
  simp [determined,saidAppend,lastSaid,typeOf,msgType,dhcpDiscover,dhcpRequest,dhcpDecline,dhcpRelease]

/- A PAD out of step takes the next code for its length, and a message type behind it is lost. -/
theorem padLost {items : List Item} (paired : Paired items) (type : UInt8) {byte : Nat → UInt8} {optptr : Nat}
    (holds : Memory.Holds byte optptr (encode (items ++ [.pad,.option (msgType type)]) ++ [optionEnd]))
    (client : UInt32) (renew : Bool) :
    parseOptions byte optptr ((encode items).length + 5 : Nat) client renew = determined client renew items := by
  have bytes : encode (items ++ [.pad,.option (msgType type)]) ++ [optionEnd] =
      encode items ++ [0,optionMsgType,1,type,optionEnd] := by
    simp [encode,encodeItem,msgType]
  rw [bytes] at holds
  obtain ⟨front,pad,code,_⟩ := Memory.holdsAppend.mp holds
  obtain ⟨left,t,some,found,ends⟩ := @loopPaired byte client (optptr + ((encode items).length + 5 : Nat)) items paired
    ((encode items).length + 5) optptr ⟨0,stateIdle,[]⟩ front (by push_cast; omega) (by omega)
  obtain ⟨left,rfl⟩ := Nat.exists_eq_succ_of_ne_zero (Nat.ne_of_gt some)
  have more : byte (optptr + (encode items).length) ≠ optionEnd := pad ▸ (by decide : (0 : UInt8) ≠ optionEnd)
  obtain ⟨u,same,moved⟩ := @loopStep byte client (optptr + ((encode items).length + 5 : Nat)) left _ t
    (by push_cast; omega) more
  have size : (byte (optptr + (encode items).length + 1)).toNat = 53 := congrArg UInt8.toNat code
  rw [size] at moved
  have beyond := @loopBeyond byte client (optptr + ((encode items).length + 5 : Nat)) left
    (optptr + (encode items).length + 53 + 2) u (by push_cast; omega)
  have scanned : optionScan byte optptr ((encode items).length + 5 : Nat) client = u :=
    ends.trans (moved.trans beyond)
  have last : facts (optionScan byte optptr ((encode items).length + 5 : Nat) client) = facts t := by
    rw [scanned, same, inspectPad client t pad]
  exact gatheredAnswer client renew paired (last.trans found)

/-- Behind options the loop is in step with, a run of PADs leaves every answer as the other
options determine it exactly when its length is even. -/
theorem padsExact {before : List Item} (paired : Paired before) (n : Nat) :
    (∀ after, Paired after → ∀ byte optptr len,
      AreaAt byte optptr len (before ++ List.replicate n .pad ++ after) → Answered byte optptr len (before ++ after)) ↔
    n % 2 = 0 := by
  constructor
  · intro every
    by_contra odd
    obtain ⟨k,rfl⟩ : ∃ k, n = 2 * k + 1 := ⟨n / 2,by omega⟩
    -- whatever type is sent behind the PADs, the answer is that of the options before them
    have lost (type : UInt8) : determined 0 false before = determined 0 false (before ++ [.option (msgType type)]) := by
      have front := pairedAppend paired (pairedPads k)
      have split : before ++ List.replicate (2 * k + 1) .pad ++ [.option (msgType type)] =
          before ++ List.replicate (2 * k) .pad ++ [.pad,.option (msgType type)] := by
        simp [List.replicate_succ']
      let area := encode (before ++ List.replicate (2 * k) .pad ++ [.pad,.option (msgType type)]) ++ [optionEnd]
      have holds : Memory.Holds ((Memory.ofList []).store 0 area).byte 0 area := Memory.holdsStore _ 0 area
      have read := padLost front type holds 0 false
      have wished := every [.option (msgType type)] (.option (typeWhole type) .nil)
        ((Memory.ofList []).store 0 area).byte 0
        ((encode (before ++ List.replicate (2 * k) .pad)).length + 5 : Nat) ⟨split ▸ holds,?_⟩ 0 false
      · have pads := determinedPads 0 false before [] (2 * k)
        simp only [List.append_nil] at pads
        rw [← pads, ← read, wished]
      · rw [split]
        simp [encode,encodeItem,msgType]
        omega
    have offer := (lost dhcpDiscover).trans (typedDiscover 0 false before)
    have release := (lost dhcpRelease).trans (typedRelease 0 false before)
    exact absurd (offer.symm.trans release) (by decide)
  · intro even after later byte optptr len area client renew
    obtain ⟨k,rfl⟩ : ∃ k, n = 2 * k := ⟨n / 2,by omega⟩
    have whole := pairedAppend (pairedAppend paired (pairedPads k)) later
    rw [pairedAnswered whole area, determinedPads]

theorem requestPads :
    (∀ after, Paired after → ∀ byte optptr len,
      AreaAt byte optptr len ([.option (msgType dhcpRequest)] ++ List.replicate 2 .pad ++ after) →
        Answered byte optptr len ([.option (msgType dhcpRequest)] ++ after)) ↔
    2 % 2 = 0 := padsExact (.option (typeWhole dhcpRequest) .nil) 2

/- The DISCOVER behind one PAD is not seen. -/
theorem padDiscover : ¬ ∀ items byte optptr len, AreaAt byte optptr len items → Answered byte optptr len items := by
  intro every
  have area : AreaAt (Memory.ofList [0,53,1,1,255]).byte 0 5 [.pad,.option (msgType dhcpDiscover)] :=
    ⟨⟨rfl,rfl,rfl,rfl,rfl,trivial⟩,by decide⟩
  exact absurd (every _ _ _ _ area 0 false) (by decide)

end YunbaIot.OptionArea
