import YunbaIot.PublishGrammar
import YunbaIot.TopicRoundTrip

/-! The deserializers that fill arrays of their caller: which packets keep them inside
maxcount entries, and what a returned 1 says of the packet. -/
namespace YunbaIot.ListFilling
open MqttPacket MqttDeserialize MqttServer
open PublishGrammar (field remLen bodyAt start topicLength readIntTopic readInt64Id firstByte remainingStart startEnded
  singleByte stringFits stringCut)
open TopicRoundTrip (qosSize)

/-! Announced entries -/

section Announced
variable (byte : Nat → UInt8) (withQoS : Bool) (enddata : Nat)

def entrySize (pos : Nat) : Nat := 2 + topicLength byte pos + qosSize withQoS
def slotAt (pos : Nat) : Slot := ⟨some (topicLength byte pos),some (pos + 2)⟩
def qosAt (pos : Nat) : UInt8 := byte (pos + 2 + topicLength byte pos)

/- The entries from a position to the end of the packet, by where each begins. `false` is a
list whose last entry runs over the end. -/
inductive Entries : Nat → List Nat → Bool → Prop
  | ended {pos : Nat} (done : enddata ≤ pos) : Entries pos [] true
  | cut {pos : Nat} (more : pos < enddata) (short : enddata < pos + entrySize byte withQoS pos) : Entries pos [] false
  | entry {pos : Nat} {starts : List Nat} {whole : Bool} (more : pos < enddata)
      (fits : pos + entrySize byte withQoS pos ≤ enddata)
      (rest : Entries (pos + entrySize byte withQoS pos) starts whole) : Entries pos (pos :: starts) whole

theorem entriesExist (left pos : Nat) (enough : enddata - pos ≤ left) :
    ∃ starts whole, Entries byte withQoS enddata pos starts whole := by
  induction left generalizing pos with
  | zero => exact ⟨[],true,.ended (by omega)⟩
  | succ left ih =>
    by_cases more : pos < enddata
    · by_cases fits : pos + entrySize byte withQoS pos ≤ enddata
      · have shorter : enddata - (pos + entrySize byte withQoS pos) ≤ left := by
          unfold entrySize
          omega
        obtain ⟨starts,whole,rest⟩ := ih _ shorter
        exact ⟨pos :: starts,whole,.entry more fits rest⟩
      · exact ⟨[],false,.cut more (by omega)⟩
    · exact ⟨[],true,.ended (by omega)⟩

end Announced

variable {byte : Nat → UInt8} {withQoS : Bool} {enddata : Nat}

/-! One round of the loop -/

theorem roundEntry {t : Topics} (left : Nat) (more : t.cursor.pos < enddata)
    (fits : t.cursor.pos + entrySize byte withQoS t.cursor.pos ≤ enddata) :
    ∃ t', topicsLoop byte withQoS enddata (left+1) t = topicsLoop byte withQoS enddata left t' ∧ t'.rc = t.rc ∧
      t'.count = t.count + 1 ∧ t'.filters = t.filters ++ [slotAt byte t.cursor.pos] ∧
      t'.requestedQoSs = t.requestedQoSs ++ (if withQoS then [qosAt byte t.cursor.pos] else []) ∧
      t'.cursor.pos = t.cursor.pos + entrySize byte withQoS t.cursor.pos := by
  unfold entrySize at fits ⊢
  rw [topicsLoop, if_pos more, stringFits (by omega)]
  cases withQoS with
  | false => exact ⟨_,rfl,rfl,rfl,rfl,(List.append_nil _).symm,by simp only [qosSize, Bool.false_eq_true, if_false]; omega⟩
  | true =>
    have room : ¬ enddata ≤ t.cursor.pos + 2 + topicLength byte t.cursor.pos := by
      simp only [qosSize, if_true] at fits
      omega
    dsimp only
    rw [if_neg (by decide), if_pos rfl, if_neg room]
    exact ⟨_,rfl,rfl,rfl,rfl,rfl,by simp only [readCharPos, qosSize, if_true]; omega⟩

/- An entry that runs over the end is stored as far as it was read, and not counted. -/
theorem roundCut {t : Topics} (left : Nat) (more : t.cursor.pos < enddata)
    (short : enddata < t.cursor.pos + entrySize byte withQoS t.cursor.pos) :
    let t' := topicsLoop byte withQoS enddata (left+1) t
    t'.rc = t.rc ∧ t'.count = t.count ∧ t'.filters.length = t.filters.length + 1 ∧
      t'.requestedQoSs = t.requestedQoSs := by
  unfold entrySize at short
  dsimp only
  rw [topicsLoop, if_pos more]
  dsimp only
  by_cases string : t.cursor.pos + 2 + topicLength byte t.cursor.pos ≤ enddata
  · rw [stringFits string]
    cases withQoS with
    | false =>
      simp only [qosSize, Bool.false_eq_true, if_false] at short
      omega
    | true =>
      have none : enddata ≤ t.cursor.pos + 2 + topicLength byte t.cursor.pos := by
        simp only [qosSize, if_true] at short
        omega
      dsimp only
      rw [if_neg (by decide), if_pos rfl, if_pos none]
      exact ⟨rfl,rfl,List.length_append,rfl⟩
  · rw [if_pos (stringCut (by omega)).1]
    exact ⟨rfl,rfl,List.length_append,rfl⟩

/- What the rounds add to the arrays, the count and the result. -/
structure Follows (byte : Nat → UInt8) (withQoS : Bool) (starts : List Nat) (whole : Bool) (t t' : Topics) : Prop where
  rc : t'.rc = if whole then 1 else t.rc
  count : t'.count = t.count + starts.length
  begun : t'.filters.length = t.filters.length + starts.length + if whole then 0 else 1
  filters : whole = true → t'.filters = t.filters ++ starts.map (slotAt byte)
  requestedQoSs : t'.requestedQoSs = t.requestedQoSs ++ if withQoS then starts.map (qosAt byte) else []

theorem topicsLoopStops {t : Topics} (left : Nat) (done : enddata ≤ t.cursor.pos) :
    topicsLoop byte withQoS enddata left t = { t with rc := 1 } := by
  cases left with
  | zero => rfl
  | succ left => rw [topicsLoop, if_neg (Nat.not_lt_of_le done)]

theorem topicsLoopFollows {pos : Nat} {starts : List Nat} {whole : Bool}
    (walk : Entries byte withQoS enddata pos starts whole) (t : Topics) (place : t.cursor.pos = pos) (left : Nat)
    (enough : enddata - pos ≤ left) :
    Follows byte withQoS starts whole t (topicsLoop byte withQoS enddata left t) := by
  induction walk generalizing t left with
  | ended done =>
    rw [topicsLoopStops left (by omega)]
    exact ⟨rfl,rfl,rfl,fun _ => by simp,by simp⟩
  | cut more short =>
    subst place
    cases left with
    | zero => omega
    | succ left =>
      obtain ⟨rc,count,begun,requestedQoSs⟩ := roundCut left more short
      exact ⟨rc,count,begun,fun whole => absurd whole (by decide),by simp [requestedQoSs]⟩
  | entry more fits rest ih =>
    subst place
    cases left with
    | zero => omega
    | succ left =>
      obtain ⟨t',round,rc,count,filters,requestedQoSs,moved⟩ := roundEntry left more fits
      have shorter : enddata - (t.cursor.pos + entrySize byte withQoS t.cursor.pos) ≤ left := by
        unfold entrySize
        omega
      have follows := ih t' moved left shorter
      rw [round]
      refine ⟨?_,?_,?_,fun whole => ?_,?_⟩
      · rw [follows.rc, rc]
      · rw [follows.count, count, List.length_cons]
        omega
      · rw [follows.begun, filters, List.length_append, List.length_singleton, List.length_cons]
        omega
      · rw [follows.filters whole, filters, List.append_assoc]
        rfl
      · rw [follows.requestedQoSs, requestedQoSs, List.append_assoc]
        cases withQoS <;> rfl

/-! The two topic lists -/

section Filling
variable (byte : Nat → UInt8) (withQoS : Bool) (maxcount buflen : Nat)

/- A length field that ends and a packet, as long as it says, with room for its id. -/
structure Whole (idSize : Nat) : Prop where
  wellFormed : Base128.terminated (field byte) = true
  inside : bodyAt byte + remLen byte ≤ buflen
  id : idSize ≤ remLen byte

/- Arrays are stored to from index 0 on, so that their lengths bound the indices. -/
structure TopicsKept (out : TopicsOut) : Prop where
  filters : out.filters.length ≤ maxcount
  requestedQoSs : out.requestedQoSs.length ≤ maxcount
  count : ∀ n, out.count = some n → n ≤ maxcount
  complete : out.rc = 1 → Whole byte buflen 2 ∧ ∃ starts,
    Entries byte withQoS (bodyAt byte + remLen byte) (bodyAt byte + 2) starts true ∧
      out.count = some starts.length ∧ out.filters = starts.map (slotAt byte) ∧
      out.requestedQoSs = if withQoS then starts.map (qosAt byte) else []

/- No more entries than the arrays take are begun. A list read to its end makes a whole
packet, and one broken off is not taken for accepted: its length field is not one byte. -/
def TopicsFit : Prop :=
  ∃ starts whole, Entries byte withQoS ((start byte).pos + remLen byte) ((start byte).pos + 2) starts whole ∧
    starts.length + (if whole then 0 else 1) ≤ maxcount ∧
    if whole then Whole byte buflen 2 else (field byte).length ≠ 1

structure SubackKept (out : SubackOut) : Prop where
  granted : out.granted.length ≤ maxcount
  count : ∀ n, out.count = some n → n ≤ maxcount
  complete : out.rc = 1 → Whole byte buflen 8 ∧ out.count = some (remLen byte - 8) ∧
    out.granted = Memory.slice byte (bodyAt byte + 8) (remLen byte - 8)

def SubackFits : Prop :=
  if remLen byte < 2 then (field byte).length ≠ 1 else Whole byte buflen 8 ∧ remLen byte - 8 ≤ maxcount

end Filling

variable {maxcount buflen : Nat}

theorem topicsWalked {type : MsgType} (same : MqttHeader.type (byte 0) = type.code) (otherType : Int)
    {starts : List Nat} {whole : Bool}
    (walk : Entries byte withQoS ((start byte).pos + remLen byte) ((start byte).pos + 2) starts whole) :
    let out := deserializeTopics byte type otherType withQoS
    out.rc = (if whole then (1 : Int) else (((field byte).length + overrun (field byte) : Nat) : Int)) ∧
      out.count = some starts.length ∧ out.filters.length = starts.length + (if whole then 0 else 1) ∧
      (whole = true → out.filters = starts.map (slotAt byte)) ∧
      out.requestedQoSs = if withQoS then starts.map (qosAt byte) else [] := by
  have follows := topicsLoopFollows walk
    ⟨((field byte).length + overrun (field byte) : Nat),0,[],[],(start byte).advance 2⟩ rfl
    ((start byte).pos + remLen byte - ((start byte).pos + 2)) (Nat.le_refl _)
  simp only [deserializeTopics, firstByte, same, ne_eq, not_true_eq_false, if_false, remainingStart, readIntTopic]
  refine ⟨follows.rc,congrArg some (follows.count.trans (Nat.zero_add _)),?_,follows.filters,follows.requestedQoSs⟩
  exact follows.begun.trans (congrArg (· + _) (Nat.zero_add _))

theorem otherTopics {type : MsgType} (other : MqttHeader.type (byte 0) ≠ type.code) (otherType : Int) :
    deserializeTopics byte type otherType withQoS = ⟨otherType,none,none,none,[],[],[0]⟩ := by
  unfold deserializeTopics
  exact if_pos other

/- A list that is broken off is accepted behind a length field of one byte, with an entry
stored that is not counted. -/
theorem topicsFitting {type : MsgType} (same : MqttHeader.type (byte 0) = type.code) {otherType : Int}
    (kept : TopicsKept byte withQoS maxcount buflen (deserializeTopics byte type otherType withQoS)) :
    TopicsFit byte withQoS maxcount buflen := by
  obtain ⟨starts,whole,walk⟩ := entriesExist byte withQoS ((start byte).pos + remLen byte) _ ((start byte).pos + 2)
    (Nat.le_refl _)
  obtain ⟨rc,count,begun,_⟩ := topicsWalked same otherType walk
  refine ⟨starts,whole,walk,begun ▸ kept.filters,?_⟩
  cases whole with
  | true => exact (kept.complete rc).1
  | false =>
    intro one
    have code : (deserializeTopics byte type otherType withQoS).rc = 1 := by
      rw [rc, if_neg (by decide), singleByte.mpr one]
      rfl
    obtain ⟨_,starts',_,counted,stored,_⟩ := kept.complete code
    have lengths := congrArg List.length stored
    have counts := Option.some.inj (count.symm.trans counted)
    rw [begun, if_neg (by decide), List.length_map] at lengths
    omega

theorem topicsKeeping {type : MsgType} (same : MqttHeader.type (byte 0) = type.code) (otherType : Int)
    (fit : TopicsFit byte withQoS maxcount buflen) :
    TopicsKept byte withQoS maxcount buflen (deserializeTopics byte type otherType withQoS) := by
  obtain ⟨starts,whole,walk,room,packet⟩ := fit
  obtain ⟨rc,count,begun,filters,requestedQoSs⟩ := topicsWalked same otherType walk
  refine ⟨begun ▸ room,?_,?_,fun code => ?_⟩
  · rw [requestedQoSs]
    split
    · rw [List.length_map]
      omega
    · exact Nat.zero_le _
  · intro n stored
    rw [count] at stored
    cases stored
    omega
  · cases whole with
    | true =>
      rw [if_pos rfl] at packet
      rw [startEnded packet.wellFormed] at walk
      exact ⟨packet,starts,walk,count,filters rfl,requestedQoSs⟩
    | false =>
      rw [rc] at code
      have one : ((field byte).length + overrun (field byte) : Int) = 1 := by simpa using code
      exact absurd (singleByte.mp (by omega)) packet

theorem topicsExact {type : MsgType} {otherType : Int} (refused : otherType ≠ 1) :
    TopicsKept byte withQoS maxcount buflen (deserializeTopics byte type otherType withQoS) ↔
      MqttHeader.type (byte 0) ≠ type.code ∨ TopicsFit byte withQoS maxcount buflen := by
  by_cases same : MqttHeader.type (byte 0) = type.code
  · rw [or_iff_right (not_not.mpr same)]
    exact ⟨topicsFitting same,topicsKeeping same otherType⟩
  · rw [otherTopics same]
    refine ⟨fun _ => Or.inl same,fun _ => ⟨Nat.zero_le _,Nat.zero_le _,fun n stored => ?_,fun code => absurd code refused⟩⟩
    cases stored

/-! The granted codes -/

theorem subackLoopWhole (byte : Nat → UInt8) (maxcount : Nat) {enddata : Nat} (left : Nat) (granted : List UInt8)
    (c : Cursor) (enough : enddata - c.pos ≤ left)
    (room : granted.length + (enddata - c.pos) ≤ maxcount + 1) :
    let out := subackLoop byte maxcount enddata left granted c
    out.rc = 1 ∧ out.granted = granted ++ Memory.slice byte c.pos (enddata - c.pos) := by
  induction left generalizing granted c with
  | zero =>
    have none : enddata - c.pos = 0 := by omega
    exact ⟨rfl,by simp [subackLoop, none, Memory.slice]⟩
  | succ left ih =>
    dsimp only
    rw [subackLoop]
    by_cases more : c.pos < enddata
    · have guarded : ¬ maxcount < granted.length := by omega
      have rest := ih (granted ++ [(readChar byte c).1]) (readChar byte c).2 (by rw [readCharPos]; omega)
        (by rw [readCharPos, List.length_append, List.length_singleton]; omega)
      have step : enddata - c.pos = enddata - (c.pos + 1) + 1 := by omega
      rw [if_pos more, if_neg guarded]
      refine ⟨rest.1,rest.2.trans ?_⟩
      rw [step, Memory.slice, List.append_assoc]
      rfl
    · have none : enddata - c.pos = 0 := by omega
      rw [if_neg more]
      exact ⟨rfl,by simp [none, Memory.slice]⟩

/- The count is compared before the store: one more than maxcount codes are stored. -/
theorem subackLoopPast (byte : Nat → UInt8) (maxcount : Nat) {enddata : Nat} (left : Nat) (granted : List UInt8)
    (c : Cursor) (enough : enddata - c.pos ≤ left)
    (more : maxcount < granted.length + (enddata - c.pos)) :
    maxcount < (subackLoop byte maxcount enddata left granted c).granted.length := by
  induction left generalizing granted c with
  | zero =>
    have full : maxcount < granted.length := by omega
    exact full
  | succ left ih =>
    rw [subackLoop]
    split
    · split
      · assumption
      · apply ih
        · rw [readCharPos]
          omega
        · rw [readCharPos, List.length_append, List.length_singleton]
          omega
    · have full : maxcount < granted.length := by omega
      exact full

theorem subackLoopRefuses (byte : Nat → UInt8) (maxcount : Nat) {enddata : Nat} (left : Nat) (granted : List UInt8)
    (c : Cursor) (enough : enddata - c.pos ≤ left)
    (more : maxcount + 1 < granted.length + (enddata - c.pos)) (begun : granted.length ≤ maxcount + 1) :
    (subackLoop byte maxcount enddata left granted c).rc = -1 := by
  induction left generalizing granted c with
  | zero => omega
  | succ left ih =>
    rw [subackLoop, if_pos (by omega)]
    split
    · rfl
    · apply ih
      · rw [readCharPos]
        omega
      · rw [readCharPos, List.length_append, List.length_singleton]
        omega
      · rw [List.length_append, List.length_singleton]
        omega

theorem subackShort (maxcount buflen : Nat) (same : MqttHeader.type (byte 0) = MsgType.suback.code)
    (short : remLen byte < 2) :
    mqttDeserializeSuback byte maxcount buflen =
      ⟨((field byte).length + overrun (field byte) : Nat),none,none,[],(start byte).reads⟩ := by
  simp only [mqttDeserializeSuback, firstByte, same, ne_eq, not_true_eq_false, if_false, remainingStart, if_pos short]

theorem subackLong (maxcount buflen : Nat) (same : MqttHeader.type (byte 0) = MsgType.suback.code)
    (long : ¬ remLen byte < 2) :
    let out := mqttDeserializeSuback byte maxcount buflen
    let loop := subackLoop byte maxcount ((start byte).pos + remLen byte) (remLen byte - 8) [] ((start byte).advance 8)
    out.rc = loop.rc ∧ out.count = some loop.granted.length ∧ out.granted = loop.granted := by
  have left : (start byte).pos + remLen byte - ((start byte).advance 8).pos = remLen byte - 8 :=
    Nat.add_sub_add_left ..
  simp only [mqttDeserializeSuback, firstByte, same, ne_eq, not_true_eq_false, if_false, remainingStart, if_neg long, readInt64Id, left,
    and_self]

theorem subackShortExact (same : MqttHeader.type (byte 0) = MsgType.suback.code) (short : remLen byte < 2) :
    SubackKept byte maxcount buflen (mqttDeserializeSuback byte maxcount buflen) ↔ (field byte).length ≠ 1 := by
  rw [subackShort maxcount buflen same short]
  refine ⟨fun kept one => ?_,fun wide => ⟨Nat.zero_le _,fun n stored => ?_,fun code => ?_⟩⟩
  · have packet := (kept.complete (congrArg Int.ofNat (singleByte.mpr one))).1
    have id := packet.id
    omega
  · cases stored
  · exact absurd (singleByte.mp (Int.ofNat.inj code)) wide

theorem subackLongExact (same : MqttHeader.type (byte 0) = MsgType.suback.code) (long : ¬ remLen byte < 2) :
    SubackKept byte maxcount buflen (mqttDeserializeSuback byte maxcount buflen) ↔
      Whole byte buflen 8 ∧ remLen byte - 8 ≤ maxcount := by
  obtain ⟨rc,count,granted⟩ := subackLong maxcount buflen same long
  have left : (start byte).pos + remLen byte - ((start byte).advance 8).pos = remLen byte - 8 :=
    Nat.add_sub_add_left ..
  by_cases room : remLen byte - 8 ≤ maxcount
  · obtain ⟨code,codes⟩ := subackLoopWhole byte maxcount (remLen byte - 8) []
      ((start byte).advance 8) (Nat.le_of_eq left) (by rw [left, List.length_nil]; omega)
    rw [left, List.nil_append] at codes
    rw [codes] at count granted
    rw [Memory.sliceLength] at count
    refine ⟨fun kept => ⟨(kept.complete (rc.trans code)).1,room⟩,fun fits => ⟨?_,?_,fun _ => ⟨fits.1,count,?_⟩⟩⟩
    · rw [granted, Memory.sliceLength]
      exact room
    · intro n stored
      rw [count] at stored
      cases stored
      exact room
    · rw [granted, ← startEnded fits.1.wellFormed]
      rfl
  · have past := subackLoopPast byte maxcount (remLen byte - 8) []
      ((start byte).advance 8) (Nat.le_of_eq left) (by rw [left, List.length_nil]; omega)
    refine ⟨fun kept => ?_,fun fits => absurd fits.2 room⟩
    have bounded := kept.granted
    rw [granted] at bounded
    omega

theorem subackExact : SubackKept byte maxcount buflen (mqttDeserializeSuback byte maxcount buflen) ↔
    MqttHeader.type (byte 0) ≠ MsgType.suback.code ∨ SubackFits byte maxcount buflen := by
  by_cases same : MqttHeader.type (byte 0) = MsgType.suback.code
  · rw [or_iff_right (not_not.mpr same)]
    unfold SubackFits
    split
    · rename_i short
      exact subackShortExact same short
    · rename_i long
      exact subackLongExact same long
  · have other : mqttDeserializeSuback byte maxcount buflen = ⟨0,none,none,[],[0]⟩ := by
      unfold mqttDeserializeSuback
      exact if_pos same
    rw [other]
    refine ⟨fun _ => Or.inl same,fun _ => ⟨Nat.zero_le _,fun n stored => ?_,fun code => ?_⟩⟩
    · cases stored
    · cases code

/-- The arrays are kept, and a packet taken for accepted is whole, on exactly these packets. -/
theorem listFillingExact (byte : Nat → UInt8) (maxcount buflen : Nat) :
    (SubackKept byte maxcount buflen (mqttDeserializeSuback byte maxcount buflen) ↔
      MqttHeader.type (byte 0) ≠ MsgType.suback.code ∨ SubackFits byte maxcount buflen) ∧
    (TopicsKept byte true maxcount buflen (mqttDeserializeSubscribe byte maxcount buflen) ↔
      MqttHeader.type (byte 0) ≠ MsgType.subscribe.code ∨ TopicsFit byte true maxcount buflen) ∧
    (TopicsKept byte false maxcount buflen (mqttDeserializeUnsubscribe byte maxcount buflen) ↔
      MqttHeader.type (byte 0) ≠ MsgType.unsubscribe.code ∨ TopicsFit byte false maxcount buflen) :=
  ⟨subackExact,topicsExact (by decide),topicsExact (by decide)⟩

def twoCodes : List UInt8 := [0x90,10,0,0,0,0,0,0,0,1,0,1]
def twoFilters : List UInt8 := [0xA2,8,0,1,0,1,97,0,1,98]
def lengthOnly : List UInt8 := [0x82,4,0,1,0,9]

/- Two codes are stored to the single int of a caller, two filters to an array of one, and a
SUBSCRIBE broken off in its first filter is taken for accepted. -/
theorem arraysOverrun :
    ¬ SubackKept (Memory.ofList twoCodes).byte 1 12 (mqttDeserializeSuback (Memory.ofList twoCodes).byte 1 12) ∧
      ¬ TopicsKept (Memory.ofList twoFilters).byte false 1 10
        (mqttDeserializeUnsubscribe (Memory.ofList twoFilters).byte 1 10) ∧
      ¬ TopicsKept (Memory.ofList lengthOnly).byte true 1 6
        (mqttDeserializeSubscribe (Memory.ofList lengthOnly).byte 1 6) := by
  refine ⟨fun kept => ?_,fun kept => ?_,fun kept => ?_⟩
  · exact absurd kept.granted (by decide)
  · exact absurd kept.filters (by decide)
  · obtain ⟨_,starts,_,count,filters,_⟩ := kept.complete (by decide)
    have none : starts.length = 0 := Option.some.inj count.symm
    have one := congrArg List.length filters
    rw [List.length_map, none] at one
    exact absurd one (by decide)

end YunbaIot.ListFilling
