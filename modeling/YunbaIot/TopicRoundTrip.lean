import YunbaIot.MqttServer
import YunbaIot.SelfFraming

/-! Topic lists between the serializers of SUBSCRIBE and UNSUBSCRIBE and the server's
deserializers. The two sides agree on the list and not on the width of the packet id. -/
namespace YunbaIot.TopicRoundTrip
open MqttPacket MqttDeserialize MqttSerialize MqttServer ControlPacket SelfFraming

/- One entry of a list as the serializers write it. -/
structure Item where
  filter : MqttString
  qos : UInt8

def Item.bytes (withQoS : Bool) (i : Item) : List UInt8 :=
  writeMqttString i.filter ++ (if withQoS then [i.qos] else [])
def itemsBytes (withQoS : Bool) (items : List Item) : List UInt8 := items.flatMap (Item.bytes withQoS)
def qosSize (withQoS : Bool) : Nat := if withQoS then 1 else 0

structure Item.Fits (i : Item) : Prop where
  single : Single i.filter
  short : mqttstrlen i.filter ≤ 65535

theorem itemLength (withQoS : Bool) {i : Item} (single : Single i.filter) :
    (i.bytes withQoS).length = 2 + mqttstrlen i.filter + qosSize withQoS := by
  simp only [Item.bytes, List.length_append, writeMqttStringLength single, qosSize]
  cases withQoS <;> rfl

/- What the deserializers are to give back. -/
structure Yields (byte : Nat → UInt8) (out : TopicsOut) (id : UInt64) (names : List (List UInt8)) (qoss : List Int) :
    Prop where
  rc : out.rc = 1
  packetid : out.packetid = some id
  count : out.count = some names.length
  filters : (out.filters.take names.length).map (slotBytes byte) = names.map some
  requestedQoSs : (out.requestedQoSs.take names.length).map (fun b => (b.toNat : Int)) = qoss

variable {byte : Nat → UInt8} {withQoS : Bool} {enddata : Nat}

/-! The loop reads the list that was written -/

structure Reads (byte : Nat → UInt8) (withQoS : Bool) (items : List Item) (t t' : Topics) : Prop where
  rc : t'.rc = 1
  count : t'.count = t.count + items.length
  filters : t'.filters.map (slotBytes byte) =
    t.filters.map (slotBytes byte) ++ items.map fun i => some (stringBytes i.filter)
  requestedQoSs : t'.requestedQoSs = t.requestedQoSs ++ if withQoS then items.map Item.qos else []

theorem readsCons {i : Item} {items : List Item} {t t₁ t' : Topics} {s : Slot} (count : t₁.count = t.count + 1)
    (filters : t₁.filters = t.filters ++ [s]) (content : slotBytes byte s = some (stringBytes i.filter))
    (qos : t₁.requestedQoSs = t.requestedQoSs ++ if withQoS then [i.qos] else [])
    (rest : Reads byte withQoS items t₁ t') : Reads byte withQoS (i :: items) t t' where
  rc := rest.rc
  count := by
    rw [rest.count, count, List.length_cons]
    omega
  filters := by simp [rest.filters, filters, content]
  requestedQoSs := by
    rw [rest.requestedQoSs, qos]
    cases withQoS <;> simp

theorem topicsLoopReads {items : List Item} (fit : ∀ i ∈ items, i.Fits) (left : Nat) (t : Topics)
    (there : Memory.Holds byte t.cursor.pos (itemsBytes withQoS items))
    (ends : t.cursor.pos + (itemsBytes withQoS items).length = enddata)
    (enough : (itemsBytes withQoS items).length ≤ left) :
    Reads byte withQoS items t (topicsLoop byte withQoS enddata left t) := by
  induction items generalizing left t with
  | nil =>
    have stop : ¬ t.cursor.pos < enddata := by
      simp only [itemsBytes, List.flatMap_nil, List.length_nil] at ends
      omega
    cases left with
    | zero => exact ⟨rfl,rfl,by simp [topicsLoop],by simp [topicsLoop]⟩
    | succ left =>
      rw [topicsLoop, if_neg stop]
      exact ⟨rfl,rfl,by simp,by simp⟩
  | cons i items ih =>
    have one := fit i (List.mem_cons_self ..)
    have size := itemLength withQoS one.single
    have others := ih (fun j inside => fit j (List.mem_cons_of_mem _ inside))
    simp only [itemsBytes, List.flatMap_cons, List.length_append, size] at there ends enough others
    obtain ⟨first,rest⟩ := Memory.holdsAppend.mp there
    obtain ⟨string,qos⟩ := Memory.holdsAppend.mp first
    obtain ⟨reads,read,content⟩ := readStringWritten enddata one.single one.short string (by omega)
    have named : slotBytes byte ⟨some (mqttstrlen i.filter),some (t.cursor.pos + 2)⟩ = some (stringBytes i.filter) :=
      congrArg some content
    rw [size] at rest
    rw [writeMqttStringLength one.single, ← Nat.add_assoc] at qos
    cases left with
    | zero => omega
    | succ left =>
      have go : t.cursor.pos < enddata := by omega
      rw [topicsLoop, if_pos go, read]
      dsimp only
      rw [if_neg (by decide)]
      cases withQoS with
      | false =>
        simp only [qosSize, Bool.false_eq_true, if_false, Nat.add_zero] at rest ends enough ⊢
        exact readsCons rfl rfl named (by simp) (others left _ (by simpa only [Nat.add_assoc] using rest)
          (by simp only; omega) (by omega))
      | true =>
        simp only [qosSize, if_true] at rest ends enough qos ⊢
        rw [if_neg (by omega)]
        have code : (readChar byte ⟨t.cursor.pos + 2 + mqttstrlen i.filter,reads⟩).1 = i.qos := qos.1
        refine readsCons rfl rfl named (by simp [code]) (others left _ ?_ ?_ (by omega))
        · simpa only [readCharPos, Nat.add_assoc] using rest
        · simp only [readCharPos]
          omega

/-! Every accepted list uses up the packet -/

theorem stringRead (byte : Nat → UInt8) (c : Cursor) (enddata : Nat) :
    let r := readMqttLenString byte c enddata
    r.rc = 0 ∨ r.rc = 1 ∧ r.cursor.pos = c.pos + 2 + r.len.getD 0 ∧ r.cursor.pos ≤ enddata := by
  unfold readMqttLenString
  split
  · dsimp only
    split
    · rename_i ends
      exact Or.inr ⟨rfl,rfl,ends⟩
    · exact Or.inl rfl
  · exact Or.inl rfl

def slotSize (withQoS : Bool) (s : Slot) : Nat := 2 + s.len.getD 0 + qosSize withQoS

/- What the rounds that end in an accepted list add, up to the end of the packet. -/
structure Consumes (withQoS : Bool) (enddata : Nat) (t t' : Topics) (new : List Slot) : Prop where
  filters : t'.filters = t.filters ++ new
  count : t'.count = t.count + new.length
  ends : t.cursor.pos + (new.map (slotSize withQoS)).sum = enddata

theorem consumesCons {t t₁ t' : Topics} {s : Slot} {new : List Slot} (filters : t₁.filters = t.filters ++ [s])
    (count : t₁.count = t.count + 1) (moved : t₁.cursor.pos = t.cursor.pos + slotSize withQoS s)
    (rest : Consumes withQoS enddata t₁ t' new) : Consumes withQoS enddata t t' (s :: new) where
  filters := by simp [rest.filters, filters]
  count := by
    rw [rest.count, count, List.length_cons]
    omega
  ends := by
    rw [← rest.ends, moved, List.map_cons, List.sum_cons]
    omega

theorem topicsLoopConsumes (left : Nat) (t : Topics) (start : t.cursor.pos ≤ enddata)
    (enough : enddata - t.cursor.pos ≤ left) (other : t.rc ≠ 1)
    (accepted : (topicsLoop byte withQoS enddata left t).rc = 1) :
    ∃ new, Consumes withQoS enddata t (topicsLoop byte withQoS enddata left t) new := by
  induction left generalizing t with
  | zero =>
    refine ⟨[],by simp [topicsLoop],rfl,?_⟩
    simp only [List.map_nil, List.sum_nil]
    omega
  | succ left ih =>
    rw [topicsLoop] at accepted ⊢
    split at accepted
    · rename_i go
      rw [if_pos go]
      rcases stringRead byte t.cursor enddata with refused | ⟨read,moved,inside⟩
      · simp only [refused, if_true] at accepted
        exact absurd accepted other
      · simp only [read, Int.one_ne_zero, if_false] at accepted ⊢
        cases withQoS with
        | false =>
          simp only [Bool.false_eq_true, if_false] at accepted ⊢
          obtain ⟨new,rest⟩ := ih _ (by exact inside) (by simp only; omega) (by exact other) accepted
          refine ⟨_,consumesCons rfl rfl ?_ rest⟩
          simp only [moved, slotSize, slot, qosSize, Bool.false_eq_true, if_false]
          omega
        | true =>
          simp only [if_true] at accepted ⊢
          split at accepted
          · exact absurd accepted other
          · rename_i room
            rw [if_neg room]
            obtain ⟨new,rest⟩ := ih _ (by rw [readCharPos]; omega)
              (by rw [readCharPos]; omega) (by exact other) accepted
            refine ⟨_,consumesCons rfl rfl ?_ rest⟩
            simp only [readCharPos, moved, slotSize, slot, qosSize, if_true]
            omega
    · rename_i stop
      rw [if_neg stop]
      refine ⟨[],by simp,rfl,?_⟩
      simp only [List.map_nil, List.sum_nil]
      omega

/-! Eight bytes of packet id against two -/

def listFrame (header : UInt8) (withQoS : Bool) (id : UInt64) (items : List Item) : Frame :=
  ⟨header,writeInt64 id ++ itemsBytes withQoS items⟩

theorem shortId {c : Cursor} {id : UInt64} (there : Memory.Holds byte c.pos (writeInt64 id)) :
    (readInt byte c).1 = id.toNat / 2 ^ 48 := by
  have bytes := Memory.sliceOfHolds there
  have value := writeInt64Value id
  have bound := fun i => (byte (c.pos + i)).toNat_lt
  rw [← bytes, writeInt64Length] at value
  simp only [Memory.slice, BigEndian.value, List.foldl_cons, List.foldl_nil, Nat.add_assoc, Nat.reduceAdd] at value
  have b1 := bound 1
  have b2 := bound 2
  have b3 := bound 3
  have b4 := bound 4
  have b5 := bound 5
  have b6 := bound 6
  have b7 := bound 7
  simp only [readInt]
  omega

/- An id that its upper two bytes give back is zero. -/
theorem shortIdZero {id : UInt64} (same : UInt64.ofNat (id.toNat / 2 ^ 48) = id) : id = 0 := by
  apply UInt64.toNat_inj.mp
  have value := congrArg UInt64.toNat same
  have bound := id.toNat_lt
  simp only [UInt64.toNat_ofNat', Nat.reducePow] at value
  have zero : (0 : UInt64).toNat = 0 := rfl
  omega

/- The six bytes behind a two-byte id of zero, read as entries of the list. -/
def blank : Item := ⟨.initializer,0⟩
def blanks (withQoS : Bool) : List Item := List.replicate (if withQoS then 2 else 3) blank

theorem blankFits : blank.Fits := ⟨Or.inl rfl,by decide⟩
theorem zeroId (withQoS : Bool) (items : List Item) :
    writeInt64 0 ++ itemsBytes withQoS items = writeInt 0 ++ itemsBytes withQoS (blanks withQoS ++ items) := by
  cases withQoS <;> rfl

/- The loop of a deserializer: where it starts, where the packet ends, how it is left. -/
def entered (byte : Nat → UInt8) : Topics :=
  let rem := remainingLength byte ⟨1,[0]⟩
  ⟨rem.rc,0,[],[],(readInt byte rem.curdata).2⟩
def listEnd (byte : Nat → UInt8) : Nat :=
  let rem := remainingLength byte ⟨1,[0]⟩
  rem.curdata.pos + rem.mylen
def looped (byte : Nat → UInt8) (withQoS : Bool) : Topics :=
  topicsLoop byte withQoS (listEnd byte) (listEnd byte - (entered byte).cursor.pos) (entered byte)

theorem deserializeTopicsLoop {type : MsgType} (typed : MqttHeader.type (byte 0) = type.code) (otherType : Int)
    (withQoS : Bool) :
    deserializeTopics byte type otherType withQoS =
      ⟨(looped byte withQoS).rc,some (MqttHeader.dup (byte 0)),
        some (UInt64.ofNat (readInt byte (remainingLength byte ⟨1,[0]⟩).curdata).1),some (looped byte withQoS).count,
        (looped byte withQoS).filters,(looped byte withQoS).requestedQoSs,(looped byte withQoS).cursor.reads⟩ := by
  unfold deserializeTopics
  exact if_neg (not_not_intro typed)

theorem slotsSize (withQoS : Bool) {slots : List Slot} {names : List (List UInt8)} (same : slots.map (slotBytes byte) = names.map some) :
    (slots.map (slotSize withQoS)).sum = (names.map fun bs => 2 + bs.length + qosSize withQoS).sum := by
  induction slots generalizing names with
  | nil =>
    cases names with
    | nil => rfl
    | cons bs names => cases same
  | cons s slots ih =>
    cases names with
    | nil => cases same
    | cons bs names =>
      simp only [List.map_cons, List.cons.injEq] at same
      obtain ⟨_,_,slice⟩ := Option.map_eq_some_iff.mp same.1
      have size := congrArg List.length slice
      rw [Memory.sliceLength] at size
      simp only [List.map_cons, List.sum_cons, ih same.2, slotSize, size]

theorem itemsLength (withQoS : Bool) {items : List Item} (fit : ∀ i ∈ items, i.Fits) :
    (itemsBytes withQoS items).length =
      ((items.map fun i => stringBytes i.filter).map fun bs => 2 + bs.length + qosSize withQoS).sum := by
  induction items with
  | nil => rfl
  | cons i items ih =>
    have first := itemLength withQoS (fit i (List.mem_cons_self ..)).single
    have rest := ih fun j inside => fit j (List.mem_cons_of_mem _ inside)
    rw [mqttstrlenBytes] at first
    simp only [itemsBytes, List.flatMap_cons, List.length_append, List.map_cons, List.sum_cons] at rest ⊢
    rw [first, rest]

theorem loopedConsumes {names : List (List UInt8)} (nonempty : names ≠ []) (other : (entered byte).rc ≠ 1)
    (accepted : (looped byte withQoS).rc = 1) (count : (looped byte withQoS).count = names.length)
    (filters : ((looped byte withQoS).filters.take names.length).map (slotBytes byte) = names.map some) :
    2 + (names.map fun bs => 2 + bs.length + qosSize withQoS).sum = (remainingLength byte ⟨1,[0]⟩).mylen := by
  have begun : (entered byte).cursor.pos = (remainingLength byte ⟨1,[0]⟩).curdata.pos + 2 := rfl
  have ending : listEnd byte = (remainingLength byte ⟨1,[0]⟩).curdata.pos + (remainingLength byte ⟨1,[0]⟩).mylen := rfl
  by_cases start : (entered byte).cursor.pos ≤ listEnd byte
  · obtain ⟨new,consumes⟩ := topicsLoopConsumes _ _ start (Nat.le_refl _) other accepted
    have stored : (looped byte withQoS).filters = new := consumes.filters
    have counted : (looped byte withQoS).count = 0 + new.length := consumes.count
    have whole : new.take names.length = new := List.take_of_length_le (by omega)
    rw [stored, whole] at filters
    have size := slotsSize withQoS filters
    have ends := consumes.ends
    omega
  · have none : listEnd byte - (entered byte).cursor.pos = 0 := by omega
    unfold looped at count
    rw [none] at count
    have empty : 0 = names.length := count
    exact absurd (List.eq_nil_of_length_eq_zero empty.symm) nonempty

/- A list that came back would have used up six bytes less than the packet has. -/
theorem overlongNever {type : MsgType} {otherType : Int} {header : UInt8} {id : UInt64} {items : List Item}
    {qoss : List Int} (fit : ∀ i ∈ items, i.Fits) (typed : MqttHeader.type header = type.code)
    (there : Memory.Holds byte 0 (listFrame header withQoS id items).bytes)
    (long : lengthLimit ≤ (listFrame header withQoS id items).body.length) :
    ¬ Yields byte (deserializeTopics byte type otherType withQoS) id (items.map fun i => stringBytes i.filter) qoss := by
  intro back
  obtain ⟨first,rest⟩ := there
  obtain ⟨length,_⟩ := Memory.holdsAppend.mp rest
  have mylen : (remainingLength byte ⟨1,[0]⟩).mylen = _ := mylenHolds length
  have rc : (entered byte).rc = 5 := congrArg Nat.cast (overlongHolds (c := ⟨1,[0]⟩) long length)
  have size := itemsLength withQoS fit
  have total : (listFrame header withQoS id items).body.length = 8 + (itemsBytes withQoS items).length := by
    simp only [listFrame, List.length_append, writeInt64Length]
  have nonempty : items.map (fun i => stringBytes i.filter) ≠ [] := by
    intro none
    rw [none] at size
    simp only [List.map_nil, List.sum_nil] at size
    unfold lengthLimit at long
    omega
  rw [deserializeTopicsLoop (by rw [first]; exact typed)] at back
  have consumed := loopedConsumes nonempty (by omega) back.rc (Option.some.inj back.count) back.filters
  unfold lengthLimit at long
  omega

/- In reach of the length field the id decides: any but zero is cut to its upper two
bytes, and behind zero the blanks are counted too. -/
theorem framedNever {type : MsgType} {otherType : Int} {header : UInt8} {id : UInt64} {items : List Item}
    {qoss : List Int} (fit : ∀ i ∈ items, i.Fits) (typed : MqttHeader.type header = type.code)
    (there : Memory.Holds byte 0 (listFrame header withQoS id items).bytes)
    (bound : (listFrame header withQoS id items).body.length < lengthLimit) :
    ¬ Yields byte (deserializeTopics byte type otherType withQoS) id (items.map fun i => stringBytes i.filter) qoss := by
  intro back
  obtain ⟨first,remaining,holds,behind⟩ := framed bound there
  generalize bodyAt (listFrame header withQoS id items) = body at remaining holds behind
  have curdata := congrArg Remaining.curdata (remaining [0])
  have mylen := congrArg Remaining.mylen (remaining [0])
  have place : (remainingLength byte ⟨1,[0]⟩).curdata.pos = body := by
    rw [curdata]
    simp only [Cursor.advance]
    omega
  simp only at mylen
  rw [deserializeTopicsLoop (by rw [first]; exact typed)] at back
  have idThere := (Memory.holdsAppend.mp holds).1
  rw [← place] at idThere
  have zero := back.packetid
  simp only [shortId idThere, Option.some.injEq] at zero
  have nul := shortIdZero zero
  subst nul
  simp only [listFrame, zeroId] at holds mylen
  obtain ⟨_,listThere⟩ := Memory.holdsAppend.mp holds
  have allFit : ∀ i ∈ blanks withQoS ++ items, i.Fits := by
    intro i inside
    rcases List.mem_append.mp inside with padding | listed
    · rw [List.eq_of_mem_replicate padding]
      exact blankFits
    · exact fit i listed
  have begun : (entered byte).cursor.pos = (remainingLength byte ⟨1,[0]⟩).curdata.pos + 2 := rfl
  have ending : listEnd byte = (remainingLength byte ⟨1,[0]⟩).curdata.pos + (remainingLength byte ⟨1,[0]⟩).mylen := rfl
  simp only [List.length_append, writeIntLength] at mylen
  have reads : Reads byte withQoS (blanks withQoS ++ items) (entered byte) (looped byte withQoS) := by
    apply topicsLoopReads allFit
    · rw [begun, place]
      exact listThere
    · simp only [begun, ending, mylen]
      omega
    · simp only [begun, ending, mylen]
      omega
  have count := back.count
  have counted : (looped byte withQoS).count = 0 + (blanks withQoS ++ items).length := reads.count
  simp only [counted, List.length_append, List.length_map, Option.some.injEq] at count
  have padding : 0 < (blanks withQoS).length := by cases withQoS <;> decide
  omega

theorem listNever {type : MsgType} {otherType : Int} {header : UInt8} {id : UInt64} {items : List Item} {qoss : List Int}
    (fit : ∀ i ∈ items, i.Fits) (typed : MqttHeader.type header = type.code)
    (there : Memory.Holds byte 0 (listFrame header withQoS id items).bytes) :
    ¬ Yields byte (deserializeTopics byte type otherType withQoS) id (items.map fun i => stringBytes i.filter) qoss := by
  by_cases bound : (listFrame header withQoS id items).body.length < lengthLimit
  · exact framedNever fit typed there bound
  · exact overlongNever fit typed there (Nat.le_of_not_lt bound)

/-! The two pairs of functions -/

inductive Listing where
  | subscribe (topics : List TopicRequest)
  | unsubscribe (filters : List MqttString)

namespace Listing

def request (dup : Nat) (packetid : UInt64) : Listing → Request
  | .subscribe topics => .subscribe dup packetid topics
  | .unsubscribe filters => .unsubscribe dup packetid filters
def serialize (buflen : Int) (dup : Nat) (packetid : UInt64) : Listing → Serialized
  | .subscribe topics => mqttSerializeSubscribe buflen dup packetid topics
  | .unsubscribe filters => mqttSerializeUnsubscribe buflen dup packetid filters
def deserialize (byte : Nat → UInt8) (maxcount buflen : Nat) : Listing → TopicsOut
  | .subscribe _ => mqttDeserializeSubscribe byte maxcount buflen
  | .unsubscribe _ => mqttDeserializeUnsubscribe byte maxcount buflen

def items : Listing → List Item
  | .subscribe topics => topics.map fun t => ⟨t.filter,UInt8.ofInt t.qos⟩
  | .unsubscribe filters => filters.map fun f => ⟨f,0⟩
def names (l : Listing) : List (List UInt8) := l.items.map fun i => stringBytes i.filter
def requestedQoSs : Listing → List Int
  | .subscribe topics => topics.map TopicRequest.qos
  | .unsubscribe _ => []

end Listing

theorem listingWellFormed {l : Listing} (fit : ∀ i ∈ l.items, i.Fits) (dup : Nat) (id : UInt64) :
    (l.request dup id).WellFormed := by
  cases l with
  | subscribe topics =>
    refine ⟨fun s inside => ?_,fun options same => by cases same⟩
    obtain ⟨t,listed,rfl⟩ := List.mem_map.mp inside
    exact (fit ⟨t.filter,UInt8.ofInt t.qos⟩ (List.mem_map.mpr ⟨t,listed,rfl⟩)).single
  | unsubscribe filters =>
    refine ⟨fun s inside => ?_,fun options same => by cases same⟩
    exact (fit ⟨s,0⟩ (List.mem_map.mpr ⟨s,inside,rfl⟩)).single

/-- No list of topics comes back: whatever is serialized, the server's deserializer does not
return it with its packet id. -/
theorem listingNeverReturns {l : Listing} (fit : ∀ i ∈ l.items, i.Fits) (buflen : Int) (dup : Nat) (id : UInt64)
    (accepted : 0 < (l.serialize buflen dup id).rc) (byte : Nat → UInt8)
    (there : Memory.Holds byte 0 (l.serialize buflen dup id).written) (maxcount buflen' : Nat) :
    ¬ Yields byte (l.deserialize byte maxcount buflen') id l.names l.requestedQoSs := by
  have framing := serializeFrame (listingWellFormed fit dup id) buflen
  cases l with
  | subscribe topics =>
    have same : mqttSerializeSubscribe buflen dup id topics = (Request.subscribe dup id topics).frame.serialize buflen :=
      framing
    simp only [Listing.serialize, same] at accepted there
    rw [serializeWritten accepted] at there
    have list : (Request.subscribe dup id topics).frame =
        listFrame (MqttHeader.byte MsgType.subscribe.code dup 1 0) true id (Listing.subscribe topics).items := by
      simp [Request.frame, listFrame, topicsBytes, itemsBytes, Listing.items, Item.bytes, List.flatMap_map]
    rw [list] at there
    exact listNever fit (by simp [MsgType.code]) there
  | unsubscribe filters =>
    have same : mqttSerializeUnsubscribe buflen dup id filters =
        (Request.unsubscribe dup id filters).frame.serialize buflen := framing
    simp only [Listing.serialize, same] at accepted there
    rw [serializeWritten accepted] at there
    have list : (Request.unsubscribe dup id filters).frame =
        listFrame (MqttHeader.byte MsgType.unsubscribe.code dup 1 0) false id (Listing.unsubscribe filters).items := by
      simp [Request.frame, listFrame, filtersBytes, itemsBytes, Listing.items, Item.bytes, List.flatMap_map]
    rw [list] at there
    exact listNever fit (by simp [MsgType.code]) there

/- The filter a/# requested with QoS 1 under id 7. -/
def wildcard : Listing := .subscribe [⟨⟨none,some [0x61,0x2f,0x23]⟩,1⟩]
def wildcardBuffer : Nat → UInt8 := ((Memory.ofList []).store 0 (wildcard.serialize 32 0 7).written).byte

theorem wildcardLost : ¬ Yields wildcardBuffer (wildcard.deserialize wildcardBuffer 4 32) 7 [[0x61,0x2f,0x23]] [1] := by
  refine listingNeverReturns (fun i inside => ?_) 32 0 7 (by decide) wildcardBuffer (Memory.holdsStore _ 0 _) 4 32
  rw [List.mem_singleton.mp inside]
  exact ⟨Or.inl rfl,by decide⟩

/- It is accepted as a list of three under id 0. -/
theorem wildcardTripled :
    (mqttDeserializeSubscribe wildcardBuffer 4 32).rc = 1 ∧
      (mqttDeserializeSubscribe wildcardBuffer 4 32).packetid = some 0 ∧
      (mqttDeserializeSubscribe wildcardBuffer 4 32).count = some 3 ∧
      ¬ Yields wildcardBuffer (mqttDeserializeSubscribe wildcardBuffer 4 32) 7 [[0x61,0x2f,0x23]] [1] := by
  have id : (mqttDeserializeSubscribe wildcardBuffer 4 32).packetid = some 0 := by decide
  refine ⟨by decide,id,by decide,fun back => ?_⟩
  have seven := back.packetid
  rw [id] at seven
  cases seven

end YunbaIot.TopicRoundTrip
