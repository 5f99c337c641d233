import YunbaIot.MqttClient

/-! readPacket by the reads it makes: header byte, length field, body. Where it stores
what they bring, and when that stays inside readbuf. -/
namespace YunbaIot.MqttRead
open FreeRtosTimer MqttTransport MqttPacket MqttClient

variable {τ : Type} (net : Network τ) (timer : Timer) (st : St τ)

def head : Asked τ := ask net 1 timer st.wire
def afterHead : Left := timerLeftMs (head net timer st).timer (head net timer st).wire.clock
def field : List UInt8 × Wire τ :=
  Base128.fieldFrom (oneByte net (afterHead net timer st).ms) maxRemainingLengthBytes
    { (head net timer st).wire with clock := (afterHead net timer st).clock }
def announced : Nat := Base128.value (field net timer st).1
def bodyAt : Nat := 1 + (mqttPacketEncode (announced net timer st)).length
def body : Asked τ := ask net (announced net timer st) (afterHead net timer st).timer (field net timer st).2

/- The state with the header byte and the re-encoded length in readbuf. -/
def opened : St τ :=
  { (st.fill 0 (head net timer st).result.stored).fill 1 (mqttPacketEncode (announced net timer st)) with
    wire := (field net timer st).2 }
def filled : St τ :=
  { (opened net timer st).fill (bodyAt net timer st) (body net timer st).result.stored with
    wire := (body net timer st).wire }

theorem noHeader (absent : (head net timer st).result.rc ≠ 1) :
    readPacket net timer st = ⟨failure,(head net timer st).timer,
      { st.fill 0 (head net timer st).result.stored with wire := (head net timer st).wire }⟩ := if_pos absent

/- From the header byte on: the re-encoded length, then the body if there is one. -/
theorem withHeader (arrived : (head net timer st).result.rc = 1) :
    readPacket net timer st =
      if 0 < announced net timer st then
        if (body net timer st).result.rc ≠ announced net timer st then
          ⟨failure,(body net timer st).timer,filled net timer st⟩
        else acceptPacket (bodyAt net timer st + announced net timer st) (body net timer st).timer
          (filled net timer st)
      else acceptPacket (bodyAt net timer st + announced net timer st) (afterHead net timer st).timer
        (opened net timer st) := by
  have length : (decodePacket net (afterHead net timer st).ms
      { (head net timer st).wire with clock := (afterHead net timer st).clock }).value =
        announced net timer st := by
    rw [decodePacket, mqttPacketDecodeField]
    rfl
  have source : (decodePacket net (afterHead net timer st).ms
      { (head net timer st).wire with clock := (afterHead net timer st).clock }).source =
        (field net timer st).2 := by
    rw [decodePacket, mqttPacketDecodeField]
    rfl
  have first : readPacket net timer st = readRest net (head net timer st).timer
      { st.fill 0 (head net timer st).result.stored with wire := (head net timer st).wire } :=
    if_neg (not_not_intro arrived)
  rw [first]
  unfold readRest
  simp only [St.fill]
  rw [show timerLeftMs (head net timer st).timer (head net timer st).wire.clock = afterHead net timer st from rfl,
    length, source]
  rfl

/- Of the client only readbuf changes. -/
theorem readPacketClient : (readPacket net timer st).st.client =
    { st.client with readbuf := (readPacket net timer st).st.client.readbuf } := by
  by_cases arrived : (head net timer st).result.rc = 1
  · rw [withHeader net timer st arrived]
    split
    · split <;> rfl
    · rfl
  · rw [noHeader net timer st arrived]
    rfl

/- A call either fails or reports the packet it leaves in readbuf. -/
theorem readPacketReceived :
    (readPacket net timer st).rc = failure ∧ (readPacket net timer st).st.trace = st.trace ∨
    let byte := (readPacket net timer st).st.client.readbuf.byte
    (readPacket net timer st).rc = MqttHeader.type (byte 0) ∧
      (readPacket net timer st).st.trace = st.trace ++
        [.received (Memory.slice byte 0 (bodyAt net timer st + announced net timer st))] ∧
      Memory.Holds byte 1 (mqttPacketEncode (announced net timer st)) := by
  by_cases arrived : (head net timer st).result.rc = 1
  · have length : Memory.Holds (opened net timer st).client.readbuf.byte 1
        (mqttPacketEncode (announced net timer st)) := Memory.holdsStore _ 1 _
    rw [withHeader net timer st arrived]
    split
    · split
      · exact Or.inl ⟨rfl,rfl⟩
      · exact Or.inr ⟨rfl,rfl,Memory.holdsStoreFrame length (bodyAt net timer st) _ (Or.inl (Nat.le_refl _))⟩
    · exact Or.inr ⟨rfl,rfl,length⟩
  · rw [noHeader net timer st arrived]
    exact Or.inl ⟨rfl,rfl⟩

/-! Stores into readbuf -/

def Stored (stores : List (Nat × List UInt8)) (i : Nat) : Prop := ∃ s ∈ stores, s.1 ≤ i ∧ i < s.1 + s.2.length

-- what one call adds to the log of readbuf
def added : List (Nat × List UInt8) :=
  (readPacket net timer st).st.client.readbuf.stores.drop st.client.readbuf.stores.length

def Oversize : Prop :=
  (head net timer st).result.rc = 1 ∧
    st.client.readbufSize < bodyAt net timer st + announced net timer st

structure InBuffer : Prop where
  inside : ∀ i, Stored (added net timer st) i → i < st.client.readbufSize
  refused : Oversize net timer st →
    (∀ i, bodyAt net timer st ≤ i → ¬ Stored (added net timer st) i) ∧
      (readPacket net timer st).rc = failure

theorem addedNoHeader (absent : (head net timer st).result.rc ≠ 1) :
    added net timer st = [(0,(head net timer st).result.stored)] := by
  simp [added, noHeader net timer st absent, St.fill, Memory.store]

theorem addedEmpty (arrived : (head net timer st).result.rc = 1) (empty : announced net timer st = 0) :
    added net timer st = [(0,(head net timer st).result.stored),
      (1,mqttPacketEncode (announced net timer st))] := by
  rw [added, withHeader net timer st arrived, if_neg (by omega)]
  simp [acceptPacket, opened, St.log, St.fill, Memory.store]

theorem addedBody (arrived : (head net timer st).result.rc = 1) (nonempty : 0 < announced net timer st) :
    added net timer st = [(0,(head net timer st).result.stored),
      (1,mqttPacketEncode (announced net timer st)),
      (bodyAt net timer st,(body net timer st).result.stored)] := by
  rw [added, withHeader net timer st arrived, if_pos nonempty]
  split
  · simp [filled, opened, St.fill, Memory.store]
  · simp [acceptPacket, filled, opened, St.log, St.fill, Memory.store]

theorem headFits : (head net timer st).result.stored.length ≤ 1 := net.readFits 1 _ _
theorem bodyFits : (body net timer st).result.stored.length ≤ announced net timer st := net.readFits _ _ _

theorem announcedBound : announced net timer st < 128 ^ 4 := calc
  announced net timer st < 128 ^ (field net timer st).1.length := Base128.valueBound _
  _ ≤ 128 ^ 4 := Nat.pow_le_pow_right (by omega) (Base128.fieldLength _ _ _)

theorem lengthFits : bodyAt net timer st ≤ 5 := by
  have digits := Base128.encodeLength 3 _ (announcedBound net timer st)
  rw [← mqttPacketEncodeEncodes] at digits
  unfold bodyAt
  omega

theorem bodyAtPositive : 1 < bodyAt net timer st := by
  have positive := Base128.encodePositive (announced net timer st)
  rw [← mqttPacketEncodeEncodes] at positive
  unfold bodyAt
  omega

/- A read that brings nothing cannot report what it was asked for. -/
theorem askNothing {len : Nat} (more : 0 < len) {timer : Timer} {wire : Wire τ}
    (nothing : (ask net len timer wire).result.stored = []) : (ask net len timer wire).result.rc ≠ len := by
  intro whole
  have positive : 0 ≤ (ask net len timer wire).result.rc := by omega
  have count : (ask net len timer wire).result.rc = (ask net len timer wire).result.stored.length :=
    net.readCount _ _ _ positive
  rw [nothing, whole] at count
  exact absurd count (by simp only [List.length_nil]; omega)

theorem withheldFails (arrived : (head net timer st).result.rc = 1) (nonempty : 0 < announced net timer st)
    (nothing : (body net timer st).result.stored = []) : (readPacket net timer st).rc = failure := by
  have short : (body net timer st).result.rc ≠ announced net timer st := askNothing net nonempty nothing
  rw [withHeader net timer st arrived, if_pos nonempty, if_pos short]

theorem storedHead {i : Nat} {stores : List (Nat × List UInt8)} (off : Nat) (bs : List UInt8) :
    Stored ((off,bs) :: stores) i ↔ (off ≤ i ∧ i < off + bs.length) ∨ Stored stores i := by
  simp [Stored]

theorem storedNil (i : Nat) : ¬ Stored [] i := by simp [Stored]

theorem fitsInBuffer (room : 5 ≤ st.client.readbufSize) (fits : ¬ Oversize net timer st)
    (stores : ∀ i, Stored (added net timer st) i → i < 5 ∨
      (head net timer st).result.rc = 1 ∧ i < bodyAt net timer st + announced net timer st) :
    InBuffer net timer st := by
  refine ⟨fun i stored => ?_,fun oversize => absurd oversize fits⟩
  rcases stores i stored with low | ⟨arrived,low⟩
  · omega
  · have size : ¬ st.client.readbufSize < bodyAt net timer st + announced net timer st :=
      fun large => fits ⟨arrived,large⟩
    omega

theorem smallInBuffer (room : 5 ≤ st.client.readbufSize)
    (small : (head net timer st).result.rc = 1 → announced net timer st = 0) :
    ¬ Oversize net timer st ∧ InBuffer net timer st := by
  have header := headFits net timer st
  have length := lengthFits net timer st
  have size : bodyAt net timer st = 1 + (mqttPacketEncode (announced net timer st)).length := rfl
  have fits : ¬ Oversize net timer st := fun ⟨arrived,large⟩ => by
    have empty := small arrived
    omega
  refine ⟨fits,fitsInBuffer net timer st room fits fun i stored => Or.inl ?_⟩
  by_cases arrived : (head net timer st).result.rc = 1
  · rw [addedEmpty net timer st arrived (small arrived), storedHead, storedHead] at stored
    simp only [storedNil, or_false] at stored
    omega
  · rw [addedNoHeader net timer st arrived, storedHead] at stored
    simp only [storedNil, or_false] at stored
    omega

theorem bodyInBuffer (room : 5 ≤ st.client.readbufSize) (arrived : (head net timer st).result.rc = 1)
    (nonempty : 0 < announced net timer st) :
    InBuffer net timer st ↔ (Oversize net timer st → (body net timer st).result.stored = []) := by
  have header := headFits net timer st
  have length := lengthFits net timer st
  have after := bodyAtPositive net timer st
  have bytes := bodyFits net timer st
  have size : bodyAt net timer st = 1 + (mqttPacketEncode (announced net timer st)).length := rfl
  have stores := addedBody net timer st arrived nonempty
  refine ⟨fun h oversize => ?_,fun withheld => ?_⟩
  · have clean := (h.refused oversize).1 (bodyAt net timer st) (Nat.le_refl _)
    rw [stores, storedHead, storedHead, storedHead] at clean
    apply List.eq_nil_of_length_eq_zero
    omega
  · by_cases oversize : Oversize net timer st
    · rw [withheld oversize] at stores
      refine ⟨fun i stored => ?_,fun _ => ⟨fun i beyond stored => ?_,?_⟩⟩
      · rw [stores, storedHead, storedHead, storedHead] at stored
        simp only [storedNil, or_false, List.length_nil] at stored
        omega
      · rw [stores, storedHead, storedHead, storedHead] at stored
        simp only [storedNil, or_false, List.length_nil] at stored
        omega
      · exact withheldFails net timer st arrived nonempty (withheld oversize)
    · refine fitsInBuffer net timer st room oversize fun i stored => Or.inr ⟨arrived,?_⟩
      rw [stores, storedHead, storedHead, storedHead] at stored
      simp only [storedNil, or_false] at stored
      omega

/-- readPacket keeps to readbuf and refuses what does not fit exactly when not one byte
of an oversize body arrives. -/
theorem readPacketInBuffer (room : 5 ≤ st.client.readbufSize) :
    InBuffer net timer st ↔ (Oversize net timer st → (body net timer st).result.stored = []) := by
  by_cases nonempty : (head net timer st).result.rc = 1 ∧ 0 < announced net timer st
  · exact bodyInBuffer net timer st room nonempty.1 nonempty.2
  · obtain ⟨fits,kept⟩ := smallInBuffer net timer st room (fun arrived => by
      have none : ¬ 0 < announced net timer st := fun more => nonempty ⟨arrived,more⟩
      omega)
    exact ⟨fun _ oversize => absurd oversize fits,fun _ => kept⟩

/- A client about to read from the ideal transport. -/
def reading (readbufSize : Nat) (incoming : List UInt8) : St (List UInt8) :=
  let blank := St.static ⟨[],incoming⟩
  { blank with client := { blank.client with readbufSize := readbufSize } }

theorem fittingKept : InBuffer pipe timerInit (reading 6 [0x30,4,0,1,0x61,0x62]) :=
  (readPacketInBuffer pipe timerInit _ (by decide)).mpr fun oversize => absurd oversize.2 (by decide)

/- A body of four bytes behind a header and a length byte, into a buffer of five. -/
theorem oversizeStored :
    (readPacket pipe timerInit (reading 5 [0x30,4,0,1,0x61,0x62])).rc = MsgType.publish.code ∧
      ¬ InBuffer pipe timerInit (reading 5 [0x30,4,0,1,0x61,0x62]) := by
  have stores : added pipe timerInit (reading 5 [0x30,4,0,1,0x61,0x62]) =
      [(0,[0x30]),(1,[4]),(2,[0,1,0x61,0x62])] := by decide
  refine ⟨by decide,fun h => ?_⟩
  have low : 5 < 5 := h.inside 5 (by
    rw [stores]
    exact ⟨(2,[0,1,0x61,0x62]),by decide,by decide,by decide⟩)
  omega

end YunbaIot.MqttRead
