import YunbaIot.MqttRead

/-! Packets on the wire and the calls of readPacket that take them off it. A length field
may use more bytes than it needs; what readPacket leaves in readbuf is canonical. -/
namespace YunbaIot.Framing
open FreeRtosTimer MqttTransport MqttPacket MqttClient MqttRead

structure WirePacket where
  header : UInt8
  field : List UInt8
  body : List UInt8
  ended : Base128.terminated field = true
  short : field.length ≤ maxRemainingLengthBytes
  counts : Base128.value field = body.length

def WirePacket.bytes (p : WirePacket) : List UInt8 := p.header :: (p.field ++ p.body)
def WirePacket.canonical (p : WirePacket) : List UInt8 :=
  p.header :: (mqttPacketEncode p.body.length ++ p.body)
def stream (ps : List WirePacket) : List UInt8 := ps.flatMap WirePacket.bytes

/- The packet in its shortest form is one that can travel. -/
def WirePacket.shortest (p : WirePacket) : WirePacket where
  header := p.header
  field := mqttPacketEncode p.body.length
  body := p.body
  ended := by
    rw [mqttPacketEncodeEncodes]
    exact Base128.encodeTerminated _
  short := by
    have shorter := Base128.encodeShortest p.ended
    rw [p.counts, ← mqttPacketEncodeEncodes] at shorter
    exact Nat.le_trans shorter p.short
  counts := by
    rw [mqttPacketEncodeEncodes]
    exact Base128.valueEncode _

variable {τ : Type} (net : Network τ) (timer : Timer) (st : St τ)

/- What the three reads of one call bring when they bring a packet. -/
structure Brings (p : WirePacket) : Prop where
  header : (head net timer st).result = ⟨[p.header],1⟩
  field : (field net timer st).1 = p.field
  body : p.body ≠ [] → (body net timer st).result = ⟨p.body,p.body.length⟩

-- where the transport stands after the packet
def after (p : WirePacket) : Wire τ :=
  if p.body = [] then (field net timer st).2 else (body net timer st).wire

variable {net timer st}

theorem Brings.announced {p : WirePacket} (h : Brings net timer st p) : announced net timer st = p.body.length := by
  rw [MqttRead.announced, h.field, p.counts]

theorem Brings.bodyAt {p : WirePacket} (h : Brings net timer st p) :
    bodyAt net timer st = 1 + (mqttPacketEncode p.body.length).length := by
  rw [MqttRead.bodyAt, h.announced]

/- The state a packet leaves behind, its body stored or absent. -/
def accepted (net : Network τ) (timer : Timer) (st : St τ) (p : WirePacket) : St τ :=
  { (if p.body = [] then opened net timer st else filled net timer st) with wire := after net timer st p }

theorem readPacketBrings {p : WirePacket} (h : Brings net timer st p) :
    ∃ timer', readPacket net timer st =
      acceptPacket (bodyAt net timer st + p.body.length) timer' (accepted net timer st p) := by
  have arrived : (head net timer st).result.rc = 1 := by rw [h.header]
  have count := h.announced
  rw [withHeader net timer st arrived, count]
  unfold accepted after
  cases empty : p.body with
  | nil => exact ⟨_,rfl⟩
  | cons b bs =>
    have whole : (body net timer st).result.rc = (b :: bs).length := by
      rw [h.body (by simp [empty]), empty]
    rw [if_pos (by simp), if_neg (not_not_intro whole)]
    exact ⟨_,rfl⟩

theorem acceptedHolds {p : WirePacket} (h : Brings net timer st p) :
    Memory.Holds (accepted net timer st p).client.readbuf.byte 0 p.canonical := by
  have place := h.bodyAt
  have header : Memory.Holds (st.fill 0 [p.header]).client.readbuf.byte 0 [p.header] :=
    Memory.holdsStore _ 0 _
  have front : Memory.Holds (opened net timer st).client.readbuf.byte 0
      (p.header :: mqttPacketEncode p.body.length) := by
    have kept := Memory.holdsStoreFrame header 1 (mqttPacketEncode p.body.length) (Or.inl (by simp))
    have length : Memory.Holds (opened net timer st).client.readbuf.byte 1 (mqttPacketEncode p.body.length) := by
      rw [← h.announced]
      exact Memory.holdsStore _ 1 _
    refine ⟨?_,length⟩
    unfold opened
    rw [h.header, h.announced]
    exact kept.1
  unfold accepted WirePacket.canonical
  by_cases empty : p.body = []
  · have plain : mqttPacketEncode p.body.length ++ p.body = mqttPacketEncode p.body.length := by simp [empty]
    rw [if_pos empty, plain]
    exact front
  · rw [if_neg empty]
    have kept := Memory.holdsStoreFrame front (MqttRead.bodyAt net timer st) p.body
      (Or.inl (by simp only [place, List.length_cons]; omega))
    have stored : Memory.Holds (filled net timer st).client.readbuf.byte (MqttRead.bodyAt net timer st) p.body := by
      unfold filled
      rw [h.body empty]
      exact Memory.holdsStore _ _ _
    rw [← List.cons_append, Memory.holdsAppend]
    refine ⟨?_,?_⟩
    · unfold filled
      rw [h.body empty]
      exact kept
    · simp only [List.length_cons, Nat.zero_add, Nat.add_comm _ 1, ← place]
      exact stored

theorem canonicalLength (p : WirePacket) :
    p.canonical.length = 1 + (mqttPacketEncode p.body.length).length + p.body.length := by
  simp only [WirePacket.canonical, List.length_cons, List.length_append]
  omega

/- One call that gets a whole packet: type nibble, canonical bytes in readbuf and in the
trace, and nothing but readbuf changed in the client. -/
structure Takes (net : Network τ) (timer : Timer) (st : St τ) (p : WirePacket) : Prop where
  rc : (readPacket net timer st).rc = MqttHeader.type p.header
  buffer : Memory.Holds (readPacket net timer st).st.client.readbuf.byte 0 p.canonical
  trace : (readPacket net timer st).st.trace = st.trace ++ [.received p.canonical]
  wire : (readPacket net timer st).st.wire = after net timer st p
  inside : ∀ i, Stored (added net timer st) i → i < p.canonical.length

theorem bringsInside {p : WirePacket} (h : Brings net timer st p) (i : Nat)
    (stored : Stored (added net timer st) i) : i < p.canonical.length := by
  have arrived : (head net timer st).result.rc = 1 := by rw [h.header]
  have place := h.bodyAt
  have positive := bodyAtPositive net timer st
  have count := h.announced
  rw [canonicalLength]
  by_cases empty : p.body = []
  · rw [addedEmpty net timer st arrived (by rw [count, empty]; rfl), h.header, count, storedHead,
      storedHead] at stored
    simp only [storedNil, or_false, List.length_singleton] at stored
    omega
  · rw [addedBody net timer st arrived (by rw [count]; exact List.length_pos_iff.mpr empty), h.header,
      h.body empty, count, storedHead, storedHead, storedHead] at stored
    simp only [storedNil, or_false, List.length_singleton] at stored
    omega

theorem bringsTakes {p : WirePacket} (h : Brings net timer st p) : Takes net timer st p := by
  obtain ⟨timer',out⟩ := readPacketBrings h
  have holds := acceptedHolds h
  have whole : Memory.slice (accepted net timer st p).client.readbuf.byte 0
      (MqttRead.bodyAt net timer st + p.body.length) = p.canonical := by
    rw [h.bodyAt, ← canonicalLength]
    exact Memory.sliceOfHolds holds
  have before : (accepted net timer st p).trace = st.trace := by
    unfold accepted
    split <;> rfl
  refine ⟨?_,?_,?_,?_,bringsInside h⟩
  · rw [out]
    simp only [acceptPacket]
    rw [holds.1]
  · rw [out]
    exact holds
  · rw [out]
    simp only [acceptPacket, St.log]
    rw [whole, before]
  · rw [out]
    rfl

/-! A transport that returns every requested byte -/

theorem askSupplied {rest : τ → List UInt8} (supplies : Supplies net rest) (bs tail : List UInt8)
    (timer : Timer) (wire : Wire τ) (ahead : rest wire.link = bs ++ tail) :
    (ask net bs.length timer wire).result = ⟨bs,bs.length⟩ ∧
      rest (ask net bs.length timer wire).wire.link = tail := by
  have enough : bs.length ≤ (rest wire.link).length := by simp [ahead]
  obtain ⟨answer,left⟩ := supplies.read bs.length (timerLeftMs timer wire.clock).ms
    { wire with clock := (timerLeftMs timer wire.clock).clock } enough
  simp only [ahead, List.take_left', List.drop_left'] at answer left
  exact ⟨answer,left⟩

theorem suppliedBrings (timer : Timer) {rest : τ → List UInt8} (supplies : Supplies net rest) (p : WirePacket)
    (tail : List UInt8) (ahead : rest st.wire.link = p.bytes ++ tail) :
    Brings net timer st p ∧ rest (after net timer st p).link = tail := by
  have first : rest st.wire.link = [p.header] ++ (p.field ++ (p.body ++ tail)) := by
    rw [ahead]
    simp [WirePacket.bytes]
  obtain ⟨header,behindHeader⟩ := askSupplied supplies [p.header] _ timer st.wire first
  obtain ⟨field,behindField⟩ := Base128.fieldExact (oneByte net (afterHead net timer st).ms)
    (fun bs w => rest w.link = bs ++ (p.body ++ tail))
    (fun w b bs ahead => oneByteSupplied supplies _ w b _ ahead) p.field maxRemainingLengthBytes
    { (head net timer st).wire with clock := (afterHead net timer st).clock } p.ended p.short behindHeader
  have count : announced net timer st = p.body.length := by
    unfold announced MqttRead.field
    rw [field, p.counts]
  obtain ⟨body,behindBody⟩ := askSupplied supplies p.body tail (afterHead net timer st).timer
    (MqttRead.field net timer st).2 behindField
  rw [← count] at body behindBody
  refine ⟨⟨header,field,fun _ => ?_⟩,?_⟩
  · rw [← count]
    exact body
  · unfold after
    split
    · rename_i empty
      rw [empty] at behindField
      exact behindField
    · exact behindBody

/- Successive calls of readPacket, each taking the packet the list names for it. -/
inductive Frames (net : Network τ) (rest : τ → List UInt8) (tail : List UInt8) :
    St τ → List (WirePacket × Timer) → Prop
  | nil (st : St τ) : Frames net rest tail st []
  | cons {st : St τ} {p : WirePacket} {timer : Timer} {later : List (WirePacket × Timer)}
      (rc : (readPacket net timer st).rc = MqttHeader.type p.header)
      (buffer : Memory.Holds (readPacket net timer st).st.client.readbuf.byte 0 p.canonical)
      (inside : ∀ i, Stored (added net timer st) i → i < st.client.readbufSize)
      (position : rest (readPacket net timer st).st.wire.link = stream (later.map Prod.fst) ++ tail)
      (next : Frames net rest tail (readPacket net timer st).st later) :
      Frames net rest tail st ((p,timer) :: later)

/-- readPacket takes the packets of a stream one by one, each whole and at its place. -/
theorem readPacketsFramed {rest : τ → List UInt8} (supplies : Supplies net rest) (tail : List UInt8)
    (calls : List (WirePacket × Timer)) (st : St τ)
    (fits : ∀ call ∈ calls, call.1.canonical.length ≤ st.client.readbufSize)
    (ahead : rest st.wire.link = stream (calls.map Prod.fst) ++ tail) : Frames net rest tail st calls := by
  induction calls generalizing st with
  | nil => exact .nil st
  | cons call later ih =>
    obtain ⟨p,timer⟩ := call
    have split : rest st.wire.link = p.bytes ++ (stream (later.map Prod.fst) ++ tail) := by
      rw [ahead]
      simp [stream]
    obtain ⟨brings,position⟩ := suppliedBrings timer supplies p _ split
    have takes := bringsTakes brings
    rw [← takes.wire] at position
    have room := fits (p,timer) (List.mem_cons_self ..)
    refine .cons takes.rc takes.buffer (fun i stored => ?_) position (ih _ (fun call inside => ?_) position)
    · exact Nat.lt_of_lt_of_le (takes.inside i stored) room
    · rw [readPacketClient]
      exact fits call (List.mem_cons_of_mem _ inside)

/- A PINGRESP with a padded length field, then a PUBACK. -/
def pingresp : WirePacket := ⟨0xd0,[0x80,0x00],[],by decide,by decide,by decide⟩
def puback : WirePacket := ⟨0x40,[8],[0,0,0,0,0,0,0,7],by decide,by decide,by decide⟩

theorem paddedFramed : Frames pipe id [] (reading 10 (stream [pingresp,puback]))
    [(pingresp,timerInit),(puback,timerInit)] :=
  readPacketsFramed pipeSupplies [] [(pingresp,timerInit),(puback,timerInit)]
    (reading 10 (stream [pingresp,puback])) (by decide) rfl

end YunbaIot.Framing
