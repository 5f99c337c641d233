import YunbaIot.SelfFraming

/-! MQTTPacket_len against the bytes of a packet: at each boundary of the length field it
counts one byte too many, and the serializers refuse a packet that fits. -/
namespace YunbaIot.PacketLength
open MqttPacket MqttSerialize ControlPacket SelfFraming

/- A packet of remaining length n. -/
def packetSize (n : Nat) : Nat := 1 + n + (mqttPacketEncode n).length

/- Remaining lengths that the header byte, added too early, carries past a boundary; the last
boundary is also written one too low. -/
def Slip (n : Nat) : Prop := n = 127 ∨ n = 16383 ∨ n = 2097150 ∨ n = 2097151
instance (n : Nat) : Decidable (Slip n) := inferInstanceAs (Decidable (_ ∨ _))

theorem encodeSize {n : Nat} (bound : n < lengthLimit) : (mqttPacketEncode n).length =
    if n < 128 then 1 else if n < 16384 then 2 else if n < 2097152 then 3 else 4 := by
  have least := Base128.encodePositive n
  have most := fun k => Base128.encodeLength k n
  have value := Base128.valueBound (Base128.encode n)
  have limit : n < 128 ^ 4 := bound
  rw [Base128.valueEncode] at value
  rw [mqttPacketEncodeEncodes]
  have one := most 0
  have two := most 1
  have three := most 2
  have four := most 3 limit
  simp only [Nat.zero_add, Nat.reduceAdd, Nat.reducePow] at one two three four
  -- a length field of fewer bytes has no room for the value
  generalize (Base128.encode n).length = size at *
  have sizes : size = 1 ∨ size = 2 ∨ size = 3 ∨ size = 4 := by omega
  rcases sizes with rfl | rfl | rfl | rfl <;> simp only [Nat.reducePow] at value <;> split_ifs <;> omega

theorem mqttPacketLenSize {n : Nat} (bound : n < lengthLimit) :
    mqttPacketLen n = packetSize n + if Slip n then 1 else 0 := by
  unfold packetSize mqttPacketLen
  rw [encodeSize bound]
  dsimp only
  by_cases slip : Slip n
  · rw [if_pos slip]
    unfold Slip at slip
    split_ifs <;> omega
  · rw [if_neg slip]
    unfold Slip at slip
    split_ifs <;> omega

/-! Refusals -/

/- A packet is refused for want of room just when it is longer than the buffer. -/
def RefusesExactly (r : Request) (buflen : Int) : Prop :=
  (r.serialize buflen).rc = bufferTooShort ↔ buflen < r.packet.length

/- The room a serializer asks for: the packet of the length it computes, and one byte more at
a slip. -/
def asked (r : Request) : Nat := packetSize r.remaining + if Slip r.remaining then 1 else 0

/- The buffer is not between the room that is asked for and the room that is taken. -/
def Clear (r : Request) (buflen : Int) : Prop :=
  buflen < min (asked r) r.packet.length ∨ (max (asked r) r.packet.length : Nat) ≤ buflen

theorem refusedExact {r : Request} (bound : r.remaining < lengthLimit) (buflen : Int) :
    (r.serialize buflen).rc = bufferTooShort ↔ buflen < asked r := by
  have estimate : mqttPacketLen r.remaining = asked r := mqttPacketLenSize bound
  rw [serializePacket, estimate]
  split
  · rename_i short
    exact iff_of_true rfl short
  · rename_i room
    refine iff_of_false (fun refused => ?_) room
    have negative : (r.packet.length : Int) = -2 := refused
    omega

theorem packetWellFormed {r : Request} (h : r.WellFormed) : r.packet.length = packetSize r.remaining := by
  have body := remainingCounts h
  simp only [Request.packet, packetSize, List.length_cons, List.length_append]
  omega

theorem refusesWellFormed {r : Request} (h : r.WellFormed) (bound : r.remaining < lengthLimit) (buflen : Int) :
    RefusesExactly r buflen ↔ (Slip r.remaining → buflen ≠ packetSize r.remaining) := by
  unfold RefusesExactly
  rw [refusedExact bound, packetWellFormed h, asked]
  by_cases slip : Slip r.remaining
  · rw [if_pos slip]
    refine ⟨fun same _ => ?_,fun other => ?_⟩
    · omega
    · have apart := other slip
      omega
  · rw [if_neg slip]
    exact iff_of_true Iff.rfl fun h => absurd h slip

/-- MQTTPacket_len is the size of the packet for all but four remaining lengths, and a
serializer refuses exactly the packets that are longer than its buffer, unless this lies
between what is asked for and what is written: at the four lengths, where the buffer has just
the packet's size. -/
theorem packetLengthExact {n : Nat} (bound : n < lengthLimit) {r : Request} (small : r.remaining < lengthLimit)
    (buflen : Int) :
    (mqttPacketLen n = packetSize n ↔ ¬ Slip n) ∧
    (RefusesExactly r buflen ↔ Clear r buflen) ∧
    (r.WellFormed → (RefusesExactly r buflen ↔ (Slip r.remaining → buflen ≠ packetSize r.remaining))) := by
  refine ⟨?_,?_,fun h => refusesWellFormed h small buflen⟩
  · rw [mqttPacketLenSize bound]
    by_cases slip : Slip n <;> simp [slip]
  · unfold RefusesExactly Clear
    rw [refusedExact small]
    omega

/- The payload that makes a PUBLISH to a topic of one letter 127 bytes long. -/
def boundaryPublish : Request := .publish 0 0 0 7 ⟨none,some [97]⟩ (List.replicate 124 0)

theorem boundaryWellFormed : boundaryPublish.WellFormed := by
  refine ⟨fun s inside => ?_,fun options same => by cases same⟩
  rw [List.mem_singleton.mp inside]
  exact Or.inl rfl

theorem boundaryRemaining : boundaryPublish.remaining = 127 := by
  simp [boundaryPublish, Request.remaining, mqttSerializePublishLength, mqttstrlen, MqttString.lenstringLen]

/- It has 129 bytes and is refused by a buffer of 129. -/
theorem boundaryRefused : mqttPacketLen 127 ≠ packetSize 127 ∧ ¬ RefusesExactly boundaryPublish 129 := by
  have size : boundaryPublish.packet.length = packetSize 127 := by
    rw [packetWellFormed boundaryWellFormed, boundaryRemaining]
  have refused : (boundaryPublish.serialize 129).rc = bufferTooShort := by
    rw [serializePacket, boundaryRemaining]
    rfl
  refine ⟨by decide,fun same => ?_⟩
  have short := same.mp refused
  rw [size] at short
  exact absurd short (by decide)

theorem boundaryTaken : RefusesExactly boundaryPublish 130 := by
  have small : boundaryPublish.remaining < lengthLimit := by
    rw [boundaryRemaining, lengthLimit]
    omega
  refine ((packetLengthExact small small 130).2.2 boundaryWellFormed).mpr fun _ => ?_
  rw [boundaryRemaining]
  decide

end YunbaIot.PacketLength
