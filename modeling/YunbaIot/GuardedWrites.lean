import YunbaIot.MqttServer

/-! The serializers that compare the buffer with a constant of their own before they
write. What each of them compares is smaller than what it writes, the empty packet apart. -/
namespace YunbaIot.GuardedWrites
open MqttPacket MqttSerialize MqttServer

inductive Call where
  | ack (packettype dup : Nat) (packetid : UInt64)
  | puback (packetid : UInt64)
  | pubrel (dup : Nat) (packetid : UInt64)
  | pubcomp (packetid : UInt64)
  | connack (connackRc : UInt8) (sessionPresent : Nat)
  | suback (packetid : UInt64) (grantedQoSs : List Int)
  | unsuback (packetid : UInt64)
  | zero (packettype : Nat)

def Call.serialize (buflen : Int) : Call → Serialized
  | .ack packettype dup packetid => mqttSerializeAck buflen packettype dup packetid
  | .puback packetid => mqttSerializePuback buflen packetid
  | .pubrel dup packetid => mqttSerializePubrel buflen dup packetid
  | .pubcomp packetid => mqttSerializePubcomp buflen packetid
  | .connack connackRc sessionPresent => mqttSerializeConnack buflen connackRc sessionPresent
  | .suback packetid grantedQoSs => mqttSerializeSuback buflen packetid grantedQoSs
  | .unsuback packetid => mqttSerializeUnsuback buflen packetid
  | .zero packettype => mqttSerializeZero buflen packettype

/- What the length check asks for. -/
def Call.guard : Call → Nat
  | .ack .. | .puback .. | .pubrel .. | .pubcomp .. => 4
  | .connack .. | .unsuback .. | .zero .. => 2
  | .suback _ grantedQoSs => 2 + grantedQoSs.length

/- What the packet takes: the header byte, the length field and what it counts. -/
def Call.size : Call → Nat
  | .ack .. | .puback .. | .pubrel .. | .pubcomp .. => 10
  | .connack .. | .unsuback .. => 4
  | .zero .. => 2
  | .suback _ grantedQoSs => 1 + (mqttPacketEncode (2 + grantedQoSs.length)).length + (2 + grantedQoSs.length)

def Call.packet : Call → List UInt8
  | .ack packettype dup packetid => ackBytes packettype dup packetid
  | .puback packetid => ackBytes MsgType.puback.code 0 packetid
  | .pubrel dup packetid => ackBytes MsgType.pubrel.code dup packetid
  | .pubcomp packetid => ackBytes MsgType.pubcomp.code 0 packetid
  | .connack connackRc sessionPresent => MqttHeader.byte MsgType.connack.code 0 0 0 :: mqttPacketEncode 2 ++
    [UInt8.ofNat (sessionPresent % 2 * 128),connackRc]
  | .suback packetid grantedQoSs => MqttHeader.byte MsgType.suback.code 0 0 0 ::
    mqttPacketEncode (2 + grantedQoSs.length) ++ writeSigned (toInt packetid) ++ grantedQoSs.map UInt8.ofInt
  | .unsuback packetid => MqttHeader.byte MsgType.unsuback.code 0 0 0 :: mqttPacketEncode 2 ++
    writeSigned (toInt packetid)
  | .zero packettype => MqttHeader.byte packettype 0 0 0 :: mqttPacketEncode 0
where
  ackBytes (packettype dup : Nat) (packetid : UInt64) : List UInt8 :=
    MqttHeader.byte packettype dup (if packettype = MsgType.pubrel.code then 1 else 0) 0 ::
      mqttPacketEncode 8 ++ writeInt64 packetid

theorem serializeGuarded (call : Call) (buflen : Int) :
    call.serialize buflen = if buflen < call.guard then tooShort else done call.packet := by
  cases call <;> rfl

theorem packetSize (call : Call) : call.packet.length = call.size := by
  cases call with
  | suback packetid grantedQoSs =>
    simp only [Call.packet, Call.size, writeSigned, List.length_append, List.length_cons, List.length_nil,
      List.length_map]
    omega
  | ack | puback | pubrel | pubcomp | connack | unsuback | zero => rfl

/- No byte at or past the end of the buffer is written, and none at all of a packet that
does not fit. -/
structure Bounded (buflen : Int) (packet : List UInt8) (out : Serialized) : Prop where
  inside : ∀ i : Nat, i < out.written.length → (i : Int) < buflen
  short : buflen < packet.length → out = tooShort

theorem tooShortBounded (buflen : Int) (packet : List UInt8) : Bounded buflen packet tooShort where
  inside i written := absurd written (Nat.not_lt_zero i)
  short _ := rfl

theorem safeBounded (call : Call) {buflen : Int} (safe : buflen < call.guard ∨ (call.size : Int) ≤ buflen) :
    Bounded buflen call.packet (call.serialize buflen) := by
  have size := packetSize call
  rw [serializeGuarded]
  split
  · exact tooShortBounded buflen _
  · rename_i passed
    have fits := safe.resolve_left passed
    refine ⟨fun i inside => ?_,fun short => ?_⟩
    · simp only [done, size] at inside
      omega
    · omega

/- The empty packet is the one whose check asks for what is written. -/
theorem zeroBounded (packettype : Nat) (buflen : Int) :
    Bounded buflen (Call.zero packettype).packet (mqttSerializeZero buflen packettype) :=
  safeBounded (.zero packettype) (by simp only [Call.guard, Call.size]; omega)

/-- A guarded serializer keeps to its buffer exactly when its check already refuses or the
packet fits: between the two it writes past the end. -/
theorem boundedExact (call : Call) (buflen : Int) :
    Bounded buflen call.packet (call.serialize buflen) ↔ buflen < call.guard ∨ (call.size : Int) ≤ buflen := by
  have positive : 0 < call.size := by cases call <;> simp only [Call.size] <;> omega
  refine ⟨fun bounded => ?_,safeBounded call⟩
  rw [serializeGuarded] at bounded
  by_contra between
  have passed : ¬ buflen < call.guard := fun refused => between (Or.inl refused)
  have size := packetSize call
  have last := bounded.inside (call.size - 1)
  simp only [if_neg passed, done, size] at last
  omega

/- A PUBACK into four bytes: ten are written. -/
theorem pubackOverruns : ¬ Bounded 4 (Call.puback 7).packet (mqttSerializePuback 4 7) := by
  intro bounded
  have ninth := bounded.inside 9 (by decide)
  omega

end YunbaIot.GuardedWrites
