import YunbaIot.MqttRead
import YunbaIot.Schedule

/-! A length field that breaks off or never ends, before the two blocking readers. Both drop
what the decoder says of it and go on with the length gathered so far. -/
namespace YunbaIot.MalformedLength
open FreeRtosTimer MqttTransport MqttPacket MqttClient MqttRead MqttReadnb Schedule

/- A packet type is returned only behind a length field of four bytes or fewer that ends. -/
structure Heeded (rc : Int) (field : List UInt8) : Prop where
  accepted : rc ≠ failure → Base128.terminated field = true ∧ field.length ≤ maxRemainingLengthBytes
  refused : Base128.terminated field = false → rc = failure

/- What a reader returns where it fails unless the packet arrives, the length field read. -/
theorem heededExact {rc : Int} {field : List UInt8} {arrives : Prop} (limit : field.length ≤ maxRemainingLengthBytes)
    (typed : rc ≠ failure ↔ arrives) : Heeded rc field ↔ (arrives → Base128.terminated field = true) := by
  constructor
  · intro heeded here
    exact (heeded.accepted (typed.mpr here)).1
  · intro ends
    refine ⟨fun here => ⟨ends (typed.mp here),limit⟩,fun broken => ?_⟩
    by_contra here
    have ended := ends (typed.mp here)
    rw [broken] at ended
    cases ended

theorem typeNotFailure (b : UInt8) : (MqttHeader.type b : Int) ≠ failure := by
  unfold MqttClient.failure
  omega

/-! readPacket -/

section Client
variable {τ : Type} (net : Network τ) (timer : Timer) (st : St τ)

/- The header byte is there, and as many bytes behind the field as the length says that was
gathered. -/
def PacketArrives : Prop :=
  (head net timer st).result.rc = 1 ∧
    (0 < announced net timer st → (body net timer st).result.rc = announced net timer st)

theorem readPacketTyped : (readPacket net timer st).rc ≠ failure ↔ PacketArrives net timer st := by
  by_cases arrived : (head net timer st).result.rc = 1
  · rw [withHeader net timer st arrived]
    split
    · rename_i some
      split
      · rename_i short
        exact ⟨fun typed => absurd rfl typed,fun arrives => absurd (arrives.2 some) short⟩
      · rename_i whole
        exact ⟨fun _ => ⟨arrived,fun _ => not_not.mp whole⟩,fun _ => typeNotFailure _⟩
    · rename_i none
      exact ⟨fun _ => ⟨arrived,fun some => absurd some none⟩,fun _ => typeNotFailure _⟩
  · rw [noHeader net timer st arrived]
    exact ⟨fun typed => absurd rfl typed,fun arrives => absurd arrives.1 arrived⟩

end Client

/-! MQTTPacket_read -/

section Library
variable {σ : Type} (getfn : Getfn σ) (buflen : Int) (s : σ)

def lengthField : List UInt8 := (Base128.fieldFrom (getchar getfn) maxRemainingLengthBytes (getfn.call 1 s).2).1
def gathered : Nat := Base128.value (lengthField getfn s)
def behindField : σ := (Base128.fieldFrom (getchar getfn) maxRemainingLengthBytes (getfn.call 1 s).2).2

def ReadArrives : Prop :=
  (getfn.call 1 s).1.rc = 1 ∧
    gathered getfn s + (1 + (mqttPacketEncode (gathered getfn s)).length : Nat) ≤ buflen ∧
    (getfn.call (gathered getfn s) (behindField getfn s)).1.rc = gathered getfn s

theorem readTyped (buf : Memory) :
    (mqttPacketRead getfn buflen buf s).rc ≠ failure ↔ ReadArrives getfn buflen s := by
  have decoded := mqttPacketDecodeField (getchar getfn) (getfn.call 1 s).2
  simp only [mqttPacketRead, decoded]
  split
  · rename_i absent
    exact ⟨fun typed => absurd rfl typed,fun arrives => absurd arrives.1 absent⟩
  · rename_i arrived
    split
    · rename_i large
      exact ⟨fun typed => absurd rfl typed,fun arrives => absurd arrives.2.1 (not_le_of_gt large)⟩
    · rename_i fits
      split
      · rename_i short
        exact ⟨fun typed => absurd rfl typed,fun arrives => absurd arrives.2.2 short⟩
      · rename_i whole
        exact ⟨fun _ => ⟨not_not.mp arrived,not_lt.mp fits,not_not.mp whole⟩,fun _ => typeNotFailure _⟩

end Library

/-- Either reader heeds its length field exactly where the field ends, or the header byte or
the bytes that the broken field stands for do not arrive. -/
theorem lengthHeededExact {τ σ : Type} (net : Network τ) (timer : Timer) (st : St τ) (getfn : Getfn σ) (buflen : Int)
    (buf : Memory) (s : σ) :
    (Heeded (readPacket net timer st).rc (field net timer st).1 ↔
      (PacketArrives net timer st → Base128.terminated (field net timer st).1 = true)) ∧
    (Heeded (mqttPacketRead getfn buflen buf s).rc (lengthField getfn s) ↔
      (ReadArrives getfn buflen s → Base128.terminated (lengthField getfn s) = true)) :=
  ⟨heededExact (Base128.fieldLength _ _ _) (readPacketTyped net timer st),
    heededExact (Base128.fieldLength _ _ _) (readTyped getfn buflen s buf)⟩

/- A PINGRESP header and nothing behind it. -/
def headerOnly : St Script := St.static ⟨[],⟨[0xD0],[.full],[]⟩⟩
def headerThenError : List Answer := [.bytes 0xD0 [],.error]

theorem headerAloneRead :
    (readPacket scripted timerInit headerOnly).rc = MsgType.pingresp.code ∧
      ¬ Heeded (readPacket scripted timerInit headerOnly).rc (field scripted timerInit headerOnly).1 ∧
    (mqttPacketRead scheduled 16 (.ofList []) headerThenError).rc = MsgType.pingresp.code ∧
      ¬ Heeded (mqttPacketRead scheduled 16 (.ofList []) headerThenError).rc (lengthField scheduled headerThenError) := by
  have client : (readPacket scripted timerInit headerOnly).rc = MsgType.pingresp.code := by decide
  have library : (mqttPacketRead scheduled 16 (.ofList []) headerThenError).rc = MsgType.pingresp.code := by decide
  refine ⟨client,fun heeded => ?_,library,fun heeded => ?_⟩
  · have failed := heeded.refused (by decide)
    rw [client] at failed
    cases failed
  · have failed := heeded.refused (by decide)
    rw [library] at failed
    cases failed

end YunbaIot.MalformedLength
