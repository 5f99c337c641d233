import YunbaIot.MqttClient

/-! The remaining length as MQTTPacket_encode writes it and as the three readers of it read it,
with what follows it in the stream left where it is. -/
namespace YunbaIot.LengthCodec
open FreeRtosTimer MqttTransport MqttPacket MqttDeserialize MqttClient

/-! The machine types -/

/- encodeLoop with a char that has a sign: the top bit makes it negative. -/
def encodeLoopSigned : Nat → Nat → List UInt8
  | 0, _ => []
  | fuel+1, length =>
    let d := Int8.ofNat (length % 128)
    let length := length / 128
    if 0 < length then (d ||| -128).toUInt8 :: encodeLoopSigned fuel length else [d.toUInt8]

theorem charSign (fuel length : Nat) : encodeLoopSigned fuel length = encodeLoop fuel length := by
  induction fuel generalizing length with
  | zero => rfl
  | succ fuel ih =>
    unfold encodeLoopSigned encodeLoop
    dsimp only
    rw [ih]
    rfl

-- an int, where it does not overflow
def int (n : Nat) : Option Nat := if n < 2 ^ 31 then some n else none

/- decodeLoop with every result of the arithmetic looked at. -/
def decodeLoopInt {σ : Type} (getcharfn : σ → Option UInt8 × σ) : Nat → Nat → Nat → Nat → σ → Option (Decoded σ)
  | 0, len, _, value, s => some ⟨len+1,value,s⟩
  | left+1, len, multiplier, value, s =>
    match getcharfn s with
    | (none, s') => some ⟨len+1,value,s'⟩
    | (some c, s') => do
      let digit ← int ((c &&& 127).toNat * multiplier)
      let value ← int (value + digit)
      let multiplier ← int (multiplier * 128)
      if c &&& 128 ≠ 0 then decodeLoopInt getcharfn left (len+1) multiplier value s'
      else some ⟨len+1,value,s'⟩

def mqttPacketDecodeInt {σ : Type} (getcharfn : σ → Option UInt8 × σ) (s : σ) : Option (Decoded σ) :=
  decodeLoopInt getcharfn maxRemainingLengthBytes 0 1 0 s

theorem loopNoOverflow {σ : Type} (getcharfn : σ → Option UInt8 × σ) (left len multiplier value : Nat) (s : σ)
    (below : value < multiplier) (small : multiplier * 128 ^ left ≤ 128 ^ 4) :
    decodeLoopInt getcharfn left len multiplier value s = some (decodeLoop getcharfn left len multiplier value s) := by
  induction left generalizing len multiplier value s with
  | zero => rfl
  | succ left ih =>
    have power : multiplier * 128 ^ (left + 1) = multiplier * 128 * 128 ^ left := by ring
    rw [power] at small
    have positive : 0 < 128 ^ left := Nat.pow_pos (by omega)
    have next : multiplier * 128 ≤ 128 ^ 4 := Nat.le_trans (Nat.le_mul_of_pos_right _ positive) small
    unfold decodeLoopInt decodeLoop
    cases getcharfn s with
    | mk answer s' =>
      cases answer with
      | none => rfl
      | some c =>
        have digit : (c &&& 127).toNat * multiplier ≤ 127 * multiplier := by
          apply Nat.mul_le_mul_right
          rw [lowBits]
          omega
        have sum : value + (c &&& 127).toNat * multiplier < multiplier * 128 := by omega
        have digitInt : int ((c &&& 127).toNat * multiplier) = some ((c &&& 127).toNat * multiplier) := if_pos (by omega)
        have sumInt : int (value + (c &&& 127).toNat * multiplier) = some (value + (c &&& 127).toNat * multiplier) :=
          if_pos (by omega)
        have nextInt : int (multiplier * 128) = some (multiplier * 128) := if_pos (by omega)
        simp only [digitInt,sumInt,nextInt,Option.bind_eq_bind,Option.bind_some]
        split
        · exact ih (len+1) (multiplier*128) _ s' sum small
        · rfl

/- No int overflows, whatever the source answers. -/
theorem decodeNoOverflow {σ : Type} (getcharfn : σ → Option UInt8 × σ) (s : σ) :
    mqttPacketDecodeInt getcharfn s = some (mqttPacketDecode getcharfn s) :=
  loopNoOverflow getcharfn maxRemainingLengthBytes 0 1 0 s (by decide) (by decide)

/-! What the readers make of the bytes -/

/- A source of bytes: where it is about to give some, it gives the first and goes on. -/
def Gives {σ : Type} (getcharfn : σ → Option UInt8 × σ) (ahead : List UInt8 → σ → Prop) : Prop :=
  ∀ s b bs, ahead (b :: bs) s → (getcharfn s).1 = some b ∧ ahead bs (getcharfn s).2

/- Each reader takes the field and nothing behind it. -/
structure Decodes (field : List UInt8) (value : Nat) : Prop where
  source : ∀ {σ : Type} (getcharfn : σ → Option UInt8 × σ) (ahead : List UInt8 → σ → Prop),
    Gives getcharfn ahead → ∀ s tail, ahead (field ++ tail) s →
      let d := mqttPacketDecode getcharfn s
      d.len = field.length ∧ d.value = value ∧ ahead tail d.source
  buf : ∀ byte c tail, Memory.Holds byte c.pos (field ++ tail) →
    mqttPacketDecodeBuf byte c = ⟨field.length,value,c.advance field.length⟩
  packet : ∀ {τ : Type} (net : Network τ) (timeout : UInt32) (ahead : List UInt8 → Wire τ → Prop),
    Gives (oneByte net timeout) ahead → ∀ w tail, ahead (field ++ tail) w →
      let d := decodePacket net timeout w
      d.len = field.length ∧ d.value = value ∧ ahead tail d.source

theorem sourceDecodes {σ : Type} {getcharfn : σ → Option UInt8 × σ} {ahead : List UInt8 → σ → Prop}
    (gives : Gives getcharfn ahead) {field : List UInt8} (ended : Base128.terminated field = true)
    (short : field.length ≤ maxRemainingLengthBytes) {s : σ} {tail : List UInt8} (there : ahead (field ++ tail) s) :
    let d := mqttPacketDecode getcharfn s
    d.len = field.length ∧ d.value = Base128.value field ∧ ahead tail d.source := by
  obtain ⟨taken,behind⟩ := Base128.fieldExact getcharfn (fun bs s => ahead (bs ++ tail) s)
    (fun s b bs => gives s b (bs ++ tail)) field maxRemainingLengthBytes s ended short there
  rw [mqttPacketDecodeField]
  simp only [taken,ended,if_true,Nat.add_zero,true_and]
  exact behind

theorem fieldDecodes {field : List UInt8} (ended : Base128.terminated field = true)
    (short : field.length ≤ maxRemainingLengthBytes) : Decodes field (Base128.value field) where
  source _ _ gives _ _ there := sourceDecodes gives ended short there
  buf _ _ _ there := decodeBufField (Memory.holdsAppend.mp there).1 ended short
  packet _ _ _ gives _ _ there := sourceDecodes gives ended short there

/-! The codec -/

/- The bytes that stand for a length: continued up to the last, one to four of them, and no
others that are fewer. -/
structure Shortest (n : Nat) (bs : List UInt8) : Prop where
  value : Base128.value bs = n
  ended : Base128.terminated bs = true
  size : 1 ≤ bs.length ∧ bs.length ≤ 4
  least : ∀ other, Base128.terminated other = true → Base128.value other = n → bs.length ≤ other.length

theorem encodeShortest {n : Nat} (bound : n < 2 ^ 28) : Shortest n (mqttPacketEncode n) := by
  rw [mqttPacketEncodeEncodes]
  refine ⟨Base128.valueEncode n,Base128.encodeTerminated n,⟨Base128.encodePositive n,Base128.encodeLength 3 n bound⟩,?_⟩
  intro other ended same
  rw [← same]
  exact Base128.encodeShortest ended

theorem remainingLengthCodec :
    (∀ n, n < 2 ^ 28 → encodeLoopSigned (n + 1) n = mqttPacketEncode n ∧
      Shortest n (mqttPacketEncode n) ∧ Decodes (mqttPacketEncode n) n) ∧
    (∀ field, Base128.terminated field = true → field.length ≤ 4 → Decodes field (Base128.value field)) ∧
    ∀ {σ : Type} (getcharfn : σ → Option UInt8 × σ) (s : σ),
      mqttPacketDecodeInt getcharfn s = some (mqttPacketDecode getcharfn s) := by
  refine ⟨fun n bound => ⟨charSign (n + 1) n,?_⟩,fun field ended short => fieldDecodes ended short,decodeNoOverflow⟩
  have shortest := encodeShortest bound
  have decodes := fieldDecodes shortest.ended shortest.size.2
  rw [shortest.value] at decodes
  exact ⟨shortest,decodes⟩

theorem suppliedGives {τ : Type} {net : Network τ} {rest : τ → List UInt8} (supplies : Supplies net rest)
    (timeout : UInt32) : Gives (oneByte net timeout) fun bs w => rest w.link = bs :=
  fun w b bs => oneByteSupplied supplies timeout w b bs

/- A length of two bytes with another one behind it, and the same with a digit more than it needs. -/
theorem codecOfTwoBytes :
    mqttPacketEncode 321 = [0xC1,0x02] ∧ (decodePacket pipe 0 ⟨[],[0xC1,0x02,0x30]⟩).source.link = [0x30] ∧
      Decodes [0xC1,0x82,0x00] 321 :=
  ⟨by decide,((remainingLengthCodec.1 321 (by decide)).2.2.packet pipe 0 _ (suppliedGives pipeSupplies 0)
    ⟨[],[0xC1,0x02,0x30]⟩ [0x30] rfl).2.2,remainingLengthCodec.2.1 [0xC1,0x82,0x00] (by decide) (by decide)⟩

end YunbaIot.LengthCodec
