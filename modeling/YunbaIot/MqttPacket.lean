import Mathlib.Tactic.Ring
import YunbaIot.Base128
import YunbaIot.BigEndian
import YunbaIot.Memory

/-! The packet primitives of MQTTPacket.c: fixed header, remaining length, integers
and strings. Pointers are cursors into the packet buffer; a writer is the list of
the bytes it puts behind its pointer. -/
namespace YunbaIot.MqttPacket

inductive MsgType where
  | connect | connack | publish | puback | pubrec | pubrel | pubcomp | subscribe
  | suback | unsubscribe | unsuback | pingreq | pingresp | disconnect | extcmd
  deriving DecidableEq, Repr

def MsgType.code : MsgType → Nat
  | .connect => 1 | .connack => 2 | .publish => 3 | .puback => 4 | .pubrec => 5
  | .pubrel => 6 | .pubcomp => 7 | .subscribe => 8 | .suback => 9 | .unsubscribe => 10
  | .unsuback => 11 | .pingreq => 12 | .pingresp => 13 | .disconnect => 14 | .extcmd => 15

def MsgType.ofCode : Nat → Option MsgType
  | 1 => some .connect | 2 => some .connack | 3 => some .publish | 4 => some .puback
  | 5 => some .pubrec | 6 => some .pubrel | 7 => some .pubcomp | 8 => some .subscribe
  | 9 => some .suback | 10 => some .unsubscribe | 11 => some .unsuback | 12 => some .pingreq
  | 13 => some .pingresp | 14 => some .disconnect | 15 => some .extcmd
  | _ => none

theorem MsgType.ofCodeCode (t : MsgType) : MsgType.ofCode t.code = some t := by cases t <;> rfl
theorem MsgType.codeInjective {s t : MsgType} (same : s.code = t.code) : s = t := by
  have decoded := congrArg MsgType.ofCode same
  rw [ofCodeCode, ofCodeCode] at decoded
  exact Option.some.inj decoded
theorem MsgType.codeOfCode {n : Nat} {t : MsgType} (h : MsgType.ofCode n = some t) : n = t.code := by
  unfold MsgType.ofCode at h
  split at h <;> cases h <;> rfl

def bufferTooShort : Int := -2

/-! The MQTTHeader union, bit fields laid out from the least significant bit. -/
namespace MqttHeader

def type (b : UInt8) : Nat := b.toNat / 16
def dup (b : UInt8) : Nat := b.toNat / 8 % 2
def qos (b : UInt8) : Nat := b.toNat / 2 % 4
def retain (b : UInt8) : Nat := b.toNat % 2
def byte (type dup qos retain : Nat) : UInt8 :=
  UInt8.ofNat (type % 16 * 16 + dup % 2 * 8 + qos % 4 * 2 + retain % 2)

theorem byteToNat (t d q r : Nat) :
    (byte t d q r).toNat = t % 16 * 16 + d % 2 * 8 + q % 4 * 2 + r % 2 := by
  rw [byte, UInt8.toNat_ofNat']
  omega

@[simp] theorem typeByte (t d q r : Nat) : type (byte t d q r) = t % 16 := by
  rw [type, byteToNat]
  omega
@[simp] theorem dupByte (t d q r : Nat) : dup (byte t d q r) = d % 2 := by
  rw [dup, byteToNat]
  omega
@[simp] theorem qosByte (t d q r : Nat) : qos (byte t d q r) = q % 4 := by
  rw [qos, byteToNat]
  omega
@[simp] theorem retainByte (t d q r : Nat) : retain (byte t d q r) = r % 2 := by
  rw [retain, byteToNat]
  omega

theorem typeBound (b : UInt8) : type b < 16 := by
  have byte := b.toNat_lt
  unfold type
  omega

end MqttHeader

/-! Remaining length -/

def encodeLoop : Nat → Nat → List UInt8
  | 0, _ => []
  | fuel+1, length =>
    let d := UInt8.ofNat (length % 128)
    let length := length / 128
    if 0 < length then (d ||| 0x80) :: encodeLoop fuel length else [d]

-- The fuel covers every round of the do-while loop.
def mqttPacketEncode (length : Nat) : List UInt8 := encodeLoop (length+1) length

theorem orContinuation {n : Nat} (h : n < 128) : UInt8.ofNat n ||| 0x80 = UInt8.ofNat (n + 128) := by
  apply UInt8.toNat_inj.mp
  have sum := Nat.two_pow_add_eq_or_of_lt (i := 7) (b := n) h 1
  rw [UInt8.toNat_or, UInt8.toNat_ofNat', UInt8.toNat_ofNat', Nat.mod_eq_of_lt (by omega),
    Nat.mod_eq_of_lt (by omega), Nat.or_comm]
  simpa [Nat.add_comm] using sum.symm

theorem encodeLoopEncodes (fuel length : Nat) : encodeLoop fuel length = Base128.encodeFrom fuel length := by
  induction fuel generalizing length with
  | zero => rfl
  | succ fuel ih =>
    simp only [encodeLoop, Base128.encodeFrom, ih, orContinuation (Nat.mod_lt length (by omega : 0 < 128))]
    by_cases last : length / 128 = 0
    · simp [last]
    · simp [last, Nat.pos_of_ne_zero last]

theorem mqttPacketEncodeEncodes (length : Nat) : mqttPacketEncode length = Base128.encode length :=
  encodeLoopEncodes (length+1) length

structure Decoded (σ : Type) where
  len : Nat
  value : Nat
  source : σ

def maxRemainingLengthBytes : Nat := 4

def decodeLoop {σ : Type} (getcharfn : σ → Option UInt8 × σ) : Nat → Nat → Nat → Nat → σ → Decoded σ
  | 0, len, _, value, s => ⟨len+1,value,s⟩
  | left+1, len, multiplier, value, s =>
    match getcharfn s with
    | (none, s') => ⟨len+1,value,s'⟩
    | (some c, s') =>
      let value := value + (c &&& 127).toNat * multiplier
      if c &&& 128 ≠ 0 then decodeLoop getcharfn left (len+1) (multiplier*128) value s'
      else ⟨len+1,value,s'⟩

/- `none` is a getcharfn result other than 1. The returned length counts the byte that
failed or was one too many, as `++len` does in the source. -/
def mqttPacketDecode {σ : Type} (getcharfn : σ → Option UInt8 × σ) (s : σ) : Decoded σ :=
  decodeLoop getcharfn maxRemainingLengthBytes 0 1 0 s

theorem lowBits (c : UInt8) : (c &&& 127).toNat = c.toNat % 128 := by
  rw [UInt8.toNat_and]
  exact Nat.and_two_pow_sub_one_eq_mod c.toNat 7

theorem continues (c : UInt8) : c &&& 128 ≠ 0 ↔ 128 ≤ c.toNat := by
  have every : ∀ n, n < 256 → (n &&& 128 = 0 ↔ n < 128) := by decide +kernel
  have bit := every c.toNat c.toNat_lt
  rw [Ne, ← UInt8.toNat_inj, UInt8.toNat_and]
  simp only [UInt8.toNat_ofNat, Nat.reducePow, Nat.reduceMod, bit]
  omega

theorem decodeLoopField {σ : Type} (getcharfn : σ → Option UInt8 × σ)
    (left len multiplier value : Nat) (s : σ) :
    decodeLoop getcharfn left len multiplier value s =
      let field := Base128.fieldFrom getcharfn left s
      ⟨len + field.1.length + (if Base128.terminated field.1 then 0 else 1),
        value + multiplier * Base128.value field.1,field.2⟩ := by
  induction left generalizing len multiplier value s with
  | zero => simp [decodeLoop, Base128.fieldFrom, Base128.terminated, Base128.value]
  | succ left ih =>
    rw [decodeLoop, Base128.fieldFrom]
    cases getcharfn s with
    | mk answer s' =>
      cases answer with
      | none => simp [Base128.terminated, Base128.value]
      | some c =>
        by_cases more : 128 ≤ c.toNat
        · have shape : Base128.terminated (c :: (Base128.fieldFrom getcharfn left s').1) =
              Base128.terminated (Base128.fieldFrom getcharfn left s').1 := by
            cases rest : (Base128.fieldFrom getcharfn left s').1 with
            | nil => simp [Base128.terminated, more]
            | cons d ds => simp [Base128.terminated, more]
          have small : ¬ c.toNat < 128 := by omega
          simp only [if_pos ((continues c).mpr more), if_neg small, ih, lowBits, shape,
            List.length_cons, Base128.value, Decoded.mk.injEq, and_true]
          constructor
          · omega
          · ring
        · have small : c.toNat < 128 := by omega
          simp only [if_neg (fun h => more ((continues c).mp h)), if_pos small, lowBits,
            Base128.terminated, Base128.value, Decoded.mk.injEq, and_true]
          constructor
          · simp [small]
          · ring

theorem mqttPacketDecodeField {σ : Type} (getcharfn : σ → Option UInt8 × σ) (s : σ) :
    mqttPacketDecode getcharfn s =
      let field := Base128.fieldFrom getcharfn maxRemainingLengthBytes s
      ⟨field.1.length + (if Base128.terminated field.1 then 0 else 1),
        Base128.value field.1,field.2⟩ := by
  simp [mqttPacketDecode, decodeLoopField]

def mqttPacketLen (remLen : Nat) : Nat :=
  let remLen := remLen + 1
  if remLen < 128 then remLen + 1
  else if remLen < 16384 then remLen + 2
  else if remLen < 2097151 then remLen + 3
  else remLen + 4

def bufchar (byte : Nat → UInt8) (c : Cursor) : Option UInt8 × Cursor :=
  let r := c.next byte
  (some r.1, r.2)

def mqttPacketDecodeBuf (byte : Nat → UInt8) (c : Cursor) : Decoded Cursor :=
  mqttPacketDecode (bufchar byte) c

/-! Integers -/

def readChar (byte : Nat → UInt8) (c : Cursor) : UInt8 × Cursor := c.next byte

-- (rfl) keeps simp from rewriting the Decidable instances of an if over the header
theorem readCharFirst (byte : Nat → UInt8) : readChar byte ⟨0,[]⟩ = (byte 0,⟨1,[0]⟩) := (rfl)

@[simp] theorem readCharPos (byte : Nat → UInt8) (c : Cursor) : (readChar byte c).2.pos = c.pos + 1 := rfl

def readInt (byte : Nat → UInt8) (c : Cursor) : Nat × Cursor :=
  (256 * (byte c.pos).toNat + (byte (c.pos+1)).toNat, c.advance 2)

def readInt64 (byte : Nat → UInt8) (c : Cursor) : UInt64 × Cursor :=
  let p := fun i => (byte (c.pos + i)).toUInt64
  (p 0 <<< 0x38 ||| p 1 <<< 0x30 ||| p 2 <<< 0x28 ||| p 3 <<< 0x20 |||
    p 4 <<< 0x18 ||| p 5 <<< 0x10 ||| p 6 <<< 0x8 ||| p 7 <<< 0, c.advance 8)

def writeInt (n : Nat) : List UInt8 := [UInt8.ofNat (n / 256),UInt8.ofNat (n % 256)]

/- writeInt on an int of either sign; division rounds toward zero. -/
def writeSigned (n : Int) : List UInt8 := [UInt8.ofInt (n.tdiv 256),UInt8.ofInt (n.tmod 256)]

def writeInt32 (n : UInt32) : List UInt8 :=
  writeInt (n >>> 16).toNat ++ writeInt (n &&& 0xffff).toNat

def writeInt64 (n : UInt64) : List UInt8 :=
  writeInt32 (n >>> 32).toUInt32 ++ writeInt32 (n &&& 0xffffffff).toUInt32

theorem readInt64Value (byte : Nat → UInt8) (c : Cursor) :
    (readInt64 byte c).1.toNat = BigEndian.value (Memory.slice byte c.pos 8) := by
  have shift := fun i s room => BigEndian.byteShift (byte (c.pos + i)) s room
  have bound := fun i => (byte (c.pos + i)).toNat_lt
  have h1 := BigEndian.orBelow (shift 0 0x38 (by decide)) (shift 1 0x30 (by decide)) (bound 1)
  have h2 := BigEndian.orBelow h1 (shift 2 0x28 (by decide)) (bound 2)
  have h3 := BigEndian.orBelow h2 (shift 3 0x20 (by decide)) (bound 3)
  have h4 := BigEndian.orBelow h3 (shift 4 0x18 (by decide)) (bound 4)
  have h5 := BigEndian.orBelow h4 (shift 5 0x10 (by decide)) (bound 5)
  have h6 := BigEndian.orBelow h5 (shift 6 0x8 (by decide)) (bound 6)
  have h7 := BigEndian.orBelow h6 (shift 7 0 (by decide)) (bound 7)
  simpa [readInt64, Memory.slice, BigEndian.value, Nat.add_assoc] using h7

theorem writeInt64Value (n : UInt64) : BigEndian.value (writeInt64 n) = n.toNat := by
  have bound := n.toNat_lt
  have high : (n >>> 32).toUInt32.toNat = n.toNat / 2 ^ 32 := by
    rw [UInt64.toNat_toUInt32, UInt64.toNat_shiftRight]
    simp only [UInt64.toNat_ofNat, Nat.reducePow, Nat.reduceMod, Nat.shiftRight_eq_div_pow]
    omega
  have low : (n &&& 0xffffffff).toUInt32.toNat = n.toNat % 2 ^ 32 := by
    rw [UInt64.toNat_toUInt32, UInt64.toNat_and, show (0xffffffff : UInt64).toNat = 2 ^ 32 - 1 from rfl,
      Nat.and_two_pow_sub_one_eq_mod]
    omega
  have halves : ∀ m : UInt32, (m >>> 16).toNat = m.toNat / 2 ^ 16 ∧ (m &&& 0xffff).toNat = m.toNat % 2 ^ 16 := by
    intro m
    rw [UInt32.toNat_shiftRight, UInt32.toNat_and, show (0xffff : UInt32).toNat = 2 ^ 16 - 1 from rfl,
      Nat.and_two_pow_sub_one_eq_mod]
    simp [Nat.shiftRight_eq_div_pow]
  simp only [writeInt64, writeInt32, writeInt, (halves _).1, (halves _).2, high, low, BigEndian.value,
    List.cons_append, List.nil_append, List.foldl_cons, List.foldl_nil, UInt8.toNat_ofNat']
  omega

@[simp] theorem writeInt64Length (n : UInt64) : (writeInt64 n).length = 8 := rfl

theorem readInt64Written {byte : Nat → UInt8} {c : Cursor} {n : UInt64}
    (there : Memory.Holds byte c.pos (writeInt64 n)) : readInt64 byte c = (n, c.advance 8) := by
  have bytes := Memory.sliceOfHolds there
  rw [writeInt64Length] at bytes
  have same : (readInt64 byte c).1 = n := by
    apply UInt64.toNat_inj.mp
    rw [readInt64Value, bytes, writeInt64Value]
  exact Prod.ext same rfl

theorem readIntWritten {byte : Nat → UInt8} {c : Cursor} {n : Nat} (bound : n < 65536)
    (there : Memory.Holds byte c.pos (writeInt n)) : readInt byte c = (n, c.advance 2) := by
  obtain ⟨high, low, _⟩ := there
  simp only [readInt, high, low, UInt8.toNat_ofNat', Prod.mk.injEq, and_true]
  omega

/-! Strings -/

structure CString where
  bytes : List UInt8
  noNul : ∀ b ∈ bytes, b ≠ 0
  deriving DecidableEq

def strlen (s : CString) : Nat := s.bytes.length

-- `lenstring = none` is the null pointer with length 0.
structure MqttString where
  cstring : Option CString
  lenstring : Option (List UInt8)
  deriving DecidableEq

def MqttString.initializer : MqttString := ⟨none,none⟩
def MqttString.lenstringLen (s : MqttString) : Nat := (s.lenstring.getD []).length

def mqttstrlen (s : MqttString) : Nat :=
  match s.cstring with
  | some c => strlen c
  | none => s.lenstringLen

def writeCString (s : CString) : List UInt8 := writeInt (strlen s) ++ s.bytes

def writeMqttString (s : MqttString) : List UInt8 :=
  if 0 < s.lenstringLen then writeInt s.lenstringLen ++ s.lenstring.getD []
  else match s.cstring with
    | some c => writeCString c
    | none => writeInt 0

-- An unassigned field is `none`.
structure LenStringRead where
  rc : Int
  len : Option Nat
  data : Option Nat
  cursor : Cursor
  deriving DecidableEq, Repr

def readMqttLenString (byte : Nat → UInt8) (c : Cursor) (enddata : Nat) : LenStringRead :=
  if c.pos + 1 < enddata then
    let r := readInt byte c
    if r.2.pos + r.1 ≤ enddata then ⟨1,some r.1,some r.2.pos,{ r.2 with pos := r.2.pos + r.1 }⟩
    else ⟨0,some r.1,none,r.2⟩
  else ⟨0,none,none,c⟩

end YunbaIot.MqttPacket
