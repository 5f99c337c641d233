import YunbaIot.Framing
import YunbaIot.MqttReadnb

/-! Schedules of a callback's answers, and MQTTPacket_read on the bytes a schedule supplies,
as one would read them from a transport that blocks. -/
namespace YunbaIot.Schedule
open MqttPacket MqttTransport Framing MqttReadnb

/-! Schedules -/

inductive Answer where
  | error
  | again
  | bytes (b : UInt8) (bs : List UInt8)
  deriving DecidableEq, Repr

-- what a call leaves of the bytes it was offered
def push (bs : List UInt8) (rest : List Answer) : List Answer :=
  match bs with
  | [] => rest
  | b :: bs => .bytes b bs :: rest

/- A call takes no more than it asks for; behind the schedule it is told to call again. -/
def answer (count : Nat) : List Answer → ReadResult × List Answer
  | [] => (⟨[],0⟩,[])
  | .error :: rest => (⟨[],-1⟩,rest)
  | .again :: rest => (⟨[],0⟩,rest)
  | .bytes b bs :: rest => (⟨(b :: bs).take count,((b :: bs).take count).length⟩,push ((b :: bs).drop count) rest)

def scheduled : Getfn (List Answer) where
  call := answer
  fits count s := by
    unfold answer
    split
    · exact Nat.zero_le _
    · exact Nat.zero_le _
    · exact Nat.zero_le _
    · exact List.length_take_le ..
  answers count s := by
    unfold answer
    split
    · exact Or.inr rfl
    · exact Or.inl rfl
    · exact Or.inr rfl
    · exact Or.inr rfl

/- The bytes a schedule brings before its first error. -/
def supplied : List Answer → List UInt8
  | [] => []
  | .error :: _ => []
  | .again :: rest => supplied rest
  | .bytes b bs :: rest => b :: (bs ++ supplied rest)

/- The answers to call again that come before that many bytes have. -/
def waits : Nat → List Answer → Nat
  | 0, _ => 0
  | _+1, [] => 0
  | _+1, .error :: _ => 0
  | count+1, .again :: rest => waits (count+1) rest + 1
  | count+1, .bytes _ bs :: rest => waits (count - bs.length) rest

theorem suppliedPush (bs : List UInt8) (rest : List Answer) : supplied (push bs rest) = bs ++ supplied rest := by
  cases bs <;> rfl

theorem waitsPush (count : Nat) (bs : List UInt8) (rest : List Answer) :
    waits count (push bs rest) = waits (count - bs.length) rest := by
  cases bs with
  | nil => rfl
  | cons b bs =>
    cases count with
    | zero => simp [push, waits]
    | succ count => simp [push, waits]

/- What is left of a schedule: its bytes and its other answers. -/
def weight : List Answer → Nat
  | [] => 0
  | .error :: rest => weight rest + 1
  | .again :: rest => weight rest + 1
  | .bytes _ bs :: rest => bs.length + 1 + weight rest

theorem weightPush (bs : List UInt8) (rest : List Answer) : weight (push bs rest) = bs.length + weight rest := by
  cases bs with
  | nil => exact (Nat.zero_add _).symm
  | cons b bs => rfl

theorem answerWeight (count : Nat) (s : List Answer) :
    weight (answer count s).2 ≤ weight s ∧ (0 < count → s ≠ [] → weight (answer count s).2 < weight s) := by
  match s with
  | [] => exact ⟨Nat.le_refl _,fun _ some => absurd rfl some⟩
  | .error :: rest => exact ⟨Nat.le_succ _,fun _ _ => Nat.lt_succ_self _⟩
  | .again :: rest => exact ⟨Nat.le_succ _,fun _ _ => Nat.lt_succ_self _⟩
  | .bytes b bs :: rest =>
    simp only [answer, weightPush, weight, List.length_drop, List.length_cons]
    omega

/- A transport that blocks: whatever is asked for, or an error from the first request on
that the bytes cannot meet. -/
def blocking : Getfn (Option (List UInt8)) where
  call count
    | none => (⟨[],-1⟩,none)
    | some ahead => if ahead.length < count then (⟨[],-1⟩,none) else (⟨ahead.take count,count⟩,some (ahead.drop count))
  fits count s := by
    split
    · exact Nat.zero_le _
    · split
      · exact Nat.zero_le _
      · exact List.length_take_le ..
  answers count s := by
    split
    · exact Or.inl rfl
    · split
      · exact Or.inl rfl
      · rename_i enough
        refine Or.inr ?_
        rw [List.length_take, Nat.min_eq_left (by omega)]

/-! The blocking reader on a packet, whole or cut -/

def bodyAt (p : WirePacket) : Nat := 1 + (mqttPacketEncode p.body.length).length

/- The packet as it is left in the buffer does not fit. -/
def Oversize (p : WirePacket) (buflen : Int) : Prop := buflen < p.body.length + bodyAt p

theorem blockingGives (count : Nat) (bs rest : List UInt8) (size : bs.length = count) :
    blocking.call count (some (bs ++ rest)) = (⟨bs,count⟩,some rest) := by
  subst size
  simp [blocking]

theorem getcharGives (b : UInt8) (rest : List UInt8) : getchar blocking (some (b :: rest)) = (some b,some rest) := by
  simp [getchar, blocking]

theorem decodeGives (p : WirePacket) (rest : List UInt8) :
    mqttPacketDecode (getchar blocking) (some (p.field ++ rest)) = ⟨p.field.length,p.body.length,some rest⟩ := by
  have exact := Base128.fieldExact (getchar blocking) (fun bs s => s = some (bs ++ rest))
    (fun s b bs ahead => by
      subst ahead
      rw [List.cons_append, getcharGives]
      exact ⟨rfl,rfl⟩) p.field maxRemainingLengthBytes _ p.ended p.short rfl
  rw [mqttPacketDecodeField]
  simp only [exact.1, exact.2, p.ended, p.counts, if_true, Nat.add_zero, List.nil_append]

/- What a packet that is read leaves in the buffer. -/
def landed (p : WirePacket) (buf : Memory) : Nat → UInt8 := (buf.store 0 p.canonical).byte

theorem readWhole (p : WirePacket) (buflen : Int) (buf : Memory) (rest : List UInt8) :
    (Oversize p buflen → (mqttPacketRead blocking buflen buf (some (p.bytes ++ rest))).rc = -1) ∧
      (¬ Oversize p buflen →
        (mqttPacketRead blocking buflen buf (some (p.bytes ++ rest))).rc = MqttHeader.type p.header ∧
          (mqttPacketRead blocking buflen buf (some (p.bytes ++ rest))).buf.byte = landed p buf) := by
  have header : blocking.call 1 (some (p.bytes ++ rest)) = (⟨[p.header],1⟩,some (p.field ++ (p.body ++ rest))) := by
    have first := blockingGives 1 [p.header] (p.field ++ (p.body ++ rest)) rfl
    simpa [WirePacket.bytes] using first
  have body := blockingGives p.body.length p.body rest rfl
  unfold mqttPacketRead
  simp only [header, decodeGives, body, ne_eq, not_true_eq_false, if_false]
  refine ⟨fun large => ?_,fun fits => ?_⟩
  · unfold Oversize bodyAt at large
    rw [if_pos large]
  · unfold Oversize bodyAt at fits
    rw [if_neg fits]
    have first : (buf.store 0 [p.header]).byte = (buf.store 0 [p.header]).byte := rfl
    have behind : 1 = 0 + [p.header].length := rfl
    have opened := Memory.storeBehind first behind (mqttPacketEncode p.body.length)
    have bytes : (((buf.store 0 [p.header]).store 1 (mqttPacketEncode p.body.length)).store
        (1 + (mqttPacketEncode p.body.length).length) p.body).byte = landed p buf := by
      refine Memory.storeBehind opened ?_ p.body
      rw [List.length_append, List.length_singleton, Nat.zero_add]
    refine ⟨?_,bytes⟩
    rw [bytes]
    rfl

theorem fieldBroken {f : List UInt8} (more : ∀ b ∈ f, 128 ≤ b.toNat) {limit : Nat} (short : f.length < limit) :
    (Base128.fieldFrom (getchar blocking) limit (some f)).2 = none := by
  induction f generalizing limit with
  | nil =>
    cases limit with
    | zero => cases short
    | succ limit => rfl
  | cons b f ih =>
    cases limit with
    | zero => cases short
    | succ limit =>
      have large := more b (List.mem_cons_self ..)
      have rest := ih (fun c inside => more c (List.mem_cons_of_mem _ inside)) (Nat.lt_of_succ_lt_succ short)
      rw [Base128.fieldFrom, getcharGives]
      simp only [if_neg (Nat.not_lt.mpr large)]
      exact rest

theorem readCut (p : WirePacket) (buflen : Int) (buf : Memory) {bs : List UInt8} (cut : bs <+: p.bytes)
    (short : bs.length < p.bytes.length) : (mqttPacketRead blocking buflen buf (some bs)).rc = -1 := by
  cases bs with
  | nil => simp [mqttPacketRead, blocking]
  | cons h rest =>
    obtain ⟨_,behind⟩ := List.cons_prefix_cons.mp cut
    have header : blocking.call 1 (some (h :: rest)) = (⟨[h],1⟩,some rest) := blockingGives 1 [h] rest rfl
    simp only [WirePacket.bytes, List.length_cons, List.length_append] at short
    unfold mqttPacketRead
    simp only [header, ne_eq, not_true_eq_false, if_false]
    by_cases inField : rest.length < p.field.length
    · have taken : rest = p.field.take rest.length := by
        have field := List.prefix_of_prefix_length_le behind (List.prefix_append ..) (Nat.le_of_lt inField)
        exact List.prefix_iff_eq_take.mp field
      have more := Base128.continuedTake p.ended inField
      rw [← taken] at more
      have limit : rest.length < maxRemainingLengthBytes := Nat.lt_of_lt_of_le inField p.short
      have starved : (mqttPacketDecode (getchar blocking) (some rest)).source = none := by
        rw [mqttPacketDecodeField]
        exact fieldBroken more limit
      have refused : ∀ count, blocking.call count none = (⟨[],-1⟩,none) := fun _ => rfl
      simp only [starved, refused]
      split
      · rfl
      · rw [if_pos (by omega)]
    · obtain ⟨b,rfl⟩ := List.prefix_of_prefix_length_le (List.prefix_append ..) behind (Nat.le_of_not_lt inField)
      rw [List.length_append] at short
      have starved : blocking.call p.body.length (some b) = (⟨[],-1⟩,none) := by
        have few : b.length < p.body.length := by omega
        simp [blocking, few]
      simp only [decodeGives, starved]
      split
      · rfl
      · rw [if_pos (by omega)]

end YunbaIot.Schedule
