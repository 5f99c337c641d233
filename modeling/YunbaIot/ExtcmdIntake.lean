import YunbaIot.MqttEffects
import YunbaIot.PublishGrammar

/-! An extended command from the packet in readbuf to the copy its handler prints: what the
parser accepts, and which bytes it, the copy and the print load. -/
namespace YunbaIot.ExtcmdIntake
open MqttPacket MqttDeserialize
open PublishGrammar (field remLen bodyAt start topicLength readIntTopic readInt64Id firstByte remainingStart startEnded
  startWithin)

/-! The handler chain -/

def copySize : Nat := 200

/- The offsets that memcpy loads, and the copy that is given to printf. -/
structure Arrival where
  copied : List Nat
  printed : Option Memory

/- `heap` is what malloc returned, with whatever lies behind the copy. -/
def extMessageArrive (byte : Nat → UInt8) (heap : Option Memory) (retStringLen retString : Nat) : Arrival :=
  match heap with
  | none => ⟨[],none⟩
  | some buf =>
    let buf := buf.store 0 (List.replicate copySize 0)
    if retStringLen ≤ copySize then
      ⟨List.range' retString retStringLen,some (buf.store 0 (Memory.slice byte retString retStringLen))⟩
    else ⟨[],none⟩

/- The EXTCMD case of cycle with deliverextMessage, which hands its arguments on. -/
def deliver (byte : Nat → UInt8) (buflen : Nat) (heap : Option Memory) : Option Arrival :=
  let out := mqttDeserializeExtendedcmd byte buflen
  if out.rc ≠ 1 then none
  else some (extMessageArrive byte heap (out.payloadlen.getD 0) (out.payload.getD 0))

/- printf loads its string up to the first zero byte. -/
def Arrival.Loads (a : Arrival) (i : Nat) : Prop := ∃ copy, a.printed = some copy ∧ ∀ j < i, copy.byte j ≠ 0

variable (byte : Nat → UInt8) (buflen : Nat)

def payloadAt : Nat := bodyAt byte + 12
def payloadlen : Nat := topicLength byte (bodyAt byte + 10)

/- A length field that ends and a packet, all in the buffer, with room for the id, the
command, the status, the inner length and as many bytes as this one says. -/
structure Frame : Prop where
  wellFormed : Base128.terminated (field byte) = true
  inside : bodyAt byte + remLen byte ≤ buflen
  room : 12 + payloadlen byte ≤ remLen byte

/- A payload as long as the copy, without a zero byte to end the string. -/
def Unended : Prop := payloadlen byte = copySize ∧ ∀ j < copySize, byte (payloadAt byte + j) ≠ 0

structure Intake : Prop where
  accepts : (mqttDeserializeExtendedcmd byte buflen).rc = 1 → Frame byte buflen
  payload : (mqttDeserializeExtendedcmd byte buflen).rc = 1 → ∃ p n,
    (mqttDeserializeExtendedcmd byte buflen).payload = some p ∧
      (mqttDeserializeExtendedcmd byte buflen).payloadlen = some n ∧
      bodyAt byte ≤ p ∧ p + n ≤ bodyAt byte + remLen byte
  inBounds : ∀ i ∈ (mqttDeserializeExtendedcmd byte buflen).reads, i < buflen
  copied : ∀ heap a, deliver byte buflen heap = some a → ∀ i ∈ a.copied, i < buflen
  printed : ∀ heap a, deliver byte buflen heap = some a → ∀ i, a.Loads i → i < copySize

def Regular : Prop :=
  0 < buflen ∧ (MqttHeader.type (byte 0) ≠ MsgType.extcmd.code ∨ Frame byte buflen ∧ ¬ Unended byte)

variable {byte}

theorem otherType (other : MqttHeader.type (byte 0) ≠ MsgType.extcmd.code) :
    mqttDeserializeExtendedcmd byte buflen = ⟨0,none,none,none,none,none,none,none,none,[0]⟩ := by
  unfold mqttDeserializeExtendedcmd
  exact if_pos other

/- Nothing behind the type check can refuse. -/
theorem accepted (extcmd : MqttHeader.type (byte 0) = MsgType.extcmd.code) :
    let out := mqttDeserializeExtendedcmd byte buflen
    out.rc = 1 ∧ out.payload = some ((start byte).pos + 12) ∧
      out.payloadlen = some (topicLength byte ((start byte).pos + 10)) ∧ out.reads = ((start byte).advance 12).reads := by
  simp only [mqttDeserializeExtendedcmd, firstByte, extcmd, ne_eq, not_true_eq_false, if_false, remainingStart]
  simp only [readInt64Id, readChar, readIntTopic, Cursor.advanceNext, Cursor.advanceAdvance]
  exact ⟨trivial,rfl,rfl,trivial⟩

/-! The copy -/

section Copy
variable (heap : Memory) {len : Nat} (data : Nat)

def copyOf (byte : Nat → UInt8) (heap : Memory) (len data : Nat) : Memory :=
  (heap.store 0 (List.replicate copySize 0)).store 0 (Memory.slice byte data len)

theorem copyByte {j : Nat} (inside : j < len) : (copyOf byte heap len data).byte j = byte (data + j) := by
  have stored := Memory.storeInside (heap.store 0 (List.replicate copySize 0)) 0 (Memory.slice byte data len) j
    (by rw [Memory.sliceLength]; exact inside)
  rw [Nat.zero_add] at stored
  exact stored.trans (Memory.sliceGet byte data inside _)

theorem copyZero {j : Nat} (behind : len ≤ j) (cleared : j < copySize) :
    (copyOf byte heap len data).byte j = 0 := by
  have outside := Memory.storeOutside (heap.store 0 (List.replicate copySize 0)) 0 (Memory.slice byte data len) j
    (Or.inr (by rw [Memory.sliceLength]; omega))
  have zero := Memory.storeInside heap 0 (List.replicate copySize 0) j (by rw [List.length_replicate]; exact cleared)
  rw [Nat.zero_add] at zero
  exact outside.trans (zero.trans (List.getElem_replicate ..))

/- The print stays in the copy where a zero byte does. -/
theorem printInside (fits : len ≤ copySize) :
    (∀ i, (∀ j < i, (copyOf byte heap len data).byte j ≠ 0) → i < copySize) ↔
      ¬ (len = copySize ∧ ∀ j < copySize, byte (data + j) ≠ 0) := by
  constructor
  · rintro ends ⟨rfl,filled⟩
    have past := ends copySize fun j inside => (copyByte heap data inside).symm ▸ filled j inside
    exact Nat.lt_irrefl _ past
  · intro ended i loads
    by_contra beyond
    by_cases full : len = copySize
    · refine ended ⟨full,fun j inside => ?_⟩
      have loaded := loads j (by omega)
      rwa [copyByte heap data (by omega)] at loaded
    · exact loads len (by omega) (copyZero heap data (Nat.le_refl _) (by omega))

end Copy

/-! The chain on a whole packet -/

theorem arriveCopied {heap : Option Memory} {len data i : Nat}
    (copied : i ∈ (extMessageArrive byte heap len data).copied) : i < data + len := by
  unfold extMessageArrive at copied
  split at copied
  · cases copied
  · dsimp only at copied
    split at copied
    · exact (List.mem_range'_1.mp copied).2
    · cases copied

theorem arrivePrinted {heap : Option Memory} {len data : Nat} {copy : Memory}
    (printed : (extMessageArrive byte heap len data).printed = some copy) :
    len ≤ copySize ∧ ∃ buf, copy = copyOf byte buf len data := by
  unfold extMessageArrive at printed
  split at printed
  · cases printed
  · rename_i buf
    dsimp only at printed
    split at printed
    · rename_i fits
      cases printed
      exact ⟨fits,buf,rfl⟩
    · cases printed

theorem delivered (frame : Frame byte buflen) (extcmd : MqttHeader.type (byte 0) = MsgType.extcmd.code)
    (heap : Option Memory) :
    deliver byte buflen heap = some (extMessageArrive byte heap (payloadlen byte) (payloadAt byte)) := by
  obtain ⟨rc,payload,length,_⟩ := accepted buflen extcmd
  rw [startEnded frame.wellFormed] at payload length
  simp only [deliver, rc, payload, length, ne_eq, not_true_eq_false, if_false, Option.getD_some]
  rfl

theorem frameIntake (frame : Frame byte buflen) (extcmd : MqttHeader.type (byte 0) = MsgType.extcmd.code)
    (ended : ¬ Unended byte) : Intake byte buflen := by
  obtain ⟨rc,payload,length,reads⟩ := accepted buflen extcmd
  have place := startEnded frame.wellFormed
  have inside := frame.inside
  have room := frame.room
  rw [place] at payload length
  refine ⟨fun _ => frame,fun _ => ⟨_,_,payload,length,by omega,?_⟩,?_,fun heap a chain i copied => ?_,
    fun heap a chain i loads => ?_⟩
  · unfold payloadlen at room
    omega
  · have header : (start byte).Within buflen := (startWithin buflen).mpr (by omega)
    rw [reads]
    exact (Cursor.withinAdvance (start byte) 12 buflen).mpr ⟨header,Or.inr (by omega)⟩
  · rw [delivered buflen frame extcmd heap] at chain
    cases chain
    have before := arriveCopied copied
    unfold payloadAt at before
    omega
  · rw [delivered buflen frame extcmd heap] at chain
    cases chain
    obtain ⟨copy,printed,loaded⟩ := loads
    obtain ⟨fits,buf,rfl⟩ := arrivePrinted printed
    exact (printInside buf (payloadAt byte) fits).mpr ended i loaded

/- Some string that malloc cleared and memcpy filled runs past the copy. -/
theorem unendedPrinted (frame : Frame byte buflen) (extcmd : MqttHeader.type (byte 0) = MsgType.extcmd.code)
    (intake : Intake byte buflen) : ¬ Unended byte := by
  intro unended
  have fits : payloadlen byte ≤ copySize := Nat.le_of_eq unended.1
  refine (printInside (.ofList []) (payloadAt byte) fits).mp (fun i loads => ?_) unended
  refine intake.printed (some (.ofList [])) _ (delivered buflen frame extcmd _) i ⟨_,?_,loads⟩
  simp only [extMessageArrive, if_pos fits, copyOf]

/-- An extended command is taken in within the packet, the buffer and the copy on exactly the
regular buffers. -/
theorem extcmdIntakeExact (byte : Nat → UInt8) (buflen : Nat) : Intake byte buflen ↔ Regular byte buflen := by
  by_cases extcmd : MqttHeader.type (byte 0) = MsgType.extcmd.code
  · constructor
    · intro intake
      have frame := intake.accepts (accepted buflen extcmd).1
      have room := frame.room
      have inside := frame.inside
      exact ⟨by omega,Or.inr ⟨frame,unendedPrinted buflen frame extcmd intake⟩⟩
    · rintro ⟨_,regular⟩
      obtain ⟨frame,ended⟩ := regular.resolve_left (not_not.mpr extcmd)
      exact frameIntake buflen frame extcmd ended
  · have out := otherType buflen extcmd
    constructor
    · intro intake
      exact ⟨intake.inBounds 0 (by simp [out]),Or.inl extcmd⟩
    · rintro ⟨nonempty,_⟩
      have refused : ∀ heap a, deliver byte buflen heap ≠ some a := by
        intro heap a chain
        simp [deliver, out] at chain
      have code : (mqttDeserializeExtendedcmd byte buflen).rc ≠ 1 := by simp [out]
      exact ⟨fun one => absurd one code,fun one => absurd one code,by simpa [out] using nonempty,
        fun heap a chain => absurd chain (refused heap a),fun heap a chain => absurd chain (refused heap a)⟩

def emptyExtcmd : List UInt8 := [0xF0,0]
/- A whole packet with a payload of 200 letters. -/
def lettersExtcmd : Nat → UInt8 := fun i => [0xF0,0xD4,1,0,0,0,0,0,0,0,1,2,0,0,200].getD i 97

/- A command of remaining length 0 is accepted, and a payload of 200 letters is printed past
its copy. -/
theorem emptyExtcmdAccepted :
    ¬ Intake (Memory.ofList emptyExtcmd).byte 2 ∧ Frame lettersExtcmd 215 ∧ ¬ Intake lettersExtcmd 215 := by
  have frame : Frame lettersExtcmd 215 := ⟨by decide,by decide,by decide⟩
  refine ⟨fun intake => ?_,frame,fun intake => ?_⟩
  · have room := (intake.accepts (by decide)).room
    exact absurd room (by decide)
  · refine unendedPrinted 215 frame (by decide) intake ⟨by decide,fun j _ => ?_⟩
    have place : payloadAt lettersExtcmd + j = j + 15 := Nat.add_comm ..
    have letter : lettersExtcmd (j + 15) = 97 := rfl
    rw [place, letter]
    decide

end YunbaIot.ExtcmdIntake
