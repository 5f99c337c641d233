import YunbaIot.Run
import YunbaIot.UserParameters

/-! user_plug.c: the relay of the plug, the saved parameter in flash, and the registers that
driver/gpio.c writes. The wifi status led is the SDK's and not written from here. -/
namespace YunbaIot.UserPlug
open Run
open UserParameters (DeviceId)

/-! Pins -/

structure Gpio where
  out : BitVec 32
  enable : BitVec 32
  -- every pin that a call has set, cleared or enabled so far
  driven : BitVec 32
  deriving DecidableEq, Repr

def gpioOutputConf (setMask clearMask enableMask disableMask : BitVec 32) (g : Gpio) : Gpio where
  out := (g.out ||| setMask) &&& ~~~clearMask
  enable := (g.enable ||| enableMask) &&& ~~~disableMask
  driven := g.driven ||| setMask ||| clearMask ||| enableMask

def gpioOutputSet (gpioNo : Nat) (bitValue : BitVec 32) (g : Gpio) : Gpio :=
  gpioOutputConf (bitValue <<< gpioNo) ((~~~bitValue &&& 1) <<< gpioNo) (1#32 <<< gpioNo) 0 g

def gpioAsInput (gpioBits : BitVec 32) (g : Gpio) : Gpio := gpioOutputConf 0 0 0 gpioBits g

inductive Board where
  | smartPlug | proSmartPlug
  deriving DecidableEq, Repr

def Board.keyIo : Board → Nat
  | .smartPlug => 14
  | .proSmartPlug => 13

def Board.relayIo : Board → Nat
  | .smartPlug => 12
  | .proSmartPlug => 14

/-! The plug -/

structure PlugSavedParam where
  status : UInt8
  pad : UInt8 × UInt8 × UInt8
  deriving DecidableEq, Repr

structure Plug where
  plugParam : PlugSavedParam
  gpio : Gpio
  flash : PlugSavedParam
  queue : List (List UInt8)
  deriving DecidableEq

-- out of reset
def boot (flash : PlugSavedParam) : Plug := ⟨⟨0,0,0,0⟩,⟨0,0,0⟩,flash,[]⟩

-- %d of a byte
def decimal (n : UInt8) : List UInt8 :=
  if n < 10 then [48 + n]
  else if n < 100 then [48 + n / 10,48 + n % 10]
  else [48 + n / 100,48 + n / 10 % 10,48 + n % 10]

-- the status and the devid member
def statusReport (status : UInt8) (deviceid : DeviceId) : List UInt8 :=
  [123,34,115,116,97,116,117,115,34,58] ++ decimal status ++ [44,32,34,100,101,118,105,100,34,58,34] ++
    deviceid.id.bytes ++ [34,125]

theorem statusReportFits (status : UInt8) (deviceid : DeviceId) : (statusReport status deviceid).length < 64 := by
  have digits : (decimal status).length ≤ 3 := by
    unfold decimal
    split
    · exact Nat.le_of_ble_eq_true rfl
    · split <;> exact Nat.le_of_ble_eq_true rfl
  have short : deviceid.id.bytes.length ≤ 37 := deviceid.short
  simp only [statusReport, List.length_append, List.length_cons, List.length_nil]
  omega

def putMessage (plugStatus : UInt8) (deviceid : Option DeviceId) (p : Plug) : Plug :=
  match deviceid with
  | none => p
  | some d => { p with queue := p.queue ++ [statusReport plugStatus d] }

-- a byte as the int it is compared as, and what a store of an int in a byte keeps
def asInt (b : UInt8) : BitVec 32 := b.toBitVec.setWidth 32
def lowByte (n : BitVec 32) : UInt8 := .ofBitVec (n.setWidth 8)

def userPlugGetStatus (p : Plug) : UInt8 := p.plugParam.status

section Board
variable (board : Board)

def plugStatusOutput (status : BitVec 32) (p : Plug) : Plug :=
  { p with gpio := gpioOutputSet board.relayIo status p.gpio }

/- The parameter is a bool, which is never more than 1 for the compiler: the test for a status
above 1 falls away, and the register is compared, stored and shifted as it comes. The caller in
mqtt_client.c sees no prototype and passes the int of the JSON number, not a bool of it. -/
def userPlugSetStatus (status : BitVec 32) (deviceid : Option DeviceId) (p : Plug) : Plug :=
  if status ≠ asInt p.plugParam.status then
    let p := { p with plugParam := { p.plugParam with status := lowByte status } }
    putMessage (lowByte status) deviceid (plugStatusOutput board status p)
  else p

def spiFlashEraseSector (p : Plug) : Plug := { p with flash := ⟨255,255,255,255⟩ }

-- a write clears bits
def spiFlashWrite (data : PlugSavedParam) (p : Plug) : Plug :=
  { p with flash := ⟨p.flash.status &&& data.status,p.flash.pad.1 &&& data.pad.1,
      p.flash.pad.2.1 &&& data.pad.2.1,p.flash.pad.2.2 &&& data.pad.2.2⟩ }

-- this caller has the prototype, and its argument is made a bool
def userPlugShortPress (deviceid : Option DeviceId) (p : Plug) : Plug :=
  let p := userPlugSetStatus board (if ~~~p.plugParam.status &&& 1 ≠ 0 then 1 else 0) deviceid p
  spiFlashWrite p.plugParam (spiFlashEraseSector p)

def userPlugInit (p : Plug) : Plug :=
  let p := { p with gpio := gpioAsInput (1#32 <<< board.keyIo) p.gpio }
  let p := { p with plugParam := p.flash }
  let p := if p.plugParam.status = 0xff then { p with plugParam := { p.plugParam with status := 0 } } else p
  plugStatusOutput board (asInt p.plugParam.status) p

inductive Op where
  | init
  | setStatus (status : BitVec 32) (deviceid : Option DeviceId)
  | shortPress (deviceid : Option DeviceId)

def step (p : Plug) : Op → Plug
  | .init => userPlugInit board p
  | .setStatus status deviceid => userPlugSetStatus board status deviceid p
  | .shortPress deviceid => userPlugShortPress board deviceid p

/- The relay shows the status, and no other pin was driven. -/
structure Sound (p : Plug) : Prop where
  status : p.plugParam.status = 0 ∨ p.plugParam.status = 1
  only : ∀ pin, p.gpio.driven.getLsbD pin = true → pin = board.relayIo
  level : p.gpio.out.getLsbD board.relayIo = decide (p.plugParam.status = 1)

structure Kept (p : Plug) (op : Op) : Prop where
  sound : Sound board (step board p op)
  toggled : ∀ deviceid, op = .shortPress deviceid → (step board p op).plugParam.status = 1 - p.plugParam.status

end Board

/- Shifted to the relay pin, an int that is no status sets nothing else: it has no further bit
that reaches a pin. -/
def Binary (board : Board) (status : BitVec 32) : Prop :=
  status <<< board.relayIo = 0 ∨ status <<< board.relayIo = 1#32 <<< board.relayIo

def Op.binary (board : Board) : Op → Prop
  | .setStatus status _ => Binary board status
  | _ => True

def Op.other : Op → Bool
  | .shortPress _ => false
  | _ => true

def Op.isInit : Op → Bool
  | .init => true
  | _ => false

/- A saved byte that user_plug_init makes a status of. -/
def Saved (b : UInt8) : Prop := b = 0 ∨ b = 1 ∨ b = 0xff

/- The saved byte is read before a short press replaced it. -/
def ReadFirst (ops : List Op) : Prop := ∃ op ∈ ops.takeWhile Op.other, op.isInit = true

/-! Outputs -/

section Board
variable {board : Board}

theorem pinBit {no pin : Nat} (small : no < 32) : (1#32 <<< no).getLsbD pin = decide (pin = no) := by
  rw [← BitVec.twoPow_eq, BitVec.getLsbD_twoPow]
  simp [small, eq_comm]

/- A status of 0 or 1 clears or sets one pin, and enables it. -/
theorem outputSetBinary (no : Nat) (on : Bool) (g : Gpio) :
    gpioOutputSet no (BitVec.ofNat 32 on.toNat) g =
      gpioOutputConf (if on then 1#32 <<< no else 0) (if on then 0 else 1#32 <<< no) (1#32 <<< no) 0 g := by
  have cleared : ~~~1#32 &&& 1 = 0#32 := by decide
  have kept : ~~~0#32 &&& 1 = 1#32 := by decide
  unfold gpioOutputSet
  cases on with
  | false =>
    show gpioOutputConf (0#32 <<< no) ((~~~0#32 &&& 1) <<< no) _ _ g = _
    rw [kept, BitVec.zero_shiftLeft]
    rfl
  | true =>
    show gpioOutputConf (1#32 <<< no) ((~~~1#32 &&& 1) <<< no) _ _ g = _
    rw [cleared, BitVec.zero_shiftLeft]
    rfl

theorem relaySmall (board : Board) : board.relayIo ≤ 14 := by cases board <;> decide

/- The bits of a binary status that reach a pin are those of a bool. -/
theorem binaryBits {status : BitVec 32} (binary : Binary board status) :
    ∃ on : Bool, status <<< board.relayIo = BitVec.ofNat 32 on.toNat <<< board.relayIo ∧
      ∀ i < 18, status.getLsbD i = (BitVec.ofNat 32 on.toNat).getLsbD i := by
  have small := relaySmall board
  have low (on : Bool) (same : status <<< board.relayIo = BitVec.ofNat 32 on.toNat <<< board.relayIo) :
      ∀ i < 18, status.getLsbD i = (BitVec.ofNat 32 on.toNat).getLsbD i := by
    intro i inside
    have bit := congrArg (fun n => n.getLsbD (board.relayIo + i)) same
    have reaches : board.relayIo + i < 32 := by omega
    have behind : board.relayIo + i - board.relayIo = i := by omega
    have past : ¬board.relayIo + i < board.relayIo := by omega
    simpa only [BitVec.getLsbD_shiftLeft, reaches, past, behind, decide_true, decide_false, Bool.not_false,
      Bool.true_and] using bit
  rcases binary with off | on
  · have same : status <<< board.relayIo = BitVec.ofNat 32 false.toNat <<< board.relayIo := by
      rw [off]
      simp
    exact ⟨false,same,low false same⟩
  · exact ⟨true,on,low true on⟩

theorem binaryOutput {status : BitVec 32} (binary : Binary board status) :
    ∃ on : Bool, lowByte status = on.toUInt8 ∧
      ∀ g, gpioOutputSet board.relayIo status g = gpioOutputSet board.relayIo (BitVec.ofNat 32 on.toNat) g := by
  obtain ⟨on,shifted,bits⟩ := binaryBits binary
  refine ⟨on,?_,fun g => ?_⟩
  · have byte : on.toUInt8 = lowByte (BitVec.ofNat 32 on.toNat) := by cases on <;> rfl
    rw [byte]
    refine UInt8.eq_of_toBitVec_eq (BitVec.eq_of_getLsbD_eq fun i inside => ?_)
    simp only [lowByte, BitVec.getLsbD_setWidth, bits i (by omega)]
  · have flipped : ~~~status &&& 1 = ~~~BitVec.ofNat 32 on.toNat &&& 1 := by
      refine BitVec.eq_of_getLsbD_eq fun i inside => ?_
      cases i with
      | zero => simp only [BitVec.getLsbD_and, BitVec.getLsbD_not, bits 0 (by decide)]
      | succ i => simp
    unfold gpioOutputSet
    rw [shifted, flipped]

/- With a binary status the relay shows the status afterwards, and no other pin is driven. -/
theorem outputSound {p : Plug} {status : BitVec 32} (binary : Binary board status)
    (only : ∀ pin, p.gpio.driven.getLsbD pin = true → pin = board.relayIo) :
    Sound board (plugStatusOutput board status { p with plugParam := { p.plugParam with status := lowByte status } }) := by
  have small : board.relayIo < 32 := Nat.lt_of_le_of_lt (relaySmall board) (by decide)
  obtain ⟨on,byte,output⟩ := binaryOutput binary
  refine ⟨?_,?_,?_⟩
  · rw [plugStatusOutput, byte]
    cases on
    · exact .inl rfl
    · exact .inr rfl
  · intro pin driven
    rw [plugStatusOutput, output, outputSetBinary] at driven
    have cases : p.gpio.driven.getLsbD pin = true ∨ pin = board.relayIo := by
      cases on <;> simpa [gpioOutputConf, pinBit small] using driven
    exact cases.elim (only pin) id
  · have shown : decide (on.toUInt8 = 1) = on := by cases on <;> rfl
    rw [plugStatusOutput, output, outputSetBinary, byte, shown]
    have own : (1#32 <<< board.relayIo).getLsbD board.relayIo = decide (board.relayIo = board.relayIo) := pinBit small
    cases on
    · simp only [gpioOutputConf, Bool.false_eq_true, if_false, BitVec.getLsbD_and, BitVec.getLsbD_not, own, small,
        decide_true, Bool.not_true, Bool.and_false]
    · simp only [gpioOutputConf, if_true, BitVec.getLsbD_and, BitVec.getLsbD_or, BitVec.getLsbD_not, own, small,
        decide_true, Bool.or_true, Bool.true_and]
      simp [small]

/- Any other status drives another pin. -/
theorem outputBroken {p : Plug} {status : BitVec 32} (other : ¬Binary board status)
    (only : ∀ pin, (plugStatusOutput board status p).gpio.driven.getLsbD pin = true → pin = board.relayIo) : False := by
  have small : board.relayIo < 32 := Nat.lt_of_le_of_lt (relaySmall board) (by decide)
  have set (pin : Nat) (bit : (status <<< board.relayIo).getLsbD pin = true) : pin = board.relayIo := by
    apply only pin
    simp [plugStatusOutput, gpioOutputSet, gpioOutputConf, bit]
  refine other ?_
  cases bit : (status <<< board.relayIo).getLsbD board.relayIo with
  | false =>
    refine .inl (BitVec.eq_of_getLsbD_eq fun i _ => ?_)
    have clear : BitVec.getLsbD (0 : BitVec 32) i = false := BitVec.getLsbD_zero
    rw [clear, ← Bool.not_eq_true]
    intro on
    rw [set i on, bit] at on
    cases on
  | true =>
    refine .inr (BitVec.eq_of_getLsbD_eq fun i _ => ?_)
    rw [pinBit small]
    by_cases here : i = board.relayIo
    · rw [here, bit, decide_eq_true rfl]
    · rw [decide_eq_false here, ← Bool.not_eq_true]
      exact fun on => here (set i on)

theorem putSound {p : Plug} (sound : Sound board p) (status : UInt8) (deviceid : Option DeviceId) :
    Sound board (putMessage status deviceid p) := by
  cases deviceid with
  | none => exact sound
  | some d => exact ⟨sound.status,sound.only,sound.level⟩

@[simp] theorem putParam (p : Plug) (status : UInt8) (deviceid : Option DeviceId) :
    (putMessage status deviceid p).plugParam = p.plugParam := by cases deviceid <;> rfl

@[simp] theorem putGpio (p : Plug) (status : UInt8) (deviceid : Option DeviceId) :
    (putMessage status deviceid p).gpio = p.gpio := by cases deviceid <;> rfl

@[simp] theorem putFlash (p : Plug) (status : UInt8) (deviceid : Option DeviceId) :
    (putMessage status deviceid p).flash = p.flash := by cases deviceid <;> rfl

/-! One operation -/

@[simp] theorem lowByteAsInt (b : UInt8) : lowByte (asInt b) = b :=
  UInt8.eq_of_toBitVec_eq (by simp [lowByte, asInt])

theorem setStatusValue (status : BitVec 32) (deviceid : Option DeviceId) (p : Plug) :
    (userPlugSetStatus board status deviceid p).plugParam.status = lowByte status := by
  unfold userPlugSetStatus
  split
  · rw [putParam]
    rfl
  · rename_i same
    rw [not_not.mp same, lowByteAsInt]

theorem setStatusFlash (status : BitVec 32) (deviceid : Option DeviceId) (p : Plug) :
    (userPlugSetStatus board status deviceid p).flash = p.flash := by
  unfold userPlugSetStatus
  split
  · rw [putFlash]
    rfl
  · rfl

theorem setStatusSound {p : Plug} (sound : Sound board p) {status : BitVec 32} (binary : Binary board status)
    (deviceid : Option DeviceId) : Sound board (userPlugSetStatus board status deviceid p) := by
  unfold userPlugSetStatus
  split
  · exact putSound (outputSound binary sound.only) _ _
  · exact sound

theorem byteBinary {b : UInt8} (binary : b = 0 ∨ b = 1) : Binary board (asInt b) := by
  rcases binary with rfl | rfl
  · exact .inl (by cases board <;> decide)
  · exact .inr rfl

theorem setStatusBroken {p : Plug} (sound : Sound board p) {status : BitVec 32} (other : ¬Binary board status)
    (deviceid : Option DeviceId) : ¬Sound board (userPlugSetStatus board status deviceid p) := by
  intro after
  unfold userPlugSetStatus at after
  split at after
  · refine outputBroken (p := { p with plugParam := { p.plugParam with status := lowByte status } }) other fun pin => ?_
    have only := after.only pin
    rw [putGpio] at only
    exact only
  · rename_i same
    rw [not_not.mp same] at other
    exact other (byteBinary sound.status)

-- what a short press asks for
theorem flippedBinary (b : UInt8) : Binary board (if ~~~b &&& 1 ≠ 0 then 1 else 0) := by
  split
  · exact .inr rfl
  · exact .inl (by cases board <;> decide)

theorem pressToggles {p : Plug} (sound : Sound board p) (deviceid : Option DeviceId) :
    (userPlugShortPress board deviceid p).plugParam.status = 1 - p.plugParam.status := by
  show (userPlugSetStatus board (if ~~~p.plugParam.status &&& 1 ≠ 0 then 1 else 0) deviceid p).plugParam.status = _
  rw [setStatusValue]
  rcases sound.status with zero | one
  · rw [zero]
    rfl
  · rw [one]
    rfl

theorem pressSound {p : Plug} (sound : Sound board p) (deviceid : Option DeviceId) :
    Sound board (userPlugShortPress board deviceid p) := by
  have set := setStatusSound sound (flippedBinary p.plugParam.status) deviceid
  exact ⟨set.status,set.only,set.level⟩

/- What a press leaves in flash is the status. -/
theorem pressFlash (p : Plug) (deviceid : Option DeviceId) :
    (userPlugShortPress board deviceid p).flash = (userPlugShortPress board deviceid p).plugParam := by
  have erased (b : UInt8) : 255 &&& b = b := UInt8.eq_of_toBitVec_eq (BitVec.allOnes_and ..)
  simp only [userPlugShortPress, spiFlashWrite, spiFlashEraseSector, erased]

theorem initFlash (p : Plug) : (userPlugInit board p).flash = p.flash := by
  unfold userPlugInit
  dsimp only
  split <;> rfl

theorem initSound {p : Plug} (sound : Sound board p) (saved : Saved p.flash.status) : Sound board (userPlugInit board p) := by
  have only : ∀ pin, (gpioAsInput (1#32 <<< board.keyIo) p.gpio).driven.getLsbD pin = true → pin = board.relayIo := by
    simpa [gpioAsInput, gpioOutputConf] using sound.only
  have shown (b : UInt8) (binary : b = 0 ∨ b = 1) := outputSound
    (p := ⟨p.flash,gpioAsInput (1#32 <<< board.keyIo) p.gpio,p.flash,p.queue⟩) (byteBinary binary) only
  simp only [lowByteAsInt] at shown
  unfold userPlugInit
  dsimp only
  split
  · exact shown 0 (.inl rfl)
  · rename_i written
    have binary : p.flash.status = 0 ∨ p.flash.status = 1 := by
      rcases saved with zero | one | erased
      · exact .inl zero
      · exact .inr one
      · exact absurd erased written
    exact shown p.flash.status binary

/- A saved byte that is none is taken for the status. -/
theorem initBroken {p : Plug} (other : ¬Saved p.flash.status) : ¬Sound board (userPlugInit board p) := by
  have kept : (userPlugInit board p).plugParam.status = p.flash.status := by
    unfold userPlugInit
    dsimp only
    rw [if_neg fun erased => other (.inr (.inr erased))]
    rfl
  intro sound
  have binary := sound.status
  rw [kept] at binary
  exact other (binary.elim .inl fun one => .inr (.inl one))

/-! Every sequence of operations -/

theorem readFirstCons (op : Op) (later : List Op) :
    ReadFirst (op :: later) ↔ op.isInit = true ∨ op.other = true ∧ ReadFirst later := by
  cases op <;> simp [ReadFirst, Op.other, Op.isInit, List.takeWhile_cons]

theorem keptAlong {p : Plug} (sound : Sound board p) (ops : List Op) :
    Along (step board) (Kept board) p ops ↔
      (Saved p.flash.status ∨ ¬ReadFirst ops) ∧ ∀ op ∈ ops, op.binary board := by
  induction ops generalizing p with
  | nil => exact ⟨fun _ => ⟨.inr (by simp [ReadFirst]),by simp⟩,fun _ => trivial⟩
  | cons op later ih =>
    rw [Along, readFirstCons, List.forall_mem_cons]
    cases op with
    | init =>
      by_cases saved : Saved p.flash.status
      · have next : Sound board (step board p .init) := initSound sound saved
        have rest := ih next
        rw [show (step board p .init).flash = p.flash from initFlash p] at rest
        rw [rest]
        exact ⟨fun along => ⟨.inl saved,trivial,along.2.2⟩,fun holds => ⟨⟨next,nofun⟩,.inl saved,holds.2.2⟩⟩
      · refine ⟨fun along => absurd along.1.sound (initBroken saved),fun holds => ?_⟩
        exact absurd (Or.inl rfl) (holds.1.resolve_left saved)
    | setStatus status deviceid =>
      by_cases binary : Binary board status
      · have next : Sound board (step board p (.setStatus status deviceid)) := setStatusSound sound binary deviceid
        have rest := ih next
        rw [show (step board p (.setStatus status deviceid)).flash = p.flash from setStatusFlash ..] at rest
        rw [rest]
        simp only [Op.isInit, Op.other, Op.binary, Bool.false_eq_true, true_and, false_or]
        exact ⟨fun along => ⟨along.2.1,binary,along.2.2⟩,fun holds => ⟨⟨next,nofun⟩,holds.1,holds.2.2⟩⟩
      · exact ⟨fun along => absurd along.1.sound (setStatusBroken sound binary deviceid),
          fun holds => absurd holds.2.1 binary⟩
    | shortPress deviceid =>
      have next : Sound board (step board p (.shortPress deviceid)) := pressSound sound deviceid
      have written : Saved (step board p (.shortPress deviceid)).flash.status := by
        rw [show (step board p (.shortPress deviceid)).flash = _ from pressFlash p deviceid]
        exact next.status.elim .inl fun one => .inr (.inl one)
      rw [ih next]
      refine ⟨fun along => ⟨.inr (by simp [Op.isInit, Op.other]),trivial,along.2.2⟩,fun holds => ?_⟩
      exact ⟨⟨next,fun _ _ => pressToggles sound deviceid⟩,.inl written,holds.2.2⟩

end Board

theorem bootSound (board : Board) (flash : PlugSavedParam) : Sound board (boot flash) :=
  ⟨.inl rfl,fun pin driven => by simp [boot] at driven,by simp [boot]⟩

theorem plugInvariant (board : Board) (flash : PlugSavedParam) (ops : List Op) :
    Along (step board) (Kept board) (boot flash) ops ↔
      (Saved flash.status ∨ ¬ReadFirst ops) ∧ ∀ op ∈ ops, op.binary board :=
  keptAlong (bootSound board flash) ops

/- A saved byte of 2 becomes the status, and so does a status of 2 from the server; pin 13 is
set. -/
theorem savedTwo : ¬Along (step .smartPlug) (Kept .smartPlug) (boot ⟨2,0,0,0⟩) [.init] ∧
    (userPlugInit .smartPlug (boot ⟨2,0,0,0⟩)).plugParam.status = 2 ∧
    (userPlugInit .smartPlug (boot ⟨2,0,0,0⟩)).gpio.driven.getLsbD 13 = true ∧
    ¬Along (step .smartPlug) (Kept .smartPlug) (boot ⟨1,0,0,0⟩) [.init,.setStatus 2 none] ∧
    (run (step .smartPlug) (boot ⟨1,0,0,0⟩) [.init,.setStatus 2 none]).plugParam.status = 2 ∧
    (run (step .smartPlug) (boot ⟨1,0,0,0⟩) [.init,.setStatus 2 none]).gpio.driven = 0x3000 := by
  refine ⟨fun along => ?_,by decide,by decide,fun along => ?_,by decide,by decide⟩
  · exact absurd along.1.sound.status (by decide)
  · exact absurd along.2.1.sound.status (by decide)

end YunbaIot.UserPlug
