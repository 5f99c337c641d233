import YunbaIot.FreeRtosTimer

/-! The Network callbacks of a client. The link below them is any state the transport
keeps; a read may bring fewer bytes than asked or fail after some, a write may take
fewer or fail. A network that breaks the callbacks' contract cannot be built. -/
namespace YunbaIot.MqttTransport
open FreeRtosTimer

structure Wire (τ : Type) where
  clock : List Tick
  link : τ

-- `stored` lies at the start of the caller's buffer whatever `rc` says.
structure ReadResult where
  stored : List UInt8
  rc : Int
  deriving DecidableEq, Repr

-- `taken` leading bytes went out whatever `rc` says.
structure WriteResult where
  taken : Nat
  rc : Int
  deriving DecidableEq, Repr

structure Network (τ : Type) where
  mqttread : Nat → UInt32 → Wire τ → ReadResult × Wire τ
  mqttwrite : List UInt8 → UInt32 → Wire τ → WriteResult × Wire τ
  readFits : ∀ len ms w, (mqttread len ms w).1.stored.length ≤ len
  readCount : ∀ len ms w, 0 ≤ (mqttread len ms w).1.rc →
    (mqttread len ms w).1.rc = (mqttread len ms w).1.stored.length
  readClock : ∀ len ms w, (mqttread len ms w).2.clock.length ≤ w.clock.length
  writeFits : ∀ bs ms w, (mqttwrite bs ms w).1.taken ≤ bs.length
  writeCount : ∀ bs ms w, 0 ≤ (mqttwrite bs ms w).1.rc →
    (mqttwrite bs ms w).1.rc = (mqttwrite bs ms w).1.taken
  writeClock : ∀ bs ms w, (mqttwrite bs ms w).2.clock.length ≤ w.clock.length

variable {τ : Type}

/- One byte by mqttread, as the length-field loop asks for it: anything but one byte
read is a refusal. -/
def oneByte (net : Network τ) (ms : UInt32) (w : Wire τ) : Option UInt8 × Wire τ :=
  let r := net.mqttread 1 ms w
  (if r.1.rc = 1 then r.1.stored.head? else none, r.2)

/- A transport that returns every requested byte while `rest` holds enough, and writes
without touching what is still to be read. -/
structure Supplies (net : Network τ) (rest : τ → List UInt8) : Prop where
  read : ∀ len ms w, len ≤ (rest w.link).length →
    (net.mqttread len ms w).1 = ⟨(rest w.link).take len,len⟩ ∧
      rest (net.mqttread len ms w).2.link = (rest w.link).drop len
  write : ∀ bs ms w, rest (net.mqttwrite bs ms w).2.link = rest w.link

structure WritesAll (net : Network τ) : Prop where
  write : ∀ bs ms w, (net.mqttwrite bs ms w).1 = ⟨bs.length,bs.length⟩

theorem oneByteSupplied {net : Network τ} {rest : τ → List UInt8} (supplies : Supplies net rest)
    (ms : UInt32) (w : Wire τ) (b : UInt8) (bs : List UInt8) (ahead : rest w.link = b :: bs) :
    (oneByte net ms w).1 = some b ∧ rest (oneByte net ms w).2.link = bs := by
  have enough : 1 ≤ (rest w.link).length := by simp [ahead]
  obtain ⟨answer,after⟩ := supplies.read 1 ms w enough
  simp only [oneByte, answer, after, ahead]
  exact ⟨rfl,rfl⟩

/-! The ideal transport: everything the peer sends is there at once. -/

def pipe : Network (List UInt8) where
  mqttread len _ w := (⟨w.link.take len,(w.link.take len).length⟩, { w with link := w.link.drop len })
  mqttwrite bs _ w := (⟨bs.length,bs.length⟩, w)
  readFits _ _ _ := by
    rw [List.length_take]
    exact Nat.min_le_left _ _
  readCount _ _ _ _ := rfl
  readClock _ _ _ := Nat.le_refl _
  writeFits _ _ _ := Nat.le_refl _
  writeCount _ _ _ _ := rfl
  writeClock _ _ _ := Nat.le_refl _

theorem pipeSupplies : Supplies pipe id where
  read len ms w enough := by
    simp only [pipe, id] at enough ⊢
    simp [enough]
  write _ _ _ := rfl

theorem pipeWrites : WritesAll pipe := ⟨fun _ _ _ => rfl⟩

/-! A scripted transport: the bytes the peer has sent and how each coming call behaves.
Every run of a transport is the run of some script. -/

inductive ReadOutcome where
  | full
  | short (count : Nat)
  | error (count code : Nat)
  deriving DecidableEq, Repr

inductive WriteOutcome where
  | accept (count : Nat)
  | error (count code : Nat)
  deriving DecidableEq, Repr

structure Script where
  incoming : List UInt8
  reads : List ReadOutcome
  writes : List WriteOutcome
  deriving DecidableEq, Repr

def ReadOutcome.count (len : Nat) : ReadOutcome → Nat
  | .full => len
  | .short count | .error count _ => min count len

def ReadOutcome.result (stored : List UInt8) : ReadOutcome → ReadResult
  | .full | .short _ => ⟨stored,stored.length⟩
  | .error _ code => ⟨stored,-1-code⟩

def WriteOutcome.taken (len : Nat) : WriteOutcome → Nat
  | .accept count | .error count _ => min count len

def WriteOutcome.result (taken : Nat) : WriteOutcome → WriteResult
  | .accept _ => ⟨taken,taken⟩
  | .error _ code => ⟨taken,-1-code⟩

-- A script that has run out brings no more bytes and takes none.
def Script.nextRead (s : Script) : ReadOutcome := s.reads.headD (.short 0)
def Script.nextWrite (s : Script) : WriteOutcome := s.writes.headD (.accept 0)

def Script.read (len : Nat) (s : Script) : ReadResult × Script :=
  let count := s.nextRead.count len
  (s.nextRead.result (s.incoming.take count),
    { s with incoming := s.incoming.drop count, reads := s.reads.tail })

def Script.write (bs : List UInt8) (s : Script) : WriteResult × Script :=
  (s.nextWrite.result (s.nextWrite.taken bs.length), { s with writes := s.writes.tail })

def scripted : Network Script where
  mqttread len _ w := ((w.link.read len).1, { w with link := (w.link.read len).2 })
  mqttwrite bs _ w := ((w.link.write bs).1, { w with link := (w.link.write bs).2 })
  readFits len _ w := by
    simp only [Script.read]
    cases w.link.nextRead <;> simp only [ReadOutcome.result, ReadOutcome.count, List.length_take] <;> omega
  readCount len _ w positive := by
    simp only [Script.read] at positive ⊢
    cases outcome : w.link.nextRead with
    | full => rfl
    | short count => rfl
    | error count code =>
      simp only [outcome, ReadOutcome.result] at positive
      omega
  readClock _ _ _ := Nat.le_refl _
  writeFits bs _ w := by
    simp only [Script.write]
    cases w.link.nextWrite <;> simp only [WriteOutcome.result, WriteOutcome.taken] <;> omega
  writeCount bs _ w positive := by
    simp only [Script.write] at positive ⊢
    cases outcome : w.link.nextWrite with
    | accept count => rfl
    | error count code =>
      simp only [outcome, WriteOutcome.result] at positive
      omega
  writeClock _ _ _ := Nat.le_refl _

end YunbaIot.MqttTransport
