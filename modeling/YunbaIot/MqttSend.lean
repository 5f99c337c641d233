import YunbaIot.MqttClient

/-! sendPacket against its transport: when the bytes that go out are the packet, and
when the result says so. -/
namespace YunbaIot.MqttSend
open FreeRtosTimer MqttTransport MqttClient

/- How often the loop finds its timer running, each time reading the time left. -/
def rounds : Nat → Timer → List Tick → Nat
  | 0, _, _ => 0
  | fuel+1, timer, clock =>
    let check := timerIsExpired timer clock
    if check.expired then 0
    else
      let left := timerLeftMs check.timer check.clock
      rounds fuel left.timer left.clock + 1

/- No write takes more than the packet still has, and none takes the whole rest and
reports an error. -/
def Orderly (length : Nat) : Nat → Nat → List WriteOutcome → Prop
  | 0, _, _ => True
  | _+1, 0, _ => True
  | _+1, _+1, [] => True
  | n+1, left+1, .accept count :: later =>
    min count length ≤ left+1 ∧ Orderly length n (left + 1 - min count length) later
  | _+1, left+1, .error count _ :: _ => min count length < left+1

structure Faithful (length : Nat) (timer : Timer) (st : St Script) : Prop where
  leading : (sendRun scripted length timer st).transmitted <+: Memory.slice st.client.buf.byte 0 length
  reported : (sendPacket scripted length timer st).rc = success ↔
    (sendRun scripted length timer st).transmitted = Memory.slice st.client.buf.byte 0 length

theorem orderlyNil (length n left : Nat) : Orderly length n left [] := by
  cases n with
  | zero => trivial
  | succ n => cases left <;> trivial

theorem orderlyDone (length n : Nat) (writes : List WriteOutcome) : Orderly length n 0 writes := by
  cases n <;> trivial

/- One round of the loop that finds the packet unfinished and the timer running. -/
theorem sendLoopStep (byte : Nat → UInt8) (length fuel : Nat) (s : SendLoop Script) (unfinished : s.sent < length)
    (running : (timerIsExpired s.timer s.wire.clock).expired = false)
    (leading : s.transmitted = Memory.slice byte 0 s.sent) :
    let left := timerLeftMs (timerIsExpired s.timer s.wire.clock).timer (timerIsExpired s.timer s.wire.clock).clock
    let taken := s.wire.link.nextWrite.taken length
    let rc := (s.wire.link.nextWrite.result taken).rc
    let out := Memory.slice byte 0 (s.sent + taken)
    let wire : Wire Script := ⟨left.clock,{ s.wire.link with writes := s.wire.link.writes.tail }⟩
    sendLoop scripted byte length (fuel+1) s =
      if rc < 0 then ⟨rc,s.sent,out,left.timer,wire⟩
      else sendLoop scripted byte length fuel ⟨rc,s.sent + rc.toNat,out,left.timer,wire⟩ := by
  have offered : (Memory.slice byte s.sent length).take (s.wire.link.nextWrite.taken length) =
      Memory.slice byte s.sent (s.wire.link.nextWrite.taken length) := by
    apply Memory.sliceTake
    cases s.wire.link.nextWrite <;> simp only [WriteOutcome.taken] <;> omega
  have joined := Memory.sliceAppend byte 0 s.sent (s.wire.link.nextWrite.taken length)
  rw [Nat.zero_add, ← leading] at joined
  simp only [sendLoop, if_pos unfinished, running, Bool.false_eq_true, if_false, scripted, Script.write,
    Memory.sliceLength]
  cases outcome : s.wire.link.nextWrite with
  | accept count =>
    rw [outcome] at offered joined
    simp only [WriteOutcome.result, offered, joined]
  | error count code =>
    rw [outcome] at offered joined
    simp only [WriteOutcome.result, offered, joined]

theorem sendLoopFinished {τ : Type} (net : Network τ) (byte : Nat → UInt8) (length fuel : Nat) (s : SendLoop τ)
    (finished : length ≤ s.sent) : sendLoop net byte length fuel s = s := by
  cases fuel with
  | zero => rfl
  | succ fuel => rw [sendLoop, if_neg (by omega)]

/- The fuel of sendPacket lasts: each round has used up a reading of the clock. -/
theorem sendLoopStable {τ : Type} (net : Network τ) (byte : Nat → UInt8) (length fuel other : Nat) (s : SendLoop τ)
    (enough : s.wire.clock.length < fuel) (enough' : s.wire.clock.length < other) :
    sendLoop net byte length fuel s = sendLoop net byte length other s := by
  induction fuel generalizing other s with
  | zero => omega
  | succ fuel ih =>
    cases other with
    | zero => omega
    | succ other =>
      unfold sendLoop
      dsimp only
      split
      · split
        · rfl
        · rename_i running
          have ticked := runningClock (Bool.eq_false_iff.mpr running)
          have asked := leftClock (timerIsExpired s.timer s.wire.clock).timer
            (timerIsExpired s.timer s.wire.clock).clock
          have shorter := Nat.lt_of_le_of_lt asked ticked
          split
          · rfl
          · apply ih
            · exact Nat.lt_of_le_of_lt (net.writeClock _ _ _) (Nat.lt_of_lt_of_le shorter (Nat.le_of_lt_succ enough))
            · exact Nat.lt_of_le_of_lt (net.writeClock _ _ _) (Nat.lt_of_lt_of_le shorter (Nat.le_of_lt_succ enough'))
      · rfl

/- What the loop leaves: on an orderly script a leading part of the packet, the whole of
it exactly when `sent` says so; otherwise too much, or all of it under an error. -/
structure Leaves (byte : Nat → UInt8) (length : Nat) (orderly : Prop) (r : SendLoop Script) : Prop where
  part : orderly → ∃ m, m ≤ length ∧ r.transmitted = Memory.slice byte 0 m ∧ (r.sent = length ↔ m = length)
  wild : ¬ orderly → length ≤ r.transmitted.length ∧ r.sent ≠ length

section Rounds
variable {byte : Nat → UInt8} {length fuel left taken sent : Nat} {rc : Int} {timer : Timer} {wire : Wire Script}

theorem stopLeaves {orderly : Prop} {s : SendLoop Script} (within : s.sent ≤ length)
    (leading : s.transmitted = Memory.slice byte 0 s.sent) (ok : orderly) : Leaves byte length orderly s :=
  ⟨fun _ => ⟨s.sent,within,leading,Iff.rfl⟩,fun bad => absurd ok bad⟩

/- A write that is accepted, within the packet or past its end. -/
theorem acceptLeaves {n : Nat} {later : List WriteOutcome} (room : length - sent = left + 1)
    (rest : taken ≤ left + 1 → Leaves byte length (Orderly length n (length - (sent + taken)) later)
      (sendLoop scripted byte length fuel ⟨rc,sent + taken,Memory.slice byte 0 (sent + taken),timer,wire⟩)) :
    Leaves byte length (taken ≤ left + 1 ∧ Orderly length n (left + 1 - taken) later)
      (sendLoop scripted byte length fuel ⟨rc,sent + taken,Memory.slice byte 0 (sent + taken),timer,wire⟩) := by
  by_cases fits : taken ≤ left + 1
  · have shorter : length - (sent + taken) = left + 1 - taken := by omega
    obtain ⟨part,wild⟩ := rest fits
    rw [shorter] at part wild
    exact ⟨fun h => part h.2,fun h => wild fun orderly => h ⟨fits,orderly⟩⟩
  · rw [sendLoopFinished _ _ _ _ _ (by simp only; omega)]
    refine ⟨fun h => absurd h.1 fits,fun _ => ?_⟩
    simp only [Memory.sliceLength]
    omega

/- A write that fails after it has taken some bytes. -/
theorem errorLeaves (room : length - sent = left + 1) :
    Leaves byte length (taken < left + 1) ⟨rc,sent,Memory.slice byte 0 (sent + taken),timer,wire⟩ := by
  constructor
  · intro short
    exact ⟨sent + taken,by omega,rfl,by simp only; omega⟩
  · intro whole
    simp only [Memory.sliceLength]
    omega

end Rounds

theorem loopLeaves (byte : Nat → UInt8) (length fuel : Nat) (s : SendLoop Script) (within : s.sent ≤ length)
    (leading : s.transmitted = Memory.slice byte 0 s.sent) :
    Leaves byte length (Orderly length (rounds fuel s.timer s.wire.clock) (length - s.sent) s.wire.link.writes)
      (sendLoop scripted byte length fuel s) := by
  induction fuel generalizing s with
  | zero => exact stopLeaves within leading trivial
  | succ fuel ih =>
    by_cases unfinished : s.sent < length
    · cases running : (timerIsExpired s.timer s.wire.clock).expired with
      | true =>
        simp only [sendLoop, if_pos unfinished, running, rounds, if_true]
        exact stopLeaves within leading trivial
      | false =>
        have step := sendLoopStep byte length fuel s unfinished running leading
        simp only at step
        simp only [rounds, running, Bool.false_eq_true, if_false, step]
        generalize timerLeftMs (timerIsExpired s.timer s.wire.clock).timer
          (timerIsExpired s.timer s.wire.clock).clock = l
        obtain ⟨left,room⟩ : ∃ left, length - s.sent = left + 1 := ⟨length - s.sent - 1,by omega⟩
        rw [room]
        cases script : s.wire.link.writes with
        | nil =>
          have silent : s.wire.link.nextWrite = .accept 0 := by simp [Script.nextWrite, script]
          simp only [silent, WriteOutcome.taken, WriteOutcome.result, Nat.zero_min, Int.ofNat_zero,
            Int.lt_irrefl, if_false, Int.toNat_zero, Nat.add_zero, List.tail_nil]
          obtain ⟨part,_⟩ := ih ⟨0,s.sent,Memory.slice byte 0 s.sent,l.timer,
            ⟨l.clock,⟨s.wire.link.incoming,s.wire.link.reads,[]⟩⟩⟩ within rfl
          exact ⟨fun _ => part (orderlyNil _ _ _),fun h => absurd (orderlyNil _ _ _) h⟩
        | cons outcome later =>
          have next : s.wire.link.nextWrite = outcome := by simp [Script.nextWrite, script]
          cases outcome with
          | accept count =>
            have counted : ¬ ((min count length : Nat) : Int) < 0 := by omega
            simp only [next, WriteOutcome.taken, WriteOutcome.result, if_neg counted, Int.toNat_natCast,
              List.tail_cons, Orderly]
            refine acceptLeaves room fun fits => ih ⟨(min count length : Nat),s.sent + min count length,
              Memory.slice byte 0 (s.sent + min count length),l.timer,
              ⟨l.clock,⟨s.wire.link.incoming,s.wire.link.reads,later⟩⟩⟩ ?_ rfl
            dsimp only
            omega
          | error count code =>
            have negative : (-1 - (code : Int)) < 0 := by omega
            simp only [next, WriteOutcome.taken, WriteOutcome.result, if_pos negative, Orderly]
            exact errorLeaves room
    · rw [sendLoopFinished _ _ _ _ _ (by omega)]
      have zero : length - s.sent = 0 := by omega
      rw [zero]
      exact stopLeaves within leading (orderlyDone _ _ _)

/- What a counted write takes goes out behind what has gone out. -/
theorem writeLeads {τ : Type} (net : Network τ) (byte : Nat → UInt8) (length sent : Nat) {ms : UInt32} {w : Wire τ}
    (counted : ¬ (net.mqttwrite (Memory.slice byte sent length) ms w).1.rc < 0) :
    Memory.slice byte 0 sent ++
        (Memory.slice byte sent length).take (net.mqttwrite (Memory.slice byte sent length) ms w).1.taken =
      Memory.slice byte 0 (sent + (net.mqttwrite (Memory.slice byte sent length) ms w).1.rc.toNat) := by
  have count := net.writeCount _ _ _ (Int.not_lt.mp counted)
  have fits := net.writeFits (Memory.slice byte sent length) ms w
  rw [Memory.sliceLength] at fits
  rw [Memory.sliceTake byte sent fits, Memory.sliceAppend, Nat.zero_add, count, Int.toNat_natCast]

/- Where the count of the loop comes to the whole packet, that is what went out. -/
theorem sendLoopTransmitted {τ : Type} (net : Network τ) (byte : Nat → UInt8) (length fuel : Nat) (s : SendLoop τ)
    (leading : s.transmitted = Memory.slice byte 0 s.sent) (whole : (sendLoop net byte length fuel s).sent = length) :
    (sendLoop net byte length fuel s).transmitted = Memory.slice byte 0 length := by
  induction fuel generalizing s with
  | zero =>
    have all : s.sent = length := whole
    rw [← all]
    exact leading
  | succ fuel ih =>
    by_cases unfinished : s.sent < length
    · rw [sendLoop, if_pos unfinished] at whole ⊢
      dsimp only at whole ⊢
      split at whole
      · exact absurd whole (Nat.ne_of_lt unfinished)
      · rename_i running
        rw [if_neg running]
        split at whole
        · exact absurd whole (Nat.ne_of_lt unfinished)
        · rename_i counted
          rw [if_neg counted]
          refine ih _ ?_ whole
          dsimp only
          rw [leading]
          exact writeLeads net byte length s.sent counted
    · have all : s.sent = length := by
        rw [sendLoopFinished net byte length _ s (by omega)] at whole
        exact whole
      rw [sendLoopFinished net byte length _ s (by omega), ← all]
      exact leading

theorem sendPacketCode {τ : Type} (net : Network τ) (length : Nat) (timer : Timer) (st : St τ) :
    (sendPacket net length timer st).rc = success ↔ (sendRun net length timer st).sent = length := by
  unfold sendPacket
  dsimp only
  split
  · exact ⟨fun _ => by assumption,fun _ => rfl⟩
  · exact ⟨fun h => absurd h failureNotSuccess,fun h => absurd h (by assumption)⟩

/-- sendPacket transmits a leading part of the packet and reports success for the whole
packet alone, on exactly the orderly scripts. -/
theorem sendPacketFaithful (length : Nat) (timer : Timer) (st : St Script) :
    Faithful length timer st ↔
      Orderly length (rounds (st.wire.clock.length + 1) timer st.wire.clock) length st.wire.link.writes := by
  obtain ⟨good,bad⟩ := loopLeaves st.client.buf.byte length (st.wire.clock.length + 1)
    ⟨failure,0,[],timer,st.wire⟩ (Nat.zero_le _) rfl
  simp only [Nat.sub_zero] at good bad
  constructor
  · intro h
    by_contra wild
    obtain ⟨long,code⟩ := bad wild
    have whole : (sendRun scripted length timer st).transmitted = Memory.slice st.client.buf.byte 0 length := by
      apply h.leading.eq_of_length_le
      rw [Memory.sliceLength]
      exact long
    exact code ((sendPacketCode _ _ _ _).mp (h.reported.mpr whole))
  · intro orderly
    obtain ⟨m,fits,out,code⟩ := good orderly
    have leading : (sendRun scripted length timer st).transmitted = Memory.slice st.client.buf.byte 0 m := out
    obtain ⟨more,rfl⟩ := Nat.exists_eq_add_of_le fits
    refine ⟨?_,?_⟩
    · rw [leading, Memory.sliceAppend]
      exact List.prefix_append _ _
    · rw [sendPacketCode, leading]
      refine code.trans ⟨fun whole => ?_,fun same => ?_⟩
      · rw [← whole]
      · have lengths := congrArg List.length same
        simpa only [Memory.sliceLength] using lengths

/- Two bytes to send; the first write takes one, the second is offered two again and
takes a byte that lies behind the packet. -/
def resend : St Script :=
  let blank := St.static ⟨List.replicate 6 ⟨0,0⟩,⟨[],[],[.accept 1,.accept 2]⟩⟩
  { blank with client := { blank.client with buf := .ofList [0xC0,0x00,0xAA,0xBB] } }

theorem resendTransmitsMore :
    (sendRun scripted 2 ⟨20,⟨0,0⟩⟩ resend).transmitted = [0xC0,0x00,0xAA] ∧
      (sendPacket scripted 2 ⟨20,⟨0,0⟩⟩ resend).rc = failure ∧ ¬ Faithful 2 ⟨20,⟨0,0⟩⟩ resend := by
  have out : (sendRun scripted 2 ⟨20,⟨0,0⟩⟩ resend).transmitted = [0xC0,0x00,0xAA] := by decide
  refine ⟨out,by decide,fun h => ?_⟩
  have long := h.leading.length_le
  rw [out, Memory.sliceLength] at long
  exact absurd long (by decide)

end YunbaIot.MqttSend
