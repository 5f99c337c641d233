import YunbaIot.LinkInvariant
import YunbaIot.ListFilling
import YunbaIot.SplitReads

/-! waitfor over any transport: the rounds it makes, and the packets of another type on which
cycle returns the type that is waited for. -/
namespace YunbaIot.WaitFor
open FreeRtosTimer MqttTransport MqttPacket MqttDeserialize MqttClient MqttRead MqttEffects LinkInvariant
open PublishGrammar (remLen start firstByte remainingStart singleByte)
open SplitReads (received receivedGains)

variable {τ : Type}

/-! Rounds -/

/- The timers and states in which waitfor enters cycle: its timer was found running. -/
def rounds (net : Network τ) (type : MsgType) : Nat → Outcome τ → List (Timer × St τ)
  | 0, _ => []
  | fuel+1, o =>
    let check := timerIsExpired o.timer o.st.wire.clock
    let st := o.st.setClock check.clock
    if check.expired then []
    else
      let c := cycle net check.timer st
      (check.timer,st) :: if c.rc = type.code then [] else rounds net type fuel c

def waitforRounds (net : Network τ) (type : MsgType) (timer : Timer) (st : St τ) : List (Timer × St τ) :=
  rounds net type (st.wire.clock.length + 1) ⟨failure,timer,st⟩

def roundOf (net : Network τ) (r : Timer × St τ) : Outcome τ := cycle net r.1 r.2
def readOf (net : Network τ) (r : Timer × St τ) : Outcome τ := readPacket net r.1 r.2

/- The trace only grows. -/
def Extends (a b : St τ) : Prop := ∃ new, b.trace = a.trace ++ new

theorem Extends.same {a b : St τ} (same : b.trace = a.trace) : Extends a b := ⟨[],by rw [same, List.append_nil]⟩
theorem Extends.trans {a b c : St τ} (h : Extends a b) (k : Extends b c) : Extends a c := by
  obtain ⟨first,same⟩ := h
  obtain ⟨second,same'⟩ := k
  exact ⟨first ++ second,by rw [same', same, List.append_assoc]⟩

theorem cycleExtends (net : Network τ) (timer : Timer) (st : St τ) : Extends st (cycle net timer st).st := by
  obtain ⟨new,gained,_⟩ := cycleGains net timer st
  have rest : Extends (readPacket net timer st).st (cycle net timer st).st := ⟨new,gained⟩
  rcases readPacketKind net timer st with ⟨_,same⟩ | ⟨packet,same,_⟩
  · exact Extends.trans (.same same) rest
  · exact Extends.trans ⟨_,same⟩ rest

section Loop
variable {net : Network τ} {type : MsgType}

/- The value waited for comes from a round. -/
theorem loopReturns (fuel : Nat) (o : Outcome τ) (other : o.rc ≠ type.code)
    (returned : (waitforLoop net type fuel o).rc = type.code) :
    ∃ r ∈ rounds net type fuel o, waitforLoop net type fuel o = roundOf net r := by
  induction fuel generalizing o with
  | zero => exact absurd returned other
  | succ fuel ih =>
    rw [waitforLoop] at returned ⊢
    rw [rounds]
    dsimp only at returned ⊢
    split at returned
    · exact absurd returned other
    · rename_i running
      rw [if_neg running, if_neg running]
      split at returned
      · rename_i found
        rw [if_pos found, if_pos found]
        exact ⟨_,List.mem_singleton_self _,rfl⟩
      · rename_i going
        obtain ⟨r,inside,same⟩ := ih _ going returned
        rw [if_neg going, if_neg going]
        exact ⟨r,List.mem_cons_of_mem _ inside,same⟩

/- A round with the value waited for is the last one, and what waitfor returns. -/
theorem roundReturns (fuel : Nat) (o : Outcome τ) {r : Timer × St τ} (inside : r ∈ rounds net type fuel o)
    (found : (roundOf net r).rc = type.code) :
    waitforLoop net type fuel o = roundOf net r ∧ (rounds net type fuel o).getLast? = some r := by
  induction fuel generalizing o with
  | zero => cases inside
  | succ fuel ih =>
    rw [rounds] at inside ⊢
    rw [waitforLoop]
    dsimp only at inside ⊢
    split at inside
    · cases inside
    · rename_i running
      rw [if_neg running, if_neg running]
      split at inside
      · rename_i returns
        rw [List.mem_singleton.mp inside, if_pos returns, if_pos returns]
        exact ⟨rfl,rfl⟩
      · rename_i going
        rw [if_neg going, if_neg going]
        rcases List.mem_cons.mp inside with rfl | later
        · exact absurd found going
        · obtain ⟨same,last⟩ := ih _ later
          exact ⟨same,by rw [List.getLast?_cons, last]; rfl⟩

theorem roundExtends (fuel : Nat) (o : Outcome τ) {r : Timer × St τ} (inside : r ∈ rounds net type fuel o) :
    Extends o.st r.2 := by
  induction fuel generalizing o with
  | zero => cases inside
  | succ fuel ih =>
    rw [rounds] at inside
    dsimp only at inside
    split at inside
    · cases inside
    · rcases List.mem_cons.mp inside with rfl | later
      · exact .same rfl
      · split at later
        · cases later
        · have entered : Extends o.st (o.st.setClock (timerIsExpired o.timer o.st.wire.clock).clock) := .same rfl
          exact (entered.trans (cycleExtends net _ _)).trans (ih _ later)

end Loop

/-! What cycle returns -/

/- A CONNACK with the type waited for as its return code, or a SUBACK with it as the first of
one or two codes, that is read while another type is waited for. -/
def Impostor (type : MsgType) (rc : Int) (byte : Nat → UInt8) : Prop :=
  rc = MsgType.connack.code ∧ type ≠ .connack ∧ 2 ≤ remLen byte ∧ (byte ((start byte).pos + 1)).toNat = type.code ∨
  rc = MsgType.suback.code ∧ type ≠ .suback ∧ 9 ≤ remLen byte ∧ remLen byte ≤ 10 ∧
    (byte ((start byte).pos + 8)).toNat = type.code

theorem codePositive (t : MsgType) : 0 < t.code ∧ t.code < 16 := by cases t <;> decide

theorem codeOther {rc : Int} (small : rc = success ∨ rc = MqttClient.failure) (type : MsgType) : rc ≠ type.code := by
  have positive := codePositive type
  intro same
  rcases small with zero | negative
  · have none : (type.code : Int) = 0 := same.symm.trans zero
    omega
  · have none : (type.code : Int) = -1 := same.symm.trans negative
    omega

theorem connackReturns {byte : Nat → UInt8} (same : MqttHeader.type (byte 0) = MsgType.connack.code) (buflen : Nat)
    (type : MsgType) : connackCode (mqttDeserializeConnack byte buflen) = type.code ↔
      2 ≤ remLen byte ∧ (byte ((start byte).pos + 1)).toNat = type.code := by
  have positive := codePositive type
  by_cases short : remLen byte < 2
  · have none : (mqttDeserializeConnack byte buflen).connackRc = none := by
      simp only [mqttDeserializeConnack, firstByte, same, ne_eq, not_true_eq_false, if_false, remainingStart, if_pos short]
    refine ⟨fun code => ?_,fun long => absurd long.1 (by omega)⟩
    unfold connackCode at code
    split at code
    · rw [none] at code
      have big : (255 : Int) = type.code := code
      omega
    · exact absurd code (codeOther (Or.inr rfl) type)
  · have out : connackCode (mqttDeserializeConnack byte buflen) = (byte ((start byte).pos + 1)).toNat := by
      simp only [mqttDeserializeConnack, firstByte, same, ne_eq, not_true_eq_false, if_false, remainingStart, if_neg short]
      rfl
    rw [out]
    exact ⟨fun code => ⟨by omega,Int.ofNat.inj code⟩,fun h => congrArg Int.ofNat h.2⟩

theorem subackReturns {byte : Nat → UInt8} (same : MqttHeader.type (byte 0) = MsgType.suback.code) {st : St τ}
    (there : st.client.readbuf.byte = byte) (timer : Timer) (type : MsgType) :
    (handleSuback timer st).rc = type.code ↔
      9 ≤ remLen byte ∧ remLen byte ≤ 10 ∧ (byte ((start byte).pos + 8)).toNat = type.code := by
  have left : (start byte).pos + remLen byte - ((start byte).advance 8).pos = remLen byte - 8 := Nat.add_sub_add_left ..
  unfold handleSuback
  dsimp only
  rw [there]
  by_cases short : remLen byte < 2
  · rw [ListFilling.subackShort 1 st.client.readbufSize same short]
    refine ⟨fun code => ?_,fun h => absurd h.1 (by omega)⟩
    dsimp only at code
    split at code
    · exact absurd code (codeOther (Or.inr rfl) type)
    · exact absurd code (codeOther (Or.inl rfl) type)
  · obtain ⟨rc,_,granted⟩ := ListFilling.subackLong 1 st.client.readbufSize same short
    by_cases few : remLen byte ≤ 10
    · obtain ⟨one,codes⟩ := ListFilling.subackLoopWhole byte 1 (remLen byte - 8) []
        ((start byte).advance 8) (Nat.le_of_eq left) (by rw [left, List.length_nil]; omega)
      rw [left, List.nil_append] at codes
      rw [rc, one, granted, codes, if_pos rfl]
      cases count : remLen byte - 8 with
      | zero =>
        refine ⟨fun code => ?_,fun h => ?_⟩
        · exact absurd code (codeOther (Or.inr rfl) type)
        · omega
      | succ n =>
        refine ⟨fun code => ⟨by omega,few,Int.ofNat.inj code⟩,fun h => congrArg Int.ofNat h.2.2⟩
    · have refused := ListFilling.subackLoopRefuses byte 1 (remLen byte - 8) []
        ((start byte).advance 8) (Nat.le_of_eq left) (by rw [left, List.length_nil]; omega) (Nat.zero_le _)
      rw [rc, refused, if_neg (by decide)]
      exact ⟨fun code => absurd code (codeOther (Or.inl rfl) type),fun h => absurd h.2.1 few⟩

theorem sendSerializedCode (net : Network τ) (s : MqttSerialize.Serialized) (timer : Timer) (st : St τ) :
    (sendSerialized net s timer st).rc = success ∨ (sendSerialized net s timer st).rc = MqttClient.failure := by
  unfold sendSerialized sendPacket
  dsimp only
  split
  · exact Or.inr rfl
  · split
    · exact Or.inl rfl
    · exact Or.inr rfl

theorem answerAckCode (net : Network τ) (answer : MsgType) (timer : Timer) (st : St τ) :
    (answerAck net answer timer st).rc = success ∨ (answerAck net answer timer st).rc = MqttClient.failure := by
  unfold answerAck
  dsimp only
  split
  · exact Or.inr rfl
  · split
    · exact Or.inr rfl
    · exact sendSerializedCode net _ timer st

/- Only a CONNACK and a SUBACK make cycle return what the packet holds. -/
theorem handleReturns {net : Network τ} {n : Nat} {timer : Timer} {st : St τ} {type : MsgType}
    (code : (handle net n timer st).rc = type.code) :
    n = MsgType.connack.code ∧
        connackCode (mqttDeserializeConnack st.client.readbuf.byte st.client.readbufSize) = type.code ∨
      n = MsgType.suback.code ∧ (handleSuback timer st).rc = type.code := by
  unfold handle at code
  split at code
  · rename_i connack
    exact Or.inl ⟨MsgType.codeOfCode connack,code⟩
  · refine absurd code (codeOther ?_ type)
    unfold handlePuback
    dsimp only
    split
    · exact Or.inr rfl
    · exact Or.inl rfl
  · rename_i suback
    exact Or.inr ⟨MsgType.codeOfCode suback,code⟩
  · refine absurd code (codeOther ?_ type)
    rw [handlePublishCases]
    split
    · exact Or.inl rfl
    · split
      · exact sendSerializedCode net _ timer st
      · exact Or.inl rfl
  · exact absurd code (codeOther (answerAckCode net .pubrel timer st) type)
  · exact absurd code (codeOther (answerAckCode net .pubcomp timer st) type)
  · exact absurd code (codeOther (Or.inl rfl) type)
  · refine absurd code (codeOther ?_ type)
    unfold handleExtcmd
    dsimp only
    split <;> exact Or.inl rfl
  · exact absurd code (codeOther (Or.inl rfl) type)

section Cycle
variable {net : Network τ} {timer : Timer} {st : St τ} {type : MsgType}

theorem readType {t : MsgType} (code : (readPacket net timer st).rc = t.code) :
    MqttHeader.type ((readPacket net timer st).st.client.readbuf.byte 0) = t.code ∧
      packetType (readPacket net timer st).rc = t.code := by
  have positive := codePositive t
  rcases readPacketReceived net timer st with ⟨failed,_⟩ | ⟨type,_⟩
  · have negative : (-1 : Int) = t.code := failed.symm.trans code
    omega
  · refine ⟨Int.ofNat.inj (type.symm.trans code),?_⟩
    rw [code]
    unfold packetType
    omega

theorem packetTypeCode {t : MsgType} (code : packetType (readPacket net timer st).rc = t.code) :
    (readPacket net timer st).rc = t.code := by
  have positive := codePositive t
  rcases readPacketReceived net timer st with ⟨failed,_⟩ | ⟨type,_⟩
  · rw [failed] at code
    have wide : 65535 = t.code := code
    omega
  · rw [type, packetTypeByte] at code
    rw [type, code]

/- Without an impostor the type that cycle returns is that of what it read. -/
theorem returnsRead (code : (cycle net timer st).rc = type.code)
    (genuine : ¬ Impostor type (readPacket net timer st).rc (readPacket net timer st).st.client.readbuf.byte) :
    (readPacket net timer st).rc = type.code := by
  unfold cycle at code
  dsimp only at code
  split at code
  · exact packetTypeCode (Int.ofNat.inj code)
  · by_contra other
    rcases handleReturns code with ⟨connack,value⟩ | ⟨suback,value⟩
    · have read := packetTypeCode connack
      refine genuine (Or.inl ⟨read,fun same => other (same ▸ read),?_⟩)
      exact (connackReturns (readType read).1 _ type).mp value
    · have read := packetTypeCode suback
      refine genuine (Or.inr ⟨read,fun same => other (same ▸ read),?_⟩)
      exact (subackReturns (readType read).1 rfl _ type).mp value

/- What the handler of a packet returns as a type is what cycle returns. -/
theorem handledReturns (code : (handle net (packetType (readPacket net timer st).rc) (readPacket net timer st).timer
    (readPacket net timer st).st).rc = type.code) : (cycle net timer st).rc = type.code := by
  have nonzero : ((type.code : Nat) : Int) ≠ success := fun zero => codeOther (Or.inl rfl) type zero.symm
  unfold cycle
  dsimp only
  rw [code, if_neg nonzero]

theorem impostorReturns
    (impostor : Impostor type (readPacket net timer st).rc (readPacket net timer st).st.client.readbuf.byte) :
    (cycle net timer st).rc = type.code ∧ (readPacket net timer st).rc ≠ type.code := by
  rcases impostor with ⟨read,other,held⟩ | ⟨read,other,held⟩
  · obtain ⟨header,kind⟩ := readType read
    have code := (connackReturns header (readPacket net timer st).st.client.readbufSize type).mpr held
    refine ⟨handledReturns (by rw [kind]; exact code),fun same => other ?_⟩
    exact MsgType.codeInjective (Int.ofNat.inj (same.symm.trans read))
  · obtain ⟨header,kind⟩ := readType read
    have code := (subackReturns header rfl (readPacket net timer st).timer type).mpr held
    refine ⟨handledReturns (by rw [kind]; exact code),fun same => other ?_⟩
    exact MsgType.codeInjective (Int.ofNat.inj (same.symm.trans read))

/- The packet a round reports is the last one in the trace behind it. -/
theorem cycleReceived {t : MsgType} (code : (readPacket net timer st).rc = t.code) :
    ∃ packet, received (cycle net timer st).st.trace = received st.trace ++ [packet] ∧
      packetKind packet = some t.code := by
  rcases readPacketKind net timer st with ⟨failed,_⟩ | ⟨packet,same,kind⟩
  · exact absurd code (codeOther (Or.inr failed) t)
  · refine ⟨packet,?_,?_⟩
    · rw [receivedGains (cycleGains net timer st), same, received, List.filterMap_append]
      rfl
    · rw [kind, (readType code).2]

end Cycle

def Genuine (net : Network τ) (type : MsgType) (r : Timer × St τ) : Prop :=
  ¬ Impostor type (readOf net r).rc (readOf net r).st.client.readbuf.byte

/- cycle returns the type only for a packet of this type. -/
def CycleReturns (net : Network τ) (type : MsgType) (r : Timer × St τ) : Prop :=
  (roundOf net r).rc = type.code → (readOf net r).rc = type.code

/- waitfor returns the type only where the last packet it read is one of this type. -/
def WaitforReturns (net : Network τ) (type : MsgType) (timer : Timer) (st : St τ) : Prop :=
  (waitfor net type timer st).rc = type.code → ∃ packets packet,
    received (waitfor net type timer st).st.trace = received st.trace ++ packets ++ [packet] ∧
      packetKind packet = some type.code

theorem cycleExact (net : Network τ) (type : MsgType) (r : Timer × St τ) :
    CycleReturns net type r ↔ Genuine net type r := by
  refine ⟨fun returns impostor => ?_,fun genuine code => returnsRead code genuine⟩
  obtain ⟨code,other⟩ := impostorReturns impostor
  exact other (returns code)

theorem extendsReceived {a b : St τ} (h : Extends a b) : ∃ packets, received b.trace = received a.trace ++ packets := by
  obtain ⟨new,same⟩ := h
  exact ⟨received new,by rw [same, received, List.filterMap_append]⟩

/- A wait that ends with the type behind another packet. -/
theorem otherReturns {net : Network τ} {type : MsgType} {timer : Timer} {st : St τ} {before : List (List UInt8)}
    {last : List UInt8} (code : (waitfor net type timer st).rc = type.code)
    (trace : received (waitfor net type timer st).st.trace = before ++ [last])
    (other : packetKind last ≠ some type.code) : ¬ WaitforReturns net type timer st := by
  intro returns
  obtain ⟨packets,packet,trace',kind⟩ := returns code
  rw [trace] at trace'
  have same := (List.append_inj' trace' rfl).2
  rw [(List.cons.inj same).1] at other
  exact other kind

/-- cycle returns, and waitfor ends with, the type waited for only for a packet of this type,
exactly where no packet of another type carries the type as its value: for a wait, none that
one of its rounds reads. -/
theorem waitforExact (net : Network τ) (type : MsgType) :
    (∀ r, CycleReturns net type r ↔ Genuine net type r) ∧
    (∀ timer st, WaitforReturns net type timer st ↔ ∀ r ∈ waitforRounds net type timer st, Genuine net type r) := by
  refine ⟨cycleExact net type,fun timer st => ⟨fun returns r inside impostor => ?_,fun genuine code => ?_⟩⟩
  · obtain ⟨code,other⟩ := impostorReturns impostor
    obtain ⟨ends,_⟩ := roundReturns _ _ inside code
    have result : waitfor net type timer st = roundOf net r := ends
    have last : ∀ t : MsgType, (readOf net r).rc = t.code → False := by
      intro t read
      obtain ⟨packet,trace,kind⟩ := cycleReceived read
      refine otherReturns (by rw [result]; exact code) (by rw [result]; exact trace) (fun same => ?_) returns
      rw [kind] at same
      exact other (read.trans (congrArg Int.ofNat (Option.some.inj same)))
    rcases impostor with ⟨read,_⟩ | ⟨read,_⟩
    · exact last .connack read
    · exact last .suback read
  · obtain ⟨r,inside,result⟩ := loopReturns _ _ (codeOther (Or.inr rfl) type) code
    have ends : waitfor net type timer st = roundOf net r := result
    have read := returnsRead (by rw [← show _ = (cycle net r.1 r.2) from ends]; exact code) (genuine r inside)
    obtain ⟨packets,before⟩ := extendsReceived (roundExtends _ _ inside)
    obtain ⟨packet,trace,kind⟩ := cycleReceived read
    refine ⟨packets,packet,?_,kind⟩
    rw [ends]
    exact trace.trans (congrArg (· ++ [packet]) before)

/- A client that waits with these bytes on the way to it. -/
def waiting (incoming : List UInt8) : St (List UInt8) :=
  let blank := St.static ⟨List.replicate 40 ⟨0,0⟩,incoming⟩
  { blank with client := { blank.client with readbufSize := 100 } }

/- A CONNACK of return code 11 ends the wait for an UNSUBACK, and a SUBACK that grants QoS 2
the wait for a CONNACK. -/
theorem connackTaken :
    ¬ WaitforReturns pipe .unsuback ⟨20,⟨0,0⟩⟩ (waiting [0x20,2,0,11]) ∧
      ¬ WaitforReturns pipe .connack ⟨20,⟨0,0⟩⟩ (waiting [0x90,9,0,0,0,0,0,0,0,7,2]) := by
  have connack : received (waitfor pipe .unsuback ⟨20,⟨0,0⟩⟩ (waiting [0x20,2,0,11])).st.trace =
      [] ++ [[0x20,2,0,11]] := by decide
  have suback : received (waitfor pipe .connack ⟨20,⟨0,0⟩⟩ (waiting [0x90,9,0,0,0,0,0,0,0,7,2])).st.trace =
      [] ++ [[0x90,9,0,0,0,0,0,0,0,7,2]] := by decide
  exact ⟨otherReturns (by decide) connack (by decide),otherReturns (by decide) suback (by decide)⟩

end YunbaIot.WaitFor
