import YunbaIot.MqttEffects
import YunbaIot.MqttRead

/-! What every read and every write of a transport keeps is kept by a round of cycle and by
the calls around it, whatever the transport does between two of its calls. -/
namespace YunbaIot.LinkInvariant
open FreeRtosTimer MqttTransport MqttPacket MqttSerialize MqttClient MqttRead MqttEffects

variable {τ : Type} {net : Network τ} {kept : Wire τ → Prop}

structure ReadKeeps (net : Network τ) (kept : Wire τ → Prop) : Prop where
  read : ∀ len ms w, kept w → kept (net.mqttread len ms w).2
  look : ∀ w clock, clock.length ≤ w.clock.length → kept w → kept { w with clock := clock }

structure Stays (kept : Wire τ → Prop) (a b : St τ) : Prop where
  wire : kept a.wire → kept b.wire
  bufSize : b.client.bufSize = a.client.bufSize

theorem Stays.trans {a b c : St τ} (h : Stays kept a b) (k : Stays kept b c) : Stays kept a c :=
  ⟨fun ok => k.wire (h.wire ok),k.bufSize.trans h.bufSize⟩
theorem keepsStays {a b : St τ} (h : Keeps kept a b) : Stays kept a b := ⟨h.wire,h.bufSize⟩

theorem askKept (reads : ReadKeeps net kept) (len : Nat) (timer : Timer) {wire : Wire τ} (ok : kept wire) :
    kept (ask net len timer wire).wire := reads.read _ _ _ (reads.look _ _ (leftClock timer wire.clock) ok)

theorem readPacketKept (reads : ReadKeeps net kept) (timer : Timer) (st : St τ) (ok : kept st.wire) :
    kept (readPacket net timer st).st.wire := by
  have first : kept (head net timer st).wire := askKept reads 1 timer ok
  have length : kept (field net timer st).2 :=
    Base128.fieldKeeps (fun w => reads.read 1 _ w) _ (reads.look _ _ (leftClock _ _) first)
  have rest : kept (body net timer st).wire := askKept reads _ _ length
  by_cases arrived : (head net timer st).result.rc = 1
  · rw [withHeader net timer st arrived]
    split
    · split
      · exact rest
      · exact rest
    · exact length
  · rw [noHeader net timer st arrived]
    exact first

theorem readPacketStays (reads : ReadKeeps net kept) (timer : Timer) (st : St τ) :
    Stays kept st (readPacket net timer st).st := by
  refine ⟨readPacketKept reads timer st,?_⟩
  rw [readPacketClient]

theorem cycleStays (reads : ReadKeeps net kept) (writes : WriteKeeps net kept) (timer : Timer) (st : St τ) :
    Stays kept st (cycle net timer st).st :=
  (readPacketStays reads timer st).trans (keepsStays (cycleKeeps writes timer st))

/- CONNECT goes out behind two looks at the clock. -/
theorem sendConnectCases (net : Network τ) (options : Option ConnectData) (st : St τ) :
    ∃ timer st', sendConnect net options st =
        sendSerialized net (mqttSerializeConnect st.client.bufSize (options.getD ConnectData.initializer)) timer st' ∧
      st'.wire = { st.wire with clock := st'.wire.clock } ∧ st'.wire.clock.length ≤ st.wire.clock.length ∧
      st'.client.bufSize = st.client.bufSize :=
  ⟨_,_,rfl,rfl,Nat.le_trans (countdownClock _ _) (countdownClock _ _),rfl⟩

theorem sendConnectStays (writes : WriteKeeps net kept) (options : Option ConnectData) (st : St τ) :
    Stays kept st (sendConnect net options st).st := by
  obtain ⟨timer,st',same,wire,less,size⟩ := sendConnectCases net options st
  have sends := keepsStays (sendSerializedKeeps writes
    (mqttSerializeConnect st.client.bufSize (options.getD ConnectData.initializer)) timer st')
  rw [same]
  refine Stays.trans ⟨fun ok => ?_,size⟩ sends
  rw [wire]
  exact writes.look _ _ less ok

theorem disconnectStays (writes : WriteKeeps net kept) (st : St τ) : Stays kept st (mqttDisconnect net st).2 := by
  have sends := sendSerializedKeeps writes (mqttSerializeDisconnect st.client.bufSize) (commandTimer st).timer
    (st.setClock (commandTimer st).clock)
  exact ⟨fun ok => sends.wire (writes.look _ _ (countdownClock _ _) ok),sends.bufSize⟩

/-! Incoming packets -/

/- A call that does not fail returns the type of the packet it reports. -/
theorem readPacketKind (net : Network τ) (timer : Timer) (st : St τ) :
    (readPacket net timer st).rc = failure ∧ (readPacket net timer st).st.trace = st.trace ∨
    ∃ packet, (readPacket net timer st).st.trace = st.trace ++ [.received packet] ∧
      packetKind packet = some (packetType (readPacket net timer st).rc) := by
  rcases readPacketReceived net timer st with failed | ⟨type,received,_⟩
  · exact Or.inl failed
  · right
    refine ⟨_,received,?_⟩
    have header : 0 < bodyAt net timer st + announced net timer st := by
      have behind := bodyAtPositive net timer st
      omega
    rw [packetKind, Memory.sliceHead _ 0 header, type]
    exact congrArg some (packetTypeByte _).symm

/-! The rounds of waitfor -/

theorem anyReads (net : Network τ) : ReadKeeps net fun _ => True :=
  ⟨fun _ _ _ _ => trivial,fun _ _ _ _ => trivial⟩
theorem shorterReads (net : Network τ) (n : Nat) : ReadKeeps net fun w => w.clock.length ≤ n :=
  ⟨fun _ _ w short => Nat.le_trans (net.readClock _ _ w) short,fun _ _ less short => Nat.le_trans less short⟩
theorem shorterWrites (net : Network τ) (n : Nat) : WriteKeeps net fun w => w.clock.length ≤ n :=
  ⟨fun _ _ w short => Nat.le_trans (net.writeClock _ _ w) short,fun _ _ less short => Nat.le_trans less short⟩

theorem cycleClock (net : Network τ) (timer : Timer) (st : St τ) :
    (cycle net timer st).st.wire.clock.length ≤ st.wire.clock.length :=
  (cycleStays (shorterReads net _) (shorterWrites net _) timer st).wire (Nat.le_refl _)

/- A round of waitfor that goes on has used up a reading. -/
theorem roundClock (net : Network τ) {timer : Timer} {st : St τ}
    (running : ¬ (timerIsExpired timer st.wire.clock).expired = true) :
    (cycle net (timerIsExpired timer st.wire.clock).timer
      (st.setClock (timerIsExpired timer st.wire.clock).clock)).st.wire.clock.length < st.wire.clock.length :=
  Nat.lt_of_le_of_lt (cycleClock net _ _) (runningClock (Bool.eq_false_iff.mpr running))

/- The fuel of waitfor lasts. -/
theorem waitforLoopStable (type : MsgType) (fuel other : Nat) (o : Outcome τ)
    (enough : o.st.wire.clock.length < fuel) (enough' : o.st.wire.clock.length < other) :
    waitforLoop net type fuel o = waitforLoop net type other o := by
  induction fuel generalizing other o with
  | zero => omega
  | succ fuel ih =>
    cases other with
    | zero => omega
    | succ other =>
      unfold waitforLoop
      dsimp only
      split
      · rfl
      · rename_i running
        have shorter := roundClock net running
        split
        · rfl
        · exact ih other _ (by omega) (by omega)

/-! A round that has nothing to send -/

/- The packet in readbuf is one that is answered. -/
def Asks (type : Nat) (st : St τ) : Prop :=
  match MsgType.ofCode type with
  | some .publish =>
    let out := MqttDeserialize.mqttDeserializePublish st.client.readbuf.byte st.client.readbufSize
    out.rc = 1 ∧ (publishMessage st.client.readbuf.byte out).qos ≠ 0
  | some .pubrec | some .pubrel =>
    (MqttDeserialize.mqttDeserializeAck st.client.readbuf.byte st.client.readbufSize).rc = 1
  | _ => False

def PingDue (st : St τ) : Prop :=
  st.client.keepAliveInterval ≠ 0 ∧ (timerIsExpired st.client.pingTimer st.wire.clock).expired = true

/- What cycle read asks for no answer, and keepalive is skipped or finds the ping timer
running. -/
structure Quiet (net : Network τ) (timer : Timer) (st : St τ) : Prop where
  unasked : ¬ Asks (packetType (readPacket net timer st).rc) (readPacket net timer st).st
  unpinged :
    let p := readPacket net timer st
    let h := handle net (packetType p.rc) p.timer p.st
    h.exit = true ∨ ¬ PingDue h.st

theorem unaskedHandle (net : Network τ) {type : Nat} {st : St τ} (unasked : ¬ Asks type st) (timer : Timer) :
    (handle net type timer st).st.wire = st.wire := by
  unfold handle
  unfold Asks at unasked
  split
  · unfold handleConnack
    dsimp only
    split <;> rfl
  · rfl
  · rfl
  · rename_i publish
    rw [publish] at unasked
    rw [handlePublishCases]
    split
    · rfl
    · rename_i accepted
      split
      · rename_i asks
        exact absurd ⟨not_not.mp accepted,asks⟩ unasked
      · rfl
  · rename_i pubrec
    rw [pubrec] at unasked
    unfold handlePubrec
    rw [answerAckCases, if_pos unasked]
  · rename_i pubrel
    rw [pubrel] at unasked
    unfold handlePubrel
    rw [answerAckCases, if_pos unasked]
  · rfl
  · rcases handleExtcmdState timer st with same | same
    · rw [same]
    · rw [same]
      unfold deliverextMessage
      split <;> rfl
  · rfl

/- keepalive without a ping only looks at its timer. -/
theorem keepaliveIdle (net : Network τ) {st : St τ} (idle : ¬ PingDue st) :
    (keepalive net st).2.wire.link = st.wire.link ∧ (keepalive net st).2.trace = st.trace ∧
      Still st (keepalive net st).2 := by
  unfold keepalive
  split
  · exact ⟨rfl,rfl,.refl st⟩
  · rename_i pings
    have running : (timerIsExpired st.client.pingTimer st.wire.clock).expired ≠ true :=
      fun expired => idle ⟨pings,expired⟩
    dsimp only
    rw [if_neg running]
    exact ⟨rfl,rfl,rfl,rfl⟩

/- A quiet round only reads. -/
theorem quietLink {timer : Timer} {st : St τ} (quiet : Quiet net timer st) :
    (cycle net timer st).st.wire.link = (readPacket net timer st).st.wire.link := by
  have same := unaskedHandle net quiet.unasked (readPacket net timer st).timer
  rw [cycleSt]
  split
  · rw [same]
  · rename_i entered
    have undue := quiet.unpinged.resolve_left entered
    rw [(keepaliveIdle net undue).1, same]

end YunbaIot.LinkInvariant
