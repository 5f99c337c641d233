import YunbaIot.Incoming
import YunbaIot.MqttSend

/-! The acknowledgements that go out over runs of cycle whose calls get whole packets, on a
transport that takes every byte. sendPacket looks at the timer of the call before it writes, so an answer goes out
only while that timer runs. -/
namespace YunbaIot.AckLaw
open FreeRtosTimer MqttTransport MqttPacket MqttSerialize MqttClient MqttRead Framing MqttEffects Incoming

variable {τ : Type} {net : Network τ} {st : St τ} {calls : List Call}

-- what goes out for packets other than PINGREQ
def transmissions (trace : List Event) : List (List UInt8) := trace.filterMap fun
  | .sendPacket packet transmitted _ =>
    if packetKind packet = some MsgType.pingreq.code ∨ transmitted = [] then none else some transmitted
  | _ => none

def ackPacket (t : MsgType) (id : UInt64) : List UInt8 :=
  MqttHeader.byte t.code 0 (if t = .pubrel then 1 else 0) 0 :: 8 :: writeInt64 id
def reply (c : Content) : List (List UInt8) := (c.answer.map fun answer => ackPacket answer.1 answer.2).toList

/- The timer of the call has run out when sendPacket looks at it. -/
def late (net : Network τ) (timer : Timer) (st : St τ) : Bool :=
  (timerIsExpired (readPacket net timer st).timer (readPacket net timer st).st.wire.clock).expired

def acknowledges (net : Network τ) (st : St τ) (call : Call) : List (List UInt8) :=
  if late net call.2 st then [] else call.1.elim [] fun a => reply a.content

theorem transmissionsAppend (before behind : List Event) :
    transmissions (before ++ behind) = transmissions before ++ transmissions behind := List.filterMap_append

/- A transport that takes every byte takes the packet in one write, if there is one. -/
theorem sendRunWhole (writes : WritesAll net) {length : Nat} (some : 0 < length) (timer : Timer) (st : St τ) :
    (sendRun net length timer st).transmitted =
      if (timerIsExpired timer st.wire.clock).expired then [] else Memory.slice st.client.buf.byte 0 length := by
  unfold sendRun sendLoop
  rw [if_pos some]
  dsimp only
  split
  · rfl
  · rw [writes.write]
    dsimp only
    rw [if_neg (by omega), MqttSend.sendLoopFinished _ _ _ _ _ (by simp)]
    simp only [Memory.sliceLength, List.nil_append]
    exact Memory.sliceTake st.client.buf.byte 0 (Nat.le_refl length)

theorem ackSerialized {bufSize : Nat} (room : 10 ≤ bufSize) (t : MsgType) (id : UInt64) :
    mqttSerializeAck bufSize t.code 0 id = done (ackPacket t id) := by
  unfold mqttSerializeAck
  rw [if_neg (by omega)]
  cases t <;> rfl

theorem ackTransmitted (writes : WritesAll net) (room : 10 ≤ st.client.bufSize) {t : MsgType} (other : t ≠ .pingreq)
    (id : UInt64) (timer : Timer) :
    transmissions (sentEvents net (mqttSerializeAck st.client.bufSize t.code 0 id) timer st) =
      if (timerIsExpired timer st.wire.clock).expired then [] else [ackPacket t id] := by
  have code : packetKind (ackPacket t id) = some t.code := by cases t <;> rfl
  have kind : packetKind (ackPacket t id) ≠ some MsgType.pingreq.code := by
    rw [code]
    exact fun same => other (MsgType.codeInjective (Option.some.inj same))
  have nonempty : ackPacket t id ≠ [] := by simp [ackPacket]
  have size : (done (ackPacket t id)).rc = ((10 : Nat) : Int) := rfl
  have out := sendRunWhole writes (by decide : 0 < 10) timer (st.emit (ackPacket t id))
  have whole : Memory.slice (st.emit (ackPacket t id)).client.buf.byte 0 10 = ackPacket t id :=
    emittedSlice st (ackPacket t id)
  have clock : (st.emit (ackPacket t id)).wire.clock = st.wire.clock := rfl
  have packet : (done (ackPacket t id)).written = ackPacket t id := rfl
  rw [whole, clock] at out
  unfold sentEvents
  rw [ackSerialized room, size, if_neg (by decide), Int.toNat_natCast, packet, out]
  cases (timerIsExpired timer st.wire.clock).expired with
  | true => simp [transmissions]
  | false => simp [transmissions, kind, nonempty]

theorem answerKind {c : Content} {t : MsgType} {id : UInt64} (asks : c.answer = some (t,id)) : t ≠ .pingreq := by
  unfold Content.answer at asks
  split at asks
  · split at asks <;> cases asks <;> decide
  · cases asks
    decide
  · cases asks
    decide
  · cases asks

theorem transmissionsEffects (writes : WritesAll net) (room : 10 ≤ st.client.bufSize) (call : Call) :
    transmissions (effects net call.2 st call.1) = acknowledges net st call := by
  obtain ⟨arrival,timer⟩ := call
  cases arrival with
  | none => simp [effects, acknowledges, transmissions]
  | some a =>
    have received : transmissions [.received a.packet.canonical] = [] := rfl
    have delivered : transmissions (deliveries a.content) = [] := by
      unfold deliveries
      cases a.content.handled <;> rfl
    have size : 10 ≤ (readPacket net timer st).st.client.bufSize := by
      rw [readPacketClient]
      exact room
    rw [effects, transmissionsAppend, transmissionsAppend, received, delivered, List.nil_append, List.append_nil]
    unfold answers acknowledges reply late
    cases asks : a.content.answer with
    | none => simp [transmissions, asks]
    | some answer =>
      rw [Option.elim_some, asks]
      exact ackTransmitted writes size (answerKind asks) answer.2 _

theorem transmissionsCycle (writes : WritesAll net) (room : 10 ≤ st.client.bufSize) {call : Call}
    (serves : Serves net call.2 st call.1) :
    transmissions (step net st call).trace = transmissions st.trace ++ acknowledges net st call := by
  obtain ⟨quiet,same,ok⟩ := serves.trace
  have silent : transmissions quiet = [] := List.filterMap_eq_nil_iff.mpr fun e inside => by
    rcases ok e inside with ⟨_,_,_,rfl⟩ | rfl | send
    · rfl
    · rfl
    · cases e with
      | sendPacket packet out rc => exact if_pos (Or.inl send)
      | received | message | extMessage | threadStart | clientInit | disconnected => rfl
  rw [step, same, transmissionsAppend, transmissionsAppend, silent, transmissionsEffects writes room,
    List.append_nil]

/-- In a run of calls that each get a whole packet or nothing, what cycle sends apart from
pings is, in order, the acknowledgement of every packet that asks for one and whose call
still has time when the answer is sent. -/
theorem acknowledgementLaw (writes : WritesAll net) (room : 10 ≤ st.client.bufSize)
    (whole : Undivided net st calls) :
    transmissions (cycles net st calls).trace =
      transmissions st.trace ++ Run.outputs (step net) (acknowledges net) st calls :=
  Run.runOutputs (step net) (fun st calls => Undivided net st calls ∧ 10 ≤ st.client.bufSize)
    (fun st => transmissions st.trace) (acknowledges net) (fun _ _ _ ⟨⟨gets,rest⟩,room⟩ => by
      have serves := getsServes gets
      refine ⟨⟨rest,?_⟩,transmissionsCycle writes room serves⟩
      rw [step, serves.bufSize]
      exact room) ⟨whole,room⟩

def asked : Publish := .letters (.qos1 7)
def askedCalls : List Call := [(some ((Content.publish asked).arrival (by decide)),⟨20,⟨0,0⟩⟩)]
def asking (clock : List Tick) : St (List UInt8) :=
  let st := (reading 20 [0x32,12,0,1,0x61,0,0,0,0,0,0,0,7,0x62]).setClock clock
  { st with client := { st.client with bufSize := 10 } }

theorem askingUndivided (clock : List Tick) : Undivided pipe (asking clock) askedCalls :=
  ⟨⟨⟨rfl,rfl,fun _ => rfl⟩,(by decide : 14 ≤ 20)⟩,trivial⟩

theorem askedAnswered : transmissions (cycles pipe (asking (List.replicate 9 ⟨0,0⟩)) askedCalls).trace =
    transmissions (asking (List.replicate 9 ⟨0,0⟩)).trace ++
      Run.outputs (step pipe) (acknowledges pipe) (asking (List.replicate 9 ⟨0,0⟩)) askedCalls :=
  acknowledgementLaw pipeWrites (by decide) (askingUndivided _)

/- The 200 ms of the call are over when its QoS 1 PUBLISH has been read: no PUBACK. -/
theorem lateUnanswered : Undivided pipe (asking [⟨0,0⟩,⟨0,0⟩,⟨0,0⟩,⟨0,20⟩]) askedCalls ∧
    transmissions (cycles pipe (asking [⟨0,0⟩,⟨0,0⟩,⟨0,0⟩,⟨0,20⟩]) askedCalls).trace = [] ∧
      ¬ transmissions (cycles pipe (asking [⟨0,0⟩,⟨0,0⟩,⟨0,0⟩,⟨0,20⟩]) askedCalls).trace =
        askedCalls.flatMap fun call => call.1.elim [] fun a => reply a.content := by
  exact ⟨askingUndivided _,by decide,by decide⟩

end YunbaIot.AckLaw
