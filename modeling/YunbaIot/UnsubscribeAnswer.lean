import YunbaIot.MqttSend
import YunbaIot.WaitFor

/-! MQTTUnsubscribe over any transport: on which packets it takes its UNSUBSCRIBE for answered,
which of them carry its packet id, and which came in time. -/
namespace YunbaIot.UnsubscribeAnswer
open FreeRtosTimer MqttTransport MqttPacket MqttSerialize MqttClient MqttEffects LinkInvariant WaitFor
open MqttSend (sendPacketCode sendLoopTransmitted)

variable {τ : Type} (net : Network τ) (topicFilter : CString) (st : St τ)

def requestId : UInt64 := (getNextPacketId (st.setClock (commandTimer st).clock)).1
def request : Serialized := mqttSerializeUnsubscribe st.client.bufSize 0 (requestId st) [⟨some topicFilter,none⟩]

/- An UNSUBACK with this id behind its length field. -/
def UnsubackOf (id : UInt64) (packet : List UInt8) : Prop :=
  ∃ header rest, packet = header :: (mqttPacketEncode (8 + rest.length) ++ (writeInt64 id ++ rest)) ∧
    MqttHeader.type header = MsgType.unsuback.code

/- The rounds of the wait, each entered while the command timer was running. There are none
without a connection or behind a failed send. -/
def answerRounds : List (Timer × St τ) :=
  if st.client.isconnected = 0 then []
  else
    let sent := sendUnsubscribe net topicFilter st
    if sent.rc ≠ success then [] else waitforRounds net .unsuback sent.timer sent.st

def Reads (r : Timer × St τ) (packet : List UInt8) : Prop :=
  (readOf net r).st.trace = r.2.trace ++ [.received packet]

/- The command timer is still running behind the read. TimerLeftMS gives the old timeout
again once the timer has run out, so a read may bring its packet later. -/
def InTime (r : Timer × St τ) : Prop :=
  (timerIsExpired (readOf net r).timer (readOf net r).st.wire.clock).expired = false

structure Answered : Prop where
  sent : (sendUnsubscribe net topicFilter st).st.trace =
    st.trace ++ [.sendPacket (request topicFilter st).written (request topicFilter st).written success]
  answer : ∃ r ∈ answerRounds net topicFilter st, InTime net r ∧
    ∃ packet, Reads net r packet ∧ UnsubackOf (requestId st) packet

def SuccessAnswered : Prop := (mqttUnsubscribe net topicFilter st).1 = success → Answered net topicFilter st

/- No other packet is taken for an UNSUBACK, and an UNSUBACK carries the id and is in time. -/
structure Proper (id : UInt64) (r : Timer × St τ) : Prop where
  genuine : Genuine net .unsuback r
  carries : ∀ packet, Reads net r packet → packetKind packet = some MsgType.unsuback.code →
    UnsubackOf id packet ∧ InTime net r

variable {net topicFilter st}

/-! The request -/

/- A send that succeeds has transmitted the packet. -/
theorem sendSerializedWhole {s : Serialized} {t : MsgType} (opens : Opens s t) {timer : Timer} {st : St τ}
    (code : (sendSerialized net s timer st).rc = success) :
    (sendSerialized net s timer st).st.trace = st.trace ++ [.sendPacket s.written s.written success] := by
  have trace := sendSerializedTrace net opens timer st
  rw [trace, sentEvents]
  by_cases none : s.rc ≤ 0
  · have failed : (sendSerialized net s timer st).rc = MqttClient.failure := by
      unfold sendSerialized
      rw [if_pos none]
    exact absurd (failed.symm.trans code) failureNotSuccess
  · have whole := (opens.resolve_left none).1
    have length : s.rc.toNat = s.written.length := by
      rw [whole, Int.toNat_natCast]
    have packet : (sendSerialized net s timer st).rc =
        (sendPacket net s.written.length timer (st.emit s.written)).rc := by
      unfold sendSerialized
      rw [if_neg none, length]
    rw [packet] at code
    have transmitted := sendLoopTransmitted net (st.emit s.written).client.buf.byte s.written.length
      ((st.emit s.written).wire.clock.length + 1) ⟨MqttClient.failure,0,[],timer,(st.emit s.written).wire⟩ rfl
      ((sendPacketCode net s.written.length timer (st.emit s.written)).mp code)
    rw [emittedSlice] at transmitted
    rw [if_neg none, length, packet, code]
    exact congrArg (fun bs => st.trace ++ [.sendPacket s.written bs success]) transmitted

theorem requestSent (code : (sendUnsubscribe net topicFilter st).rc = success) :
    (sendUnsubscribe net topicFilter st).st.trace =
      st.trace ++ [.sendPacket (request topicFilter st).written (request topicFilter st).written success] :=
  sendSerializedWhole (unsubscribeOpens _ _ _ _) code

/-! The answer -/

/- Once the wait ends with UNSUBACK the result is the one of the send. -/
theorem successExact : (mqttUnsubscribe net topicFilter st).1 = success ↔ st.client.isconnected ≠ 0 ∧
    (sendUnsubscribe net topicFilter st).rc = success ∧
    (waitfor net .unsuback (sendUnsubscribe net topicFilter st).timer (sendUnsubscribe net topicFilter st).st).rc =
      MsgType.unsuback.code := by
  unfold mqttUnsubscribe
  by_cases off : st.client.isconnected = 0
  · rw [if_pos off]
    exact iff_of_false failureNotSuccess fun h => h.1 off
  · rw [if_neg off]
    dsimp only
    by_cases lost : (sendUnsubscribe net topicFilter st).rc ≠ success
    · rw [if_pos lost]
      exact iff_of_false lost fun h => lost h.2.1
    · have sent := not_not.mp lost
      rw [if_neg lost, awaitUnsuback]
      dsimp only
      split
      · rename_i ended
        refine iff_of_true ?_ ⟨off,sent,ended⟩
        dsimp only
        split
        · rfl
        · exact sent
      · rename_i other
        exact iff_of_false failureNotSuccess fun h => other h.2.2

theorem answerRoundsSent {r : Timer × St τ} (inside : r ∈ answerRounds net topicFilter st) :
    st.client.isconnected ≠ 0 ∧ (sendUnsubscribe net topicFilter st).rc = success ∧
      r ∈ waitforRounds net .unsuback (sendUnsubscribe net topicFilter st).timer (sendUnsubscribe net topicFilter st).st := by
  unfold answerRounds at inside
  split at inside
  · cases inside
  · rename_i on
    dsimp only at inside
    split at inside
    · cases inside
    · rename_i sent
      exact ⟨on,not_not.mp sent,inside⟩

theorem answerRoundsOf (on : st.client.isconnected ≠ 0) (sent : (sendUnsubscribe net topicFilter st).rc = success) :
    answerRounds net topicFilter st = waitforRounds net .unsuback (sendUnsubscribe net topicFilter st).timer
      (sendUnsubscribe net topicFilter st).st := by
  unfold answerRounds
  rw [if_neg on, if_neg (not_not.mpr sent)]

/- A round that ends the wait makes the call succeed. -/
theorem roundSucceeds {r : Timer × St τ} (inside : r ∈ answerRounds net topicFilter st)
    (code : (roundOf net r).rc = MsgType.unsuback.code) : (mqttUnsubscribe net topicFilter st).1 = success := by
  obtain ⟨on,sent,round⟩ := answerRoundsSent inside
  obtain ⟨ends,_⟩ := roundReturns _ _ round code
  have result : waitfor net .unsuback (sendUnsubscribe net topicFilter st).timer
      (sendUnsubscribe net topicFilter st).st = roundOf net r := ends
  exact successExact.mpr ⟨on,sent,by rw [result]; exact code⟩

/- There is one such round at most. -/
theorem endingRound {r r' : Timer × St τ} (inside : r ∈ answerRounds net topicFilter st)
    (inside' : r' ∈ answerRounds net topicFilter st) (code : (roundOf net r).rc = MsgType.unsuback.code)
    (code' : (roundOf net r').rc = MsgType.unsuback.code) : r = r' := by
  have last := (roundReturns _ _ (answerRoundsSent inside).2.2 code).2
  have last' := (roundReturns _ _ (answerRoundsSent inside').2.2 code').2
  exact Option.some.inj (last.symm.trans last')

/- cycle leaves an UNSUBACK to its caller. -/
theorem unsubackEnds {r : Timer × St τ} (read : (readOf net r).rc = MsgType.unsuback.code) :
    (roundOf net r).rc = MsgType.unsuback.code := by
  have kind := (readType read).2
  have handled : ∀ timer (st : St τ), handle net MsgType.unsuback.code timer st = ⟨success,false,timer,st⟩ :=
    fun _ _ => rfl
  unfold roundOf cycle
  dsimp only
  rw [kind, handled, if_pos rfl]

theorem readsUnique {r : Timer × St τ} {packet packet' : List UInt8} (reads : Reads net r packet)
    (reads' : Reads net r packet') : packet = packet' := by
  have same := List.append_cancel_left (reads.symm.trans reads')
  simp only [List.cons.injEq, Event.received.injEq, and_true] at same
  exact same

theorem readsKind {r : Timer × St τ} {packet : List UInt8} {t : MsgType} (reads : Reads net r packet)
    (kind : packetKind packet = some t.code) : (readOf net r).rc = t.code := by
  rcases readPacketKind net r.1 r.2 with ⟨_,same⟩ | ⟨packet',same,kind'⟩
  · have none := reads.symm.trans same
    simp at none
  · rw [← readsUnique reads same, kind] at kind'
    exact packetTypeCode (Option.some.inj kind').symm

theorem unsubackKind {id : UInt64} {packet : List UInt8} (of : UnsubackOf id packet) :
    packetKind packet = some MsgType.unsuback.code := by
  obtain ⟨header,rest,rfl,type⟩ := of
  exact congrArg some type

/- A packet in place of the answer ends the wait, and no answer was read by then. -/
theorem improperSucceeds {r : Timer × St τ} (inside : r ∈ answerRounds net topicFilter st)
    (improper : ¬ Proper net (requestId st) r) : ¬ SuccessAnswered net topicFilter st := by
  intro answered
  have ends : (roundOf net r).rc = MsgType.unsuback.code := by
    by_cases genuine : Genuine net .unsuback r
    · by_contra other
      refine improper ⟨genuine,fun packet reads kind => absurd (unsubackEnds (readsKind reads kind)) other⟩
    · exact (impostorReturns (not_not.mp genuine)).1
  obtain ⟨r',inside',timely,packet',reads',of⟩ := (answered (roundSucceeds inside ends)).answer
  have read' := readsKind reads' (unsubackKind of)
  obtain rfl := endingRound inside inside' ends (unsubackEnds read')
  refine improper ⟨fun impostor => (impostorReturns impostor).2 read',fun packet reads _ => ?_⟩
  rw [readsUnique reads reads']
  exact ⟨of,timely⟩

/-- MQTTUnsubscribe succeeds only behind a whole UNSUBSCRIBE and an UNSUBACK with its packet id,
read before the command timer has run out, exactly where no round of the wait reads another
UNSUBACK, one that comes late, or a packet that passes for one. -/
theorem unsubscribeExact (net : Network τ) (topicFilter : CString) (st : St τ) :
    SuccessAnswered net topicFilter st ↔ ∀ r ∈ answerRounds net topicFilter st, Proper net (requestId st) r := by
  refine ⟨fun answered r inside => ?_,fun proper succeeded => ?_⟩
  · by_contra improper
    exact improperSucceeds inside improper answered
  · obtain ⟨on,sent,ended⟩ := successExact.mp succeeded
    obtain ⟨r,round,result⟩ := loopReturns _ _ (codeOther (Or.inr rfl) .unsuback) ended
    have inside : r ∈ answerRounds net topicFilter st := by
      rw [answerRoundsOf on sent]
      exact round
    have ends : (roundOf net r).rc = MsgType.unsuback.code := (congrArg Outcome.rc result).symm.trans ended
    have read := returnsRead ends (proper r inside).genuine
    rcases readPacketKind net r.1 r.2 with ⟨failed,_⟩ | ⟨packet,reads,kind⟩
    · exact absurd read (codeOther (Or.inr failed) .unsuback)
    · have unsuback := kind.trans (congrArg some (readType read).2)
      obtain ⟨of,timely⟩ := (proper r inside).carries packet reads unsuback
      exact ⟨requestSent sent,r,inside,timely,packet,reads,of⟩

def wildcard : CString := ⟨[35],by simp⟩

/- A client whose next packet id is 7, with these bytes on the way to it. -/
def asking (incoming : List UInt8) : St (List UInt8) :=
  let blank := St.static ⟨List.replicate 60 ⟨0,0⟩,incoming⟩
  { blank with
    client := { blank.client with commandTimeoutMs := 1000, bufSize := 100, readbufSize := 100, isconnected := 1 }
    times := [7] }

def strayUnsuback : List UInt8 := [0xB0,8,0,0,0,0,0,0,0,9]

/- Where the one packet read is no answer, a success is not answered. -/
theorem unanswered {packet : List UInt8} (succeeded : (mqttUnsubscribe net topicFilter st).1 = success)
    (read : (answerRounds net topicFilter st).map (fun r => SplitReads.received (readOf net r).st.trace) = [[packet]])
    (other : ¬ UnsubackOf (requestId st) packet) : ¬ SuccessAnswered net topicFilter st := by
  intro answered
  obtain ⟨r,inside,_,packet',reads,of⟩ := (answered succeeded).answer
  have trace := List.mem_map_of_mem (f := fun r => SplitReads.received (readOf net r).st.trace) inside
  rw [read, List.mem_singleton, reads, SplitReads.received, List.filterMap_append] at trace
  have same := (List.append_inj' (trace.trans (List.nil_append _).symm) rfl).2
  rw [(List.cons.inj same).1] at of
  exact other of

/- The shortest UNSUBACK has ten bytes, of which the last eight are its id. -/
theorem unsubackBytes {id : UInt64} {packet : List UInt8} (of : UnsubackOf id packet) :
    10 ≤ packet.length ∧ (packet.length = 10 → packet.drop 2 = writeInt64 id) := by
  obtain ⟨header,rest,rfl,_⟩ := of
  have positive := Base128.encodePositive (8 + rest.length)
  rw [← mqttPacketEncodeEncodes] at positive
  simp only [List.length_cons, List.length_append, writeInt64Length]
  refine ⟨by omega,fun ten => ?_⟩
  have none : rest = [] := List.length_eq_zero_iff.mp (by omega)
  rw [none]
  rfl

/- The round begins in the last tick of the timeout and its header byte comes with the tick
after it; the body read is given that last tick again. -/
def late : St (List UInt8) := (asking [0xB0,8,0,0,0,0,0,0,0,7]).setClock
  [⟨0,0⟩,⟨0,0⟩,⟨0,0⟩,⟨0,0⟩,⟨0,99⟩,⟨0,99⟩,⟨0,100⟩,⟨0,100⟩,⟨0,101⟩]

/- An UNSUBACK of another id, one without an id and one that comes late are taken for the
answer. -/
theorem strayAccepted :
    ¬ SuccessAnswered pipe wildcard (asking strayUnsuback) ∧ ¬ SuccessAnswered pipe wildcard (asking [0xB0,0]) ∧
      ¬ SuccessAnswered pipe wildcard late := by
  have stray : (answerRounds pipe wildcard (asking strayUnsuback)).map
      (fun r => SplitReads.received (readOf pipe r).st.trace) = [[strayUnsuback]] := by decide
  have empty : (answerRounds pipe wildcard (asking [0xB0,0])).map
      (fun r => SplitReads.received (readOf pipe r).st.trace) = [[[0xB0,0]]] := by decide
  have expired : (answerRounds pipe wildcard late).map
      (fun r => (timerIsExpired (readOf pipe r).timer (readOf pipe r).st.wire.clock).expired) = [true] := by decide
  refine ⟨unanswered (by decide) stray fun of => ?_,unanswered (by decide) empty fun of => ?_,fun answered => ?_⟩
  · exact absurd ((unsubackBytes of).2 rfl) (by decide)
  · exact absurd (unsubackBytes of).1 (by decide)
  · obtain ⟨r,inside,timely,_⟩ := (answered (by decide)).answer
    have ran := List.mem_map_of_mem
      (f := fun r => (timerIsExpired (readOf pipe r).timer (readOf pipe r).st.wire.clock).expired) inside
    rw [expired, List.mem_singleton, timely] at ran
    cases ran

end YunbaIot.UnsubscribeAnswer
