import YunbaIot.Framing
import YunbaIot.MqttEffects
import YunbaIot.Run

/-! Packet boundaries over successive calls of cycle on a transport that may stop
anywhere. readPacket keeps nothing between calls, so a boundary survives the calls that
get a whole packet or nothing. -/
namespace YunbaIot.SplitReads
open FreeRtosTimer MqttTransport MqttPacket MqttClient MqttRead Framing MqttEffects

def received : List Event → List (List UInt8) := List.filterMap fun
  | .received packet => some packet
  | _ => none

def cycles (st : St Script) (timers : List Timer) : St Script :=
  Run.run (fun st timer => (cycle scripted timer st).st) st timers

-- a read of `len` bytes that gets them
def Full (len : Nat) : ReadOutcome → Prop
  | .full => True
  | .short count => len ≤ count
  | .error _ _ => False

def Serves : List Nat → List ReadOutcome → Prop
  | [], _ => True
  | _ :: _, [] => False
  | len :: more, outcome :: later => Full len outcome ∧ Serves more later

/- The reads that take a packet: header, length field byte by byte, body. -/
def bodyLengths (p : WirePacket) : List Nat := if p.body = [] then [] else [p.body.length]
def lengths (p : WirePacket) : List Nat := 1 :: (List.replicate p.field.length 1 ++ bodyLengths p)

/- The coming call gets no byte, or the packet at the head of the stream in full reads. -/
def Undivided (st : St Script) : Prop :=
  (st.wire.link.read 1).1.stored = [] ∨
    ∀ p tail, st.wire.link.incoming = WirePacket.bytes p ++ tail → Serves (lengths p) st.wire.link.reads

/- The packets reported are the first of the stream, and the rest of it is unread. -/
def AtBoundary (ps : List WirePacket) (before : List (List UInt8)) (st : St Script) : Prop :=
  ∃ k, received st.trace = before ++ (ps.take k).map WirePacket.canonical ∧
    st.wire.link.incoming = stream (ps.drop k)

theorem receivedGains {τ : Type} {a b : St τ} (h : Gains CycleEvent a b) : received b.trace = received a.trace := by
  refine observeGains _ h fun e event => ?_
  rcases event with (⟨m,rfl⟩ | ⟨_,_,_,rfl⟩ | ⟨t,_,send⟩) | rfl | send
  · rfl
  · rfl
  · cases e <;> first | rfl | exact absurd send id
  · rfl
  · cases e <;> first | rfl | exact absurd send id

theorem cycleIncoming (timer : Timer) (st : St Script) :
    (cycle scripted timer st).st.wire.link.incoming = (readPacket scripted timer st).st.wire.link.incoming := by
  have writes : WriteKeeps scripted fun w => w.link.incoming = (readPacket scripted timer st).st.wire.link.incoming :=
    ⟨fun _ _ _ => id,fun _ _ _ => id⟩
  exact (cycleKeeps writes timer st).wire rfl

theorem readServed {len : Nat} {bs tail : List UInt8} {more : List Nat} {s : Script}
    (ahead : s.incoming = bs ++ tail) (size : bs.length = len) (serves : Serves (len :: more) s.reads) :
    (s.read len).1 = ⟨bs,len⟩ ∧ (s.read len).2.incoming = tail ∧ Serves more (s.read len).2.reads := by
  cases script : s.reads with
  | nil =>
    rw [script] at serves
    exact absurd serves id
  | cons outcome later =>
    rw [script] at serves
    obtain ⟨full,rest⟩ := serves
    simp only [Script.read, Script.nextRead, script, List.headD_cons, List.tail_cons]
    cases outcome with
    | full =>
      simp only [ReadOutcome.count, ReadOutcome.result, ahead, List.take_left' size, List.drop_left' size, size]
      exact ⟨trivial,trivial,rest⟩
    | short count =>
      have enough : min count len = len := Nat.min_eq_right full
      simp only [ReadOutcome.count, ReadOutcome.result, enough, ahead, List.take_left' size,
        List.drop_left' size, size]
      exact ⟨trivial,trivial,rest⟩
    | error _ _ => exact absurd full id

theorem oneByteServed {b : UInt8} {tail : List UInt8} {more : List Nat} (ms : UInt32) {w : Wire Script}
    (ahead : w.link.incoming = b :: tail) (serves : Serves (1 :: more) w.link.reads) :
    (oneByte scripted ms w).1 = some b ∧ (oneByte scripted ms w).2.link.incoming = tail ∧
      Serves more (oneByte scripted ms w).2.link.reads := by
  obtain ⟨byte,behind,later⟩ : (w.link.read 1).1 = ⟨[b],(1 : Nat)⟩ ∧ (w.link.read 1).2.incoming = tail ∧
      Serves more (w.link.read 1).2.reads := readServed ahead rfl serves
  have answer : (oneByte scripted ms w).1 =
      if (w.link.read 1).1.rc = 1 then (w.link.read 1).1.stored.head? else none := rfl
  rw [answer, byte]
  exact ⟨rfl,behind,later⟩

theorem servedBrings {p : WirePacket} {tail : List UInt8} {st : St Script} (timer : Timer)
    (ahead : st.wire.link.incoming = p.bytes ++ tail) (serves : Serves (lengths p) st.wire.link.reads) :
    Brings scripted timer st p ∧ (after scripted timer st p).link.incoming = tail := by
  have first : st.wire.link.incoming = [p.header] ++ (p.field ++ (p.body ++ tail)) := by
    rw [ahead]
    simp [WirePacket.bytes]
  obtain ⟨header,behindHeader,fieldReads⟩ := readServed first rfl serves
  obtain ⟨field,behindField,bodyReads⟩ := Base128.fieldExact (oneByte scripted (afterHead scripted timer st).ms)
    (fun bs w => w.link.incoming = bs ++ (p.body ++ tail) ∧
      Serves (List.replicate bs.length 1 ++ bodyLengths p) w.link.reads)
    (fun _ _ _ both => oneByteServed _ both.1 both.2)
    p.field maxRemainingLengthBytes
    { (head scripted timer st).wire with clock := (afterHead scripted timer st).clock } p.ended p.short
    ⟨behindHeader,fieldReads⟩
  have count : announced scripted timer st = p.body.length := by
    unfold announced MqttRead.field
    rw [field, p.counts]
  have position : (MqttRead.field scripted timer st).2.link.incoming = p.body ++ tail := behindField
  unfold after
  split
  · rename_i empty
    rw [empty] at position
    exact ⟨⟨header,field,fun some => absurd empty some⟩,position⟩
  · rename_i some
    have reads : Serves [p.body.length] (MqttRead.field scripted timer st).2.link.reads := by
      have left : bodyLengths p = [p.body.length] := if_neg some
      rw [← left]
      exact bodyReads
    obtain ⟨body,behind,_⟩ := readServed position rfl reads
    rw [← count] at body behind
    refine ⟨⟨header,field,fun _ => ?_⟩,behind⟩
    rw [← count]
    exact body

theorem cycleServed {p : WirePacket} {tail : List UInt8} {st : St Script} (timer : Timer)
    (ahead : st.wire.link.incoming = p.bytes ++ tail) (serves : Serves (lengths p) st.wire.link.reads) :
    received (cycle scripted timer st).st.trace = received st.trace ++ [p.canonical] ∧
      (cycle scripted timer st).st.wire.link.incoming = tail := by
  obtain ⟨brings,position⟩ := servedBrings timer ahead serves
  have takes := bringsTakes brings
  rw [receivedGains (cycleGains scripted timer st), takes.trace, cycleIncoming, takes.wire]
  refine ⟨?_,position⟩
  rw [received, List.filterMap_append]
  rfl

theorem cycleWithheld (timer : Timer) {st : St Script} (nothing : (st.wire.link.read 1).1.stored = []) :
    received (cycle scripted timer st).st.trace = received st.trace ∧
      (cycle scripted timer st).st.wire.link.incoming = st.wire.link.incoming := by
  have absent : (head scripted timer st).result.rc ≠ 1 := askNothing scripted Nat.one_pos nothing
  rw [receivedGains (cycleGains scripted timer st), cycleIncoming, noHeader scripted timer st absent]
  refine ⟨rfl,?_⟩
  have taken : st.wire.link.incoming.take (st.wire.link.nextRead.count 1) = [] := by
    unfold Script.read at nothing
    cases outcome : st.wire.link.nextRead <;> simpa [outcome, ReadOutcome.result] using nothing
  have whole := List.take_append_drop (st.wire.link.nextRead.count 1) st.wire.link.incoming
  rw [taken] at whole
  exact whole

theorem cycleBoundary {ps : List WirePacket} {before : List (List UInt8)} (st : St Script) (timer : Timer)
    (boundary : AtBoundary ps before st) (undivided : Undivided st) :
    AtBoundary ps before (cycle scripted timer st).st := by
  obtain ⟨k,reported,unread⟩ := boundary
  rcases undivided with nothing | whole
  · obtain ⟨same,left⟩ := cycleWithheld timer nothing
    exact ⟨k,by rw [same, reported],by rw [left, unread]⟩
  · cases ahead : ps.drop k with
    | nil =>
      have empty : st.wire.link.incoming = [] := by
        rw [unread, ahead]
        rfl
      have nothing : (st.wire.link.read 1).1.stored = [] := by
        unfold Script.read
        cases st.wire.link.nextRead <;> simp [empty, ReadOutcome.result]
      obtain ⟨same,left⟩ := cycleWithheld timer nothing
      exact ⟨k,by rw [same, reported],by rw [left, unread]⟩
    | cons p later =>
      have stream : st.wire.link.incoming = p.bytes ++ stream later := by
        rw [unread, ahead]
        rfl
      obtain ⟨more,left⟩ := cycleServed timer stream (whole p _ stream)
      have next : ps.drop (k+1) = later := by
        rw [← List.drop_drop, ahead]
        rfl
      have found : ps.take (k+1) = ps.take k ++ [p] := by
        have here : ps[k]? = some p := by
          rw [← List.head?_drop, ahead]
          rfl
        rw [List.take_add_one, here]
        rfl
      refine ⟨k+1,?_,by rw [left, next]⟩
      rw [more, reported, found]
      simp

/-- On a run of calls that each get a whole packet or nothing, what is reported is a
leading part of the stream and every call starts at a packet boundary. -/
theorem boundariesKept (ps : List WirePacket) (st : St Script) (timers : List Timer)
    (start : st.wire.link.incoming = stream ps)
    (whole : Run.Along (fun st timer => (cycle scripted timer st).st) (fun st _ => Undivided st) st timers) :
    AtBoundary ps (received st.trace) (cycles st timers) := by
  have initial : AtBoundary ps (received st.trace) st := ⟨0,by simp,start⟩
  exact Run.alongInvariant (fun s timer boundary ok => cycleBoundary s timer boundary ok) initial whole

theorem servesFull (lens : List Nat) (n : Nat) (enough : lens.length ≤ n) :
    Serves lens (List.replicate n .full) := by
  induction lens generalizing n with
  | nil => trivial
  | cons len more ih =>
    cases n with
    | zero => simp at enough
    | succ n => exact ⟨trivial,ih n (by simpa using enough)⟩

/- Six full reads ahead carry any packet. -/
theorem fullUndivided {st : St Script} (n : Nat) (full : st.wire.link.reads = List.replicate n .full)
    (six : 6 ≤ n) : Undivided st := by
  refine Or.inr fun p tail _ => ?_
  have short : p.field.length ≤ 4 := p.short
  have one : (bodyLengths p).length ≤ 1 := by
    unfold bodyLengths
    split <;> simp
  rw [full]
  apply servesFull
  simp only [lengths, List.length_cons, List.length_append, List.length_replicate]
  omega

def publish : WirePacket := ⟨0x30,[5],[0,1,0x61,0xd0,0x00],by decide,by decide,by decide⟩
def fed (reads : List ReadOutcome) : St Script := St.static ⟨[],⟨[0x30,5,0,1,0x61,0xd0,0x00],reads,[]⟩⟩

theorem idleThenWhole : AtBoundary [publish] []
    (cycles (fed (.short 0 :: List.replicate 9 .full)) [timerInit,timerInit]) :=
  boundariesKept [publish] (fed (.short 0 :: List.replicate 9 .full)) [timerInit,timerInit] rfl
    ⟨Or.inl rfl,fullUndivided 9 rfl (by decide),trivial⟩

/- The body of a PUBLISH stops three bytes in; the next call takes its last two bytes for
a PINGRESP. -/
theorem splitMisread :
    let split := fed [.full,.full,.short 3,.full,.full]
    split.wire.link.incoming = stream [publish] ∧
      received (cycles split [timerInit,timerInit]).trace = [[0xd0,0x00]] ∧
      ¬ [[0xd0,0x00]] <+: [publish].map WirePacket.canonical := by
  exact ⟨by decide,by decide,by decide⟩

end YunbaIot.SplitReads
