import Mathlib.Data.List.Basic
import YunbaIot.Incoming

/-! Messages handed to the message handler over runs of cycle: which packets bring one,
and how often a QoS 2 message is handed over between two PUBRELs. -/
namespace YunbaIot.Delivery
open FreeRtosTimer MqttTransport MqttPacket MqttClient MqttRead Framing MqttEffects Incoming

variable {τ : Type} {net : Network τ} {st : St τ} {calls : List Call}

-- topic and payload of a message
abbrev Data : Type := Option (List UInt8) × Option (List UInt8)
def data (m : Message) : Data := (m.topicName,m.payload)

def handlerCalls (trace : List Event) : List Data := trace.filterMap fun
  | .message m => some (data m)
  | _ => none

theorem handlerCallsAppend (before behind : List Event) :
    handlerCalls (before ++ behind) = handlerCalls before ++ handlerCalls behind := List.filterMap_append

theorem handlerCallsEffects (net : Network τ) (timer : Timer) (st : St τ) (arrival : Option Arrival) :
    handlerCalls (effects net timer st arrival) = (arrival.bind fun a => a.content.handled.map data).toList := by
  cases arrival with
  | none => rfl
  | some a =>
    have received : handlerCalls [.received a.packet.canonical] = [] := rfl
    have sends : handlerCalls (answers net a.content (readPacket net timer st).timer (readPacket net timer st).st) = [] := by
      unfold answers sentEvents
      split
      · split <;> rfl
      · rfl
    have delivered : handlerCalls (deliveries a.content) = (a.content.handled.map data).toList := by
      unfold deliveries
      cases a.content.handled <;> rfl
    rw [effects, handlerCallsAppend, handlerCallsAppend, received, sends, delivered]
    rfl

theorem handlerCallsCycle {timer : Timer} {arrival : Option Arrival} (serves : Serves net timer st arrival) :
    handlerCalls (cycle net timer st).st.trace =
      handlerCalls st.trace ++ (arrival.bind fun a => a.content.handled.map data).toList := by
  obtain ⟨quiet,same,ok⟩ := serves.trace
  have silent : handlerCalls quiet = [] := List.filterMap_eq_nil_iff.mpr fun e inside => by
    rcases ok e inside with ⟨_,_,_,rfl⟩ | rfl | send
    · rfl
    · rfl
    · cases e <;> first | rfl | exact absurd send id
  rw [same, handlerCallsAppend, handlerCallsAppend, silent, handlerCallsEffects, List.append_nil]

/- Dropping some of what another filter keeps gives the same list exactly when nothing
is dropped. -/
theorem filterMapLoses {α β : Type} {f g : α → Option β} (loses : ∀ a, f a = g a ∨ f a = none) (xs : List α) :
    xs.filterMap f = xs.filterMap g ↔ ∀ x ∈ xs, f x = g x := by
  have shorter : ∀ ys : List α, (ys.filterMap f).length ≤ (ys.filterMap g).length := by
    intro ys
    induction ys with
    | nil => exact Nat.le_refl _
    | cons y ys ih =>
      cases kept : g y with
      | none => rcases loses y with same | none <;> simp_all
      | some b => rcases loses y with same | none <;> simp_all; omega
  induction xs with
  | nil => simp
  | cons x xs ih =>
    rcases loses x with same | none
    · cases kept : g x <;> simp [same, kept, ih]
    · cases kept : g x with
      | none => simp [none, kept, ih]
      | some b =>
        have less := shorter xs
        refine ⟨fun equal => ?_,fun all => ?_⟩
        · have lengths := congrArg List.length equal
          rw [List.filterMap_cons_none none, List.filterMap_cons_some kept, List.length_cons] at lengths
          omega
        · have here := all x (List.mem_cons_self ..)
          rw [none, kept] at here
          cases here

/- Every PUBLISH that the calls read is handed over, in order, and nothing else. -/
def Delivers (net : Network τ) (st : St τ) (calls : List Call) : Prop :=
  handlerCalls (cycles net st calls).trace =
    handlerCalls st.trace ++ calls.filterMap fun call => call.1.bind fun a => a.content.message.map data

theorem handlerCallsRun (whole : Undivided net st calls) :
    handlerCalls (cycles net st calls).trace =
      handlerCalls st.trace ++ calls.filterMap fun call => call.1.bind fun a => a.content.handled.map data := by
  have gathered := Run.runOutputs (step net) (Undivided net) (fun st => handlerCalls st.trace)
    (fun _ call => (call.1.bind fun a => a.content.handled.map data).toList)
    (fun _ _ _ ⟨gets,rest⟩ => ⟨rest,handlerCallsCycle (getsServes gets)⟩) whole
  rw [cycles, gathered, Run.outputsConstant, List.filterMap_eq_flatMap_toList]

theorem handledMessage (c : Content) :
    c.handled.map data = c.message.map data ↔ ∀ p, c = .publish p → p.qos ≠ .qos0 := by
  cases c with
  | publish p => by_cases plain : p.qos = .qos0 <;> simp [Content.handled, Content.message, plain]
  | pubrec | pubrel | other => simp [Content.handled, Content.message]

theorem handledLoses (c : Content) : c.handled.map data = c.message.map data ∨ c.handled.map data = none := by
  cases c with
  | publish p => by_cases plain : p.qos = .qos0 <;> simp [Content.handled, Content.message, plain]
  | pubrec | pubrel | other => exact Or.inl rfl

theorem callLoses (call : Call) :
    (call.1.bind fun a => a.content.handled.map data) = (call.1.bind fun a => a.content.message.map data) ∨
      (call.1.bind fun a => a.content.handled.map data) = none := by
  obtain ⟨arrival,timer⟩ := call
  cases arrival with
  | none => exact Or.inl rfl
  | some a => exact handledLoses a.content

theorem callHandled (call : Call) :
    (call.1.bind fun a => a.content.handled.map data) = (call.1.bind fun a => a.content.message.map data) ↔
      ∀ a p, call.1 = some a → a.content = .publish p → p.qos ≠ .qos0 := by
  obtain ⟨arrival,timer⟩ := call
  cases arrival with
  | none => simp
  | some a =>
    refine (handledMessage a.content).trans ⟨fun all b p same content => ?_,fun all p => all a p rfl⟩
    cases same
    exact all p content

/-- In a run of calls that each get a whole packet or nothing, cycle hands over every
PUBLISH exactly when none of them has QoS 0. -/
theorem deliversAcknowledged (whole : Undivided net st calls) :
    Delivers net st calls ↔
      ∀ call ∈ calls, ∀ a p, call.1 = some a → a.content = .publish p → p.qos ≠ .qos0 := by
  unfold Delivers
  rw [handlerCallsRun whole, List.append_cancel_left_eq, filterMapLoses callLoses]
  exact forall₂_congr fun call _ => callHandled call

def plain : Publish := .letters .qos0
def once : Publish := .letters (.qos1 7)

-- a QoS 1 PUBLISH, and nothing in the call after it
def onceCalls : List Call := [(some ((Content.publish once).arrival (by decide)),timerInit),(none,timerInit)]
def onceFed : St (List UInt8) := reading 20 [0x32,12,0,1,0x61,0,0,0,0,0,0,0,7,0x62]

theorem onceUndivided : Undivided pipe onceFed onceCalls :=
  ⟨⟨⟨by decide,by decide,fun _ => by decide⟩,by decide⟩,by unfold Gets; decide,trivial⟩

theorem onceDelivered : Delivers pipe onceFed onceCalls :=
  (deliversAcknowledged onceUndivided).mpr (by
    intro call inside a p arrival content
    simp only [onceCalls, List.mem_cons, List.not_mem_nil, or_false] at inside
    rcases inside with rfl | rfl
    · cases Option.some.inj arrival
      cases content
      decide
    · cases arrival)

/- A QoS 0 message arrives whole and the handler is not called. -/
def plainCalls : List Call := [(some ((Content.publish plain).arrival (by decide)),timerInit)]
def plainFed : St (List UInt8) := reading 20 [0x30,4,0,1,0x61,0x62]

theorem plainDropped : Undivided pipe plainFed plainCalls ∧
    handlerCalls (cycles pipe plainFed plainCalls).trace = [] ∧ ¬ Delivers pipe plainFed plainCalls := by
  refine ⟨⟨⟨⟨by decide,by decide,fun _ => by decide⟩,by decide⟩,trivial⟩,by decide,?_⟩
  unfold Delivers
  decide

/-! QoS 2 messages between two PUBRELs -/

/- Counts over a sequence cut at certain places: the finished stretches and the current. -/
structure Stretches where
  finished : List Nat
  current : Nat
  deriving DecidableEq, Repr

def Stretches.counts (s : Stretches) : List Nat := s.finished ++ [s.current]
def Stretches.cut (s : Stretches) : Stretches := ⟨s.counts,0⟩
def Stretches.count (s : Stretches) : Stretches := { s with current := s.current + 1 }

def Releases (id : UInt64) (packet : List UInt8) : Prop :=
  packetKind packet = some MsgType.pubrel.code ∧ packet.drop 2 = writeInt64 id
instance (id : UInt64) (packet : List UInt8) : Decidable (Releases id packet) := by unfold Releases; infer_instance

/- Calls of the handler for QoS 2 messages with this id, cut at the PUBRELs for it. -/
def onEvent (id : UInt64) (s : Stretches) : Event → Stretches
  | .received packet => if Releases id packet then s.cut else s
  | .message m => if m.qos = 2 ∧ m.id = some id then s.count else s
  | _ => s
def handed (id : UInt64) (trace : List Event) : Stretches := trace.foldl (onEvent id) ⟨[],0⟩

/- Arrivals of QoS 2 PUBLISH packets with this id, cut at the PUBRELs for it. -/
def onArrival (id : UInt64) (s : Stretches) (a : Arrival) : Stretches :=
  match a.content with
  | .publish p => if p.qos = .qos2 id then s.count else s
  | .pubrel _ released _ => if released = id then s.cut else s
  | _ => s
def onCall (id : UInt64) (s : Stretches) (call : Call) : Stretches := call.1.elim s (onArrival id s)

theorem writeInt64Injective {a b : UInt64} (same : writeInt64 a = writeInt64 b) : a = b := by
  apply UInt64.toNat_inj.mp
  rw [← writeInt64Value, same, writeInt64Value]

theorem foldlIgnored {id : UInt64} {events : List Event} (ignored : ∀ e ∈ events, ∀ s, onEvent id s e = s)
    (s : Stretches) : events.foldl (onEvent id) s = s := by
  induction events generalizing s with
  | nil => rfl
  | cons e later ih =>
    rw [List.foldl_cons, ignored e (List.mem_cons_self ..)]
    exact ih (fun e inside => ignored e (List.mem_cons_of_mem _ inside)) s

theorem sendIgnored {id : UInt64} {t : MsgType} {e : Event} (send : SendOf t e) (s : Stretches) :
    onEvent id s e = s := by
  cases e <;> first | rfl | exact False.elim send

theorem answersIgnored {id : UInt64} (c : Content) (timer : Timer) (st : St τ) :
    ∀ e ∈ answers net c timer st, ∀ s, onEvent id s e = s := by
  intro e inside s
  unfold answers at inside
  split at inside
  · exact sendIgnored (sentEventsOf (ackOpens _ _ _ _) timer st e inside) s
  · cases inside

theorem quietIgnored {id : UInt64} {e : Event} (quiet : QuietEvent e) (s : Stretches) : onEvent id s e = s := by
  rcases quiet with ⟨_,_,_,rfl⟩ | rfl | send
  · rfl
  · rfl
  · exact sendIgnored send s

def released : Content → Option UInt64
  | .pubrel _ id _ => some id
  | _ => none

theorem releasesPacket (id : UInt64) (a : Arrival) :
    Releases id a.packet.canonical ↔ released a.content = some id := by
  have kind : packetKind a.packet.canonical = some (MqttHeader.type a.content.header) := rfl
  have behind : a.packet.canonical.drop 2 = (mqttPacketEncode a.content.body.length ++ a.content.body).drop 1 := rfl
  unfold Releases
  rw [kind, behind, Option.some.injEq]
  cases a.content with
  | publish p => simp [Content.header, publishType, MsgType.code, released]
  | pubrec header n type => simp [Content.header, type, MsgType.code, released]
  | pubrel header n type =>
    have one : mqttPacketEncode (writeInt64 n).length = [8] := by
      rw [writeInt64Length]
      rfl
    simp only [Content.header, Content.body, type, one, released, Option.some.injEq, true_and]
    exact ⟨fun same => writeInt64Injective same,fun same => congrArg writeInt64 same⟩
  | other header body type =>
    have other := type .pubrel (by simp)
    simp [Content.header, other, released]

theorem deliveriesHanded (id : UInt64) (c : Content) (s : Stretches) :
    (deliveries c).foldl (onEvent id) s =
      match c with
      | .publish p => if p.qos = .qos2 id then s.count else s
      | _ => s := by
  cases c with
  | publish p =>
    unfold deliveries Content.handled
    cases qos : p.qos with
    | qos0 => simp [qos]
    | qos1 n => simp [onEvent, Publish.message, qos, QoS.code]
    | qos2 n => simp [onEvent, Publish.message, qos, QoS.code, QoS.id]
  | pubrec | pubrel | other => rfl

theorem handedEffects (id : UInt64) (net : Network τ) (timer : Timer) (st : St τ) (a : Arrival) (s : Stretches) :
    (effects net timer st (some a)).foldl (onEvent id) s = onArrival id s a := by
  have packet := releasesPacket id a
  unfold effects
  simp only [List.foldl_cons, List.foldl_append, foldlIgnored (answersIgnored a.content _ _), deliveriesHanded]
  unfold onArrival onEvent
  cases content : a.content with
  | publish p => simp [packet, content, released]
  | pubrec header n type => simp [packet, content, released]
  | pubrel header n type => simp [packet, content, released]
  | other header body type => simp [packet, content, released]

theorem handedCycle (id : UInt64) {call : Call} (serves : Serves net call.2 st call.1) :
    handed id (step net st call).trace = onCall id (handed id st.trace) call := by
  obtain ⟨arrival,timer⟩ := call
  obtain ⟨quiet,same,ok⟩ := serves.trace
  unfold handed step
  rw [same, List.foldl_append, List.foldl_append, foldlIgnored fun e inside => quietIgnored (ok e inside)]
  cases arrival with
  | none => rfl
  | some a => exact handedEffects id net timer st a _

/-- In a run of calls that each get a whole packet or nothing the handler is called, between
two PUBRELs for an id, once for every QoS 2 PUBLISH with that id that arrives. -/
theorem handedAsArrived (whole : Undivided net st calls) (id : UInt64) :
    handed id (cycles net st calls).trace = calls.foldl (onCall id) (handed id st.trace) :=
  Run.runRefines (step net) (onCall id) (Undivided net) (fun st => handed id st.trace)
    (fun _ _ _ ⟨gets,rest⟩ => ⟨rest,handedCycle id (getsServes gets)⟩) whole

def first : Publish := .letters (.qos2 7)
def again : Publish := { first with dup := true }
def release : Content := .pubrel 0x62 7 rfl
def retransmitted : List (Arrival × Timer) :=
  [(release.arrival (by decide),timerInit),((Content.publish first).arrival (by decide),timerInit),
    ((Content.publish again).arrival (by decide),timerInit),(release.arrival (by decide),timerInit)]
def retransmittedCalls : List Call := retransmitted.map fun call => (some call.1,call.2)
def retransmission : St (List UInt8) := reading 20 (stream (retransmitted.map fun call => call.1.packet))

theorem retransmissionUndivided : Undivided pipe retransmission retransmittedCalls :=
  suppliedUndivided pipeSupplies (List.append_nil _).symm (by decide)

theorem retransmissionHanded : handed 7 (cycles pipe retransmission retransmittedCalls).trace =
    retransmittedCalls.foldl (onCall 7) (handed 7 retransmission.trace) :=
  handedAsArrived retransmissionUndivided 7

/- A QoS 2 PUBLISH and its retransmission between two PUBRELs: two calls of the handler. -/
theorem retransmissionTwice : Undivided pipe retransmission retransmittedCalls ∧
    (handed 7 (cycles pipe retransmission retransmittedCalls).trace).counts = [0,2,0] ∧
      ¬ ∀ count ∈ (handed 7 (cycles pipe retransmission retransmittedCalls).trace).counts, count ≤ 1 := by
  exact ⟨retransmissionUndivided,by decide,by decide⟩

end YunbaIot.Delivery
