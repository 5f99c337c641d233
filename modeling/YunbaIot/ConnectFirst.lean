import YunbaIot.Reconnect

/-! Which connections start with CONNECT. A stretch under the mutex keeps every connection
so while the socket of the Network holds a CONNECT and no other task connects a new one. -/
namespace YunbaIot.ConnectFirst
open FreeRtosTimer MqttTransport MqttPacket MqttSerialize MqttClient MqttEffects FreeRtosSocket LinkInvariant Reconnect

/- CONNECT packets, each as far as the socket took it. -/
def Attempts (connect bytes : List UInt8) : Prop :=
  ∃ parts : List (List UInt8), (∀ part ∈ parts, part <+: connect) ∧ bytes = parts.flatten

/- A whole CONNECT behind attempts, then anything. -/
def Introduced (connect bytes : List UInt8) : Prop :=
  connect ≠ [] ∧ ∃ before after, Attempts connect before ∧ bytes = before ++ connect ++ after

def FirstConnect (connect bytes : List UInt8) : Prop := Attempts connect bytes ∨ Introduced connect bytes

theorem firstConnectNil (connect : List UInt8) : FirstConnect connect [] := Or.inl ⟨[],by simp,rfl⟩

theorem introducedMore {connect bytes : List UInt8} (h : Introduced connect bytes) (more : List UInt8) :
    Introduced connect (bytes ++ more) := by
  obtain ⟨some,before,after,attempts,rfl⟩ := h
  exact ⟨some,before,after ++ more,attempts,by simp [List.append_assoc]⟩

theorem attemptsMore {connect bytes part : List UInt8} (h : Attempts connect bytes) (attempt : part <+: connect) :
    Attempts connect (bytes ++ part) := by
  obtain ⟨parts,each,rfl⟩ := h
  refine ⟨parts ++ [part],fun p inside => ?_,by simp⟩
  rcases List.mem_append.mp inside with old | new
  · exact each p old
  · rw [List.mem_singleton.mp new]
    exact attempt

/- CONNECT may go out on any connection, and what follows it in the buffer behind it. -/
theorem firstConnectMore {connect bytes part : List UInt8} (h : FirstConnect connect bytes)
    (send : part <+: connect ∨ connect ≠ [] ∧ connect <+: part) : FirstConnect connect (bytes ++ part) := by
  rcases h with attempts | introduced
  · rcases send with attempt | ⟨some,after,rfl⟩
    · exact Or.inl (attemptsMore attempts attempt)
    · exact Or.inr ⟨some,bytes,after,attempts,(List.append_assoc ..).symm⟩
  · exact Or.inr (introducedMore introduced part)

theorem attemptsHead {connect bytes : List UInt8} {b : UInt8} (h : Attempts connect (b :: bytes)) :
    connect.head? = some b := by
  obtain ⟨parts,each,same⟩ := h
  induction parts with
  | nil => cases same
  | cons part parts ih =>
    cases part with
    | nil => exact ih (fun p inside => each p (List.mem_cons_of_mem _ inside)) same
    | cons c part =>
      obtain ⟨rest,whole⟩ := each (c :: part) (List.mem_cons_self ..)
      rw [← whole]
      simp only [List.flatten_cons, List.cons_append, List.cons.injEq] at same
      simp [same.1]

theorem firstConnectHead {connect bytes : List UInt8} {b : UInt8} (h : FirstConnect connect (b :: bytes)) :
    connect.head? = some b := by
  rcases h with attempts | ⟨some,before,after,attempts,same⟩
  · exact attemptsHead attempts
  · cases before with
    | nil =>
      cases connect with
      | nil => exact absurd rfl some
      | cons c connect =>
        simp only [List.nil_append, List.cons_append, List.cons.injEq] at same
        simp [same.1]
    | cons c before =>
      simp only [List.cons_append, List.cons.injEq] at same
      rw [same.1]
      exact attemptsHead attempts

/-! The condition -/

def connectPacket (options : ConnectData) : List UInt8 := (mqttSerializeConnect 200 options).written

def AllFirst (connect : List UInt8) (l : Link) : Prop := ∀ bytes ∈ l.transcripts, FirstConnect connect bytes

/- The socket of the Network is not a connected one that still lacks its CONNECT. -/
def Settled (connect : List UInt8) (l : Link) : Prop := ∀ s, l.connection = some s → Introduced connect s.written

-- No call takes a byte.
def Mute (sends : List (Option Nat)) : Prop := ∀ send ∈ sends, send.getD 0 = 0
-- No connect() of another task succeeds.
def Undisturbed (moves : List (List Move)) : Prop := ∀ before ∈ moves, ∀ m ∈ before, m.answer ≠ .connected

def SendsSettled (connect : List UInt8) (env : Env) (st : St Link) : Prop :=
  Mute env.sends ∨ Settled connect st.wire.link ∧ Undisturbed env.moves

/- What a step may meet: a round of cycle has nothing to send or sends where CONNECT was,
as MQTTDisconnect does; CONNECT itself is not cut in two by a new connection. -/
def InOrder (options : ConnectData) (w : World) : Step → Prop
  | .mqttRun env => SendsSettled (connectPacket options) env w.st ∨ Quiet sockets (runTimer env).timer (running env w.st)
  | .mqttDisconnect _ env => SendsSettled (connectPacket options) env w.st
  | .move _ => True
  | .mqttConnect _ env => w.st.client.isconnected ≠ 0 ∨ Mute env.sends ∨ Undisturbed env.moves
  | .waitfor env => ∀ h ∈ w.holder,
    let check := timerIsExpired h.timer env.clock
    check.expired = true ∨ SendsSettled (connectPacket options) env w.st ∨
      Quiet sockets check.timer ((load env w.st).setClock check.clock)

/-! Reads and writes -/

variable {connect : List UInt8}

theorem connectionWritten {l : Link} {s : Socket} (current : l.connection = some s) : s.written ∈ l.transcripts := by
  obtain ⟨found,_⟩ := Option.filter_eq_some_iff.mp current
  obtain ⟨i,_,there⟩ := Option.bind_eq_some_iff.mp found
  exact List.mem_map.mpr ⟨s,List.mem_of_getElem? there,rfl⟩

theorem asideFirst {l l' : Link} (aside : Aside l l') (ok : AllFirst connect l) : AllFirst connect l' := by
  intro bytes inside
  rcases aside.transcripts bytes inside with rfl | old
  · exact firstConnectNil connect
  · exact ok bytes old

theorem interfereFirst {l : Link} (ok : AllFirst connect l) : AllFirst connect l.interfere :=
  asideFirst (interfereAside l) ok

theorem undisturbedNow {l : Link} (quiet : Undisturbed l.moves) : ∀ m ∈ l.moves.headD [], m.answer ≠ .connected := by
  cases moves : l.moves with
  | nil => simp
  | cons now later =>
    rw [moves] at quiet
    exact quiet now (List.mem_cons_self ..)

theorem undisturbedLater {l : Link} (quiet : Undisturbed l.moves) : Undisturbed l.interfere.moves := by
  rw [(interfereAside l).moves]
  exact fun before inside => quiet before (List.mem_of_mem_tail inside)

/- What every call keeps while the socket is settled and stays so. -/
structure Held (connect : List UInt8) (l : Link) : Prop where
  first : AllFirst connect l
  may : Mute l.sends ∨ Settled connect l ∧ Undisturbed l.moves

theorem interfereHeld {l : Link} (held : Held connect l) : Held connect l.interfere := by
  refine ⟨interfereFirst held.first,?_⟩
  rcases held.may with mute | ⟨settled,quiet⟩
  · left
    rw [(interfereAside l).sends]
    exact mute
  · refine Or.inr ⟨fun s current => ?_,undisturbedLater quiet⟩
    rcases interfereConnection (undisturbedNow quiet) with same | gone
    · exact settled s (same.symm.trans current)
    · rw [gone] at current
      cases current

theorem recvHeld (len : Nat) {l : Link} (held : Held connect l) : Held connect (l.recv len).2 := by
  obtain ⟨recvs,same⟩ := recvLink len l
  rw [same]
  exact ⟨(interfereHeld held).first,(interfereHeld held).may⟩

theorem muteTakes {sends : List (Option Nat)} (mute : Mute sends) (bs : List UInt8) :
    ((sends.headD none).map fun count => bs.take count).getD [] = [] := by
  cases sends with
  | nil => rfl
  | cons now later =>
    have nothing := mute now (List.mem_cons_self ..)
    cases now with
    | none => rfl
    | some count =>
      rw [show count = 0 from nothing]
      rfl

theorem sendHeld (bs : List UInt8) {l : Link} (held : Held connect l) : Held connect (l.send bs).2 := by
  obtain ⟨ok,may⟩ := interfereHeld held
  rcases sendCases bs l with ⟨_,same⟩ | ⟨s,current,after,written,moves,sends,answer⟩
  · rw [same]
    exact ⟨ok,may⟩
  · rcases may with mute | ⟨settled,quiet⟩
    · rw [answer, muteTakes mute, List.append_nil] at written
      refine ⟨fun bytes inside => ?_,Or.inl ?_⟩
      · rcases written bytes inside with old | rfl
        · exact ok bytes old
        · exact ok _ (connectionWritten current)
      · rw [sends]
        exact fun send inside => mute send (List.mem_of_mem_tail inside)
    · have introduced := introducedMore (settled s current) ((l.send bs).1.getD [])
      refine ⟨fun bytes inside => ?_,Or.inr ⟨fun s' now => ?_,?_⟩⟩
      · rcases written bytes inside with old | rfl
        · exact ok bytes old
        · exact Or.inr introduced
      · rw [← Option.some.inj (after.symm.trans now)]
        exact introduced
      · rw [moves]
        exact quiet

theorem writeSize {bs moved taken : List UInt8} {l : Link} (answer : (l.send (bs.drop moved.length)).1 = some taken) :
    taken.length ≤ bs.length - moved.length := by
  have part := (sendFits answer).length_le
  rw [List.length_drop] at part
  exact part

theorem readsHeld (connect : List UInt8) : ReadKeeps sockets fun w => Held connect w.link := by
  refine ⟨fun len ms w held => ?_,fun _ _ _ => id⟩
  exact (transferInvariant (fun moved => Link.recv (len - moved)) (fun _ => Held connect) len
    (fun _ _ _ _ held answer => ⟨recvFits answer,recvHeld _ held⟩) (fun _ _ _ held _ => recvHeld _ held) ms w held).2.1

theorem writesHeld (connect : List UInt8) : WriteKeeps sockets fun w => Held connect w.link := by
  refine ⟨fun bs ms w held => ?_,fun _ _ _ => id⟩
  exact (transferInvariant (fun moved => Link.send (bs.drop moved)) (fun _ => Held connect) bs.length
    (fun _ _ _ _ held answer => ⟨writeSize answer,sendHeld _ held⟩) (fun _ _ _ held _ => sendHeld _ held) ms w held).2.1

/- Reads alone write nothing, whoever connects in between. -/
theorem readsFirst (connect : List UInt8) : ReadKeeps sockets fun w => AllFirst connect w.link := by
  have recvFirst : ∀ (len : Nat) (l : Link), AllFirst connect l → AllFirst connect (l.recv len).2 := by
    intro len l ok
    obtain ⟨recvs,same⟩ := recvLink len l
    rw [same]
    exact interfereFirst ok
  refine ⟨fun len ms w ok => ?_,fun _ _ _ => id⟩
  exact (transferInvariant (fun moved => Link.recv (len - moved)) (fun _ => AllFirst connect) len
    (fun _ _ _ _ ok answer => ⟨recvFits answer,recvFirst _ _ ok⟩) (fun _ _ _ ok _ => recvFirst _ _ ok) ms w ok).2.1

/-! CONNECT itself -/

/- While CONNECT goes out: the connection holds the first `sent` bytes of the buffer behind
earlier attempts. -/
structure Dialled (connect : List UInt8) (byte : Nat → UInt8) (sent : Nat) (l : Link) : Prop where
  first : AllFirst connect l
  quiet : Undisturbed l.moves
  written : ∀ s, l.connection = some s →
    ∃ before, FirstConnect connect before ∧ s.written = before ++ Memory.slice byte 0 sent

theorem dialledStart {l : Link} (byte : Nat → UInt8) (ok : AllFirst connect l) (quiet : Undisturbed l.moves) :
    Dialled connect byte 0 l :=
  ⟨ok,quiet,fun s current => ⟨s.written,ok _ (connectionWritten current),by simp [Memory.slice]⟩⟩

theorem interfereDialled {byte : Nat → UInt8} {sent : Nat} {l : Link} (dialled : Dialled connect byte sent l) :
    Dialled connect byte sent l.interfere := by
  refine ⟨interfereFirst dialled.first,undisturbedLater dialled.quiet,fun s current => ?_⟩
  rcases interfereConnection (undisturbedNow dialled.quiet) with same | gone
  · exact dialled.written s (same.symm.trans current)
  · rw [gone] at current
    cases current

/- The buffer holds CONNECT at its start. -/
theorem sliceFirst {byte : Nat → UInt8} {length : Nat} (packet : Memory.slice byte 0 length = connect)
    (some : connect ≠ []) (sent : Nat) :
    Memory.slice byte 0 sent <+: connect ∨ connect ≠ [] ∧ connect <+: Memory.slice byte 0 sent := by
  rw [← packet]
  rcases Nat.le_total sent length with part | whole
  · left
    rw [← Memory.sliceTake byte 0 part]
    exact List.take_prefix _ _
  · rw [packet]
    refine Or.inr ⟨some,?_⟩
    rw [← packet, ← Memory.sliceTake byte 0 whole]
    exact List.take_prefix _ _

/- One call puts the bytes it takes behind those that went out. -/
theorem sendDialled {byte : Nat → UInt8} {length : Nat} (packet : Memory.slice byte 0 length = connect)
    (some : connect ≠ []) {sent size : Nat} {l : Link} (dialled : Dialled connect byte sent l) :
    Dialled connect byte (sent + ((l.send (Memory.slice byte sent size)).1.getD []).length)
      (l.send (Memory.slice byte sent size)).2 := by
  obtain ⟨ok,quiet,here⟩ := interfereDialled dialled
  rcases sendCases (Memory.slice byte sent size) l with ⟨_,same⟩ | ⟨s,current,after,written,moves,_,answer⟩
  · rw [same]
    exact ⟨ok,quiet,here⟩
  · obtain ⟨before,first,so⟩ := here s current
    have part : (l.send (Memory.slice byte sent size)).1.getD [] <+: Memory.slice byte sent size := by
      rw [answer]
      cases l.interfere.sends.headD none with
      | none => exact List.nil_prefix
      | some count => exact List.take_prefix count _
    have now : s.written ++ (l.send (Memory.slice byte sent size)).1.getD [] =
        before ++ Memory.slice byte 0 (sent + ((l.send (Memory.slice byte sent size)).1.getD []).length) := by
      rw [Memory.sliceAppend, Nat.zero_add, ← Memory.slicePrefix part, so, List.append_assoc]
    refine ⟨fun bytes inside => ?_,?_,fun s' held => ⟨before,first,?_⟩⟩
    · rcases written bytes inside with old | rfl
      · exact ok bytes old
      · rw [now]
        exact firstConnectMore first (sliceFirst packet some _)
    · rw [moves]
      exact quiet
    · rw [← Option.some.inj (after.symm.trans held)]
      exact now

theorem writeDialled {byte : Nat → UInt8} {length : Nat} (packet : Memory.slice byte 0 length = connect)
    (some : connect ≠ []) {sent : Nat} (size : Nat) (ms : UInt32) (w : Wire Link) (dialled : Dialled connect byte sent w.link) :
    let r := sockets.mqttwrite (Memory.slice byte sent size) ms w
    Dialled connect byte (sent + r.1.taken) r.2.link := by
  have each : ∀ (moved : List UInt8) (l : Link), moved.length ≤ size → Dialled connect byte (sent + moved.length) l →
      Dialled connect byte (sent + moved.length +
        ((l.send ((Memory.slice byte sent size).drop moved.length)).1.getD []).length)
        (l.send ((Memory.slice byte sent size).drop moved.length)).2 := by
    intro moved l fits so
    rw [Memory.sliceDrop byte sent fits]
    exact sendDialled packet some so
  have total := Memory.sliceLength byte sent size
  refine (transferInvariant (fun moved => Link.send ((Memory.slice byte sent size).drop moved))
    (fun moved => Dialled connect byte (sent + moved.length)) (Memory.slice byte sent size).length
    (fun moved l taken fits so answer => ⟨writeSize answer,?_⟩) (fun moved l fits so answer => ?_) ms w dialled).2.1
  · have after := each moved l (by omega) so
    rw [answer, Option.getD_some, Nat.add_assoc, ← List.length_append] at after
    exact after
  · have after := each moved l (by omega) so
    rw [answer] at after
    exact after

theorem sendLoopFirst {byte : Nat → UInt8} {length : Nat} (packet : Memory.slice byte 0 length = connect)
    (some : connect ≠ []) (fuel : Nat) (s : SendLoop Link) (dialled : Dialled connect byte s.sent s.wire.link) :
    AllFirst connect (sendLoop sockets byte length fuel s).wire.link := by
  induction fuel generalizing s with
  | zero => exact dialled.first
  | succ fuel ih =>
    unfold sendLoop
    split
    · dsimp only
      split
      · exact dialled.first
      · have after := writeDialled packet some length
          (timerLeftMs (timerIsExpired s.timer s.wire.clock).timer (timerIsExpired s.timer s.wire.clock).clock).ms
          { s.wire with clock := (timerLeftMs (timerIsExpired s.timer s.wire.clock).timer
            (timerIsExpired s.timer s.wire.clock).clock).clock } dialled
        split
        · exact after.first
        · rename_i counted
          have count := sockets.writeCount _ _ _ (Int.not_lt.mp counted)
          apply ih
          dsimp only
          rw [count]
          exact after
    · exact dialled.first

theorem sendSerializedFirst {s : Serialized} {t : MsgType} (opens : Opens s t) (timer : Timer) (st : St Link)
    (ok : AllFirst s.written st.wire.link) (quiet : Undisturbed st.wire.link.moves) :
    AllFirst s.written (sendSerialized sockets s timer st).st.wire.link := by
  unfold sendSerialized
  dsimp only
  split
  · exact ok
  · rename_i positive
    rcases opens with short | ⟨whole,_⟩
    · exact absurd short positive
    · have some : s.written ≠ [] := by
        intro empty
        rw [empty] at whole
        exact positive (by rw [whole]; decide)
      have loop := sendLoopFirst (emittedSlice st s.written) some (st.wire.clock.length + 1)
        ⟨failure,0,[],timer,st.wire⟩ (dialledStart _ ok quiet)
      rw [whole, Int.toNat_natCast]
      unfold sendPacket
      dsimp only
      split
      · exact loop
      · exact loop

theorem sendConnectFirst (options : ConnectData) {st : St Link} (room : st.client.bufSize = 200)
    (ok : AllFirst (connectPacket options) st.wire.link) (quiet : Undisturbed st.wire.link.moves) :
    AllFirst (connectPacket options) (sendConnect sockets (some options) st).st.wire.link := by
  obtain ⟨timer,st',same,wire,_,_⟩ := sendConnectCases sockets (some options) st
  rw [room, Option.getD_some] at same
  rw [same]
  apply sendSerializedFirst (connectOpens 200 options)
  · rw [wire]
    exact ok
  · rw [wire]
    exact quiet

/-! The steps -/

structure Proper (options : ConnectData) (w : World) : Prop where
  first : AllFirst (connectPacket options) w.st.wire.link
  bufSize : w.st.client.bufSize = 200

theorem loadHeld {env : Env} {st : St Link} (ok : AllFirst connect st.wire.link) (may : SendsSettled connect env st) :
    Held connect (load env st).wire.link := ⟨ok,may⟩

theorem cycleFirst (timer : Timer) {st : St Link} (ok : AllFirst connect st.wire.link)
    (may : Held connect st.wire.link ∨ Quiet sockets timer st) :
    AllFirst connect (cycle sockets timer st).st.wire.link := by
  rcases may with held | quiet
  · exact ((cycleStays (readsHeld connect) (writesHeld connect) timer st).wire held).first
  · rw [quietLink quiet]
    exact (readPacketStays (readsFirst connect) timer st).wire ok

theorem cycleBufSize (timer : Timer) (st : St Link) : (cycle sockets timer st).st.client.bufSize = st.client.bufSize :=
  (cycleStays (anyReads sockets) (anyWrites sockets) timer st).bufSize

theorem proceedProper {options : ConnectData} {c : Connecting Link} (task : Nat) (before : St Link)
    (ok : AllFirst (connectPacket options) c.st.wire.link) (size : c.st.client.bufSize = 200) :
    Proper options (proceed task before c) := by
  cases c with
  | waiting o => exact ⟨ok,size⟩
  | returned rc st =>
    have same : (setConnected rc st).wire = st.wire ∧ (setConnected rc st).client.bufSize = st.client.bufSize := by
      unfold setConnected
      split <;> exact ⟨rfl,rfl⟩
    refine ⟨?_,same.2.trans size⟩
    intro bytes inside
    apply ok bytes
    have link : (setConnected rc st).wire.link.transcripts = st.wire.link.transcripts := by rw [same.1]
    exact link ▸ inside

theorem stepProper {options : ConnectData} {w : World} {s : Step} (proper : Proper options w)
    (ordered : InOrder options w s) : Proper options (w.step options s) := by
  obtain ⟨ok,size⟩ := proper
  cases s with
  | mqttRun env =>
    have start : AllFirst (connectPacket options) (running env w.st).wire.link := ok
    have cycled := cycleFirst (runTimer env).timer start (ordered.imp (loadHeld ok) id)
    exact ⟨cycled,(cycleBufSize _ _).trans size⟩
  | mqttDisconnect task env =>
    have sent := disconnectStays (writesHeld (connectPacket options)) (load env w.st)
    exact ⟨(sent.wire (loadHeld ok ordered)).first,sent.bufSize.trans size⟩
  | move m => exact ⟨asideFirst (actAside w.st.wire.link m) ok,size⟩
  | mqttConnect task env =>
    apply proceedProper
    · rw [connectBeginSt]
      split
      · exact ok
      · rename_i off
        rcases ordered.resolve_left off with mute | quiet
        · have held : Held (connectPacket options) (load env w.st).wire.link := ⟨ok,Or.inl mute⟩
          exact ((sendConnectStays (writesHeld (connectPacket options)) _ _).wire held).first
        · exact sendConnectFirst options size ok quiet
    · rw [connectBeginSt]
      split
      · exact size
      · exact (sendConnectStays (anyWrites sockets) _ _).bufSize.trans size
  | waitfor env =>
    cases holder : w.holder with
    | none =>
      have idle : w.step options (.waitfor env) = w := by simp [World.step, holder]
      rw [idle]
      exact ⟨ok,size⟩
    | some h =>
      have round : w.step options (.waitfor env) = proceed h.task w.st (connectRound sockets h.timer (load env w.st)) := by
        simp [World.step, holder]
      have may := ordered h holder
      rw [round]
      apply proceedProper
      · rw [connectRoundSt]
        split
        · exact ok
        · rename_i waits
          exact cycleFirst _ ok ((may.resolve_left waits).imp (loadHeld ok) id)
      · rw [connectRoundSt]
        split
        · exact size
        · exact (cycleBufSize _ _).trans size

theorem bootProper (options : ConnectData) (sendbuf readbuf : Memory) (stack : UInt64) :
    Proper options (boot sendbuf readbuf stack) := ⟨fun _ inside => absurd inside List.not_mem_nil,rfl⟩

/-- Along every interleaving whose steps are in order, CONNECT is the first packet written
to each connection. -/
theorem connectComesFirst (options : ConnectData) (sendbuf readbuf : Memory) (stack : UInt64) (steps : List Step)
    (ordered : Run.Along (fire options) (fun w s => s.Enabled w → InOrder options w s)
      (boot sendbuf readbuf stack) steps) :
    AllFirst (connectPacket options) (Run.run (fire options) (boot sendbuf readbuf stack) steps).st.wire.link := by
  have kept : ∀ w s, Proper options w → (s.Enabled w → InOrder options w s) → Proper options (fire options w s) := by
    intro w s proper ordered
    unfold fire
    split
    · rename_i enabled
      exact stepProper proper (ordered enabled)
    · exact proper
  exact (Run.alongInvariant kept (bootProper options sendbuf readbuf stack) ordered).first

/-! A lost connection: four pings fail, and the task they start gets as far as a new socket. -/

def client : ConnectData :=
  { ConnectData.initializer with
    mqttVersion := 0x13, clientID := ⟨some ⟨[0x61],by simp⟩,none⟩, keepAliveInterval := 20 }

-- The clock stands during a stretch.
def stretch (ticks : UInt32) (recvs : List (Option (List UInt8))) (sends : List (Option Nat)) : Env :=
  ⟨List.replicate 20 ⟨0,ticks⟩,recvs,sends,[]⟩

def dial (task : Nat) : List Step := [.move ⟨task,.socket⟩,.move ⟨task,.returned⟩,.move ⟨task,.connected⟩]
def connack : List (Option (List UInt8)) := [some [0x20],some [2],some [0,0]]

def lost : List Step :=
  dial 0 ++ [.mqttConnect 0 (stretch 0 [] [some 17]),.waitfor (stretch 0 connack []),
    .mqttRun (stretch 2000 [] [none]),.mqttRun (stretch 4000 [] [none]),.mqttRun (stretch 6000 [] [none]),
    .mqttRun (stretch 8000 [] [none]),.mqttDisconnect 1 (stretch 8000 [] [none]),.move ⟨1,.returned⟩] ++ dial 1

def lostRun (later : List Step) : World := Run.run (fire client) (boot (.ofList []) (.ofList []) 0) (lost ++ later)

/- MQTTConnect before the next round of MQTTRun that has a ping to send. -/
def reconnect : List Step := [.mqttConnect 1 (stretch 8010 [] [some 17]),.waitfor (stretch 8010 connack [])]
def ping : Step := .mqttRun (stretch 10020 [] [some 2])

theorem lostInOrder : ∀ s ∈ lost ++ reconnect, ∀ w : World, s.Enabled w → InOrder client w s := by
  have errors : Mute [none] := by simp [Mute]
  have nothing : Mute [] := by simp [Mute]
  have alone : Undisturbed [] := by simp [Undisturbed]
  simp only [lost, dial, reconnect, List.cons_append, List.nil_append, List.forall_mem_cons]
  refine ⟨?_,?_,?_,?_,?_,?_,?_,?_,?_,?_,?_,?_,?_,?_,?_,?_,?_⟩
  all_goals first
    | exact fun _ _ => trivial
    | exact fun _ _ => Or.inl (Or.inl errors)
    | exact fun _ _ => Or.inl errors
    | exact fun _ _ => Or.inr (Or.inr alone)
    | exact fun _ _ _ _ => Or.inr (Or.inl (Or.inl nothing))
    | simp

theorem pingBehindConnect :
    (lostRun (reconnect ++ [ping])).st.wire.link.transcripts =
        [connectPacket client,connectPacket client ++ [0xC0,0x00]] ∧
      AllFirst (connectPacket client) (lostRun (reconnect ++ [ping])).st.wire.link := by
  refine ⟨by decide +kernel,?_⟩
  unfold lostRun
  rw [← List.append_assoc]
  apply connectComesFirst
  apply Run.alongAppend (Run.alongEvery lostInOrder _)
  refine ⟨fun _ => Or.inl (Or.inr ⟨fun s current => ?_,by simp [stretch, Undisturbed]⟩),trivial⟩
  have there : (lostRun reconnect).st.wire.link.connection = some ⟨.connected,connectPacket client⟩ := by
    decide +kernel
  rw [← Option.some.inj (there.symm.trans current)]
  exact ⟨by decide +kernel,[],[],⟨[],by simp,rfl⟩,by simp⟩

/- The next round of MQTTRun before MQTTConnect: the ping timer was not set again. -/
theorem pingBeforeConnect :
    ¬ AllFirst (connectPacket client) (lostRun [.mqttRun (stretch 8020 [] [some 2])]).st.wire.link := by
  intro first
  have pinged : [0xC0,0x00] ∈ (lostRun [.mqttRun (stretch 8020 [] [some 2])]).st.wire.link.transcripts := by
    decide +kernel
  have head := firstConnectHead (first _ pinged)
  exact absurd head (by decide +kernel)

end YunbaIot.ConnectFirst
