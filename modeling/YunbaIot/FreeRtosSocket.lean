import YunbaIot.MqttTransport

/-! The socket calls of MQTTFreeRTOS.c while other tasks close and replace the socket of
the Network. What such a task does outside the mutex happens in front of a recv or a
send of the task that holds it, or between two locked sections. -/
namespace YunbaIot.FreeRtosSocket
open FreeRtosTimer MqttTransport

inductive Phase where
  | created
  | connected
  | closed
  deriving DecidableEq, Repr

-- `written` is everything that was sent on the socket.
structure Socket where
  phase : Phase
  written : List UInt8
  deriving DecidableEq, Repr

/- Where a task stands on its way to a connection. connect() keeps the socket it was
called with. -/
inductive Pc where
  | mqttDisconnect
  | closesocket
  | socket
  | connect
  | connecting (socket : Option Nat)
  | mqttConnect
  | done
  deriving DecidableEq, Repr

inductive Role where
  | client
  | connectLost
  deriving DecidableEq, Repr

structure Task where
  role : Role
  pc : Pc
  deriving DecidableEq, Repr

-- how the call comes back that a task stands at
inductive Answer where
  | returned
  | noHost
  | noSocket
  | socket
  | refused
  | connected
  deriving DecidableEq, Repr

structure Move where
  task : Nat
  answer : Answer
  deriving DecidableEq, Repr

/- `recvs` and `sends` are the outcomes of the coming calls, `none` an error; `moves`
holds what the other tasks do in front of each. -/
structure Link where
  sockets : List Socket
  mySocket : Option Nat
  tasks : List Task
  recvs : List (Option (List UInt8))
  sends : List (Option Nat)
  moves : List (List Move)
  deriving DecidableEq, Repr

def networkInit : Link := ⟨[],none,[],[],[],[]⟩

def Link.get (l : Link) (s : Option Nat) : Option Socket := s.bind fun i => l.sockets[i]?
def Link.change (l : Link) (s : Option Nat) (f : Socket → Socket) : Link :=
  match s with
  | none => l
  | some i => { l with sockets := l.sockets.modify i f }
def Link.goto (l : Link) (task : Nat) (pc : Pc) : Link :=
  { l with tasks := l.tasks.modify task fun t => { t with pc := pc } }

def Link.opensocket (l : Link) : Link :=
  { l with sockets := l.sockets ++ [⟨.created,[]⟩], mySocket := some l.sockets.length }
def Link.closesocket (l : Link) : Link := l.change l.mySocket fun s => { s with phase := .closed }

/- ST_INIT of the client task goes on to MQTTConnect whatever NetworkConnect returns. -/
def Role.notConnected : Role → Pc
  | .client => .mqttConnect
  | .connectLost => .done

/- One call of FreeRTOS_disconnect or NetworkConnect by a task. -/
def Link.act (l : Link) (m : Move) : Link :=
  match l.tasks[m.task]? with
  | none => l
  | some t =>
    match t.pc, m.answer with
    | .closesocket, .returned => l.closesocket.goto m.task .socket
    | .socket, .noHost => l.goto m.task t.role.notConnected
    | .socket, .noSocket => { l with mySocket := none }.goto m.task t.role.notConnected
    | .socket, .socket => l.opensocket.goto m.task .connect
    | .connect, .returned => l.goto m.task (.connecting l.mySocket)
    | .connecting s, .connected =>
      if (l.get s).map Socket.phase = some .created then
        (l.change s fun s => { s with phase := .connected }).goto m.task .mqttConnect
      else l.closesocket.goto m.task t.role.notConnected
    | .connecting _, .refused => l.closesocket.goto m.task t.role.notConnected
    | _, _ => l

def Link.interfere (l : Link) : Link := (l.moves.headD []).foldl Link.act { l with moves := l.moves.tail }

def Link.connection (l : Link) : Option Socket := (l.get l.mySocket).filter fun s => s.phase = .connected

def Link.recv (len : Nat) (l : Link) : Option (List UInt8) × Link :=
  let l := l.interfere
  match l.connection with
  | none => (none, l)
  | some _ => ((l.recvs.headD none).map (List.take len), { l with recvs := l.recvs.tail })

def Link.send (bs : List UInt8) (l : Link) : Option (List UInt8) × Link :=
  let l := l.interfere
  match l.connection with
  | none => (none, l)
  | some _ =>
    let taken := (l.sends.headD none).map fun count => bs.take count
    let l := { l with sends := l.sends.tail }
    (taken, l.change l.mySocket fun s => { s with written := s.written ++ taken.getD [] })

/-! The loops -/

variable {τ : Type}

structure Transferred (τ : Type) where
  moved : List UInt8
  rc : Int
  wire : Wire τ

/- The loop that FreeRTOS_read and FreeRTOS_write share, over a call that is told how
many bytes have moved. An error leaves them where they are and is what is returned. -/
def transferLoop (call : Nat → τ → Option (List UInt8) × τ) (len : Nat) :
    Nat → Timer → List UInt8 → Wire τ → Transferred τ
  | 0, _, moved, w => ⟨moved,moved.length,w⟩
  | fuel+1, timer, moved, w =>
    match call moved.length w.link with
    | (none, link) => ⟨moved,-1,{ w with link := link }⟩
    | (some bs, link) =>
      let moved := moved ++ bs
      if moved.length < len then
        let check := timerIsExpired timer w.clock
        if check.expired then ⟨moved,moved.length,⟨check.clock,link⟩⟩
        else transferLoop call len fuel check.timer moved ⟨check.clock,link⟩
      else ⟨moved,moved.length,{ w with link := link }⟩

def transfer (call : Nat → τ → Option (List UInt8) × τ) (len : Nat) (ms : UInt32) (w : Wire τ) : Transferred τ :=
  let armed := timerCountdownMs ms w.clock
  transferLoop call len (armed.clock.length + 1) armed.timer [] { w with clock := armed.clock }

def freertosRead (len : Nat) (ms : UInt32) (w : Wire Link) : Transferred Link :=
  transfer (fun moved => Link.recv (len - moved)) len ms w

def freertosWrite (bs : List UInt8) (ms : UInt32) (w : Wire Link) : Transferred Link :=
  transfer (fun moved => Link.send (bs.drop moved)) bs.length ms w

variable (call : Nat → τ → Option (List UInt8) × τ)

/- What each call keeps of the bytes moved and the link, the loop keeps. -/
theorem transferLoopInvariant (inv : List UInt8 → τ → Prop) (len fuel : Nat)
    (moves : ∀ moved l bs, moved.length ≤ len → inv moved l → (call moved.length l).1 = some bs →
      bs.length ≤ len - moved.length ∧ inv (moved ++ bs) (call moved.length l).2)
    (fails : ∀ moved l, moved.length ≤ len → inv moved l → (call moved.length l).1 = none →
      inv moved (call moved.length l).2)
    (timer : Timer) (moved : List UInt8) (w : Wire τ) (fits : moved.length ≤ len) (ok : inv moved w.link) :
    let t := transferLoop call len fuel timer moved w
    t.moved.length ≤ len ∧ inv t.moved t.wire.link ∧ (0 ≤ t.rc → t.rc = t.moved.length) ∧
      t.wire.clock.length ≤ w.clock.length := by
  induction fuel generalizing timer moved w with
  | zero => exact ⟨fits,ok,fun _ => rfl,Nat.le_refl _⟩
  | succ fuel ih =>
    unfold transferLoop
    split
    · rename_i link answer
      have failed := fails moved w.link fits ok (by rw [answer])
      rw [answer] at failed
      have negative : ¬ (0 : Int) ≤ -1 := by decide
      exact ⟨fits,failed,fun positive => absurd positive negative,Nat.le_refl _⟩
    · rename_i bs link answer
      obtain ⟨room,still⟩ := moves moved w.link bs fits ok (by rw [answer])
      rw [answer] at still
      have inside : (moved ++ bs).length ≤ len := by
        rw [List.length_append]
        omega
      have ticked := expiredClock timer w.clock
      dsimp only
      split
      · split
        · exact ⟨inside,still,fun _ => rfl,ticked⟩
        · obtain ⟨size,kept,count,clock⟩ := ih (timerIsExpired timer w.clock).timer (moved ++ bs)
            ⟨(timerIsExpired timer w.clock).clock,link⟩ inside still
          exact ⟨size,kept,count,Nat.le_trans clock ticked⟩
      · exact ⟨inside,still,fun _ => rfl,Nat.le_refl _⟩

theorem transferInvariant (inv : List UInt8 → τ → Prop) (len : Nat)
    (moves : ∀ moved l bs, moved.length ≤ len → inv moved l → (call moved.length l).1 = some bs →
      bs.length ≤ len - moved.length ∧ inv (moved ++ bs) (call moved.length l).2)
    (fails : ∀ moved l, moved.length ≤ len → inv moved l → (call moved.length l).1 = none →
      inv moved (call moved.length l).2)
    (ms : UInt32) (w : Wire τ) (ok : inv [] w.link) :
    let t := transfer call len ms w
    t.moved.length ≤ len ∧ inv t.moved t.wire.link ∧ (0 ≤ t.rc → t.rc = t.moved.length) ∧
      t.wire.clock.length ≤ w.clock.length := by
  obtain ⟨size,kept,count,clock⟩ := transferLoopInvariant call inv len ((timerCountdownMs ms w.clock).clock.length + 1)
    moves fails (timerCountdownMs ms w.clock).timer [] ⟨(timerCountdownMs ms w.clock).clock,w.link⟩ (Nat.zero_le _) ok
  exact ⟨size,kept,count,Nat.le_trans clock (countdownClock ms w.clock)⟩

/- The fuel of the loop lasts. -/
theorem transferLoopStable (len fuel other : Nat) (timer : Timer) (moved : List UInt8) (w : Wire τ)
    (enough : w.clock.length < fuel) (enough' : w.clock.length < other) :
    transferLoop call len fuel timer moved w = transferLoop call len other timer moved w := by
  induction fuel generalizing other timer moved w with
  | zero => omega
  | succ fuel ih =>
    cases other with
    | zero => omega
    | succ other =>
      unfold transferLoop
      split
      · rfl
      · dsimp only
        split
        · split
          · rfl
          · rename_i running
            have ticked := runningClock (Bool.eq_false_iff.mpr running)
            apply ih
            · exact Nat.lt_of_lt_of_le ticked (Nat.le_of_lt_succ enough)
            · exact Nat.lt_of_lt_of_le ticked (Nat.le_of_lt_succ enough')
        · rfl

theorem recvFits {len : Nat} {l : Link} {bs : List UInt8} (answer : (l.recv len).1 = some bs) : bs.length ≤ len := by
  unfold Link.recv at answer
  dsimp only at answer
  split at answer
  · cases answer
  · obtain ⟨whole,_,rfl⟩ := Option.map_eq_some_iff.mp answer
    rw [List.length_take]
    exact Nat.min_le_left _ _

theorem sendFits {offered : List UInt8} {l : Link} {bs : List UInt8} (answer : (l.send offered).1 = some bs) :
    bs <+: offered := by
  unfold Link.send at answer
  dsimp only at answer
  split at answer
  · cases answer
  · obtain ⟨count,_,rfl⟩ := Option.map_eq_some_iff.mp answer
    exact List.take_prefix count offered

theorem recvTransfers (len : Nat) (ms : UInt32) (w : Wire Link) :
    let t := freertosRead len ms w
    t.moved.length ≤ len ∧ (0 ≤ t.rc → t.rc = t.moved.length) ∧ t.wire.clock.length ≤ w.clock.length := by
  obtain ⟨size,_,count,clock⟩ := transferInvariant (fun moved => Link.recv (len - moved)) (fun _ _ => True) len
    (fun _ _ _ _ _ answer => ⟨recvFits answer,trivial⟩) (fun _ _ _ _ _ => trivial) ms w trivial
  exact ⟨size,count,clock⟩

theorem sendTransfers (bs : List UInt8) (ms : UInt32) (w : Wire Link) :
    let t := freertosWrite bs ms w
    t.moved.length ≤ bs.length ∧ (0 ≤ t.rc → t.rc = t.moved.length) ∧ t.wire.clock.length ≤ w.clock.length := by
  obtain ⟨size,_,count,clock⟩ := transferInvariant (fun moved => Link.send (bs.drop moved)) (fun _ _ => True) bs.length
    (fun moved _ _ _ _ answer => ⟨by
      have part := (sendFits answer).length_le
      rw [List.length_drop] at part
      exact part,trivial⟩) (fun _ _ _ _ _ => trivial) ms w trivial
  exact ⟨size,count,clock⟩

def sockets : Network Link where
  mqttread len ms w := let t := freertosRead len ms w; (⟨t.moved,t.rc⟩, t.wire)
  mqttwrite bs ms w := let t := freertosWrite bs ms w; (⟨t.moved.length,t.rc⟩, t.wire)
  readFits len ms w := (recvTransfers len ms w).1
  readCount len ms w := (recvTransfers len ms w).2.1
  readClock len ms w := (recvTransfers len ms w).2.2
  writeFits bs ms w := (sendTransfers bs ms w).1
  writeCount bs ms w := (sendTransfers bs ms w).2.1
  writeClock bs ms w := (sendTransfers bs ms w).2.2

/-! What the calls of the other tasks do to the sockets -/

def Link.transcripts (l : Link) : List (List UInt8) := l.sockets.map Socket.written

theorem getChange (l : Link) (s t : Option Nat) (f : Socket → Socket) :
    (l.change s f).get t = if s = t then (l.get t).map f else l.get t := by
  cases s with
  | none =>
    cases t with
    | none => rfl
    | some j => rfl
  | some i =>
    cases t with
    | none => rfl
    | some j =>
      simp only [Link.get, Link.change, Option.bind_some, List.getElem?_modify, Option.some.injEq]
      split <;> simp

theorem changeTranscripts (l : Link) (s : Option Nat) {f : Socket → Socket}
    (keeps : ∀ socket, (f socket).written = socket.written) : (l.change s f).transcripts = l.transcripts := by
  cases s with
  | none => rfl
  | some i =>
    apply List.ext_getElem?
    intro j
    simp only [Link.transcripts, Link.change, List.getElem?_map, List.getElem?_modify]
    split
    · simp [Function.comp_def, keeps]
    · simp

/- A call leaves the sockets and my_socket, drops my_socket, opens a socket, closes the one
of my_socket, or connects one. -/
theorem actCases (l : Link) (m : Move) : ∃ tasks, l.act m = { l with tasks := tasks } ∨
    l.act m = { l with tasks := tasks, mySocket := none } ∨ l.act m = { l.opensocket with tasks := tasks } ∨
    l.act m = { l.closesocket with tasks := tasks } ∨
    m.answer = .connected ∧ ∃ s, l.act m = { l.change s fun s => { s with phase := .connected } with tasks := tasks } := by
  unfold Link.act
  split
  · exact ⟨l.tasks,Or.inl rfl⟩
  · split
    · exact ⟨_,Or.inr (Or.inr (Or.inr (Or.inl rfl)))⟩
    · exact ⟨_,Or.inl rfl⟩
    · exact ⟨_,Or.inr (Or.inl rfl)⟩
    · exact ⟨_,Or.inr (Or.inr (Or.inl rfl))⟩
    · exact ⟨_,Or.inl rfl⟩
    · rename_i s _ answer
      split
      · exact ⟨_,Or.inr (Or.inr (Or.inr (Or.inr ⟨answer,s,rfl⟩)))⟩
      · exact ⟨_,Or.inr (Or.inr (Or.inr (Or.inl rfl)))⟩
    · exact ⟨_,Or.inr (Or.inr (Or.inr (Or.inl rfl)))⟩
    · exact ⟨l.tasks,Or.inl rfl⟩

theorem actConnection {l : Link} {m : Move} (quiet : m.answer ≠ .connected) :
    (l.act m).connection = l.connection ∨ (l.act m).connection = none := by
  obtain ⟨tasks,same | dropped | opened | closed | ⟨connects,_⟩⟩ := actCases l m
  · left
    rw [same]
    rfl
  · right
    rw [dropped]
    rfl
  · right
    rw [opened]
    simp [Link.connection, Link.get, Link.opensocket]
  · right
    have phase : ({ l.closesocket with tasks := tasks } : Link).connection =
        (l.closesocket.get l.closesocket.mySocket).filter fun s => s.phase = .connected := rfl
    have current : l.closesocket.mySocket = l.mySocket := by
      unfold Link.closesocket Link.change
      split <;> rfl
    rw [closed, phase, current, Link.closesocket, getChange, if_pos rfl]
    cases l.get l.mySocket <;> rfl
  · exact absurd connects quiet

/- What the other tasks do between two calls of one: no byte of a socket changes. -/
structure Aside (l l' : Link) : Prop where
  transcripts : ∀ w ∈ l'.transcripts, w = [] ∨ w ∈ l.transcripts
  sends : l'.sends = l.sends
  moves : l'.moves = l.moves

theorem Aside.trans {a b c : Link} (h : Aside a b) (k : Aside b c) : Aside a c := by
  refine ⟨fun w inside => ?_,k.sends.trans h.sends,k.moves.trans h.moves⟩
  rcases k.transcripts w inside with empty | before
  · exact Or.inl empty
  · exact h.transcripts w before

theorem actAside (l : Link) (m : Move) : Aside l (l.act m) := by
  have changed : ∀ (s : Option Nat) (phase : Phase) (tasks : List Task),
      Aside l { l.change s fun s => { s with phase := phase } with tasks := tasks } := by
    intro s phase tasks
    have kept := changeTranscripts l s (f := fun s => { s with phase := phase }) fun _ => rfl
    refine ⟨fun w inside => Or.inr ?_,?_,?_⟩
    · rw [← kept]
      exact inside
    · cases s <;> rfl
    · cases s <;> rfl
  obtain ⟨tasks,same | dropped | opened | closed | ⟨_,s,connected⟩⟩ := actCases l m
  · rw [same]
    exact ⟨fun _ => Or.inr,rfl,rfl⟩
  · rw [dropped]
    exact ⟨fun _ => Or.inr,rfl,rfl⟩
  · rw [opened]
    refine ⟨fun w inside => ?_,rfl,rfl⟩
    simp only [Link.transcripts, Link.opensocket, List.map_append, List.map_cons, List.map_nil,
      List.mem_append, List.mem_singleton] at inside
    exact inside.symm
  · rw [closed]
    exact changed l.mySocket .closed tasks
  · rw [connected]
    exact changed s .connected tasks

theorem interfereAside (l : Link) : Aside { l with moves := l.moves.tail } l.interfere := by
  unfold Link.interfere
  generalize ({ l with moves := l.moves.tail } : Link) = l'
  induction l.moves.headD [] generalizing l' with
  | nil => exact ⟨fun _ => Or.inr,rfl,rfl⟩
  | cons m later ih => exact (actAside l' m).trans (ih (l'.act m))

theorem interfereConnection {l : Link} (quiet : ∀ m ∈ l.moves.headD [], m.answer ≠ .connected) :
    l.interfere.connection = l.connection ∨ l.interfere.connection = none := by
  have start : l.connection = ({ l with moves := l.moves.tail } : Link).connection := rfl
  unfold Link.interfere
  rw [start]
  generalize ({ l with moves := l.moves.tail } : Link) = l'
  generalize l.moves.headD [] = moves at quiet ⊢
  induction moves generalizing l' with
  | nil => exact Or.inl rfl
  | cons m later ih =>
    have rest := ih (l'.act m) fun m inside => quiet m (List.mem_cons_of_mem _ inside)
    rcases actConnection (l := l') (quiet m (List.mem_cons_self ..)) with same | gone
    · rw [same] at rest
      exact rest
    · rw [gone, or_self] at rest
      exact Or.inr rest

theorem recvLink (len : Nat) (l : Link) : ∃ recvs, (l.recv len).2 = { l.interfere with recvs := recvs } := by
  unfold Link.recv
  dsimp only
  split
  · exact ⟨_,rfl⟩
  · exact ⟨_,rfl⟩

/- A send finds no connection and fails, or leaves what it takes behind what was written. -/
theorem sendCases (bs : List UInt8) (l : Link) :
    l.interfere.connection = none ∧ l.send bs = (none, l.interfere) ∨
    ∃ s, l.interfere.connection = some s ∧
      let taken := (l.send bs).1.getD []
      (l.send bs).2.connection = some { s with written := s.written ++ taken } ∧
      (∀ w ∈ (l.send bs).2.transcripts, w ∈ l.interfere.transcripts ∨ w = s.written ++ taken) ∧
      (l.send bs).2.moves = l.interfere.moves ∧ (l.send bs).2.sends = l.interfere.sends.tail ∧
      (l.send bs).1 = (l.interfere.sends.headD none).map fun count => bs.take count := by
  unfold Link.send
  dsimp only
  generalize l.interfere = l'
  cases current : l'.connection with
  | none => exact Or.inl ⟨rfl,rfl⟩
  | some s =>
    obtain ⟨found,phase⟩ := Option.filter_eq_some_iff.mp current
    cases mine : l'.mySocket with
    | none =>
      rw [mine] at found
      cases found
    | some i =>
      rw [mine] at found
      have there : l'.sockets[i]? = some s := found
      dsimp only
      refine Or.inr ⟨s,rfl,?_,fun w inside => ?_,rfl,rfl,rfl⟩
      · have connected : s.phase = .connected := of_decide_eq_true phase
        simp [Link.connection, Link.get, Link.change, there, List.getElem?_modify, connected]
      · obtain ⟨socket,member,rfl⟩ := List.mem_map.mp inside
        obtain ⟨j,old⟩ := List.mem_iff_getElem?.mp member
        simp only [Link.change, List.getElem?_modify] at old
        split at old
        · rename_i same
          subst same
          rw [there] at old
          right
          rw [← Option.some.inj old]
        · left
          simp only [Option.map_eq_map, Option.map_id'] at old
          exact List.mem_map.mpr ⟨socket,List.mem_of_getElem? old,rfl⟩

end YunbaIot.FreeRtosSocket
