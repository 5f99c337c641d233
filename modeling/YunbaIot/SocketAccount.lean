import Mathlib.Algebra.BigOperators.Group.Finset.Basic
import Mathlib.Algebra.Order.BigOperators.Group.Finset
import YunbaIot.FreeRtosSocket
import YunbaIot.Memory

/-! FreeRTOS_read and FreeRTOS_write over the buffer of the caller: which bytes of the stream and
of the buffer the number they return stands for. The loop is that of the socket with the bytes
and the codes of the errors in it. -/
namespace YunbaIot.SocketAccount
open FreeRtosTimer MqttTransport
open FreeRtosSocket (transferLoop transfer transferInvariant)

/- `results` holds what the coming calls can move, or the code of their error. `given` holds
where in the buffer a call was told to start, and how far it could go. -/
structure Line where
  stream : Nat → UInt8
  consumed : Nat
  sent : List UInt8
  buffer : Memory
  results : Nat → Int
  given : List (Int × Int)

def Line.recv (start count : Int) (l : Line) : Int × Line :=
  let rc := min (l.results 0) count
  (rc,{ l with
    consumed := l.consumed + rc.toNat
    buffer := l.buffer.store start.toNat (Memory.slice l.stream l.consumed rc.toNat)
    results := fun i => l.results (i + 1)
    given := l.given ++ [(start,count)] })

def Line.send (start count : Int) (l : Line) : Int × Line :=
  let rc := min (l.results 0) count
  (rc,{ l with
    sent := l.sent ++ Memory.slice l.buffer.byte start.toNat rc.toNat
    results := fun i => l.results (i + 1)
    given := l.given ++ [(start,count)] })

structure Returned where
  rc : Int
  wire : Wire Line

/- The loop of both functions; the fuel is one more than the clock can last. -/
def socketLoop (call : Int → Int → Line → Int × Line) (len : Int) : Nat → Timer → Int → Wire Line → Returned
  | 0, _, moved, w => ⟨moved,w⟩
  | fuel+1, timer, moved, w =>
    let r := call moved (len - moved) w.link
    if r.1 < 0 then ⟨r.1,⟨w.clock,r.2⟩⟩
    else
      let moved := if 0 < r.1 then moved + r.1 else moved
      if moved < len then
        let check := timerIsExpired timer w.clock
        if check.expired then ⟨moved,⟨check.clock,r.2⟩⟩
        else socketLoop call len fuel check.timer moved ⟨check.clock,r.2⟩
      else ⟨moved,⟨w.clock,r.2⟩⟩

def socketCall (call : Int → Int → Line → Int × Line) (len : Int) (timeoutMs : UInt32) (w : Wire Line) : Returned :=
  let armed := timerCountdownMs timeoutMs w.clock
  socketLoop call len (armed.clock.length + 1) armed.timer 0 ⟨armed.clock,w.link⟩

def freertosRead (len : Int) (timeoutMs : UInt32) (w : Wire Line) : Returned := socketCall Line.recv len timeoutMs w
def freertosWrite (len : Int) (timeoutMs : UInt32) (w : Wire Line) : Returned := socketCall Line.send len timeoutMs w

/- The fuel of the loop lasts. -/
theorem loopStable (call : Int → Int → Line → Int × Line) (len : Int) (fuel other : Nat) (timer : Timer) (moved : Int)
    (w : Wire Line) (enough : w.clock.length < fuel) (enough' : w.clock.length < other) :
    socketLoop call len fuel timer moved w = socketLoop call len other timer moved w := by
  induction fuel generalizing other timer moved w with
  | zero => omega
  | succ fuel ih =>
    cases other with
    | zero => omega
    | succ other =>
      unfold socketLoop
      dsimp only
      generalize (if 0 < (call moved (len - moved) w.link).1 then moved + (call moved (len - moved) w.link).1
        else moved) = total
      split
      · rfl
      · split
        · split
          · rfl
          · rename_i running
            have ticked := runningClock (Bool.eq_false_iff.mpr running)
            apply ih
            · exact Nat.lt_of_lt_of_le ticked (Nat.le_of_lt_succ enough)
            · exact Nat.lt_of_lt_of_le ticked (Nat.le_of_lt_succ enough')
        · rfl

/-! The loop is that of FreeRtosSocket. -/

/- A call that gives as much as is there, at most what it is asked for, and `bytes` of it. -/
structure Counted (call : Int → Int → Line → Int × Line) (bytes : Nat → Line → Nat → List UInt8) : Prop where
  result : ∀ start count l, (call start count l).1 = min (l.results 0) count
  later : ∀ start count l i, (call start count l).2.results i = l.results (i + 1)
  size : ∀ start l count, (bytes start l count).length = count

def received (_ : Nat) (l : Line) (count : Nat) : List UInt8 := Memory.slice l.stream l.consumed count
def taken (start : Nat) (l : Line) (count : Nat) : List UInt8 := Memory.slice l.buffer.byte start count

theorem recvCounted : Counted Line.recv received :=
  ⟨fun _ _ _ => rfl,fun _ _ _ _ => rfl,fun _ _ _ => Memory.sliceLength ..⟩

theorem sendCounted : Counted Line.send taken :=
  ⟨fun _ _ _ => rfl,fun _ _ _ _ => rfl,fun _ _ _ => Memory.sliceLength ..⟩

variable (call : Int → Int → Line → Int × Line) (bytes : Nat → Line → Nat → List UInt8)

/- The call as the bytes it moves. -/
def moving (len : Int) (moved : Nat) (l : Line) : Option (List UInt8) × Line :=
  let r := call moved (len - moved) l
  (if r.1 < 0 then none else some (bytes moved l r.1.toNat),r.2)

variable {call bytes}

theorem movingFails {len : Int} {moved : Nat} {l : Line} (failed : (call moved (len - moved) l).1 < 0) :
    moving call bytes len moved l = (none,(call moved (len - moved) l).2) := by
  unfold moving
  dsimp only
  rw [if_pos failed]

theorem movingGives {len : Int} {moved : Nat} {l : Line} (fine : 0 ≤ (call moved (len - moved) l).1) :
    moving call bytes len moved l =
      (some (bytes moved l (call moved (len - moved) l).1.toNat),(call moved (len - moved) l).2) := by
  unfold moving
  dsimp only
  rw [if_neg (Int.not_lt.mpr fine)]

theorem loopMoves (counted : Counted call bytes) (len : Int) (fuel : Nat) (timer : Timer) (moved : List UInt8)
    (w : Wire Line) :
    let r := socketLoop call len fuel timer moved.length w
    let t := transferLoop (moving call bytes len) len.toNat fuel timer moved w
    r.wire = t.wire ∧ (r.rc < 0 ↔ t.rc < 0) ∧ (0 ≤ r.rc → r.rc = t.moved.length) := by
  induction fuel generalizing timer moved w with
  | zero => exact ⟨rfl,Iff.rfl,fun _ => rfl⟩
  | succ fuel ih =>
    unfold socketLoop transferLoop
    dsimp only
    rcases Int.lt_or_le (call moved.length (len - moved.length) w.link).1 0 with failed | fine
    · rw [if_pos failed, movingFails failed]
      have negative : (-1 : Int) < 0 := by decide
      exact ⟨rfl,iff_of_true failed negative,fun positive => absurd failed (Int.not_lt.mpr positive)⟩
    · rw [if_neg (Int.not_lt.mpr fine), movingGives fine]
      dsimp only
      generalize call moved.length (len - moved.length) w.link = r at fine ⊢
      have size := counted.size moved.length w.link r.1.toNat
      generalize bytes moved.length w.link r.1.toNat = bs at size ⊢
      have count : (if 0 < r.1 then (moved.length : Int) + r.1 else moved.length) = ((moved ++ bs).length : Nat) := by
        rw [List.length_append, size]
        split <;> omega
      have bound : ((moved ++ bs).length : Int) < len ↔ (moved ++ bs).length < len.toNat := by omega
      rw [count]
      simp only [bound]
      split
      · split
        · exact ⟨rfl,Iff.rfl,fun _ => rfl⟩
        · exact ih _ (moved ++ bs) _
      · exact ⟨rfl,Iff.rfl,fun _ => rfl⟩

theorem callMoves (counted : Counted call bytes) (len : Int) (timeoutMs : UInt32) (w : Wire Line) :
    let r := socketCall call len timeoutMs w
    let t := transfer (moving call bytes len) len.toNat timeoutMs w
    r.wire = t.wire ∧ (r.rc < 0 ↔ t.rc < 0) ∧ (0 ≤ r.rc → r.rc = t.moved.length) :=
  loopMoves counted len _ (timerCountdownMs timeoutMs w.clock).timer [] _

/-! An error behind bytes that were moved -/

/- The first n looks at the timer find time left. -/
def TimeLeft : Nat → Timer → List Tick → Prop
  | 0, _, _ => True
  | n+1, timer, clock =>
    (timerIsExpired timer clock).expired = false ∧
      TimeLeft n (timerIsExpired timer clock).timer (timerIsExpired timer clock).clock

/- Call n is made behind `moved` bytes and those of the calls before it, and fails. -/
structure BreaksAt (len moved : Int) (timer : Timer) (clock : List Tick) (results : Nat → Int) (n : Nat) : Prop where
  before : ∀ i < n, 0 ≤ results i
  some : 0 < moved + ∑ i ∈ Finset.range n, results i
  room : moved + ∑ i ∈ Finset.range n, results i < len
  time : TimeLeft n timer clock
  fails : results n < 0

/- An error comes behind a call of the same run that moved something. -/
def BreaksOff (len : Int) (timeoutMs : UInt32) (w : Wire Line) (n : Nat) : Prop :=
  BreaksAt len 0 (timerCountdownMs timeoutMs w.clock).timer (timerCountdownMs timeoutMs w.clock).clock w.link.results n

theorem breaksLater {len moved : Int} {timer : Timer} {clock : List Tick} {results : Nat → Int} {n : Nat} :
    BreaksAt len moved timer clock results (n + 1) ↔ 0 ≤ results 0 ∧ (timerIsExpired timer clock).expired = false ∧
      BreaksAt len (moved + results 0) (timerIsExpired timer clock).timer (timerIsExpired timer clock).clock
        (fun i => results (i + 1)) n := by
  have sum : moved + ∑ i ∈ Finset.range (n + 1), results i =
      moved + results 0 + ∑ i ∈ Finset.range n, results (i + 1) := by
    rw [Finset.sum_range_succ']
    omega
  constructor
  · rintro ⟨before,some,room,⟨now,time⟩,fails⟩
    rw [sum] at some room
    exact ⟨before 0 (Nat.succ_pos n),now,fun i inside => before (i + 1) (Nat.succ_lt_succ inside),some,room,time,fails⟩
  · rintro ⟨first,now,before,some,room,time,fails⟩
    rw [← sum] at some room
    refine ⟨fun i inside => ?_,some,room,⟨now,time⟩,fails⟩
    cases i with
    | zero => exact first
    | succ i => exact before i (Nat.lt_of_succ_lt_succ inside)

/- The calls that move more than there is room for are the last ones. -/
theorem breaksRoom {len moved : Int} {timer : Timer} {clock : List Tick} {results : Nat → Int} {n : Nat}
    (breaks : BreaksAt len moved timer clock results n) {i : Nat} (before : i < n) : moved + results i < len := by
  have one : results i ≤ ∑ i ∈ Finset.range n, results i :=
    Finset.single_le_sum (fun j inside => breaks.before j (Finset.mem_range.mp inside)) (Finset.mem_range.mpr before)
  have room := breaks.room
  omega

theorem breaksNow {len moved : Int} {timer : Timer} {clock : List Tick} {results : Nat → Int} :
    BreaksAt len moved timer clock results 0 ↔ 0 < moved ∧ moved < len ∧ results 0 < 0 := by
  constructor
  · rintro ⟨_,some,room,_,fails⟩
    rw [Finset.sum_range_zero, Int.add_zero] at some room
    exact ⟨some,room,fails⟩
  · rintro ⟨some,room,fails⟩
    refine ⟨nofun,?_,?_,trivial,fails⟩
    · rw [Finset.sum_range_zero, Int.add_zero]
      exact some
    · rw [Finset.sum_range_zero, Int.add_zero]
      exact room

/- A call that fails breaks off where something was moved before it. -/
theorem breaksFailing {len moved rc : Int} {timer : Timer} {clock : List Tick} {results : Nat → Int}
    (result : rc = min (results 0) (len - moved)) (failed : rc < 0) (started : moved = 0 ∨ 0 < moved ∧ moved < len) :
    (∃ n, BreaksAt len moved timer clock results n) ↔ 0 < moved := by
  constructor
  · rintro ⟨n,breaks⟩
    cases n with
    | zero => exact (breaksNow.mp breaks).1
    | succ n =>
      have first := breaks.before 0 (Nat.succ_pos n)
      have room := breaksRoom breaks (Nat.succ_pos n)
      omega
  · intro some
    have room := (started.resolve_left (by omega)).2
    exact ⟨0,breaksNow.mpr ⟨some,room,by omega⟩⟩

/- Behind a call that does not fail it is one of the later calls that does, if the loop goes on. -/
theorem breaksBehind {len moved rc : Int} {timer : Timer} {clock : List Tick} {results : Nat → Int}
    (result : rc = min (results 0) (len - moved)) (fine : 0 ≤ rc) :
    (∃ n, BreaksAt len moved timer clock results n) ↔
      moved + rc < len ∧ (timerIsExpired timer clock).expired = false ∧
        ∃ n, BreaksAt len (moved + rc) (timerIsExpired timer clock).timer (timerIsExpired timer clock).clock
          (fun i => results (i + 1)) n := by
  constructor
  · rintro ⟨n,breaks⟩
    cases n with
    | zero =>
      have fails := (breaksNow.mp breaks).2.2
      omega
    | succ n =>
      have room := breaksRoom breaks (Nat.succ_pos n)
      obtain ⟨_,running,later⟩ := breaksLater.mp breaks
      have all : results 0 = rc := by omega
      rw [all] at room later
      exact ⟨room,running,n,later⟩
  · rintro ⟨room,running,n,later⟩
    have all : rc = results 0 := by omega
    rw [all] at later
    exact ⟨n+1,breaksLater.mpr ⟨by omega,running,later⟩⟩

/- The bytes of the earlier calls are lost to the caller exactly where a call breaks off. -/
theorem lossExact (counted : Counted call bytes) (len : Int) (fuel : Nat) (timer : Timer) (moved : List UInt8)
    (w : Wire Line) (enough : w.clock.length < fuel) (started : moved = [] ∨ moved.length < len) :
    let t := transferLoop (moving call bytes len) len.toNat fuel timer moved w
    (t.rc < 0 ∧ t.moved ≠ []) ↔ ∃ n, BreaksAt len moved.length timer w.clock w.link.results n := by
  induction fuel generalizing timer moved w with
  | zero => omega
  | succ fuel ih =>
    have result := counted.result moved.length (len - moved.length) w.link
    have later := funext (counted.later moved.length (len - moved.length) w.link)
    unfold transferLoop
    rcases Int.lt_or_le (call moved.length (len - moved.length) w.link).1 0 with failed | fine
    · have begun : (moved.length : Int) = 0 ∨ 0 < (moved.length : Int) ∧ moved.length < len := by
        rcases started with rfl | room
        · exact Or.inl rfl
        · omega
      have negative : (-1 : Int) < 0 := by decide
      rw [movingFails failed, breaksFailing result failed begun, Int.natCast_pos, List.length_pos_iff]
      exact and_iff_right negative
    · rw [movingGives fine, breaksBehind result fine, ← later]
      dsimp only
      generalize call moved.length (len - moved.length) w.link = r at fine ⊢
      have size := counted.size moved.length w.link r.1.toNat
      generalize bytes moved.length w.link r.1.toNat = bs at size ⊢
      have whole : (moved.length : Int) + r.1 = ((moved ++ bs).length : Nat) := by
        rw [List.length_append, size]
        omega
      have positive : ¬ (((moved ++ bs).length : Nat) : Int) < 0 := by omega
      rw [whole]
      split
      · rename_i more
        have room : ((moved ++ bs).length : Int) < len := by omega
        split
        · rename_i expired
          rw [expired]
          exact iff_of_false (fun ended => positive ended.1) (fun goes => Bool.noConfusion goes.2.1)
        · rename_i running
          have going := Bool.eq_false_iff.mpr running
          have ticked := Nat.lt_of_lt_of_le (runningClock going) (Nat.le_of_lt_succ enough)
          rw [and_iff_right room, and_iff_right going]
          exact ih _ (moved ++ bs) ⟨_,r.2⟩ ticked (Or.inr room)
      · exact iff_of_false (fun ended => positive ended.1) (fun goes => by omega)

/-! What the calls keep -/

def InBuffer (len : Int) (range : Int × Int) : Prop := ∀ i, range.1 ≤ i → i < range.1 + range.2 → 0 ≤ i ∧ i < len

structure Reading (len : Int) (start : Line) (moved : List UInt8) (l : Line) : Prop where
  buffer : l.buffer.byte = (start.buffer.store 0 moved).byte
  bytes : moved = Memory.slice start.stream start.consumed moved.length
  stream : l.stream = start.stream
  consumed : l.consumed = start.consumed + moved.length
  sent : l.sent = start.sent
  given : ∀ range ∈ l.given, range ∈ start.given ∨ InBuffer len range

structure Writing (len : Int) (start : Line) (moved : List UInt8) (l : Line) : Prop where
  bytes : moved = Memory.slice start.buffer.byte 0 moved.length
  buffer : l.buffer = start.buffer
  sent : l.sent = start.sent ++ moved
  consumed : l.consumed = start.consumed
  given : ∀ range ∈ l.given, range ∈ start.given ∨ InBuffer len range

theorem givenInside {len : Int} {given before : List (Int × Int)} {moved : Nat}
    (known : ∀ range ∈ given, range ∈ before ∨ InBuffer len range) :
    ∀ range ∈ given ++ [((moved : Int),len - moved)], range ∈ before ∨ InBuffer len range := by
  intro range member
  rcases List.mem_append.mp member with old | new
  · exact known range old
  · rw [List.mem_singleton] at new
    subst new
    right
    intro i low high
    dsimp only at low high
    omega

theorem sliceBehind {byte : Nat → UInt8} {start : Nat} {moved : List UInt8}
    (bytes : moved = Memory.slice byte start moved.length) (count : Nat) :
    moved ++ Memory.slice byte (start + moved.length) count =
      Memory.slice byte start (moved ++ Memory.slice byte (start + moved.length) count).length := by
  rw [List.length_append, Memory.sliceLength, Memory.sliceAppend, ← bytes]

theorem recvKeeps {len : Int} {start : Line} {moved : List UInt8} {l : Line} (kept : Reading len start moved l) :
    let r := l.recv moved.length (len - moved.length)
    Reading len start (moved ++ received moved.length l r.1.toNat) r.2 := by
  unfold Line.recv received
  dsimp only
  generalize (min (l.results 0) (len - moved.length)).toNat = count
  rw [kept.stream, kept.consumed]
  refine ⟨?_,sliceBehind kept.bytes count,rfl,?_,kept.sent,givenInside kept.given⟩
  · exact Memory.storeBehind kept.buffer (by simp) _
  · rw [List.length_append, Memory.sliceLength, Nat.add_assoc]

theorem sendKeeps {len : Int} {start : Line} {moved : List UInt8} {l : Line} (kept : Writing len start moved l) :
    let r := l.send moved.length (len - moved.length)
    Writing len start (moved ++ taken moved.length l r.1.toNat) r.2 := by
  unfold Line.send taken
  dsimp only
  generalize (min (l.results 0) (len - moved.length)).toNat = count
  rw [kept.buffer]
  have more := sliceBehind kept.bytes count
  rw [Nat.zero_add] at more
  refine ⟨more,rfl,?_,kept.consumed,givenInside kept.given⟩
  · rw [kept.sent, List.append_assoc]
    rfl

/- An invariant of the bytes moved that each call keeps holds when the loop returns, with the
number returned where it is one. -/
theorem callKeeps (counted : Counted call bytes) (len : Int) (timeoutMs : UInt32) (w : Wire Line)
    (inv : List UInt8 → Line → Prop) (ok : inv [] w.link)
    (keeps : ∀ moved l, inv moved l → inv (moved ++ bytes moved.length l (call moved.length (len - moved.length) l).1.toNat)
      (call moved.length (len - moved.length) l).2) :
    let r := socketCall call len timeoutMs w
    ∃ moved, moved.length ≤ len.toNat ∧ inv moved r.wire.link ∧ (0 ≤ r.rc → r.rc = moved.length) ∧
      ((r.rc < 0 ∧ moved ≠ []) ↔ ∃ n, BreaksOff len timeoutMs w n) := by
  obtain ⟨wire,sign,count⟩ := callMoves counted len timeoutMs w
  have loss := lossExact counted len _ (timerCountdownMs timeoutMs w.clock).timer []
    ⟨(timerCountdownMs timeoutMs w.clock).clock,w.link⟩ (Nat.lt_succ_self _) (Or.inl rfl)
  have kept := transferInvariant (moving call bytes len) inv len.toNat (fun moved l bs fits holds answer => ?_)
    (fun moved l fits holds answer => ?_) timeoutMs w ok
  · refine ⟨_,kept.1,?_,count,?_⟩
    · rw [wire]
      exact kept.2.1
    · rw [sign]
      exact loss
  · have next := keeps moved l holds
    rcases Int.lt_or_le (call moved.length (len - moved.length) l).1 0 with failed | fine
    · rw [movingFails failed] at answer
      cases answer
    · have result := counted.result moved.length (len - moved.length) l
      rw [movingGives fine] at answer ⊢
      cases answer
      refine ⟨?_,next⟩
      rw [counted.size]
      omega
  · have next := keeps moved l holds
    rcases Int.lt_or_le (call moved.length (len - moved.length) l).1 0 with failed | fine
    · have nothing : bytes moved.length l (call moved.length (len - moved.length) l).1.toNat = [] := by
        apply List.eq_nil_of_length_eq_zero
        rw [counted.size]
        omega
      rw [nothing, List.append_nil] at next
      rw [movingFails failed]
      exact next
    · rw [movingGives fine] at answer
      cases answer

/-! What the number returned stands for -/

structure ReadAccounts (len : Int) (w : Wire Line) (r : Returned) : Prop where
  given : ∀ range ∈ r.wire.link.given, range ∈ w.link.given ∨ InBuffer len range
  outside : ∀ i : Nat, len ≤ i → r.wire.link.buffer.byte i = w.link.buffer.byte i
  placed : 0 ≤ r.rc → r.wire.link.consumed = w.link.consumed + r.rc.toNat ∧
    Memory.slice r.wire.link.buffer.byte 0 r.rc.toNat = Memory.slice w.link.stream w.link.consumed r.rc.toNat
  kept : r.rc < 0 → r.wire.link.consumed = w.link.consumed

structure WriteAccounts (len : Int) (w : Wire Line) (r : Returned) : Prop where
  given : ∀ range ∈ r.wire.link.given, range ∈ w.link.given ∨ InBuffer len range
  buffer : r.wire.link.buffer = w.link.buffer
  sent : 0 ≤ r.rc → r.wire.link.sent = w.link.sent ++ Memory.slice w.link.buffer.byte 0 r.rc.toNat
  kept : r.rc < 0 → r.wire.link.sent = w.link.sent

theorem readAccounts (len : Int) (timeoutMs : UInt32) (w : Wire Line) :
    ReadAccounts len w (freertosRead len timeoutMs w) ↔ ∀ n, ¬ BreaksOff len timeoutMs w n := by
  have start : Reading len w.link [] w.link :=
    ⟨(Memory.storeNil ..).symm,rfl,rfl,rfl,rfl,fun _ => Or.inl⟩
  obtain ⟨moved,fits,kept,count,loss⟩ := callKeeps recvCounted len timeoutMs w (Reading len w.link) start
    fun _ _ => recvKeeps
  rw [← not_exists, ← loss]
  constructor
  · rintro accounts ⟨negative,some⟩
    have none := accounts.kept negative
    have consumed := kept.consumed
    unfold freertosRead at none
    rw [none, Nat.left_eq_add] at consumed
    exact some (List.eq_nil_of_length_eq_zero consumed)
  · intro whole
    refine ⟨kept.given,fun i beyond => ?_,fun positive => ?_,fun negative => ?_⟩
    · unfold freertosRead
      rw [kept.buffer]
      exact Memory.storeOutside _ _ _ _ (Or.inr (by omega))
    · have number : (freertosRead len timeoutMs w).rc.toNat = moved.length := by
        rw [freertosRead, count positive]
        rfl
      have holds := Memory.sliceOfHolds (Memory.holdsStore w.link.buffer 0 moved)
      rw [number]
      unfold freertosRead
      rw [kept.buffer, holds]
      exact ⟨kept.consumed,kept.bytes⟩
    · have nothing : moved = [] := by
        by_contra some
        exact whole ⟨negative,some⟩
      have consumed := kept.consumed
      rw [nothing] at consumed
      exact consumed

theorem writeAccounts (len : Int) (timeoutMs : UInt32) (w : Wire Line) :
    WriteAccounts len w (freertosWrite len timeoutMs w) ↔ ∀ n, ¬ BreaksOff len timeoutMs w n := by
  have start : Writing len w.link [] w.link :=
    ⟨rfl,rfl,(List.append_nil _).symm,rfl,fun _ => Or.inl⟩
  obtain ⟨moved,fits,kept,count,loss⟩ := callKeeps sendCounted len timeoutMs w (Writing len w.link) start
    fun _ _ => sendKeeps
  rw [← not_exists, ← loss]
  constructor
  · rintro accounts ⟨negative,some⟩
    have none := accounts.kept negative
    have sent := kept.sent
    unfold freertosWrite at none
    rw [none, List.self_eq_append_right] at sent
    exact some sent
  · intro whole
    refine ⟨kept.given,kept.buffer,fun positive => ?_,fun negative => ?_⟩
    · have number : (freertosWrite len timeoutMs w).rc.toNat = moved.length := by
        rw [freertosWrite, count positive]
        rfl
      rw [number, ← kept.bytes]
      exact kept.sent
    · have nothing : moved = [] := by
        by_contra some
        exact whole ⟨negative,some⟩
      have sent := kept.sent
      rw [nothing, List.append_nil] at sent
      exact sent

theorem socketAccounts (len : Int) (timeoutMs : UInt32) (w : Wire Line) :
    (ReadAccounts len w (freertosRead len timeoutMs w) ↔ ∀ n, ¬ BreaksOff len timeoutMs w n) ∧
    (WriteAccounts len w (freertosWrite len timeoutMs w) ↔ ∀ n, ¬ BreaksOff len timeoutMs w n) :=
  ⟨readAccounts len timeoutMs w,writeAccounts len timeoutMs w⟩

-- two bytes move at once and the next call fails
def failing : Wire Line :=
  ⟨[⟨0,0⟩,⟨0,1⟩],⟨fun i => UInt8.ofNat (i + 65),0,[],⟨fun _ => 0,[]⟩,fun i => if i = 0 then 2 else -1,[]⟩⟩

theorem errorTakesBytes :
    ¬ ReadAccounts 4 failing (freertosRead 4 1000 failing) ∧ ¬ WriteAccounts 4 failing (freertosWrite 4 1000 failing) ∧
      (freertosRead 4 1000 failing).rc = -1 ∧ (freertosRead 4 1000 failing).wire.link.consumed = 2 ∧
      (freertosWrite 4 1000 failing).rc = -1 ∧ (freertosWrite 4 1000 failing).wire.link.sent = [0,0] := by
  refine ⟨fun accounts => ?_,fun accounts => ?_,by decide,by decide,by decide,by decide⟩
  · exact absurd (accounts.kept (by decide)) (by decide)
  · exact absurd (accounts.kept (by decide)) (by decide)

end YunbaIot.SocketAccount
