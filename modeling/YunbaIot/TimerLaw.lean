import YunbaIot.FreeRtosTimer
import Mathlib.Data.List.Pairwise
import Mathlib.Tactic.Ring

/-! A timer of MQTTFreeRTOS.c under any sequence of queries. Time is counted in ticks
without bound: the counter of tasks.c at a time is its low 32 bits, the overflows are the
rest. The law is carried by what each query leaves: the ticks left at the last query that
found the timer running, together with the tick of that query. -/
namespace YunbaIot.TimerLaw
open FreeRtosTimer

/- The counter after this many ticks. -/
def tickAt (time : Nat) : Tick := ⟨time / 2^32,UInt32.ofNat time⟩

inductive Call where
  | isExpired | leftMs
  deriving DecidableEq, Repr

structure Query where
  call : Call
  elapsed : Nat
  deriving DecidableEq, Repr

inductive Answer where
  | expired (answer : Bool)
  | left (ms : Nat)
  deriving DecidableEq, Repr

structure Asked where
  answer : Answer
  timer : Timer
  deriving DecidableEq, Repr

/- One query of a timer that was armed at the time start. -/
def ask (start : Nat) (timer : Timer) (q : Query) : Asked :=
  match q.call with
  | .isExpired =>
    let check := timerIsExpired timer [tickAt (start + q.elapsed)]
    ⟨.expired check.expired,check.timer⟩
  | .leftMs =>
    let left := timerLeftMs timer [tickAt (start + q.elapsed)]
    ⟨.left left.ms.toNat,left.timer⟩

def answers (start : Nat) : Timer → List Query → List Answer
  | _, [] => []
  | timer, q :: later =>
    let asked := ask start timer q
    asked.answer :: answers start asked.timer later

def armed (start : Nat) (timeoutMs : UInt32) : Timer := (timerCountdownMs timeoutMs [tickAt start]).timer

/- The ticks TimerCountdownMS waits for. -/
def period (timeoutMs : UInt32) : Nat := timeoutMs.toNat / 10

/- The answer of a timer of so many ticks. -/
def due (ticks : Nat) (q : Query) : Answer :=
  match q.call with
  | .isExpired => .expired (ticks ≤ q.elapsed)
  | .leftMs => .left ((ticks - q.elapsed) * 10)

/- The queries come at non-decreasing times, with fewer than 2^32 ticks elapsed. -/
def Ordered (queries : List Query) : Prop :=
  queries.Pairwise (fun a b => a.elapsed ≤ b.elapsed) ∧ ∀ q ∈ queries, q.elapsed < 2^32

def StaysExpired (answers : List Answer) : Prop :=
  answers.Pairwise fun a b => a = .expired true → b = .expired true ∨ b = .left 0

def Lawful (ticks : Nat) (queries : List Query) (answers : List Answer) : Prop :=
  answers = queries.map (due ticks) ∧ StaysExpired answers

/- A query that TimerLeftMS answers for a timer that ran out. -/
def Late (ticks : Nat) (q : Query) : Prop := q.call = .leftMs ∧ 0 < ticks ∧ ticks ≤ q.elapsed

theorem periodSmall (timeoutMs : UInt32) : period timeoutMs * 10 < 2^32 := by
  have bound := timeoutMs.toNat_lt
  unfold period
  omega

/-! The counter -/

@[simp] theorem tickCount (time : Nat) : (tickAt time).xTickCount.toNat = time % 2^32 := UInt32.toNat_ofNat'

@[simp] theorem tickOverflows (time : Nat) : (tickAt time).xNumOfOverflows = time / 2^32 := rfl

/- The difference of two readings is the time between them, also across a wrap. -/
theorem tickDifference {a b : Nat} (order : a ≤ b) (near : b - a < 2^32) :
    ((tickAt b).xTickCount - (tickAt a).xTickCount).toNat = b - a := by
  rw [UInt32.toNat_sub, tickCount, tickCount]
  omega

/- The counter that wrapped has not reached the earlier reading again. -/
theorem notAround {a b : Nat} (order : a ≤ b) (near : b - a < 2^32) :
    ¬((tickAt b).xNumOfOverflows ≠ (tickAt a).xNumOfOverflows ∧ (tickAt a).xTickCount ≤ (tickAt b).xTickCount) := by
  rintro ⟨overflowed,around⟩
  rw [UInt32.le_iff_toNat_le, tickCount, tickCount] at around
  rw [tickOverflows, tickOverflows] at overflowed
  omega

/-! One query -/

/- The timer was last found running base ticks after it was armed. -/
structure Based (start ticks : Nat) (timer : Timer) (base : Nat) : Prop where
  wait : timer.xTicksToWait.toNat = ticks - base
  entered : timer.xTimeOut = vTaskSetTimeOutState (tickAt (start + base))
  before : base < ticks ∨ base = 0

theorem armedBased (start : Nat) (timeoutMs : UInt32) : Based start (period timeoutMs) (armed start timeoutMs) 0 := by
  refine ⟨?_,rfl,.inr rfl⟩
  show (timeoutMs / portTickRateMs).toNat = period timeoutMs - 0
  rw [UInt32.toNat_div]
  rfl

section Query
variable {start ticks base : Nat} {timer : Timer}

/- A check finds the timer running exactly before its deadline, and moves its base there;
after the deadline the timer is left as it is. -/
theorem checkBased (based : Based start ticks timer base) (small : ticks * 10 < 2^32) {e : Nat} (order : base ≤ e)
    (bounded : e < 2^32) :
    (xTaskCheckForTimeOut (tickAt (start + e)) timer).1 = decide (ticks ≤ e) ∧
      Based start ticks (xTaskCheckForTimeOut (tickAt (start + e)) timer).2 (if e < ticks then e else base) := by
  have later : start + base ≤ start + e := Nat.add_le_add_left order start
  have near : start + e - (start + base) < 2^32 := by omega
  have wait := based.wait
  have limited : timer.xTicksToWait ≠ portMaxDelay := by
    intro endless
    have top : (4294967295 : Nat) = ticks - base := by rw [← wait, endless]; rfl
    omega
  have entering : timer.xTimeOut.xTimeOnEntering = (tickAt (start + base)).xTickCount := by rw [based.entered]; rfl
  have overflows : timer.xTimeOut.xOverflowCount = (tickAt (start + base)).xNumOfOverflows := by rw [based.entered]; rfl
  have elapsed := tickDifference later near
  unfold xTaskCheckForTimeOut
  dsimp only
  rw [if_neg limited, entering, overflows, if_neg (notAround later near)]
  by_cases running : e < ticks
  · have less : (tickAt (start + e)).xTickCount - (tickAt (start + base)).xTickCount < timer.xTicksToWait := by
      rw [UInt32.lt_iff_toNat_lt, elapsed, wait]
      omega
    rw [if_pos less, if_pos running]
    refine ⟨(decide_eq_false (by omega)).symm,?_,rfl,.inl running⟩
    rw [UInt32.toNat_sub_of_le _ _ (UInt32.le_of_lt less), elapsed, wait]
    omega
  · have past : ¬(tickAt (start + e)).xTickCount - (tickAt (start + base)).xTickCount < timer.xTicksToWait := by
      rw [UInt32.lt_iff_toNat_lt, elapsed, wait]
      omega
    rw [if_neg past, if_neg running]
    exact ⟨(decide_eq_true (by omega)).symm,based⟩

theorem leftMs (based : Based start ticks timer base) (small : ticks * 10 < 2^32) :
    (timer.xTicksToWait * portTickRateMs).toNat = (ticks - base) * 10 := by
  rw [UInt32.toNat_mul, based.wait]
  show (ticks - base) * 10 % 2^32 = (ticks - base) * 10
  exact Nat.mod_eq_of_lt (by omega)

/- One query keeps the base, at most moving it to the time of the query; only a late one
is answered other than the law says. -/
theorem askBased (based : Based start ticks timer base) (small : ticks * 10 < 2^32) {q : Query}
    (order : base ≤ q.elapsed) (bounded : q.elapsed < 2^32) :
    (∃ next, next ≤ q.elapsed ∧ Based start ticks (ask start timer q).timer next) ∧
      ((ask start timer q).answer = due ticks q ↔ ¬Late ticks q) := by
  obtain ⟨expired,kept⟩ := checkBased based small order bounded
  have next : (if q.elapsed < ticks then q.elapsed else base) ≤ q.elapsed := by
    split
    · exact Nat.le_refl _
    · exact order
  obtain ⟨call,e⟩ := q
  cases call with
  | isExpired =>
    refine ⟨⟨_,next,kept⟩,?_⟩
    refine ⟨fun _ late => (by cases late.1),fun _ => ?_⟩
    show Answer.expired _ = Answer.expired _
    rw [← expired]
    rfl
  | leftMs =>
    refine ⟨⟨_,next,kept⟩,?_⟩
    have ms := leftMs kept small
    have before := based.before
    show Answer.left _ = Answer.left _ ↔ _
    rw [Answer.left.injEq]
    show ((xTaskCheckForTimeOut (tickAt (start + e)) timer).2.xTicksToWait * portTickRateMs).toNat = _ ↔ _
    rw [ms]
    dsimp only at next order ⊢
    constructor
    · rintro same ⟨_,positive,late⟩
      dsimp only at late
      rw [if_neg (by omega)] at same
      omega
    · intro prompt
      split
      · rfl
      · rename_i past
        have none : ticks = 0 := by
          by_contra some
          exact prompt ⟨rfl,Nat.pos_of_ne_zero some,Nat.not_lt.mp past⟩
        omega

/-! Any sequence of queries -/

theorem answersDue (based : Based start ticks timer base) (small : ticks * 10 < 2^32) {queries : List Query}
    (ordered : Ordered queries) (after : ∀ q ∈ queries, base ≤ q.elapsed) :
    answers start timer queries = queries.map (due ticks) ↔ ∀ q ∈ queries, ¬Late ticks q := by
  induction queries generalizing timer base with
  | nil => simp [answers]
  | cons q later ih =>
    obtain ⟨sorted,bounded⟩ := ordered
    obtain ⟨order,sorted⟩ := List.pairwise_cons.mp sorted
    obtain ⟨⟨next,moved,kept⟩,exact⟩ := askBased based small (after q List.mem_cons_self) (bounded q List.mem_cons_self)
    have rest := ih kept ⟨sorted,fun r inside => bounded r (List.mem_cons_of_mem _ inside)⟩
      fun r inside => Nat.le_trans moved (order r inside)
    rw [answers, List.map_cons, List.cons.injEq, exact, rest, List.forall_mem_cons]

end Query

/- By the law a timer that is expired stays so. -/
theorem dueStays (ticks : Nat) {queries : List Query} (ordered : Ordered queries) :
    StaysExpired (queries.map (due ticks)) := by
  refine List.Pairwise.map _ ?_ ordered.1
  intro a b order expired
  have reached : ticks ≤ a.elapsed := by
    unfold due at expired
    split at expired
    · simpa using expired
    · cases expired
  unfold due
  split
  · exact .inl (congrArg _ (decide_eq_true (by omega)))
  · exact .inr (congrArg _ (by omega))

theorem timerLaw (start : Nat) (timeoutMs : UInt32) (queries : List Query) (ordered : Ordered queries) :
    Lawful (period timeoutMs) queries (answers start (armed start timeoutMs) queries) ↔
      ∀ q ∈ queries, ¬Late (period timeoutMs) q := by
  have exact := answersDue (armedBased start timeoutMs) (periodSmall timeoutMs) ordered fun q _ => Nat.zero_le _
  constructor
  · intro lawful
    exact exact.mp lawful.1
  · intro prompt
    have same := exact.mpr prompt
    exact ⟨same,by rw [same]; exact dueStays _ ordered⟩

/- Armed shortly before the counter wraps, asked on both sides of the wrap. -/
def acrossWrap : List Query := [⟨.leftMs,3⟩,⟨.isExpired,7⟩,⟨.leftMs,9⟩,⟨.isExpired,10⟩]

theorem timerLawAcrossWrap : Lawful 10 acrossWrap (answers (2^32 - 5) (armed (2^32 - 5) 100) acrossWrap) :=
  (timerLaw (2^32 - 5) 100 acrossWrap (by unfold Ordered; decide)).mpr (by unfold Late; decide)

/- A timer of 100 ms, read first when it has run out, still has all of its 100 ms left. -/
def readLate : List Query := [⟨.isExpired,10⟩,⟨.leftMs,10⟩]

theorem expiredTimerHasTimeLeft : Ordered readLate ∧ answers 0 (armed 0 100) readLate = [.expired true,.left 100] ∧
    ¬Lawful (period 100) readLate (answers 0 (armed 0 100) readLate) := by
  have read : answers 0 (armed 0 100) readLate = [.expired true,.left 100] := by decide
  refine ⟨by unfold Ordered; decide,read,?_⟩
  rintro ⟨same,_⟩
  rw [read] at same
  exact absurd same (by decide)

end YunbaIot.TimerLaw
