import Mathlib.Tactic.Common

/-! The failure counter of keepalive as a machine of its own: signals from the connection go
in, starts of the connection-lost task come out. -/
namespace YunbaIot.Outage

/- `sent` is a packet other than a PINGREQ that went out, `connected` a MQTTConnect that
succeeded. -/
inductive Signal where
  | sent | connected | pingSent | pingresp | pingFailed
  deriving DecidableEq, Repr

inductive Mark where
  | signal (s : Signal)
  | started
  deriving DecidableEq, Repr

/- fail_conn_count after a signal: only an answered or a sent ping clears it. -/
def count (c : UInt8) : Signal → UInt8
  | .sent | .connected => c
  | .pingSent | .pingresp => 0
  | .pingFailed => c + 1

def counted (c : UInt8) (signals : List Signal) : UInt8 := signals.foldl count c

/- fail_conn_count++ > 2 -/
def starts (c : UInt8) (s : Signal) : Bool := s = .pingFailed && 2 < c

def marks (c : UInt8) : List Signal → List Mark
  | [] => []
  | s :: later => .signal s :: ((if starts c s then [.started] else []) ++ marks (count c s) later)

theorem marksAppend (c : UInt8) (first second : List Signal) :
    marks c (first ++ second) = marks c first ++ marks (counted c first) second := by
  induction first generalizing c with
  | nil => rfl
  | cons s later ih =>
    simp only [List.cons_append, marks, ih, List.append_assoc]
    rfl

def Mark.input : Mark → Option Signal
  | .signal s => some s
  | .started => none

theorem marksInputs (c : UInt8) (signals : List Signal) : (marks c signals).filterMap Mark.input = signals := by
  induction signals generalizing c with
  | nil => rfl
  | cons s later ih =>
    have first : (Mark.signal s).input = some s := rfl
    rw [marks, List.filterMap_cons_some first, List.filterMap_append, ih]
    split <;> rfl

/- A stretch of a history that the counter agrees with. -/
def Advances (c : UInt8) (history : List Mark) (c' : UInt8) : Prop :=
  ∃ signals, history = marks c signals ∧ c' = counted c signals

theorem Advances.none {c c' : UInt8} (same : c' = c) : Advances c [] c' := ⟨[],rfl,same⟩

theorem Advances.trans {c d e : UInt8} {first second : List Mark} (h : Advances c first d)
    (k : Advances d second e) : Advances c (first ++ second) e := by
  obtain ⟨before,rfl,rfl⟩ := h
  obtain ⟨behind,rfl,rfl⟩ := k
  refine ⟨before ++ behind,(marksAppend c before behind).symm,?_⟩
  rw [counted, counted, counted, List.foldl_append]

/-! One outage, one reconnect -/

/- What has happened since the last sign of life. -/
structure Watch where
  failed : Nat
  started : Bool
  deriving DecidableEq, Repr

def watch (w : Watch) : Mark → Watch
  | .signal .pingFailed => { w with failed := w.failed + 1 }
  | .signal _ => ⟨0,false⟩
  | .started => { w with started := true }

def OneReconnect (history : List Mark) : Prop :=
  ∀ before, before ++ [.started] <+: history →
    (before.foldl watch ⟨0,false⟩).started = false ∧ 4 ≤ (before.foldl watch ⟨0,false⟩).failed

/- Pings failed since the counter was last cleared, and whether another sign of life came
after the first of them. -/
structure Tally where
  failed : Nat
  interrupted : Bool
  deriving DecidableEq, Repr

def tally (t : Tally) : Signal → Tally
  | .sent | .connected => if t.failed = 0 then t else { t with interrupted := true }
  | .pingSent | .pingresp => ⟨0,false⟩
  | .pingFailed => { t with failed := t.failed + 1 }

/- A ping fails as one of the first three, or as the fourth of an uninterrupted row. -/
def Bearable (t : Tally) : Signal → Prop
  | .pingFailed => t.failed < 3 ∨ t.failed = 3 ∧ t.interrupted = false
  | _ => True

def Meets (t : Tally) : List Signal → Prop
  | [] => True
  | s :: later => Bearable t s ∧ Meets (tally t s) later

/- OneReconnect from the middle of a history on. -/
def Once (w : Watch) : List Mark → Prop
  | [] => True
  | m :: later => (m = .started → w.started = false ∧ 4 ≤ w.failed) ∧ Once (watch w m) later

theorem oncePrefix (w : Watch) (history : List Mark) :
    Once w history ↔ ∀ before, before ++ [.started] <+: history →
      (before.foldl watch w).started = false ∧ 4 ≤ (before.foldl watch w).failed := by
  induction history generalizing w with
  | nil =>
    refine ⟨fun _ before inside => ?_,fun _ => trivial⟩
    have none := List.prefix_nil.mp inside
    simp at none
  | cons m later ih =>
    rw [Once, ih]
    constructor
    · rintro ⟨now,rest⟩ before inside
      cases before with
      | nil => exact now (List.cons_prefix_cons.mp inside).1.symm
      | cons first before =>
        obtain ⟨rfl,behind⟩ := List.cons_prefix_cons.mp inside
        exact rest before behind
    · intro every
      refine ⟨fun same => ?_,fun before inside => ?_⟩
      · subst same
        exact every [] (List.cons_prefix_cons.mpr ⟨rfl,List.nil_prefix⟩)
      · exact every (m :: before) (List.cons_prefix_cons.mpr ⟨rfl,inside⟩)

/- How the counter, the tally and the watch stand to each other while all is well. -/
structure Agrees (c : UInt8) (t : Tally) (w : Watch) : Prop where
  counter : c.toNat = t.failed
  few : t.failed ≤ 4
  row : t.interrupted = false → w.failed = t.failed
  broken : t.interrupted = true → w.failed < t.failed ∧ (t.failed = 4 → w.failed = 0)
  started : w.started = true ↔ t.failed = 4 ∧ t.interrupted = false

theorem clearedAgrees : Agrees 0 ⟨0,false⟩ ⟨0,false⟩ where
  counter := rfl
  few := Nat.zero_le _
  row _ := rfl
  broken interrupted := by cases interrupted
  started := by decide

theorem sentAgrees {c : UInt8} {t : Tally} {w : Watch} (agrees : Agrees c t w) :
    Agrees c (if t.failed = 0 then t else { t with interrupted := true }) ⟨0,false⟩ := by
  obtain ⟨counter,few,row,broken,started⟩ := agrees
  split
  · rename_i none
    have whole : t.interrupted ≠ true := fun cut => by
      have less := (broken cut).1
      omega
    exact {
      counter := counter
      few := few
      row := fun _ => none.symm
      broken := fun cut => absurd cut whole
      started := ⟨nofun,fun ⟨four,_⟩ => by omega⟩ }
  · rename_i some
    exact {
      counter := counter
      few := few
      row := nofun
      broken := fun _ => ⟨Nat.pos_of_ne_zero some,fun _ => rfl⟩
      started := ⟨nofun,fun ⟨_,whole⟩ => nomatch whole⟩ }

/- One more failure before the task is due. -/
theorem failedAgrees {c : UInt8} {t : Tally} {w : Watch} (agrees : Agrees c t w) (few : t.failed < 3) :
    Agrees (c + 1) { t with failed := t.failed + 1 } { w with failed := w.failed + 1 } := by
  obtain ⟨counter,_,row,broken,started⟩ := agrees
  have next : (c + 1).toNat = c.toNat + 1 := by
    rw [UInt8.toNat_add]
    simp only [UInt8.toNat_ofNat, Nat.reducePow, Nat.reduceMod]
    omega
  have idle : w.started ≠ true := fun on => by
    have four := (started.mp on).1
    omega
  exact {
    counter := next.trans (congrArg (· + 1) counter)
    few := by
      dsimp only
      omega
    row := fun whole => congrArg (· + 1) (row whole)
    broken := fun cut => ⟨Nat.succ_lt_succ (broken cut).1,fun four => by
      dsimp only at four
      omega⟩
    started := ⟨fun on => absurd on idle,fun ⟨four,_⟩ => by
      dsimp only at four
      omega⟩ }

/- The fourth failure of a row. -/
theorem lostAgrees {c : UInt8} (third : c.toNat = 3) : Agrees (c + 1) ⟨4,false⟩ ⟨4,true⟩ := by
  have same : c = 3 := UInt8.toNat_inj.mp third
  subst same
  exact {
    counter := rfl
    few := Nat.le_refl 4
    row := fun _ => rfl
    broken := nofun
    started := ⟨fun _ => ⟨rfl,rfl⟩,fun _ => rfl⟩ }

/- What a start right after a failed ping says of the tally before it. -/
theorem startBearable {c : UInt8} {t : Tally} {w : Watch} (agrees : Agrees c t w) (due : 3 ≤ t.failed) :
    w.started = false ∧ 4 ≤ w.failed + 1 ↔ t.failed = 3 ∧ t.interrupted = false := by
  constructor
  · rintro ⟨quiet,four⟩
    have whole : t.interrupted = false := by
      by_contra cut
      have less := agrees.broken (Bool.not_eq_false _ ▸ cut)
      have few := agrees.few
      omega
    have other : t.failed ≠ 4 := fun four => by
      have on := agrees.started.mpr ⟨four,whole⟩
      rw [quiet] at on
      cases on
    have few := agrees.few
    exact ⟨by omega,whole⟩
  · rintro ⟨three,whole⟩
    have row := agrees.row whole
    have idle : w.started ≠ true := fun on => by
      have four := (agrees.started.mp on).1
      omega
    exact ⟨Bool.eq_false_iff.mpr idle,by omega⟩

/- The counter starts a reconnection from the fourth failure in a row on. -/
theorem dueFailed {c : UInt8} {t : Tally} {w : Watch} (agrees : Agrees c t w) : 2 < c ↔ 3 ≤ t.failed := by
  rw [UInt8.lt_iff_toNat_lt, agrees.counter]
  exact Iff.rfl

theorem marksFired {c : UInt8} (due : 2 < c) (later : List Signal) :
    marks c (.pingFailed :: later) = .signal .pingFailed :: .started :: marks (c + 1) later := by
  simp only [marks, starts, decide_true, due, Bool.and_self, if_true]
  rfl

theorem marksSilent {c : UInt8} (early : ¬ 2 < c) (later : List Signal) :
    marks c (.pingFailed :: later) = .signal .pingFailed :: marks (c + 1) later := by
  simp only [marks, starts, decide_true, early, decide_false, Bool.and_false, Bool.false_eq_true, if_false]
  rfl

theorem onceMeets (signals : List Signal) {c : UInt8} {t : Tally} {w : Watch} (agrees : Agrees c t w) :
    Once w (marks c signals) ↔ Meets t signals := by
  induction signals generalizing c t w with
  | nil => exact Iff.rfl
  | cons s later ih =>
    have idle : (Mark.signal s) = .started → w.started = false ∧ 4 ≤ w.failed := fun same => by cases same
    cases s with
    | sent | connected =>
      have rest := ih (sentAgrees agrees)
      exact ⟨fun h => ⟨trivial,rest.mp h.2⟩,fun h => ⟨idle,rest.mpr h.2⟩⟩
    | pingSent | pingresp =>
      have rest := ih clearedAgrees
      exact ⟨fun h => ⟨trivial,rest.mp h.2⟩,fun h => ⟨idle,rest.mpr h.2⟩⟩
    | pingFailed =>
      by_cases due : 2 < c
      · have third := (dueFailed agrees).mp due
        rw [marksFired due]
        have bearable := startBearable agrees third
        have rest (three : t.failed = 3) (whole : t.interrupted = false) :
            Once ⟨w.failed + 1,true⟩ (marks (c + 1) later) ↔ Meets ⟨t.failed + 1,t.interrupted⟩ later := by
          rw [agrees.row whole, three, whole]
          exact ih (lostAgrees (agrees.counter.trans three))
        constructor
        · rintro ⟨_,now,behind⟩
          obtain ⟨three,whole⟩ := bearable.mp (now rfl)
          exact ⟨Or.inr ⟨three,whole⟩,(rest three whole).mp behind⟩
        · rintro ⟨bears,behind⟩
          obtain ⟨three,whole⟩ := bears.resolve_left (Nat.not_lt_of_le third)
          exact ⟨idle,fun _ => bearable.mpr ⟨three,whole⟩,(rest three whole).mpr behind⟩
      · have first := Nat.lt_of_not_le (mt (dueFailed agrees).mpr due)
        rw [marksSilent due]
        have rest := ih (failedAgrees agrees first)
        exact ⟨fun h => ⟨Or.inl first,rest.mp h.2⟩,fun h => ⟨idle,rest.mpr h.2⟩⟩

end YunbaIot.Outage
