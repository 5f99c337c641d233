import YunbaIot.Circular
import YunbaIot.LightCalls

/-! The ring of light events, followed by a queue: whatever order of requests and timer calls
comes, every request with a slot becomes the target once, in its turn and as it was given. -/
namespace YunbaIot.LightRing
open LightAdj LightCalls
open Circular (Queue)

variable {δ : Type}

structure Shows (s : Light δ) (q : Queue PwmParam 40) : Prop where
  cells : s.lightEvtArr = q.cells
  use : s.curEvtIdxToBeUse.toNat = q.use
  total : s.totalUsedLightEvtNum.toNat = q.total
  free : s.curFreeLightEvtIdx.toNat = Circular.free q

/-! Indices -/

theorem wrapped {index : UInt8} (inside : index.toNat < 40) :
    (if lightEvtQnum - 1 < index + 1 then 0 else index + 1).toNat = (index.toNat + 1) % 40 := by
  have next : (index + 1).toNat = index.toNat + 1 := by
    rw [UInt8.toNat_add]
    exact Nat.mod_eq_of_lt (Nat.lt_of_le_of_lt inside (by decide))
  split
  · rename_i past
    have last : 39 < (index + 1).toNat := UInt8.lt_iff_toNat_lt.mp past
    have greatest : index.toNat = 39 := by omega
    rw [greatest]
    rfl
  · rename_i before
    have within : ¬39 < (index + 1).toNat := fun past => before (UInt8.lt_iff_toNat_lt.mpr past)
    rw [next] at within ⊢
    exact (Nat.mod_eq_of_lt (by omega)).symm

/- The slots that hold an event not yet taken, the one in front first. -/
def waitingSlots (s : Light δ) : List Nat :=
  (List.range s.totalUsedLightEvtNum.toNat).map fun k => (s.curEvtIdxToBeUse.toNat + k) % lightEvtQnum.toNat

theorem shownSlots {s : Light δ} {q : Queue PwmParam 40} (shown : Shows s q) : waitingSlots s = Circular.slots q := by
  rw [waitingSlots, shown.total, shown.use]
  rfl

theorem bootShows (driver : δ) : Shows (boot driver) ⟨(boot driver).lightEvtArr,0,0,by decide,by decide⟩ := ⟨rfl,rfl,rfl,rfl⟩

/-! Giving a slot away -/

theorem fullRing {s : Light δ} {q : Queue PwmParam 40} (shown : Shows s q) (full : q.total = 40) :
    (lightEvtMalloc s).1 = none := by
  have total : s.totalUsedLightEvtNum = 40 := UInt8.toNat_inj.mp (shown.total.trans full)
  unfold lightEvtMalloc
  rw [total, if_pos (by decide)]

theorem givenSlot {s : Light δ} {q : Queue PwmParam 40} (shown : Shows s q) (room : q.total < 40) :
    lightEvtMalloc s = (some (Circular.free q),{ s with
      totalUsedLightEvtNum := s.totalUsedLightEvtNum + 1
      curFreeLightEvtIdx := if lightEvtQnum - 1 < s.curFreeLightEvtIdx + 1 then 0 else s.curFreeLightEvtIdx + 1 }) := by
  have total : (s.totalUsedLightEvtNum + 1).toNat = q.total + 1 := by
    rw [UInt8.toNat_add, shown.total]
    exact Nat.mod_eq_of_lt (Nat.lt_of_le_of_lt room (by decide))
  have allowed : ¬lightEvtQnum < s.totalUsedLightEvtNum + 1 := by
    intro many
    have past : 40 < (s.totalUsedLightEvtNum + 1).toNat := UInt8.lt_iff_toNat_lt.mp many
    omega
  unfold lightEvtMalloc
  dsimp only
  rw [if_neg allowed, shown.free]

/- A slot that is given away holds no event that waits. -/
theorem putShows {s u : Light δ} {q : Queue PwmParam 40} (shown : Shows s q) (room : q.total < 40)
    (allotted : lightEvtMalloc s = (some (Circular.free q),u)) (event : PwmParam) :
    Shows { u with lightEvtArr := update u.lightEvtArr (Circular.free q) event } (Circular.put q event room) ∧
      u.copied = s.copied := by
  have next := wrapped (shown.free ▸ Circular.freeInside q)
  rw [shown.free] at next
  rw [givenSlot shown room] at allotted
  obtain ⟨_,rfl⟩ := Prod.mk.inj allotted
  constructor
  · exact {
      cells := by rw [shown.cells]; rfl
      use := shown.use
      total := by
        rw [UInt8.toNat_add, shown.total]
        exact Nat.mod_eq_of_lt (Nat.lt_of_le_of_lt room (by decide))
      free := next.trans (Circular.putFree q event room).symm }
  · rfl

/-! Calls -/

/- What was copied and what waits, together. -/
def Conserves (log : List (Channel → UInt32)) (s : Light δ) : Prop :=
  ∃ q : Queue PwmParam 40, Shows s q ∧ s.copied ++ (Circular.contents q).map asked = log

theorem Conserves.same {log : List (Channel → UInt32)} {s t : Light δ} (holds : Conserves log s)
    (cells : t.lightEvtArr = s.lightEvtArr) (use : t.curEvtIdxToBeUse = s.curEvtIdxToBeUse)
    (total : t.totalUsedLightEvtNum = s.totalUsedLightEvtNum) (free : t.curFreeLightEvtIdx = s.curFreeLightEvtIdx)
    (copied : t.copied = s.copied) : Conserves log t := by
  obtain ⟨q,shown,conserved⟩ := holds
  refine ⟨q,⟨cells.trans shown.cells,use ▸ shown.use,total ▸ shown.total,free ▸ shown.free⟩,?_⟩
  rw [copied, conserved]

variable [Pwm δ]

theorem takenShows {s : Light δ} {q : Queue PwmParam 40} (shown : Shows s q) (some : 0 < q.total) :
    Shows (takeEvent s) (Circular.take q) ∧ (takeEvent s).copied = s.copied ++ [asked (q.cells q.use)] := by
  obtain ⟨kept,driver,same⟩ := takenEvent s
  have waits : 0 < s.totalUsedLightEvtNum := UInt8.lt_iff_toNat_lt.mpr (shown.total ▸ some)
  have left := takenTotal waits
  have next := wrapped (shown.use ▸ q.inside)
  constructor
  · rw [shown.total] at left
    rw [shown.use] at next
    rw [same] at left ⊢
    exact {
      cells := shown.cells
      use := next
      total := Nat.eq_sub_of_add_eq left
      free := shown.free.trans (Circular.takeFree q some).symm }
  · rw [same, shown.cells, shown.use]

theorem adjustConserves {log : List (Channel → UInt32)} (s : Light δ) (holds : Conserves log s) :
    Conserves log (pwmStart (adjustChannels s)) := by
  obtain ⟨_,_,same,_⟩ := adjusted s
  rw [same]
  exact holds.same rfl rfl rfl rfl rfl

theorem takeConserves {log : List (Channel → UInt32)} (s : Light δ) (waits : 0 < s.totalUsedLightEvtNum)
    (holds : Conserves log s) : Conserves log (takeEvent s) := by
  obtain ⟨q,shown,conserved⟩ := holds
  have some : 0 < q.total := shown.total ▸ UInt8.lt_iff_toNat_lt.mp waits
  obtain ⟨taken,copied⟩ := takenShows shown some
  refine ⟨Circular.take q,taken,?_⟩
  rw [Circular.takeContents q some, List.map_cons] at conserved
  rw [copied, List.append_assoc, List.singleton_append, conserved]

theorem callsConserve (log : List (Channel → UInt32)) (depth : Nat) :
    (∀ s t : Light δ, Conserves log s → lightPwmDhAdjProc depth s = some t → Conserves log t) ∧
    (∀ s t : Light δ, Conserves log s → lightPwmSmoothAdjProc depth s = some t → Conserves log t) :=
  bothKeep adjustConserves (fun _ _ _ holds => holds.same rfl rfl rfl rfl rfl) takeConserves
    (fun _ _ holds => holds.same rfl rfl rfl rfl rfl) depth

/-! Whole runs -/

def given (r g b : UInt32) : Channel → UInt32
  | 0 => scaled r
  | 1 => scaled g
  | 2 => scaled b

/- The request of a call, where it gets a slot. -/
def granted (s : Light δ) : Call → List (Channel → UInt32)
  | .aim r g b _ _ _ => if (lightEvtMalloc s).1.isSome then [given r g b] else []
  | .timer => []

theorem askedGiven (r g b cw ww period : UInt32) (tmp : PwmParam) : asked (filled r g b cw ww period tmp) = given r g b := by
  funext i
  match i with
  | 0 => rfl
  | 1 => rfl
  | 2 => rfl

theorem stepConserves {log : List (Channel → UInt32)} {s : Light δ} (call : Call) (holds : Conserves log s) :
    Conserves (log ++ granted s call) (step s call) := by
  cases call with
  | timer =>
    rw [granted, List.append_nil]
    exact (callsConserve log _).1 s _ holds (timerReturns s)
  | aim r g b cw ww period =>
    obtain ⟨q,shown,conserved⟩ := holds
    by_cases room : q.total < 40
    · have slot := givenSlot shown room
      obtain ⟨put,copied⟩ := putShows shown room slot
        (filled r g b cw ww period (s.lightEvtArr (Circular.free q)))
      have gained : granted s (.aim r g b cw ww period) = [given r g b] := by rw [granted, slot]; rfl
      refine (callsConserve _ _).2 _ _ ⟨_,put,?_⟩ (aimReturns slot r g b cw ww period)
      rw [copied, Circular.putContents, List.map_append, List.map_singleton, askedGiven, ← List.append_assoc, conserved,
        gained]
    · have full := fullRing shown (Nat.le_antisymm q.fits (Nat.le_of_not_lt room))
      have gained : granted s (.aim r g b cw ww period) = [] := by rw [granted, full]; rfl
      rw [aimRefused (Prod.ext full rfl), gained, List.append_nil]
      exact ⟨q,shown,conserved⟩

theorem runConserves {log : List (Channel → UInt32)} {s : Light δ} (calls : List Call) (holds : Conserves log s) :
    Conserves (log ++ Run.outputs step granted s calls) (Run.run step s calls) := by
  induction calls generalizing s log with
  | nil => rwa [Run.outputs, List.append_nil]
  | cons call later ih =>
    have rest := ih (stepConserves call holds)
    rw [List.append_assoc] at rest
    exact rest

theorem initConserves (driver : δ) : Conserves [given appMaxPwm appMaxPwm appMaxPwm] (userLightInit driver) := by
  have first := stepConserves (.aim appMaxPwm appMaxPwm appMaxPwm appMaxPwm appMaxPwm 1000)
    ⟨_,bootShows driver,List.append_nil []⟩
  exact initKeeps (fun _ _ holds => holds.same rfl rfl rfl rfl rfl) first

/-- Behind user_light_init and any calls, the free slot is the one behind those that wait, every
request with a slot, that of user_light_init first, has become the target in its turn, and no
slot is handed out that holds one still waiting. -/
theorem ringExact (driver : δ) (calls : List Call) :
    let s := Run.run step (userLightInit driver) calls
    s.curFreeLightEvtIdx.toNat =
      (s.curEvtIdxToBeUse.toNat + s.totalUsedLightEvtNum.toNat) % lightEvtQnum.toNat ∧
    s.totalUsedLightEvtNum ≤ lightEvtQnum ∧
    s.copied = given appMaxPwm appMaxPwm appMaxPwm :: Run.outputs step granted (userLightInit driver) calls ∧
    ∀ slot, (lightEvtMalloc s).1 = some slot → slot ∉ waitingSlots s := by
  intro s
  obtain ⟨q,shown,conserved⟩ := runConserves calls (initConserves driver)
  have empty := runEmpties driver calls
  refine ⟨?_,?_,?_,?_⟩
  · rw [shown.free, shown.use, shown.total]
    rfl
  · exact UInt8.le_iff_toNat_le.mpr (shown.total ▸ q.fits)
  · rw [Circular.emptyContents q (shown.total.symm.trans empty), List.map_nil, List.append_nil] at conserved
    exact conserved
  · intro slot allotted
    rw [shownSlots shown]
    by_cases room : q.total < 40
    · rw [givenSlot shown room] at allotted
      cases allotted
      exact Circular.freshSlot q room
    · rw [fullRing shown (Nat.le_antisymm q.fits (Nat.le_of_not_lt room))] at allotted
      cases allotted

end YunbaIot.LightRing
