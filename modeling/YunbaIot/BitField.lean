import Mathlib.Tactic.Common

/-! Fields of a machine word: a map of bits and how far it is shifted. A field is read by shifting
back, written by clearing it first, and spoilt by a value that is only added to it. -/
namespace YunbaIot.BitField

variable {w : Nat}

-- every bit of `x` is one of `y`
def Within (x y : BitVec w) : Prop := x &&& y = x

instance (x y : BitVec w) : Decidable (Within x y) := by
  unfold Within
  infer_instance

theorem withinBits {x y : BitVec w} : Within x y ↔ ∀ i < w, x.getLsbD i = true → y.getLsbD i = true := by
  constructor
  · intro within i _ bit
    rw [← within, BitVec.getLsbD_and, Bool.and_eq_true] at bit
    exact bit.2
  · intro bits
    apply BitVec.eq_of_getLsbD_eq
    intro i inside
    rw [BitVec.getLsbD_and]
    cases bit : x.getLsbD i with
    | false => rfl
    | true => rw [bits i inside bit, Bool.and_self]

theorem withinOr {x y z : BitVec w} : Within (x ||| y) z ↔ Within x z ∧ Within y z := by
  simp only [withinBits,BitVec.getLsbD_or,Bool.or_eq_true]
  constructor
  · intro both
    exact ⟨fun i inside bit => both i inside (Or.inl bit),fun i inside bit => both i inside (Or.inr bit)⟩
  · rintro ⟨left,right⟩ i inside (bit | bit)
    · exact left i inside bit
    · exact right i inside bit

theorem withinRefl (x : BitVec w) : Within x x := BitVec.and_self

theorem withinZero (x : BitVec w) : Within 0#w x := by
  unfold Within
  simp

theorem orWithin {x y : BitVec w} : x ||| y = y ↔ Within x y := by
  rw [withinBits]
  constructor
  · intro same i _ bit
    rw [← same, BitVec.getLsbD_or, bit, Bool.true_or]
  · intro bits
    apply BitVec.eq_of_getLsbD_eq
    intro i inside
    rw [BitVec.getLsbD_or]
    cases bit : x.getLsbD i with
    | false => rfl
    | true => rw [bits i inside bit, Bool.or_self]

theorem withinNot {x m : BitVec w} (apart : Within x (~~~m)) : x &&& m = 0#w := by
  rw [← apart, BitVec.and_assoc, BitVec.not_and_self]
  exact BitVec.and_zero

theorem clearedAway (x a m : BitVec w) : ((x &&& ~~~m) ||| a) &&& m = a &&& m := by
  rw [BitVec.and_or_distrib_right, BitVec.and_assoc, BitVec.not_and_self]
  simp

/- Clearing and adding once more changes nothing where what was added first is there anyhow. -/
theorem againWithin (x a b m : BitVec w) :
    (((x &&& ~~~m) ||| a) &&& ~~~m) ||| b = (x &&& ~~~m) ||| b ↔ Within (a &&& ~~~m) (x ||| b) := by
  have flat : (((x &&& ~~~m) ||| a) &&& ~~~m) ||| b = (a &&& ~~~m) ||| ((x &&& ~~~m) ||| b) := by
    rw [BitVec.and_or_distrib_right, BitVec.and_assoc, BitVec.and_self, BitVec.or_comm (x &&& ~~~m), BitVec.or_assoc]
  rw [flat, orWithin, withinBits, withinBits]
  refine forall_congr' fun i => forall_congr' fun inside => ?_
  simp only [BitVec.getLsbD_and,BitVec.getLsbD_or,BitVec.getLsbD_not,inside,decide_true,Bool.true_and]
  cases m.getLsbD i with
  | false => simp
  | true => simp

-- no bit of `bits` is shifted out of the word
structure Field (w : Nat) where
  bits : BitVec w
  shift : Nat
  kept : (bits <<< shift) >>> shift = bits

namespace Field

variable (f : Field w)

def mask : BitVec w := f.bits <<< f.shift
def get (r : BitVec w) : BitVec w := (r >>> f.shift) &&& f.bits
def put (r v : BitVec w) : BitVec w := (r &&& ~~~f.mask) ||| (v <<< f.shift)

theorem getBit (r : BitVec w) (i : Nat) : (f.get r).getLsbD i = (r.getLsbD (f.shift + i) && f.bits.getLsbD i) := by
  rw [get, BitVec.getLsbD_and, BitVec.getLsbD_ushiftRight]

theorem room {i : Nat} (bit : f.bits.getLsbD i = true) : f.shift + i < w := by
  rw [← f.kept, BitVec.getLsbD_ushiftRight, BitVec.getLsbD_shiftLeft] at bit
  simp only [Bool.and_eq_true,decide_eq_true_eq] at bit
  exact bit.1.1

theorem getOr (r s : BitVec w) : f.get (r ||| s) = f.get r ||| f.get s := by
  apply BitVec.eq_of_getLsbD_eq
  intro i _
  simp only [getBit,BitVec.getLsbD_or,Bool.and_or_distrib_right]

/- Clearing bits that are not the field's leaves it. -/
theorem getClear {m : BitVec w} (apart : f.get m = 0#w) (r : BitVec w) : f.get (r &&& ~~~m) = f.get r := by
  apply BitVec.eq_of_getLsbD_eq
  intro i _
  have none : (m.getLsbD (f.shift + i) && f.bits.getLsbD i) = false := by
    rw [← getBit, apart, BitVec.getLsbD_zero]
  simp only [getBit,BitVec.getLsbD_and,BitVec.getLsbD_not]
  cases bit : f.bits.getLsbD i with
  | false => simp
  | true =>
    rw [bit, Bool.and_true] at none
    simp only [none,decide_eq_true (f.room bit),Bool.not_false,Bool.and_true]

variable {f}

theorem getShift {v : BitVec w} (fits : Within v f.bits) : f.get (v <<< f.shift) = v := by
  apply BitVec.eq_of_getLsbD_eq
  intro i inside
  rw [getBit, BitVec.getLsbD_shiftLeft]
  cases bit : v.getLsbD i with
  | false => simp [bit]
  | true =>
    have within := withinBits.mp fits i inside bit
    simp [f.room within,within,bit]

theorem shiftWithin {v : BitVec w} (fits : Within v f.bits) (x : BitVec w) :
    Within (v <<< f.shift) x ↔ Within v (f.get x) := by
  rw [withinBits, withinBits]
  constructor
  · intro bits i inside bit
    have within := withinBits.mp fits i inside bit
    have there := bits (f.shift + i) (f.room within) (by
      rw [BitVec.getLsbD_shiftLeft]
      simp [f.room within,bit])
    rw [getBit, there, within, Bool.and_self]
  · intro bits i inside bit
    rw [BitVec.getLsbD_shiftLeft] at bit
    simp only [Bool.and_eq_true,decide_eq_true_eq,Bool.not_eq_true',decide_eq_false_iff_not] at bit
    obtain ⟨⟨_,behind⟩,bit⟩ := bit
    have there := bits (i - f.shift) (by omega) bit
    rw [getBit, Bool.and_eq_true] at there
    have place : f.shift + (i - f.shift) = i := by omega
    rw [place] at there
    exact there.1

/- A value of one field is nothing to a field apart from it. -/
theorem getApart {g : Field w} (apart : f.mask &&& g.mask = 0#w) {v : BitVec w} (fits : Within v g.bits) :
    f.get (v <<< g.shift) = 0#w := by
  have inside : Within (v <<< g.shift) g.mask := by
    rw [shiftWithin fits, mask, getShift (withinRefl g.bits)]
    exact fits
  apply BitVec.eq_of_getLsbD_eq
  intro i _
  rw [getBit, BitVec.getLsbD_zero, Bool.and_eq_false_imp]
  intro bit
  have room : f.shift + i < w := by
    by_contra beyond
    rw [BitVec.getLsbD_of_ge _ _ (Nat.le_of_not_lt beyond)] at bit
    cases bit
  have theirs := withinBits.mp inside _ room bit
  have both : (f.mask &&& g.mask).getLsbD (f.shift + i) = false := by rw [apart, BitVec.getLsbD_zero]
  rw [BitVec.getLsbD_and, theirs, Bool.and_true, mask, BitVec.getLsbD_shiftLeft] at both
  simpa [room] using both

/-! Values added to several fields at once -/

def added : List (Field w × BitVec w) → BitVec w
  | [] => 0#w
  | (f,v) :: rest => v <<< f.shift ||| added rest

theorem addedWithin {fs : List (Field w × BitVec w)} (fits : ∀ a ∈ fs, Within a.2 a.1.bits) (x : BitVec w) :
    Within (added fs) x ↔ ∀ a ∈ fs, Within a.2 (a.1.get x) := by
  induction fs with
  | nil => simp [added,withinZero]
  | cons a rest ih =>
    obtain ⟨own,others⟩ := List.forall_mem_cons.mp fits
    rw [added, withinOr, shiftWithin own, ih others, List.forall_mem_cons]

theorem getAdded {fs : List (Field w × BitVec w)} (fits : ∀ a ∈ fs, Within a.2 a.1.bits)
    (apart : ∀ a ∈ fs, f.mask &&& a.1.mask = 0#w) : f.get (added fs) = 0#w := by
  induction fs with
  | nil => simp [added,get]
  | cons a rest ih =>
    obtain ⟨own,others⟩ := List.forall_mem_cons.mp fits
    obtain ⟨here,later⟩ := List.forall_mem_cons.mp apart
    rw [added, getOr, getApart here own, ih others later, BitVec.or_self]

/- Of fields that are pairwise apart each reads back what was added to it. -/
theorem getOwn {fs : List (Field w × BitVec w)} (fits : ∀ a ∈ fs, Within a.2 a.1.bits)
    (apart : fs.Pairwise fun a b => a.1.mask &&& b.1.mask = 0#w) {a : Field w × BitVec w} (own : a ∈ fs) :
    a.1.get (added fs) = a.2 := by
  induction fs with
  | nil => cases own
  | cons b rest ih =>
    obtain ⟨fit,others⟩ := List.forall_mem_cons.mp fits
    obtain ⟨here,later⟩ := List.pairwise_cons.mp apart
    rw [added, getOr]
    rcases List.mem_cons.mp own with rfl | behind
    · rw [getShift fit, getAdded others here, BitVec.or_zero]
    · have away := here a behind
      rw [BitVec.and_comm] at away
      rw [getApart away fit, ih others later behind, BitVec.zero_or]

end Field

end YunbaIot.BitField
