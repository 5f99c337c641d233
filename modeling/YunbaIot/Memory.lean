import Mathlib.Tactic.Common

/-! Byte memory behind a pointer: offsets are unbounded, so a store or a load past
the end of the object is an event to be seen and not an error of the model. Every
store is logged in the memory, every load in the cursor that makes it. -/
namespace YunbaIot

structure Memory where
  byte : Nat → UInt8
  stores : List (Nat × List UInt8)

namespace Memory

def store (m : Memory) (off : Nat) (bs : List UInt8) : Memory :=
  { byte := fun i => if off ≤ i then (bs[i - off]?).getD (m.byte i) else m.byte i
    stores := m.stores ++ [(off,bs)] }

def ofList (bs : List UInt8) : Memory := ⟨fun i => bs.getD i 0, []⟩

def slice (byte : Nat → UInt8) : Nat → Nat → List UInt8
  | _, 0 => []
  | off, len+1 => byte off :: slice byte (off+1) len

def Holds (byte : Nat → UInt8) : Nat → List UInt8 → Prop
  | _, [] => True
  | off, b :: bs => byte off = b ∧ Holds byte (off+1) bs

@[simp] theorem sliceLength (byte : Nat → UInt8) (off len : Nat) : (slice byte off len).length = len := by
  induction len generalizing off with
  | zero => rfl
  | succ len ih => simp [slice, ih]

theorem sliceHead (byte : Nat → UInt8) (off : Nat) {len : Nat} (nonempty : 0 < len) :
    (slice byte off len).head? = some (byte off) := by
  cases len with
  | zero => exact absurd nonempty (Nat.lt_irrefl 0)
  | succ len => rfl

theorem sliceGet (byte : Nat → UInt8) (off : Nat) {len j : Nat} (inside : j < len)
    (bound : j < (slice byte off len).length) : (slice byte off len)[j] = byte (off + j) := by
  induction len generalizing off j with
  | zero => cases inside
  | succ len ih =>
    cases j with
    | zero => rfl
    | succ j =>
      have rest := ih (off+1) (Nat.lt_of_succ_lt_succ inside) (Nat.lt_of_succ_lt_succ bound)
      rw [Nat.add_assoc, Nat.add_comm 1 j] at rest
      exact rest

theorem sliceAppend (byte : Nat → UInt8) (off a b : Nat) :
    slice byte off (a + b) = slice byte off a ++ slice byte (off + a) b := by
  induction a generalizing off with
  | zero => simp [slice]
  | succ a ih =>
    have shift : off + 1 + a = off + (a + 1) := by omega
    rw [show a + 1 + b = (a + b) + 1 by omega, slice, slice, ih, shift]
    rfl

theorem sliceTake (byte : Nat → UInt8) (off : Nat) {k len : Nat} (fits : k ≤ len) :
    (slice byte off len).take k = slice byte off k := by
  obtain ⟨more, rfl⟩ := Nat.exists_eq_add_of_le fits
  rw [sliceAppend]
  simp

theorem sliceDrop (byte : Nat → UInt8) (off : Nat) {k len : Nat} (fits : k ≤ len) :
    (slice byte off len).drop k = slice byte (off + k) (len - k) := by
  obtain ⟨more, rfl⟩ := Nat.exists_eq_add_of_le fits
  rw [sliceAppend]
  simp

theorem slicePrefix {byte : Nat → UInt8} {off len : Nat} {bs : List UInt8} (part : bs <+: slice byte off len) :
    bs = slice byte off bs.length := by
  have fits := part.length_le
  rw [sliceLength] at fits
  rw [← sliceTake byte off fits]
  exact List.prefix_iff_eq_take.mp part

theorem sliceCongr {byte byte' : Nat → UInt8} {off len : Nat}
    (same : ∀ i, off ≤ i → i < off + len → byte' i = byte i) : slice byte' off len = slice byte off len := by
  induction len generalizing off with
  | zero => rfl
  | succ len ih =>
    rw [slice, slice, same off (Nat.le_refl _) (by omega), ih fun i low high => same i (by omega) (by omega)]

theorem sliceOfHolds {byte : Nat → UInt8} {off : Nat} {bs : List UInt8} (h : Holds byte off bs) :
    slice byte off bs.length = bs := by
  induction bs generalizing off with
  | nil => rfl
  | cons b bs ih =>
    obtain ⟨head, tail⟩ := h
    simp [slice, head, ih tail]

theorem holdsAppend {byte : Nat → UInt8} {off : Nat} {as bs : List UInt8} :
    Holds byte off (as ++ bs) ↔ Holds byte off as ∧ Holds byte (off + as.length) bs := by
  induction as generalizing off with
  | nil => simp [Holds]
  | cons a as ih =>
    have shift : off + 1 + as.length = off + (as.length + 1) := by omega
    simp only [List.cons_append, Holds, ih, List.length_cons, shift, and_assoc]

theorem holdsCongr {byte byte' : Nat → UInt8} {off : Nat} {bs : List UInt8} (h : Holds byte off bs)
    (same : ∀ i, off ≤ i → i < off + bs.length → byte' i = byte i) : Holds byte' off bs := by
  induction bs generalizing off with
  | nil => trivial
  | cons b bs ih =>
    obtain ⟨head, tail⟩ := h
    refine ⟨(same off (Nat.le_refl _) (by simp)).trans head, ih tail ?_⟩
    intro i low high
    apply same i (by omega)
    simp only [List.length_cons]
    omega

theorem storeInside (m : Memory) (off : Nat) (bs : List UInt8) (i : Nat) (inside : i < bs.length) :
    (m.store off bs).byte (off + i) = bs[i] := by
  simp [store, inside]

theorem storeOutside (m : Memory) (off : Nat) (bs : List UInt8) (i : Nat)
    (outside : i < off ∨ off + bs.length ≤ i) : (m.store off bs).byte i = m.byte i := by
  simp only [store]
  split
  · rename_i low
    have beyond : bs.length ≤ i - off := by omega
    rw [List.getElem?_eq_none beyond]
    rfl
  · rfl

/- A store right behind another one. Only the bytes count of what a store is made on. -/
theorem storeBehind {m m' : Memory} {off next : Nat} {as : List UInt8} (held : m'.byte = (m.store off as).byte)
    (place : next = off + as.length) (bs : List UInt8) : (m'.store next bs).byte = (m.store off (as ++ bs)).byte := by
  subst place
  funext i
  simp only [store, held]
  split
  · rename_i behind
    have skip : i - off - as.length = i - (off + as.length) := by omega
    rw [if_pos (by omega), if_pos (by omega), List.getElem?_append_right (by omega), skip]
    cases entry : bs[i - (off + as.length)]? with
    | none =>
      rw [List.getElem?_eq_none (by omega)]
      rfl
    | some b => rfl
  · rename_i before
    split
    · rw [List.getElem?_append_left (by omega)]
    · rfl

theorem storeNil (m : Memory) (off : Nat) : (m.store off []).byte = m.byte := by
  funext i
  simp [store]

theorem holdsStore (m : Memory) (off : Nat) (bs : List UInt8) : Holds (m.store off bs).byte off bs := by
  have every : ∀ (tail : List UInt8) (k : Nat), bs.drop k = tail → Holds (m.store off bs).byte (off + k) tail := by
    intro tail
    induction tail with
    | nil => intro k _; trivial
    | cons b tail ih =>
      intro k split
      have inside : k < bs.length := by
        by_contra beyond
        rw [List.drop_eq_nil_of_le (by omega)] at split
        cases split
      rw [List.drop_eq_getElem_cons inside] at split
      injection split with head rest
      exact ⟨(storeInside m off bs k inside).trans head, ih (k+1) rest⟩
  simpa using every bs 0 rfl

theorem holdsStoreFrame {m : Memory} {a : Nat} {as : List UInt8} (h : Holds m.byte a as)
    (off : Nat) (bs : List UInt8) (apart : a + as.length ≤ off ∨ off + bs.length ≤ a) :
    Holds (m.store off bs).byte a as := by
  apply holdsCongr h
  intro i low high
  apply storeOutside
  omega

end Memory

structure Cursor where
  pos : Nat
  reads : List Nat
  deriving DecidableEq, Repr

namespace Cursor

def next (byte : Nat → UInt8) (c : Cursor) : UInt8 × Cursor :=
  (byte c.pos, ⟨c.pos + 1, c.reads ++ [c.pos]⟩)

def Within (c : Cursor) (len : Nat) : Prop := ∀ i ∈ c.reads, i < len
instance (c : Cursor) (len : Nat) : Decidable (c.Within len) := by unfold Within; infer_instance

def advance (c : Cursor) (count : Nat) : Cursor :=
  ⟨c.pos + count, c.reads ++ List.range' c.pos count⟩

theorem advanceNext (byte : Nat → UInt8) (c : Cursor) (count : Nat) :
    ((c.advance count).next byte).2 = c.advance (count + 1) := by
  simp [next, advance, List.range'_concat, Nat.add_assoc]

@[simp] theorem advanceZero (c : Cursor) : c.advance 0 = c := by simp [advance]

theorem advanceAdvance (c : Cursor) (a b : Nat) : (c.advance a).advance b = c.advance (a + b) := by
  simp [advance, Nat.add_assoc, List.range'_append_1]

theorem withinAdvance (c : Cursor) (count len : Nat) :
    (c.advance count).Within len ↔ c.Within len ∧ (count = 0 ∨ c.pos + count ≤ len) := by
  simp only [Within, advance, List.forall_mem_append, List.mem_range'_1]
  refine and_congr_right fun _ => ⟨fun h => ?_, fun h i inside => by omega⟩
  by_contra bad
  have last := h (c.pos + count - 1) (by omega)
  omega

end Cursor
end YunbaIot
