import Mathlib.Data.List.Basic
import Mathlib.Tactic.Common

/-! Flash memory that a write can only clear bits of, and the rewriting of a window of it that
holds what is to be written: nothing but the bytes written changes. -/
namespace YunbaIot.NorFlash

def window (chip : List UInt8) (start len : Nat) : List UInt8 := (chip.drop start).take len

/- Every byte from the start on is kept where the byte written is kept, as far as data reach. -/
def andAt (chip : List UInt8) (start : Nat) (data : List UInt8) : List UInt8 :=
  chip.mapIdx fun i b => if start ≤ i ∧ i < start + data.length then b &&& data.getD (i - start) 0 else b

/- The window with other data in their place. -/
def patched (old : List UInt8) (off : Nat) (data : List UInt8) : List UInt8 :=
  old.take off ++ data ++ old.drop (off + data.length)

theorem andGet (chip : List UInt8) (start : Nat) (data : List UInt8) (i : Nat) : (andAt chip start data)[i]? =
    chip[i]?.map fun b => if start ≤ i ∧ i < start + data.length then b &&& data.getD (i - start) 0 else b := by
  rw [andAt, List.getElem?_mapIdx]

@[simp] theorem andLength (chip : List UInt8) (start : Nat) (data : List UInt8) :
    (andAt chip start data).length = chip.length := by
  simp [andAt]

theorem windowLength {chip : List UInt8} {start len : Nat} (inside : start + len ≤ chip.length) :
    (window chip start len).length = len := by
  simp [window]
  omega

theorem windowGet {chip : List UInt8} {start len j : Nat} (inside : j < len) :
    (window chip start len)[j]? = chip[start + j]? := by
  simp [window,inside]

theorem patchedLength {old data : List UInt8} {off : Nat} (fits : off + data.length ≤ old.length) :
    (patched old off data).length = old.length := by
  simp [patched]
  omega

theorem patchedGet {old data : List UInt8} {off : Nat} (fits : off + data.length ≤ old.length) (j : Nat) :
    (patched old off data)[j]? = if off ≤ j ∧ j < off + data.length then data[j - off]? else old[j]? := by
  have front : (old.take off).length = off := List.length_take_of_le (by omega)
  unfold patched
  rcases Nat.lt_or_ge j off with before | behind
  · rw [List.append_assoc, List.getElem?_append_left (by omega), if_neg (by omega),
      List.getElem?_take_of_lt before]
  · rw [List.append_assoc, List.getElem?_append_right (by omega), front]
    rcases Nat.lt_or_ge j (off + data.length) with inside | beyond
    · rw [if_pos ⟨behind,inside⟩, List.getElem?_append_left (by omega)]
    · rw [if_neg (by omega), List.getElem?_append_right (by omega), List.getElem?_drop]
      congr 1
      omega

/- A part of a window is a window. -/
theorem windowPart {chip : List UInt8} {start len off n : Nat} (inside : start + len ≤ chip.length) (fits : off + n ≤ len)
    (rest : List UInt8) : ((window chip start len ++ rest).drop off).take n = window chip (start + off) n := by
  have size := windowLength inside
  rw [List.drop_append_of_le_length (by omega), List.take_append_of_le_length (by rw [List.length_drop]; omega)]
  simp only [window,List.drop_take,List.take_take,List.drop_drop]
  congr 1
  omega

theorem patchedTake {old data : List UInt8} {off : Nat} (fits : off + data.length ≤ old.length) (rest : List UInt8) :
    (patched (old ++ rest) off data).take old.length = patched old off data := by
  have front : (old ++ rest).take off = old.take off := List.take_append_of_le_length (by omega)
  have behind : (old ++ rest).drop (off + data.length) = old.drop (off + data.length) ++ rest :=
    List.drop_append_of_le_length fits
  have whole : patched (old ++ rest) off data = patched old off data ++ rest := by
    simp only [patched,front,behind,List.append_assoc]
  rw [whole]
  exact List.take_left' (patchedLength fits)

/- What writing bytes that clear bits does to a chip. -/
structure Anded (before after : List UInt8) (start : Nat) (data : List UInt8) : Prop where
  length : after.length = before.length
  written : ∀ i < data.length, after[start + i]? = before[start + i]?.map (· &&& data.getD i 0)
  frame : ∀ i, i < start ∨ start + data.length ≤ i → after[i]? = before[i]?

theorem andAnded (chip : List UInt8) (start : Nat) (data : List UInt8) : Anded chip (andAt chip start data) start data := by
  refine ⟨andLength chip start data,fun i inside => ?_,fun i outside => ?_⟩
  · have here : start ≤ start + i ∧ start + i < start + data.length := by omega
    rw [andGet, Nat.add_sub_cancel_left]
    simp only [if_pos here]
  · have away : ¬ (start ≤ i ∧ i < start + data.length) := by omega
    rw [andGet]
    simp only [if_neg away,Option.map_id']

/-- A window written back with new data in it changes what the data alone would change. -/
theorem rewriteExact {chip data : List UInt8} {start len off : Nat} (inside : start + len ≤ chip.length)
    (fits : off + data.length ≤ len) :
    andAt chip start (patched (window chip start len) off data) = andAt chip (start + off) data := by
  have size := windowLength inside
  have width : (patched (window chip start len) off data).length = len :=
    (patchedLength (by omega)).trans size
  apply List.ext_getElem?
  intro i
  rw [andGet, andGet, width]
  cases here : chip[i]? with
  | none => rfl
  | some b =>
    simp only [Option.map_some,Option.some.injEq]
    by_cases covered : start ≤ i ∧ i < start + len
    · rw [if_pos covered, List.getD_eq_getElem?_getD, patchedGet (by omega)]
      by_cases written : start + off ≤ i ∧ i < start + off + data.length
      · rw [if_pos (by omega), if_pos written, List.getD_eq_getElem?_getD]
        congr 3
        omega
      · -- a neighbour meets its own bits
        have own : start + (i - start) = i := by omega
        rw [if_neg (by omega), if_neg written, windowGet (by omega), own, here]
        exact UInt8.and_self
    · rw [if_neg covered, if_neg (by omega)]

end YunbaIot.NorFlash
