import YunbaIot.BigEndian

/-! Segments of an image: an address, a length and as many bytes, the numbers as little-endian
words. A reader that is told how many there are finds them again. -/
namespace YunbaIot.Segments

def word (n : Nat) : List UInt8 := (BigEndian.encode 4 n).reverse

structure Segment where
  address : Nat
  data : List UInt8
  deriving DecidableEq, Repr

/- What the words of a segment can say. -/
structure Fits (s : Segment) : Prop where
  address : s.address < 2 ^ 32
  size : s.data.length < 2 ^ 32

def encode (s : Segment) : List UInt8 := word s.address ++ word s.data.length ++ s.data

def readWord (bytes : List UInt8) : Option (Nat × List UInt8) :=
  if 4 ≤ bytes.length then some (BigEndian.value (bytes.take 4).reverse,bytes.drop 4) else none

def read (bytes : List UInt8) : Option (Segment × List UInt8) := do
  let (address,rest) ← readWord bytes
  let (size,rest) ← readWord rest
  if size ≤ rest.length then some (⟨address,rest.take size⟩,rest.drop size) else none

def readMany : Nat → List UInt8 → Option (List Segment × List UInt8)
  | 0, bytes => some ([],bytes)
  | count+1, bytes => do
    let (s,rest) ← read bytes
    let (later,rest) ← readMany count rest
    some (s :: later,rest)

@[simp] theorem wordLength (n : Nat) : (word n).length = 4 := by simp [word]

@[simp] theorem encodeLength (s : Segment) : (encode s).length = s.data.length + 8 := by
  simp [encode]
  omega

theorem readWordExact {n : Nat} (bound : n < 2 ^ 32) (rest : List UInt8) : readWord (word n ++ rest) = some (n,rest) := by
  have whole : (word n ++ rest).take 4 = word n := List.take_left' (wordLength n)
  have behind : (word n ++ rest).drop 4 = rest := List.drop_left' (wordLength n)
  have value := BigEndian.valueEncode 4 n bound
  unfold readWord
  rw [whole, behind, word, List.reverse_reverse, value]
  simp

theorem readExact {s : Segment} (fits : Fits s) (rest : List UInt8) : read (encode s ++ rest) = some (s,rest) := by
  simp [read,encode,List.append_assoc,readWordExact fits.address,readWordExact fits.size]

theorem readManyExact {segments : List Segment} (fits : ∀ s ∈ segments, Fits s) (rest : List UInt8) :
    readMany segments.length (segments.flatMap encode ++ rest) = some (segments,rest) := by
  induction segments with
  | nil => rfl
  | cons s later ih =>
    obtain ⟨first,others⟩ := List.forall_mem_cons.mp fits
    simp [readMany,List.append_assoc,readExact first,ih others]

theorem readManyLength {count : Nat} {bytes rest : List UInt8} {segments : List Segment}
    (read : readMany count bytes = some (segments,rest)) : segments.length = count := by
  induction count generalizing bytes segments with
  | zero =>
    cases read
    rfl
  | succ count ih =>
    simp only [readMany,bind,Option.bind_eq_some_iff] at read
    obtain ⟨⟨s,left⟩,_,⟨later,behind⟩,others,whole⟩ := read
    cases whole
    simp [ih others]

end YunbaIot.Segments
