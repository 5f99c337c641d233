import Mathlib.Data.List.Basic
import Mathlib.Tactic.Ring

/-! Entries of a type byte, a length of two bytes, the high one first, and a value. What a
list of entries encodes to is parsed into that list. -/
namespace YunbaIot.Tlv

structure Entry where
  type : UInt8
  value : List UInt8
  deriving DecidableEq, Repr

def header (type : UInt8) (length : Nat) : List UInt8 := [type,UInt8.ofNat (length / 256),UInt8.ofNat (length % 256)]

def Entry.bytes (e : Entry) : List UInt8 := header e.type e.value.length ++ e.value

def encode (entries : List Entry) : List UInt8 := entries.flatMap Entry.bytes

def size (entries : List Entry) : Nat := (entries.map fun e => 3 + e.value.length).sum

def parseLoop : Nat → List UInt8 → Option (List Entry)
  | _, [] => some []
  | fuel+1, t :: hi :: lo :: rest =>
    let length := hi.toNat * 256 + lo.toNat
    if length ≤ rest.length then (⟨t,rest.take length⟩ :: ·) <$> parseLoop fuel (rest.drop length) else none
  | _, _ => none

/- Every round takes three bytes at least. -/
def parse (bytes : List UInt8) : Option (List Entry) := parseLoop bytes.length bytes

@[simp] theorem sizeCons (e : Entry) (entries : List Entry) : size (e :: entries) = 3 + e.value.length + size entries := rfl

theorem sizeAppend (first second : List Entry) : size (first ++ second) = size first + size second := by
  simp [size]

theorem bytesLength (e : Entry) : e.bytes.length = 3 + e.value.length := by
  simp only [Entry.bytes, header, List.length_append, List.length_cons, List.length_nil]

theorem encodeCons (e : Entry) (entries : List Entry) : encode (e :: entries) = e.bytes ++ encode entries := rfl

theorem encodeAppend (first second : List Entry) : encode (first ++ second) = encode first ++ encode second :=
  List.flatMap_append

theorem encodeLength (entries : List Entry) : (encode entries).length = size entries := by
  induction entries with
  | nil => rfl
  | cons e entries ih => rw [encodeCons, List.length_append, bytesLength, ih, sizeCons]

theorem lengthBytes {n : Nat} (short : n < 65536) : (UInt8.ofNat (n / 256)).toNat * 256 + (UInt8.ofNat (n % 256)).toNat = n := by
  rw [UInt8.toNat_ofNat', UInt8.toNat_ofNat']
  omega

theorem parseEncode {entries : List Entry} (short : ∀ e ∈ entries, e.value.length < 65536) (fuel : Nat)
    (enough : (encode entries).length ≤ fuel) : parseLoop fuel (encode entries) = some entries := by
  induction entries generalizing fuel with
  | nil => cases fuel <;> rfl
  | cons e entries ih =>
    rw [encodeCons, List.length_append, bytesLength] at enough
    cases fuel with
    | zero => omega
    | succ fuel =>
      have length := lengthBytes (short e List.mem_cons_self)
      have rest := ih (fun e inside => short e (List.mem_cons_of_mem _ inside)) fuel (by omega)
      show parseLoop (fuel+1) (e.type :: UInt8.ofNat (e.value.length / 256) :: UInt8.ofNat (e.value.length % 256) ::
        (e.value ++ encode entries)) = _
      rw [parseLoop]
      rw [length, if_pos (by simp), List.take_left, List.drop_left, rest]
      rfl

/-- What was encoded is parsed. -/
theorem parsed {entries : List Entry} (short : ∀ e ∈ entries, e.value.length < 65536) :
    parse (encode entries) = some entries := parseEncode short _ (Nat.le_refl _)

/- The entries of a short text are short. -/
theorem sizeShort {entries : List Entry} {bound : Nat} (fits : size entries ≤ bound) :
    ∀ e ∈ entries, e.value.length < bound := by
  induction entries with
  | nil => exact nofun
  | cons e entries ih =>
    rw [sizeCons] at fits
    intro d inside
    rcases List.mem_cons.mp inside with rfl | later
    · omega
    · exact ih (by omega) d later

end YunbaIot.Tlv
