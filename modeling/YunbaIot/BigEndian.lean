import Mathlib.Data.List.Induction
import Mathlib.Tactic.Ring

/-! Fixed-width unsigned numbers as bytes, most significant first, and the
shift-and-or form in which code assembles them in a machine word. -/
namespace YunbaIot.BigEndian

def value (bs : List UInt8) : Nat := bs.foldl (fun n b => 256 * n + b.toNat) 0

def encode : Nat → Nat → List UInt8
  | 0, _ => []
  | width+1, n => encode width (n / 256) ++ [UInt8.ofNat (n % 256)]

theorem valueSnoc (bs : List UInt8) (b : UInt8) : value (bs ++ [b]) = 256 * value bs + b.toNat := by
  simp [value]

@[simp] theorem encodeLength (width n : Nat) : (encode width n).length = width := by
  induction width generalizing n with
  | zero => rfl
  | succ width ih => simp [encode, ih]

theorem valueEncode (width n : Nat) (bound : n < 256 ^ width) : value (encode width n) = n := by
  induction width generalizing n with
  | zero =>
    have zero : n = 0 := by simpa using bound
    simp [encode, value, zero]
  | succ width ih =>
    have smaller : n / 256 < 256 ^ width := by
      rw [Nat.div_lt_iff_lt_mul (by omega), ← Nat.pow_succ]
      exact bound
    have byte : (UInt8.ofNat (n % 256)).toNat = n % 256 := by
      rw [UInt8.toNat_ofNat']
      omega
    rw [encode, valueSnoc, ih (n / 256) smaller, byte]
    omega

theorem valueInjective {as bs : List UInt8} (size : as.length = bs.length) (same : value as = value bs) : as = bs := by
  induction as using List.reverseRecOn generalizing bs with
  | nil =>
    cases bs with
    | nil => rfl
    | cons b bs => cases size
  | append_singleton as a ih =>
    cases bs using List.reverseRecOn with
    | nil => simp at size
    | append_singleton bs b =>
      simp only [valueSnoc] at same
      have first := a.toNat_lt
      have second := b.toNat_lt
      have digit : a = b := UInt8.toNat_inj.mp (by omega)
      have rest : as = bs := ih (by simpa using size) (by omega)
      rw [digit, rest]

/- A field of bits where it stands. -/
theorem masked (x k w : Nat) : x &&& ((2 ^ w - 1) <<< k) = 2 ^ k * (x / 2 ^ k % 2 ^ w) := by
  have field : x >>> k &&& (2 ^ w - 1) = x / 2 ^ k % 2 ^ w := by
    rw [Nat.shiftRight_eq_div_pow]
    exact Nat.and_two_pow_sub_one_eq_mod _ w
  rw [← field]
  apply Nat.eq_of_testBit_eq
  intro i
  rw [Nat.testBit_and, Nat.testBit_shiftLeft, Nat.testBit_two_pow_mul, Nat.testBit_and, Nat.testBit_shiftRight]
  by_cases high : k ≤ i
  · simp [high]
  · simp [high]

theorem orBelow {x y : UInt64} {a b s : Nat} (high : x.toNat = a * 2 ^ (s + 8))
    (low : y.toNat = b * 2 ^ s) (byte : b < 256) : (x ||| y).toNat = (256 * a + b) * 2 ^ s := by
  have below : b * 2 ^ s < 2 ^ (s + 8) := by
    rw [Nat.pow_add, Nat.mul_comm]
    exact (Nat.mul_lt_mul_left (Nat.two_pow_pos s)).mpr byte
  rw [UInt64.toNat_or, high, low, Nat.mul_comm a, ← Nat.two_pow_add_eq_or_of_lt below]
  ring

theorem byteShift (b : UInt8) (s : Nat) (room : s ≤ 56) :
    (b.toUInt64 <<< UInt64.ofNat s).toNat = b.toNat * 2 ^ s := by
  have amount : (UInt64.ofNat s).toNat % 64 = s := by
    rw [UInt64.toNat_ofNat']
    omega
  have bound : b.toNat * 2 ^ s < 2 ^ 64 := by
    have scale : 2 ^ s ≤ 2 ^ 56 := Nat.pow_le_pow_right (by omega) room
    have byte := b.toNat_lt
    calc b.toNat * 2 ^ s ≤ b.toNat * 2 ^ 56 := Nat.mul_le_mul_left _ scale
      _ < 2 ^ 64 := by omega
  rw [UInt64.toNat_shiftLeft, amount, UInt8.toNat_toUInt64, Nat.shiftLeft_eq, Nat.mod_eq_of_lt bound]

end YunbaIot.BigEndian
