import Mathlib.Tactic.Linarith
import Mathlib.Tactic.Ring

/-! Whole numbers of up to 53 bits as doubles: sums, differences and products of them are exact,
and so is the way back to an int. -/
namespace YunbaIot.WholeDouble
open Float.Model Float.Model.UnpackedFloat

/-! Rounding what needs none -/

/- The places behind the point that 53 bits leave to n -/
def room (n : Nat) : Nat := 52 - n.log2

theorem scaledPos {n : Nat} (pos : 0 < n) (j : Nat) : 0 < n * 2^j := Nat.mul_pos pos (Nat.two_pow_pos j)

theorem scaledLog {n : Nat} (pos : 0 < n) (j : Nat) : (n * 2^j).log2 = n.log2 + j := by
  have filled := (scaledPos pos j).ne'
  rw [Nat.log2_eq_iff filled]
  constructor
  · rw [Nat.pow_add]
    exact Nat.mul_le_mul_right _ (Nat.log2_self_le pos.ne')
  · rw [show n.log2 + j + 1 = n.log2 + 1 + j by omega, Nat.pow_add]
    exact Nat.mul_lt_mul_of_pos_right Nat.lt_log2_self (Nat.two_pow_pos j)

theorem logBound {n : Nat} (small : n < 2^53) : n.log2 ≤ 52 := by
  rcases Nat.eq_zero_or_pos n with rfl | pos
  · decide
  · have := (Nat.log2_lt pos.ne').mpr small
    omega

/- As many zero bits as are shifted out leave nothing to round. -/
theorem shiftedOut (k m : Nat) : (⟨m * 2^k,false,false⟩ : ExtendedMantissa) >>> k = ⟨m,false,false⟩ := by
  change Nat.repeat ExtendedMantissa.shiftRightOne k ⟨m * 2^k,false,false⟩ = _
  induction k generalizing m with
  | zero => rw [Nat.pow_zero, Nat.mul_one, Nat.repeat]
  | succ k ih =>
    have halves : m * 2^(k+1) = m * 2 * 2^k := by rw [Nat.pow_succ, Nat.mul_assoc, Nat.mul_comm 2]
    rw [Nat.repeat, halves, ih (m * 2)]
    simp [ExtendedMantissa.shiftRightOne]

theorem target {n : Nat} (pos : 0 < n) (small : n < 2^53) (j : Nat) :
    Format.binary64.targetExponent (totalExponent (n * 2^j) (-j)) = -(room n : Int) := by
  have bound := logBound small
  unfold Format.targetExponent totalExponent room
  rw [scaledLog pos]
  change max (_ - (53 : Int)) (-1074 : Int) = _
  omega

theorem shiftedTarget {n : Nat} (pos : 0 < n) (small : n < 2^53) {j : Nat} (placed : room n ≤ j) :
    shiftToTargetExponent .binary64 (n * 2^j) (-j) .exact = (⟨n * 2^room n,false,false⟩,-(room n : Int)) := by
  have parts : n * 2^j = n * 2^room n * 2^(j - room n) := by
    rw [Nat.mul_assoc, ← Nat.pow_add, Nat.add_sub_of_le placed]
  have amount : (-(room n : Int) - -(j : Int)).toNat = j - room n := by omega
  unfold shiftToTargetExponent shiftToExponent
  dsimp only [ExtendedMantissa.ofMantissaAndAccuracy]
  rw [target pos small, amount, parts, shiftedOut, show -(j : Int) + (j - room n : Nat) = -(room n : Int) by omega]

/- n in the one form that the format has for it -/
def canonical (s : Sign) (n : Nat) : UnpackedFloat :=
  if pos : 0 < n then .finite s (n * 2^room n) (-(room n : Int)) (scaledPos pos _) else .zero s

/- Both shifts of the rounding -/
theorem roundedTwice {spec : Format} {s : Sign} {m : Nat} {e e₁ e₂ : Int} {a : Accuracy} {em em' : ExtendedMantissa}
    (first : shiftToTargetExponent spec m e a = (em,e₁))
    (second : shiftToTargetExponent spec em.roundedMantissa e₁ .exact = (em',e₂)) (pos : 0 < em'.mantissa) :
    roundWithAccuracy spec s m e a = .finite s em'.mantissa e₂ pos := by
  unfold roundWithAccuracy
  rw [first]
  dsimp only
  generalize shiftToTargetExponent spec em.roundedMantissa e₁ .exact = shifted at second
  subst second
  exact dif_neg pos.ne'

theorem canonicalZero (s : Sign) : canonical s 0 = .zero s := rfl

theorem canonicalPos (s : Sign) {n : Nat} (pos : 0 < n) :
    canonical s n = .finite s (n * 2^room n) (-(room n : Int)) (scaledPos pos _) := dif_pos pos

theorem roundedExactly (s : Sign) {n : Nat} (pos : 0 < n) (small : n < 2^53) {j : Nat} (placed : room n ≤ j) :
    roundWithAccuracy .binary64 s (n * 2^j) (-j) .exact = canonical s n := by
  rw [canonicalPos s pos]
  exact roundedTwice (shiftedTarget pos small placed) (shiftedTarget pos small (Nat.le_refl _)) (scaledPos pos _)

theorem rounded (s : Sign) {n : Nat} (pos : 0 < n) (small : n < 2^53) (j : Nat) :
    UnpackedFloat.round .binary64 s (n * 2^j) (-j) = canonical s n := by
  have amount : (-(j : Int) - -(room n : Int)).toNat = room n - j := by omega
  unfold UnpackedFloat.round decreaseExponent
  dsimp only
  rw [target pos small, amount, Nat.shiftLeft_eq, Nat.mul_assoc, ← Nat.pow_add,
    show -(j : Int) - (room n - j : Nat) = -((j + (room n - j) : Nat) : Int) by omega]
  exact roundedExactly s pos small (by omega)

/-! Packing and unpacking -/

theorem canonicalBits {n : Nat} (pos : 0 < n) (small : n < 2^53) : 2^52 ≤ n * 2^room n ∧ n * 2^room n < 2^53 := by
  have filled := (scaledPos pos (room n)).ne'
  rw [← Nat.log2_eq_iff filled, scaledLog pos]
  have := logBound small
  unfold room
  omega

theorem unpackedSign {spec : Format} (s : Sign) (exponent : BitVec spec.exponentBits)
    (mantissa : BitVec spec.mantissaBitsWithoutImplicit) : unpackSign (packComponents spec s exponent mantissa) = s.toBitVec := by
  ext i inside
  have first : i = 0 := by omega
  subst first
  unfold unpackSign
  simp [packComponents, BitVec.getLsbD_append, BitVec.getLsbD_eq_getElem, BitVec.getElem_append]

theorem signBack (s : Sign) : Sign.ofBitVec s.toBitVec = s := by cases s <;> rfl

/- The bit that is not stored is put back. -/
theorem hiddenBit {m : Nat} (low : 2^52 ≤ m) (high : m < 2^53) : (1#1 ++ BitVec.ofNat 52 m).toNat = m := by
  have rest : (BitVec.ofNat 52 m).toNat = m - 2^52 := by
    rw [BitVec.toNat_ofNat]
    omega
  have fits : m - 2^52 < 2^52 := by omega
  rw [BitVec.toNat_append, rest, ← Nat.shiftLeft_add_eq_or_of_lt fits]
  change 1 <<< 52 + (m - 2^52) = m
  omega

theorem finiteSame {s s' : Sign} {m m' : Nat} {e e' : Int} {pos : 0 < m} {pos' : 0 < m'} (sign : s = s') (mantissa : m = m')
    (exponent : e = e') : UnpackedFloat.finite s m e pos = .finite s' m' e' pos' := by
  subst sign mantissa exponent
  rfl

/- Of the exponents a normal number has -/
theorem componentsBack (s : Sign) {b m : Nat} {e : Int} (some : 0 < b) (fits : b < 2047) (low : 2^52 ≤ m) (high : m < 2^53)
    (pos : 0 < m) (place : b - 1075 = e) :
    UnpackedFloat.unpack .binary64 (packComponents .binary64 s (BitVec.ofNat 11 b) (BitVec.ofNat 52 m)) = .finite s m e pos := by
  have exponent : (BitVec.ofNat 11 b).toNat = b := by
    rw [BitVec.toNat_ofNat]
    omega
  have notAll : BitVec.ofNat 11 b ≠ -1#11 := fun same => by
    rw [same] at exponent
    change 2047 = b at exponent
    omega
  have notNone : BitVec.ofNat 11 b ≠ 0#11 := fun same => by
    rw [same] at exponent
    change 0 = b at exponent
    omega
  unfold UnpackedFloat.unpack
  dsimp only
  rw [unpackExponent_packComponents, if_neg notAll, if_neg notNone]
  refine finiteSame ?_ ?_ ?_
  · rw [unpackedSign, signBack]
  · rw [unpackMantissa_packComponents]
    exact hiddenBit low high
  · rw [exponent]
    exact place

theorem packedBack (s : Sign) {n : Nat} (small : n < 2^53) : (pack (canonical s n)).unpack = canonical s n := by
  rcases Nat.eq_zero_or_pos n with rfl | pos
  · cases s <;> rfl
  · obtain ⟨low,high⟩ := canonicalBits pos small
    have bits : (n * 2^room n).log2 = 52 := (Nat.log2_eq_iff (scaledPos pos _).ne').mpr ⟨low,high⟩
    have places : room n ≤ 52 := Nat.sub_le _ _
    have biased : (-(room n : Int) + 1023 + 52).toNat = 1075 - room n := by omega
    have components : UnpackedFloat.pack .binary64 (canonical s n) =
        packComponents .binary64 s (BitVec.ofNat 11 (1075 - room n)) (BitVec.ofNat 52 (n * 2^room n)) := by
      rw [canonicalPos s pos]
      change (if 2^11 ≤ (-(room n : Int) + 1023 + 52).toNat + 1 then _ else if (n * 2^room n).log2 + 1 = 53 then
        packComponents .binary64 s (BitVec.ofNat 11 (-(room n : Int) + 1023 + 52).toNat) _ else _) = _
      rw [biased, if_neg (by omega), if_pos (by omega)]
    change UnpackedFloat.unpack .binary64 (UnpackedFloat.pack .binary64 _) = _
    rw [components, canonicalPos s pos]
    exact componentsBack s (by omega) (by omega) low high (scaledPos pos _) (by omega)

/-! What a double holds -/

/- The whole number n, which as zero may be negative -/
def Holds (x : Float.Model) (n : Int) : Prop :=
  n.natAbs < 2^53 ∧ ∃ s : Sign, x.unpack = canonical s n.natAbs ∧ s.apply n.natAbs = n

theorem holdsPacked {s : Sign} {n : Int} (small : n.natAbs < 2^53) (same : s.apply n.natAbs = n) :
    Holds (pack (canonical s n.natAbs)) n := ⟨small,s,packedBack s small,same⟩

theorem normalized {n : Int} (small : n.natAbs < 2^53) (j : Nat) :
    ∃ s : Sign, UnpackedFloat.normalize .binary64 (n * 2^j) (-j) .positive = canonical s n.natAbs ∧ s.apply n.natAbs = n := by
  have scale : (0 : Int) < 2^j := Int.pow_pos (by decide)
  unfold UnpackedFloat.normalize
  rcases lt_trichotomy n 0 with minus | rfl | plus
  · refine ⟨.negative,?_,by change -(n.natAbs : Int) = n; omega⟩
    have below : compare (n * 2^j) 0 = .lt := compare_lt_iff_lt.mpr (Int.mul_neg_of_neg_of_pos minus scale)
    have magnitude : (-(n * 2^j)).toNat = n.natAbs * 2^j := by
      have parts : -(n * 2^j) = ((n.natAbs * 2^j : Nat) : Int) := by
        push_cast
        rw [abs_of_neg minus]
        ring
      rw [parts, Int.toNat_natCast]
    rw [below]
    dsimp only
    rw [magnitude]
    exact rounded .negative (by omega) small j
  · refine ⟨.positive,?_,rfl⟩
    rw [Int.zero_mul]
    rfl
  · refine ⟨.positive,?_,by change (n.natAbs : Int) = n; omega⟩
    have above : compare (n * 2^j) 0 = .gt := compare_gt_iff_gt.mpr (Int.mul_pos plus scale)
    have magnitude : (n * 2^j).toNat = n.natAbs * 2^j := by
      have parts : n * 2^j = ((n.natAbs * 2^j : Nat) : Int) := by
        push_cast
        rw [abs_of_pos plus]
      rw [parts, Int.toNat_natCast]
    rw [above]
    dsimp only
    rw [magnitude]
    exact rounded .positive (by omega) small j

theorem ofIntHolds {n : Int} (small : n.natAbs < 2^53) : Holds (ofInt n) n := by
  obtain ⟨s,form,same⟩ := normalized small 0
  have packed : ofInt n = pack (canonical s n.natAbs) := by
    rw [← form, Int.pow_zero, Int.mul_one]
    rfl
  rw [packed]
  exact holdsPacked small same

/- Both mantissas at the smaller of the exponents -/
theorem aligned (n i j : Nat) : decreaseExponent (n * 2^i) (-(i : Int)) (min (-(i : Int)) (-(j : Int))) =
    (n * 2^max i j,-((max i j : Nat) : Int)) := by
  have amount : (-(i : Int) - min (-(i : Int)) (-(j : Int))).toNat = max i j - i := by omega
  have together : i + (max i j - i) = max i j := by omega
  unfold decreaseExponent
  dsimp only
  rw [amount, Nat.shiftLeft_eq, Nat.mul_assoc, ← Nat.pow_add, together]
  congr 1
  omega

theorem applied (s : Sign) (n j : Nat) : s.apply ((n * 2^j : Nat) : Int) = s.apply n * 2^j := by
  cases s <;> simp [Sign.apply]

theorem magnitude (s : Sign) (n : Nat) : (s.apply n).natAbs = n := by
  cases s
  · exact Int.natAbs_neg _
  · rfl

theorem finiteSum {s t : Sign} {a b : Nat} (left : 0 < a) (right : 0 < b) (small : (s.apply a + t.apply b).natAbs < 2^53) :
    ∃ u : Sign, UnpackedFloat.add .binary64 (canonical s a) (canonical t b) = canonical u (s.apply a + t.apply b).natAbs ∧
      u.apply (s.apply a + t.apply b).natAbs = s.apply a + t.apply b := by
  obtain ⟨u,form,same⟩ := normalized small (max (room a) (room b))
  refine ⟨u,?_,same⟩
  rw [canonicalPos s left, canonicalPos t right]
  unfold UnpackedFloat.add
  dsimp only
  rw [aligned a (room a) (room b), min_comm, aligned b (room b) (room a), max_comm (room b) (room a)]
  dsimp only
  rw [applied, applied, ← Int.add_mul, ← form]
  congr 1
  omega

theorem sum {s t : Sign} {a b : Nat} (small : (s.apply a + t.apply b).natAbs < 2^53) :
    ∃ u : Sign, UnpackedFloat.add .binary64 (canonical s a) (canonical t b) = canonical u (s.apply a + t.apply b).natAbs ∧
      u.apply (s.apply a + t.apply b).natAbs = s.apply a + t.apply b := by
  have nothing : ∀ u : Sign, u.apply (0 : Nat) = 0 := fun u => by cases u <;> rfl
  rcases Nat.eq_zero_or_pos a with rfl | left
  · rw [nothing, Int.zero_add, magnitude]
    rcases Nat.eq_zero_or_pos b with rfl | right
    · cases s <;> cases t <;> exact ⟨_,rfl,rfl⟩
    · refine ⟨t,?_,rfl⟩
      rw [canonicalZero, canonicalPos t right]
      rfl
  · rcases Nat.eq_zero_or_pos b with rfl | right
    · rw [nothing, Int.add_zero, magnitude]
      refine ⟨s,?_,rfl⟩
      rw [canonicalZero, canonicalPos s left]
      rfl
    · exact finiteSum left right small

theorem addHolds {x y : Float.Model} {a b : Int} (left : Holds x a) (right : Holds y b) (small : (a + b).natAbs < 2^53) :
    Holds (x + y) (a + b) := by
  obtain ⟨_,s,first,sign⟩ := left
  obtain ⟨_,t,second,sign'⟩ := right
  change Holds (pack (UnpackedFloat.add .binary64 x.unpack y.unpack)) (a + b)
  have whole := sum (s := s) (t := t) (a := a.natAbs) (b := b.natAbs)
  rw [sign, sign'] at whole
  obtain ⟨u,form,same⟩ := whole small
  rw [first, second, form]
  exact holdsPacked small same

theorem negApplied (s : Sign) (n : Int) : (-s).apply n = -s.apply n := by
  cases s
  · exact (Int.neg_neg n).symm
  · rfl

theorem subNeg (spec : Format) (x y : UnpackedFloat) : UnpackedFloat.sub spec x y = UnpackedFloat.add spec x y.neg := by
  cases x <;> cases y <;> try rfl
  rename_i s m e _ t n f _
  unfold UnpackedFloat.sub UnpackedFloat.add UnpackedFloat.neg
  dsimp only
  rw [negApplied, Int.sub_eq_add_neg]

theorem canonicalNeg (s : Sign) (n : Nat) : (canonical s n).neg = canonical (-s) n := by
  rcases Nat.eq_zero_or_pos n with rfl | pos
  · rfl
  · rw [canonicalPos s pos, canonicalPos (-s) pos]
    rfl

theorem subHolds {x y : Float.Model} {a b : Int} (left : Holds x a) (right : Holds y b) (small : (a - b).natAbs < 2^53) :
    Holds (x - y) (a - b) := by
  obtain ⟨_,s,first,sign⟩ := left
  obtain ⟨_,t,second,sign'⟩ := right
  change Holds (pack (UnpackedFloat.sub .binary64 x.unpack y.unpack)) (a - b)
  have whole := sum (s := s) (t := -t) (a := a.natAbs) (b := b.natAbs)
  rw [negApplied, sign, sign', ← Int.sub_eq_add_neg] at whole
  obtain ⟨u,form,same⟩ := whole small
  rw [first, second, subNeg, canonicalNeg, form]
  exact holdsPacked small same

theorem signProduct (s t : Sign) (a b : Int) : (s * t).apply (a * b) = s.apply a * t.apply b := by
  cases s <;> cases t
  · exact (Int.neg_mul_neg a b).symm
  · exact (Int.neg_mul a b).symm
  · exact (Int.mul_neg a b).symm
  · rfl

theorem product {s t : Sign} {a b : Nat} (left : a < 2^53) (right : b < 2^53) (small : a * b < 2^53) :
    UnpackedFloat.mul .binary64 (canonical s a) (canonical t b) = canonical (s * t) (a * b) := by
  rcases Nat.eq_zero_or_pos a with rfl | some
  · rw [Nat.zero_mul]
    rcases Nat.eq_zero_or_pos b with rfl | some'
    · rfl
    · rw [canonicalPos t some']
      rfl
  · rcases Nat.eq_zero_or_pos b with rfl | some'
    · rw [Nat.mul_zero, canonicalPos s some]
      rfl
    · have some'' := Nat.mul_pos some some'
      have bigger : a.log2 ≤ (a * b).log2 :=
        (Nat.le_log2 some''.ne').mpr (Nat.le_trans (Nat.log2_self_le some.ne') (Nat.le_mul_of_pos_right a some'))
      have bound := logBound right
      have bound' := logBound left
      have placed : room (a * b) ≤ room a + room b := by
        unfold room
        omega
      rw [canonicalPos s some, canonicalPos t some', ← roundedExactly (s * t) some'' small placed]
      unfold UnpackedFloat.mul
      dsimp only
      congr 1
      · rw [Nat.pow_add]
        ring
      · omega

theorem mulHolds {x y : Float.Model} {a b : Int} (left : Holds x a) (right : Holds y b) (small : (a * b).natAbs < 2^53) :
    Holds (x * y) (a * b) := by
  obtain ⟨few,s,first,sign⟩ := left
  obtain ⟨few',t,second,sign'⟩ := right
  have magnitudes : (a * b).natAbs = a.natAbs * b.natAbs := Int.natAbs_mul a b
  have same : (s * t).apply (a * b).natAbs = a * b := by
    rw [magnitudes, Int.natCast_mul, signProduct, sign, sign']
  change Holds (pack (UnpackedFloat.mul .binary64 x.unpack y.unpack)) (a * b)
  rw [first, second, product few few' (by omega), ← magnitudes]
  exact holdsPacked small same

/-! Back to an int -/

theorem roundedToInt (s : Sign) (n : Nat) : roundToInt s (n * 2^room n) (-(room n : Int)) = s.apply n := by
  have nothing : (-(room n : Int) - 0).toNat = 0 := by omega
  have places : (0 - (-(room n : Int) - (0 : Nat))).toNat = room n := by omega
  unfold roundToInt decreaseExponent shiftToExponent
  dsimp only [ExtendedMantissa.ofMantissaAndAccuracy]
  rw [nothing, Nat.shiftLeft_zero, places, shiftedOut]

theorem canonicalToInt (s : Sign) (n : Nat) (low high : Int) : toInt low high (canonical s n) = s.apply n := by
  rcases Nat.eq_zero_or_pos n with rfl | pos
  · cases s <;> rfl
  · rw [canonicalPos s pos]
    exact roundedToInt s n

theorem toInt32Holds {x : Float.Model} {n : Int} (holds : Holds x n) (low : -2^31 ≤ n) (high : n < 2^31) :
    x.toInt32.toInt = n := by
  obtain ⟨_,s,form,same⟩ := holds
  change (Int32.ofIntClamp (x.unpack.toInt Int32.minValue.toInt Int32.maxValue.toInt)).toInt = n
  rw [form, canonicalToInt, same]
  exact Int32.toInt_ofIntClamp low (Int.le_of_lt_add_one high)

end YunbaIot.WholeDouble
