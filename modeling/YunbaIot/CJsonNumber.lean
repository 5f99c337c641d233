import YunbaIot.CJsonRendering
import YunbaIot.WholeDouble

/-! The arithmetic of parse_number: a number that is written for an int, with a point and an exponent or without, is read
as that int. -/
namespace YunbaIot.CJsonNumber
open CJson CJsonGrammar CJsonReading CJsonParsing CJsonRendering CJsonPrint WholeDouble

/- pow is exact where the power of ten is an int. -/
def WholePowers (pow : Float.Model → Float.Model → Float.Model) : Prop :=
  ∀ (k : Nat) (y : Float.Model), k ≤ 9 → Holds y k → Holds (pow (double 10) y) (10^k : Nat)

/- A number whose value is the int n, without digits behind the point that its exponent does not move before it -/
inductive Written : Int → List UInt8 → Prop where
  | mk {m : Int} {k : Nat} {t : List UInt8} (number : Number m k t) (power : k ≤ 9) (int : CInt (m * (10^k : Nat)))
      (short : t.length < 2^30) : Written (m * (10^k : Nat)) t

/- The int that is written, and for any other number the one that the doubles make -/
inductive Denotes (pow : Float.Model → Float.Model → Float.Model) : Int → List UInt8 → Prop where
  | int {n : Int} {t : List UInt8} (written : Written n t) : Denotes pow n t
  | other {t : List UInt8} (otherwise : ∀ n, ¬ Written n t) : Denotes pow (valueintOf pow t) t

/-! Digits -/

def accumulated (n : Nat) (t : List UInt8) : Nat := t.foldl (fun n b => 10 * n + (b.toNat - 48)) n

theorem accumulatedGrows (n : Nat) (t : List UInt8) : n ≤ accumulated n t := by
  induction t generalizing n with
  | nil => exact Nat.le_refl n
  | cons b t ih =>
    have step := ih (10 * n + (b.toNat - 48))
    change n ≤ accumulated (10 * n + (b.toNat - 48)) t
    omega

theorem digitValue {b : UInt8} (isDigit : isDigit b = true) : digit b = ((b.toNat - 48 : Nat) : Int) ∧ b.toNat - 48 < 10 := by
  have bounds : 48 ≤ b ∧ b ≤ 57 := by simpa [CJson.isDigit] using isDigit
  have low : 48 ≤ b.toNat := UInt8.le_iff_toNat_le.mp bounds.1
  have high : b.toNat ≤ 57 := UInt8.le_iff_toNat_le.mp bounds.2
  unfold digit
  omega

theorem shiftInHolds {x : Float.Model} {n : Nat} {t : List UInt8} (all : ∀ b ∈ t, isDigit b = true) (holds : Holds x n)
    (small : accumulated n t < 2^53) : Holds (shiftIn x t) (accumulated n t) := by
  induction t generalizing x n with
  | nil => exact holds
  | cons b t ih =>
    obtain ⟨value,_⟩ := digitValue (all b List.mem_cons_self)
    have grows : 10 * n + (b.toNat - 48) < 2^53 := Nat.lt_of_le_of_lt (accumulatedGrows _ t) small
    have tens : Holds (x * double 10) ((n : Int) * 10) := mulHolds holds (ofIntHolds (by decide)) (by omega)
    have units : Holds (double (digit b)) (digit b) := ofIntHolds (by rw [value]; omega)
    have shifted : Holds (x * double 10 + double (digit b)) ((n : Int) * 10 + digit b) :=
      addHolds tens units (by rw [value]; omega)
    have same : (n : Int) * 10 + digit b = ((10 * n + (b.toNat - 48) : Nat) : Int) := by
      rw [value]
      push_cast
      omega
    rw [same] at shifted
    exact ih (fun b' inside => all b' (List.mem_cons_of_mem b inside)) shifted small

theorem scaleHolds {t : List UInt8} (short : t.length < 2^30) : Holds (scaleBehind t) (-t.length) := by
  have counted : ∀ (x : Float.Model) (n : Nat), Holds x (-n) → n + t.length < 2^31 →
      Holds (t.foldl (fun scale _ => scale - double 1) x) (-(n + t.length : Nat)) := by
    clear short
    induction t with
    | nil => exact fun x n holds _ => holds
    | cons b t ih =>
      intro x n holds few
      rw [List.length_cons] at few ⊢
      have less : Holds (x - double 1) (-(n : Int) - 1) := subHolds holds (ofIntHolds (by decide)) (by omega)
      have same : -(n : Int) - 1 = -((n + 1 : Nat) : Int) := by omega
      rw [same] at less
      have rest := ih _ (n + 1) less (by omega)
      rwa [show n + (t.length + 1) = n + 1 + t.length by omega]
  have all := counted (double 0) 0 (ofIntHolds (by decide)) (by omega)
  rwa [Nat.zero_add] at all

theorem subscaleValue {t : List UInt8} (all : ∀ b ∈ t, isDigit b = true) (small : digitsValue t < 2^31) :
    (subscale t).toInt = digitsValue t := by
  have counted : ∀ (s : Int32) (n : Nat), s.toInt = n → accumulated n t < 2^31 →
      (t.foldl (fun s b => s * 10 + Int32.ofInt (digit b)) s).toInt = accumulated n t := by
    clear small
    induction t with
    | nil => exact fun s n same _ => same
    | cons b t ih =>
      intro s n same small
      obtain ⟨value,_⟩ := digitValue (all b List.mem_cons_self)
      have grows : 10 * n + (b.toNat - 48) < 2^31 := Nat.lt_of_le_of_lt (accumulatedGrows _ t) small
      refine ih (fun b' inside => all b' (List.mem_cons_of_mem b inside)) _ _ ?_ small
      have ten : (10 : Int32).toInt = 10 := rfl
      rw [Int32.toInt_add, Int32.toInt_mul, Int32.toInt_ofInt, same, value, ten]
      have size : Int32.size = 2^32 := rfl
      have tens : ((n : Int) * 10).bmod (2^32) = n * 10 := Int.bmod_eq_of_le (by omega) (by omega)
      have unit : ((b.toNat - 48 : Nat) : Int).bmod (2^32) = (b.toNat - 48 : Nat) := Int.bmod_eq_of_le (by omega) (by omega)
      rw [size, tens, unit, Int.bmod_eq_of_le (by omega) (by omega)]
      push_cast
      omega
  exact counted 0 0 rfl small

/-! The pieces of a text -/

theorem passedOne {p : UInt8 → Bool} {b : UInt8} (v : List UInt8) (taken : p b = true) : passed p (b :: v) = v := if_pos taken

theorem passedNone {p : UInt8 → Bool} {t : List UInt8} (left : ∀ b, t.head? = some b → p b = false) : passed p t = t := by
  cases t with
  | nil => rfl
  | cons b v => exact if_neg (by rw [left b rfl]; decide)

theorem taken {t v : List UInt8} (all : ∀ b ∈ t, isDigit b = true) (stop : ∀ b, v.head? = some b → isDigit b = false) :
    (t ++ v).takeWhile isDigit = t ∧ (t ++ v).dropWhile isDigit = v := by
  induction t with
  | nil =>
    cases v with
    | nil => exact ⟨rfl,rfl⟩
    | cons c v =>
      have other := stop c rfl
      exact ⟨List.takeWhile_cons_of_neg (by rw [other]; decide),List.dropWhile_cons_of_neg (by rw [other]; decide)⟩
  | cons b t ih =>
    have digit := all b List.mem_cons_self
    obtain ⟨first,rest⟩ := ih fun b' inside => all b' (List.mem_cons_of_mem b inside)
    rw [List.cons_append, List.takeWhile_cons_of_pos digit, List.dropWhile_cons_of_pos digit, first, rest]
    exact ⟨rfl,rfl⟩

/- Of what stands before the point, the zero is left out, which is none of the value. -/
theorem wholeTaken {whole v : List UInt8} (units : Whole whole) (stop : ∀ b, v.head? = some b → isDigit b = false) :
    ∃ t, (∀ b ∈ t, isDigit b = true) ∧ (∀ behind, accumulated (accumulated 0 t) behind = digitsValue (whole ++ behind)) ∧
      (passed (· = 48) (whole ++ v)).takeWhile isDigit = t ∧ (passed (· = 48) (whole ++ v)).dropWhile isDigit = v := by
  cases units with
  | zero =>
    refine ⟨[],nofun,fun behind => rfl,?_⟩
    rw [List.cons_append, passedOne _ (by decide)]
    exact taken nofun stop
  | digits first others =>
    rename_i d t
    have all : ∀ b ∈ d :: t, isDigit b = true := fun b inside => by
      rcases List.mem_cons.mp inside with rfl | behind
      · exact (firstDigit first).1
      · exact others b behind
    refine ⟨d :: t,all,fun behind => (List.foldl_append ..).symm,?_⟩
    rw [passedNone fun b head => decide_eq_false (by
      rw [← Option.some.inj head]
      exact (firstDigit first).2)]
    exact taken all stop

theorem exponentHead {e : Int} {exp : List UInt8} (power : Exponent e exp) {b : UInt8} (head : exp.head? = some b) :
    isDigit b = false ∧ b ≠ 46 := by
  cases power with
  | none => cases head
  | power letter _ _ =>
    rw [← Option.some.inj head]
    rcases letter with rfl | rfl <;> decide

theorem fractionTaken {behind frac exp : List UInt8} {e : Int} (parts : Fraction behind frac) (power : Exponent e exp) :
    (if (frac ++ exp).head? = some 46 then (frac ++ exp).tail.takeWhile isDigit else []) = behind ∧
      (if (frac ++ exp).head? = some 46 then (frac ++ exp).tail.dropWhile isDigit else frac ++ exp) = exp := by
  cases parts with
  | none =>
    have noPoint : ¬ exp.head? = some 46 := fun head => (exponentHead power head).2 rfl
    rw [List.nil_append, if_neg noPoint, if_neg noPoint]
    exact ⟨rfl,rfl⟩
  | point digits =>
    rw [List.cons_append, List.head?_cons, if_pos rfl, if_pos rfl]
    exact taken digits.2 fun b head => (exponentHead power head).1

theorem exponentTaken {e : Int} {exp : List UInt8} (power : Exponent e exp) (small : e.natAbs < 2^31) :
    (subscale (passed (fun c => c = 43 ∨ c = 45) exp.tail) * if exp.tail.head? = some 45 then -1 else 1).toInt = e := by
  cases power with
  | none => decide
  | power letter known digits =>
    rename_i c sign t
    have same : (signed sign (digitsValue t)).natAbs = digitsValue t := by
      unfold signed
      split <;> omega
    have value := subscaleValue digits.2 (same ▸ small)
    rw [same] at small
    have solid : ∀ b, t.head? = some b → isDigit b = true := fun b head => digits.2 b (List.mem_of_head? head)
    have none : passed (fun c => c = 43 ∨ c = 45) t = t := passedNone fun b head => by
      have apart := digitNotSign (solid b head)
      exact decide_eq_false (not_or.mpr ⟨apart.2.1,apart.1⟩)
    rw [List.tail_cons]
    simp only [List.mem_cons, List.not_mem_nil, or_false] at known
    rcases known with rfl | rfl | rfl
    · have plus : ¬ t.head? = some 45 := fun head => absurd (solid 45 head) (by decide)
      rw [List.nil_append, none, if_neg plus, Int32.mul_one, value]
      exact (if_neg (by decide)).symm
    · have plus : ¬ some (43 : UInt8) = some 45 := by decide
      rw [List.cons_append, List.nil_append, passedOne t (by decide), List.head?_cons, if_neg plus, Int32.mul_one, value]
      exact (if_neg (by decide)).symm
    · have minus : (-1 : Int32).toInt = -1 := rfl
      rw [List.cons_append, List.nil_append, passedOne t (by decide), List.head?_cons, if_pos rfl, Int32.toInt_mul, value, minus,
        Int.bmod_eq_of_le (by omega) (by omega), Int.mul_neg, Int.mul_one]
      exact (if_pos rfl).symm

theorem wholeHead {whole v : List UInt8} (units : Whole whole) : ∃ c r, whole ++ v = c :: r ∧ c ≠ 45 := by
  cases units with
  | zero => exact ⟨48,v,rfl,by decide⟩
  | digits first _ => exact ⟨_,_,rfl,(digitNotSign (firstDigit first).1).1⟩

theorem signTaken {sign whole v : List UInt8} (known : sign ∈ [[],[45]]) (units : Whole whole) :
    passed (· = 45) (sign ++ (whole ++ v)) = whole ++ v ∧
      Holds (if (sign ++ (whole ++ v)).head? = some 45 then double (-1) else double 1) (signed sign 1) := by
  simp only [List.mem_cons, List.not_mem_nil, or_false] at known
  rcases known with rfl | rfl
  · obtain ⟨c,r,same,noMinus⟩ := wholeHead (v := v) units
    have plus : ¬ some c = some 45 := fun minus => noMinus (Option.some.inj minus)
    rw [List.nil_append, same, List.head?_cons, if_neg plus]
    exact ⟨if_neg fun minus => noMinus (of_decide_eq_true minus),ofIntHolds (by decide)⟩
  · exact ⟨passedOne _ (by decide),ofIntHolds (by decide)⟩

/-! The value -/

section Value
variable {pow : Float.Model → Float.Model → Float.Model}

theorem fractionDigits {behind frac : List UInt8} (parts : Fraction behind frac) :
    (∀ b ∈ behind, isDigit b = true) ∧ behind.length ≤ frac.length := by
  cases parts with
  | none => exact ⟨nofun,Nat.le_refl _⟩
  | point digits => exact ⟨digits.2,Nat.le_succ _⟩

theorem signedProduct (sign : List UInt8) (n : Int) : signed sign 1 * n = signed sign n := by
  unfold signed
  split
  · rw [Int.neg_mul, Int.one_mul]
  · exact Int.one_mul n

theorem digitsBound {sign : List UInt8} {d k : Nat} (int : CInt (signed sign d * (10^k : Nat))) : d ≤ 2^31 := by
  have some : 1 ≤ 10^k := Nat.pow_pos (by decide)
  have magnitude : (signed sign d * (10^k : Nat)).natAbs = d * 10^k := by
    rw [Int.natAbs_mul]
    unfold signed
    split <;> simp
  have more : d ≤ d * 10^k := Nat.le_mul_of_pos_right d some
  unfold CInt at int
  omega

/- What the double of a written number holds -/
theorem valuedoubleHolds (exact : WholePowers pow) {m : Int} {k : Nat} {t : List UInt8} (number : Number m k t)
    (power : k ≤ 9) (int : CInt (m * (10^k : Nat))) (short : t.length < 2^30) : Holds (valuedouble pow t) (m * (10^k : Nat)) := by
  generalize scaled : (k : Int) = s at number
  obtain ⟨known,units,parts,exp⟩ := number
  rename_i sign whole behind frac exponent e
  have noDigit : ∀ b, (frac ++ exponent).head? = some b → isDigit b = false := fun b head => by
    cases parts with
    | none => exact (exponentHead exp head).1
    | point _ =>
      rw [← Option.some.inj head]
      decide
  obtain ⟨before,all,value,first,point⟩ := wholeTaken units noDigit
  obtain ⟨unsigned,minus⟩ := signTaken (v := frac ++ exponent) known units
  obtain ⟨shifted,letter⟩ := fractionTaken parts exp
  obtain ⟨all',shorter⟩ := fractionDigits parts
  have bound := digitsBound int
  rw [← value behind] at int bound ⊢
  simp only [List.length_append] at short
  have digits : Holds (shiftIn (shiftIn (double 0) before) behind) (accumulated (accumulated 0 before) behind) := by
    have grows := accumulatedGrows (accumulated 0 before) behind
    exact shiftInHolds all' (shiftInHolds all (ofIntHolds (by decide)) (by omega)) (by omega)
  have places := scaleHolds (t := behind) (by omega)
  have sub := exponentTaken exp (by omega)
  have scale : Holds (scaleBehind behind + double e) (-behind.length + e) := addHolds places (ofIntHolds (by omega)) (by omega)
  rw [show -(behind.length : Int) + e = k by omega] at scale
  have ten := exact k _ power scale
  have whole' := mulHolds minus digits (by rw [signedProduct]; unfold signed; split <;> omega)
  rw [signedProduct] at whole'
  have product := mulHolds whole' ten (by unfold CInt at int; omega)
  unfold valuedouble
  simp only [List.append_assoc, unsigned, first, point, shifted, letter, sub]
  exact product

/-- A number that is written for an int is read as that int. -/
theorem readAsWritten (exact : WholePowers pow) {n : Int} {t : List UInt8} (written : Written n t) : valueintOf pow t = n := by
  obtain ⟨number,power,int,short⟩ := written
  exact toInt32Holds (valuedoubleHolds exact number power int short) int.1 (Int.lt_add_one_of_le int.2)

theorem denotesRead (exact : WholePowers pow) : Agrees (Denotes pow) (valueintOf pow) := fun n t denotes => by
  cases denotes with
  | int written => exact readAsWritten exact written
  | other otherwise => rfl

theorem decimalDenotes : Valued (Denotes pow) := fun n int => by
  have short := decimalLength int
  have written : Written (n * (10^0 : Nat)) (decimal n) :=
    .mk (decimalNumber n) (Nat.zero_le 9) (by rwa [Nat.pow_zero, Nat.cast_one, Int.mul_one]) (by omega)
  rw [Nat.pow_zero, Nat.cast_one, Int.mul_one] at written
  exact .int written

end Value

/-! A pow for whole exponents, and a number with a point and an exponent -/

def power (x y : Float.Model) : Float.Model := double (x.toInt32.toInt ^ y.toInt32.toInt.toNat)

theorem powerExact : WholePowers power := by
  intro k y small holds
  have base : (double 10).toInt32.toInt = 10 := toInt32Holds (ofIntHolds (by decide)) (by decide) (by decide)
  have exponent : y.toInt32.toInt = k := toInt32Holds holds (by omega) (by omega)
  have bound : 10^k ≤ 10^9 := Nat.pow_le_pow_right (by decide) small
  unfold power
  rw [base, exponent, Int.toNat_natCast, Nat.cast_pow]
  refine ofIntHolds ?_
  rw [Int.natAbs_pow]
  exact Nat.lt_of_le_of_lt bound (by decide)

example : valueintOf power [45,49,46,50,53,101,50] = -125 := by decide +kernel

end YunbaIot.CJsonNumber
