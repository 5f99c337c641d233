import Mathlib.Tactic.Ring

/-! Variable-length integers: seven-bit digits, least significant first, the top
bit of a byte saying that another digit follows. Bytes come from any source that
answers one byte at a time and may refuse; nothing here knows a packet format. -/
namespace YunbaIot.Base128

def value : List UInt8 → Nat
  | [] => 0
  | b :: bs => b.toNat % 128 + 128 * value bs

def terminated : List UInt8 → Bool
  | [] => false
  | [b] => b.toNat < 128
  | b :: c :: bs => 128 ≤ b.toNat && terminated (c :: bs)

def encodeFrom : Nat → Nat → List UInt8
  | 0, _ => []
  | fuel+1, n =>
    if n / 128 = 0 then [UInt8.ofNat (n % 128)]
    else UInt8.ofNat (n % 128 + 128) :: encodeFrom fuel (n / 128)

def encode (n : Nat) : List UInt8 := encodeFrom (n+1) n

/- The bytes a reader takes: up to the first one that does not continue, at most
`limit` of them, stopping where the source refuses. -/
def fieldFrom {σ : Type} (source : σ → Option UInt8 × σ) : Nat → σ → List UInt8 × σ
  | 0, s => ([], s)
  | limit+1, s =>
    match source s with
    | (none, s') => ([], s')
    | (some b, s') =>
      if b.toNat < 128 then ([b], s')
      else
        let rest := fieldFrom source limit s'
        (b :: rest.1, rest.2)

theorem byteOfNat {n : Nat} (h : n < 256) : (UInt8.ofNat n).toNat = n := by
  rw [UInt8.toNat_ofNat']
  omega

theorem fuelStable (fuel other n : Nat) (a : n < fuel) (b : n < other) :
    encodeFrom fuel n = encodeFrom other n := by
  induction fuel generalizing other n with
  | zero => omega
  | succ fuel ih =>
    cases other with
    | zero => omega
    | succ other =>
      simp only [encodeFrom]
      split
      · rfl
      · rw [ih other (n / 128) (by omega) (by omega)]

theorem encodeStep (n : Nat) :
    encode n = if n < 128 then [UInt8.ofNat n] else UInt8.ofNat (n % 128 + 128) :: encode (n / 128) := by
  unfold encode
  rw [encodeFrom]
  by_cases small : n < 128
  · have zero : n / 128 = 0 := by omega
    rw [if_pos zero, if_pos small, Nat.mod_eq_of_lt small]
  · have big : ¬ n / 128 = 0 := by omega
    rw [if_neg big, if_neg small, fuelStable n (n / 128 + 1) (n / 128) (by omega) (by omega)]

theorem encodeNonempty (n : Nat) : encode n ≠ [] := by
  rw [encodeStep]
  split <;> simp

theorem terminatedCons {b : UInt8} {bs : List UInt8} (more : bs ≠ []) :
    terminated (b :: bs) = (decide (128 ≤ b.toNat) && terminated bs) := by
  cases bs with
  | nil => exact absurd rfl more
  | cons c bs => rfl

theorem terminatedNonempty {bs : List UInt8} (h : terminated bs = true) : bs ≠ [] := by
  rintro rfl
  cases h

theorem valueEncode (n : Nat) : value (encode n) = n := by
  induction n using Nat.strongRecOn with
  | ind n ih =>
    rw [encodeStep]
    split
    · have byte := byteOfNat (by omega : n < 256)
      simp only [value, byte]
      omega
    · have byte := byteOfNat (by omega : n % 128 + 128 < 256)
      have rest := ih (n / 128) (by omega)
      simp only [value, byte, rest]
      omega

theorem encodeTerminated (n : Nat) : terminated (encode n) = true := by
  induction n using Nat.strongRecOn with
  | ind n ih =>
    rw [encodeStep]
    split
    · have byte := byteOfNat (by omega : n < 256)
      simp only [terminated, byte, decide_eq_true_eq]
      omega
    · have byte := byteOfNat (by omega : n % 128 + 128 < 256)
      rw [terminatedCons (encodeNonempty _), ih (n / 128) (by omega), byte]
      simp

theorem encodeLength (k n : Nat) (bound : n < 128 ^ (k+1)) : (encode n).length ≤ k+1 := by
  induction k generalizing n with
  | zero =>
    rw [encodeStep, if_pos (by simpa using bound)]
    simp
  | succ k ih =>
    rw [encodeStep]
    split
    · simp
    · have smaller : n / 128 < 128 ^ (k+1) := by
        rw [Nat.div_lt_iff_lt_mul (by omega), ← Nat.pow_succ]
        exact bound
      simpa using ih (n / 128) smaller

theorem encodePositive (n : Nat) : 0 < (encode n).length :=
  List.length_pos_iff.mpr (encodeNonempty n)

theorem valueBound (bs : List UInt8) : value bs < 128 ^ bs.length := by
  induction bs with
  | nil => simp [value]
  | cons b bs ih =>
    simp only [value, List.length_cons, Nat.pow_succ]
    omega

theorem encodeShortest {bs : List UInt8} (h : terminated bs = true) :
    (encode (value bs)).length ≤ bs.length := by
  have nonempty := terminatedNonempty h
  cases len : bs.length with
  | zero => exact absurd (List.length_eq_zero_iff.mp len) nonempty
  | succ k =>
    apply encodeLength
    rw [← len]
    exact valueBound bs

/- A reader takes a terminated field as far as its limit from a source that is about to give it,
and leaves the source behind what it took. -/
theorem fieldAhead {σ : Type} (source : σ → Option UInt8 × σ) (ahead : List UInt8 → σ → Prop)
    (gives : ∀ s b bs, ahead (b :: bs) s → (source s).1 = some b ∧ ahead bs (source s).2)
    (field : List UInt8) (limit : Nat) (s : σ) (whole : terminated field = true) (start : ahead field s) :
    (fieldFrom source limit s).1 = field.take limit ∧ ahead (field.drop limit) (fieldFrom source limit s).2 := by
  induction field generalizing limit s with
  | nil => cases whole
  | cons b bs ih =>
    cases limit with
    | zero => exact ⟨rfl,start⟩
    | succ limit =>
      obtain ⟨first,later⟩ := gives s b bs start
      rw [fieldFrom]
      cases answer : source s with
      | mk byte s' =>
        rw [answer] at first later
        simp only at first later
        subst first
        cases bs with
        | nil =>
          have last : b.toNat < 128 := by simpa [terminated] using whole
          simp only [if_pos last, List.take_succ_cons, List.take_nil, List.drop_succ_cons, List.drop_nil]
          exact ⟨trivial,later⟩
        | cons c bs =>
          rw [terminatedCons (by simp)] at whole
          simp only [Bool.and_eq_true, decide_eq_true_eq] at whole
          have cont : ¬ b.toNat < 128 := by omega
          obtain ⟨same,behind⟩ := ih limit s' whole.2 later
          simp only [if_neg cont, same, List.take_succ_cons, List.drop_succ_cons, true_and]
          exact behind

/- Within the limit it takes exactly the field. -/
theorem fieldExact {σ : Type} (source : σ → Option UInt8 × σ) (ahead : List UInt8 → σ → Prop)
    (gives : ∀ s b bs, ahead (b :: bs) s → (source s).1 = some b ∧ ahead bs (source s).2)
    (field : List UInt8) (limit : Nat) (s : σ) (whole : terminated field = true)
    (fits : field.length ≤ limit) (start : ahead field s) :
    (fieldFrom source limit s).1 = field ∧ ahead [] (fieldFrom source limit s).2 := by
  have taken := fieldAhead source ahead gives field limit s whole start
  rw [List.take_of_length_le fits, List.drop_of_length_le fits] at taken
  exact taken

/- A byte of a field continues exactly when another one follows. -/
theorem continuesBefore {f r : List UInt8} {b : UInt8} (whole : terminated (f ++ b :: r) = true) :
    128 ≤ b.toNat ↔ r ≠ [] := by
  induction f with
  | nil =>
    cases r with
    | nil =>
      simp only [List.nil_append, terminated, decide_eq_true_eq] at whole
      exact ⟨fun more => by omega,fun more => absurd rfl more⟩
    | cons c r =>
      simp only [List.nil_append, terminated, Bool.and_eq_true, decide_eq_true_eq] at whole
      exact ⟨fun _ => List.cons_ne_nil c r,fun _ => whole.1⟩
  | cons c f ih =>
    rw [List.cons_append, terminatedCons (by simp), Bool.and_eq_true] at whole
    exact ih whole.2

theorem valueSnoc (f : List UInt8) (b : UInt8) : value (f ++ [b]) = value f + b.toNat % 128 * 128 ^ f.length := by
  induction f with
  | nil => simp [value]
  | cons c f ih =>
    simp only [List.cons_append, value, ih, List.length_cons]
    ring

/- Every byte before the last one continues. -/
theorem continuedTake {bs : List UInt8} {k : Nat} (whole : terminated bs = true) (cut : k < bs.length) :
    ∀ b ∈ bs.take k, 128 ≤ b.toNat := by
  induction bs generalizing k with
  | nil => simp at cut
  | cons b bs ih =>
    cases k with
    | zero => simp
    | succ k =>
      have more : bs ≠ [] := by
        rintro rfl
        simp at cut
      rw [terminatedCons more] at whole
      simp only [Bool.and_eq_true, decide_eq_true_eq] at whole
      have rest := ih whole.2 (by simpa using cut)
      simpa only [List.take_succ_cons, List.forall_mem_cons] using ⟨whole.1,rest⟩

theorem terminatedTake {bs : List UInt8} {k : Nat} (whole : terminated bs = true) (cut : k < bs.length) :
    terminated (bs.take k) = false := by
  induction bs generalizing k with
  | nil => simp at cut
  | cons b bs ih =>
    cases k with
    | zero => rfl
    | succ k =>
      cases bs with
      | nil => simp at cut
      | cons c bs =>
        rw [terminatedCons (by simp)] at whole
        simp only [Bool.and_eq_true, decide_eq_true_eq] at whole
        have rest := ih whole.2 (by simpa using cut)
        rw [List.take_succ_cons]
        cases k with
        | zero => simp [terminated, whole.1]
        | succ k =>
          rw [List.take_succ_cons] at rest ⊢
          rw [terminatedCons (by simp), rest, Bool.and_false]

theorem valueTake (k n : Nat) : value ((encode n).take k) = n % 128 ^ k := by
  induction k generalizing n with
  | zero => simp [value, Nat.mod_one]
  | succ k ih =>
    have positive : 0 < 128 ^ k := Nat.pow_pos (by omega)
    rw [encodeStep, Nat.pow_succ, Nat.mul_comm (128 ^ k)]
    split
    · rename_i small
      have byte := byteOfNat (by omega : n < 256)
      have scale : 128 ≤ 128 * 128 ^ k := Nat.le_mul_of_pos_right 128 positive
      rw [Nat.mod_eq_of_lt (by omega), List.take_succ_cons, List.take_nil, value, byte, value]
      omega
    · have byte := byteOfNat (by omega : n % 128 + 128 < 256)
      rw [List.take_succ_cons, value, byte, ih, Nat.mod_mul]
      omega

theorem fieldLength {σ : Type} (source : σ → Option UInt8 × σ) (limit : Nat) (s : σ) :
    (fieldFrom source limit s).1.length ≤ limit := by
  induction limit generalizing s with
  | zero => simp [fieldFrom]
  | succ limit ih =>
    rw [fieldFrom]
    split
    · simp
    · split
      · simp
      · simpa using ih _

/- What every byte taken keeps of the source, the field keeps. -/
theorem fieldKeeps {σ : Type} {source : σ → Option UInt8 × σ} {kept : σ → Prop}
    (keeps : ∀ s, kept s → kept (source s).2) (limit : Nat) {s : σ} (ok : kept s) :
    kept (fieldFrom source limit s).2 := by
  induction limit generalizing s with
  | zero => exact ok
  | succ limit ih =>
    have next := keeps s ok
    rw [fieldFrom]
    split
    · rename_i answer
      rw [answer] at next
      exact next
    · rename_i answer
      rw [answer] at next
      split
      · exact next
      · exact ih next

end YunbaIot.Base128
