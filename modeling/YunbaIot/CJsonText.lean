import YunbaIot.CJson

/-! What the parser leaves of its text: each reader moves forward, and every value takes a
byte at least, so the fuel lasts. -/
namespace YunbaIot.CJsonText
open Block CJson

/-! Each reader leaves a shorter text -/

section Shrinking
variable {α : Type}

def Shrinks (read : List UInt8 → Defined (α × List UInt8)) : Prop :=
  ∀ v r, read v = .ok r → r.2.length ≤ v.length

/- It stops at a byte of the block. -/
theorem skipStops {v w : List UInt8} (skipped : skip v = .ok w) : ∃ b rest, w = b :: rest ∧ rest.length < v.length := by
  induction v with
  | nil => cases skipped
  | cons c later ih =>
    unfold skip at skipped
    split at skipped
    · obtain ⟨b,rest,same,shorter⟩ := ih skipped
      exact ⟨b,rest,same,Nat.lt_succ_of_lt shorter⟩
    · cases skipped
      exact ⟨c,later,rfl,Nat.lt_succ_self _⟩

theorem skipShrinks {v w : List UInt8} (skipped : skip v = .ok w) : w.length ≤ v.length := by
  obtain ⟨b,rest,rfl,shorter⟩ := skipStops skipped
  exact shorter

theorem eatShrinks (p : UInt8 → Bool) : Shrinks (eat p) := by
  intro v r read
  cases v with
  | nil => cases read
  | cons b rest =>
    rw [eat] at read
    cases read
    split
    · exact Nat.le_succ _
    · exact Nat.le_refl _

theorem digitsShrinks : Shrinks digits := by
  intro v
  induction v with
  | nil => intro r read; cases read
  | cons b rest ih =>
    intro r read
    unfold digits at read
    split at read
    · obtain ⟨later,got,rfl⟩ := mapOk.mp read
      exact Nat.le_succ_of_le (ih later got)
    · cases read
      exact Nat.le_refl _

theorem wholePartShrinks : Shrinks wholePart := by
  intro v r read
  cases v with
  | nil => cases read
  | cons b rest =>
    rw [wholePart] at read
    split at read
    · exact digitsShrinks _ _ read
    · cases read
      exact Nat.le_refl _

theorem fractionShrinks : Shrinks fraction := by
  intro v r read
  cases v with
  | nil => cases read
  | cons b rest =>
    simp only [fraction] at read
    split at read
    · split at read
      · cases read
      · split at read
        · obtain ⟨later,got,rfl⟩ := mapOk.mp read
          exact Nat.le_succ_of_le (digitsShrinks _ later got)
        · cases read
          exact Nat.le_refl _
    · cases read
      exact Nat.le_refl _

theorem exponentShrinks : Shrinks exponent := by
  intro v r read
  cases v with
  | nil => cases read
  | cons b rest =>
    rw [exponent] at read
    split at read
    · obtain ⟨sign,signed,read⟩ := bindOk.mp read
      obtain ⟨power,powered,read⟩ := bindOk.mp read
      cases read
      have first := eatShrinks _ _ _ signed
      have second := digitsShrinks _ _ powered
      exact Nat.le_succ_of_le (Nat.le_trans second first)
    · cases read
      exact Nat.le_refl _

theorem unicodeShrinks : Shrinks unicode := by
  intro v r read
  have dropped : ∀ n, (v.drop n).length ≤ v.length := fun n => by simp
  obtain ⟨uc,_,read⟩ := bindOk.mp read
  split at read
  · cases read
    exact dropped 4
  · split at read
    · obtain ⟨second,_,read⟩ := bindOk.mp read
      split at read
      · obtain ⟨uc2,_,read⟩ := bindOk.mp read
        split at read <;> (cases read; exact dropped 10)
      · cases read
        exact dropped 4
    · cases read
      exact dropped 4

theorem escapeShrinks (c : UInt8) : Shrinks (escape c) := by
  intro v r read
  unfold escape at read
  split at read
  · exact unicodeShrinks _ _ read
  · cases read
    exact Nat.le_refl _

end Shrinking

theorem digitsConsume {b : UInt8} {rest : List UInt8} {r : List UInt8 × List UInt8} (digit : isDigit b = true)
    (read : digits (b :: rest) = .ok r) : r.2.length ≤ rest.length := by
  unfold digits at read
  rw [if_pos digit] at read
  obtain ⟨later,got,rfl⟩ := mapOk.mp read
  exact digitsShrinks _ later got

theorem wholePartConsume {b : UInt8} {rest : List UInt8} {r : List UInt8 × List UInt8} (digit : isDigit b = true)
    (nonzero : b ≠ 48) (read : wholePart (b :: rest) = .ok r) : r.2.length ≤ rest.length := by
  have bounds : 48 ≤ b ∧ b ≤ 57 := by simpa [isDigit] using digit
  have above : 49 ≤ b ∧ b ≤ 57 := by
    refine ⟨?_,bounds.2⟩
    rw [UInt8.le_iff_toNat_le] at bounds ⊢
    have apart : b.toNat ≠ 48 := fun same => nonzero (UInt8.toNat_inj.mp same)
    have low : 48 ≤ b.toNat := bounds.1
    show 49 ≤ b.toNat
    omega
  rw [wholePart] at read
  rw [if_pos above] at read
  exact digitsConsume digit read

/- A number begins with a byte of its own. -/
theorem parseNumberConsumes {b : UInt8} {rest : List UInt8} {r : List UInt8 × List UInt8}
    (begins : b = 45 ∨ isDigit b = true) (read : parseNumber (b :: rest) = .ok r) : r.2.length ≤ rest.length := by
  obtain ⟨sign,signed,read⟩ := bindOk.mp read
  obtain ⟨zero,zeroed,read⟩ := bindOk.mp read
  obtain ⟨whole,wholed,read⟩ := bindOk.mp read
  obtain ⟨frac,fracd,read⟩ := bindOk.mp read
  obtain ⟨exp,exped,read⟩ := bindOk.mp read
  cases read
  have third := wholePartShrinks _ _ wholed
  have fourth := fractionShrinks _ _ fracd
  have fifth := exponentShrinks _ _ exped
  suffices shorter : whole.2.length ≤ rest.length by
    exact Nat.le_trans fifth (Nat.le_trans fourth shorter)
  by_cases minus : b = 45
  · have first : sign.2 = rest := by
      subst minus
      cases signed
      rfl
    have second := eatShrinks _ _ _ zeroed
    rw [first] at second
    exact Nat.le_trans third second
  · have first : sign.2 = b :: rest := by
      simp only [eat, minus, decide_false, Bool.false_eq_true, if_false] at signed
      cases signed
      rfl
    rw [first] at zeroed
    by_cases zeroDigit : b = 48
    · have second : zero.2 = rest := by
        subst zeroDigit
        cases zeroed
        rfl
      rw [second] at third
      exact third
    · have second : zero.2 = b :: rest := by
        simp only [eat, zeroDigit, decide_false, Bool.false_eq_true, if_false] at zeroed
        cases zeroed
        rfl
      rw [second] at wholed
      exact wholePartConsume (begins.resolve_left minus) zeroDigit wholed

theorem unescapeShrinks (fuel : Nat) : Shrinks (unescape fuel) := by
  induction fuel with
  | zero => intro v r read; cases read
  | succ fuel ih =>
    intro v r read
    cases v with
    | nil => cases read
    | cons b rest =>
      unfold unescape at read
      split at read
      · cases read
        exact Nat.le_refl _
      · split at read
        · split at read
          · cases read
          · rename_i c rest
            obtain ⟨e,expanded,read⟩ := bindOk.mp read
            obtain ⟨later,got,rfl⟩ := mapOk.mp read
            have after := ih _ _ got
            have before := escapeShrinks c _ _ expanded
            simp only [List.length_cons]
            omega
        · obtain ⟨later,got,rfl⟩ := mapOk.mp read
          exact Nat.le_succ_of_le (ih _ later got)

theorem unquotedShrinks (v : List UInt8) : (unquoted v).length ≤ v.length := by
  cases v with
  | nil => exact Nat.le_refl _
  | cons b rest =>
    rw [unquoted]
    split
    · exact Nat.le_succ _
    · exact Nat.le_refl _

theorem parseStringShorter {v : List UInt8} {r : List UInt8 × List UInt8} (read : parseString v = .ok (some r)) :
    r.2.length < v.length := by
  cases v with
  | nil => cases read
  | cons b str =>
    rw [parseString] at read
    split at read
    · cases read
    · obtain ⟨len,_,read⟩ := bindOk.mp read
      obtain ⟨out,copied,read⟩ := bindOk.mp read
      split at read
      · cases read
      · cases read
        have shrunk := unescapeShrinks _ _ _ copied
        exact Nat.lt_succ_of_le (Nat.le_trans (unquotedShrinks _) shrunk)

theorem startsWithFits {literal v : List UInt8} (begins : startsWith literal v = .ok true) :
    literal.length ≤ v.length := by
  induction literal generalizing v with
  | nil => exact Nat.zero_le _
  | cons l literal ih =>
    cases v with
    | nil => cases begins
    | cons b rest =>
      unfold startsWith at begins
      split at begins
      · exact Nat.succ_le_succ (ih begins)
      · cases begins

section Values
variable (numberValue : List UInt8 → Int)

/- Every value, list and member list takes a byte at least. -/
structure Shorter (fuel : Nat) : Prop where
  value : ∀ v r, parseValue numberValue fuel v = .ok (some r) → r.2.length < v.length
  array : ∀ v r, parseArray numberValue fuel v = .ok (some r) → r.2.length < v.length
  elements : ∀ v r, parseElements numberValue fuel v = .ok (some r) → r.2.length < v.length
  object : ∀ v r, parseObject numberValue fuel v = .ok (some r) → r.2.length < v.length
  members : ∀ v r, parseMembers numberValue fuel v = .ok (some r) → r.2.length < v.length

variable {numberValue}

theorem valueShorter {fuel : Nat} (ih : Shorter numberValue fuel) (v : List UInt8) (r : Item × List UInt8)
    (read : parseValue numberValue (fuel+1) v = .ok (some r)) : r.2.length < v.length := by
  have behind : ∀ {n : Nat} {literal : List UInt8}, literal.length = n + 1 → startsWith literal v = .ok true →
      (v.drop (n+1)).length < v.length := by
    intro n literal size begins
    have fits := startsWithFits begins
    rw [List.length_drop]
    omega
  unfold parseValue at read
  obtain ⟨isNull,begins,read⟩ := bindOk.mp read
  split at read
  · rename_i yes
    cases read
    exact behind (show literalNull.length = 3 + 1 from rfl) (yes ▸ begins)
  obtain ⟨isFalse,begins,read⟩ := bindOk.mp read
  split at read
  · rename_i yes
    cases read
    exact behind (show literalFalse.length = 4 + 1 from rfl) (yes ▸ begins)
  obtain ⟨isTrue,begins,read⟩ := bindOk.mp read
  split at read
  · rename_i yes
    cases read
    exact behind (show literalTrue.length = 3 + 1 from rfl) (yes ▸ begins)
  split at read
  · cases read
  · rename_i b rest
    split at read
    · obtain ⟨s,got,rfl⟩ := mapSomeOk.mp read
      exact parseStringShorter got
    · split at read
      · rename_i begins
        obtain ⟨parsed,got,same⟩ := mapOk.mp read
        cases same
        exact Nat.lt_succ_of_le (parseNumberConsumes begins got)
      · split at read
        · exact Nat.lt_succ_of_lt (ih.array _ _ read)
        · split at read
          · exact Nat.lt_succ_of_lt (ih.object _ _ read)
          · cases read

theorem arrayShorter {fuel : Nat} (ih : Shorter numberValue fuel) (v : List UInt8) (r : Item × List UInt8)
    (read : parseArray numberValue (fuel+1) v = .ok (some r)) : r.2.length < v.length := by
  rw [parseArray] at read
  obtain ⟨w,skipped,read⟩ := bindOk.mp read
  obtain ⟨b,rest,rfl,shrunk⟩ := skipStops skipped
  dsimp only at read
  split at read
  · cases read
    exact shrunk
  · obtain ⟨items,got,rfl⟩ := mapSomeOk.mp read
    exact Nat.lt_of_lt_of_le (ih.elements _ _ got) shrunk

theorem elementsShorter {fuel : Nat} (ih : Shorter numberValue fuel) (v : List UInt8) (r : List Item × List UInt8)
    (read : parseElements numberValue (fuel+1) v = .ok (some r)) : r.2.length < v.length := by
  rw [parseElements] at read
  obtain ⟨w,skipped,read⟩ := bindOk.mp read
  obtain ⟨parsed,got,read⟩ := bindOk.mp read
  have shrunk := skipShrinks skipped
  split at read
  · cases read
  · rename_i item value
    have first : value.length < w.length := ih.value _ _ got
    obtain ⟨w',skipped',read⟩ := bindOk.mp read
    obtain ⟨b,rest,rfl,shrunk'⟩ := skipStops skipped'
    dsimp only at read
    split at read
    · obtain ⟨items,got',rfl⟩ := mapSomeOk.mp read
      have later := ih.elements _ _ got'
      dsimp only
      omega
    · split at read
      · cases read
        dsimp only
        omega
      · cases read

theorem objectShorter {fuel : Nat} (ih : Shorter numberValue fuel) (v : List UInt8) (r : Item × List UInt8)
    (read : parseObject numberValue (fuel+1) v = .ok (some r)) : r.2.length < v.length := by
  rw [parseObject] at read
  obtain ⟨w,skipped,read⟩ := bindOk.mp read
  obtain ⟨b,rest,rfl,shrunk⟩ := skipStops skipped
  dsimp only at read
  split at read
  · cases read
    exact shrunk
  · obtain ⟨items,got,rfl⟩ := mapSomeOk.mp read
    exact Nat.lt_of_lt_of_le (ih.members _ _ got) shrunk

theorem membersShorter {fuel : Nat} (ih : Shorter numberValue fuel) (v : List UInt8)
    (r : List (List UInt8 × Item) × List UInt8)
    (read : parseMembers numberValue (fuel+1) v = .ok (some r)) : r.2.length < v.length := by
  rw [parseMembers] at read
  obtain ⟨w,skipped,read⟩ := bindOk.mp read
  obtain ⟨name,named,read⟩ := bindOk.mp read
  have shrunk := skipShrinks skipped
  split at read
  · cases read
  rename_i string value
  have first : value.length < w.length := parseStringShorter named
  obtain ⟨w',skipped',read⟩ := bindOk.mp read
  obtain ⟨b,rest,rfl,shrunk'⟩ := skipStops skipped'
  dsimp only at read
  split at read
  · cases read
  obtain ⟨w₂,skipped₂,read⟩ := bindOk.mp read
  obtain ⟨parsed,got,read⟩ := bindOk.mp read
  have shrunk₂ := skipShrinks skipped₂
  split at read
  · cases read
  rename_i item value₂
  have second : value₂.length < w₂.length := ih.value _ _ got
  obtain ⟨w₃,skipped₃,read⟩ := bindOk.mp read
  obtain ⟨b₃,rest₃,rfl,shrunk₃⟩ := skipStops skipped₃
  dsimp only at read
  split at read
  · obtain ⟨items,got',rfl⟩ := mapSomeOk.mp read
    have later := ih.members _ _ got'
    dsimp only
    omega
  · split at read
    · cases read
      dsimp only
      omega
    · cases read

theorem shorter (fuel : Nat) : Shorter numberValue fuel := by
  induction fuel with
  | zero =>
    constructor
    · intro v r read; rw [parseValue] at read; cases read
    · intro v r read; rw [parseArray] at read; cases read
    · intro v r read; rw [parseElements] at read; cases read
    · intro v r read; rw [parseObject] at read; cases read
    · intro v r read; rw [parseMembers] at read; cases read
  | succ fuel ih =>
    exact ⟨valueShorter ih,arrayShorter ih,elementsShorter ih,objectShorter ih,membersShorter ih⟩

/-! The fuel lasts -/

theorem unescapeStable (fuel other : Nat) (v : List UInt8) (enough : v.length ≤ fuel) (enough' : v.length ≤ other) :
    unescape fuel v = unescape other v := by
  induction fuel generalizing other v with
  | zero =>
    have none : v = [] := List.length_eq_zero_iff.mp (Nat.le_zero.mp enough)
    subst none
    cases other <;> rfl
  | succ fuel ih =>
    cases v with
    | nil => cases other <;> rfl
    | cons b rest =>
      cases other with
      | zero => cases enough'
      | succ other =>
        have left := Nat.le_of_succ_le_succ enough
        have left' := Nat.le_of_succ_le_succ enough'
        unfold unescape
        split
        · rfl
        · split
          · split
            · rfl
            · rename_i c rest
              refine bindCongr fun e expanded => ?_
              have shrunk := escapeShrinks c _ _ expanded
              rw [List.length_cons] at left left'
              rw [ih other e.2 (by omega) (by omega)]
          · rw [ih other rest left left']

variable (numberValue)

structure Stable (fuel : Nat) : Prop where
  value : ∀ other v, 3 * v.length + 1 ≤ fuel → 3 * v.length + 1 ≤ other →
    parseValue numberValue fuel v = parseValue numberValue other v
  array : ∀ other v, 3 * v.length + 3 ≤ fuel → 3 * v.length + 3 ≤ other →
    parseArray numberValue fuel v = parseArray numberValue other v
  elements : ∀ other v, 3 * v.length + 2 ≤ fuel → 3 * v.length + 2 ≤ other →
    parseElements numberValue fuel v = parseElements numberValue other v
  object : ∀ other v, 3 * v.length + 3 ≤ fuel → 3 * v.length + 3 ≤ other →
    parseObject numberValue fuel v = parseObject numberValue other v
  members : ∀ other v, 3 * v.length + 2 ≤ fuel → 3 * v.length + 2 ≤ other →
    parseMembers numberValue fuel v = parseMembers numberValue other v

variable {numberValue} {fuel : Nat} (ih : Stable numberValue fuel) (other : Nat) (v : List UInt8)

include ih in
theorem valueStable (enough : 3 * v.length + 1 ≤ fuel + 1) (enough' : 3 * v.length + 1 ≤ other + 1) :
    parseValue numberValue (fuel+1) v = parseValue numberValue (other+1) v := by
  unfold parseValue
  refine bindCongr fun _ _ => ?_
  split
  · rfl
  refine bindCongr fun _ _ => ?_
  split
  · rfl
  refine bindCongr fun _ _ => ?_
  split
  · rfl
  split
  · rfl
  rename_i b rest _ _ _
  rw [List.length_cons] at enough enough'
  rw [ih.array other rest (by omega) (by omega), ih.object other rest (by omega) (by omega)]

include ih in
theorem arrayStable (enough : 3 * v.length + 3 ≤ fuel + 1) (enough' : 3 * v.length + 3 ≤ other + 1) :
    parseArray numberValue (fuel+1) v = parseArray numberValue (other+1) v := by
  rw [parseArray, parseArray]
  refine bindCongr fun w skipped => ?_
  have shrunk := skipShrinks skipped
  split
  · rfl
  · rw [ih.elements other _ (by omega) (by omega)]

include ih in
theorem objectStable (enough : 3 * v.length + 3 ≤ fuel + 1) (enough' : 3 * v.length + 3 ≤ other + 1) :
    parseObject numberValue (fuel+1) v = parseObject numberValue (other+1) v := by
  rw [parseObject, parseObject]
  refine bindCongr fun w skipped => ?_
  have shrunk := skipShrinks skipped
  split
  · rfl
  · rw [ih.members other _ (by omega) (by omega)]

include ih in
theorem elementsStable (enough : 3 * v.length + 2 ≤ fuel + 1) (enough' : 3 * v.length + 2 ≤ other + 1) :
    parseElements numberValue (fuel+1) v = parseElements numberValue (other+1) v := by
  rw [parseElements, parseElements]
  refine bindCongr fun w skipped => ?_
  have shrunk := skipShrinks skipped
  rw [ih.value other w (by omega) (by omega)]
  refine bindCongr fun parsed got => ?_
  split
  · rfl
  have first := (shorter other).value _ _ got
  refine bindCongr fun w' skipped' => ?_
  have shrunk' := skipShrinks skipped'
  simp only at first
  split
  · rfl
  rename_i b rest
  rw [List.length_cons] at shrunk'
  rw [ih.elements other rest (by omega) (by omega)]

include ih in
theorem membersStable (enough : 3 * v.length + 2 ≤ fuel + 1) (enough' : 3 * v.length + 2 ≤ other + 1) :
    parseMembers numberValue (fuel+1) v = parseMembers numberValue (other+1) v := by
  rw [parseMembers, parseMembers]
  refine bindCongr fun w skipped => ?_
  have shrunk := skipShrinks skipped
  refine bindCongr fun name named => ?_
  split
  · rfl
  have first := parseStringShorter named
  refine bindCongr fun w' skipped' => ?_
  have shrunk' := skipShrinks skipped'
  simp only at first
  split
  · rfl
  rename_i b rest
  rw [List.length_cons] at shrunk'
  split
  · rfl
  refine bindCongr fun w₂ skipped₂ => ?_
  have shrunk₂ := skipShrinks skipped₂
  rw [ih.value other w₂ (by omega) (by omega)]
  refine bindCongr fun parsed got => ?_
  split
  · rfl
  have second := (shorter other).value _ _ got
  refine bindCongr fun w₃ skipped₃ => ?_
  have shrunk₃ := skipShrinks skipped₃
  simp only at second
  split
  · rfl
  rename_i b₃ rest₃
  rw [List.length_cons] at shrunk₃
  rw [ih.members other rest₃ (by omega) (by omega)]

variable (numberValue) in
theorem stable (fuel : Nat) : Stable numberValue fuel := by
  induction fuel with
  | zero => constructor <;> (intro other v enough; omega)
  | succ fuel ih =>
    constructor
    all_goals
      intro other v enough enough'
      obtain ⟨other,rfl⟩ : ∃ n, other = n + 1 := ⟨other - 1,by omega⟩
    · exact valueStable ih other v enough enough'
    · exact arrayStable ih other v enough enough'
    · exact elementsStable ih other v enough enough'
    · exact objectStable ih other v enough enough'
    · exact membersStable ih other v enough enough'

end Values

end YunbaIot.CJsonText
