import YunbaIot.CJsonText

/-! Texts that end and have no backslash: on them no reader of the parser leaves the text, so
the parse has a result. -/
namespace YunbaIot.PlainText
open Block CJson CJsonText

structure Plain (v : List UInt8) : Prop where
  ended : 0 ∈ v
  bare : 92 ∉ text v

section Texts
variable {b : UInt8} {rest : List UInt8}

theorem textCons (nonzero : b ≠ 0) : text (b :: rest) = b :: text rest := by
  simp [text, nonzero]

theorem Plain.tail (plain : Plain (b :: rest)) (nonzero : b ≠ 0) : Plain rest := by
  have bare := plain.bare
  rw [textCons nonzero, List.mem_cons, not_or] at bare
  exact ⟨(List.mem_cons.mp plain.ended).resolve_left (Ne.symm nonzero),bare.2⟩

theorem Plain.head (plain : Plain (b :: rest)) : b ≠ 92 := by
  rintro rfl
  exact plain.bare (by rw [textCons (by decide)]; exact List.mem_cons_self)

theorem notPlain : ¬Plain [] := fun plain => absurd plain.ended List.not_mem_nil

end Texts

/-! Single readers -/

section Readers
variable {α : Type}

/- A reader that gets through what is plain, and stops in front of what is plain. -/
def Reads (read : List UInt8 → Defined (α × List UInt8)) : Prop :=
  ∀ v, Plain v → ∃ r, read v = .ok r ∧ Plain r.2

theorem skipReads {v : List UInt8} (plain : Plain v) :
    ∃ b rest, skip v = .ok (b :: rest) ∧ Plain (b :: rest) ∧ rest.length < v.length := by
  induction v with
  | nil => exact absurd plain notPlain
  | cons b rest ih =>
    unfold skip
    split
    · rename_i blank
      obtain ⟨c,later,skipped,inside,shorter⟩ := ih (plain.tail blank.1)
      exact ⟨c,later,skipped,inside,Nat.lt_succ_of_lt shorter⟩
    · exact ⟨b,rest,rfl,plain,Nat.lt_succ_self _⟩

theorem startsWithReads (literal : List UInt8) {v : List UInt8} (nonzero : 0 ∉ literal) (plain : Plain v) :
    ∃ begins, startsWith literal v = .ok begins ∧ (begins = true → Plain (v.drop literal.length)) := by
  induction literal generalizing v with
  | nil => exact ⟨true,rfl,fun _ => plain⟩
  | cons l literal ih =>
    obtain ⟨head,later⟩ := List.ne_and_not_mem_of_not_mem_cons nonzero
    cases v with
    | nil => exact absurd plain notPlain
    | cons b rest =>
      unfold startsWith
      split
      · rename_i same
        exact ih later (plain.tail (by rw [same]; exact Ne.symm head))
      · exact ⟨false,rfl,fun no => (by cases no)⟩

theorem eatReads {p : UInt8 → Bool} (zero : p 0 = false) : Reads (eat p) := by
  intro v plain
  cases v with
  | nil => exact absurd plain notPlain
  | cons b rest =>
    refine ⟨_,rfl,?_⟩
    split
    · rename_i taken
      refine plain.tail ?_
      rintro rfl
      exact absurd taken (by rw [zero]; decide)
    · exact plain

theorem digitNonzero {b : UInt8} (digit : isDigit b = true) : b ≠ 0 := by
  rintro rfl
  exact absurd digit (by decide)

theorem digitsReads : Reads digits := by
  intro v plain
  induction v with
  | nil => exact absurd plain notPlain
  | cons b rest ih =>
    unfold digits
    split
    · rename_i digit
      obtain ⟨r,read,behind⟩ := ih (plain.tail (digitNonzero digit))
      rw [read]
      exact ⟨_,rfl,behind⟩
    · exact ⟨_,rfl,plain⟩

theorem wholePartReads : Reads wholePart := by
  intro v plain
  cases v with
  | nil => exact absurd plain notPlain
  | cons b rest =>
    rw [wholePart]
    split
    · exact digitsReads _ plain
    · exact ⟨_,rfl,plain⟩

theorem fractionReads : Reads fraction := by
  intro v plain
  cases v with
  | nil => exact absurd plain notPlain
  | cons b rest =>
    by_cases point : b = 46
    · have behind := plain.tail (by rw [point]; decide)
      cases rest with
      | nil => exact absurd behind notPlain
      | cons d rest =>
        rw [fraction, if_pos point]
        split
        · obtain ⟨r,read,end'⟩ := digitsReads _ behind
          rw [read]
          exact ⟨_,rfl,end'⟩
        · exact ⟨_,rfl,plain⟩
    · have stays : fraction (b :: rest) = .ok ([],b :: rest) := by simp only [fraction, if_neg point]
      exact ⟨_,stays,plain⟩

theorem exponentReads : Reads exponent := by
  intro v plain
  cases v with
  | nil => exact absurd plain notPlain
  | cons b rest =>
    rw [exponent]
    split
    · rename_i letter
      have nonzero : b ≠ 0 := by rcases letter with rfl | rfl <;> decide
      obtain ⟨sign,signed,afterSign⟩ := eatReads (p := fun c => c = 43 ∨ c = 45) rfl _ (plain.tail nonzero)
      obtain ⟨power,raised,afterPower⟩ := digitsReads _ afterSign
      refine ⟨(b :: (sign.1 ++ power.1),power.2),?_,afterPower⟩
      exact bindOk.mpr ⟨sign,signed,bindOk.mpr ⟨power,raised,rfl⟩⟩
    · exact ⟨_,rfl,plain⟩

theorem parseNumberReads : Reads parseNumber := by
  intro v plain
  obtain ⟨sign,signed,afterSign⟩ := eatReads (p := (· = 45)) rfl v plain
  obtain ⟨zero,zeroed,afterZero⟩ := eatReads (p := (· = 48)) rfl _ afterSign
  obtain ⟨whole,counted,afterWhole⟩ := wholePartReads _ afterZero
  obtain ⟨frac,divided,afterFrac⟩ := fractionReads _ afterWhole
  obtain ⟨exp,raised,afterExp⟩ := exponentReads _ afterFrac
  refine ⟨(sign.1 ++ zero.1 ++ whole.1 ++ frac.1 ++ exp.1,exp.2),?_,afterExp⟩
  exact bindOk.mpr ⟨_,signed,bindOk.mpr ⟨_,zeroed,bindOk.mpr ⟨_,counted,bindOk.mpr ⟨_,divided,bindOk.mpr ⟨_,raised,rfl⟩⟩⟩⟩⟩

/- Without a backslash the second loop stores what the first one counted. -/
theorem quotedReads {fuel : Nat} {v : List UInt8} (plain : Plain v) (enough : v.length ≤ fuel) :
    ∃ out, quotedLength v = .ok out.1.length ∧ unescape fuel v = .ok out ∧ Plain out.2 := by
  induction v generalizing fuel with
  | nil => exact absurd plain notPlain
  | cons b rest ih =>
    obtain ⟨fuel,rfl⟩ : ∃ n, fuel = n + 1 := ⟨fuel - 1,by rw [List.length_cons] at enough; omega⟩
    unfold quotedLength unescape
    by_cases stop : b = 34 ∨ b = 0
    · rw [if_pos stop, if_pos stop]
      exact ⟨_,rfl,rfl,plain⟩
    · obtain ⟨out,counted,copied,behind⟩ := ih (plain.tail (not_or.mp stop).2) (Nat.le_of_succ_le_succ enough)
      rw [if_neg stop, if_neg stop, if_neg plain.head, if_neg plain.head, counted, copied]
      exact ⟨(b :: out.1,out.2),rfl,rfl,behind⟩

theorem unquotedPlain {v : List UInt8} (plain : Plain v) : Plain (unquoted v) := by
  cases v with
  | nil => exact plain
  | cons b rest =>
    rw [unquoted]
    split
    · rename_i quote
      exact plain.tail (by rw [quote]; decide)
    · exact plain

/-! Values -/

/- A parse with a result, which stops in front of what is plain when it takes something. -/
def Parses (x : Defined (Option (α × List UInt8))) : Prop := ∃ parsed, x = .ok parsed ∧ ∀ r, parsed = some r → Plain r.2

theorem Parses.none : Parses (α := α) (.ok none) := ⟨_,rfl,nofun⟩

theorem Parses.some {a : α} {v : List UInt8} (plain : Plain v) : Parses (.ok (some (a,v))) := by
  refine ⟨_,rfl,?_⟩
  rintro _ ⟨⟩
  exact plain

theorem Parses.bind {β : Type} {x : Defined β} {a : β} {f : β → Defined (Option (α × List UInt8))} (read : x = .ok a)
    (later : Parses (f a)) : Parses (x >>= f) := by
  rw [read]
  exact later

theorem Parses.map {β : Type} {x : Defined (Option (α × List UInt8))} (parses : Parses x) (g : α × List UInt8 → β) :
    Parses ((·.map fun r => (g r,r.2)) <$> x) := by
  obtain ⟨parsed,rfl,plain⟩ := parses
  refine ⟨_,rfl,?_⟩
  rintro r same
  obtain ⟨before,there,rfl⟩ := Option.map_eq_some_iff.mp same
  exact plain before there

theorem parseStringReads {v : List UInt8} (plain : Plain v) : Parses (parseString v) := by
  cases v with
  | nil => exact absurd plain notPlain
  | cons b str =>
    rw [parseString]
    split
    · exact .none
    · rename_i quote
      have nonzero : b ≠ 0 := by
        rintro rfl
        exact quote (by decide)
      obtain ⟨out,counted,copied,behind⟩ := quotedReads (plain.tail nonzero) (Nat.le_refl _)
      refine .bind counted (.bind copied ?_)
      rw [if_neg (Nat.lt_irrefl _)]
      exact .some (unquotedPlain behind)

end Readers

section Values
variable (numberValue : List UInt8 → Int)

structure PlainFuel (fuel : Nat) : Prop where
  value : ∀ v, Plain v → 3 * v.length + 1 ≤ fuel → Parses (parseValue numberValue fuel v)
  array : ∀ v, Plain v → 3 * v.length + 3 ≤ fuel → Parses (parseArray numberValue fuel v)
  elements : ∀ v, Plain v → 3 * v.length + 2 ≤ fuel → Parses (parseElements numberValue fuel v)
  object : ∀ v, Plain v → 3 * v.length + 3 ≤ fuel → Parses (parseObject numberValue fuel v)
  members : ∀ v, Plain v → 3 * v.length + 2 ≤ fuel → Parses (parseMembers numberValue fuel v)

variable {numberValue} {fuel : Nat} (ih : PlainFuel numberValue fuel) {v : List UInt8} (plain : Plain v)

include ih plain

theorem valuePlain (enough : 3 * v.length + 1 ≤ fuel + 1) : Parses (parseValue numberValue (fuel+1) v) := by
  obtain ⟨isNull,askedNull,behindNull⟩ := startsWithReads literalNull (by decide) plain
  obtain ⟨isFalse,askedFalse,behindFalse⟩ := startsWithReads literalFalse (by decide) plain
  obtain ⟨isTrue,askedTrue,behindTrue⟩ := startsWithReads literalTrue (by decide) plain
  unfold parseValue
  refine .bind askedNull ?_
  split
  · rename_i yes
    exact .some (behindNull yes)
  refine .bind askedFalse ?_
  split
  · rename_i yes
    exact .some (behindFalse yes)
  refine .bind askedTrue ?_
  split
  · rename_i yes
    exact .some (behindTrue yes)
  cases v with
  | nil => exact absurd plain notPlain
  | cons b rest =>
    rw [List.length_cons] at enough
    dsimp only
    split
    · exact (parseStringReads plain).map fun r => Item.string r.1
    · split
      · obtain ⟨r,read,behind⟩ := parseNumberReads _ plain
        rw [read]
        exact .some behind
      · split
        · rename_i bracket
          exact ih.array rest (plain.tail (by rw [bracket]; decide)) (by omega)
        · split
          · rename_i brace
            exact ih.object rest (plain.tail (by rw [brace]; decide)) (by omega)
          · exact .none

theorem arrayPlain (enough : 3 * v.length + 3 ≤ fuel + 1) : Parses (parseArray numberValue (fuel+1) v) := by
  obtain ⟨b,rest,skipped,inside,shorter⟩ := skipReads plain
  rw [parseArray]
  refine .bind skipped ?_
  dsimp only
  split
  · rename_i bracket
    exact .some (inside.tail (by rw [bracket]; decide))
  · exact (ih.elements _ inside (by rw [List.length_cons]; omega)).map fun r => Item.array r.1

theorem objectPlain (enough : 3 * v.length + 3 ≤ fuel + 1) : Parses (parseObject numberValue (fuel+1) v) := by
  obtain ⟨b,rest,skipped,inside,shorter⟩ := skipReads plain
  rw [parseObject]
  refine .bind skipped ?_
  dsimp only
  split
  · rename_i brace
    exact .some (inside.tail (by rw [brace]; decide))
  · exact (ih.members _ inside (by rw [List.length_cons]; omega)).map fun r => Item.object r.1

theorem elementsPlain (enough : 3 * v.length + 2 ≤ fuel + 1) : Parses (parseElements numberValue (fuel+1) v) := by
  obtain ⟨a,w,skipped,inside,shorter⟩ := skipReads plain
  obtain ⟨parsed,first,behind⟩ := ih.value (a :: w) inside (by rw [List.length_cons]; omega)
  rw [parseElements]
  refine .bind skipped (.bind first ?_)
  cases parsed with
  | none => exact .none
  | some r =>
    have taken := (CJsonText.shorter fuel).value _ _ first
    obtain ⟨b,rest,skipped',inside',shorter'⟩ := skipReads (behind r rfl)
    rw [List.length_cons] at taken
    refine .bind skipped' ?_
    dsimp only
    split
    · rename_i comma
      exact (ih.elements rest (inside'.tail (by rw [comma]; decide)) (by omega)).map fun later => r.1 :: later.1
    · split
      · rename_i bracket
        exact .some (inside'.tail (by rw [bracket]; decide))
      · exact .none

theorem membersPlain (enough : 3 * v.length + 2 ≤ fuel + 1) : Parses (parseMembers numberValue (fuel+1) v) := by
  obtain ⟨a,w,skipped,inside,shorter⟩ := skipReads plain
  obtain ⟨name,named,behindName⟩ := parseStringReads inside
  rw [parseMembers]
  refine .bind skipped (.bind named ?_)
  cases name with
  | none => exact .none
  | some s =>
    have takenName := parseStringShorter named
    obtain ⟨c,rest,skipped',inside',shorter'⟩ := skipReads (behindName s rfl)
    rw [List.length_cons] at takenName
    refine .bind skipped' ?_
    dsimp only
    split
    · exact .none
    · rename_i colon
      have nonzero : c ≠ 0 := by
        rintro rfl
        exact colon (by decide)
      obtain ⟨d,w₂,skipped₂,inside₂,shorter₂⟩ := skipReads (inside'.tail nonzero)
      obtain ⟨parsed,value,behindValue⟩ := ih.value (d :: w₂) inside₂ (by rw [List.length_cons]; omega)
      refine .bind skipped₂ (.bind value ?_)
      cases parsed with
      | none => exact .none
      | some r =>
        have takenValue := (CJsonText.shorter fuel).value _ _ value
        obtain ⟨e,w₃,skipped₃,inside₃,shorter₃⟩ := skipReads (behindValue r rfl)
        rw [List.length_cons] at takenValue
        refine .bind skipped₃ ?_
        dsimp only
        split
        · rename_i comma
          have later := ih.members w₃ (inside₃.tail (by rw [comma]; decide)) (by omega)
          exact later.map fun later => (s.1,r.1) :: later.1
        · split
          · rename_i brace
            exact .some (inside₃.tail (by rw [brace]; decide))
          · exact .none

omit ih plain
variable (numberValue)

theorem plainFuel (fuel : Nat) : PlainFuel numberValue fuel := by
  induction fuel with
  | zero => constructor <;> (intro v plain enough; omega)
  | succ fuel ih =>
    exact ⟨fun _ => valuePlain ih,fun _ => arrayPlain ih,fun _ => elementsPlain ih,fun _ => objectPlain ih,
      fun _ => membersPlain ih⟩

/-- On a text without a backslash the parser stays inside of its blocks. -/
theorem plainParse {v : List UInt8} (plain : Plain v) : ∃ parsed, cJsonParse numberValue v = .ok parsed := by
  obtain ⟨b,rest,skipped,inside,shorter⟩ := skipReads plain
  obtain ⟨parsed,read,_⟩ := (plainFuel numberValue (3 * v.length + 1)).value (b :: rest) inside (by
    rw [List.length_cons]
    omega)
  exact ⟨_,bindOk.mpr ⟨_,skipped,bindOk.mpr ⟨parsed,read,rfl⟩⟩⟩

/- More fuel than a text needs makes no difference. -/
theorem parseStable {v w : List UInt8} (skipped : skip v = .ok w) (fuel : Nat) (enough : 3 * v.length + 1 ≤ fuel) :
    cJsonParse numberValue v = (·.map Prod.fst) <$> parseValue numberValue fuel w := by
  have shrunk := skipShrinks skipped
  have same := (stable numberValue (3 * v.length + 1)).value fuel w (by omega) (by omega)
  rw [cJsonParse, skipped, ← same]
  rfl

end Values
end YunbaIot.PlainText
