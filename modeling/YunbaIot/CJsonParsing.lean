import YunbaIot.CJsonReading

/-! cJSON_Parse takes every text of the grammar, whatever its blanks and escapes, for the tree it is a text of. -/
namespace YunbaIot.CJsonParsing
open Block CJson CJsonGrammar CJsonReading CJsonText

section Heads
variable {blank : List UInt8 → Prop} {denotes : Int → List UInt8 → Prop}

/- What a value begins with: neither a blank nor the end of a list -/
def Opens (c : UInt8) : Prop := 32 < c ∧ c ≠ 93 ∧ c ≠ 125

theorem opensSolid {c : UInt8} (opens : Opens c) : ¬ (c ≠ 0 ∧ c ≤ 32) := fun both => absurd both.2 (UInt8.not_le.mpr opens.1)

theorem opensDigit {d : UInt8} (digit : isDigit d = true) : Opens d :=
  ⟨(digitNotSign digit).2.2.1,(digitNotSign digit).2.2.2.1,(digitNotSign digit).2.2.2.2⟩

theorem numberHead {m n : Int} {t : List UInt8} (number : Number m n t) : ∃ c r, t = c :: r ∧ (c = 45 ∨ isDigit c = true) := by
  obtain ⟨signed,units,_,_⟩ := number
  simp only [List.mem_cons, List.not_mem_nil, or_false] at signed
  rcases signed with rfl | rfl
  · cases units with
    | zero => exact ⟨48,_,rfl,Or.inr (by decide)⟩
    | digits first others => exact ⟨_,_,rfl,Or.inr (firstDigit first).1⟩
  · exact ⟨45,_,rfl,Or.inl rfl⟩

theorem valueHead {item : Item} {t : List UInt8} (value : Value blank denotes item t) : ∃ c r, t = c :: r ∧ Opens c := by
  cases value with
  | number written _ =>
    obtain ⟨c,r,same,minus | digit⟩ := numberHead written
    · exact ⟨c,r,same,by rw [minus]; decide,by rw [minus]; decide⟩
    · exact ⟨c,r,same,opensDigit digit⟩
  | _ => exact ⟨_,_,rfl,by decide,by decide⟩

/- Behind the blanks of a padded value it begins. -/
theorem paddedHead {item : Item} {t : List UInt8} (padded : Padded Skipped denotes item t) (v : List UInt8) :
    ∃ c r, skip (t ++ v) = .ok (c :: r) ∧ Opens c := by
  obtain ⟨before,value,_⟩ := padded
  obtain ⟨c,r,rfl,opens⟩ := valueHead value
  simp only [List.append_assoc, List.cons_append]
  exact ⟨c,_,skipOver before (opensSolid opens),opens⟩

theorem elementsHead {child : List Item} {t : List UInt8} (elements : Elements Skipped denotes child t)
    (v : List UInt8) : ∃ c r, skip (t ++ v) = .ok (c :: r) ∧ Opens c := by
  cases elements with
  | last value => exact paddedHead value v
  | more value others =>
    rw [List.append_assoc]
    exact paddedHead value _

theorem memberHead {m : List UInt8 × Item} {t : List UInt8} (member : Member Skipped denotes m t) (v : List UInt8) :
    ∃ r, skip (t ++ v) = .ok (34 :: r) := by
  obtain ⟨before,_,_,_⟩ := member
  simp only [List.append_assoc, List.cons_append]
  exact ⟨_,skipOver before (by decide)⟩

theorem membersHead {child : List (List UInt8 × Item)} {t : List UInt8} (members : Members Skipped denotes child t)
    (v : List UInt8) : ∃ r, skip (t ++ v) = .ok (34 :: r) := by
  cases members with
  | last value => exact memberHead value v
  | more value others =>
    rw [List.append_assoc]
    exact memberHead value _

end Heads

section Values
variable {numberValue : List UInt8 → Int} {denotes : Int → List UInt8 → Prop} {fuel : Nat}

/-! One call each -/

theorem startsOther {l c : UInt8} (literal r : List UInt8) (other : c ≠ l) : startsWith (l :: literal) (c :: r) = .ok false :=
  if_neg other

theorem startsWhole (literal v : List UInt8) : startsWith literal (literal ++ v) = .ok true := by
  induction literal with
  | nil => rfl
  | cons l literal ih => rwa [List.cons_append, startsWith, if_pos rfl]

/- Where it is none of the three words -/
theorem parseOther {c : UInt8} {r : List UInt8} (other : c ≠ 110 ∧ c ≠ 102 ∧ c ≠ 116) :
    parseValue numberValue (fuel+1) (c :: r) =
      if c = 34 then (·.map fun r => (.string r.1,r.2)) <$> parseString (c :: r)
      else if c = 45 ∨ isDigit c then (fun r => some (.number (numberValue r.1),r.2)) <$> parseNumber (c :: r)
      else if c = 91 then parseArray numberValue fuel r
      else if c = 123 then parseObject numberValue fuel r
      else .ok none := by
  unfold parseValue
  simp only [literalNull, literalFalse, literalTrue, startsOther _ r other.1, startsOther _ r other.2.1,
    startsOther _ r other.2.2, okBind, Bool.false_eq_true, if_false]

theorem parseNull (v : List UInt8) : parseValue numberValue (fuel+1) (literalNull ++ v) = .ok (some (.null,v)) := by
  unfold parseValue
  rw [startsWhole, okBind, if_pos rfl]
  rfl

theorem parseFalse (v : List UInt8) : parseValue numberValue (fuel+1) (literalFalse ++ v) = .ok (some (.false,v)) := by
  have other : startsWith literalNull (literalFalse ++ v) = .ok false := startsOther _ _ (by decide)
  unfold parseValue
  rw [other, okBind, if_neg (by decide), startsWhole, okBind, if_pos rfl]
  rfl

theorem parseTrue (v : List UInt8) : parseValue numberValue (fuel+1) (literalTrue ++ v) = .ok (some (.true,v)) := by
  have other : startsWith literalNull (literalTrue ++ v) = .ok false := startsOther _ _ (by decide)
  have other' : startsWith literalFalse (literalTrue ++ v) = .ok false := startsOther _ _ (by decide)
  unfold parseValue
  rw [other, okBind, if_neg (by decide), other', okBind, if_neg (by decide), startsWhole, okBind, if_pos rfl]
  rfl

theorem parseWritten {m n : Int} {t v : List UInt8} (written : Number m n t) (closed : Closed v) :
    parseValue numberValue (fuel+1) (t ++ v) = .ok (some (.number (numberValue t),v)) := by
  have number := parseNumberOver written closed
  obtain ⟨c,r,rfl,begins⟩ := numberHead written
  have other : c ≠ 110 ∧ c ≠ 102 ∧ c ≠ 116 ∧ c ≠ 34 := by
    refine ⟨?_,?_,?_,?_⟩ <;>
      (rintro rfl; revert begins; decide)
  rw [List.cons_append] at number ⊢
  rw [parseOther ⟨other.1,other.2.1,other.2.2.1⟩, if_neg other.2.2.2, if_pos begins, number]
  rfl

theorem parseQuoted {s t v : List UInt8} (written : Letters s t) :
    parseValue numberValue (fuel+1) (34 :: (t ++ [34]) ++ v) = .ok (some (.string s,v)) := by
  rw [List.cons_append, List.append_assoc, parseOther ⟨by decide,by decide,by decide⟩, if_pos rfl]
  exact mapOk.mpr ⟨_,parseStringOver written v,rfl⟩

theorem parseBracket (r : List UInt8) : parseValue numberValue (fuel+1) (91 :: r) = parseArray numberValue fuel r := by
  rw [parseOther ⟨by decide,by decide,by decide⟩]
  rfl

theorem parseBrace (r : List UInt8) : parseValue numberValue (fuel+1) (123 :: r) = parseObject numberValue fuel r := by
  rw [parseOther ⟨by decide,by decide,by decide⟩]
  rfl

theorem parseEmptyArray {w v : List UInt8} (skipped : Skipped w) :
    parseArray numberValue (fuel+1) (w ++ [93] ++ v) = .ok (some (.array [],v)) := by
  rw [parseArray, List.append_assoc, List.singleton_append, skipOver skipped (by decide)]
  rfl

theorem parseEmptyObject {w v : List UInt8} (skipped : Skipped w) :
    parseObject numberValue (fuel+1) (w ++ [125] ++ v) = .ok (some (.object [],v)) := by
  rw [parseObject, List.append_assoc, List.singleton_append, skipOver skipped (by decide)]
  rfl

/- The children are read from behind the blanks, which are skipped again. -/
theorem parseFilledArray {v w : List UInt8} {c : UInt8} (skipped : skip v = .ok (c :: w)) (opens : Opens c) :
    parseArray numberValue (fuel+2) v = (·.map fun r => (.array r.1,r.2)) <$> parseElements numberValue (fuel+1) v := by
  rw [parseArray, skipped, okBind]
  dsimp only
  rw [if_neg opens.2.1, parseElements, parseElements, skipped, skipTwice skipped]

theorem parseFilledObject {v w : List UInt8} (skipped : skip v = .ok (34 :: w)) :
    parseObject numberValue (fuel+2) v = (·.map fun r => (.object r.1,r.2)) <$> parseMembers numberValue (fuel+1) v := by
  rw [parseObject, skipped, okBind]
  dsimp only
  rw [if_neg (by decide), parseMembers, parseMembers, skipped, skipTwice skipped]

/-! Derivations -/

/- A byte that a value can be followed by, once the blanks are skipped -/
def Delimits (c : UInt8) : Prop := c = 0 ∨ c = 44 ∨ c = 93 ∨ c = 125

/- A value between blanks, with the delimiter behind it -/
def Between (numberValue : List UInt8 → Int) (fuel : Nat) (item : Item) (v rest : List UInt8) : Prop :=
  ∃ w mid, skip v = .ok w ∧ parseValue numberValue fuel w = .ok (some (item,mid)) ∧ skip mid = .ok rest

theorem delimitsSolid {c : UInt8} (delimits : Delimits c) : ¬ (c ≠ 0 ∧ c ≤ 32) := by
  rcases delimits with rfl | rfl | rfl | rfl <;> decide

theorem closedBehind {w v : List UInt8} {c : UInt8} (skipped : Skipped w) (delimits : Delimits c) : Closed (w ++ c :: v) := by
  cases w with
  | nil =>
    refine closedOf v ?_
    rcases delimits with rfl | rest
    · exact Or.inl (by decide)
    · exact Or.inr rest
  | cons b w => exact closedOf _ (Or.inl (skipped b List.mem_cons_self).2)

theorem elementsLast {item : Item} {v rest : List UInt8} (between : Between numberValue fuel item v (93 :: rest)) :
    parseElements numberValue (fuel+1) v = .ok (some ([item],rest)) := by
  obtain ⟨w,mid,skipped,parsed,behind⟩ := between
  rw [parseElements, skipped, okBind, parsed, okBind]
  dsimp only
  rw [behind]
  rfl

theorem elementsMore {item : Item} {child : List Item} {v v' rest : List UInt8}
    (between : Between numberValue fuel item v (44 :: v')) (others : parseElements numberValue fuel v' = .ok (some (child,rest))) :
    parseElements numberValue (fuel+1) v = .ok (some (item :: child,rest)) := by
  obtain ⟨w,mid,skipped,parsed,behind⟩ := between
  rw [parseElements, skipped, okBind, parsed, okBind]
  dsimp only
  rw [behind, okBind]
  dsimp only
  rw [if_pos rfl, others]
  rfl

/- A name, the colon and a value, with what is behind them -/
def Named (numberValue : List UInt8 → Int) (fuel : Nat) (m : List UInt8 × Item) (v rest : List UInt8) : Prop :=
  ∃ w w' v', skip v = .ok w ∧ parseString w = .ok (some (m.1,w')) ∧ skip w' = .ok (58 :: v') ∧
    Between numberValue fuel m.2 v' rest

theorem membersLast {m : List UInt8 × Item} {v rest : List UInt8} (named : Named numberValue fuel m v (125 :: rest)) :
    parseMembers numberValue (fuel+1) v = .ok (some ([m],rest)) := by
  obtain ⟨w,w',v',skipped,string,colon,w₂,mid,skipped',parsed,behind⟩ := named
  rw [parseMembers, skipped, okBind, string, okBind]
  dsimp only
  rw [colon, okBind]
  dsimp only
  rw [if_neg (by decide), skipped', okBind, parsed, okBind]
  dsimp only
  rw [behind]
  rfl

theorem membersMore {m : List UInt8 × Item} {child : List (List UInt8 × Item)} {v v' rest : List UInt8}
    (named : Named numberValue fuel m v (44 :: v')) (others : parseMembers numberValue fuel v' = .ok (some (child,rest))) :
    parseMembers numberValue (fuel+1) v = .ok (some (m :: child,rest)) := by
  obtain ⟨w,w',v₂,skipped,string,colon,w₂,mid,skipped',parsed,behind⟩ := named
  rw [parseMembers, skipped, okBind, string, okBind]
  dsimp only
  rw [colon, okBind]
  dsimp only
  rw [if_neg (by decide), skipped', okBind, parsed, okBind]
  dsimp only
  rw [behind, okBind]
  dsimp only
  rw [if_pos rfl, others]
  rfl

/- The parser gives a number the int it stands for. -/
def Agrees (denotes : Int → List UInt8 → Prop) (numberValue : List UInt8 → Int) : Prop :=
  ∀ n t, denotes n t → numberValue t = n

mutual

theorem valueOver (agrees : Agrees denotes numberValue) {item : Item} {t : List UInt8} {fuel : Nat} {v : List UInt8} :
    Value Skipped denotes item t → Closed v →
    3 * (t ++ v).length + 1 ≤ fuel + 1 → parseValue numberValue (fuel+1) (t ++ v) = .ok (some (item,v))
  | .null, _, _ => parseNull v
  | .false, _, _ => parseFalse v
  | .true, _, _ => parseTrue v
  | .number written value, closed, _ => by
    rw [parseWritten written closed, agrees _ _ value]
  | .string written, _, _ => parseQuoted written
  | .emptyArray (w := w) skipped, _, enough => by
    obtain ⟨fuel,rfl⟩ : ∃ n, fuel = n + 1 := ⟨fuel - 1,by simp at enough; omega⟩
    rw [List.cons_append, parseBracket, parseEmptyArray skipped]
  | .emptyObject (w := w) skipped, _, enough => by
    obtain ⟨fuel,rfl⟩ : ∃ n, fuel = n + 1 := ⟨fuel - 1,by simp at enough; omega⟩
    rw [List.cons_append, parseBrace, parseEmptyObject skipped]
  | .array (t := t) inside, _, enough => by
    simp only [List.cons_append, List.append_assoc, List.nil_append, List.length_cons] at enough ⊢
    obtain ⟨fuel,rfl⟩ : ∃ n, fuel = n + 2 := ⟨fuel - 2,by omega⟩
    obtain ⟨c,w,skipped,opens⟩ := elementsHead inside (93 :: v)
    rw [parseBracket, parseFilledArray skipped opens]
    exact mapOk.mpr ⟨_,elementsOver agrees inside (by omega),rfl⟩
  | .object (t := t) inside, _, enough => by
    simp only [List.cons_append, List.append_assoc, List.nil_append, List.length_cons] at enough ⊢
    obtain ⟨fuel,rfl⟩ : ∃ n, fuel = n + 2 := ⟨fuel - 2,by omega⟩
    obtain ⟨w,skipped⟩ := membersHead inside (125 :: v)
    rw [parseBrace, parseFilledObject skipped]
    exact mapOk.mpr ⟨_,membersOver agrees inside (by omega),rfl⟩

theorem paddedOver (agrees : Agrees denotes numberValue) {item : Item} {t : List UInt8} {fuel : Nat} {c : UInt8}
    {v : List UInt8} :
    Padded Skipped denotes item t → Delimits c → 3 * (t ++ c :: v).length + 1 ≤ fuel + 1 →
    Between numberValue (fuel+1) item (t ++ c :: v) (c :: v)
  | .mk before value behind, delimits, enough => by
    rename_i w t w'
    simp only [List.append_assoc, List.length_append] at enough ⊢
    have parsed : parseValue numberValue (fuel+1) (t ++ (w' ++ c :: v)) = .ok (some (item,w' ++ c :: v)) :=
      valueOver agrees value (closedBehind behind delimits) (by
        simp only [List.length_append]
        omega)
    refine ⟨t ++ (w' ++ c :: v),w' ++ c :: v,?_,parsed,skipOver behind (delimitsSolid delimits)⟩
    obtain ⟨b,r,rfl,opens⟩ := valueHead value
    exact skipOver before (opensSolid opens)

theorem elementsOver (agrees : Agrees denotes numberValue) {child : List Item} {t : List UInt8} {fuel : Nat} {v : List UInt8} :
    Elements Skipped denotes child t → 3 * (t ++ 93 :: v).length + 2 ≤ fuel + 1 →
    parseElements numberValue (fuel+1) (t ++ 93 :: v) = .ok (some (child,v))
  | .last value, enough => by
    obtain ⟨fuel,rfl⟩ : ∃ n, fuel = n + 1 := ⟨fuel - 1,by simp at enough; omega⟩
    exact elementsLast (paddedOver agrees value (Or.inr (Or.inr (Or.inl rfl))) (by omega))
  | .more value others, enough => by
    simp only [List.append_assoc, List.cons_append, List.length_append, List.length_cons] at enough ⊢
    obtain ⟨fuel,rfl⟩ : ∃ n, fuel = n + 1 := ⟨fuel - 1,by omega⟩
    refine elementsMore (paddedOver agrees value (Or.inr (Or.inl rfl)) ?_) (elementsOver agrees others ?_)
    all_goals
      simp only [List.length_append, List.length_cons]
      omega

theorem memberOver (agrees : Agrees denotes numberValue) {m : List UInt8 × Item} {t : List UInt8} {fuel : Nat} {c : UInt8}
    {v : List UInt8} :
    Member Skipped denotes m t → Delimits c → 3 * (t ++ c :: v).length + 1 ≤ fuel + 1 →
    Named numberValue (fuel+1) m (t ++ c :: v) (c :: v)
  | .mk before name behind value, delimits, enough => by
    rename_i w t w' u
    simp only [List.append_assoc, List.cons_append, List.length_append, List.length_cons] at enough ⊢
    refine ⟨_,_,u ++ c :: v,skipOver before (by decide),parseStringOver name _,skipOver behind (by decide),?_⟩
    refine paddedOver agrees value delimits ?_
    simp only [List.length_append, List.length_cons]
    omega

theorem membersOver (agrees : Agrees denotes numberValue) {child : List (List UInt8 × Item)} {t : List UInt8} {fuel : Nat}
    {v : List UInt8} :
    Members Skipped denotes child t → 3 * (t ++ 125 :: v).length + 2 ≤ fuel + 1 →
    parseMembers numberValue (fuel+1) (t ++ 125 :: v) = .ok (some (child,v))
  | .last value, enough => by
    obtain ⟨fuel,rfl⟩ : ∃ n, fuel = n + 1 := ⟨fuel - 1,by simp at enough; omega⟩
    exact membersLast (memberOver agrees value (Or.inr (Or.inr (Or.inr rfl))) (by omega))
  | .more value others, enough => by
    simp only [List.append_assoc, List.cons_append, List.length_append, List.length_cons] at enough ⊢
    obtain ⟨fuel,rfl⟩ : ∃ n, fuel = n + 1 := ⟨fuel - 1,by omega⟩
    refine membersMore (memberOver agrees value (Or.inr (Or.inl rfl)) ?_) (membersOver agrees others ?_)
    all_goals
      simp only [List.length_append, List.length_cons]
      omega

end

/- A text with its zero byte, and anything behind it -/
theorem paddedParsed (agrees : Agrees denotes numberValue) {item : Item} {t : List UInt8}
    (text : Padded Skipped denotes item t) (behind : List UInt8) :
    cJsonParse numberValue (t ++ 0 :: behind) = .ok (some item) := by
  have between : Between numberValue (3 * (t ++ 0 :: behind).length + 1) item (t ++ 0 :: behind) (0 :: behind) :=
    paddedOver agrees text (Or.inl rfl) (Nat.le_refl _)
  obtain ⟨w,mid,skipped,parsed,_⟩ := between
  rw [cJsonParse, skipped, okBind, parsed]
  rfl

end Values
end YunbaIot.CJsonParsing
