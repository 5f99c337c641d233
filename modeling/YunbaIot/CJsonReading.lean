import YunbaIot.CJsonGrammar

/-! The parser on the texts of the grammar: each reader takes its piece and stops behind it. -/
namespace YunbaIot.CJsonReading
open Block CJson CJsonGrammar CJsonText

theorem skipOver {w rest : List UInt8} {c : UInt8} (skipped : Skipped w) (solid : ¬ (c ≠ 0 ∧ c ≤ 32)) :
    skip (w ++ c :: rest) = .ok (c :: rest) := by
  induction w with
  | nil => exact if_neg solid
  | cons b w ih =>
    rw [List.cons_append, skip, if_pos (skipped b List.mem_cons_self)]
    exact ih fun b' inside => skipped b' (List.mem_cons_of_mem b inside)

theorem skipTwice {v w : List UInt8} (skipped : skip v = .ok w) : skip w = .ok w := by
  induction v with
  | nil => cases skipped
  | cons b v ih =>
    unfold skip at skipped
    split at skipped
    · exact ih skipped
    · rename_i solid
      cases skipped
      exact if_neg solid

/-! Numbers -/

/- No number goes on with the byte that follows. -/
structure Closed (v : List UInt8) : Prop where
  byte : ∃ c r, v = c :: r ∧ isDigit c = false ∧ c ≠ 46 ∧ c ≠ 101 ∧ c ≠ 69

theorem closedOf {c : UInt8} (r : List UInt8) (stops : c ≤ 32 ∨ c = 44 ∨ c = 93 ∨ c = 125) : Closed (c :: r) := by
  refine ⟨c,r,rfl,?_⟩
  rcases stops with small | rfl | rfl | rfl
  · have low : c.toNat ≤ 32 := UInt8.le_iff_toNat_le.mp small
    refine ⟨?_,?_,?_,?_⟩
    · simp only [isDigit, decide_eq_false_iff_not, UInt8.le_iff_toNat_le]
      have : (48 : UInt8).toNat = 48 := rfl
      omega
    all_goals
      rintro rfl
      exact absurd low (by decide)
  all_goals decide

theorem digitsOver {t v : List UInt8} (all : ∀ b ∈ t, isDigit b = true) (stop : ∃ c r, v = c :: r ∧ isDigit c = false) :
    digits (t ++ v) = .ok (t,v) := by
  induction t with
  | nil =>
    obtain ⟨c,r,rfl,other⟩ := stop
    simp [digits, other]
  | cons b t ih =>
    rw [List.cons_append, digits, if_pos (all b List.mem_cons_self),
      ih fun b' inside => all b' (List.mem_cons_of_mem b inside)]
    rfl

theorem eatOne {p : UInt8 → Bool} {b : UInt8} (v : List UInt8) (taken : p b = true) : eat p (b :: v) = .ok ([b],v) := by
  rw [eat, if_pos taken]

theorem eatNone {p : UInt8 → Bool} {b : UInt8} (v : List UInt8) (left : p b = false) : eat p (b :: v) = .ok ([],b :: v) := by
  rw [eat, if_neg (by rw [left]; decide)]

theorem firstDigit {d : UInt8} (first : 49 ≤ d ∧ d ≤ 57) : isDigit d = true ∧ d ≠ 48 := by
  have low : 49 ≤ d.toNat := UInt8.le_iff_toNat_le.mp first.1
  constructor
  · simp only [isDigit, decide_eq_true_eq, UInt8.le_iff_toNat_le]
    exact ⟨Nat.le_trans (by decide : 48 ≤ 49) low,UInt8.le_iff_toNat_le.mp first.2⟩
  · rintro rfl
    exact absurd low (by decide)

theorem digitNotSign {d : UInt8} (digit : isDigit d = true) : d ≠ 45 ∧ d ≠ 43 ∧ 32 < d ∧ d ≠ 93 ∧ d ≠ 125 := by
  have bounds : 48 ≤ d ∧ d ≤ 57 := by simpa [isDigit] using digit
  have low : 48 ≤ d.toNat := UInt8.le_iff_toNat_le.mp bounds.1
  have high : d.toNat ≤ 57 := UInt8.le_iff_toNat_le.mp bounds.2
  refine ⟨?_,?_,UInt8.lt_iff_toNat_lt.mpr (Nat.lt_of_lt_of_le (by decide) low),?_,?_⟩
  all_goals
    rintro rfl
    first
      | exact absurd low (by decide)
      | exact absurd high (by decide)

/- The zero or the digits in front of the point -/
theorem wholeOver {whole v : List UInt8} (units : Whole whole) (stop : ∃ c r, v = c :: r ∧ isDigit c = false) :
    ∃ zero, eat (· = 48) (whole ++ v) = .ok zero ∧ ∃ rest, wholePart zero.2 = .ok (rest,v) ∧ zero.1 ++ rest = whole := by
  cases units with
  | zero =>
    obtain ⟨c,r,rfl,other⟩ := stop
    refine ⟨([48],c :: r),eatOne _ (by decide),[],?_,rfl⟩
    rw [wholePart, if_neg]
    intro first
    rw [(firstDigit first).1] at other
    cases other
  | digits first others =>
    rename_i d t
    refine ⟨([],d :: (t ++ v)),eatNone _ ?_,d :: t,?_,rfl⟩
    · exact decide_eq_false (firstDigit first).2
    · rw [wholePart, if_pos first]
      refine digitsOver (t := d :: t) ?_ stop
      rintro b (_ | ⟨_,inside⟩)
      · exact (firstDigit first).1
      · exact others b inside

theorem fractionOver {behind frac v : List UInt8} (parts : Fraction behind frac) (stop : ∃ c r, v = c :: r ∧ isDigit c = false ∧ c ≠ 46) :
    fraction (frac ++ v) = .ok (frac,v) := by
  cases parts with
  | none =>
    obtain ⟨c,r,rfl,_,noPoint⟩ := stop
    simp only [List.nil_append, fraction, if_neg noPoint]
  | point digits =>
    cases behind with
    | nil => exact absurd rfl digits.1
    | cons d t =>
      obtain ⟨c,r,same,other,_⟩ := stop
      simp only [List.cons_append, fraction, if_true, if_pos (digits.2 d List.mem_cons_self)]
      rw [← List.cons_append, digitsOver digits.2 ⟨c,r,same,other⟩]
      rfl

theorem exponentOver {n : Int} {exp v : List UInt8} (power : Exponent n exp) (closed : Closed v) : exponent (exp ++ v) = .ok (exp,v) := by
  obtain ⟨c,r,rfl,other,_,noE⟩ := closed.byte
  cases power with
  | none => rw [List.nil_append, exponent, if_neg (by rw [not_or]; exact noE)]
  | power letter signed digits =>
    rename_i e sign t
    have counted := digitsOver (v := c :: r) digits.2 ⟨c,r,rfl,other⟩
    rw [List.cons_append, exponent, if_pos letter, List.append_assoc]
    refine bindOk.mpr ⟨(sign,t ++ c :: r),?_,bindOk.mpr ⟨_,counted,rfl⟩⟩
    cases t with
    | nil => exact absurd rfl digits.1
    | cons d t =>
      have apart := digitNotSign (digits.2 d List.mem_cons_self)
      simp only [List.mem_cons, List.not_mem_nil, or_false] at signed
      rcases signed with rfl | rfl | rfl
      · exact eatNone _ (decide_eq_false (not_or.mpr ⟨apart.2.1,apart.1⟩))
      · exact eatOne _ (by decide)
      · exact eatOne _ (by decide)

theorem signOver {sign whole v : List UInt8} (signed : sign ∈ [[],[45]]) (units : Whole whole) :
    eat (· = 45) (sign ++ (whole ++ v)) = .ok (sign,whole ++ v) := by
  simp only [List.mem_cons, List.not_mem_nil, or_false] at signed
  rcases signed with rfl | rfl
  · cases units with
    | zero => exact eatNone _ (by decide)
    | digits first others => exact eatNone _ (decide_eq_false (digitNotSign (firstDigit first).1).1)
  · exact eatOne _ (by decide)

theorem parseNumberOver {m n : Int} {t v : List UInt8} (number : Number m n t) (closed : Closed v) : parseNumber (t ++ v) = .ok (t,v) := by
  obtain ⟨signed,units,parts,power⟩ := number
  rename_i sign whole behind frac exp n
  obtain ⟨c,r,same,other,noPoint,_⟩ := closed.byte
  -- what follows the digits, and what follows the fraction
  have behindFrac : ∃ d s, exp ++ v = d :: s ∧ isDigit d = false ∧ d ≠ 46 := by
    cases power with
    | none => exact ⟨c,r,same,other,noPoint⟩
    | power letter signed digits => rcases letter with rfl | rfl <;> exact ⟨_,_,rfl,by decide,by decide⟩
  have behindWhole : ∃ d s, frac ++ (exp ++ v) = d :: s ∧ isDigit d = false := by
    cases parts with
    | none =>
      obtain ⟨d,s,begins,noDigit,_⟩ := behindFrac
      exact ⟨d,s,begins,noDigit⟩
    | point digits => exact ⟨46,_,rfl,by decide⟩
  obtain ⟨zero,zeroed,rest,counted,whole'⟩ := wholeOver units behindWhole
  have pieces : sign ++ whole ++ frac ++ exp ++ v = sign ++ (whole ++ (frac ++ (exp ++ v))) := by
    simp only [List.append_assoc]
  rw [pieces]
  refine bindOk.mpr ⟨_,signOver signed units,bindOk.mpr ⟨_,zeroed,bindOk.mpr ⟨_,counted,?_⟩⟩⟩
  refine bindOk.mpr ⟨_,fractionOver parts behindFrac,bindOk.mpr ⟨_,exponentOver power closed,?_⟩⟩
  rw [← whole']
  simp only [List.append_assoc]

/-! Strings -/

theorem hexOver {u : Nat} {t : List UInt8} (hex : Hex4 u t) (rest : List UInt8) : parseHex4 (t ++ rest) = .ok u := by
  obtain ⟨first,second,third,fourth⟩ := hex
  simp only [parseHex4, List.cons_append, hexDigits, first, second, third, fourth, Nat.mul_zero, Nat.zero_add]

theorem hexLength {u : Nat} {t : List UInt8} (hex : Hex4 u t) : t.length = 4 := by
  obtain ⟨_,_,_,_⟩ := hex
  rfl

theorem hexDigitSmall {b : UInt8} {d : Nat} (digit : hexDigit b = some d) : d < 16 ∧ b ≠ 34 ∧ b ≠ 0 ∧ b ≠ 92 := by
  unfold hexDigit at digit
  refine ⟨?_,?_⟩
  · split at digit
    · rename_i range
      have high : b.toNat ≤ 57 := UInt8.le_iff_toNat_le.mp range.2
      cases digit
      omega
    · split at digit
      · rename_i range
        have high : b.toNat ≤ 70 := UInt8.le_iff_toNat_le.mp range.2
        cases digit
        omega
      · split at digit
        · rename_i range
          have high : b.toNat ≤ 102 := UInt8.le_iff_toNat_le.mp range.2
          cases digit
          omega
        · cases digit
  · have none : hexDigit 34 = none ∧ hexDigit 0 = none ∧ hexDigit 92 = none := by decide
    refine ⟨?_,?_,?_⟩ <;> rintro rfl
    · exact absurd (none.1.symm.trans digit) nofun
    · exact absurd (none.2.1.symm.trans digit) nofun
    · exact absurd (none.2.2.symm.trans digit) nofun

theorem hexSmall {u : Nat} {t : List UInt8} (hex : Hex4 u t) : u < 0x10000 := by
  obtain ⟨first,second,third,fourth⟩ := hex
  have one := (hexDigitSmall first).1
  have two := (hexDigitSmall second).1
  have three := (hexDigitSmall third).1
  have four := (hexDigitSmall fourth).1
  omega

theorem quotedPlain {b : UInt8} (plain : b ≠ 34 ∧ b ≠ 0 ∧ b ≠ 92) (rest : List UInt8) :
    quotedLength (b :: rest) = (· + 1) <$> quotedLength rest := by
  rw [quotedLength.eq_def]
  dsimp only
  rw [if_neg (not_or.mpr ⟨plain.1,plain.2.1⟩), if_neg plain.2.2]

theorem quotedEscape (c : UInt8) (rest : List UInt8) : quotedLength (92 :: c :: rest) = (· + 1) <$> quotedLength rest := by
  rw [quotedLength.eq_def]
  dsimp only
  rw [if_neg (by decide), if_pos rfl]

/- The first loop counts the escape as one byte, and the digits. -/
theorem quotedUnit {u : Nat} {t : List UInt8} (hex : Hex4 u t) (rest : List UInt8) :
    quotedLength (92 :: 117 :: (t ++ rest)) = (· + 5) <$> quotedLength rest := by
  obtain ⟨first,second,third,fourth⟩ := hex
  rw [quotedEscape, List.cons_append, List.cons_append, List.cons_append, List.cons_append, List.nil_append,
    quotedPlain (hexDigitSmall first).2, quotedPlain (hexDigitSmall second).2, quotedPlain (hexDigitSmall third).2,
    quotedPlain (hexDigitSmall fourth).2]
  cases quotedLength rest <;> rfl

theorem utf8Length (u : Nat) : (utf8 u).length ≤ 4 ∧ (u < 0x10000 → (utf8 u).length ≤ 3) := by
  unfold utf8
  split
  · simp
  · split
    · simp
    · split
      · simp
      · exact ⟨Nat.le_refl 4,fun small => by omega⟩

/- The first loop leaves room for the piece. -/
theorem letterCounted {s t : List UInt8} (letter : Letter s t) :
    ∃ n, s.length ≤ n ∧ ∀ rest, quotedLength (t ++ rest) = (· + n) <$> quotedLength rest := by
  cases letter with
  | plain inside noQuote noEscape => exact ⟨1,Nat.le_refl 1,fun rest => quotedPlain ⟨noQuote,inside,noEscape⟩ rest⟩
  | escape known => exact ⟨1,Nat.le_refl 1,quotedEscape _⟩
  | unit hex inside alone =>
    exact ⟨5,Nat.le_trans ((utf8Length _).2 (hexSmall hex)) (by decide),fun rest => quotedUnit hex rest⟩
  | pair hex hex' high low =>
    refine ⟨10,Nat.le_trans (utf8Length _).1 (by decide),fun rest => ?_⟩
    simp only [List.cons_append, List.append_assoc]
    rw [quotedUnit hex, quotedUnit hex']
    cases quotedLength rest <;> rfl

theorem unicodeUnit {u : Nat} {t : List UInt8} (hex : Hex4 u t) (inside : u ≠ 0) (alone : ¬ Surrogate u) (rest : List UInt8) :
    unicode (t ++ rest) = .ok (utf8 u,rest) := by
  have behind : (t ++ rest).drop 4 = rest := List.drop_left' (hexLength hex)
  unfold Surrogate at alone
  rw [unicode, hexOver hex, behind, okBind, if_neg (by omega), if_neg (by omega)]

theorem unicodePair {u v : Nat} {t t' : List UInt8} (hex : Hex4 u t) (hex' : Hex4 v t') (high : 0xD800 ≤ u ∧ u < 0xDC00)
    (low : 0xDC00 ≤ v ∧ v ≤ 0xDFFF) (rest : List UInt8) : unicode (t ++ 92 :: 117 :: (t' ++ rest)) =
      .ok (utf8 (0x10000 + ((u - 0xD800) * 0x400 + (v - 0xDC00))),rest) := by
  have second : (t ++ 92 :: 117 :: (t' ++ rest)).drop 4 = 92 :: 117 :: (t' ++ rest) := List.drop_left' (hexLength hex)
  have digits : (t ++ 92 :: 117 :: (t' ++ rest)).drop 6 = t' ++ rest := by
    rw [← List.drop_drop (i := 2) (j := 4), second]
    rfl
  have behind : (t ++ 92 :: 117 :: (t' ++ rest)).drop 10 = rest := by
    rw [← List.drop_drop (i := 4) (j := 6), digits]
    exact List.drop_left' (hexLength hex')
  have point : u % 0x400 * 0x400 + v % 0x400 = (u - 0xD800) * 0x400 + (v - 0xDC00) := by omega
  rw [unicode, hexOver hex, okBind, if_neg (by omega), if_pos (by omega), second, digits, behind, hexOver hex', ← point]
  simp only [startsWith, if_true, okBind]
  rw [if_neg (by omega)]

theorem escapeKnown {c : UInt8} (known : c ∈ escapes) (rest : List UInt8) : escape c rest = .ok ([escaped c],rest) := by
  have other : c ≠ 117 := by
    rintro rfl
    revert known
    decide
  rw [escape, if_neg other]

theorem escapeUnicode (v : List UInt8) : escape 117 v = unicode v := if_pos rfl

theorem letterOver {s t : List UInt8} (letter : Letter s t) (fuel : Nat) (rest : List UInt8) :
    unescape (fuel+1) (t ++ rest) = (fun r => (s ++ r.1,r.2)) <$> unescape fuel rest := by
  have escapeStep : ∀ c v out, escape c v = .ok out → unescape (fuel+1) (92 :: c :: v) =
      (fun r => (out.1 ++ r.1,r.2)) <$> unescape fuel out.2 := fun c v out done => by
    rw [unescape.eq_def]
    dsimp only
    rw [if_neg (by decide), if_pos rfl, done, okBind]
  cases letter with
  | plain inside noQuote noEscape =>
    rw [List.cons_append, List.nil_append, unescape.eq_def]
    dsimp only
    rw [if_neg (not_or.mpr ⟨noQuote,inside⟩), if_neg noEscape]
    rfl
  | escape known => exact escapeStep _ _ _ (escapeKnown known rest)
  | unit hex inside alone => exact escapeStep _ _ _ ((escapeUnicode _).trans (unicodeUnit hex inside alone rest))
  | pair hex hex' high low =>
    simp only [List.cons_append, List.append_assoc]
    rw [escapeStep _ _ _ ((escapeUnicode _).trans (unicodePair hex hex' high low rest))]

theorem letterSome {s t : List UInt8} (letter : Letter s t) : 0 < t.length := by
  cases letter <;> exact Nat.zero_lt_succ _

theorem lettersOver {s t : List UInt8} (letters : Letters s t) (rest : List UInt8) :
    (∃ n, s.length ≤ n ∧ quotedLength (t ++ 34 :: rest) = .ok n) ∧
      ∀ fuel, t.length < fuel → unescape fuel (t ++ 34 :: rest) = .ok (s,34 :: rest) := by
  induction letters with
  | nil =>
    refine ⟨⟨0,Nat.le_refl 0,?_⟩,fun fuel enough => ?_⟩
    · rw [List.nil_append, quotedLength.eq_def]
      exact if_pos (Or.inl rfl)
    · obtain ⟨fuel,rfl⟩ := Nat.exists_eq_succ_of_ne_zero (Nat.ne_of_gt enough)
      exact if_pos (Or.inl rfl)
  | cons letter others ih =>
    obtain ⟨⟨n,room,counted⟩,copied⟩ := ih
    obtain ⟨m,roomFirst,countedFirst⟩ := letterCounted letter
    rw [List.append_assoc]
    refine ⟨⟨n + m,?_,?_⟩,fun fuel enough => ?_⟩
    · rw [List.length_append]
      omega
    · rw [countedFirst, counted]
      rfl
    · obtain ⟨fuel,rfl⟩ := Nat.exists_eq_succ_of_ne_zero (Nat.ne_of_gt (Nat.lt_of_le_of_lt (Nat.zero_le _) enough))
      have first := letterSome letter
      rw [List.length_append] at enough
      rw [letterOver letter, copied fuel (by omega)]
      rfl

theorem utf8Nonzero {u : Nat} (inside : u ≠ 0) (small : u < 0x110000) : 0 ∉ utf8 u := by
  have byte : ∀ n, n % 256 ≠ 0 → (0 : UInt8) ≠ UInt8.ofNat n := fun n some same => by
    have zero := congrArg UInt8.toNat same
    rw [UInt8.toNat_ofNat'] at zero
    exact some zero.symm
  have next : ∀ n, (0 : UInt8) ≠ continuation n := fun n => byte _ (by omega)
  unfold utf8
  split
  · simp only [List.mem_cons, List.not_mem_nil, or_false]
    exact byte u (by omega)
  · split
    · simp only [List.mem_cons, List.not_mem_nil, or_false, not_or]
      exact ⟨byte _ (by omega),next u⟩
    · split
      · simp only [List.mem_cons, List.not_mem_nil, or_false, not_or]
        exact ⟨byte _ (by omega),next _,next u⟩
      · simp only [List.mem_cons, List.not_mem_nil, or_false, not_or]
        exact ⟨byte _ (by omega),next _,next _,next u⟩

theorem letterNonzero {s t : List UInt8} (letter : Letter s t) : 0 ∉ s := by
  cases letter with
  | plain inside noQuote noEscape => simpa using Ne.symm inside
  | escape known =>
    rename_i c
    have each : escapes.all (fun c => escaped c != 0) = true := by decide
    have nonzero := bne_iff_ne.mp (List.all_eq_true.mp each c known)
    simpa using nonzero.symm
  | unit hex inside alone => exact utf8Nonzero inside (Nat.lt_trans (hexSmall hex) (by decide))
  | pair hex hex' high low => exact utf8Nonzero (by omega) (by omega)

theorem lettersNonzero {s t : List UInt8} (letters : Letters s t) : 0 ∉ s := by
  induction letters with
  | nil => exact List.not_mem_nil
  | cons letter others ih => exact fun inside => (List.mem_append.mp inside).elim (letterNonzero letter) ih

theorem textWhole {s : List UInt8} (nonzero : 0 ∉ s) : text s = s := by
  refine List.takeWhile_eq_self_iff.mpr fun b inside => ?_
  simpa using fun zero : b = 0 => nonzero (zero ▸ inside)

theorem parseStringOver {s t : List UInt8} (letters : Letters s t) (rest : List UInt8) :
    parseString (34 :: (t ++ 34 :: rest)) = .ok (some (s,rest)) := by
  obtain ⟨⟨n,room,counted⟩,copied⟩ := lettersOver letters rest
  have all := copied (t ++ 34 :: rest).length (by simp)
  simp only [parseString, ne_eq, not_true_eq_false, if_false, counted, all, okBind]
  rw [if_neg (Nat.not_lt.mpr room), textWhole (lettersNonzero letters)]
  rfl

end YunbaIot.CJsonReading
