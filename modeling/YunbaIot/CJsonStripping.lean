import YunbaIot.CJsonComposing
import YunbaIot.CJsonMinify
import YunbaIot.CJsonNumber

/-! cJSON_Minify leaves a text of the same tree, without blanks and comments, and does not leave its block. -/
namespace YunbaIot.CJsonStripping
open Block CJson CJsonGrammar CJsonReading CJsonRendering CJsonComposing CJsonMinify CJsonNumber

/- What has been written, what is stale, and what is still to be read -/
def between (out stale rest : List UInt8) : Moving := ⟨penAt out (stale ++ rest),out.length + stale.length⟩

section Moves
variable {out stale rest : List UInt8} {b c : UInt8}

theorem lookFirst : (between out stale (b :: rest)).look 0 = .ok b := by
  have first : (out ++ (stale ++ b :: rest))[out.length + stale.length + 0]? = some b := by
    rw [← List.append_assoc, Nat.add_zero, ← List.length_append, List.getElem?_append_right (Nat.le_refl _), Nat.sub_self]
    rfl
  unfold Moving.look between penAt
  rw [first, Option.elim_some]

theorem lookSecond : (between out stale (b :: c :: rest)).look 1 = .ok c := by
  have second : (out ++ (stale ++ b :: c :: rest))[out.length + stale.length + 1]? = some c := by
    rw [← List.append_assoc, ← List.length_append, List.getElem?_append_right (Nat.le_add_right _ _), Nat.add_sub_cancel_left]
    rfl
  unfold Moving.look between penAt
  rw [second, Option.elim_some]

theorem skipPast (t : List UInt8) : (between out stale (t ++ rest)).skip t.length = between out (stale ++ t) rest := by
  unfold Moving.skip between
  rw [List.append_assoc, List.length_append, Nat.add_assoc]

/- A byte is stored where the stale ones begin, or in its own place. -/
theorem copyFirst (out stale rest : List UInt8) (b : UInt8) :
    ∃ stale', (between out stale (b :: rest)).copy = .ok (between (out ++ [b]) stale' rest) := by
  refine ⟨(stale ++ [b]).drop 1,?_⟩
  have put : (penAt out (stale ++ b :: rest)).put [b] = .ok (penAt (out ++ [b]) ((stale ++ b :: rest).drop 1)) :=
    putAt (by
      simp only [List.length_append, List.length_cons, List.length_nil]
      omega)
  have same : (stale ++ b :: rest).drop 1 = (stale ++ [b]).drop 1 ++ rest := by
    cases stale <;> simp
  have place : out.length + stale.length + 1 = (out ++ [b]).length + ((stale ++ [b]).drop 1).length := by
    simp only [List.length_append, List.length_drop, List.length_singleton]
    omega
  unfold Moving.copy
  rw [lookFirst, okBind]
  unfold between
  rw [put, okBind, same, place]
  rfl

theorem sizeEnough (out stale rest : List UInt8) : rest.length < (between out stale rest).size := by
  unfold Moving.size between penAt
  simp only [List.length_append]
  omega

end Moves

/-! What is taken out -/

/- Nothing in it ends a comment, whatever follows: the star of the end does not count. -/
inductive Body : List UInt8 → Prop where
  | nil : Body []
  | cons {b : UInt8} {x : List UInt8} (inside : b ≠ 0) (goesOn : b = 42 → (x ++ [42]).head? ≠ some 47) (others : Body x) :
      Body (b :: x)

/- A comment that begins with /*/ is none of them: to the loop that is the whole comment. -/
inductive Commented : List UInt8 → Prop where
  | nil : Commented []
  | blank {b : UInt8} {w : List UInt8} (one : b ∈ [32,9,13,10]) (others : Commented w) : Commented (b :: w)
  | line {x w : List UInt8} (body : ∀ b ∈ x, b ≠ 0 ∧ b ≠ 10) (others : Commented w) : Commented (47 :: 47 :: (x ++ 10 :: w))
  | block {x w : List UInt8} (body : Body (42 :: x)) (others : Commented w) : Commented (47 :: 42 :: (x ++ 42 :: 47 :: w))

section Loops
variable {out stale rest : List UInt8} {fuel : Nat}

theorem skipOne {b : UInt8} : (between out stale (b :: rest)).skip 1 = between out (stale ++ [b]) rest := skipPast [b]

theorem lineRuns {x : List UInt8} (body : ∀ b ∈ x, b ≠ 0 ∧ b ≠ 10) :
    endOfLine (x.length + fuel) (between out stale (x ++ rest)) = endOfLine fuel (between out (stale ++ x) rest) := by
  induction x generalizing stale with
  | nil => rw [List.append_nil, List.nil_append, List.length_nil, Nat.zero_add]
  | cons b x ih =>
    rw [List.length_cons, Nat.succ_add, List.cons_append, endOfLine, lookFirst, okBind, if_pos (body b List.mem_cons_self), skipOne,
      ih fun b inside => body b (List.mem_cons_of_mem _ inside), List.append_assoc]
    rfl

/- What comes next does not end it either. -/
theorem commentRuns {x : List UInt8} {c : UInt8} (body : Body x) (next : c ≠ 47) :
    endOfComment (x.length + fuel) (between out stale (x ++ c :: rest)) = endOfComment fuel (between out (stale ++ x) (c :: rest)) := by
  induction body generalizing stale with
  | nil => rw [List.append_nil, List.nil_append, List.length_nil, Nat.zero_add]
  | @cons b x inside goesOn others ih =>
    have open' : (if b = 42 then (· == 47) <$> (between out stale (b :: (x ++ c :: rest))).look 1 else pure false) =
        (.ok false : Defined Bool) := by
      split
      · rename_i star
        have other := goesOn star
        cases x with
        | nil =>
          rw [List.nil_append, lookSecond]
          exact congrArg Except.ok (beq_eq_false_iff_ne.mpr next)
        | cons d x =>
          have apart : (d == 47) = false := beq_eq_false_iff_ne.mpr fun same => other (congrArg some same)
          rw [List.cons_append, lookSecond]
          exact congrArg Except.ok apart
      · rfl
    rw [List.length_cons, Nat.succ_add, List.cons_append, endOfComment, lookFirst, okBind, if_neg inside, open', okBind,
      if_neg Bool.false_ne_true, skipOne, ih, List.append_assoc]
    rfl

/- The fuel of a loop is spent over what it passes. -/
theorem fuelLeft {x : List UInt8} (enough : (x ++ rest).length < fuel) : ∃ n, fuel = x.length + (n + 1) ∧ rest.length < n + 1 := by
  rw [List.length_append] at enough
  exact ⟨fuel - x.length - 1,by omega,by omega⟩

theorem lineEnds {x : List UInt8} {c : UInt8} (body : ∀ b ∈ x, b ≠ 0 ∧ b ≠ 10) (last : c = 0 ∨ c = 10)
    (enough : (x ++ c :: rest).length < fuel) :
    endOfLine fuel (between out stale (x ++ c :: rest)) = .ok (between out (stale ++ x) (c :: rest)) := by
  obtain ⟨n,rfl,_⟩ := fuelLeft enough
  have ends : ¬ (c ≠ 0 ∧ c ≠ 10) := fun both => last.elim both.1 both.2
  rw [lineRuns body, endOfLine, lookFirst, okBind, if_neg ends]
  rfl

theorem commentEnds {x : List UInt8} (body : Body x) (enough : (x ++ 42 :: 47 :: rest).length < fuel) :
    endOfComment fuel (between out stale (x ++ 42 :: 47 :: rest)) = .ok (between out (stale ++ (x ++ [42,47])) rest) := by
  obtain ⟨n,rfl,_⟩ := fuelLeft enough
  have past : (between out (stale ++ x) (42 :: 47 :: rest)).skip 2 = between out (stale ++ x ++ [42,47]) rest := skipPast [42,47]
  rw [List.append_assoc] at past
  rw [commentRuns body (by decide), endOfComment, lookFirst, okBind, if_neg (by decide), if_pos rfl, lookSecond]
  exact congrArg Except.ok past

end Loops

/- What stands between the quotes, for a reader that only knows which byte is escaped -/
inductive Quoted : List UInt8 → Prop where
  | nil : Quoted []
  | plain {b : UInt8} {t : List UInt8} (inside : b ≠ 0 ∧ b ≠ 34) (noEscape : b ≠ 92) (others : Quoted t) : Quoted (b :: t)
  | escape {c : UInt8} {t : List UInt8} (others : Quoted t) : Quoted (92 :: c :: t)

theorem hexQuoted {u : Nat} {t t' : List UInt8} (hex : Hex4 u t) (others : Quoted t') : Quoted (t ++ t') := by
  obtain ⟨first,second,third,fourth⟩ := hex
  have plain : ∀ {b : UInt8} {d : Nat} {v : List UInt8}, hexDigit b = some d → Quoted v → Quoted (b :: v) := by
    intro b d v digit others
    obtain ⟨_,noQuote,inside,noEscape⟩ := hexDigitSmall digit
    exact .plain ⟨inside,noQuote⟩ noEscape others
  exact plain first (plain second (plain third (plain fourth others)))

theorem letterQuoted {s t t' : List UInt8} (letter : Letter s t) (others : Quoted t') : Quoted (t ++ t') := by
  cases letter with
  | plain inside noQuote noEscape => exact .plain ⟨inside,noQuote⟩ noEscape others
  | escape known => exact .escape others
  | unit hex inside alone => exact .escape (hexQuoted hex others)
  | pair hex hex' high low =>
    rw [List.append_assoc]
    exact .escape (hexQuoted hex (.escape (hexQuoted hex' others)))

theorem lettersQuoted {s t : List UInt8} (letters : Letters s t) : Quoted t := by
  induction letters with
  | nil => exact .nil
  | cons letter others ih => exact letterQuoted letter ih

theorem stringRuns {t out stale rest : List UInt8} {fuel : Nat} (quoted : Quoted t) (enough : (t ++ rest).length < fuel) :
    ∃ stale' n, rest.length < n + 1 ∧
      endOfString fuel (between out stale (t ++ rest)) = endOfString (n + 1) (between (out ++ t) stale' rest) := by
  induction quoted generalizing out stale fuel with
  | nil =>
    obtain ⟨n,rfl,left⟩ := fuelLeft enough
    refine ⟨stale,n,left,?_⟩
    rw [List.append_nil, List.nil_append, List.length_nil, Nat.zero_add]
  | @plain b t inside noEscape others ih =>
    rw [List.cons_append, List.length_cons] at enough
    obtain ⟨fuel,rfl⟩ : ∃ n, fuel = n + 1 := ⟨fuel - 1,by omega⟩
    obtain ⟨stale₁,copied⟩ := copyFirst out stale (t ++ rest) b
    have others : ∃ stale₂ n, rest.length < n + 1 ∧ endOfString fuel (between (out ++ [b]) stale₁ (t ++ rest)) = _ :=
      ih (Nat.lt_of_succ_lt_succ enough)
    obtain ⟨stale₂,n,left,later⟩ := others
    rw [List.append_assoc] at later
    refine ⟨stale₂,n,left,?_⟩
    rw [List.cons_append, endOfString, lookFirst, okBind, if_pos inside, if_neg noEscape]
    change (between out stale (b :: (t ++ rest))).copy >>= _ = _
    rw [copied]
    exact later
  | @escape c t others ih =>
    rw [List.cons_append, List.cons_append, List.length_cons, List.length_cons] at enough
    obtain ⟨fuel,rfl⟩ : ∃ n, fuel = n + 1 := ⟨fuel - 1,by omega⟩
    obtain ⟨stale₁,copied₁⟩ := copyFirst out stale (c :: (t ++ rest)) 92
    obtain ⟨stale₂,copied₂⟩ := copyFirst (out ++ [92]) stale₁ (t ++ rest) c
    have others : ∃ stale₃ n, rest.length < n + 1 ∧ endOfString fuel (between (out ++ [92] ++ [c]) stale₂ (t ++ rest)) = _ :=
      ih (by omega)
    obtain ⟨stale₃,n,left,later⟩ := others
    have text : out ++ [92] ++ [c] ++ t = out ++ 92 :: c :: t := by simp
    rw [text] at later
    refine ⟨stale₃,n,left,?_⟩
    rw [List.cons_append, List.cons_append, endOfString, lookFirst, okBind, if_pos (by decide), if_pos rfl, copied₁, okBind, copied₂,
      okBind]
    exact later

theorem stringEnds {t out stale rest : List UInt8} {c : UInt8} {fuel : Nat} (quoted : Quoted t) (last : c = 0 ∨ c = 34)
    (enough : (t ++ c :: rest).length < fuel) :
    ∃ stale', endOfString fuel (between out stale (t ++ c :: rest)) = .ok (between (out ++ t) stale' (c :: rest)) := by
  obtain ⟨stale',n,_,same⟩ := stringRuns quoted enough
  have ends : ¬ (c ≠ 0 ∧ c ≠ 34) := fun both => last.elim both.1 both.2
  refine ⟨stale',same.trans ?_⟩
  rw [endOfString, lookFirst, okBind, if_neg ends]
  rfl

/-! A piece of a text, and what is left of it -/

def Stripped (t u : List UInt8) : Prop := ∀ out stale rest fuel, (t ++ rest).length < fuel → ∃ stale' fuel',
  rest.length < fuel' ∧ minify fuel (between out stale (t ++ rest)) = minify fuel' (between (out ++ u) stale' rest)

theorem Stripped.nil : Stripped [] [] := fun out stale rest fuel enough =>
  ⟨stale,fuel,enough,by rw [List.append_nil, List.nil_append]⟩

theorem Stripped.append {t t' u u' : List UInt8} (first : Stripped t u) (second : Stripped t' u') :
    Stripped (t ++ t') (u ++ u') := by
  intro out stale rest fuel enough
  rw [List.append_assoc] at enough ⊢
  obtain ⟨stale₁,fuel₁,enough₁,same₁⟩ := first out stale (t' ++ rest) fuel enough
  obtain ⟨stale₂,fuel₂,enough₂,same₂⟩ := second (out ++ u) stale₁ rest fuel₁ enough₁
  refine ⟨stale₂,fuel₂,enough₂,?_⟩
  rw [same₁, same₂, List.append_assoc]

/- Neither a blank nor the begin of a comment or a string -/
def kept (b : UInt8) : Bool := b ∉ [0,32,9,13,10,47,34]

theorem keptStripped {b : UInt8} (stays : kept b = true) : Stripped [b] [b] := by
  intro out stale rest fuel enough
  obtain ⟨fuel,rfl⟩ : ∃ n, fuel = n + 1 := ⟨fuel - 1,by simp at enough; omega⟩
  obtain ⟨stale',copied⟩ := copyFirst out stale rest b
  unfold kept at stays
  simp only [List.mem_cons, List.not_mem_nil, or_false, not_or, decide_eq_true_eq] at stays
  obtain ⟨inside,space,tab,back,line,slash,quote⟩ := stays
  have noBlank : b ∉ [32,9,13,10] := by simp [space, tab, back, line]
  refine ⟨stale',fuel,Nat.lt_of_succ_lt_succ enough,?_⟩
  rw [List.cons_append, List.nil_append, minify, lookFirst, okBind, if_neg inside, if_neg noBlank, if_neg slash, if_neg quote, copied]
  rfl

theorem allKept {t : List UInt8} (stays : t.all kept = true) : Stripped t t := by
  induction t with
  | nil => exact .nil
  | cons b t ih =>
    obtain ⟨first,others⟩ := Bool.and_eq_true_iff.mp (List.all_cons.symm.trans stays)
    exact (keptStripped first).append (ih others)

theorem blankStripped {b : UInt8} (one : b ∈ [32,9,13,10]) : Stripped [b] [] := by
  intro out stale rest fuel enough
  obtain ⟨fuel,rfl⟩ : ∃ n, fuel = n + 1 := ⟨fuel - 1,by simp at enough; omega⟩
  have inside : b ≠ 0 := by
    rintro rfl
    exact absurd one (by decide)
  refine ⟨stale ++ [b],fuel,Nat.lt_of_succ_lt_succ enough,?_⟩
  rw [List.cons_append, List.nil_append, minify, lookFirst, okBind, if_neg inside, if_pos one, skipOne, List.append_nil]

/- The turns of the loop at a slash and at a quote -/
theorem slashTurn {out stale rest : List UInt8} {c : UInt8} {fuel : Nat}
    (next : (between out stale (47 :: rest)).look 1 = .ok c) : minify (fuel+1) (between out stale (47 :: rest)) =
      ((if c = 47 then endOfLine (between out stale (47 :: rest)).size (between out stale (47 :: rest))
        else if c = 42 then endOfComment (between out stale (47 :: rest)).size (between out stale (47 :: rest))
        else (between out stale (47 :: rest)).copy) >>= minify fuel) := by
  rw [minify, lookFirst, okBind, if_neg (by decide), if_neg (by decide), if_pos rfl, next]
  rfl

theorem quoteTurn {out stale rest : List UInt8} {fuel : Nat} : minify (fuel+1) (between out stale (34 :: rest)) =
    ((between out stale (34 :: rest)).copy >>= fun m => endOfString m.size m >>= fun m => m.copy >>= minify fuel) := by
  rw [minify, lookFirst, okBind, if_neg (by decide), if_neg (by decide), if_neg (by decide), if_pos rfl]

theorem lineTurn {x out stale rest : List UInt8} {c : UInt8} {fuel : Nat} (body : ∀ b ∈ x, b ≠ 0 ∧ b ≠ 10)
    (last : c = 0 ∨ c = 10) :
    minify (fuel+1) (between out stale (47 :: 47 :: (x ++ c :: rest))) =
      minify fuel (between out (stale ++ 47 :: 47 :: x) (c :: rest)) := by
  have whole : ∀ b ∈ 47 :: 47 :: x, b ≠ 0 ∧ b ≠ 10 := by
    intro b inside
    rcases List.mem_cons.mp inside with rfl | inside
    · decide
    · rcases List.mem_cons.mp inside with rfl | inside
      · decide
      · exact body b inside
  have ends : endOfLine _ (between out stale (47 :: 47 :: x ++ c :: rest)) = _ :=
    lineEnds whole last (sizeEnough out stale (47 :: 47 :: x ++ c :: rest))
  rw [List.cons_append, List.cons_append] at ends
  rw [slashTurn lookSecond, if_pos rfl, ends]
  rfl

theorem blockTurn {x out stale rest : List UInt8} {fuel : Nat} (body : Body x) (star : (x ++ [42]).head? = some 42) :
    minify (fuel+1) (between out stale (47 :: (x ++ 42 :: 47 :: rest))) =
      minify fuel (between out (stale ++ 47 :: (x ++ [42,47])) rest) := by
  have whole : Body (47 :: x) := .cons (by decide) (fun other => absurd other (by decide)) body
  have second : (between out stale (47 :: (x ++ 42 :: 47 :: rest))).look 1 = .ok 42 := by
    cases x with
    | nil => exact lookSecond
    | cons c x =>
      obtain rfl : c = 42 := Option.some.inj star
      exact lookSecond
  have ends : endOfComment _ (between out stale (47 :: x ++ 42 :: 47 :: rest)) = _ :=
    commentEnds whole (sizeEnough out stale (47 :: x ++ 42 :: 47 :: rest))
  rw [List.cons_append] at ends
  rw [slashTurn second, if_neg (by decide), if_pos rfl, ends]
  rfl

theorem commentedStripped {w : List UInt8} (commented : Commented w) : Stripped w [] := by
  induction commented with
  | nil => exact .nil
  | blank one others ih => exact (blankStripped one).append ih
  | @line x w body others ih =>
    intro out stale rest fuel enough
    obtain ⟨fuel,rfl⟩ : ∃ n, fuel = n + 1 := ⟨fuel - 1,by omega⟩
    simp only [List.cons_append, List.append_assoc, List.length_cons, List.length_append] at enough ⊢
    rw [lineTurn body (Or.inr rfl)]
    have left : Stripped (10 :: w) [] := (blankStripped (by decide)).append ih
    exact left _ _ _ _ (by simp only [List.cons_append, List.length_cons, List.length_append]; omega)
  | @block x w body others ih =>
    intro out stale rest fuel enough
    obtain ⟨fuel,rfl⟩ : ∃ n, fuel = n + 1 := ⟨fuel - 1,by omega⟩
    simp only [List.cons_append, List.append_assoc, List.length_cons, List.length_append] at enough ⊢
    have turn : minify (fuel+1) (between out stale (47 :: (42 :: x ++ 42 :: 47 :: (w ++ rest)))) = _ := blockTurn body rfl
    rw [List.cons_append] at turn
    rw [turn]
    exact ih _ _ _ _ (by rw [List.length_append]; omega)

/- Behind /*/ the text goes on, whatever was meant for the comment. -/
theorem slashStripped : Stripped [47,42,47] [] := by
  intro out stale rest fuel enough
  obtain ⟨fuel,rfl⟩ : ∃ n, fuel = n + 1 := ⟨fuel - 1,by omega⟩
  simp only [List.cons_append, List.nil_append, List.append_nil, List.length_cons] at enough ⊢
  have turn : minify (fuel+1) (between out stale (47 :: ([] ++ 42 :: 47 :: rest))) = _ := blockTurn .nil rfl
  exact ⟨_,fuel,by omega,turn⟩

theorem stringStripped {t : List UInt8} (quoted : Quoted t) : Stripped (34 :: (t ++ [34])) (34 :: (t ++ [34])) := by
  intro out stale rest fuel enough
  obtain ⟨fuel,rfl⟩ : ∃ n, fuel = n + 1 := ⟨fuel - 1,by omega⟩
  simp only [List.cons_append, List.append_assoc, List.nil_append, List.length_cons, List.length_append] at enough ⊢
  obtain ⟨stale₁,copied₁⟩ := copyFirst out stale (t ++ 34 :: rest) 34
  obtain ⟨stale₂,ends⟩ := stringEnds quoted (Or.inr rfl) (sizeEnough (out ++ [34]) stale₁ (t ++ 34 :: rest))
  obtain ⟨stale₃,copied₂⟩ := copyFirst (out ++ [34] ++ t) stale₂ rest 34
  have text : out ++ [34] ++ t ++ [34] = out ++ 34 :: (t ++ [34]) := by simp
  refine ⟨stale₃,fuel,by omega,?_⟩
  rw [quoteTurn, copied₁, okBind, ends, okBind, copied₂, text]
  rfl

/-! The grammar -/

theorem digitKept {d : UInt8} (digit : isDigit d = true) : kept d = true := by
  unfold kept
  rw [decide_eq_true_eq]
  intro inside
  simp only [List.mem_cons, List.not_mem_nil, or_false] at inside
  rcases inside with rfl | rfl | rfl | rfl | rfl | rfl | rfl <;> exact absurd digit (by decide)

theorem digitsKept {t : List UInt8} (digits : ∀ b ∈ t, isDigit b = true) : t.all kept = true :=
  List.all_eq_true.mpr fun b inside => digitKept (digits b inside)

theorem numberKept {m n : Int} {t : List UInt8} (number : Number m n t) : t.all kept = true := by
  obtain ⟨known,units,parts,power⟩ := number
  rw [List.all_append, List.all_append, List.all_append]
  refine Bool.and_eq_true_iff.mpr ⟨Bool.and_eq_true_iff.mpr ⟨Bool.and_eq_true_iff.mpr ⟨?sign,?whole⟩,?parts⟩,?power⟩
  case sign =>
    simp only [List.mem_cons, List.not_mem_nil, or_false] at known
    rcases known with rfl | rfl <;> decide
  case whole =>
    cases units with
    | zero => decide
    | digits first others =>
      rw [List.all_cons, digitKept (firstDigit first).1]
      exact digitsKept others
  case parts =>
    cases parts with
    | none => rfl
    | point digits =>
      rw [List.all_cons, digitsKept digits.2]
      rfl
  case power =>
    cases power with
    | none => rfl
    | @power e sign t letter known' digits =>
      have first : kept e = true := by
        rcases letter with rfl | rfl <;> decide
      have second : sign.all kept = true := by
        simp only [List.mem_cons, List.not_mem_nil, or_false] at known'
        rcases known' with rfl | rfl | rfl <;> decide
      rw [List.all_cons, List.all_append, first, second, digitsKept digits.2]
      rfl

theorem enclosedStripped {t u : List UInt8} {b c : UInt8} (first : kept b = true) (inside : Stripped t u) (last : kept c = true) :
    Stripped (b :: (t ++ [c])) (b :: (u ++ [c])) := (keptStripped first).append (inside.append (keptStripped last))

theorem joinedStripped {t t' u u' : List UInt8} {b : UInt8} (first : Stripped t u) (comma : kept b = true) (second : Stripped t' u') :
    Stripped (t ++ b :: t') (u ++ b :: u') := first.append ((keptStripped comma).append second)

section Values
variable {denotes : Int → List UInt8 → Prop}

mutual

/- What is left is a text with any blanks, as long as there may be none. -/
theorem valueStripped {item : Item} {t : List UInt8} : Value Commented denotes item t →
    ∃ u, Stripped t u ∧ ∀ blank : List UInt8 → Prop, blank [] → Value blank denotes item u
  | .null => ⟨_,allKept (by decide),fun _ _ => .null⟩
  | .false => ⟨_,allKept (by decide),fun _ _ => .false⟩
  | .true => ⟨_,allKept (by decide),fun _ _ => .true⟩
  | .number written value => ⟨_,allKept (numberKept written),fun _ _ => .number written value⟩
  | .string letters => ⟨_,stringStripped (lettersQuoted letters),fun _ _ => .string letters⟩
  | .emptyArray skipped =>
    ⟨_,enclosedStripped (by decide) (commentedStripped skipped) (by decide),fun _ empty => .emptyArray empty⟩
  | .emptyObject skipped =>
    ⟨_,enclosedStripped (by decide) (commentedStripped skipped) (by decide),fun _ empty => .emptyObject empty⟩
  | .array inside => by
    obtain ⟨u,stripped,text⟩ := elementsStripped inside
    exact ⟨_,enclosedStripped (by decide) stripped (by decide),fun blank empty => .array (text blank empty)⟩
  | .object inside => by
    obtain ⟨u,stripped,text⟩ := membersStripped inside
    exact ⟨_,enclosedStripped (by decide) stripped (by decide),fun blank empty => .object (text blank empty)⟩

theorem paddedStripped {item : Item} {t : List UInt8} : Padded Commented denotes item t →
    ∃ u, Stripped t u ∧ ∀ blank : List UInt8 → Prop, blank [] → Padded blank denotes item u
  | .mk before value behind => by
    obtain ⟨u,stripped,text⟩ := valueStripped value
    exact ⟨_,(commentedStripped before).append (stripped.append (commentedStripped behind)),
      fun blank empty => .mk empty (text blank empty) empty⟩

theorem elementsStripped {child : List Item} {t : List UInt8} : Elements Commented denotes child t →
    ∃ u, Stripped t u ∧ ∀ blank : List UInt8 → Prop, blank [] → Elements blank denotes child u
  | .last value => by
    obtain ⟨u,stripped,text⟩ := paddedStripped value
    exact ⟨u,stripped,fun blank empty => .last (text blank empty)⟩
  | .more value others => by
    obtain ⟨u,stripped,text⟩ := paddedStripped value
    obtain ⟨u',stripped',text'⟩ := elementsStripped others
    exact ⟨_,joinedStripped stripped (by decide) stripped',fun blank empty => .more (text blank empty) (text' blank empty)⟩

theorem memberStripped {m : List UInt8 × Item} {t : List UInt8} : Member Commented denotes m t →
    ∃ u, Stripped t u ∧ ∀ blank : List UInt8 → Prop, blank [] → Member blank denotes m u
  | .mk before name behind value => by
    rename_i t w' v
    obtain ⟨u,stripped,text⟩ := paddedStripped value
    have pair := joinedStripped (commentedStripped behind) (b := 58) (by decide) stripped
    have all := (commentedStripped before).append ((stringStripped (lettersQuoted name)).append pair)
    simp only [List.cons_append, List.append_assoc, List.nil_append] at all
    exact ⟨_,all,fun blank empty => .mk empty name empty (text blank empty)⟩

theorem membersStripped {child : List (List UInt8 × Item)} {t : List UInt8} : Members Commented denotes child t →
    ∃ u, Stripped t u ∧ ∀ blank : List UInt8 → Prop, blank [] → Members blank denotes child u
  | .last value => by
    obtain ⟨u,stripped,text⟩ := memberStripped value
    exact ⟨u,stripped,fun blank empty => .last (text blank empty)⟩
  | .more value others => by
    obtain ⟨u,stripped,text⟩ := memberStripped value
    obtain ⟨u',stripped',text'⟩ := membersStripped others
    exact ⟨_,joinedStripped stripped (by decide) stripped',fun blank empty => .more (text blank empty) (text' blank empty)⟩

end

/- A text without blanks and comments -/
def Bare (w : List UInt8) : Prop := w = []

/-- What cJSON_Minify leaves of a text with blanks and comments is a text of the same tree without them, with its zero byte. No
load or store leaves the block, and cJSON_Parse takes what is left for the tree. -/
theorem minified {pow : Float.Model → Float.Model → Float.Model} (exact : WholePowers pow) {item : Item} {t : List UInt8}
    (text : Padded Commented (Denotes pow) item t) : ∃ u, Padded Bare (Denotes pow) item u ∧
      ∀ behind, ∃ behind', cJsonMinify (t ++ 0 :: behind) = .ok (u ++ 0 :: behind') ∧
        cJsonParse (valueintOf pow) (u ++ 0 :: behind') = .ok (some item) := by
  obtain ⟨u,stripped,left⟩ := paddedStripped text
  refine ⟨u,left Bare rfl,fun behind => ?_⟩
  obtain ⟨stale,fuel,enough,same⟩ := stripped [] [] (0 :: behind) _ (Nat.lt_succ_self _)
  obtain ⟨fuel,rfl⟩ : ∃ n, fuel = n + 1 := ⟨fuel - 1,by omega⟩
  have ended : minify (fuel+1) (between u stale (0 :: behind)) = .ok (between u stale (0 :: behind)) := by
    rw [minify, lookFirst, okBind, if_pos rfl]
    rfl
  have stopped : (penAt u (stale ++ 0 :: behind)).stop = .ok (penAt u (0 :: (stale ++ 0 :: behind).drop 1)) :=
    stopAt (by
      simp only [List.length_append, List.length_cons]
      omega)
  refine ⟨(stale ++ 0 :: behind).drop 1,?_,CJsonParsing.paddedParsed (denotesRead exact) (left Skipped skippedNone) _⟩
  change (minify _ (between [] [] (t ++ 0 :: behind)) >>= fun m => CJsonPrint.Pen.block <$> m.into.stop) = _
  rw [same, List.nil_append, ended, okBind]
  change CJsonPrint.Pen.block <$> (penAt u (stale ++ 0 :: behind)).stop = _
  rw [stopped]
  rfl

end Values

/-! A text with blanks, comments and a string that looks like one, and what is left of it -/

def sampleText : List UInt8 :=
  [9,91,47,42,42,42,47,49,44,47,47,93,10,34,47,42,34,93]

theorem sampleWritten : Padded Commented (Denotes power) (.array [.number 1,.string [47,42]]) sampleText := by
  have one : Value Commented (Denotes power) (.number 1) [49] := .number (decimalNumber 1) (decimalDenotes 1 (by unfold CInt; omega))
  have name : Letters [47,42] [47,42] :=
    .cons (.plain (by decide) (by decide) (by decide)) (.cons (.plain (by decide) (by decide) (by decide)) .nil)
  have stars : Commented [47,42,42,42,47] :=
    .block (x := [42]) (.cons (by decide) (by decide) (.cons (by decide) (by decide) .nil)) .nil
  have line : Commented [47,47,93,10] := .line (x := [93]) (by simp) .nil
  have first : Padded Commented (Denotes power) (.number 1) _ := .mk stars one .nil
  have second : Padded Commented (Denotes power) (.string [47,42]) _ := .mk line (.string name) .nil
  exact .mk (.blank (b := 9) (by decide) .nil) (.array (.more first (.last second))) .nil

theorem minifiedSample : ∃ u, Padded Bare (Denotes power) (.array [.number 1,.string [47,42]]) u ∧ ∀ behind, ∃ behind',
    cJsonMinify (sampleText ++ 0 :: behind) = .ok (u ++ 0 :: behind') ∧
      cJsonParse (valueintOf power) (u ++ 0 :: behind') = .ok (some (.array [.number 1,.string [47,42]])) :=
  minified powerExact sampleWritten

end YunbaIot.CJsonStripping
