import YunbaIot.CJsonStripping

/-! cJSON_Minify leaves its block exactly where a comment or a string has no end. -/
namespace YunbaIot.CJsonBounds
open Block CJsonComposing CJsonMinify CJsonStripping

/- A string piece by piece, up to the place where the last piece begins -/
inductive Pieces (last : List UInt8 → Prop) : List UInt8 → Prop where
  | done {s : List UInt8} (here : last s) : Pieces last s
  | byte {b : UInt8} {s : List UInt8} (plain : b ≠ 0 ∧ b ≠ 47 ∧ b ≠ 34) (others : Pieces last s) : Pieces last (b :: s)
  | slash {s : List UInt8} (alone : s.head? ≠ some 47 ∧ s.head? ≠ some 42) (others : Pieces last s) : Pieces last (47 :: s)
  | line {x s : List UInt8} (body : ∀ b ∈ x, b ≠ 0 ∧ b ≠ 10) (others : Pieces last s) : Pieces last (47 :: 47 :: (x ++ 10 :: s))
  | block {x s : List UInt8} (body : Body x) (star : (x ++ [42]).head? = some 42) (others : Pieces last s) :
      Pieces last (47 :: (x ++ 42 :: 47 :: s))
  | string {t s : List UInt8} (quoted : Quoted t) (others : Pieces last s) : Pieces last (34 :: (t ++ 34 :: s))

/- A comment of one line may be the last. -/
def Ended (s : List UInt8) : Prop := s = [] ∨ ∃ x, (∀ b ∈ x, b ≠ 0 ∧ b ≠ 10) ∧ s = 47 :: 47 :: x

inductive Unended : List UInt8 → Prop where
  | comment {x : List UInt8} (body : Body (42 :: x)) : Unended (47 :: 42 :: x)
  | string {t : List UInt8} (quoted : Quoted t) : Unended (34 :: t)
  | escape {t : List UInt8} (quoted : Quoted t) : Unended (34 :: (t ++ [92]))

/-! Each string is the one or the other. -/

theorem lineCases {s : List UInt8} (string : 0 ∉ s) :
    (∃ x r, (∀ b ∈ x, b ≠ 0 ∧ b ≠ 10) ∧ s = x ++ 10 :: r) ∨ ∀ b ∈ s, b ≠ 0 ∧ b ≠ 10 := by
  induction s with
  | nil => exact Or.inr fun b inside => absurd inside List.not_mem_nil
  | cons b s ih =>
    obtain ⟨nonzero,others⟩ := List.ne_and_not_mem_of_not_mem_cons string
    by_cases last : b = 10
    · exact Or.inl ⟨[],s,fun b inside => absurd inside List.not_mem_nil,by rw [last]; rfl⟩
    · refine (ih others).imp ?_ fun body => List.forall_mem_cons.mpr ⟨⟨Ne.symm nonzero,last⟩,body⟩
      rintro ⟨x,r,body,rfl⟩
      exact ⟨b :: x,r,List.forall_mem_cons.mpr ⟨⟨Ne.symm nonzero,last⟩,body⟩,rfl⟩

theorem commentCases {s : List UInt8} (string : 0 ∉ s) : (∃ x r, Body x ∧ s = x ++ 42 :: 47 :: r) ∨ Body s := by
  induction s with
  | nil => exact Or.inr .nil
  | cons b s ih =>
    obtain ⟨nonzero,others⟩ := List.ne_and_not_mem_of_not_mem_cons string
    by_cases last : b = 42 ∧ s.head? = some 47
    · obtain ⟨rfl,slash⟩ := last
      obtain ⟨r,rfl⟩ := List.head?_eq_some_iff.mp slash
      exact Or.inl ⟨[],r,.nil,rfl⟩
    · rcases ih others with ⟨x,r,body,rfl⟩ | body
      · refine Or.inl ⟨b :: x,r,.cons (Ne.symm nonzero) (fun star slash => last ⟨star,?_⟩) body,rfl⟩
        cases x <;> exact slash
      · refine Or.inr (.cons (Ne.symm nonzero) (fun star slash => last ⟨star,?_⟩) body)
        cases s with
        | nil => exact absurd slash (by decide)
        | cons c s => exact slash

theorem stringCases : (s : List UInt8) → 0 ∉ s →
    (∃ t r, Quoted t ∧ s = t ++ 34 :: r) ∨ Quoted s ∨ ∃ t, Quoted t ∧ s = t ++ [92]
  | [], _ => Or.inr (Or.inl .nil)
  | [b], string => by
    have nonzero := (List.ne_and_not_mem_of_not_mem_cons string).1
    by_cases quote : b = 34
    · exact Or.inl ⟨[],[],.nil,by rw [quote]; rfl⟩
    · by_cases escape : b = 92
      · exact Or.inr (Or.inr ⟨[],.nil,by rw [escape]; rfl⟩)
      · exact Or.inr (Or.inl (.plain ⟨Ne.symm nonzero,quote⟩ escape .nil))
  | b :: c :: s, string => by
    obtain ⟨nonzero,others⟩ := List.ne_and_not_mem_of_not_mem_cons string
    by_cases quote : b = 34
    · exact Or.inl ⟨[],c :: s,.nil,by rw [quote]; rfl⟩
    by_cases escape : b = 92
    · subst escape
      rcases stringCases s (List.ne_and_not_mem_of_not_mem_cons others).2 with ⟨t,r,quoted,rfl⟩ | quoted | ⟨t,quoted,rfl⟩
      · exact Or.inl ⟨92 :: c :: t,r,.escape quoted,rfl⟩
      · exact Or.inr (Or.inl (.escape quoted))
      · exact Or.inr (Or.inr ⟨92 :: c :: t,.escape quoted,rfl⟩)
    · rcases stringCases (c :: s) others with ⟨t,r,quoted,same⟩ | quoted | ⟨t,quoted,same⟩
      · exact Or.inl ⟨b :: t,r,.plain ⟨Ne.symm nonzero,quote⟩ escape quoted,by rw [same]; rfl⟩
      · exact Or.inr (Or.inl (.plain ⟨Ne.symm nonzero,quote⟩ escape quoted))
      · exact Or.inr (Or.inr ⟨b :: t,.plain ⟨Ne.symm nonzero,quote⟩ escape quoted,by rw [same]; rfl⟩)

theorem behindZero {t r : List UInt8} (string : 0 ∉ t ++ r) : 0 ∉ r := fun inside => string (List.mem_append_right t inside)

theorem endedOrNot (n : Nat) : ∀ s : List UInt8, s.length ≤ n → 0 ∉ s → Pieces Ended s ∨ Pieces Unended s := by
  induction n with
  | zero =>
    intro s short _
    exact Or.inl (.done (Or.inl (List.length_eq_zero_iff.mp (Nat.le_zero.mp short))))
  | succ n ih =>
    intro s short string
    cases s with
    | nil => exact Or.inl (.done (Or.inl rfl))
    | cons b s =>
      obtain ⟨nonzero,others⟩ := List.ne_and_not_mem_of_not_mem_cons string
      rw [List.length_cons] at short
      by_cases quote : b = 34
      · subst quote
        rcases stringCases s others with ⟨t,r,quoted,rfl⟩ | quoted | ⟨t,quoted,rfl⟩
        · rw [List.length_append, List.length_cons] at short
          have rest := ih r (by omega) (List.ne_and_not_mem_of_not_mem_cons (behindZero others)).2
          exact rest.imp (.string quoted) (.string quoted)
        · exact Or.inr (.done (.string quoted))
        · exact Or.inr (.done (.escape quoted))
      by_cases slash : b = 47
      · subst slash
        by_cases line : s.head? = some 47
        · obtain ⟨s,rfl⟩ := List.head?_eq_some_iff.mp line
          rcases lineCases (List.ne_and_not_mem_of_not_mem_cons others).2 with ⟨x,r,body,rfl⟩ | body
          · rw [List.length_cons, List.length_append, List.length_cons] at short
            have zero := behindZero (List.ne_and_not_mem_of_not_mem_cons others).2
            have rest := ih r (by omega) (List.ne_and_not_mem_of_not_mem_cons zero).2
            exact rest.imp (.line body) (.line body)
          · exact Or.inl (.done (Or.inr ⟨s,body,rfl⟩))
        by_cases star : s.head? = some 42
        · rcases commentCases others with ⟨x,r,body,rfl⟩ | body
          · have star' : (x ++ [42]).head? = some 42 := by
              cases x <;> exact star
            rw [List.length_append, List.length_cons, List.length_cons] at short
            have zero := (List.ne_and_not_mem_of_not_mem_cons (behindZero others)).2
            have rest := ih r (by omega) (List.ne_and_not_mem_of_not_mem_cons zero).2
            exact rest.imp (.block body star') (.block body star')
          · obtain ⟨x,rfl⟩ := List.head?_eq_some_iff.mp star
            exact Or.inr (.done (.comment body))
        · exact (ih s (by omega) others).imp (.slash ⟨line,star⟩) (.slash ⟨line,star⟩)
      · have plain : b ≠ 0 ∧ b ≠ 47 ∧ b ≠ 34 := ⟨Ne.symm nonzero,slash,quote⟩
        exact (ih s (by omega) others).imp (.byte plain) (.byte plain)

/-! What cJSON_Minify comes to -/

section Runs
variable {post : Defined Moving → Prop} {s : List UInt8}

/- From wherever the pieces begin, with their zero byte the last of the block -/
def Leads (post : Defined Moving → Prop) (s : List UInt8) : Prop := ∀ out stale fuel, (s ++ [0]).length < fuel →
  post (minify fuel (between out stale (s ++ [0])))

theorem Leads.behind {t u : List UInt8} (leads : Leads post s) (stripped : Stripped t u) : Leads post (t ++ s) := by
  intro out stale fuel enough
  rw [List.append_assoc] at enough ⊢
  obtain ⟨stale',fuel',enough',same⟩ := stripped out stale (s ++ [0]) fuel enough
  rw [same]
  exact leads (out ++ u) stale' fuel' enough'

theorem byteStripped {b : UInt8} (plain : b ≠ 0 ∧ b ≠ 47 ∧ b ≠ 34) : ∃ u, Stripped [b] u := by
  by_cases one : b ∈ [32,9,13,10]
  · exact ⟨[],blankStripped one⟩
  · refine ⟨[b],keptStripped ?_⟩
    simp only [List.mem_cons, List.not_mem_nil, or_false, not_or] at one
    simp [kept, plain, one]

theorem Leads.slash (leads : Leads post s) (alone : s.head? ≠ some 47 ∧ s.head? ≠ some 42) : Leads post (47 :: s) := by
  intro out stale fuel enough
  obtain ⟨fuel,rfl⟩ : ∃ n, fuel = n + 1 := ⟨fuel - 1,by omega⟩
  obtain ⟨stale',copied⟩ := copyFirst out stale (s ++ [0]) 47
  have next : ∃ c, (between out stale (47 :: (s ++ [0]))).look 1 = .ok c ∧ c ≠ 47 ∧ c ≠ 42 := by
    cases s with
    | nil => exact ⟨0,lookSecond,by decide,by decide⟩
    | cons c s => exact ⟨c,lookSecond,fun same => alone.1 (congrArg some same),fun same => alone.2 (congrArg some same)⟩
  obtain ⟨c,second,noLine,noStar⟩ := next
  rw [List.cons_append, slashTurn second, if_neg noLine, if_neg noStar, copied, okBind]
  exact leads _ _ _ (Nat.lt_of_succ_lt_succ enough)

theorem Leads.block (leads : Leads post s) {x : List UInt8} (body : Body x) (star : (x ++ [42]).head? = some 42) :
    Leads post (47 :: (x ++ 42 :: 47 :: s)) := by
  intro out stale fuel enough
  obtain ⟨fuel,rfl⟩ : ∃ n, fuel = n + 1 := ⟨fuel - 1,by omega⟩
  simp only [List.cons_append, List.append_assoc, List.length_cons, List.length_append] at enough ⊢
  rw [blockTurn body star]
  exact leads _ _ _ (by rw [List.length_append]; simp only [List.length_cons]; omega)

theorem piecesLead {last : List UInt8 → Prop} (ends : ∀ s, last s → Leads post s) (pieces : Pieces last s) : Leads post s := by
  induction pieces with
  | done here => exact ends _ here
  | byte plain others ih =>
    obtain ⟨u,stripped⟩ := byteStripped plain
    exact ih.behind stripped
  | slash alone others ih => exact ih.slash alone
  | @line x s body others ih =>
    have whole := ih.behind (commentedStripped (.line body .nil))
    simp only [List.cons_append, List.append_assoc, List.nil_append] at whole
    exact whole
  | block body star others ih => exact ih.block body star
  | @string t s quoted others ih =>
    have whole := ih.behind (stringStripped quoted)
    simp only [List.cons_append, List.append_assoc, List.nil_append] at whole
    exact whole

end Runs

/- At the zero byte -/
def Ends (r : Defined Moving) : Prop := ∃ u stale, r = .ok (between u stale [0])

theorem endedEnds {s : List UInt8} (ended : Ended s) : Leads Ends s := by
  intro out stale fuel enough
  have atZero : ∀ stale n, Ends (minify (n+1) (between out stale [0])) := fun stale n => by
    refine ⟨out,stale,?_⟩
    rw [minify, lookFirst, okBind, if_pos rfl]
    rfl
  rcases ended with rfl | ⟨x,body,rfl⟩
  · obtain ⟨fuel,rfl⟩ : ∃ n, fuel = n + 1 := ⟨fuel - 1,by omega⟩
    exact atZero stale fuel
  · simp only [List.cons_append, List.length_cons, List.length_append, List.length_nil] at enough ⊢
    obtain ⟨fuel,rfl⟩ : ∃ n, fuel = n + 2 := ⟨fuel - 2,by omega⟩
    rw [lineTurn body (Or.inl rfl)]
    exact atZero _ fuel

/- Once json is outside the next load is a fault. -/
def Outside (m : Moving) : Prop := m.into.block.length ≤ m.json

theorem lookOutside {m : Moving} (outside : Outside m) : m.look 0 = .error .load := by
  unfold Moving.look
  rw [Nat.add_zero, List.getElem?_eq_none outside, Option.elim_none]

theorem minifyOutside {m : Moving} (outside : Outside m) (fuel : Nat) : minify fuel m = .error .load := by
  cases fuel with
  | zero => rfl
  | succ fuel =>
    rw [minify, lookOutside outside]
    rfl

theorem nothingLeft (out stale : List UInt8) : Outside (between out stale []) := by
  unfold Outside between penAt
  rw [List.append_nil, List.length_append]

theorem unendedFaults {s : List UInt8} (unended : Unended s) : Leads (· = .error .load) s := by
  intro out stale fuel enough
  obtain ⟨fuel,rfl⟩ : ∃ n, fuel = n + 1 := ⟨fuel - 1,by omega⟩
  cases unended with
  | @comment x body =>
    have whole : Body (47 :: 42 :: x) := .cons (by decide) (fun other => absurd other (by decide)) body
    obtain ⟨n,size,_⟩ := fuelLeft (sizeEnough out stale (47 :: 42 :: x ++ [0]))
    have ends : endOfComment (between out stale (47 :: 42 :: x ++ [0])).size (between out stale (47 :: 42 :: x ++ [0])) = _ :=
      (congrArg (endOfComment · _) size).trans (commentRuns whole (by decide))
    rw [endOfComment, lookFirst, okBind, if_pos rfl] at ends
    have outside : Outside ((between out (stale ++ 47 :: 42 :: x) [0]).skip 2) := by
      have all := nothingLeft out (stale ++ 47 :: 42 :: x ++ [0])
      unfold Outside between penAt at all
      unfold Outside Moving.skip between penAt
      simp only [List.length_append, List.length_cons, List.length_nil] at all ⊢
      omega
    rw [List.cons_append, List.cons_append] at ends ⊢
    rw [slashTurn lookSecond, if_neg (by decide), if_pos rfl, ends]
    exact minifyOutside outside fuel
  | @string t quoted =>
    obtain ⟨stale₁,copied₁⟩ := copyFirst out stale (t ++ [0]) 34
    obtain ⟨stale₂,ends⟩ := stringEnds quoted (Or.inl rfl) (sizeEnough (out ++ [34]) stale₁ (t ++ [0]))
    obtain ⟨stale₃,copied₂⟩ := copyFirst (out ++ [34] ++ t) stale₂ [] 0
    rw [List.cons_append, quoteTurn, copied₁, okBind, ends, okBind, copied₂]
    exact minifyOutside (nothingLeft _ stale₃) fuel
  | @escape t quoted =>
    obtain ⟨stale₁,copied₁⟩ := copyFirst out stale (t ++ [92,0]) 34
    obtain ⟨stale₂,n,_,runs⟩ := stringRuns quoted (sizeEnough (out ++ [34]) stale₁ (t ++ [92,0]))
    obtain ⟨stale₃,copied₂⟩ := copyFirst (out ++ [34] ++ t) stale₂ [0] 92
    obtain ⟨stale₄,copied₃⟩ := copyFirst (out ++ [34] ++ t ++ [92]) stale₃ [] 0
    have fault : endOfString n (between (out ++ [34] ++ t ++ [92] ++ [0]) stale₄ []) = .error .load := by
      cases n with
      | zero => rfl
      | succ n =>
        rw [endOfString, lookOutside (nothingLeft _ stale₄)]
        rfl
    rw [endOfString, lookFirst, okBind, if_pos (by decide), if_pos rfl, copied₂, okBind, copied₃, okBind, fault] at runs
    rw [List.cons_append, List.append_assoc, List.cons_append, List.nil_append, quoteTurn, copied₁, okBind, runs]
    rfl

theorem minifyBegins (s : List UInt8) : cJsonMinify (s ++ [0]) =
    (minify ((s ++ [0]).length + 1) (between [] [] (s ++ [0])) >>= fun m => CJsonPrint.Pen.block <$> m.into.stop) := rfl

theorem endedMinified {s : List UInt8} (ended : Pieces Ended s) : ∃ u behind, cJsonMinify (s ++ [0]) = .ok (u ++ 0 :: behind) := by
  obtain ⟨u,stale,same⟩ := piecesLead (fun _ => endedEnds) ended [] [] _ (Nat.lt_succ_self _)
  have stopped : (penAt u (stale ++ [0])).stop = .ok (penAt u (0 :: (stale ++ [0]).drop 1)) :=
    stopAt (by
      rw [List.length_append, List.length_singleton]
      omega)
  refine ⟨u,(stale ++ [0]).drop 1,?_⟩
  rw [minifyBegins, same, okBind]
  change CJsonPrint.Pen.block <$> (penAt u (stale ++ [0])).stop = _
  rw [stopped]
  rfl

theorem unendedLeaves {s : List UInt8} (unended : Pieces Unended s) : cJsonMinify (s ++ [0]) = .error .load := by
  rw [minifyBegins, piecesLead (fun _ => unendedFaults) unended [] [] _ (Nat.lt_succ_self _)]
  rfl

/-- A string in a block of its size is minified within the block exactly where each of its comments and strings has an end, and is
read past its zero byte exactly where one has none. -/
theorem minifyExact {s : List UInt8} (string : 0 ∉ s) :
    ((∃ u behind, cJsonMinify (s ++ [0]) = .ok (u ++ 0 :: behind)) ↔ Pieces Ended s) ∧
      (cJsonMinify (s ++ [0]) = .error .load ↔ Pieces Unended s) := by
  rcases endedOrNot s.length s (Nat.le_refl _) string with ended | unended
  · obtain ⟨u,behind,minified⟩ := endedMinified ended
    refine ⟨⟨fun _ => ended,fun _ => ⟨u,behind,minified⟩⟩,fun fault => ?_,unendedLeaves⟩
    cases minified.symm.trans fault
  · have fault := unendedLeaves unended
    refine ⟨⟨fun ⟨u,behind,minified⟩ => ?_,endedMinified⟩,fun _ => unended,fun _ => fault⟩
    cases minified.symm.trans fault

theorem minifyExactOpen : Pieces Unended [91,47,42,93] ∧ cJsonMinify ([91,47,42,93] ++ [0]) = .error .load := by
  have body : Body [42,93] := .cons (by decide) (by decide) (.cons (by decide) (by decide) .nil)
  have unended : Pieces Unended [91,47,42,93] := .byte (by decide) (.done (.comment body))
  exact ⟨unended,(minifyExact (by decide)).2.mpr unended⟩

end YunbaIot.CJsonBounds
