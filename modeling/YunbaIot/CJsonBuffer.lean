import YunbaIot.CJsonBlocks

/-! Printing into one buffer: it grows before a store would leave it, and what it holds is the text so far. -/
namespace YunbaIot.CJsonBuffer
open Block CJson Allocation CJsonPrint CJsonRendering CJsonComposing

section States
variable (s : Supply) (start : Ledger) (older : List Nat)

/- The text so far stands in front of the offset. -/
def Holds (t : List UInt8) (p : Printbuffer) (l : Ledger) : Prop := start.requests ≤ l.requests ∧
  ∃ b rest, p.buffer = some b ∧ b.bytes = t ++ rest ∧ p.offset = t.length ∧ l.held = b.id :: older

/- Behind the text so far there is one more, which the offset has not passed yet. -/
def Ready (t v : List UInt8) (p : Printbuffer) (l : Ledger) : Prop := start.requests ≤ l.requests ∧
  ∃ b rest, p.buffer = some b ∧ b.bytes = t ++ (v ++ 0 :: rest) ∧ t.length ≤ p.offset ∧ p.offset ≤ t.length + v.length ∧
    l.held = b.id :: older

/- The buffer could not grow and is gone. -/
def Lost (p : Printbuffer) (l : Ledger) : Prop := start.requests ≤ l.requests ∧ p.buffer = none ∧ l.held = older ∧
  Refused s start l

/- Null, and the buffer is gone, or a pointer -/
def Result (good : Option Nat → Printbuffer → Ledger → Prop) (r : Option Nat × Printbuffer) (l : Ledger) : Prop :=
  r.1 = none ∧ Lost s start older r.2 l ∨ r.1 ≠ none ∧ good r.1 r.2 l

def ValueResult (place : Nat) (t v : List UInt8) : Option Nat × Printbuffer → Ledger → Prop :=
  Result s start older fun ptr p l => ptr = some place ∧ Ready start older t v p l

/- The loop over the children ends like this where the last of them failed. -/
def LoopResult (t : List UInt8) : Option Nat × Printbuffer → Ledger → Prop :=
  Result s start older fun _ p l => Lost s start older p l ∨ Holds start older t p l

end States

theorem Holds.offset {start l : Ledger} {older : List Nat} {t : List UInt8} {p : Printbuffer} (holds : Holds start older t p l) :
    p.offset = t.length := by
  obtain ⟨_,_,_,_,_,offset,_⟩ := holds
  exact offset

theorem pow2gtEnough (x : Nat) : x ≤ pow2gt x := by
  have grows : ∀ x n : Nat, x ≤ x ||| x >>> n := fun x n => Nat.left_le_or
  unfold pow2gt
  have all := (grows (x - 1) 1).trans ((grows _ 2).trans ((grows _ 4).trans ((grows _ 8).trans (grows _ 16))))
  exact Nat.sub_le_iff_le_add.mp all

section Pieces
variable {s : Supply} {start l : Ledger} {older : List Nat} {t : List UInt8} {p : Printbuffer}

theorem ensureHolds (holds : Holds start older t p l) (needed : Nat) :
    Ends (ensure s needed p) l (Result s start older fun ptr q l' => ptr = some t.length ∧ start.requests ≤ l'.requests ∧
      ∃ b rest, q.buffer = some b ∧ b.bytes = t ++ rest ∧ needed ≤ rest.length ∧ q.offset = t.length ∧ l'.held = b.id :: older) := by
  obtain ⟨since,b,rest,buffer,bytes,offset,held⟩ := holds
  unfold ensure
  simp only [buffer]
  have length : b.bytes.length = t.length + rest.length := by rw [bytes, List.length_append]
  split
  · exact .pure (Or.inr ⟨nofun,by rw [offset],since,b,rest,buffer,bytes,by omega,offset,held⟩)
  · rename_i small
    have large := pow2gtEnough (needed + p.offset)
    refine .bind (CJsonBlocks.mallocOutcome since _) fun new l₁ ⟨later,got⟩ => ?_
    cases new with
    | none =>
      refine .bind (.freeLatest (got.1.trans held)) fun _ l₂ ⟨same,left⟩ => .pure ?_
      exact Or.inl ⟨rfl,by omega,rfl,left,got.2.later (by omega)⟩
    | some new =>
      have fits : 0 + b.bytes.length ≤ new.bytes.length := by
        rw [got.2]
        omega
      refine .bindLift (memcpyOk.mpr ⟨fits,rfl⟩) ?_
      have both : l₁.held = [new.id] ++ b.id :: older := by
        rw [got.1, held]
        rfl
      refine .bind (.free both) fun _ l₂ ⟨same,left⟩ => .pure (Or.inr ⟨nofun,by rw [offset],by omega,_,
        rest ++ new.bytes.drop (0 + b.bytes.length),rfl,?_,?_,offset,left⟩)
      · simp [bytes]
      · rw [List.length_append, List.length_drop, got.2]
        omega

theorem emitHolds (holds : Holds start older t p l) {leaf : Leaf} {piece : List UInt8} (writes : Writes leaf piece) (len : Nat) :
    Ends (emit s leaf len p) l (Result s start older fun ptr q l' => ptr = some t.length ∧ start.requests ≤ l'.requests ∧
      ∃ b rest, q.buffer = some b ∧ b.bytes = t ++ (piece ++ rest) ∧ q.offset = t.length + len ∧ l'.held = b.id :: older) := by
  refine .bind (ensureHolds holds leaf.needed) fun r l₁ result => ?_
  obtain ⟨ptr,q⟩ := r
  rcases result with ⟨null,lost⟩ | ⟨_,same,since,b,rest,buffer,bytes,enough,offset,held⟩
  · dsimp only at null lost
    subst null
    exact .pure (Or.inl ⟨rfl,lost⟩)
  · dsimp only at same buffer offset
    subst same
    refine .bindLift (derefOk.mpr buffer) ?_
    have composed := writes t rest.length ⟨b.bytes,t.length⟩ ⟨rest,rfl,by rw [bytes]; rfl⟩ enough
    refine composed.bindLift fun w ⟨rest',block⟩ => .pure (Or.inr ⟨nofun,rfl,since,_,rest',rfl,block,?_,held⟩)
    rw [offset]

theorem emitLost (lost : Lost s start older p l) (leaf : Leaf) (len : Nat) :
    Ends (emit s leaf len p) l fun r l' => r.1 = none ∧ Lost s start older r.2 l' := by
  have gone : emit s leaf len p l = .ok ((none,p),l) := by
    change (ensure s leaf.needed p >>= _) l = _
    unfold ensure
    rw [lost.2.1]
    rfl
  exact ⟨(none,p),l,gone,rfl,lost⟩

theorem updateLost (lost : Lost s start older p l) : Gives (update p) fun q => Lost s start older q l := by
  unfold update
  rw [lost.2.1]
  exact ⟨_,rfl,lost.1,rfl,lost.2.2⟩

theorem updateReady {v : List UInt8} (ready : Ready start older t v p l) (nonzero : 0 ∉ v) :
    Gives (update p) fun q => Holds start older (t ++ v) q l := by
  obtain ⟨since,b,rest,buffer,bytes,low,high,held⟩ := ready
  have behind : b.bytes.drop p.offset = v.drop (p.offset - t.length) ++ 0 :: rest := by
    rw [bytes, List.drop_append, List.drop_eq_nil_of_le low, List.nil_append, List.drop_append_of_le_length (by omega)]
  have read : cString (b.bytes.drop p.offset) = .ok (v.drop (p.offset - t.length)) := by
    rw [behind]
    exact cStringOk.mpr ⟨by simp,textOf (fun zero => nonzero (List.mem_of_mem_drop zero)) rest⟩
  have passed : update p = .ok { p with offset := p.offset + (v.drop (p.offset - t.length)).length } := by
    unfold update
    rw [buffer]
    exact mapOk.mpr ⟨_,read,rfl⟩
  refine ⟨_,passed,since,b,0 :: rest,buffer,by rw [bytes, List.append_assoc],?_,held⟩
  dsimp only
  rw [List.length_drop, List.length_append]
  omega

/- A text is behind the offset, which passes it, unless the buffer is gone. -/
theorem updateResult {r : Option Nat × Printbuffer} {place : Nat} {v : List UInt8}
    (result : ValueResult s start older place t v r l) (nonzero : 0 ∉ v) :
    Gives (update r.2) fun q => Lost s start older q l ∨ Holds start older (t ++ v) q l := by
  rcases result with ⟨_,gone⟩ | ⟨_,_,ready⟩
  · exact (updateLost gone).mono fun q => Or.inl
  · exact (updateReady ready nonzero).mono fun q => Or.inr

theorem unlessFailedEnds {m : Step (Option Nat × Printbuffer)} {next : Printbuffer → Step (Option Nat × Printbuffer)}
    {good : Option Nat → Printbuffer → Ledger → Prop} {post : Option Nat × Printbuffer → Ledger → Prop}
    (first : Ends m l (Result s start older good)) (lost : ∀ q l', Lost s start older q l' → post (none,q) l')
    (follows : ∀ ptr q l', good ptr q l' → Ends (next q) l' post) : Ends (unlessFailed m next) l post := by
  refine .bind first fun r l' result => ?_
  obtain ⟨ptr,q⟩ := r
  rcases result with ⟨null,gone⟩ | ⟨some,there⟩
  · dsimp only at null gone
    subst null
    exact .pure (lost q l' gone)
  · cases ptr with
    | none => exact absurd rfl some
    | some ptr => exact follows _ q l' there

/- Where the buffer is gone the next call says so. -/
theorem goneFails (gone : Lost s start older p l) (leaf : Leaf) (len : Nat)
    {next : Printbuffer → Step (Option Nat × Printbuffer)} {post : Option Nat × Printbuffer → Ledger → Prop}
    (lost : ∀ q l', Lost s start older q l' → post (none,q) l') : Ends (unlessFailed (emit s leaf len p) next) l post := by
  have first : Ends (emit s leaf len p) l (Result s start older fun _ _ _ => False) :=
    (emitLost gone leaf len).mono fun r l' => Or.inl
  exact unlessFailedEnds first lost fun _ _ _ => nofun

/- A text of its own, in front of which the offset stays -/
theorem leafBuffered (holds : Holds start older t p l) {leaf : Leaf} {v : List UInt8} (writes : Writes leaf (v ++ [0])) :
    Ends (emit s leaf 0 p) l (ValueResult s start older t.length t v) := by
  refine (emitHolds holds writes 0).mono fun r l' result => ?_
  rcases result with lost | ⟨some,same,since,b,rest,buffer,bytes,offset,held⟩
  · exact Or.inl lost
  · refine Or.inr ⟨some,same,since,b,rest,buffer,?_,by omega,by omega,held⟩
    rw [bytes, List.append_assoc]
    rfl

/- A piece that the offset passes -/
theorem pieceBuffered (holds : Holds start older t p l) {leaf : Leaf} {v tail : List UInt8} (writes : Writes leaf (v ++ tail)) :
    Ends (emit s leaf v.length p) l (Result s start older fun _ q l' => Holds start older (t ++ v) q l') := by
  refine (emitHolds holds writes v.length).mono fun r l' result => ?_
  rcases result with lost | ⟨some,_,since,b,rest,buffer,bytes,offset,held⟩
  · exact Or.inl lost
  · refine Or.inr ⟨some,since,b,tail ++ rest,buffer,?_,?_,held⟩
    · simp [bytes]
    · rw [offset, List.length_append]

theorem separatorBuffered (holds : Holds start older t p l) (v : List UInt8) {len : Nat} (same : len = v.length) :
    Ends (emit s (separator v) len p) l (Result s start older fun _ q l' => Holds start older (t ++ v) q l') := by
  subst same
  exact pieceBuffered holds (copiedWrites v)

theorem bareBuffered (holds : Holds start older t p l) (v : List UInt8) {len : Nat} (same : len = v.length) :
    Ends (emit s (bare v) len p) l (Result s start older fun _ q l' => Holds start older (t ++ v) q l') := by
  subst same
  have writes : Writes (bare v) (v ++ []) := by
    rw [List.append_nil]
    exact bareWrites v
  exact pieceBuffered holds writes

end Pieces

section Trees
variable {s : Supply} {fmt : Bool} {start : Ledger} {older : List Nat}

/- The brackets, in front of and behind what the loop has put between them -/
theorem closeBuffered {before t v close : List UInt8} {p : Printbuffer} {l : Ledger} {offset : Nat}
    (state : Lost s start older p l ∨ Holds start older (t ++ before) p l) (whole : v = before ++ close) :
    Ends (unlessFailed (emit s (separator close) 0 p) fun q => pure (some offset,q)) l (ValueResult s start older offset t v) := by
  have lost : ∀ q l', Lost s start older q l' → ValueResult s start older offset t v (none,q) l' :=
    fun q l' gone => Or.inl ⟨rfl,gone⟩
  rcases state with gone | holds
  · exact goneFails gone _ _ lost
  · refine unlessFailedEnds (leafBuffered holds (copiedWrites close)) lost fun ptr q l' ⟨_,since,b,rest,buffer,bytes,low,high,held⟩ => ?_
    rw [List.length_append] at low high
    refine .pure (Or.inr ⟨nofun,rfl,since,b,rest,buffer,?_,?_,?_,held⟩)
    · rw [bytes, whole]
      simp
    · exact Nat.le_trans (Nat.le_add_right _ _) low
    · rw [whole, List.length_append, ← Nat.add_assoc]
      exact high

/- What is given back for a text behind offset bytes -/
def returned (fmt : Bool) : Item → Nat → Nat → Nat
  | .object (_ :: _), depth, offset => if fmt then depth else offset
  | _, _, offset => offset

mutual

theorem valueBuffered : (item : Item) → (depth : Nat) → Printable item → {t : List UInt8} → {p : Printbuffer} → {l : Ledger} →
    Holds start older t p l →
    Ends (printValueBuffered s fmt item depth p) l
      (ValueResult s start older (returned fmt item depth t.length) t (rendered fmt item depth))
  | .null, _, _, _, _, _, holds => leafBuffered holds (copiedWrites literalNull)
  | .false, _, _, _, _, _, holds => leafBuffered holds (copiedWrites literalFalse)
  | .true, _, _, _, _, _, holds => leafBuffered holds (copiedWrites literalTrue)
  | .number _, _, printable, _, _, _, holds => leafBuffered holds (printNumberWrites printable)
  | .string _, _, printable, _, _, _, holds => leafBuffered holds (printStringPtrWrites printable)
  | .array [], _, _, _, _, _, holds => leafBuffered holds (copiedWrites [91,93])
  | .array (item :: child), depth, printable, t, p, l, holds => by
    have lost : ∀ q l', Lost s start older q l' →
        ValueResult s start older t.length t (rendered fmt (.array (item :: child)) depth) (none,q) l' :=
      fun q l' gone => Or.inl ⟨rfl,gone⟩
    refine unlessFailedEnds (bareBuffered holds [91] rfl) lost fun _ q l₁ holds₁ => ?_
    refine unlessFailedEnds (elementsBuffered (item :: child) (depth + 1) printable holds₁) lost fun _ q l₂ state => ?_
    rw [List.append_assoc] at state
    rw [holds.offset]
    exact closeBuffered state (by rw [rendered, List.append_assoc]; rfl)
  | .object [], depth, _, _, _, _, holds => leafBuffered holds (emptyObjectWrites depth fmt)
  | .object (m :: child), depth, printable, t, p, l, holds => by
    have lost : ∀ q l', Lost s start older q l' →
        ValueResult s start older (if fmt then depth else t.length) t (rendered fmt (.object (m :: child)) depth) (none,q) l' :=
      fun q l' gone => Or.inl ⟨rfl,gone⟩
    refine unlessFailedEnds (separatorBuffered holds (123 :: whenFmt fmt [10]) ?_) lost fun _ q l₁ holds₁ => ?_
    · unfold whenFmt
      split <;> rfl
    refine unlessFailedEnds (membersBuffered (m :: child) (depth + 1) printable holds₁) lost fun _ q l₂ state => ?_
    rw [List.append_assoc] at state
    rw [holds.offset]
    refine closeBuffered state ?_
    rw [rendered]
    simp [whenFmt]

theorem elementsBuffered : (child : List Item) → (depth : Nat) → PrintableElements child → {t : List UInt8} → {p : Printbuffer} →
    {l : Ledger} → Holds start older t p l →
    Ends (printElementsBuffered s fmt child depth p) l (LoopResult s start older (t ++ renderedElements fmt child depth))
  | [], _, _, _, _, _, holds => .pure (Or.inr ⟨nofun,Or.inr (by rwa [renderedElements, List.append_nil])⟩)
  | item :: child, depth, printable, t, p, l, holds => by
    have lost : ∀ q l', Lost s start older q l' →
        LoopResult s start older (t ++ renderedElements fmt (item :: child) depth) (none,q) l' := fun q l' gone => Or.inl ⟨rfl,gone⟩
    have nonzero := renderedNonzero fmt item depth printable.1
    refine .bind (valueBuffered item depth printable.1 holds) fun r l₁ result => ?_
    refine (updateResult result nonzero).bindLift fun q state => ?_
    cases child with
    | nil =>
      have goesOn : Ends (pure (some q.offset,q)) l₁ (LoopResult s start older (t ++ rendered fmt item depth)) :=
        .pure (Or.inr ⟨Option.some_ne_none _,state⟩)
      refine unlessFailedEnds goesOn lost fun _ q l₂ state => .pure (Or.inr ⟨Option.some_ne_none _,?_⟩)
      simpa [renderedElements] using state
    | cons next child =>
      rcases state with gone | holds₁
      · exact goneFails gone _ _ lost
      · refine unlessFailedEnds (separatorBuffered holds₁ (44 :: whenFmt fmt [32]) ?_) lost fun _ q l₂ holds₂ => ?_
        · unfold whenFmt
          split <;> rfl
        have others := elementsBuffered (next :: child) depth printable.2 holds₂
        rw [renderedElements]
        simp only [List.append_assoc, List.cons_append, List.isEmpty_cons, Bool.false_eq_true, if_false] at others ⊢
        exact others

theorem membersBuffered : (child : List (List UInt8 × Item)) → (depth : Nat) → PrintableMembers child → {t : List UInt8} →
    {p : Printbuffer} → {l : Ledger} → Holds start older t p l →
    Ends (printMembersBuffered s fmt child depth p) l (LoopResult s start older (t ++ renderedMembers fmt child depth))
  | [], _, _, _, _, _, holds => .pure (Or.inr ⟨nofun,Or.inr (by rwa [renderedMembers, List.append_nil])⟩)
  | (string,item) :: child, depth, printable, t, p, l, holds => by
    obtain ⟨cString,first,rest⟩ := printable
    have lost : ∀ q l', Lost s start older q l' →
        LoopResult s start older (t ++ renderedMembers fmt ((string,item) :: child) depth) (none,q) l' :=
      fun q l' gone => Or.inl ⟨rfl,gone⟩
    have tabs : Ends (if fmt then emit s (bare (List.replicate depth 9)) depth p else pure (some p.offset,p)) l
        (Result s start older fun _ q l' => Holds start older (t ++ whenFmt fmt (List.replicate depth 9)) q l') := by
      unfold whenFmt
      cases fmt with
      | true => exact bareBuffered holds _ (List.length_replicate).symm
      | false => exact .pure (Or.inr ⟨nofun,by simpa using holds⟩)
    refine unlessFailedEnds tabs lost fun _ q l₁ holds₁ => ?_
    refine .bind (leafBuffered holds₁ (printStringPtrWrites cString)) fun r l₂ result => ?_
    refine (updateResult result (quotedNonzero cString)).bindLift fun q state => ?_
    rcases state with gone | holds₂
    · exact goneFails gone _ _ lost
    refine unlessFailedEnds (bareBuffered holds₂ (58 :: whenFmt fmt [9]) ?_) lost fun _ q l₃ holds₃ => ?_
    · unfold whenFmt
      split <;> rfl
    refine .bind (valueBuffered item depth first holds₃) fun r l₄ result => ?_
    refine (updateResult result (renderedNonzero fmt item depth first)).bindLift fun q state => ?_
    rcases state with gone | holds₄
    · exact goneFails gone _ _ lost
    refine unlessFailedEnds (separatorBuffered holds₄ ((if child.isEmpty then [] else [44]) ++ whenFmt fmt [10]) ?_) lost
      fun _ q l₅ holds₅ => ?_
    · unfold whenFmt
      split <;> split <;> rfl
    have others := membersBuffered child depth rest holds₅
    rw [renderedMembers]
    simp only [List.append_assoc, List.cons_append] at others ⊢
    exact others

end

end Trees

end YunbaIot.CJsonBuffer
