import YunbaIot.CJsonComposing

/-! Printing each text into a block of its own: the result is null only where a request was refused, and every
block but the result is given back. -/
namespace YunbaIot.CJsonBlocks
open Block CJson Allocation CJsonPrint CJsonRendering CJsonComposing

/- A block that holds a text -/
def Text (t : List UInt8) (c : Chunk) : Prop := ∃ rest, c.bytes = t ++ 0 :: rest

section Outcomes
variable (s : Supply) (start : Ledger) (older : List Nat)

/- Besides the blocks held before there is the new one, or none. -/
def Outcome (good : Chunk → Prop) (r : Option Chunk) (l : Ledger) : Prop := start.requests ≤ l.requests ∧ match r with
  | none => l.held = older ∧ Refused s start l
  | some c => l.held = c.id :: older ∧ good c

def Printed (t : List UInt8) : Option Chunk → Ledger → Prop := Outcome s start older (Text t)

end Outcomes

section Pieces
variable {s : Supply} {start l : Ledger} (since : start.requests ≤ l.requests)

include since

theorem mallocOutcome (size : Nat) : Ends (malloc s size) l (Outcome s start l.held fun c => c.bytes.length = size) := by
  refine .malloc (fun l' later held refused => ?_) fun c l' later held length => ?_
  · exact ⟨by omega,held,refused.earlier since⟩
  · exact ⟨by omega,held,length⟩

theorem leafPrinted {leaf : Leaf} {t : List UInt8} (writes : Writes leaf (t ++ [0])) :
    Ends (leaf.print s) l (Printed s start l.held t) := by
  refine .bind (mallocOutcome since leaf.needed) fun r l' ⟨later,got⟩ => ?_
  cases r with
  | none => exact .pure ⟨later,got⟩
  | some out =>
    obtain ⟨held,length⟩ := got
    have composed := writes [] out.bytes.length ⟨out.bytes,0⟩ ⟨out.bytes,rfl,rfl⟩ (Nat.le_of_eq length.symm)
    refine composed.bindLift fun w ⟨rest,block⟩ => .pure ?_
    exact ⟨later,held,rest,by simpa using block⟩

end Pieces

/- What strlen and strcpy read of it -/
theorem Text.read {t : List UInt8} {c : Chunk} (text : Text t c) (nonzero : 0 ∉ t) : cString c.bytes = .ok t := by
  obtain ⟨rest,same⟩ := text
  rw [same]
  exact cStringOk.mpr ⟨by simp,textOf nonzero rest⟩

section Arrays
variable {s : Supply} {start : Ledger} {older newer : List Nat} {fmt : Bool} {child : List Item} {depth : Nat}

/- The blocks of the children -/
def ElementTexts (fmt : Bool) (depth : Nat) (child : List Item) (cs : List Chunk) : Prop :=
  List.Forall₂ (fun item c => Text (rendered fmt item depth) c) child cs

theorem isEmptyTexts {α β : Type} {r : α → β → Prop} {as : List α} {bs : List β} (texts : List.Forall₂ r as bs) :
    as.isEmpty = bs.isEmpty := by
  cases texts <;> rfl

/- The comma behind an entry, where another one follows -/
theorem commaWrote {last : Bool} {before : List UInt8} {n : Nat} {w : Pen} (wrote : Wrote before n w)
    (fits : (if last then [] else 44 :: whenFmt fmt [32]).length < n) :
    Gives (if last then .ok w else w.put (44 :: if fmt then [32] else []) >>= Pen.stop)
      (Wrote (before ++ if last then [] else 44 :: whenFmt fmt [32])
        (n - (if last then [] else 44 :: whenFmt fmt [32]).length)) := by
  cases last with
  | true =>
    refine ⟨w,rfl,?_⟩
    rwa [if_pos rfl, List.append_nil]
  | false =>
    simp only [Bool.false_eq_true, if_false] at fits ⊢
    exact (wrote.put (44 :: whenFmt fmt [32]) (by omega)).bind fun w wrote =>
      (wrote.stop (by omega)).mono fun w => Stopped.wrote

theorem joinElementsWrote {cs : List Chunk} (texts : ElementTexts fmt depth child cs) (printable : PrintableElements child)
    {before : List UInt8} {n : Nat} {w : Pen} {l : Ledger} (wrote : Wrote before n w)
    (fits : (renderedElements fmt child depth).length < n)
    (held : l.held = newer ++ ((cs.map Chunk.id).reverse ++ older)) :
    Ends (joinElements fmt (cs.map some) w) l fun w' l' => l'.requests = l.requests ∧ l'.held = newer ++ older ∧
      Wrote (before ++ renderedElements fmt child depth) (n - (renderedElements fmt child depth).length) w' := by
  unfold ElementTexts at texts
  induction texts generalizing before n w l with
  | nil =>
    refine .pure ⟨rfl,held,?_⟩
    rwa [renderedElements, List.append_nil]
  | @cons item c child cs text texts ih =>
    have nonzero := renderedNonzero fmt item depth printable.1
    have empty : (cs.map some).isEmpty = child.isEmpty := by rw [List.isEmpty_map, isEmptyTexts texts]
    rw [renderedElements, List.length_append, List.length_append] at fits
    rw [List.map_cons]
    unfold joinElements
    refine .bindLift (a := c) rfl (.bindLift (text.read nonzero) ?_)
    refine (wrote.put _ (by omega)).bindLift fun w wrote => ?_
    rw [empty]
    refine (commaWrote wrote (by omega)).bindLift fun w wrote => ?_
    have last : l.held = (newer ++ (cs.map Chunk.id).reverse) ++ c.id :: older := by simp [held]
    refine .bind (.free last) fun _ l' ⟨same,left⟩ => ?_
    refine (ih printable.2 wrote (by omega) (by rw [left, List.append_assoc])).mono fun w' l'' ⟨same',left',wrote'⟩ => ?_
    refine ⟨same'.trans same,left',wrote'.cast ?_ ?_⟩
    · simp only [renderedElements, List.append_assoc]
    · simp only [renderedElements, List.length_append]
      omega

/- What the loop over the children leaves -/
def Collected {α : Type} (s : Supply) (start : Ledger) (older : List Nat) (options : List α → List (Option Chunk))
    (full : List α → Nat → Prop) (r : List α × Nat × Bool) (l : Ledger) : Prop :=
  start.requests ≤ l.requests ∧ l.held = (((options r.1).filterMap id).map Chunk.id).reverse ++ older ∧
    if r.2.2 then Refused s start l else full r.1 r.2.1

def FullElements (fmt : Bool) (depth : Nat) (child : List Item) (len : Nat) (all : List (Option Chunk)) (len' : Nat) : Prop :=
  ∃ cs, all = cs.map some ∧ ElementTexts fmt depth child cs ∧ len + (renderedElements fmt child depth).length ≤ len'

theorem someIds (cs : List Chunk) : (cs.map some).filterMap id = cs := by simp

/- After a failure the entries and their array are given back. -/
theorem failFrees {entries : Chunk} {all : List (Option Chunk)} {t : List UInt8} {l : Ledger}
    (since : start.requests ≤ l.requests) (refused : Refused s start l)
    (held : l.held = ((all.filterMap id).map Chunk.id).reverse ++ entries.id :: older) :
    Ends (freeSome all >>= fun _ => free entries >>= fun _ => pure none) l (Printed s start older t) := by
  refine .bind (.freeAll held) fun _ l₁ ⟨same₁,left₁⟩ => ?_
  refine .bind (.freeLatest left₁) fun _ l₂ ⟨same₂,left₂⟩ => .pure ?_
  exact ⟨by omega,left₂,refused.later (by omega)⟩

theorem composeArrayPrinted {entries : Chunk} {r : List (Option Chunk) × Nat × Bool} {l : Ledger}
    (printable : PrintableElements child)
    (collected : Collected s start (entries.id :: older) id (FullElements fmt depth child 5) r l) :
    Ends (composeArray s fmt entries r.1 r.2.1 r.2.2) l
      (Printed s start older (91 :: (renderedElements fmt child depth ++ [93]))) := by
  obtain ⟨all,len,fail⟩ := r
  obtain ⟨since,held,full⟩ := collected
  unfold composeArray
  cases fail with
  | true =>
    have failed : Ends (pure none) l fun (out : Option Chunk) l' => out = none ∧ l' = l := .pure ⟨rfl,rfl⟩
    refine .bind failed fun out l' ⟨nothing,same⟩ => ?_
    subst nothing same
    exact failFrees since full held
  | false =>
    obtain ⟨cs,rfl,texts,enough⟩ := full
    dsimp only at enough
    refine .bind (mallocOutcome since len) fun out l' ⟨later,got⟩ => ?_
    cases out with
    | none => exact failFrees later got.2 (got.1.trans held)
    | some out =>
      obtain ⟨held',length⟩ := got
      dsimp only [id] at held
      rw [someIds] at held
      have begun : Wrote [] len ⟨out.bytes,0⟩ := ⟨out.bytes,length,rfl⟩
      have bracket : Gives (Pen.put [91] ⟨out.bytes,0⟩ >>= Pen.stop) (Wrote [91] (len - 1)) :=
        (begun.put [91] (by rw [List.length_singleton]; omega)).bind fun w wrote =>
          (wrote.stop (by rw [List.length_singleton]; omega)).mono fun w => Stopped.wrote
      refine bracket.bindLift fun w wrote => ?_
      have held'' : l'.held = [out.id] ++ ((cs.map Chunk.id).reverse ++ entries.id :: older) := by rw [held', held]; rfl
      refine .bind (joinElementsWrote texts printable wrote (by omega) held'') fun w l'' ⟨same,left,wrote⟩ => ?_
      refine .bind (.free left) fun _ l₃ ⟨same',left'⟩ => ?_
      refine (wrote.put [93,0] (by simp only [List.length_cons, List.length_nil]; omega)).bindLift fun w ⟨room,_,here⟩ => ?_
      refine .pure ⟨by omega,left',room,?_⟩
      simp [here, penAt]

end Arrays

section Objects
variable {s : Supply} {start : Ledger} {older newer : List Nat} {fmt : Bool} {child : List (List UInt8 × Item)} {depth : Nat}

/- The blocks of the names and the values -/
def MemberTexts (fmt : Bool) (depth : Nat) (child : List (List UInt8 × Item)) (cs : List (Chunk × Chunk)) : Prop :=
  List.Forall₂ (fun m c => Text (quoted m.1) c.1 ∧ Text (rendered fmt m.2 depth) c.2) child cs

def both {α : Type} (m : α × α) : List α := [m.1,m.2]
def someBoth (m : Chunk × Chunk) : Option Chunk × Option Chunk := (some m.1,some m.2)

/- What stands behind a value: a comma, where another member follows, and the end of the line -/
theorem lineWrote {last : Bool} {before : List UInt8} {n : Nat} {w : Pen} (wrote : Wrote before n w)
    (fits : ((if last then [] else [44]) ++ whenFmt fmt [10]).length < n) :
    Gives (w.put (if last then [] else [44]) >>= Pen.put (if fmt then [10] else []) >>= Pen.stop)
      (Wrote (before ++ ((if last then [] else [44]) ++ whenFmt fmt [10]))
        (n - ((if last then [] else [44]) ++ whenFmt fmt [10]).length)) := by
  rw [List.length_append] at fits ⊢
  refine Gives.bind (Gives.bind (wrote.put _ (by omega)) fun w wrote => wrote.put (whenFmt fmt [10]) (by omega))
    fun w wrote => (wrote.stop (by omega)).mono fun w stopped => ?_
  have end' := stopped.wrote
  rwa [List.append_assoc, Nat.sub_sub] at end'

theorem joinMembersWrote {cs : List (Chunk × Chunk)} (texts : MemberTexts fmt depth child cs) (printable : PrintableMembers child)
    {before : List UInt8} {n : Nat} {w : Pen} {l : Ledger} (wrote : Wrote before n w)
    (fits : (renderedMembers fmt child depth).length < n)
    (held : l.held = newer ++ (((cs.flatMap both).map Chunk.id).reverse ++ older)) :
    Ends (joinMembers fmt depth (cs.map someBoth) w) l fun w' l' => l'.requests = l.requests ∧ l'.held = newer ++ older ∧
      Wrote (before ++ renderedMembers fmt child depth) (n - (renderedMembers fmt child depth).length) w' := by
  unfold MemberTexts at texts
  induction texts generalizing before n w l with
  | nil =>
    refine .pure ⟨rfl,held,?_⟩
    rwa [renderedMembers, List.append_nil]
  | @cons m c child cs text texts ih =>
    obtain ⟨string,item⟩ := m
    obtain ⟨cString,first,others⟩ := printable
    have empty : (cs.map someBoth).isEmpty = child.isEmpty := by rw [List.isEmpty_map, isEmptyTexts texts]
    simp only [renderedMembers, List.length_append, List.length_cons] at fits
    rw [List.map_cons]
    unfold joinMembers
    refine .bindLift (a := c.1) rfl (.bindLift (a := c.2) rfl ?_)
    refine (wrote.put (whenFmt fmt (List.replicate depth 9)) (by omega)).bindLift fun w wrote => ?_
    refine .bindLift (text.1.read (quotedNonzero cString)) ?_
    have colon : Gives (w.put (quoted string) >>= Pen.put (58 :: whenFmt fmt [9])) _ :=
      (wrote.put _ (by omega)).bind fun w wrote => wrote.put _ (by rw [List.length_cons]; omega)
    refine colon.bindLift fun w wrote => .bindLift (text.2.read (renderedNonzero fmt item depth first)) ?_
    rw [List.length_cons] at wrote
    have value : Gives (w.put (rendered fmt item depth) >>= Pen.stop) _ :=
      (wrote.put _ (by omega)).bind fun w wrote => (wrote.stop (by omega)).mono fun w => Stopped.wrote
    refine value.bindLift fun w wrote => ?_
    rw [empty]
    refine (lineWrote wrote (by rw [List.length_append]; omega)).bindLift fun w wrote => ?_
    have name : l.held = (newer ++ ((cs.flatMap both).map Chunk.id).reverse ++ [c.2.id]) ++ c.1.id :: older := by
      simp [held, both]
    refine .bind (.free name) fun _ l' ⟨same,left⟩ => ?_
    have entry : l'.held = (newer ++ ((cs.flatMap both).map Chunk.id).reverse) ++ c.2.id :: older := by simp [left]
    refine .bind (.free entry) fun _ l'' ⟨same',left'⟩ => ?_
    refine (ih others wrote ?_ (by rw [left', List.append_assoc])).mono fun w' l₃ ⟨same'',left'',wrote'⟩ => ?_
    · simp only [List.length_append]
      omega
    · refine ⟨same''.trans (same'.trans same),left'',wrote'.cast ?_ ?_⟩
      · simp only [renderedMembers, List.append_assoc, List.cons_append]
      · simp only [renderedMembers, List.length_append, List.length_cons]
        omega

def FullMembers (fmt : Bool) (depth : Nat) (child : List (List UInt8 × Item)) (len : Nat)
    (all : List (Option Chunk × Option Chunk)) (len' : Nat) : Prop :=
  ∃ cs, all = cs.map someBoth ∧ MemberTexts fmt depth child cs ∧ len + (renderedMembers fmt child depth).length ≤ len'

def options (all : List (Option Chunk × Option Chunk)) : List (Option Chunk) := all.flatMap both

theorem bothIds (cs : List (Chunk × Chunk)) : (options (cs.map someBoth)).filterMap id = cs.flatMap both := by
  induction cs with
  | nil => rfl
  | cons c cs ih =>
    have rest : options ((c :: cs).map someBoth) = some c.1 :: some c.2 :: options (cs.map someBoth) := rfl
    rw [rest]
    change c.1 :: c.2 :: (options (cs.map someBoth)).filterMap id = c.1 :: c.2 :: cs.flatMap both
    rw [ih]

/- Both arrays are given back behind the blocks, names first. -/
theorem failFreesBoth {entries names : Chunk} {all : List (Option Chunk)} {t : List UInt8} {l : Ledger}
    (since : start.requests ≤ l.requests) (refused : Refused s start l)
    (held : l.held = ((all.filterMap id).map Chunk.id).reverse ++ names.id :: entries.id :: older) :
    Ends (freeSome all >>= fun _ => free names >>= fun _ => free entries >>= fun _ => pure none) l
      (Printed s start older t) := by
  refine .bind (.freeAll held) fun _ l₁ ⟨same₁,left₁⟩ => ?_
  refine .bind (.freeLatest left₁) fun _ l₂ ⟨same₂,left₂⟩ => ?_
  refine .bind (.freeLatest left₂) fun _ l₃ ⟨same₃,left₃⟩ => .pure ?_
  exact ⟨by omega,left₃,refused.later (by omega)⟩

theorem composeObjectPrinted {entries names : Chunk} {r : List (Option Chunk × Option Chunk) × Nat × Bool} {l : Ledger}
    (printable : PrintableMembers child) (collected : Collected s start (names.id :: entries.id :: older) options
      (FullMembers fmt depth child (7 + if fmt then depth else 0)) r l) :
    Ends (composeObject s fmt depth entries names r.1 r.2.1 r.2.2) l (Printed s start older
      (123 :: (whenFmt fmt [10] ++ (renderedMembers fmt child depth ++ (whenFmt fmt (List.replicate (depth - 1) 9) ++ [125]))))) := by
  obtain ⟨all,len,fail⟩ := r
  obtain ⟨since,held,full⟩ := collected
  unfold composeObject
  cases fail with
  | true =>
    have failed : Ends (pure none) l fun (out : Option Chunk) l' => out = none ∧ l' = l := .pure ⟨rfl,rfl⟩
    refine .bind failed fun out l' ⟨nothing,same⟩ => ?_
    subst nothing same
    exact failFreesBoth since full held
  | false =>
    obtain ⟨cs,rfl,texts,enough⟩ := full
    dsimp only at enough
    refine .bind (mallocOutcome since len) fun out l₁ ⟨later,got⟩ => ?_
    cases out with
    | none => exact failFreesBoth later got.2 (got.1.trans held)
    | some out =>
      obtain ⟨held₁,length⟩ := got
      dsimp only at held
      rw [bothIds] at held
      have newline : (whenFmt fmt [10]).length ≤ 1 := by
        unfold whenFmt
        split <;> simp
      have tabs : (whenFmt fmt (List.replicate (depth - 1) 9)).length ≤ if fmt then depth else 0 := by
        unfold whenFmt
        split
        · rw [List.length_replicate]
          omega
        · exact Nat.le_refl 0
      have begun : Wrote [] len ⟨out.bytes,0⟩ := ⟨out.bytes,length,rfl⟩
      have brace : Gives (Pen.put (123 :: whenFmt fmt [10]) ⟨out.bytes,0⟩ >>= Pen.stop) _ :=
        (begun.put _ (by rw [List.length_cons]; omega)).bind fun w wrote =>
          (wrote.stop (by rw [List.length_cons]; omega)).mono fun w => Stopped.wrote
      refine brace.bindLift fun w wrote => ?_
      rw [List.length_cons] at wrote
      have held₂ : l₁.held = [out.id] ++ (((cs.flatMap both).map Chunk.id).reverse ++ names.id :: entries.id :: older) := by
        rw [held₁, held]
        rfl
      refine .bind (joinMembersWrote texts printable wrote (by omega) held₂) fun w l₂ ⟨same₂,left₂,wrote⟩ => ?_
      refine .bind (.free left₂) fun _ l₃ ⟨same₃,left₃⟩ => ?_
      refine .bind (.free left₃) fun _ l₄ ⟨same₄,left₄⟩ => ?_
      have last : Gives (w.put (whenFmt fmt (List.replicate (depth - 1) 9)) >>= Pen.put [125,0]) _ :=
        (wrote.put _ (by omega)).bind fun w wrote => wrote.put [125,0] (by
          simp only [List.length_cons, List.length_nil]
          omega)
      refine last.bindLift fun w ⟨room,_,here⟩ => .pure ⟨by omega,left₄,room,?_⟩
      simp [here, penAt]

end Objects

/-! Trees -/

section Trees
variable {s : Supply} {fmt : Bool}

mutual

theorem valuePrinted : (item : Item) → (depth : Nat) → Printable item → {start l : Ledger} → start.requests ≤ l.requests →
    Ends (printValue s fmt item depth) l (Printed s start l.held (rendered fmt item depth))
  | .null, _, _, _, _, since => leafPrinted since (copiedWrites literalNull)
  | .false, _, _, _, _, since => leafPrinted since (copiedWrites literalFalse)
  | .true, _, _, _, _, since => leafPrinted since (copiedWrites literalTrue)
  | .number _, _, printable, _, _, since => leafPrinted since (printNumberWrites printable)
  | .string _, _, printable, _, _, since => leafPrinted since (printStringPtrWrites printable)
  | .array [], _, _, _, _, since => leafPrinted since (copiedWrites [91,93])
  | .array (item :: child), depth, printable, start, l, since => by
    refine .bind (mallocOutcome since _) fun entries l₁ ⟨later,got⟩ => ?_
    cases entries with
    | none => exact .pure ⟨later,got⟩
    | some entries =>
      refine .bind (elementsPrinted (item :: child) (depth + 1) 5 printable later) fun r l₂ collected => ?_
      rw [got.1] at collected
      exact composeArrayPrinted printable collected
  | .object [], depth, _, _, _, since => leafPrinted since (emptyObjectWrites depth fmt)
  | .object (m :: child), depth, printable, start, l, since => by
    refine .bind (mallocOutcome since _) fun entries l₁ ⟨later₁,got₁⟩ => ?_
    cases entries with
    | none => exact .pure ⟨later₁,got₁⟩
    | some entries =>
      refine .bind (mallocOutcome later₁ _) fun names l₂ ⟨later₂,got₂⟩ => ?_
      cases names with
      | none =>
        refine .bind (.freeLatest (got₂.1.trans got₁.1)) fun _ l₃ ⟨same,left⟩ => .pure ?_
        exact ⟨by omega,left,got₂.2.later (by omega)⟩
      | some names =>
        refine .bind (membersPrinted (m :: child) (depth + 1) _ printable later₂) fun r l₃ collected => ?_
        rw [got₂.1, got₁.1] at collected
        exact composeObjectPrinted printable collected

theorem elementsPrinted : (child : List Item) → (depth len : Nat) → PrintableElements child → {start l : Ledger} →
    start.requests ≤ l.requests → Ends (printElements s fmt child depth len) l
      (Collected s start l.held id (FullElements fmt depth child len))
  | [], _, len, _, _, _, since => .pure ⟨since,rfl,[],rfl,.nil,Nat.le_refl len⟩
  | item :: child, depth, len, printable, start, l, since => by
    refine .bind (valuePrinted item depth printable.1 since) fun ret l₁ ⟨later₁,got₁⟩ => ?_
    cases ret with
    | none => exact .pure ⟨later₁,got₁⟩
    | some ret =>
      refine .bindLift (got₁.2.read (renderedNonzero fmt item depth printable.1)) ?_
      refine .bind (elementsPrinted child depth _ printable.2 later₁) fun r l₂ ⟨later₂,held,full⟩ => .pure ⟨later₂,?_,?_⟩
      · rw [held, got₁.1]
        simp
      · revert full
        split
        · exact fun refused => refused
        · rintro ⟨cs,same,texts,enough⟩
          refine ⟨ret :: cs,by rw [same]; rfl,.cons got₁.2 texts,?_⟩
          have comma : (if child.isEmpty then [] else 44 :: whenFmt fmt [32]).length ≤ 2 + if fmt then 1 else 0 := by
            unfold whenFmt
            split <;> split <;> simp
          simp only [renderedElements, List.length_append]
          omega

theorem membersPrinted : (child : List (List UInt8 × Item)) → (depth len : Nat) → PrintableMembers child → {start l : Ledger} →
    start.requests ≤ l.requests → Ends (printMembers s fmt child depth len) l
      (Collected s start l.held options (FullMembers fmt depth child len))
  | [], _, len, _, _, _, since => .pure ⟨since,rfl,[],rfl,.nil,Nat.le_refl len⟩
  | (string,item) :: child, depth, len, printable, start, l, since => by
    obtain ⟨cString,first,others⟩ := printable
    refine .bind (leafPrinted since (printStringPtrWrites cString)) fun str l₁ ⟨later₁,got₁⟩ => ?_
    have value : Ends (printValue s fmt item depth) l₁ (Printed s l₁ l₁.held (rendered fmt item depth)) :=
      valuePrinted item depth first (Nat.le_refl _)
    refine .bind value fun ret l₂ ⟨later₂,got₂⟩ => ?_
    -- the blocks of the members that follow, whatever came of this one
    have go : ∀ len, Ends (printMembers s fmt child depth len) l₂
        (Collected s l₂ l₂.held options (FullMembers fmt depth child len)) :=
      fun len => membersPrinted child depth len others (Nat.le_refl _)
    cases str with
    | none =>
      refine .bind (go len) fun r l₃ ⟨later₃,held,_⟩ => .pure ⟨by omega,?_,got₁.2.later (by omega)⟩
      cases ret with
      | none => rw [held, got₂.1, got₁.1]; rfl
      | some ret => rw [held, got₂.1, got₁.1]; simp [options, both]
    | some str =>
      cases ret with
      | none =>
        refine .bind (go len) fun r l₃ ⟨later₃,held,_⟩ => .pure ⟨by omega,?_,(got₂.2.earlier later₁).later later₃⟩
        rw [held, got₂.1, got₁.1]
        simp [options, both]
      | some ret =>
        refine .bindLift (got₂.2.read (renderedNonzero fmt item depth first)) ?_
        refine .bindLift (got₁.2.read (quotedNonzero cString)) ?_
        refine .bind (go _) fun r l₃ ⟨later₃,held,full⟩ => .pure ⟨by omega,?_,?_⟩
        · rw [held, got₂.1, got₁.1]
          simp [options, both]
        · revert full
          split
          · exact fun refused => refused.earlier (Nat.le_trans later₁ later₂)
          · rintro ⟨cs,same,texts,enough⟩
            refine ⟨(str,ret) :: cs,by rw [same]; rfl,.cons ⟨got₁.2,got₂.2⟩ texts,?_⟩
            have signs : (whenFmt fmt (List.replicate depth 9)).length + ((whenFmt fmt [9]).length +
                (if child.isEmpty then [] else [(44 : UInt8)]).length + (whenFmt fmt [10]).length) ≤
                1 + if fmt then 2 + depth else 0 := by
              unfold whenFmt
              split <;> split <;> simp <;> omega
            simp only [renderedMembers, List.length_append, List.length_cons]
            omega

end

end Trees

end YunbaIot.CJsonBlocks
