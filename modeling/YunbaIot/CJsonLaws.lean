import YunbaIot.CJsonBuffer
import YunbaIot.CJsonNumber

/-! A printed tree is parsed back, however it was printed and whichever requests for memory were refused. -/
namespace YunbaIot.CJsonLaws
open Block CJson Allocation CJsonPrint CJsonGrammar CJsonRendering CJsonComposing CJsonBlocks CJsonBuffer CJsonNumber

section Laws
variable {pow : Float.Model → Float.Model → Float.Model} {item : Item} {fmt : Bool}

/- Null where a request was refused, with every block given back, or a block with the text, and no other -/
def Gave (t : List UInt8) (s : Supply) (l : Ledger) (r : Option Chunk) (l' : Ledger) : Prop :=
  match r with
  | none => l'.held = l.held ∧ Refused s l l'
  | some c => l'.held = c.id :: l.held ∧ cString c.bytes = .ok t

theorem printedGave (printable : Printable item) (s : Supply) (l : Ledger) :
    Ends (printValue s fmt item 0) l (Printed s l l.held (rendered fmt item 0)) := valuePrinted item 0 printable (Nat.le_refl _)

theorem bufferedPrinted (printable : Printable item) (s : Supply) (l : Ledger) (prebuffer : Nat) :
    Ends (cJsonPrintBuffered s fmt item prebuffer) l (Printed s l l.held (rendered fmt item 0)) := by
  refine .bind (mallocOutcome (Nat.le_refl _) prebuffer) fun buffer l₁ ⟨later,got⟩ => ?_
  cases buffer with
  | none =>
    -- without a buffer the first call of ensure says so
    have null : ∀ (leaf : Leaf) len, emit s leaf len ⟨none,0⟩ l₁ = .ok ((none,⟨none,0⟩),l₁) := fun leaf len => rfl
    have nothing : printValueBuffered s fmt item 0 ⟨none,0⟩ l₁ = .ok ((none,⟨none,0⟩),l₁) := by
      cases item with
      | array child => cases child <;> rfl
      | object child => cases child <;> rfl
      | _ => rfl
    have first : Ends (printValueBuffered s fmt item 0 ⟨none,0⟩) l₁ fun r l₂ => r = (none,⟨none,0⟩) ∧ l₂ = l₁ :=
      ⟨_,_,nothing,rfl,rfl⟩
    refine .bind first fun r l₂ ⟨same,same'⟩ => ?_
    subst same same'
    exact .pure ⟨later,got⟩
  | some buffer =>
    have holds : Holds l l.held [] ⟨some buffer,0⟩ l₁ := ⟨later,buffer,buffer.bytes,rfl,rfl,rfl,got.1⟩
    refine .bind (valueBuffered item 0 printable holds) fun r l₂ result => ?_
    obtain ⟨ptr,q⟩ := r
    rcases result with ⟨null,lost⟩ | ⟨_,same,since,b,rest,there,bytes,_,_,held⟩
    · dsimp only at null lost
      subst null
      exact .pure ⟨lost.1,lost.2.2⟩
    · have root : returned fmt item 0 0 = 0 := by
        unfold returned
        split <;> simp
      dsimp only [List.length_nil] at same there
      rw [root] at same
      subst same
      refine .bindLift (derefOk.mpr there) (.pure ⟨since,held,rest,?_⟩)
      exact bytes

theorem gaveText {t : List UInt8} (nonzero : 0 ∉ t) {s : Supply} {l : Ledger} {r : Option Chunk} {l' : Ledger}
    (printed : Printed s l l.held t r l') : Gave t s l r l' := by
  cases r with
  | none => exact printed.2
  | some c => exact ⟨printed.2.1,printed.2.2.read nonzero⟩

/-- One text for each tree and format: a buffer of any size, which grows as it is filled, ends up with what is composed of
blocks of their own, and is not left by any store. -/
theorem bufferedSame (printable : Printable item) (fmt : Bool) : ∃ t, ∀ s l,
    Ends (printValue s fmt item 0) l (Gave t s l) ∧
      ∀ prebuffer, Ends (cJsonPrintBuffered s fmt item prebuffer) l (Gave t s l) := by
  have nonzero := renderedNonzero fmt item 0 printable
  refine ⟨rendered fmt item 0,fun s l => ⟨?_,fun prebuffer => ?_⟩⟩
  · exact (printedGave printable s l).mono fun _ _ => gaveText nonzero
  · exact (bufferedPrinted printable s l prebuffer).mono fun _ _ => gaveText nonzero

end Laws

/-! A tree, a text of it with blanks, an exponent and an escape, and memory that is always granted -/

def sample : Item := .array [.number (-120),.object [([97],.string [195,169])]]

def sampleText : List UInt8 :=
  [32,91,45,49,46,50,101,50,32,44,9,123,34,97,34,58,34,92,117,48,48,101,57,34,125,93]

/- -1.2e2 is -12 times ten. -/
theorem sampleNumber : Number (-12) 1 [45,49,46,50,101,50] :=
  have none : ∀ b ∈ ([] : List UInt8), isDigit b = true := fun _ inside => absurd inside List.not_mem_nil
  have two : Digits [50] := ⟨List.cons_ne_nil _ _,List.forall_mem_singleton.mpr (by decide)⟩
  @Number.mk [45] [49] [50] [46,50] [101,50] 2 (by decide) (.digits (by decide) none) (.point two)
    (@Exponent.power 101 [] [50] (by decide) (by decide) two)

theorem sampleWritten : Padded Skipped (Denotes power) sample sampleText := by
  have int : Written (-120) [45,49,46,50,101,50] :=
    @Written.mk (-12) 1 _ sampleNumber (by decide) (by unfold CInt; omega) (by decide)
  have number : Value Skipped (Denotes power) (.number (-120)) _ := .number sampleNumber (.int int)
  have name : Letters [97] [97] := .cons (.plain (by decide) (by decide) (by decide)) .nil
  have hex : Hex4 233 [48,48,101,57] := Hex4.digits (p := 0) (q := 0) (r := 14) (s := 9) rfl rfl rfl rfl
  have accent : Letters [195,169] [92,117,48,48,101,57] :=
    .cons (.unit hex (by decide) (by unfold Surrogate; omega)) .nil
  have member : Member Skipped (Denotes power) ([97],.string [195,169]) _ :=
    .mk skippedNone name skippedNone (.mk skippedNone (.string accent) skippedNone)
  have first : Padded Skipped (Denotes power) (.number (-120)) _ := .mk skippedNone number (skippedOne (b := 32) (by decide))
  have second : Padded Skipped (Denotes power) (.object [([97],.string [195,169])]) _ :=
    .mk (skippedOne (b := 9) (by decide)) (.object (.last member)) skippedNone
  exact .mk (skippedOne (b := 32) (by decide)) (.array (.more first (.last second))) skippedNone

def plenty : Supply where
  give _ size := some (List.replicate size 170)
  sized _ size b given := by
    rw [← Option.some.inj given, List.length_replicate]

def untouched : Ledger := ⟨0,[],List.pairwise_singleton _ _⟩

theorem samplePrintable : Printable sample :=
  ⟨by unfold Printable CInt; omega,⟨show (0 : UInt8) ∉ [97] by decide,show (0 : UInt8) ∉ [195,169] by decide,trivial⟩,trivial⟩

theorem bufferedSameSample : ∃ t, Ends (printValue plenty true sample 0) untouched (Gave t plenty untouched) ∧
    Ends (cJsonPrintBuffered plenty true sample 1) untouched (Gave t plenty untouched) := by
  obtain ⟨t,same⟩ := bufferedSame samplePrintable true
  exact ⟨t,(same plenty untouched).1,(same plenty untouched).2 1⟩

end YunbaIot.CJsonLaws
