import Mathlib.Tactic.Ring
import YunbaIot.CJsonParsing
import YunbaIot.CJsonPrint

/-! What is printed of a tree, as a text: a text of the grammar, with no zero byte in it. -/
namespace YunbaIot.CJsonRendering
open CJson CJsonGrammar CJsonReading CJsonPrint

def tokenText (token : UInt8) : List UInt8 :=
  if token = 92 then [92]
  else if token = 34 then [34]
  else if token = 8 then [98]
  else if token = 12 then [102]
  else if token = 10 then [110]
  else if token = 13 then [114]
  else if token = 9 then [116]
  else 117 :: fourHex token

def escapedByte (b : UInt8) : List UInt8 := if 31 < b ∧ b ≠ 34 ∧ b ≠ 92 then [b] else 92 :: tokenText b

def quoted (str : List UInt8) : List UInt8 := 34 :: (str.flatMap escapedByte ++ [34])

section Texts
variable (fmt : Bool)

def whenFmt (t : List UInt8) : List UInt8 := if fmt then t else []

mutual
def rendered : Item → Nat → List UInt8
  | .null, _ => literalNull
  | .false, _ => literalFalse
  | .true, _ => literalTrue
  | .number valueint, _ => decimal valueint
  | .string valuestring, _ => quoted valuestring
  | .array child, depth => 91 :: (renderedElements child (depth + 1) ++ [93])
  | .object child, depth =>
    if child.isEmpty then 123 :: (whenFmt fmt (10 :: List.replicate (depth - 1) 9) ++ [125])
    else 123 :: (whenFmt fmt [10] ++ (renderedMembers child (depth + 1) ++ (whenFmt fmt (List.replicate depth 9) ++ [125])))

def renderedElements : List Item → Nat → List UInt8
  | [], _ => []
  | item :: child, depth =>
    rendered item depth ++ ((if child.isEmpty then [] else 44 :: whenFmt fmt [32]) ++ renderedElements child depth)

def renderedMembers : List (List UInt8 × Item) → Nat → List UInt8
  | [], _ => []
  | (string,item) :: child, depth =>
    whenFmt fmt (List.replicate depth 9) ++ (quoted string ++ (58 :: whenFmt fmt [9] ++ (rendered item depth ++
      ((if child.isEmpty then [] else [44]) ++ (whenFmt fmt [10] ++ renderedMembers child depth)))))
end

end Texts

/-! Trees that can be printed: C strings and ints -/

def CString (str : List UInt8) : Prop := 0 ∉ str
def CInt (n : Int) : Prop := -2147483648 ≤ n ∧ n ≤ 2147483647

mutual
def Printable : Item → Prop
  | .number valueint => CInt valueint
  | .string valuestring => CString valuestring
  | .array child => PrintableElements child
  | .object child => PrintableMembers child
  | _ => True

def PrintableElements : List Item → Prop
  | [] => True
  | item :: child => Printable item ∧ PrintableElements child

def PrintableMembers : List (List UInt8 × Item) → Prop
  | [] => True
  | (string,item) :: child => CString string ∧ Printable item ∧ PrintableMembers child
end

/-! Strings -/

theorem hexCharDigit {d : Nat} (small : d < 16) : hexDigit (hexChar d) = some d := by
  have all : ∀ d, d < 16 → hexDigit (hexChar d) = some d := by decide
  exact all d small

theorem fourHexUnit {b : UInt8} : Hex4 b.toNat (fourHex b) := by
  have bound := UInt8.toNat_lt b
  have hex := Hex4.digits (a := 48) (b := 48) rfl rfl (hexCharDigit (d := b.toNat / 16) (by omega))
    (hexCharDigit (d := b.toNat % 16) (by omega))
  have zero : UInt8.toNat 48 - 48 = 0 := rfl
  have same : 16 * (16 * (16 * 0 + 0) + b.toNat / 16) + b.toNat % 16 = b.toNat := by omega
  rwa [zero, same] at hex

theorem asciiAlone {b : UInt8} (low : b.toNat < 128) : utf8 b.toNat = [b] := by
  unfold utf8
  rw [if_pos low, UInt8.ofNat_toNat]

theorem tokenLetter {b : UInt8} (inside : b ≠ 0) (control : ¬(31 < b ∧ b ≠ 34 ∧ b ≠ 92)) : Letter [b] (92 :: tokenText b) := by
  unfold tokenText
  split
  · rename_i same
    rw [same]
    exact Letter.escape (c := 92) (by decide)
  rename_i noSlash
  split
  · rename_i same
    rw [same]
    exact Letter.escape (c := 34) (by decide)
  rename_i noQuote
  split
  · rename_i same
    rw [same]
    exact Letter.escape (c := 98) (by decide)
  split
  · rename_i same
    rw [same]
    exact Letter.escape (c := 102) (by decide)
  split
  · rename_i same
    rw [same]
    exact Letter.escape (c := 110) (by decide)
  split
  · rename_i same
    rw [same]
    exact Letter.escape (c := 114) (by decide)
  split
  · rename_i same
    rw [same]
    exact Letter.escape (c := 116) (by decide)
  have low : b.toNat ≤ 31 := by
    by_contra large
    exact control ⟨UInt8.lt_iff_toNat_lt.mpr (Nat.not_le.mp large),noQuote,noSlash⟩
  have some : b.toNat ≠ 0 := fun zero => inside (UInt8.toNat_inj.mp zero)
  have letter := Letter.unit (fourHexUnit (b := b)) some (by unfold Surrogate; omega)
  rwa [asciiAlone (by omega)] at letter

theorem escapedLetter {b : UInt8} (inside : b ≠ 0) : Letter [b] (escapedByte b) := by
  unfold escapedByte
  split
  · rename_i plain
    exact .plain inside plain.2.1 plain.2.2
  · rename_i control
    exact tokenLetter inside control

theorem escapedLetters {str : List UInt8} (cString : CString str) : Letters str (str.flatMap escapedByte) := by
  induction str with
  | nil => exact .nil
  | cons b str ih =>
    obtain ⟨head,tail⟩ := List.ne_and_not_mem_of_not_mem_cons cString
    exact .cons (escapedLetter (Ne.symm head)) (ih tail)

theorem escapedNonzero {b : UInt8} (inside : b ≠ 0) : 0 ∉ escapedByte b := by
  have hex : ∀ d, d < 16 → hexChar d ≠ 0 := by decide
  have bound := UInt8.toNat_lt b
  have last := hex (b.toNat / 16) (by omega)
  have first := hex (b.toNat % 16) (by omega)
  unfold escapedByte tokenText fourHex
  repeat'
    split
    · simp [Ne.symm inside]
  simp [Ne.symm last, Ne.symm first]

theorem quotedNonzero {str : List UInt8} (cString : CString str) : 0 ∉ quoted str := by
  have inside : 0 ∉ str.flatMap escapedByte := fun zero => by
    obtain ⟨b,member,zero⟩ := List.mem_flatMap.mp zero
    exact escapedNonzero (fun same => cString (same ▸ member)) zero
  simp [quoted, inside]

/-! Numbers -/

theorem digitByte {d : Nat} (small : d < 10) : isDigit (UInt8.ofNat (48 + d)) = true := by
  have all : ∀ d, d < 10 → isDigit (UInt8.ofNat (48 + d)) = true := by decide
  exact all d small

theorem digitsOfWhole {fuel n : Nat} (enough : n < fuel) (some : 0 < n) :
    ∃ d t, digitsOf fuel n = d :: t ∧ (49 ≤ d ∧ d ≤ 57) ∧ ∀ b ∈ t, isDigit b = true := by
  induction fuel generalizing n with
  | zero => exact absurd enough (Nat.not_lt_zero n)
  | succ fuel ih =>
    unfold digitsOf
    split
    · rename_i small
      have all : ∀ n, n < 10 → 0 < n → 49 ≤ UInt8.ofNat (48 + n) ∧ UInt8.ofNat (48 + n) ≤ 57 := by decide
      exact ⟨_,[],rfl,all n small some,nofun⟩
    · obtain ⟨d,t,same,first,others⟩ := ih (n := n / 10) (by omega) (by omega)
      refine ⟨d,t ++ [UInt8.ofNat (48 + n % 10)],by rw [same]; rfl,first,fun b inside => ?_⟩
      rcases List.mem_append.mp inside with earlier | last
      · exact others b earlier
      · rw [List.mem_singleton.mp last]
        exact digitByte (Nat.mod_lt n (by decide))

theorem digitsOfLength {fuel n : Nat} (k : Nat) (small : n < 10 ^ (k + 1)) : (digitsOf fuel n).length ≤ k + 1 := by
  induction fuel generalizing n k with
  | zero => exact Nat.zero_le _
  | succ fuel ih =>
    unfold digitsOf
    split
    · simp
    · rename_i large
      cases k with
      | zero => exact absurd small large
      | succ k =>
        have shorter := ih k (n := n / 10) (by
          rw [Nat.pow_succ] at small
          omega)
        rw [List.length_append, List.length_singleton]
        omega

theorem decimalZero : decimal 0 = [48] := rfl

theorem digitsOfValue {fuel n : Nat} (enough : n < fuel) : digitsValue (digitsOf fuel n) = n := by
  have byte : ∀ d, d < 10 → (UInt8.ofNat (48 + d)).toNat - 48 = d := by decide
  induction fuel generalizing n with
  | zero => exact absurd enough (Nat.not_lt_zero n)
  | succ fuel ih =>
    unfold digitsOf
    split
    · rename_i small
      have value := byte n small
      simpa [digitsValue] using value
    · have earlier := ih (n := n / 10) (by omega)
      have value := byte (n % 10) (Nat.mod_lt n (by decide))
      unfold digitsValue at earlier ⊢
      rw [List.foldl_append, earlier]
      simp only [List.foldl_cons, List.foldl_nil, value]
      omega

theorem decimalNumber (n : Int) : Number n 0 (decimal n) := by
  have sign : (if n < 0 then [(45 : UInt8)] else []) ∈ [[],[45]] := by
    split <;> simp
  have units : Whole (digitsOf (n.natAbs + 1) n.natAbs) := by
    by_cases zero : n.natAbs = 0
    · rw [zero]
      exact Whole.zero
    · obtain ⟨d,t,same,first,others⟩ := digitsOfWhole (Nat.lt_succ_self n.natAbs) (Nat.pos_of_ne_zero zero)
      rw [same]
      exact Whole.digits first others
  have number := Number.mk sign units .none .none
  have value : signed (if n < 0 then [45] else []) (digitsValue (digitsOf (n.natAbs + 1) n.natAbs)) = n := by
    rw [digitsOfValue (Nat.lt_succ_self n.natAbs)]
    unfold signed
    by_cases minus : n < 0
    · rw [if_pos minus, if_pos rfl]
      omega
    · rw [if_neg minus, if_neg (by decide)]
      omega
  rw [List.append_nil, List.append_nil, List.append_nil, value] at number
  exact number

theorem decimalLength {n : Int} (small : CInt n) : (decimal n).length ≤ 11 := by
  unfold CInt at small
  have digits : (digitsOf (n.natAbs + 1) n.natAbs).length ≤ 10 := digitsOfLength 9 (by omega)
  unfold decimal
  rw [List.length_append]
  split
  · simp only [List.length_singleton]
    omega
  · simp only [List.length_nil]
    omega

theorem digitsOfDigits (fuel n : Nat) : ∀ b ∈ digitsOf fuel n, isDigit b = true := by
  induction fuel generalizing n with
  | zero => exact nofun
  | succ fuel ih =>
    intro b inside
    unfold digitsOf at inside
    split at inside
    · rename_i small
      rw [List.mem_singleton.mp inside]
      exact digitByte small
    · rcases List.mem_append.mp inside with earlier | last
      · exact ih _ b earlier
      · rw [List.mem_singleton.mp last]
        exact digitByte (Nat.mod_lt n (by decide))

theorem decimalNonzero (n : Int) : 0 ∉ decimal n := by
  have digits : ∀ fuel n, 0 ∉ digitsOf fuel n := fun fuel n zero => absurd (digitsOfDigits fuel n 0 zero) (by decide)
  unfold decimal
  intro zero
  rcases List.mem_append.mp zero with sign | inside
  · split at sign
    · exact absurd (List.mem_singleton.mp sign) (by decide)
    · exact List.not_mem_nil sign
  · exact digits _ _ inside

/-! Values -/

section Values
variable (fmt : Bool)

theorem whenFmtNonzero {t : List UInt8} (nonzero : 0 ∉ t) : 0 ∉ whenFmt fmt t := by
  unfold whenFmt
  split
  · exact nonzero
  · exact List.not_mem_nil

theorem tabsNonzero (n : Nat) : 0 ∉ List.replicate n (9 : UInt8) := fun zero => absurd (List.eq_of_mem_replicate zero) (by decide)

mutual

theorem renderedNonzero : (item : Item) → (depth : Nat) → Printable item → 0 ∉ rendered fmt item depth
  | .null, _, _ => show 0 ∉ literalNull by decide
  | .false, _, _ => show 0 ∉ literalFalse by decide
  | .true, _, _ => show 0 ∉ literalTrue by decide
  | .number valueint, _, _ => decimalNonzero valueint
  | .string _, _, printable => quotedNonzero printable
  | .array child, depth, printable => by
    have inside := elementsNonzero child (depth + 1) printable
    simp [rendered, inside]
  | .object child, depth, printable => by
    have inside := membersNonzero child (depth + 1) printable
    have newline := whenFmtNonzero fmt (t := [10]) (by decide)
    have tabs := whenFmtNonzero fmt (tabsNonzero depth)
    have empty := whenFmtNonzero fmt (t := 10 :: List.replicate (depth - 1) 9) (by simp)
    unfold rendered
    split <;> simp [inside, newline, tabs, empty]

theorem elementsNonzero : (child : List Item) → (depth : Nat) → PrintableElements child → 0 ∉ renderedElements fmt child depth
  | [], _, _ => List.not_mem_nil
  | item :: child, depth, printable => by
    have first := renderedNonzero item depth printable.1
    have others := elementsNonzero child depth printable.2
    have blank := whenFmtNonzero fmt (t := [32]) (by decide)
    rw [renderedElements]
    split <;> simp [first, others, blank]

theorem membersNonzero : (child : List (List UInt8 × Item)) → (depth : Nat) → PrintableMembers child →
    0 ∉ renderedMembers fmt child depth
  | [], _, _ => List.not_mem_nil
  | (_,item) :: child, depth, printable => by
    have name := quotedNonzero printable.1
    have first := renderedNonzero item depth printable.2.1
    have others := membersNonzero child depth printable.2.2
    have tabs := whenFmtNonzero fmt (tabsNonzero depth)
    have tab := whenFmtNonzero fmt (t := [9]) (by decide)
    have newline := whenFmtNonzero fmt (t := [10]) (by decide)
    rw [renderedMembers]
    split <;> simp [name, first, others, tabs, tab, newline]

end

/-! The text is one of the grammar -/

theorem skippedAppend {w w' : List UInt8} (skipped : Skipped w) (skipped' : Skipped w') : Skipped (w ++ w') :=
  fun b inside => (List.mem_append.mp inside).elim (skipped b) (skipped' b)

theorem skippedNone : Skipped [] := fun _ inside => absurd inside List.not_mem_nil

theorem skippedWhenFmt {w : List UInt8} (skipped : Skipped w) : Skipped (whenFmt fmt w) := by
  unfold whenFmt
  split
  · exact skipped
  · exact skippedNone

theorem skippedOne {b : UInt8} (blank : b ≠ 0 ∧ b ≤ 32) : Skipped [b] := fun _ inside => by
  rwa [List.mem_singleton.mp inside]

theorem skippedTabs (n : Nat) : Skipped (List.replicate n 9) := fun b inside => by
  rw [List.eq_of_mem_replicate inside]
  decide

/- The digits of an int stand for it. -/
def Valued (denotes : Int → List UInt8 → Prop) : Prop := ∀ n, CInt n → denotes n (decimal n)

variable {denotes : Int → List UInt8 → Prop}

mutual

theorem renderedValue (valued : Valued denotes) : (item : Item) → (depth : Nat) → Printable item →
    Value Skipped denotes item (rendered fmt item depth)
  | .null, _, _ => .null
  | .false, _, _ => .false
  | .true, _, _ => .true
  | .number valueint, _, printable => .number (decimalNumber valueint) (valued valueint printable)
  | .string valuestring, _, printable => .string (escapedLetters printable)
  | .array [], depth, _ => .emptyArray skippedNone
  | .array (item :: child), depth, printable =>
    .array (renderedElementsText valued (item :: child) (depth + 1) printable (List.cons_ne_nil _ _) [] skippedNone)
  | .object [], depth, _ => by
    have blank := skippedWhenFmt fmt (w := 10 :: List.replicate (depth - 1) 9) fun b inside => by
      rcases List.mem_cons.mp inside with rfl | tab
      · decide
      · exact skippedTabs _ b tab
    exact .emptyObject blank
  | .object (m :: child), depth, printable => by
    have newline := skippedWhenFmt fmt (skippedOne (b := 10) (by decide))
    have tabs := skippedWhenFmt fmt (skippedTabs depth)
    have inside := renderedMembersText valued (m :: child) (depth + 1) printable (List.cons_ne_nil _ _) _ _ newline tabs
    have object := Value.object inside
    simp only [List.append_assoc] at object
    exact object

theorem renderedElementsText (valued : Valued denotes) : (child : List Item) → (depth : Nat) → PrintableElements child → child ≠ [] →
    (w : List UInt8) → Skipped w → Elements Skipped denotes child (w ++ renderedElements fmt child depth)
  | [], _, _, filled, _, _ => absurd rfl filled
  | [item], depth, printable, _, w, blank => .last (.mk blank (renderedValue valued item depth printable.1) skippedNone)
  | item :: next :: child, depth, printable, _, w, blank => by
    have first : Padded Skipped denotes item (w ++ (rendered fmt item depth ++ [])) :=
      .mk blank (renderedValue valued item depth printable.1) skippedNone
    have space := skippedWhenFmt fmt (skippedOne (b := 32) (by decide))
    have others := renderedElementsText valued (next :: child) depth printable.2 (List.cons_ne_nil _ _) _ space
    have all := Elements.more first others
    simp only [List.append_assoc, List.nil_append] at all
    exact all

theorem renderedMembersText (valued : Valued denotes) : (child : List (List UInt8 × Item)) → (depth : Nat) → PrintableMembers child → child ≠ [] →
    (w w' : List UInt8) → Skipped w → Skipped w' → Members Skipped denotes child (w ++ (renderedMembers fmt child depth ++ w'))
  | [], _, _, filled, _, _, _, _ => absurd rfl filled
  | [(string,item)], depth, printable, _, w, w', blank, blank' => by
    have before := skippedAppend blank (skippedWhenFmt fmt (skippedTabs depth))
    have tab := skippedWhenFmt fmt (skippedOne (b := 9) (by decide))
    have behind := skippedAppend (skippedWhenFmt fmt (skippedOne (b := 10) (by decide))) blank'
    have value : Padded Skipped denotes item _ := .mk tab (renderedValue valued item depth printable.2.1) behind
    have all := Members.last (.mk before (escapedLetters printable.1) skippedNone value)
    simp only [List.append_assoc, List.nil_append] at all
    simp only [renderedMembers, quoted, List.append_assoc, List.cons_append, List.nil_append, List.isEmpty_nil, if_true,
      List.append_nil]
    exact all
  | (string,item) :: next :: child, depth, printable, _, w, w', blank, blank' => by
    have before := skippedAppend blank (skippedWhenFmt fmt (skippedTabs depth))
    have tab := skippedWhenFmt fmt (skippedOne (b := 9) (by decide))
    have newline := skippedWhenFmt fmt (skippedOne (b := 10) (by decide))
    have value : Padded Skipped denotes item _ := .mk tab (renderedValue valued item depth printable.2.1) skippedNone
    have others := renderedMembersText valued (next :: child) depth printable.2.2 (List.cons_ne_nil _ _) _ _ newline blank'
    have all := Members.more (.mk before (escapedLetters printable.1) skippedNone value) others
    simp only [List.append_assoc, List.nil_append, List.cons_append, List.append_nil] at all
    rw [renderedMembers]
    simp only [quoted, List.append_assoc, List.cons_append, List.nil_append, List.isEmpty_cons, Bool.false_eq_true, if_false]
    exact all

end

end Values

end YunbaIot.CJsonRendering
