import YunbaIot.CJsonText

/-! The texts of a tree: JSON, with whatever blanks are taken for nothing between two tokens. -/
namespace YunbaIot.CJsonGrammar
open CJson

/-! Strings -/

/- The four digits of a UTF-16 code unit -/
inductive Hex4 : Nat → List UInt8 → Prop where
  | digits {a b c d : UInt8} {p q r s : Nat} (first : hexDigit a = some p) (second : hexDigit b = some q)
      (third : hexDigit c = some r) (fourth : hexDigit d = some s) :
      Hex4 (16 * (16 * (16 * p + q) + r) + s) [a,b,c,d]

def Surrogate (u : Nat) : Prop := 0xD800 ≤ u ∧ u ≤ 0xDFFF
def escapes : List UInt8 := [34,92,47,98,102,110,114,116]

/- What a piece of a string stands for, and the piece. The escape of the zero byte, which would end the C string, and
of half a pair alone, which stands for nothing, are no pieces. -/
inductive Letter : List UInt8 → List UInt8 → Prop where
  | plain {b : UInt8} (inside : b ≠ 0) (noQuote : b ≠ 34) (noEscape : b ≠ 92) : Letter [b] [b]
  | escape {c : UInt8} (known : c ∈ escapes) : Letter [escaped c] [92,c]
  | unit {u : Nat} {t : List UInt8} (hex : Hex4 u t) (inside : u ≠ 0) (alone : ¬ Surrogate u) :
      Letter (utf8 u) (92 :: 117 :: t)
  | pair {u v : Nat} {t t' : List UInt8} (hex : Hex4 u t) (hex' : Hex4 v t') (high : 0xD800 ≤ u ∧ u < 0xDC00)
      (low : 0xDC00 ≤ v ∧ v ≤ 0xDFFF) :
      Letter (utf8 (0x10000 + ((u - 0xD800) * 0x400 + (v - 0xDC00)))) (92 :: 117 :: t ++ 92 :: 117 :: t')

inductive Letters : List UInt8 → List UInt8 → Prop where
  | nil : Letters [] []
  | cons {s s' t t' : List UInt8} (letter : Letter s t) (others : Letters s' t') : Letters (s ++ s') (t ++ t')

/-! Numbers -/

def Digits (t : List UInt8) : Prop := t ≠ [] ∧ ∀ b ∈ t, isDigit b = true
def digitsValue (t : List UInt8) : Nat := t.foldl (fun n b => 10 * n + (b.toNat - 48)) 0
def signed (sign : List UInt8) (n : Int) : Int := if sign = [45] then -n else n

inductive Whole : List UInt8 → Prop where
  | zero : Whole [48]
  | digits {d : UInt8} {t : List UInt8} (first : 49 ≤ d ∧ d ≤ 57) (others : ∀ b ∈ t, isDigit b = true) : Whole (d :: t)

/- The digits behind the point, and the text -/
inductive Fraction : List UInt8 → List UInt8 → Prop where
  | none : Fraction [] []
  | point {t : List UInt8} (digits : Digits t) : Fraction t (46 :: t)

inductive Exponent : Int → List UInt8 → Prop where
  | none : Exponent 0 []
  | power {e : UInt8} {sign t : List UInt8} (letter : e = 101 ∨ e = 69) (known : sign ∈ [[],[43],[45]])
      (digits : Digits t) : Exponent (signed sign (digitsValue t)) (e :: (sign ++ t))

/- A text for m times the power s of ten -/
inductive Number : Int → Int → List UInt8 → Prop where
  | mk {sign whole digits frac exp : List UInt8} {e : Int} (known : sign ∈ [[],[45]]) (units : Whole whole)
      (parts : Fraction digits frac) (power : Exponent e exp) :
      Number (signed sign (digitsValue (whole ++ digits))) (e - digits.length) (sign ++ whole ++ frac ++ exp)

/-! Values -/

section Values
-- which ints a number stands for
variable (blank : List UInt8 → Prop) (denotes : Int → List UInt8 → Prop)

mutual
inductive Value : Item → List UInt8 → Prop where
  | null : Value .null literalNull
  | false : Value .false literalFalse
  | true : Value .true literalTrue
  | number {v m s : Int} {t : List UInt8} (written : Number m s t) (value : denotes v t) : Value (.number v) t
  | string {s t : List UInt8} (written : Letters s t) : Value (.string s) (34 :: (t ++ [34]))
  | emptyArray {w : List UInt8} (skipped : blank w) : Value (.array []) (91 :: (w ++ [93]))
  | array {child : List Item} {t : List UInt8} (inside : Elements child t) : Value (.array child) (91 :: (t ++ [93]))
  | emptyObject {w : List UInt8} (skipped : blank w) : Value (.object []) (123 :: (w ++ [125]))
  | object {child : List (List UInt8 × Item)} {t : List UInt8} (inside : Members child t) :
      Value (.object child) (123 :: (t ++ [125]))

/- Between blanks -/
inductive Padded : Item → List UInt8 → Prop where
  | mk {item : Item} {w t w' : List UInt8} (before : blank w) (value : Value item t) (behind : blank w') :
      Padded item (w ++ (t ++ w'))

inductive Elements : List Item → List UInt8 → Prop where
  | last {item : Item} {t : List UInt8} (value : Padded item t) : Elements [item] t
  | more {item : Item} {child : List Item} {t t' : List UInt8} (value : Padded item t) (others : Elements child t') :
      Elements (item :: child) (t ++ 44 :: t')

inductive Member : List UInt8 × Item → List UInt8 → Prop where
  | mk {string : List UInt8} {item : Item} {w t w' v : List UInt8} (before : blank w) (name : Letters string t)
      (behind : blank w') (value : Padded item v) : Member (string,item) (w ++ 34 :: (t ++ 34 :: (w' ++ 58 :: v)))

inductive Members : List (List UInt8 × Item) → List UInt8 → Prop where
  | last {m : List UInt8 × Item} {t : List UInt8} (value : Member m t) : Members [m] t
  | more {m : List UInt8 × Item} {child : List (List UInt8 × Item)} {t t' : List UInt8} (value : Member m t)
      (others : Members child t') : Members (m :: child) (t ++ 44 :: t')
end

end Values

/- What the parser skips -/
def Skipped (w : List UInt8) : Prop := ∀ b ∈ w, b ≠ 0 ∧ b ≤ 32

end YunbaIot.CJsonGrammar
