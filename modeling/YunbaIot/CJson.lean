import YunbaIot.Block

/-! third_party/json/cJSON.c as far as its callers use it: the parser, and the accessors of a
parsed tree. A pointer into the text is the list of the bytes from there to the end of its
block, so a load behind the block is a fault; a zero byte inside is a byte like others to the
code that skips it. Allocations succeed. -/
namespace YunbaIot.CJson
open Block

/- valuestring is kept as the C string it is. The other fields of a node follow from its
type: valueint is 1 for true and 0 elsewhere. -/
inductive Item where
  | false
  | true
  | null
  | number (valueint : Int)
  | string (valuestring : List UInt8)
  | array (child : List Item)
  | object (child : List (List UInt8 × Item))

namespace Item

def valuestring : Item → Option (List UInt8)
  | .string s => some s
  | _ => none

def valueint : Item → Int
  | .true => 1
  | .number n => n
  | _ => 0

/- The children with their names, of which those of an array have none. -/
def child : Item → List (Option (List UInt8) × Item)
  | .array items => items.map (none,·)
  | .object members => members.map fun m => (some m.1,m.2)
  | _ => []

end Item

def cJsonGetArraySize (array : Item) : Nat := array.child.length
def cJsonGetArrayItem (array : Item) (item : Nat) : Option (Option (List UInt8) × Item) := array.child[item]?

def tolower (b : UInt8) : UInt8 := if 65 ≤ b ∧ b ≤ 90 then b + 32 else b

-- cJSON_strcasecmp returns 0
def sameName (s1 : Option (List UInt8)) (s2 : List UInt8) : Bool := s1.map (·.map tolower) = some (s2.map tolower)

def cJsonGetObjectItem (object : Item) (string : List UInt8) : Option Item :=
  (object.child.find? fun c => sameName c.1 string).map (·.2)

/-! Loads that look ahead -/

-- strncmp with a literal
def startsWith : List UInt8 → List UInt8 → Defined Bool
  | [], _ => .ok true
  | _ :: _, [] => .error .load
  | l :: literal, b :: rest => if b = l then startsWith literal rest else .ok false

def skip : List UInt8 → Defined (List UInt8)
  | [] => .error .load
  | b :: rest => if b ≠ 0 ∧ b ≤ 32 then skip rest else .ok (b :: rest)

/-! Numbers -/

def isDigit (b : UInt8) : Bool := 48 ≤ b ∧ b ≤ 57

def eat (p : UInt8 → Bool) : List UInt8 → Defined (List UInt8 × List UInt8)
  | [] => .error .load
  | b :: rest => .ok (if p b then ([b],rest) else ([],b :: rest))

def digits : List UInt8 → Defined (List UInt8 × List UInt8)
  | [] => .error .load
  | b :: rest =>
    if isDigit b then (fun r => (b :: r.1,r.2)) <$> digits rest
    else .ok ([],b :: rest)

def wholePart : List UInt8 → Defined (List UInt8 × List UInt8)
  | [] => .error .load
  | b :: rest => if 49 ≤ b ∧ b ≤ 57 then digits (b :: rest) else .ok ([],b :: rest)

def fraction : List UInt8 → Defined (List UInt8 × List UInt8)
  | [] => .error .load
  | b :: rest =>
    if b = 46 then
      match rest with
      | [] => .error .load
      | d :: _ => if isDigit d then (fun r => (b :: r.1,r.2)) <$> digits rest else .ok ([],b :: rest)
    else .ok ([],b :: rest)

def exponent : List UInt8 → Defined (List UInt8 × List UInt8)
  | [] => .error .load
  | b :: rest =>
    if b = 101 ∨ b = 69 then do
      let sign ← eat (fun c => c = 43 ∨ c = 45) rest
      let power ← digits sign.2
      .ok (b :: (sign.1 ++ power.1),power.2)
    else .ok ([],b :: rest)

/- The text of a number, and what follows it. -/
def parseNumber (num : List UInt8) : Defined (List UInt8 × List UInt8) := do
  let sign ← eat (· = 45) num
  let zero ← eat (· = 48) sign.2
  let whole ← wholePart zero.2
  let frac ← fraction whole.2
  let exp ← exponent frac.2
  .ok (sign.1 ++ zero.1 ++ whole.1 ++ frac.1 ++ exp.1,exp.2)

/-! The arithmetic of parse_number, over the text that it has taken -/

def double (n : Int) : Float.Model := Float.Model.ofInt n
def digit (b : UInt8) : Int := b.toNat - 48

-- n=(n*10.0)+(*num++ -'0')
def shiftIn (n : Float.Model) (digits : List UInt8) : Float.Model := digits.foldl (fun n b => n * double 10 + double (digit b)) n

-- scale--
def scaleBehind (digits : List UInt8) : Float.Model := digits.foldl (fun scale _ => scale - double 1) (double 0)

-- subscale=(subscale*10)+(*num++ - '0'), of ints
def subscale (digits : List UInt8) : Int32 := digits.foldl (fun s b => s * 10 + Int32.ofInt (digit b)) 0

def passed (p : UInt8 → Bool) : List UInt8 → List UInt8
  | [] => []
  | b :: rest => if p b then rest else b :: rest

section Doubles
-- that of the C library
variable (pow : Float.Model → Float.Model → Float.Model)

def valuedouble (num : List UInt8) : Float.Model :=
  let sign := if num.head? = some 45 then double (-1) else double 1
  let whole := passed (· = 48) (passed (· = 45) num)
  let point := whole.dropWhile isDigit
  let frac := if point.head? = some 46 then point.tail.takeWhile isDigit else []
  let letter := if point.head? = some 46 then point.tail.dropWhile isDigit else point
  let signsubscale : Int32 := if letter.tail.head? = some 45 then -1 else 1
  let power := passed (fun c => c = 43 ∨ c = 45) letter.tail
  let n := shiftIn (shiftIn (double 0) (whole.takeWhile isDigit)) frac
  sign * n * pow (double 10) (scaleBehind frac + double (subscale power * signsubscale).toInt)

/- (int) of it; what is no int is brought to the nearest one, and what is no number to 0, where C says nothing. -/
def valueintOf (num : List UInt8) : Int := (valuedouble pow num).toInt32.toInt

end Doubles

/-! Strings -/

def hexDigit (b : UInt8) : Option Nat :=
  if 48 ≤ b ∧ b ≤ 57 then some (b.toNat - 48)
  else if 65 ≤ b ∧ b ≤ 70 then some (10 + b.toNat - 65)
  else if 97 ≤ b ∧ b ≤ 102 then some (10 + b.toNat - 97)
  else none

def hexDigits : Nat → Nat → List UInt8 → Defined Nat
  | 0, h, _ => .ok h
  | _+1, _, [] => .error .load
  | n+1, h, b :: rest =>
    match hexDigit b with
    | none => .ok 0
    | some d => hexDigits n (16 * h + d) rest

def parseHex4 (str : List UInt8) : Defined Nat := hexDigits 4 0 str

def continuation (uc : Nat) : UInt8 := UInt8.ofNat (uc % 64 + 128)

def utf8 (uc : Nat) : List UInt8 :=
  if uc < 0x80 then [UInt8.ofNat uc]
  else if uc < 0x800 then [UInt8.ofNat (uc / 64 + 0xC0),continuation uc]
  else if uc < 0x10000 then [UInt8.ofNat (uc / 4096 + 0xE0),continuation (uc / 64),continuation uc]
  else [UInt8.ofNat (uc / 262144 + 0xF0),continuation (uc / 4096),continuation (uc / 64),continuation uc]

/- From behind the u. Wherever the four digits end, ptr is moved by four, and by ten behind
the second half of a pair. -/
def unicode (str : List UInt8) : Defined (List UInt8 × List UInt8) := do
  let uc ← parseHex4 str
  if 0xDC00 ≤ uc ∧ uc ≤ 0xDFFF ∨ uc = 0 then .ok ([],str.drop 4)
  else if 0xD800 ≤ uc ∧ uc ≤ 0xDBFF then
    let second ← startsWith [92,117] (str.drop 4)
    if second then
      let uc2 ← parseHex4 (str.drop 6)
      if uc2 < 0xDC00 ∨ 0xDFFF < uc2 then .ok ([],str.drop 10)
      else .ok (utf8 (0x10000 + (uc % 0x400 * 0x400 + uc2 % 0x400)),str.drop 10)
    else .ok ([],str.drop 4)
  else .ok (utf8 uc,str.drop 4)

def escaped (b : UInt8) : UInt8 :=
  if b = 98 then 8 else if b = 102 then 12 else if b = 110 then 10 else if b = 114 then 13
  else if b = 116 then 9 else b

/- The switch of parse_string, from behind the escaped byte. -/
def escape (c : UInt8) (str : List UInt8) : Defined (List UInt8 × List UInt8) :=
  if c = 117 then unicode str else .ok ([escaped c],str)

/- What the first loop of parse_string counts: an escape sequence as one byte, its \u digits as
bytes of their own. -/
def quotedLength : List UInt8 → Defined Nat
  | [] => .error .load
  | b :: rest =>
    if b = 34 ∨ b = 0 then .ok 0
    else if b = 92 then
      match rest with
      | [] => .error .load
      | _ :: rest => (· + 1) <$> quotedLength rest
    else (· + 1) <$> quotedLength rest

/- The second loop: what it stores, and where it stops. The fuel is the number of bytes left
in the block; without a byte left the next load is outside. -/
def unescape : Nat → List UInt8 → Defined (List UInt8 × List UInt8)
  | 0, _ => .error .load
  | _+1, [] => .error .load
  | fuel+1, b :: rest =>
    if b = 34 ∨ b = 0 then .ok ([],b :: rest)
    else if b = 92 then
      match rest with
      | [] => .error .load
      | c :: rest => do
        let e ← escape c rest
        (fun r => (e.1 ++ r.1,r.2)) <$> unescape fuel e.2
    else (fun r => (b :: r.1,r.2)) <$> unescape fuel rest

def unquoted : List UInt8 → List UInt8
  | [] => []
  | b :: rest => if b = 34 then rest else b :: rest

/- The store is made in a block of one byte more than the first loop counts. -/
def parseString : List UInt8 → Defined (Option (List UInt8 × List UInt8))
  | [] => .error .load
  | b :: str =>
    if b ≠ 34 then .ok none
    else do
      let len ← quotedLength str
      let out ← unescape str.length str
      if len < out.1.length then .error .store
      else .ok (some (text out.1,unquoted out.2))

/-! Values -/

section Values
-- what parse_number makes of the text that it takes: valueintOf of the pow that is linked
variable (numberValue : List UInt8 → Int)

def literalNull : List UInt8 := [110,117,108,108]
def literalFalse : List UInt8 := [102,97,108,115,101]
def literalTrue : List UInt8 := [116,114,117,101]

/- A byte takes three units of fuel at most. -/
mutual
def parseValue : Nat → List UInt8 → Defined (Option (Item × List UInt8))
  | 0, _ => .error .load
  | fuel+1, value => do
    if ← startsWith literalNull value then .ok (some (.null,value.drop 4))
    else if ← startsWith literalFalse value then .ok (some (.false,value.drop 5))
    else if ← startsWith literalTrue value then .ok (some (.true,value.drop 4))
    else
      match value with
      | [] => .error .load
      | b :: rest =>
        if b = 34 then (·.map fun r => (.string r.1,r.2)) <$> parseString (b :: rest)
        else if b = 45 ∨ isDigit b then (fun r => some (.number (numberValue r.1),r.2)) <$> parseNumber (b :: rest)
        else if b = 91 then parseArray fuel rest
        else if b = 123 then parseObject fuel rest
        else .ok none

/- From behind the bracket. -/
def parseArray : Nat → List UInt8 → Defined (Option (Item × List UInt8))
  | 0, _ => .error .load
  | fuel+1, value => do
    match ← skip value with
    | [] => .error .load
    | b :: rest =>
      if b = 93 then .ok (some (.array [],rest))
      else (·.map fun r => (.array r.1,r.2)) <$> parseElements fuel (b :: rest)

def parseElements : Nat → List UInt8 → Defined (Option (List Item × List UInt8))
  | 0, _ => .error .load
  | fuel+1, value => do
    match ← parseValue fuel (← skip value) with
    | none => .ok none
    | some (item,value) =>
      match ← skip value with
      | [] => .error .load
      | b :: rest =>
        if b = 44 then (·.map fun r => (item :: r.1,r.2)) <$> parseElements fuel rest
        else if b = 93 then .ok (some ([item],rest))
        else .ok none

def parseObject : Nat → List UInt8 → Defined (Option (Item × List UInt8))
  | 0, _ => .error .load
  | fuel+1, value => do
    match ← skip value with
    | [] => .error .load
    | b :: rest =>
      if b = 125 then .ok (some (.object [],rest))
      else (·.map fun r => (.object r.1,r.2)) <$> parseMembers fuel (b :: rest)

def parseMembers : Nat → List UInt8 → Defined (Option (List (List UInt8 × Item) × List UInt8))
  | 0, _ => .error .load
  | fuel+1, value => do
    match ← parseString (← skip value) with
    | none => .ok none
    | some (string,value) =>
      match ← skip value with
      | [] => .error .load
      | b :: rest =>
        if b ≠ 58 then .ok none
        else
          match ← parseValue fuel (← skip rest) with
          | none => .ok none
          | some (item,value) =>
            match ← skip value with
            | [] => .error .load
            | b :: rest =>
              if b = 44 then (·.map fun r => ((string,item) :: r.1,r.2)) <$> parseMembers fuel rest
              else if b = 125 then .ok (some ([(string,item)],rest))
              else .ok none
end

/- cJSON_Parse on the block from its argument on. -/
def cJsonParse (value : List UInt8) : Defined (Option Item) := do
  let parsed ← parseValue numberValue (3 * value.length + 1) (← skip value)
  .ok (parsed.map (·.1))

end Values
end YunbaIot.CJson
