import YunbaIot.Allocation
import YunbaIot.CJson

/-! The printing half of third_party/json/cJSON.c, for trees whose numbers are ints. A text that
is composed stands in a block, and a pointer that moves along it is the place of a pen. -/
namespace YunbaIot.CJsonPrint
open Block CJson Allocation

structure Pen where
  block : List UInt8
  pos : Nat

/- *ptr++ = .. -/
def Pen.put (s : List UInt8) (w : Pen) : Defined Pen := (⟨·,w.pos + s.length⟩) <$> memcpy w.block w.pos s

/- *ptr = 0 -/
def Pen.stop (w : Pen) : Defined Pen := (⟨·,w.pos⟩) <$> memcpy w.block w.pos [0]

/-! What is asked for and what is written there, where that is one piece -/

structure Leaf where
  needed : Nat
  compose : Pen → Defined Pen

/- cJSON_strdup, and strcpy -/
def copied (s : List UInt8) : Leaf := ⟨s.length + 1,fun w => w.put s >>= Pen.stop⟩

/- sprintf with %d -/
def digitsOf : Nat → Nat → List UInt8
  | 0, _ => []
  | fuel+1, n => if n < 10 then [UInt8.ofNat (48 + n)] else digitsOf fuel (n / 10) ++ [UInt8.ofNat (48 + n % 10)]

def decimal (n : Int) : List UInt8 := (if n < 0 then [45] else []) ++ digitsOf (n.natAbs + 1) n.natAbs

def printNumber (valueint : Int) : Leaf :=
  if valueint = 0 then copied [48] else ⟨21,fun w => w.put (decimal valueint) >>= Pen.stop⟩

def hexChar (d : Nat) : UInt8 := if d < 10 then UInt8.ofNat (48 + d) else UInt8.ofNat (87 + d)

/- %04x of a byte -/
def fourHex (token : UInt8) : List UInt8 := [48,48,hexChar (token.toNat / 16),hexChar (token.toNat % 16)]

/- The switch of print_string_ptr -/
def escapeToken (token : UInt8) (w : Pen) : Defined Pen :=
  if token = 92 then w.put [92]
  else if token = 34 then w.put [34]
  else if token = 8 then w.put [98]
  else if token = 12 then w.put [102]
  else if token = 10 then w.put [110]
  else if token = 13 then w.put [114]
  else if token = 9 then w.put [116]
  else w.put (117 :: fourHex token) >>= Pen.stop

def composeEscaped : List UInt8 → Pen → Defined Pen
  | [], w => .ok w
  | b :: str, w => do
    let w ← (if 31 < b ∧ b ≠ 34 ∧ b ≠ 92 then w.put [b] else w.put [92] >>= escapeToken b)
    composeEscaped str w

def flagged (str : List UInt8) : Bool := str.any fun b => (0 < b ∧ b < 32) ∨ b = 34 ∨ b = 92

def escapedLength : List UInt8 → Nat
  | [] => 0
  | token :: str =>
    (if token ∈ [34,92,8,12,10,13,9] then 2 else if token < 32 then 6 else 1) + escapedLength str

def printStringPtr (str : List UInt8) : Leaf :=
  if flagged str then
    ⟨escapedLength str + 3,fun w => w.put [34] >>= composeEscaped str >>= Pen.put [34,0]⟩
  else
    ⟨str.length + 3,fun w => w.put [34] >>= Pen.put str >>= Pen.stop >>= Pen.put [34] >>= Pen.stop⟩

def emptyArray : Leaf := copied [91,93]

def emptyObject (depth : Nat) (fmt : Bool) : Leaf where
  needed := if fmt then depth + 4 else 3
  compose w := w.put [123] >>= Pen.put (if fmt then 10 :: List.replicate (depth - 1) 9 else []) >>= Pen.put [125,0]

/-! Each text in a block of its own -/

section Plain
variable (s : Supply) (fmt : Bool)

def Leaf.print (leaf : Leaf) : Step (Option Chunk) := do
  match ← malloc s leaf.needed with
  | none => pure none
  | some out =>
    let w ← lift (leaf.compose ⟨out.bytes,0⟩)
    pure (some ⟨out.id,w.block⟩)

def freeSome (entries : List (Option Chunk)) : Step Unit := freeAll (entries.filterMap id)

/- The for loop that composes an array -/
def joinElements : List (Option Chunk) → Pen → Step Pen
  | [], w => pure w
  | entry :: entries, w => do
    let entry ← lift (deref entry)
    let text ← lift (cString entry.bytes)
    let w ← lift (w.put text)
    let w ← lift (if entries.isEmpty then .ok w else w.put (44 :: if fmt then [32] else []) >>= Pen.stop)
    free entry
    joinElements entries w

def composeArray (entries : Chunk) (all : List (Option Chunk)) (len : Nat) (fail : Bool) : Step (Option Chunk) := do
  let out ← (if fail then pure none else malloc s len)
  match out with
  | none =>
    freeSome all
    free entries
    pure none
  | some out =>
    let w ← lift (Pen.put [91] ⟨out.bytes,0⟩ >>= Pen.stop)
    let w ← joinElements fmt all w
    free entries
    let w ← lift (w.put [93,0])
    pure (some ⟨out.id,w.block⟩)

/- The for loop that composes an object -/
def joinMembers (depth : Nat) : List (Option Chunk × Option Chunk) → Pen → Step Pen
  | [], w => pure w
  | (name,entry) :: all, w => do
    let name ← lift (deref name)
    let entry ← lift (deref entry)
    let w ← lift (w.put (if fmt then List.replicate depth 9 else []))
    let text ← lift (cString name.bytes)
    let w ← lift (w.put text >>= Pen.put (58 :: if fmt then [9] else []))
    let text ← lift (cString entry.bytes)
    let w ← lift (w.put text >>= Pen.stop)
    let w ← lift (w.put (if all.isEmpty then [] else [44]) >>= Pen.put (if fmt then [10] else []) >>= Pen.stop)
    free name
    free entry
    joinMembers depth all w

def composeObject (depth : Nat) (entries names : Chunk) (all : List (Option Chunk × Option Chunk)) (len : Nat) (fail : Bool) :
    Step (Option Chunk) := do
  let out ← (if fail then pure none else malloc s len)
  match out with
  | none =>
    freeSome (all.flatMap fun m => [m.1,m.2])
    free names
    free entries
    pure none
  | some out =>
    let w ← lift (Pen.put (123 :: if fmt then [10] else []) ⟨out.bytes,0⟩ >>= Pen.stop)
    let w ← joinMembers fmt depth all w
    free names
    free entries
    let w ← lift (w.put (if fmt then List.replicate (depth - 1) 9 else []) >>= Pen.put [125,0])
    pure (some ⟨out.id,w.block⟩)

/- The members of an object come with the depth of the object and one more. -/
mutual
def printValue : Item → Nat → Step (Option Chunk)
  | .null, _ => (copied literalNull).print s
  | .false, _ => (copied literalFalse).print s
  | .true, _ => (copied literalTrue).print s
  | .number valueint, _ => (printNumber valueint).print s
  | .string valuestring, _ => (printStringPtr valuestring).print s
  | .array child, depth => do
    if child.isEmpty then emptyArray.print s
    else
      match ← malloc s (4 * child.length) with
      | none => pure none
      | some entries =>
        let r ← printElements child (depth + 1) 5
        composeArray s fmt entries r.1 r.2.1 r.2.2
  | .object child, depth => do
    if child.isEmpty then (emptyObject depth fmt).print s
    else
      match ← malloc s (4 * child.length) with
      | none => pure none
      | some entries =>
        match ← malloc s (4 * child.length) with
        | none =>
          free entries
          pure none
        | some names =>
          let r ← printMembers child (depth + 1) (7 + if fmt then depth + 1 else 0)
          composeObject s fmt (depth + 1) entries names r.1 r.2.1 r.2.2

/- The entries, the length and whether one failed; the entries behind the first that fails are null. -/
def printElements : List Item → Nat → Nat → Step (List (Option Chunk) × Nat × Bool)
  | [], _, len => pure ([],len,false)
  | item :: child, depth, len => do
    match ← printValue item depth with
    | none => pure ([none],len,true)
    | some ret =>
      let text ← lift (cString ret.bytes)
      let r ← printElements child depth (len + text.length + 2 + if fmt then 1 else 0)
      pure (some ret :: r.1,r.2)

/- These go on behind a failure. -/
def printMembers : List (List UInt8 × Item) → Nat → Nat → Step (List (Option Chunk × Option Chunk) × Nat × Bool)
  | [], _, len => pure ([],len,false)
  | (string,item) :: child, depth, len => do
    let str ← (printStringPtr string).print s
    let ret ← printValue item depth
    match str, ret with
    | some name, some entry =>
      let value ← lift (cString entry.bytes)
      let text ← lift (cString name.bytes)
      let r ← printMembers child depth (len + value.length + text.length + 2 + if fmt then 2 + depth else 0)
      pure ((str,ret) :: r.1,r.2)
    | _, _ =>
      let r ← printMembers child depth len
      pure ((str,ret) :: r.1,r.2.1,true)
end

end Plain

/-! All texts in one buffer that grows. A pointer into it is an offset, and length is the size of the block. -/

structure Printbuffer where
  buffer : Option Chunk
  offset : Nat

def pow2gt (x : Nat) : Nat :=
  let x := x - 1
  let x := x ||| x >>> 1
  let x := x ||| x >>> 2
  let x := x ||| x >>> 4
  let x := x ||| x >>> 8
  let x := x ||| x >>> 16
  x + 1

section Buffered
variable (s : Supply) (fmt : Bool)

def ensure (needed : Nat) (p : Printbuffer) : Step (Option Nat × Printbuffer) := do
  match p.buffer with
  | none => pure (none,p)
  | some buffer =>
    if needed + p.offset ≤ buffer.bytes.length then pure (some p.offset,p)
    else
      match ← malloc s (pow2gt (needed + p.offset)) with
      | none =>
        free buffer
        pure (none,{ p with buffer := none })
      | some new =>
        let bytes ← lift (memcpy new.bytes 0 buffer.bytes)
        free buffer
        pure (some p.offset,{ p with buffer := some ⟨new.id,bytes⟩ })

def update (p : Printbuffer) : Defined Printbuffer :=
  match p.buffer with
  | none => .ok { p with offset := 0 }
  | some buffer => (fun text => { p with offset := p.offset + text.length }) <$> cString (buffer.bytes.drop p.offset)

/- ptr = ensure(p,needed), what is composed there, and p->offset += len -/
def emit (leaf : Leaf) (len : Nat) (p : Printbuffer) : Step (Option Nat × Printbuffer) := do
  match ← ensure s leaf.needed p with
  | (none,p) => pure (none,p)
  | (some ptr,p) =>
    let buffer ← lift (deref p.buffer)
    let w ← lift (leaf.compose ⟨buffer.bytes,ptr⟩)
    pure (some ptr,{ p with buffer := some ⟨buffer.id,w.block⟩, offset := p.offset + len })

/- if (!ptr) return 0 -/
def unlessFailed (m : Step (Option Nat × Printbuffer)) (next : Printbuffer → Step (Option Nat × Printbuffer)) :
    Step (Option Nat × Printbuffer) := do
  match ← m with
  | (none,p) => pure (none,p)
  | (some _,p) => next p

/- What is put between two texts, with and without the zero byte behind it -/
def separator (t : List UInt8) : Leaf := ⟨t.length + 1,fun w => w.put t >>= Pen.stop⟩
def bare (t : List UInt8) : Leaf := ⟨t.length,Pen.put t⟩

mutual
def printValueBuffered : Item → Nat → Printbuffer → Step (Option Nat × Printbuffer)
  | .null, _, p => emit s (copied literalNull) 0 p
  | .false, _, p => emit s (copied literalFalse) 0 p
  | .true, _, p => emit s (copied literalTrue) 0 p
  | .number valueint, _, p => emit s (printNumber valueint) 0 p
  | .string valuestring, _, p => emit s (printStringPtr valuestring) 0 p
  | .array child, depth, p =>
    if child.isEmpty then emit s emptyArray 0 p
    else
      unlessFailed (emit s (bare [91]) 1 p) fun q =>
      unlessFailed (printElementsBuffered child (depth + 1) q) fun q =>
      unlessFailed (emit s (separator [93]) 0 q) fun q => pure (some p.offset,q)
  | .object child, depth, p =>
    if child.isEmpty then emit s (emptyObject depth fmt) 0 p
    else
      unlessFailed (emit s (separator (123 :: if fmt then [10] else [])) (if fmt then 2 else 1) p) fun q =>
      unlessFailed (printMembersBuffered child (depth + 1) q) fun q =>
      unlessFailed (emit s (separator ((if fmt then List.replicate depth 9 else []) ++ [125])) 0 q) fun q =>
      -- the last loop has used i, which kept the offset, to count the tabs
      pure (some (if fmt then depth else p.offset),q)

def printElementsBuffered : List Item → Nat → Printbuffer → Step (Option Nat × Printbuffer)
  | [], _, p => pure (some p.offset,p)
  | item :: child, depth, p => do
    let r ← printValueBuffered item depth p
    let p ← lift (update r.2)
    unlessFailed (if child.isEmpty then pure (some p.offset,p)
        else emit s (separator (44 :: if fmt then [32] else [])) (if fmt then 2 else 1) p) fun p =>
      printElementsBuffered child depth p

def printMembersBuffered : List (List UInt8 × Item) → Nat → Printbuffer → Step (Option Nat × Printbuffer)
  | [], _, p => pure (some p.offset,p)
  | (string,item) :: child, depth, p =>
    unlessFailed (if fmt then emit s (bare (List.replicate depth 9)) depth p else pure (some p.offset,p)) fun p => do
    let r ← emit s (printStringPtr string) 0 p
    let p ← lift (update r.2)
    unlessFailed (emit s (bare (58 :: if fmt then [9] else [])) (if fmt then 2 else 1) p) fun p => do
    let r ← printValueBuffered item depth p
    let p ← lift (update r.2)
    let len := (if fmt then 1 else 0) + if child.isEmpty then 0 else 1
    unlessFailed (emit s (separator ((if child.isEmpty then [] else [44]) ++ if fmt then [10] else [])) len p) fun p =>
      printMembersBuffered child depth p
end

/- The block, from where the result points into it -/
def cJsonPrintBuffered (item : Item) (prebuffer : Nat) : Step (Option Chunk) := do
  let buffer ← malloc s prebuffer
  let r ← printValueBuffered s fmt item 0 ⟨buffer,0⟩
  match r.1 with
  | none => pure none
  | some ptr =>
    let buffer ← lift (deref r.2.buffer)
    pure (some ⟨buffer.id,buffer.bytes.drop ptr⟩)

end Buffered

end YunbaIot.CJsonPrint
