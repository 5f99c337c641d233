import YunbaIot.CJsonPrint

/-! cJSON_Minify: two pointers move along one block, and nothing is stored ahead of the one that reads. -/
namespace YunbaIot.CJsonMinify
open Block CJsonPrint

structure Moving where
  into : Pen
  json : Nat

def Moving.look (i : Nat) (m : Moving) : Defined UInt8 := m.into.block[m.json + i]?.elim (.error .load) .ok

def Moving.skip (n : Nat) (m : Moving) : Moving := { m with json := m.json + n }

/- *into++=*json++ -/
def Moving.copy (m : Moving) : Defined Moving := do
  let b ← m.look 0
  let into ← m.into.put [b]
  pure ⟨into,m.json + 1⟩

/- Every turn of a loop moves json on: without fuel it has left the block. -/
def endOfLine : Nat → Moving → Defined Moving
  | 0, _ => .error .load
  | fuel+1, m => do
    let c ← m.look 0
    if c ≠ 0 ∧ c ≠ 10 then endOfLine fuel (m.skip 1) else pure m

def endOfComment : Nat → Moving → Defined Moving
  | 0, _ => .error .load
  | fuel+1, m => do
    let c ← m.look 0
    if c = 0 then pure (m.skip 2)
    else
      let ends ← (if c = 42 then (· == 47) <$> m.look 1 else pure false)
      if ends then pure (m.skip 2) else endOfComment fuel (m.skip 1)

def endOfString : Nat → Moving → Defined Moving
  | 0, _ => .error .load
  | fuel+1, m => do
    let c ← m.look 0
    if c ≠ 0 ∧ c ≠ 34 then do
      let m ← (if c = 92 then m.copy else pure m)
      let m ← m.copy
      endOfString fuel m
    else pure m

def Moving.size (m : Moving) : Nat := m.into.block.length + 1

def minify : Nat → Moving → Defined Moving
  | 0, _ => .error .load
  | fuel+1, m => do
    let c ← m.look 0
    if c = 0 then pure m
    else if c ∈ [32,9,13,10] then minify fuel (m.skip 1)
    else if c = 47 then do
      let d ← m.look 1
      let m ← (if d = 47 then endOfLine m.size m else if d = 42 then endOfComment m.size m else m.copy)
      minify fuel m
    else if c = 34 then do
      let m ← m.copy
      let m ← endOfString m.size m
      let m ← m.copy
      minify fuel m
    else do
      let m ← m.copy
      minify fuel m

def cJsonMinify (json : List UInt8) : Defined (List UInt8) := do
  let m ← minify (json.length + 1) ⟨⟨json,0⟩,0⟩
  Pen.block <$> m.into.stop

end YunbaIot.CJsonMinify
