import Mathlib.Data.List.TakeWhile
import Mathlib.Tactic.Common

/-! Blocks of memory of a known size, and the C string functions on them. A load or a store
outside of a block, or through no block at all, is a fault: the run has no result. A pointer
into a block is what the block holds from there on. -/
namespace YunbaIot.Block

inductive Fault where
  | load
  | store
  | null
  deriving DecidableEq, Repr

abbrev Defined := Except Fault

section Steps
variable {α β : Type}

theorem bindOk {x : Defined α} {f : α → Defined β} {b : β} :
    (x >>= f) = .ok b ↔ ∃ a, x = .ok a ∧ f a = .ok b := by
  cases x with
  | error e => exact ⟨fun h => (by cases h),fun ⟨_,h,_⟩ => (by cases h)⟩
  | ok a => exact ⟨fun h => ⟨a,rfl,h⟩,fun ⟨_,same,h⟩ => (by cases same; exact h)⟩

@[simp] theorem okBind (a : α) (f : α → Defined β) : ((.ok a : Defined α) >>= f) = f a := rfl

theorem mapOk {x : Defined α} {f : α → β} {b : β} : (f <$> x) = .ok b ↔ ∃ a, x = .ok a ∧ f a = b := by
  cases x with
  | error e => exact ⟨fun h => (by cases h),fun ⟨_,h,_⟩ => (by cases h)⟩
  | ok a => exact ⟨fun h => ⟨a,rfl,Except.ok.inj h⟩,fun ⟨_,same,h⟩ => (by cases same; exact congrArg Except.ok h)⟩

theorem mapSomeOk {x : Defined (Option α)} {f : α → β} {b : β} :
    ((·.map f) <$> x) = .ok (some b) ↔ ∃ a, x = .ok (some a) ∧ f a = b := by
  rw [mapOk]
  constructor
  · rintro ⟨a,h,same⟩
    obtain ⟨inner,rfl,rfl⟩ := Option.map_eq_some_iff.mp same
    exact ⟨inner,h,rfl⟩
  · rintro ⟨a,h,rfl⟩
    exact ⟨some a,h,rfl⟩

theorem bindCongr {x : Defined α} {f g : α → Defined β} (same : ∀ a, x = .ok a → f a = g a) :
    (x >>= f) = (x >>= g) := by
  cases x with
  | error e => rfl
  | ok a => exact same a rfl

def deref : Option α → Defined α
  | none => .error .null
  | some a => .ok a

theorem derefOk {p : Option α} {a : α} : deref p = .ok a ↔ p = some a := by
  cases p with
  | none => exact ⟨fun h => (by cases h),fun h => (by cases h)⟩
  | some b => exact ⟨fun h => congrArg some (Except.ok.inj h),fun h => congrArg Except.ok (Option.some.inj h)⟩

end Steps

/-! Strings -/

/- The bytes before the first zero byte, which is loaded too. -/
def cString : List UInt8 → Defined (List UInt8)
  | [] => .error .load
  | b :: rest => if b = 0 then .ok [] else (b :: ·) <$> cString rest

def text (bytes : List UInt8) : List UInt8 := bytes.takeWhile (· ≠ 0)

theorem cStringEnded {bytes : List UInt8} (ended : 0 ∈ bytes) : cString bytes = .ok (text bytes) := by
  induction bytes with
  | nil => cases ended
  | cons b rest ih =>
    unfold cString text
    by_cases zero : b = 0
    · simp [zero]
    · have later := ih ((List.mem_cons.mp ended).resolve_left (Ne.symm zero))
      simp only [later, List.takeWhile_cons, ne_eq, zero, not_false_eq_true, decide_true, if_true]
      rfl

theorem cStringOpen {bytes : List UInt8} (endless : 0 ∉ bytes) : cString bytes = .error .load := by
  induction bytes with
  | nil => rfl
  | cons b rest ih =>
    obtain ⟨nonzero,later⟩ := List.ne_and_not_mem_of_not_mem_cons endless
    unfold cString
    rw [if_neg (Ne.symm nonzero), ih later]
    rfl

theorem cStringOk {bytes s : List UInt8} : cString bytes = .ok s ↔ 0 ∈ bytes ∧ text bytes = s := by
  by_cases ended : 0 ∈ bytes
  · rw [cStringEnded ended]
    exact ⟨fun h => ⟨ended,Except.ok.inj h⟩,fun h => congrArg Except.ok h.2⟩
  · rw [cStringOpen ended]
    exact ⟨fun h => (by cases h),fun h => absurd h.1 ended⟩

/- A string followed by a zero byte is read back. -/
theorem textOf {s : List UInt8} (nonzero : 0 ∉ s) (behind : List UInt8) : text (s ++ 0 :: behind) = s := by
  induction s with
  | nil => rfl
  | cons b rest ih =>
    obtain ⟨head,tail⟩ := List.ne_and_not_mem_of_not_mem_cons nonzero
    have later := ih tail
    unfold text at later ⊢
    simp only [List.cons_append, List.takeWhile_cons, ne_eq, Ne.symm head, not_false_eq_true, decide_true, if_true,
      later]

/-! Searches -/

/- The first place of needle, with what follows it. -/
def strstr (needle : List UInt8) : List UInt8 → Option (List UInt8)
  | [] => if needle = [] then some [] else none
  | c :: s => if needle.isPrefixOf (c :: s) then some (c :: s) else strstr needle s

theorem strstrNone {needle s : List UInt8} (absent : strstr needle s = none) (before : List UInt8) :
    ¬before ++ needle <+: s := by
  induction s generalizing before with
  | nil =>
    rintro inside
    obtain ⟨_,rfl⟩ := List.append_eq_nil_iff.mp (List.prefix_nil.mp inside)
    exact absurd absent (by simp [strstr])
  | cons c s ih =>
    rw [strstr] at absent
    split at absent
    · cases absent
    · rename_i other
      intro inside
      cases before with
      | nil => exact other (List.isPrefixOf_iff_prefix.mpr inside)
      | cons b before => exact ih absent before (List.cons_prefix_cons.mp inside).2

theorem strstrSome {needle s found : List UInt8} (there : strstr needle s = some found) :
    ∃ before behind, found = needle ++ behind ∧ s = before ++ found ∧
      ∀ other, other ++ needle <+: s → before.length ≤ other.length := by
  induction s with
  | nil =>
    rw [strstr] at there
    split at there
    · rename_i none
      cases there
      exact ⟨[],[],by simp [none],rfl,fun _ _ => Nat.zero_le _⟩
    · cases there
  | cons c s ih =>
    rw [strstr] at there
    split at there
    · rename_i here
      cases there
      obtain ⟨behind,same⟩ := List.isPrefixOf_iff_prefix.mp here
      exact ⟨[],behind,same.symm,rfl,fun _ _ => Nat.zero_le _⟩
    · rename_i notHere
      obtain ⟨before,behind,starts,rfl,first⟩ := ih there
      refine ⟨c :: before,behind,starts,rfl,?_⟩
      intro other inside
      cases other with
      | nil => exact absurd (List.isPrefixOf_iff_prefix.mpr inside) notHere
      | cons b other => exact Nat.succ_le_succ (first other (List.cons_prefix_cons.mp inside).2)

/- The first occurrence is found. -/
theorem strstrFirst {needle before behind : List UInt8}
    (first : ∀ other, other ++ needle <+: before ++ (needle ++ behind) → before.length ≤ other.length) :
    strstr needle (before ++ (needle ++ behind)) = some (needle ++ behind) := by
  have inside : before ++ needle <+: before ++ (needle ++ behind) := ⟨behind,List.append_assoc ..⟩
  cases there : strstr needle (before ++ (needle ++ behind)) with
  | none => exact absurd inside (strstrNone there before)
  | some found =>
    obtain ⟨before',behind',rfl,same,first'⟩ := strstrSome there
    have inside' : before' ++ needle <+: before ++ (needle ++ behind) := by
      rw [same]
      exact ⟨behind',List.append_assoc ..⟩
    have length : before.length = before'.length := Nat.le_antisymm (first before' inside') (first' before inside)
    rw [(List.append_inj same length).2]

theorem strstrByte (c : UInt8) (s : List UInt8) :
    strstr [c] s = if c ∈ s then some (s.dropWhile (· ≠ c)) else none := by
  induction s with
  | nil => rfl
  | cons b s ih =>
    rw [strstr]
    by_cases here : b = c
    · subst here
      simp
    · have other : ¬[c].isPrefixOf (b :: s) = true :=
        fun starts => here (List.cons_prefix_cons.mp (List.isPrefixOf_iff_prefix.mp starts)).1.symm
      rw [if_neg other, ih]
      simp [here, Ne.symm here]

/-! Loads -/

def bytesAt (src : List UInt8) (off len : Nat) : Defined (List UInt8) :=
  if off + len ≤ src.length then .ok ((src.drop off).take len) else .error .load

/-! Stores -/

def memcpy (dest : List UInt8) (off : Nat) (src : List UInt8) : Defined (List UInt8) :=
  if off + src.length ≤ dest.length then .ok (dest.take off ++ src ++ dest.drop (off + src.length))
  else .error .store

def strcpy (dest : List UInt8) (s : List UInt8) : Defined (List UInt8) := memcpy dest 0 (s ++ [0])

theorem memcpyOk {dest src out : List UInt8} {off : Nat} : memcpy dest off src = .ok out ↔
    off + src.length ≤ dest.length ∧ dest.take off ++ src ++ dest.drop (off + src.length) = out := by
  unfold memcpy
  split
  · rename_i fits
    exact ⟨fun h => ⟨fits,Except.ok.inj h⟩,fun h => congrArg Except.ok h.2⟩
  · rename_i past
    exact ⟨fun h => (by cases h),fun h => absurd h.1 past⟩

/- Behind what was copied into a zeroed block there are zeros still. -/
theorem zeroedCopy {n : Nat} {src : List UInt8} (fits : src.length ≤ n) :
    memcpy (List.replicate n 0) 0 src = .ok (src ++ List.replicate (n - src.length) 0) := by
  rw [memcpyOk]
  refine ⟨?_,?_⟩
  · rw [List.length_replicate]
    omega
  · simp

theorem strcpyOk {dest s out : List UInt8} : strcpy dest s = .ok out ↔
    s.length < dest.length ∧ s ++ 0 :: dest.drop (s.length + 1) = out := by
  unfold strcpy
  rw [memcpyOk]
  simp only [List.length_append, List.length_singleton, Nat.zero_add, List.take_zero, List.nil_append,
    List.append_assoc, List.singleton_append]
  exact Iff.rfl

end YunbaIot.Block
