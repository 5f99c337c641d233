import YunbaIot.Block

/-! Programs that ask for memory and give it back. The ledger knows which blocks are held, so one that is
given back twice is a fault, and one that is never given back is still there. -/
namespace YunbaIot.Allocation
open Block

/- A block is known by the number of the request that gave it; the latest is first. -/
structure Ledger where
  requests : Nat
  held : List Nat
  ordered : (requests :: held).Pairwise (· > ·)

/- Which requests are granted, and what the memory holds then -/
structure Supply where
  give : Nat → Nat → Option (List UInt8)
  sized : ∀ n size b, give n size = some b → b.length = size

structure Chunk where
  id : Nat
  bytes : List UInt8

def Ledger.refuse (l : Ledger) : Ledger where
  requests := l.requests + 1
  held := l.held
  ordered := by
    have ordered := List.pairwise_cons.mp l.ordered
    exact List.pairwise_cons.mpr ⟨fun id inside => Nat.lt_succ_of_lt (ordered.1 id inside),ordered.2⟩

def Ledger.grant (l : Ledger) : Ledger where
  requests := l.requests + 1
  held := l.requests :: l.held
  ordered := by
    refine List.pairwise_cons.mpr ⟨fun id inside => ?_,l.ordered⟩
    rcases List.mem_cons.mp inside with rfl | older
    · exact Nat.lt_succ_self _
    · exact Nat.lt_succ_of_lt ((List.pairwise_cons.mp l.ordered).1 id older)

def Ledger.release (id : Nat) (l : Ledger) : Ledger where
  requests := l.requests
  held := l.held.erase id
  ordered := l.ordered.sublist (List.erase_sublist.cons_cons _)

abbrev Step := StateT Ledger Defined

def malloc (s : Supply) (size : Nat) : Step (Option Chunk) := fun l =>
  match s.give l.requests size with
  | some bytes => .ok (some ⟨l.requests,bytes⟩,l.grant)
  | none => .ok (none,l.refuse)

def free (c : Chunk) : Step Unit := fun l => if c.id ∈ l.held then .ok ((),l.release c.id) else .error .store

def freeAll : List Chunk → Step Unit
  | [] => pure ()
  | c :: cs => do
    free c
    freeAll cs

def lift {α : Type} (x : Defined α) : Step α := fun l => (·,l) <$> x

/-! A run that ends, and what holds then -/

section Ends
variable {α β : Type} {l : Ledger}

def Ends (m : Step α) (l : Ledger) (post : α → Ledger → Prop) : Prop := ∃ a l', m l = .ok (a,l') ∧ post a l'

theorem Ends.pure {a : α} {post : α → Ledger → Prop} (done : post a l) : Ends (Pure.pure a) l post := ⟨a,l,rfl,done⟩

theorem Ends.mono {m : Step α} {post post' : α → Ledger → Prop} (ends : Ends m l post)
    (weaker : ∀ a l', post a l' → post' a l') : Ends m l post' := by
  obtain ⟨a,l',run,done⟩ := ends
  exact ⟨a,l',run,weaker a l' done⟩

theorem Ends.bind {m : Step α} {f : α → Step β} {post : α → Ledger → Prop} {post' : β → Ledger → Prop} (first : Ends m l post)
    (next : ∀ a l', post a l' → Ends (f a) l' post') : Ends (m >>= f) l post' := by
  obtain ⟨a,l',run,done⟩ := first
  obtain ⟨b,l'',run',done'⟩ := next a l' done
  refine ⟨b,l'',?_,done'⟩
  change (m l >>= fun r => f r.1 r.2) = _
  rw [run]
  exact run'

theorem Ends.lift {x : Defined α} {a : α} {post : α → Ledger → Prop} (value : x = .ok a) (done : post a l) :
    Ends (Allocation.lift x) l post := by
  subst value
  exact ⟨a,l,rfl,done⟩

theorem Ends.bindLift {x : Defined α} {a : α} {f : α → Step β} {post : β → Ledger → Prop} (value : x = .ok a)
    (next : Ends (f a) l post) : Ends (Allocation.lift x >>= f) l post := by
  have first : Ends (Allocation.lift x) l fun b l' => b = a ∧ l' = l := .lift value ⟨rfl,rfl⟩
  refine .bind first fun b l' ⟨same,same'⟩ => ?_
  rwa [same, same']

/- Of every block that is given back one has to be held. -/
theorem Ends.free {c : Chunk} {newer older : List Nat} (held : l.held = newer ++ c.id :: older) :
    Ends (Allocation.free c) l fun _ l' => l'.requests = l.requests ∧ l'.held = newer ++ older := by
  have inside : c.id ∈ l.held := by simp [held]
  have later : c.id ∉ newer := by
    have ordered := (List.pairwise_cons.mp l.ordered).2
    rw [held] at ordered
    exact fun twice => absurd ((List.pairwise_append.mp ordered).2.2 c.id twice c.id List.mem_cons_self) (Nat.lt_irrefl _)
  refine ⟨(),l.release c.id,if_pos inside,rfl,?_⟩
  change l.held.erase c.id = _
  rw [held, List.erase_append_right _ later, List.erase_cons_head]

theorem Ends.freeLatest {c : Chunk} {older : List Nat} (held : l.held = c.id :: older) :
    Ends (Allocation.free c) l fun _ l' => l'.requests = l.requests ∧ l'.held = older := by
  have latest : l.held = [] ++ c.id :: older := held
  exact .free latest

theorem Ends.freeAll {cs : List Chunk} {older : List Nat} (held : l.held = (cs.map Chunk.id).reverse ++ older) :
    Ends (Allocation.freeAll cs) l fun _ l' => l'.requests = l.requests ∧ l'.held = older := by
  induction cs generalizing l with
  | nil => exact .pure ⟨rfl,held⟩
  | cons c cs ih =>
    have first : l.held = (cs.map Chunk.id).reverse ++ c.id :: older := by simp [held]
    refine .bind (.free first) fun _ l' ⟨same,left⟩ => ?_
    exact (ih left).mono fun _ l'' ⟨same',left'⟩ => ⟨same'.trans same,left'⟩

end Ends

/-! Requests that were refused -/

section Refusals
variable {s : Supply} {l l' l'' : Ledger}

/- One of the requests between two moments -/
def Refused (s : Supply) (l l' : Ledger) : Prop := ∃ n size, l.requests ≤ n ∧ n < l'.requests ∧ s.give n size = none

theorem Refused.earlier (refused : Refused s l' l'') (before : l.requests ≤ l'.requests) : Refused s l l'' := by
  obtain ⟨n,size,first,last,none⟩ := refused
  exact ⟨n,size,Nat.le_trans before first,last,none⟩

theorem Refused.later (refused : Refused s l l') (after : l'.requests ≤ l''.requests) : Refused s l l'' := by
  obtain ⟨n,size,first,last,none⟩ := refused
  exact ⟨n,size,first,Nat.lt_of_lt_of_le last after,none⟩

theorem Ends.malloc {size : Nat} {post : Option Chunk → Ledger → Prop}
    (refused : ∀ l', l'.requests = l.requests + 1 → l'.held = l.held → Refused s l l' → post none l')
    (granted : ∀ c l', l'.requests = l.requests + 1 → l'.held = c.id :: l.held → c.bytes.length = size → post (some c) l') :
    Ends (Allocation.malloc s size) l post := by
  cases given : s.give l.requests size with
  | none =>
    refine ⟨none,l.refuse,?_,refused _ rfl rfl ⟨l.requests,size,Nat.le_refl _,Nat.lt_succ_self _,given⟩⟩
    simp only [Allocation.malloc, given]
  | some bytes =>
    refine ⟨some ⟨l.requests,bytes⟩,l.grant,?_,granted _ _ rfl rfl (s.sized _ _ _ given)⟩
    simp only [Allocation.malloc, given]

end Refusals

end YunbaIot.Allocation
