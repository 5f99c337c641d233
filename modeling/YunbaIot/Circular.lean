import Mathlib.Data.Nat.ModEq

/-! A queue in a ring of cells: it holds `total` of them from `use` on, going round at the end. -/
namespace YunbaIot.Circular

structure Queue (α : Type) (size : Nat) where
  cells : Nat → α
  use : Nat
  total : Nat
  inside : use < size
  fits : total ≤ size

variable {α : Type} {size : Nat}

def free (q : Queue α size) : Nat := (q.use + q.total) % size

/- The cells that are held, the one in front first. -/
def slots (q : Queue α size) : List Nat := (List.range q.total).map fun k => (q.use + k) % size

def contents (q : Queue α size) : List α := (slots q).map q.cells

def put (q : Queue α size) (a : α) (room : q.total < size) : Queue α size where
  cells j := if j = free q then a else q.cells j
  use := q.use
  total := q.total + 1
  inside := q.inside
  fits := room

def take (q : Queue α size) : Queue α size where
  cells := q.cells
  use := (q.use + 1) % size
  total := q.total - 1
  inside := Nat.mod_lt _ (Nat.zero_lt_of_lt q.inside)
  fits := Nat.le_trans (Nat.sub_le _ _) q.fits

theorem freeInside (q : Queue α size) : free q < size := Nat.mod_lt _ (Nat.zero_lt_of_lt q.inside)

theorem freshSlot (q : Queue α size) (room : q.total < size) : free q ∉ slots q := by
  intro held
  obtain ⟨k,among,same⟩ := List.mem_map.mp held
  have below : k < q.total := List.mem_range.mp among
  have equal : k ≡ q.total [MOD size] := Nat.ModEq.add_left_cancel' q.use same
  exact Nat.ne_of_lt below (equal.eq_of_lt_of_lt (Nat.lt_trans below room) room)

theorem putFree (q : Queue α size) (a : α) (room : q.total < size) : free (put q a room) = (free q + 1) % size := by
  unfold free put
  rw [Nat.mod_add_mod, Nat.add_assoc]

theorem putContents (q : Queue α size) (a : α) (room : q.total < size) :
    contents (put q a room) = contents q ++ [a] := by
  have grown : slots (put q a room) = slots q ++ [free q] := by
    unfold slots put free
    rw [List.range_succ, List.map_append]
    rfl
  have others : (slots q).map (put q a room).cells = (slots q).map q.cells := by
    apply List.map_congr_left
    intro j held
    exact if_neg fun same : j = free q => freshSlot q room (same ▸ held)
  have new : (put q a room).cells (free q) = a := if_pos rfl
  rw [contents, grown, List.map_append, others, List.map_singleton, new]
  rfl

theorem takeFree (q : Queue α size) (some : 0 < q.total) : free (take q) = free q := by
  unfold free take
  rw [Nat.mod_add_mod, Nat.add_assoc, Nat.add_sub_cancel' some]

theorem takeContents (q : Queue α size) (some : 0 < q.total) : contents q = q.cells q.use :: contents (take q) := by
  have front : slots q = q.use :: slots (take q) := by
    have total : q.total = q.total - 1 + 1 := (Nat.sub_add_cancel some).symm
    unfold slots take
    dsimp only
    rw [total, Nat.add_sub_cancel, List.range_succ_eq_map, List.map_cons, List.map_map, Nat.add_zero,
      Nat.mod_eq_of_lt q.inside]
    congr 1
    apply List.map_congr_left
    intro k _
    rw [Function.comp_apply, Nat.mod_add_mod, Nat.add_assoc, Nat.add_comm 1 k]
  rw [contents, front, List.map_cons]
  rfl

theorem emptyContents (q : Queue α size) (none : q.total = 0) : contents q = [] := by
  unfold contents slots
  rw [none]
  rfl

end YunbaIot.Circular
