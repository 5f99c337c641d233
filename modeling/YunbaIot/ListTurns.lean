import YunbaIot.ListRings

/-! The order in which listGET_OWNER_OF_NEXT_ENTRY comes to the items of a list. -/
namespace YunbaIot.FreeRtosList
open LinkedRing

section Order
variable {κ ι : Type} {m : Lists κ ι} {r : κ → List ι} {l : κ}

/- Whose turn it is, from the item behind the index around to the item the index is at -/
def Turns (m : Lists κ ι) (r : κ → List ι) (l : κ) (q : List ι) : Prop :=
  ∃ a b, r l = a ++ b ∧ m.pxIndex l = before (.xListEnd l) (nodes a) ∧ q = b ++ a

theorem turnsAre (shows : Shows m r) (l : κ) : ∃ q, Turns m r l q ∧ q.Perm (r l) := by
  obtain ⟨A,B,cut,there,_⟩ := ringFrom (shows.ring l) (shows.index l)
  obtain ⟨a,b,split,rfl,rfl⟩ := nodesSplit cut
  exact ⟨b ++ a,⟨a,b,split,there.symm,rfl⟩,split ▸ List.perm_append_comm⟩

theorem beforeCut {a b c d : List ι} (once : (a ++ b).Nodup) (same : a ++ b = c ++ d)
    (at_it : before (Node.xListEnd l) (nodes a) = before (.xListEnd l) (nodes c)) : a = c := by
  rcases List.eq_nil_or_concat a with rfl | ⟨a,x,rfl⟩
  · rcases List.eq_nil_or_concat c with rfl | ⟨c,y,rfl⟩
    · rfl
    · simp [nodes, before] at at_it
  · rcases List.eq_nil_or_concat c with rfl | ⟨c,y,rfl⟩
    · simp [nodes, before] at at_it
    · obtain rfl : x = y := by simpa [nodes] using at_it
      simp only [List.concat_eq_append, List.append_assoc, List.singleton_append] at once same ⊢
      have out := (List.nodup_cons.mp (List.perm_middle.nodup_iff.mp once)).1
      rw [List.mem_append, not_or] at out
      rw [((List.append_cons_inj_of_notMem out.1 out.2).mp same).1]

theorem turnsUnique {q q' : List ι} (shows : Shows m r) (turns : Turns m r l q) (turns' : Turns m r l q') : q = q' := by
  obtain ⟨a,b,split,there,rfl⟩ := turns
  obtain ⟨c,d,split',there',rfl⟩ := turns'
  have once : (a ++ b).Nodup := by
    rw [← split]
    exact List.Nodup.of_map _ (List.nodup_cons.mp (shows.ring l).once).2
  obtain rfl := beforeCut once (split.symm.trans split') (there.symm.trans there')
  rw [List.append_cancel_left (split.symm.trans split')]

/- A list that is left alone, and its index too, keeps its turns. -/
theorem turnsCongr {m' : Lists κ ι} {r' : κ → List ι} {q : List ι} (turns : Turns m r l q) (same : r' l = r l)
    (index : m'.pxIndex l = m.pxIndex l) : Turns m' r' l q := by
  obtain ⟨a,b,split,there,order⟩ := turns
  exact ⟨a,b,same.trans split,index.trans there,order⟩

/- Last, or last but for the one the index is at -/
def Joined (m : Lists κ ι) (l : κ) (i : ι) (q q' : List ι) : Prop :=
  ∃ front back, q = front ++ back ∧ q' = front ++ i :: back ∧ ∀ j ∈ back, back = [j] ∧ m.pxIndex l = .item j

end Order

section Insertions
variable {κ ι : Type} [DecidableEq κ] {m : Lists κ ι} {r : κ → List ι} {l : κ} {i : ι}

theorem insertTurns {c d q : List ι} {m' : Lists κ ι} (turns : Turns m r l q) (split : r l = c ++ d)
    (index : m'.pxIndex = m.pxIndex) :
    ∃ x y, q = x ++ y ∧ Turns m' (Function.update r l (c ++ i :: d)) l (x ++ i :: y) := by
  obtain ⟨a,b,split',there,rfl⟩ := turns
  rcases List.append_eq_append_iff.mp (split'.symm.trans split) with ⟨e,rfl,rfl⟩ | ⟨e,rfl,rfl⟩
  · refine ⟨e,d ++ a,by simp,a,e ++ i :: d,by simp,by rw [index, there],by simp⟩
  · rcases List.eq_nil_or_concat e with rfl | ⟨e,x,rfl⟩
    · refine ⟨[],b ++ c,by simp,c,i :: b,by simp,?_,by simp⟩
      rw [index, there, List.append_nil]
    · refine ⟨b ++ c,e ++ [x],by simp,c ++ i :: (e ++ [x]),b,by simp,?_,by simp⟩
      rw [index, there]
      simp [nodes, before]

end Insertions

section Moves
variable {κ ι : Type} [DecidableEq κ] [DecidableEq ι] {m : Lists κ ι} {r : κ → List ι} {l : κ} {i : ι}

theorem nextEntryShows {q : List ι} (shows : Shows m r) (turns : Turns m r l (i :: q)) :
    (listGetOwnerOfNextEntry l m).1 = .item i ∧ Shows (listGetOwnerOfNextEntry l m).2 r ∧
      Turns (listGetOwnerOfNextEntry l m).2 r l (q ++ [i]) := by
  obtain ⟨a,b,split,there,first⟩ := turns
  have ring : Ring m.pxNext m.pxPrevious (.xListEnd l) (nodes a ++ nodes b) := by
    have whole := shows.ring l
    rwa [split, List.map_append] at whole
  have moved : ∀ {n : Node κ ι}, n ∈ Node.xListEnd l :: (r l).map .item → Shows (setIndex l n m) r := by
    refine fun {n} inside => ⟨shows.ring,shows.container,shows.count,shows.last,fun k => ?_⟩
    by_cases same : k = l
    · subst same
      simpa only [setIndex, Function.update_self] using inside
    · simpa only [setIndex, Function.update_of_ne same] using shows.index k
  cases b with
  | cons x b =>
    obtain ⟨rfl,rfl⟩ : i = x ∧ q = b ++ a := by simpa using first
    have next : m.pxNext (m.pxIndex l) = .item i := there ▸ (ringAt.mp ring).2.2.2.1
    have same : listGetOwnerOfNextEntry l m = (.item i,setIndex l (.item i) m) := by
      simp [listGetOwnerOfNextEntry, setIndex, next]
    rw [same]
    refine ⟨rfl,moved (by simp [split]),a ++ [i],b,by simpa using split,?_,by simp⟩
    simp [setIndex, nodes]
  | nil =>
    have all : a = i :: q := by simpa using first.symm
    have atEnd : m.pxNext (m.pxIndex l) = .xListEnd l := there ▸ (ringAt.mp ring).2.2.2.1
    have next : m.pxNext (.xListEnd l) = .item i := by
      have ahead := (ringEnd (shows.ring l)).1
      rw [split, all] at ahead
      exact ahead
    have same : listGetOwnerOfNextEntry l m = (.item i,setIndex l (.item i) m) := by
      simp [listGetOwnerOfNextEntry, setIndex, atEnd, next]
    rw [same]
    refine ⟨rfl,moved (by simp [split, all]),[i],q,by simp [split, all],?_,rfl⟩
    simp [setIndex, nodes, before]

theorem insertEndTurns {a b q : List ι} (shows : Shows m r) (turns : Turns m r l q) (split : r l = a ++ b)
    (there : m.pxIndex l = behind (.xListEnd l) (nodes b)) :
    ∃ q', Joined m l i q q' ∧ Turns (vListInsertEnd l i m) (Function.update r l (a ++ i :: b)) l q' := by
  have index : (vListInsertEnd l i m).pxIndex l = m.pxIndex l := rfl
  cases b with
  | nil =>
    have now : Turns m r l a := ⟨[],a,by simpa using split,there,by simp⟩
    obtain rfl := turnsUnique shows turns now
    refine ⟨q ++ [i],⟨q,[],by simp,rfl,by simp⟩,[],q ++ [i],?_,index.trans there,by simp⟩
    rw [Function.update_self, List.nil_append]
  | cons j b =>
    have now : Turns m r l (b ++ (a ++ [j])) := ⟨a ++ [j],b,by simpa using split,by simpa [nodes] using there,rfl⟩
    obtain rfl := turnsUnique shows turns now
    refine ⟨b ++ a ++ [i,j],⟨b ++ a,[j],by simp,by simp,?_⟩,a ++ [i,j],b,?_,?_,by simp⟩
    · rintro k inside
      rw [List.mem_singleton.mp inside, there]
      exact ⟨rfl,by simp [nodes]⟩
    · rw [Function.update_self]
      simp
    · rw [index, there]
      simp [nodes, before]

theorem eraseMiddle {x y : List ι} (out : i ∉ x) : (x ++ i :: y).erase i = x ++ y := by
  rw [List.erase_append_right _ out, List.erase_cons_head]

theorem removeTurns {a b q : List ι} {m' : Lists κ ι} (shows : Shows m r) (turns : Turns m r l q) (split : r l = a ++ i :: b)
    (index : m'.pxIndex = if m.pxIndex l = .item i then Function.update m.pxIndex l (before (.xListEnd l) (nodes a))
      else m.pxIndex) : Turns m' (Function.update r l (a ++ b)) l (q.erase i) := by
  obtain ⟨c,d,split',there,rfl⟩ := turns
  have once : (a ++ i :: b).Nodup := by
    rw [← split]
    exact List.Nodup.of_map _ (List.nodup_cons.mp (shows.ring l).once).2
  have out := (List.nodup_cons.mp (List.perm_middle.nodup_iff.mp once)).1
  rw [List.mem_append, not_or] at out
  have same : a ++ i :: b = c ++ d := split.symm.trans split'
  rcases List.mem_append.mp (show i ∈ c ++ d by rw [← same]; simp) with early | late
  · obtain ⟨c₁,c₂,rfl⟩ := List.append_of_mem early
    rw [List.append_assoc, List.cons_append] at same
    obtain ⟨rfl,_,rfl⟩ := (List.append_cons_inj_of_notMem out.1 out.2).mp same
    have before_it : i ∉ d ++ a := fun inside => by
      simp only [List.mem_append] at inside out
      tauto
    refine ⟨a ++ c₂,d,by simp,?_,?_⟩
    · rw [index]
      rcases List.eq_nil_or_concat c₂ with rfl | ⟨c₂,x,rfl⟩
      · rw [if_pos (by simpa [nodes] using there), Function.update_self, List.append_nil]
      · have at_x : m.pxIndex l = .item x := by simpa [nodes, before] using there
        have apart : x ≠ i := by
          rintro rfl
          simp at out
        rw [if_neg (by simp [at_x, apart]), at_x]
        simp [nodes, before]
    · rw [← List.append_assoc d, eraseMiddle before_it, List.append_assoc]
  · obtain ⟨d₁,d₂,rfl⟩ := List.append_of_mem late
    rw [← List.append_assoc] at same
    obtain ⟨rfl,_,rfl⟩ := (List.append_cons_inj_of_notMem out.1 out.2).mp same
    simp only [List.mem_append, not_or] at out
    have elsewhere : m.pxIndex l ≠ .item i := by
      rw [there]
      rcases List.eq_nil_or_concat c with rfl | ⟨c,x,rfl⟩
      · simp [nodes]
      · have apart : x ≠ i := by
          rintro rfl
          simp at out
        simp [nodes, apart]
    refine ⟨c,d₁ ++ b,by simp,by rw [index, if_neg elsewhere, there],?_⟩
    rw [List.append_assoc, List.cons_append, eraseMiddle out.1.2, List.append_assoc]

end Moves
end YunbaIot.FreeRtosList
