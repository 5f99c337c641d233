import YunbaIot.CJsonRendering

/-! Each piece of a text is written into a block that has the room it asked for. -/
namespace YunbaIot.CJsonComposing
open Block CJson Allocation CJsonPrint CJsonRendering

/- A pen behind what it has written -/
def penAt (before room : List UInt8) : Pen := ⟨before ++ room,before.length⟩

theorem putAt {before room t : List UInt8} (fits : t.length ≤ room.length) :
    (penAt before room).put t = .ok (penAt (before ++ t) (room.drop t.length)) := by
  have copied : memcpy (before ++ room) before.length t = .ok (before ++ t ++ room.drop t.length) := by
    refine memcpyOk.mpr ⟨by rw [List.length_append]; omega,?_⟩
    rw [List.take_left', ← List.drop_drop, List.drop_left'] <;> rfl
  simp only [Pen.put, penAt, copied, List.length_append]
  rfl

theorem stopAt {before room : List UInt8} (fits : 0 < room.length) :
    (penAt before room).stop = .ok (penAt before (0 :: room.drop 1)) := by
  have copied : memcpy (before ++ room) before.length [0] = .ok (before ++ [0] ++ room.drop 1) := by
    refine memcpyOk.mpr ⟨by rw [List.length_append]; exact Nat.add_le_add_left fits _,?_⟩
    rw [List.take_left' rfl, ← List.drop_drop, List.drop_left' rfl]
    rfl
  simp only [Pen.stop, penAt, copied]
  rw [List.append_assoc]
  rfl

/- What a computation without a fault gives -/
def Gives {α : Type} (x : Defined α) (post : α → Prop) : Prop := ∃ a, x = .ok a ∧ post a

theorem Gives.bind {α β : Type} {x : Defined α} {f : α → Defined β} {post : α → Prop} {post' : β → Prop} (first : Gives x post)
    (next : ∀ a, post a → Gives (f a) post') : Gives (x >>= f) post' := by
  obtain ⟨a,rfl,done⟩ := first
  exact next a done

theorem Gives.mono {α : Type} {x : Defined α} {post post' : α → Prop} (gives : Gives x post) (weaker : ∀ a, post a → post' a) :
    Gives x post' := by
  obtain ⟨a,same,done⟩ := gives
  exact ⟨a,same,weaker a done⟩

theorem Gives.bindLift {α β : Type} {l : Ledger} {x : Defined α} {f : α → Step β} {post : α → Prop} {post' : β → Ledger → Prop}
    (gives : Gives x post) (next : ∀ a, post a → Ends (f a) l post') : Ends (lift x >>= f) l post' := by
  obtain ⟨a,same,done⟩ := gives
  exact .bindLift same (next a done)

/- A pen with room for n more bytes, and one that has set a zero byte behind what it has written -/
def Wrote (before : List UInt8) (n : Nat) (w : Pen) : Prop := ∃ room, room.length = n ∧ w = penAt before room
def Stopped (before : List UInt8) (n : Nat) (w : Pen) : Prop := ∃ room, room.length + 1 = n ∧ w = penAt before (0 :: room)

section Pens
variable {before : List UInt8} {n : Nat} {w : Pen}

theorem Wrote.put (wrote : Wrote before n w) (t : List UInt8) (fits : t.length ≤ n) :
    Gives (w.put t) (Wrote (before ++ t) (n - t.length)) := by
  obtain ⟨room,rfl,rfl⟩ := wrote
  exact ⟨_,putAt fits,_,List.length_drop ..,rfl⟩

theorem Wrote.stop (wrote : Wrote before n w) (fits : 0 < n) : Gives w.stop (Stopped before n) := by
  obtain ⟨room,rfl,rfl⟩ := wrote
  refine ⟨_,stopAt fits,_,?_,rfl⟩
  rw [List.length_drop]
  omega

theorem Stopped.wrote (stopped : Stopped before n w) : Wrote before n w := by
  obtain ⟨room,rfl,rfl⟩ := stopped
  exact ⟨_,List.length_cons,rfl⟩

theorem Wrote.cast {before' : List UInt8} {n' : Nat} (wrote : Wrote before n w) (text : before = before') (room : n = n') :
    Wrote before' n' w := by
  subst text room
  exact wrote

theorem Wrote.block {t : List UInt8} (wrote : Wrote (before ++ t) n w) : ∃ rest, w.block = before ++ (t ++ rest) := by
  obtain ⟨room,_,rfl⟩ := wrote
  exact ⟨room,List.append_assoc ..⟩

theorem Stopped.block {t : List UInt8} (stopped : Stopped (before ++ t) n w) : ∃ rest, w.block = before ++ (t ++ [0] ++ rest) := by
  obtain ⟨room,_,rfl⟩ := stopped
  exact ⟨room,by simp [penAt]⟩

end Pens

/- What a leaf composes, where there is room for it -/
def Writes (leaf : Leaf) (t : List UInt8) : Prop := ∀ before n w, Wrote before n w → leaf.needed ≤ n →
  Gives (leaf.compose w) fun w' => ∃ rest, w'.block = before ++ (t ++ rest)

theorem copiedWrites (t : List UInt8) : Writes (copied t) (t ++ [0]) := by
  intro before n w wrote fits
  have room : t.length + 1 ≤ n := fits
  exact (wrote.put t (by omega)).bind fun w wrote => (wrote.stop (by omega)).mono fun w => Stopped.block

theorem bareWrites (t : List UInt8) : Writes (bare t) t := fun _ _ _ wrote fits => (wrote.put t fits).mono fun _ => Wrote.block

theorem emptyObjectWrites (depth : Nat) (fmt : Bool) :
    Writes (emptyObject depth fmt) (rendered fmt (.object []) depth ++ [0]) := by
  intro before n w wrote fits
  have text : rendered fmt (.object []) depth = 123 :: (whenFmt fmt (10 :: List.replicate (depth - 1) 9) ++ [125]) := rfl
  have room : (whenFmt fmt (10 :: List.replicate (depth - 1) 9)).length + 3 ≤ n := by
    unfold emptyObject at fits
    unfold whenFmt
    cases fmt
    · exact fits
    · simp only [if_true, List.length_cons, List.length_replicate] at fits ⊢
      omega
  refine Gives.bind (Gives.bind (wrote.put [123] ?_) fun w wrote => wrote.put _ ?_) fun w wrote => ?_
  · rw [List.length_singleton]
    omega
  · change (whenFmt fmt _).length ≤ _
    rw [List.length_singleton]
    omega
  · have last := wrote.put [125,0] (by
      change 2 ≤ _ - _ - (whenFmt fmt _).length
      rw [List.length_singleton]
      omega)
    refine last.mono fun w wrote => ?_
    obtain ⟨room,_,rfl⟩ := wrote
    refine ⟨room,?_⟩
    simp only [penAt, text, List.append_assoc, List.cons_append, List.nil_append]
    rfl

theorem printNumberWrites {n : Int} (small : CInt n) : Writes (printNumber n) (decimal n ++ [0]) := by
  unfold printNumber
  split
  · rename_i zero
    rw [zero, decimalZero]
    exact copiedWrites [48]
  · intro before room w wrote fits
    have length := decimalLength small
    have enough : 21 ≤ room := fits
    exact copiedWrites (decimal n) before room w wrote (show (decimal n).length + 1 ≤ room by omega)

/-! Strings -/

theorem byteAll {p : UInt8 → Prop} (all : ∀ n, n < 256 → p (UInt8.ofNat n)) (b : UInt8) : p b := by
  have this := all b.toNat (UInt8.toNat_lt b)
  rwa [UInt8.ofNat_toNat] at this

theorem countedByte (b : UInt8) :
    (if b ∈ [34,92,8,12,10,13,9] then 2 else if b < 32 then 6 else 1) = (escapedByte b).length := by
  revert b
  exact byteAll (by decide +kernel)

theorem escapedLengthText (str : List UInt8) : escapedLength str = (str.flatMap escapedByte).length := by
  induction str with
  | nil => rfl
  | cons b str ih => rw [escapedLength, countedByte, ih, List.flatMap_cons, List.length_append]

theorem plainText {str : List UInt8} (cString : CString str) (unflagged : flagged str = false) : str.flatMap escapedByte = str := by
  induction str with
  | nil => rfl
  | cons b str ih =>
    obtain ⟨head,tail⟩ := List.ne_and_not_mem_of_not_mem_cons cString
    unfold flagged at unflagged ih
    rw [List.any_cons, Bool.or_eq_false_iff] at unflagged
    have plain : 31 < b ∧ b ≠ 34 ∧ b ≠ 92 := by
      have all : ∀ b : UInt8, b ≠ 0 → decide ((0 < b ∧ b < 32) ∨ b = 34 ∨ b = 92) = false → 31 < b ∧ b ≠ 34 ∧ b ≠ 92 :=
        byteAll (by decide +kernel)
      exact all b (Ne.symm head) unflagged.1
    rw [List.flatMap_cons, ih tail unflagged.2, escapedByte, if_pos plain]
    rfl

/- sprintf stores a zero byte behind the digits, which the next byte replaces. -/
theorem escapeTokenWrote {b : UInt8} {before : List UInt8} {n : Nat} {w : Pen} (wrote : Wrote before n w)
    (fits : (tokenText b).length < n) :
    Gives (escapeToken b w) (Wrote (before ++ tokenText b) (n - (tokenText b).length)) := by
  unfold escapeToken tokenText at *
  repeat'
    split
    · rename_i same
      simp only [same, if_true] at fits
      exact wrote.put _ (Nat.le_of_lt fits)
  simp only [*, if_false] at fits
  refine (wrote.put _ (Nat.le_of_lt fits)).bind fun w wrote => ?_
  exact (wrote.stop (by omega)).mono fun w => Stopped.wrote

theorem composeEscapedWrote {str before : List UInt8} {n : Nat} {w : Pen} (wrote : Wrote before n w)
    (fits : (str.flatMap escapedByte).length < n) :
    Gives (composeEscaped str w) (Wrote (before ++ str.flatMap escapedByte) (n - (str.flatMap escapedByte).length)) := by
  induction str generalizing before n w with
  | nil =>
    refine ⟨w,rfl,?_⟩
    rwa [List.flatMap_nil, List.append_nil]
  | cons b str ih =>
    rw [List.flatMap_cons, List.length_append] at fits
    have first : Gives (if 31 < b ∧ b ≠ 34 ∧ b ≠ 92 then w.put [b] else w.put [92] >>= escapeToken b)
        (Wrote (before ++ escapedByte b) (n - (escapedByte b).length)) := by
      unfold escapedByte at fits ⊢
      split
      · exact wrote.put [b] (by rw [List.length_singleton]; omega)
      · rename_i control
        rw [if_neg control, List.length_cons] at fits
        refine (wrote.put [92] (by rw [List.length_singleton]; omega)).bind fun w wrote => ?_
        have token := escapeTokenWrote (b := b) wrote (by rw [List.length_singleton]; omega)
        rw [List.length_singleton, Nat.sub_sub, List.append_assoc] at token
        rwa [List.length_cons, Nat.add_comm]
    refine first.bind fun w wrote => ?_
    have others := ih wrote (by omega)
    rwa [List.append_assoc, Nat.sub_sub, ← List.length_append, ← List.flatMap_cons] at others

theorem printStringPtrWrites {str : List UInt8} (cString : CString str) : Writes (printStringPtr str) (quoted str ++ [0]) := by
  intro before n w wrote fits
  unfold printStringPtr at fits ⊢
  split
  · rename_i escaped
    rw [if_pos escaped] at fits
    dsimp only at fits ⊢
    rw [escapedLengthText] at fits
    refine Gives.bind (Gives.bind (wrote.put [34] ?_) fun w wrote => composeEscapedWrote wrote ?_) fun w wrote => ?_
    · rw [List.length_singleton]
      omega
    · rw [List.length_singleton]
      omega
    · refine (wrote.put [34,0] ?_).mono fun w wrote => ?_
      · simp only [List.length_cons, List.length_nil]
        omega
      · obtain ⟨room,_,rfl⟩ := wrote
        exact ⟨room,by simp [penAt, quoted]⟩
  · rename_i unflagged
    rw [if_neg unflagged] at fits
    dsimp only at fits ⊢
    have same := plainText cString (Bool.eq_false_iff.mpr unflagged)
    refine Gives.bind (Gives.bind (Gives.bind (Gives.bind (wrote.put [34] ?_) fun w wrote => wrote.put str ?_)
      fun w wrote => wrote.stop ?_) fun w stopped => stopped.wrote.put [34] ?_) fun w wrote => ?_
    · rw [List.length_singleton]
      omega
    · rw [List.length_singleton]
      omega
    · rw [List.length_singleton]
      omega
    · simp only [List.length_singleton]
      omega
    · refine (wrote.stop ?_).mono fun w stopped => ?_
      · simp only [List.length_singleton]
        omega
      · obtain ⟨room,_,rfl⟩ := stopped
        exact ⟨room,by simp [penAt, quoted, same]⟩

end YunbaIot.CJsonComposing
