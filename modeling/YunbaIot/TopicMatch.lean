import YunbaIot.MqttPacket

/-! isTopicMatched of MQTTClient.c beside the matching rules for topic levels. The loop is
first read as a walk over the levels of both strings, then the walk is compared with the
rules: it is a match in which every wildcard faces a level that is there and not empty. -/
namespace YunbaIot.TopicMatch
open MqttPacket

def separator : UInt8 := 47
def plus : UInt8 := 43
def hash : UInt8 := 35

/- The loop from a position of the filter and a position of the name. -/
def matchLoop : List UInt8 → List UInt8 → Bool
  | [], curn => curn = []
  | _ :: _, [] => false
  | f :: curf, n :: curn =>
    if n = separator ∧ f ≠ separator then false
    else if f ≠ plus ∧ f ≠ hash ∧ f ≠ n then false
    else if f = plus then matchLoop curf (curn.dropWhile (· ≠ separator))
    else if f = hash then matchLoop curf []
    else matchLoop curf curn

def isTopicMatched (topicFilter : CString) (topicName : List UInt8) : Bool := matchLoop topicFilter.bytes topicName

/-! The rules, level by level -/

abbrev Level := List UInt8

def levels (s : List UInt8) : List Level := s.splitOn separator

inductive Matches : List Level → List Level → Prop where
  | done : Matches [] []
  | literal (l : Level) {fs ns} (rest : Matches fs ns) : Matches (l :: fs) (l :: ns)
  | single (l : Level) {fs ns} (rest : Matches fs ns) : Matches ([plus] :: fs) (l :: ns)
  | multi (ns) : Matches [[hash]] ns

/- + is a whole level, # the whole last one. -/
def WellFormed : List Level → Prop
  | [] => True
  | l :: ls => (plus ∈ l → l = [plus]) ∧ (hash ∈ l → l = [hash] ∧ ls = []) ∧ WellFormed ls

def Wildcard (l : Level) : Prop := l = [plus] ∨ l = [hash]

instance (l : Level) : Decidable (Wildcard l) := inferInstanceAs (Decidable (_ ∨ _))

/- Every wildcard of the filter has a level of the name at its place, and not an empty one. -/
def FacesText (fs ns : List Level) : Prop :=
  ∀ (i : Nat) (l : Level), fs[i]? = some l → Wildcard l → ∃ n, ns[i]? = some n ∧ n ≠ []

/-! The loop as a walk over levels -/

def walk : List Level → List Level → Bool
  | [], ns => ns = []
  | _ :: _, [] => false
  | f :: fs, n :: ns =>
    if f = [hash] then n ≠ []
    else if f = [plus] then n ≠ [] ∧ walk fs ns = true
    else f = n ∧ walk fs ns = true

/- A string with the levels it is made of. -/
inductive MadeOf : List UInt8 → List Level → Prop where
  | last {l} (whole : separator ∉ l) : MadeOf l [l]
  | more {l s ls} (whole : separator ∉ l) (behind : MadeOf s ls) : MadeOf (l ++ separator :: s) (l :: ls)

theorem levelsMade (s : List UInt8) : MadeOf s (levels s) := by
  induction s with
  | nil => exact .last List.not_mem_nil
  | cons c s ih =>
    unfold levels at ih ⊢
    rw [List.splitOn_cons_eq_if_modifyHead]
    by_cases cut : c = separator
    · rw [if_pos (beq_iff_eq.mpr cut), cut]
      exact .more List.not_mem_nil ih
    · rw [if_neg (mt beq_iff_eq.mp cut)]
      have kept {l : Level} (whole : separator ∉ l) : separator ∉ c :: l :=
        fun inside => (List.mem_cons.mp inside).elim (fun same => cut same.symm) whole
      generalize s.splitOn separator = ls at ih
      cases ih with
      | last whole => exact .last (kept whole)
      | more whole behind => exact .more (kept whole) behind

/- What stands behind a level: nothing, or a separator. -/
def Ends (r : List UInt8) : Prop := r = [] ∨ ∃ s, r = separator :: s

theorem loopSeparator (f n : List UInt8) : matchLoop (separator :: f) (separator :: n) = matchLoop f n := by
  rw [matchLoop, if_neg (by simp), if_neg (by simp), if_neg (by decide), if_neg (by decide)]

theorem loopEnded {f n : List UInt8} (ended : Ends n) (other : ∀ s, f ≠ separator :: s) (some : f ≠ []) :
    matchLoop f n = false := by
  cases f with
  | nil => exact absurd rfl some
  | cons c f =>
    rcases ended with rfl | ⟨s,rfl⟩
    · rfl
    · rw [matchLoop, if_pos ⟨rfl,fun same => other f (by rw [same])⟩]

theorem loopLonger {f n : List UInt8} {c : UInt8} (ended : Ends f) (inside : c ≠ separator) :
    matchLoop f (c :: n) = false := by
  rcases ended with rfl | ⟨s,rfl⟩
  · rfl
  · rw [matchLoop, if_neg (fun h => inside h.1), if_pos ⟨by decide,by decide,inside.symm⟩]

/- A level without a wildcard is compared byte by byte. -/
theorem loopLiteral {f n r s : List UInt8} (wholeF : separator ∉ f) (wholeN : separator ∉ n) (noPlus : plus ∉ f)
    (noHash : hash ∉ f) (endedF : Ends r) (endedN : Ends s) :
    matchLoop (f ++ r) (n ++ s) = if f = n then matchLoop r s else false := by
  induction f generalizing n with
  | nil =>
    cases n with
    | nil => rfl
    | cons b n =>
      rw [if_neg (by simp)]
      exact loopLonger endedF (fun same => wholeN (by simp [same]))
  | cons a f ih =>
    simp only [List.mem_cons, not_or] at wholeF noPlus noHash
    cases n with
    | nil =>
      rw [if_neg (by simp)]
      exact loopEnded endedN (fun t same => wholeF.1 (List.cons.inj same).1.symm) (by simp)
    | cons b n =>
      simp only [List.mem_cons, not_or] at wholeN
      rw [List.cons_append, List.cons_append, matchLoop, if_neg fun h => wholeN.1 h.1.symm]
      by_cases same : a = b
      · rw [if_neg fun h => h.2.2 same, if_neg (Ne.symm noPlus.1), if_neg (Ne.symm noHash.1),
          ih wholeF.2 wholeN.2 noPlus.2 noHash.2]
        simp [same]
      · rw [if_pos ⟨Ne.symm noPlus.1,Ne.symm noHash.1,same⟩, if_neg]
        intro eq
        exact same (List.cons.inj eq).1

theorem loopPlus {n r s : List UInt8} (wholeN : separator ∉ n) (endedN : Ends s) :
    matchLoop ([plus] ++ r) (n ++ s) = if n = [] then false else matchLoop r s := by
  cases n with
  | nil =>
    rw [if_pos rfl]
    refine loopEnded endedN (fun t same => ?_) (by simp)
    exact absurd (List.cons.inj same).1 (by decide)
  | cons b n =>
    simp only [List.mem_cons, not_or] at wholeN
    have skipped : (n ++ s).dropWhile (· ≠ separator) = s := by
      have other : ∀ c ∈ n, decide (c ≠ separator) = true := by
        intro c inside
        exact decide_eq_true fun same => wholeN.2 (by rw [← same]; exact inside)
      rw [List.dropWhile_append_of_pos other]
      rcases endedN with rfl | ⟨t,rfl⟩
      · rfl
      · simp
    rw [if_neg (by simp), List.cons_append, List.cons_append, matchLoop, if_neg fun h => wholeN.1 h.1.symm,
      if_neg (fun h => h.1 rfl), if_pos rfl, skipped, List.nil_append]

theorem loopHash {n s : List UInt8} (wholeN : separator ∉ n) (endedN : Ends s) :
    matchLoop [hash] (n ++ s) = decide (n ≠ []) := by
  cases n with
  | nil => exact loopEnded endedN (fun t same => absurd (List.cons.inj same).1 (by decide)) (by simp)
  | cons b n =>
    simp only [List.mem_cons, not_or] at wholeN
    rw [List.cons_append, matchLoop, if_neg fun h => wholeN.1 h.1.symm, if_neg (fun h => h.2.1 rfl),
      if_neg (by decide), if_pos rfl]
    rfl

/- Level by level, whatever stands behind the two levels. -/
theorem loopLevel {f n r s : List UInt8} {fs ns : List Level} (formed : WellFormed (f :: fs)) (wholeF : separator ∉ f)
    (wholeN : separator ∉ n) (endedF : Ends r) (endedN : Ends s) (only : fs = [] → r = [])
    (behind : matchLoop r s = walk fs ns) : matchLoop (f ++ r) (n ++ s) = walk (f :: fs) (n :: ns) := by
  obtain ⟨plusWhole,hashWhole,_⟩ := formed
  rw [walk]
  by_cases multi : f = [hash]
  · have lastOne := (hashWhole (by rw [multi]; exact List.mem_singleton_self _)).2
    rw [if_pos multi, multi, only lastOne]
    exact loopHash wholeN endedN
  · rw [if_neg multi]
    by_cases single : f = [plus]
    · rw [if_pos single, single, loopPlus wholeN endedN, behind]
      by_cases empty : n = [] <;> simp [empty]
    · rw [if_neg single, loopLiteral wholeF wholeN (mt plusWhole single) (fun h => multi (hashWhole h).1) endedF endedN,
        behind]
      by_cases same : f = n <;> simp [same]

theorem loopWalk {f n : List UInt8} {fs ns : List Level} (madeF : MadeOf f fs) (madeN : MadeOf n ns)
    (formed : WellFormed fs) : matchLoop f n = walk fs ns := by
  induction madeF generalizing n ns with
  | @last l whole =>
    cases madeN with
    | last wholeN =>
      have ended : matchLoop [] [] = walk [] [] := rfl
      have level := loopLevel formed whole wholeN (.inl rfl) (.inl rfl) (fun _ => rfl) ended
      simpa only [List.append_nil] using level
    | @more m s ms wholeN behindN =>
      have longer : matchLoop [] (separator :: s) = walk [] ms := by cases behindN <;> rfl
      have level := loopLevel formed whole wholeN (.inl rfl) (.inr ⟨s,rfl⟩) (fun _ => rfl) longer
      simpa only [List.append_nil] using level
  | @more l t ls whole behind ih =>
    have some : ls ≠ [] := by cases behind <;> simp
    cases madeN with
    | last wholeN =>
      have shorter : matchLoop (separator :: t) [] = walk ls [] := by
        cases ls with
        | nil => exact absurd rfl some
        | cons => rfl
      have level := loopLevel formed whole wholeN (.inr ⟨t,rfl⟩) (.inl rfl) (fun none => absurd none some) shorter
      simpa only [List.append_nil] using level
    | @more m s ms wholeN behindN =>
      refine loopLevel formed whole wholeN (.inr ⟨t,rfl⟩) (.inr ⟨s,rfl⟩) (fun none => absurd none some) ?_
      rw [loopSeparator]
      exact ih behindN formed.2.2

/-! The walk and the rules -/

theorem facesNone {f : Level} {fs : List Level} (faces : FacesText (f :: fs) []) : ¬Wildcard f := by
  intro wild
  obtain ⟨n,there,_⟩ := faces 0 f rfl wild
  cases there

theorem facesCons {f n : Level} {fs ns : List Level} :
    FacesText (f :: fs) (n :: ns) ↔ (Wildcard f → n ≠ []) ∧ FacesText fs ns := by
  constructor
  · intro faces
    refine ⟨fun wild => ?_,fun i l found wild => faces (i+1) l found wild⟩
    obtain ⟨m,there,text⟩ := faces 0 f rfl wild
    rw [Option.some.inj there]
    exact text
  · rintro ⟨head,tail⟩ i l found wild
    cases i with
    | zero =>
      refine ⟨n,rfl,head ?_⟩
      rw [Option.some.inj found]
      exact wild
    | succ i => exact tail i l found wild

theorem walkMatches {fs : List Level} (formed : WellFormed fs) (ns : List Level) :
    walk fs ns = true ↔ Matches fs ns ∧ FacesText fs ns := by
  induction fs generalizing ns with
  | nil =>
    cases ns with
    | nil => exact ⟨fun _ => ⟨.done,fun i l found => by cases found⟩,fun _ => rfl⟩
    | cons n ns => exact ⟨nofun,fun h => nomatch h.1⟩
  | cons f fs ih =>
    obtain ⟨plusWhole,hashWhole,rest⟩ := formed
    cases ns with
    | nil =>
      refine ⟨nofun,fun ⟨matched,faces⟩ => ?_⟩
      cases matched with
      | multi => exact absurd (.inr rfl) (facesNone faces)
    | cons n ns =>
      rw [walk, facesCons]
      have behind := ih rest ns
      by_cases multi : f = [hash]
      · have lastOne := (hashWhole (by rw [multi]; exact List.mem_singleton_self _)).2
        rw [if_pos multi, decide_eq_true_eq]
        subst multi lastOne
        exact ⟨fun text => ⟨.multi _,fun _ => text,fun i l found => by cases found⟩,fun h => h.2.1 (.inr rfl)⟩
      · rw [if_neg multi]
        by_cases single : f = [plus]
        · rw [if_pos single, decide_eq_true_eq, behind]
          subst single
          constructor
          · rintro ⟨text,matched,faces⟩
            exact ⟨.single n matched,fun _ => text,faces⟩
          · rintro ⟨matched,text,faces⟩
            refine ⟨text (.inl rfl),?_,faces⟩
            cases matched with
            | literal _ later => exact later
            | single _ later => exact later
        · rw [if_neg single, decide_eq_true_eq, behind]
          have literal : ¬Wildcard f := fun wild => wild.elim single multi
          constructor
          · rintro ⟨rfl,matched,faces⟩
            exact ⟨.literal _ matched,fun wild => absurd wild literal,faces⟩
          · rintro ⟨matched,_,faces⟩
            cases matched with
            | literal _ later => exact ⟨rfl,later,faces⟩
            | single _ later => exact absurd rfl single
            | multi => exact absurd rfl multi

/- What the code calls a match: the rules, with text behind every wildcard. -/
theorem topicWalk (topicFilter : CString) (topicName : List UInt8) (formed : WellFormed (levels topicFilter.bytes)) :
    isTopicMatched topicFilter topicName = true ↔
      Matches (levels topicFilter.bytes) (levels topicName) ∧ FacesText (levels topicFilter.bytes) (levels topicName) := by
  unfold isTopicMatched
  rw [loopWalk (levelsMade _) (levelsMade topicName) formed]
  exact walkMatches formed _

theorem topicMatched (topicFilter : CString) (topicName : List UInt8) (formed : WellFormed (levels topicFilter.bytes)) :
    (isTopicMatched topicFilter topicName = true ↔ Matches (levels topicFilter.bytes) (levels topicName)) ↔
      (Matches (levels topicFilter.bytes) (levels topicName) →
        FacesText (levels topicFilter.bytes) (levels topicName)) := by
  rw [topicWalk topicFilter topicName formed]
  exact ⟨fun exact matched => (exact.mpr matched).2,fun faces => ⟨And.left,fun matched => ⟨matched,faces matched⟩⟩⟩

/- a/+/c against a/b/c -/
def filterSingle : CString := ⟨[97,47,43,47,99],by simp⟩

theorem singleMatched : isTopicMatched filterSingle [97,47,98,47,99] = true ↔
    Matches [[97],[43],[99]] [[97],[98],[99]] :=
  (topicMatched filterSingle [97,47,98,47,99] ⟨by decide,by decide,by decide,by decide,by decide,by decide,trivial⟩).mpr
    fun _ i l found wild => by
      match i with
      | 0 => exact ⟨_,rfl,by simp⟩
      | 1 => exact ⟨_,rfl,by simp⟩
      | 2 => exact ⟨_,rfl,by simp⟩
      | _+3 => cases found

/- a/# is to match a, and does not. -/
def filterParent : CString := ⟨[97,47,35],by simp⟩

theorem parentNotMatched : WellFormed (levels filterParent.bytes) ∧ levels [97] = [[97]] ∧
    Matches (levels filterParent.bytes) (levels [97]) ∧ isTopicMatched filterParent [97] = false :=
  ⟨⟨by decide,by decide,by decide,by decide,trivial⟩,by decide,.literal [97] (.multi []),by decide⟩

end YunbaIot.TopicMatch
