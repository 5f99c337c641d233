import YunbaIot.DhcpServer
import Mathlib.Data.List.Perm.Basic
import Mathlib.Data.List.Forall2

/-! One tick of the lease timer: every lease grows older, the expired ones go, and with too
many left the oldest one goes, as long as it is not the first of the list. -/
namespace YunbaIot.LeaseAgeing
open DhcpServer

/-! What a tick is to do -/

structure Older (before after : DhcpsPool) : Prop where
  ip : after.ip = before.ip
  mac : after.mac = before.mac
  timer : after.leaseTimer.toNat + 1 = before.leaseTimer.toNat

def unexpired (plist : List DhcpsPool) : List DhcpsPool := plist.filter fun p => p.leaseTimer ≠ 0

/- No lease of the list has less time left than the one at the position. -/
def OldestAt (plist : List DhcpsPool) (i : Nat) : Prop :=
  ∃ oldest, plist[i]? = some oldest ∧ ∀ p ∈ plist, oldest.leaseTimer ≤ p.leaseTimer

def Ticked (before after : List DhcpsPool) : Prop :=
  ∃ aged, List.Forall₂ Older before aged ∧
    if maxStationNum.toNat ≤ (unexpired aged).length then
      ∃ i, OldestAt (unexpired aged) i ∧ after = (unexpired aged).eraseIdx i
    else after = unexpired aged

/-! When it does so -/

def staying (plist : List DhcpsPool) : List DhcpsPool := plist.filter fun p => 1 < p.leaseTimer

/- Some lease behind the first is as old as the first. -/
def OldestBehind : List DhcpsPool → Prop
  | [] => False
  | head :: later => ∃ p ∈ later, p.leaseTimer ≤ head.leaseTimer

instance (plist : List DhcpsPool) : Decidable (OldestBehind plist) := match plist with
  | [] => inferInstanceAs (Decidable False)
  | head :: later => inferInstanceAs (Decidable (∃ p ∈ later, p.leaseTimer ≤ head.leaseTimer))

structure Tickable (plist : List DhcpsPool) : Prop where
  running : ∀ p ∈ plist, 0 < p.leaseTimer
  few : (staying plist).length < maxStationNum.toNat ∨
    maxStationNum.toNat ≤ (staying plist).length % 256 ∧ OldestBehind (staying plist)

/-! Growing older -/

theorem ageLoopFilter (plist : List DhcpsPool) : ageLoop plist = unexpired (plist.map age) := by
  induction plist with
  | nil => rfl
  | cons p later ih =>
    by_cases expired : (age p).leaseTimer = 0
    · simpa [ageLoop,unexpired,expired] using ih
    · simpa [ageLoop,unexpired,expired] using ih

theorem agedTimer {p : DhcpsPool} (positive : 0 < p.leaseTimer) :
    (age p).leaseTimer.toNat + 1 = p.leaseTimer.toNat := by
  have one : 1 ≤ p.leaseTimer.toNat := UInt32.lt_iff_toNat_lt.mp positive
  have less : (age p).leaseTimer.toNat = p.leaseTimer.toNat - 1 :=
    UInt32.toNat_sub_of_le p.leaseTimer 1 (UInt32.le_iff_toNat_le.mpr one)
  omega

theorem olderAge {p q : DhcpsPool} : Older p q ↔ 0 < p.leaseTimer ∧ q = age p := by
  constructor
  · rintro ⟨ip,mac,timer⟩
    have positive : 0 < p.leaseTimer := by
      apply UInt32.lt_iff_toNat_lt.mpr
      have zero : (0 : UInt32).toNat = 0 := rfl
      omega
    have aged := agedTimer positive
    have left : q.leaseTimer = (age p).leaseTimer := UInt32.toNat_inj.mp (by omega)
    obtain ⟨qip,qmac,qtimer⟩ := q
    simp only at ip mac left
    subst ip mac left
    exact ⟨positive,rfl⟩
  · rintro ⟨positive,rfl⟩
    exact ⟨rfl,rfl,agedTimer positive⟩

theorem olderList {before aged : List DhcpsPool} :
    List.Forall₂ Older before aged ↔ (∀ p ∈ before, 0 < p.leaseTimer) ∧ aged = before.map age := by
  induction before generalizing aged with
  | nil => simp
  | cons p later ih =>
    simp only [List.forall₂_cons_left_iff,olderAge,ih,List.forall_mem_cons,List.map_cons]
    constructor
    · rintro ⟨q,rest,⟨first,rfl⟩,⟨others,rfl⟩,rfl⟩
      exact ⟨⟨first,others⟩,rfl⟩
    · rintro ⟨⟨first,others⟩,rfl⟩
      exact ⟨age p,later.map age,⟨first,rfl⟩,⟨others,rfl⟩,rfl⟩

theorem agedStaying {plist : List DhcpsPool} (running : ∀ p ∈ plist, 0 < p.leaseTimer) :
    unexpired (plist.map age) = (staying plist).map age := by
  rw [unexpired, List.filter_map, staying]
  congr 1
  apply List.filter_congr
  intro p inside
  have timer := agedTimer (running p inside)
  have zero : (0 : UInt32).toNat = 0 := rfl
  have one : (1 : UInt32).toNat = 1 := rfl
  simp only [Function.comp,ne_eq,decide_eq_decide,UInt32.lt_iff_toNat_lt,← UInt32.toNat_inj,zero,one]
  omega

/-! The oldest lease -/

/- The lease that oldestLoop ends with, from among the second of the list and those behind it. -/
theorem oldestSpec (plist : List DhcpsPool) (p minp : Nat) (least : UInt32) :
    ∃ time ≤ least, (∀ pool ∈ plist, time ≤ pool.leaseTimer) ∧
      (oldestLoop p plist minp least = minp ∧ time = least ∨
        ∃ i oldest, plist[i]? = some oldest ∧ oldest.leaseTimer = time ∧ oldestLoop p plist minp least = p + i) := by
  induction plist generalizing p minp least with
  | nil => exact ⟨least,UInt32.le_refl least,by simp,Or.inl ⟨rfl,rfl⟩⟩
  | cons pool later ih =>
    rw [oldestLoop]
    split
    · rename_i older
      obtain ⟨time,under,all,found⟩ := ih (p + 1) p pool.leaseTimer
      refine ⟨time,UInt32.le_trans under (UInt32.le_of_lt older),List.forall_mem_cons.mpr ⟨under,all⟩,Or.inr ?_⟩
      rcases found with ⟨stays,same⟩ | ⟨i,oldest,there,same,moves⟩
      · exact ⟨0,pool,rfl,same.symm,stays⟩
      · exact ⟨i+1,oldest,there,same,by omega⟩
    · rename_i younger
      obtain ⟨time,under,all,found⟩ := ih (p + 1) minp least
      have first : time ≤ pool.leaseTimer := UInt32.le_trans under (UInt32.not_lt.mp younger)
      refine ⟨time,under,List.forall_mem_cons.mpr ⟨first,all⟩,?_⟩
      rcases found with stays | ⟨i,oldest,there,same,moves⟩
      · exact Or.inl stays
      · exact Or.inr ⟨i+1,oldest,there,same,by omega⟩

/- The one that goes is the oldest of those behind the first. -/
theorem killedSpec (head second : DhcpsPool) (later : List DhcpsPool) :
    ∃ i, OldestAt (second :: later) i ∧
      killOldestDhcpsPool (head :: second :: later) = (head :: second :: later).eraseIdx (i + 1) := by
  obtain ⟨time,under,all,found⟩ := oldestSpec (second :: later) 1 1 second.leaseTimer
  rcases found with ⟨stays,same⟩ | ⟨i,oldest,there,same,moves⟩
  · refine ⟨0,⟨second,rfl,same ▸ all⟩,?_⟩
    rw [killOldestDhcpsPool, stays]
  · refine ⟨i,⟨oldest,there,same ▸ all⟩,?_⟩
    rw [killOldestDhcpsPool, moves, Nat.add_comm]

theorem erasedSame {α : Type} [DecidableEq α] {list : List α} {i j : Nat} {a b : α} (first : list[i]? = some a)
    (second : list[j]? = some b) (same : list.eraseIdx i = list.eraseIdx j) : a = b := by
  obtain ⟨inside,rfl⟩ := List.getElem?_eq_some_iff.mp first
  obtain ⟨within,rfl⟩ := List.getElem?_eq_some_iff.mp second
  have swap := (List.getElem_cons_eraseIdx_perm inside).trans (List.getElem_cons_eraseIdx_perm within).symm
  rw [same] at swap
  have count := swap.count_eq list[i]
  by_contra apart
  simp [Ne.symm apart] at count

/- The oldest of all goes just when one behind the first is as old. -/
theorem killedOldest {plist : List DhcpsPool} (many : 2 ≤ plist.length) :
    (∃ i, OldestAt plist i ∧ killOldestDhcpsPool plist = plist.eraseIdx i) ↔ OldestBehind plist := by
  obtain ⟨head,rest,rfl⟩ := List.exists_cons_of_length_pos (by omega : 0 < plist.length)
  obtain ⟨second,later,rfl⟩ := List.exists_cons_of_length_pos (Nat.lt_of_succ_lt_succ many : 0 < rest.length)
  obtain ⟨k,⟨killed,there,least⟩,same⟩ := killedSpec head second later
  rw [same]
  constructor
  · rintro ⟨i,⟨oldest,inside,all⟩,erased⟩
    have goes : killed = oldest := erasedSame (List.getElem?_cons_succ.trans there) inside erased
    exact ⟨killed,List.mem_of_getElem? there,goes ▸ all head (List.mem_cons_self ..)⟩
  · rintro ⟨p,inside,old⟩
    have first := UInt32.le_trans (least p inside) old
    exact ⟨k+1,⟨killed,there,List.forall_mem_cons.mpr ⟨first,least⟩⟩,rfl⟩

theorem agedBehind {plist : List DhcpsPool} (running : ∀ p ∈ plist, 0 < p.leaseTimer) :
    OldestBehind (plist.map age) ↔ OldestBehind plist := by
  cases plist with
  | nil => exact .rfl
  | cons head later =>
    obtain ⟨first,rest⟩ := List.forall_mem_cons.mp running
    have order {p : DhcpsPool} (inside : p ∈ later) :
        (age p).leaseTimer ≤ (age head).leaseTimer ↔ p.leaseTimer ≤ head.leaseTimer := by
      have own := agedTimer (rest p inside)
      have heads := agedTimer first
      rw [UInt32.le_iff_toNat_le, UInt32.le_iff_toNat_le]
      omega
    constructor
    · rintro ⟨p,inside,old⟩
      obtain ⟨q,there,rfl⟩ := List.mem_map.mp inside
      exact ⟨q,there,(order there).mp old⟩
    · rintro ⟨p,inside,old⟩
      exact ⟨age p,List.mem_map_of_mem inside,(order inside).mpr old⟩

/-! The tick -/

theorem stayingRunning {plist : List DhcpsPool} (running : ∀ p ∈ plist, 0 < p.leaseTimer) :
    ∀ p ∈ staying plist, 0 < p.leaseTimer := fun p inside => running p (List.mem_of_mem_filter inside)

theorem tickPlist {d : Dhcps} (running : ∀ p ∈ d.plist, 0 < p.leaseTimer) : (dhcpsCoarseTmr d).plist =
    if maxStationNum.toNat ≤ (staying d.plist).length % 256 then killOldestDhcpsPool ((staying d.plist).map age)
    else (staying d.plist).map age := by
  have count : maxStationNum ≤ UInt8.ofNat (staying d.plist).length ↔
      maxStationNum.toNat ≤ (staying d.plist).length % 256 := by
    rw [UInt8.le_iff_toNat_le, UInt8.toNat_ofNat']
  simp only [dhcpsCoarseTmr,ageLoopFilter,agedStaying running,List.length_map,count]

theorem tickedList {before after : List DhcpsPool} : Ticked before after ↔
    (∀ p ∈ before, 0 < p.leaseTimer) ∧
    if maxStationNum.toNat ≤ (staying before).length then
      ∃ i, OldestAt ((staying before).map age) i ∧ after = ((staying before).map age).eraseIdx i
    else after = (staying before).map age := by
  unfold Ticked
  constructor
  · rintro ⟨aged,older,left⟩
    obtain ⟨running,rfl⟩ := olderList.mp older
    rw [agedStaying running, List.length_map] at left
    exact ⟨running,left⟩
  · rintro ⟨running,left⟩
    refine ⟨before.map age,olderList.mpr ⟨running,rfl⟩,?_⟩
    rw [agedStaying running, List.length_map]
    exact left

theorem tickableTicked {d : Dhcps} (tickable : Tickable d.plist) : Ticked d.plist (dhcpsCoarseTmr d).plist := by
  have running := tickable.running
  rw [tickedList, tickPlist running]
  refine ⟨running,?_⟩
  rcases tickable.few with few | ⟨counted,behind⟩
  · have short := Nat.not_le_of_lt few
    have below : (staying d.plist).length % 256 ≤ (staying d.plist).length := Nat.mod_le _ 256
    rw [if_neg short, if_neg (by omega)]
  · have below : (staying d.plist).length % 256 ≤ (staying d.plist).length := Nat.mod_le _ 256
    rw [if_pos (Nat.le_trans counted below), if_pos counted]
    apply (killedOldest _).mpr ((agedBehind (stayingRunning running)).mpr behind)
    rw [List.length_map]
    exact Nat.le_trans (by decide : 2 ≤ maxStationNum.toNat) (Nat.le_trans counted below)

theorem tickedTickable {d : Dhcps} (ticked : Ticked d.plist (dhcpsCoarseTmr d).plist) : Tickable d.plist := by
  obtain ⟨running,left⟩ := tickedList.mp ticked
  refine ⟨running,?_⟩
  by_cases few : (staying d.plist).length < maxStationNum.toNat
  · exact Or.inl few
  · have many := Nat.le_of_not_lt few
    rw [if_pos many, tickPlist running] at left
    right
    split at left
    · rename_i counted
      refine ⟨counted,(agedBehind (stayingRunning running)).mp ((killedOldest ?_).mp left)⟩
      rw [List.length_map]
      exact Nat.le_trans (by decide : 2 ≤ maxStationNum.toNat) many
    · -- the count of eight bits has wrapped, and no lease goes
      obtain ⟨i,⟨oldest,there,_⟩,erased⟩ := left
      have fewer := congrArg List.length erased
      rw [List.length_eraseIdx_of_lt (List.getElem?_eq_some_iff.mp there).1, List.length_map] at fewer
      have some : 0 < maxStationNum.toNat := by decide
      omega

/-- A tick does what it is to do exactly to the pools whose leases all run and of which fewer
than MAX_STATION_NUM stay, or enough by the count of eight bits with the first of them not
the only oldest one. -/
theorem tickExact (d : Dhcps) : Ticked d.plist (dhcpsCoarseTmr d).plist ↔ Tickable d.plist :=
  ⟨tickedTickable,tickableTicked⟩

/-! Eight clients, the first with the least time left -/

def eightClients : Dhcps :=
  ⟨⟨false,0x6504A8C0,0xC804A8C0⟩,(List.range 8).map fun i =>
    ⟨0x6504A8C0 + 0x1000000 * UInt32.ofNat i,[UInt8.ofNat i,0,0,0,0,0],if i = 0 then 60 else 120⟩,0,0,0,false,120⟩

/- The second client loses its lease. -/
theorem firstSpared : ¬ ∀ d, Ticked d.plist (dhcpsCoarseTmr d).plist := by
  intro every
  rcases (tickedTickable (every eightClients)).few with few | ⟨_,behind⟩
  · exact absurd few (by decide)
  · exact absurd behind (by decide)

end YunbaIot.LeaseAgeing
