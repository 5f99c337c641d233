import YunbaIot.LeaseRange
import YunbaIot.LeaseTable
import YunbaIot.Run
import Mathlib.Data.Nat.SuccPred

/-! The lease pool over every run of messages and ticks: the pool is a lease table of the last
octets, as long as the cursor is not carried out of its network. -/
namespace YunbaIot.LeasePool
open DhcpServer NetworkOrder LeaseRange LeaseTable

/-! What is claimed of a pool -/

/- In order of address, no address twice, no client twice, all in the range. -/
structure Sound (lease : DhcpsLease) (plist : List DhcpsPool) : Prop where
  sorted : (plist.map fun p => hostOrder p.ip).Pairwise (· ≤ ·)
  addresses : (plist.map DhcpsPool.ip).Nodup
  macs : (plist.map DhcpsPool.mac).Nodup
  within : ∀ p ∈ plist, hostOrder lease.startIp ≤ hostOrder p.ip ∧ hostOrder p.ip ≤ hostOrder lease.endIp

/- Every address from the cursor to the end of a range that ends at 255. -/
def Crowded (d : Dhcps) : Prop :=
  octet d.lease.endIp = 255 ∧ ∀ addr, hostOrder d.clientAddressPlus ≤ hostOrder addr →
    hostOrder addr ≤ hostOrder d.lease.endIp → addr ∈ d.plist.map DhcpsPool.ip

def NewClient (byte : Nat → UInt8) (d : Dhcps) : Prop :=
  Memory.slice byte optionsAt 4 = magicCookie ∧ Memory.slice byte chaddrAt 6 ∉ d.plist.map DhcpsPool.mac

def Roomy (d : Dhcps) : Input → Prop
  | .message byte _ _ => NewClient byte d → ¬ Crowded d
  | .tick => True

/-! The invariant -/

def held (p : DhcpsPool) : Nat × Mac := (octet p.ip,p.mac)
def octets (plist : List DhcpsPool) : List Nat := plist.map fun p => octet p.ip

structure Valid (lease : DhcpsLease) (plist : List DhcpsPool) : Prop where
  network : ∀ p ∈ plist, network p.ip = network lease.startIp
  table : ∃ t : Table Nat Mac (octet lease.startIp) (octet lease.endIp), t.leases = plist.map held

structure Inside (lease : DhcpsLease) (addr : UInt32) : Prop where
  network : network addr = network lease.startIp
  start : octet lease.startIp ≤ octet addr
  last : octet addr ≤ octet lease.endIp

structure Kept (d : Dhcps) : Prop where
  range : Range d.lease
  valid : Valid d.lease d.plist
  cursor : Inside d.lease d.clientAddressPlus

theorem emptyValid (lease : DhcpsLease) : Valid lease [] := ⟨nofun,.empty,rfl⟩

theorem startInside {lease : DhcpsLease} (range : Range lease) : Inside lease lease.startIp :=
  ⟨rfl,Nat.le_refl _,range.ordered⟩

theorem octetsOf (plist : List DhcpsPool) : (plist.map held).map Prod.fst = octets plist := by
  rw [List.map_map]
  rfl

theorem macsOf (plist : List DhcpsPool) : (plist.map held).map Prod.snd = plist.map DhcpsPool.mac := by
  rw [List.map_map]
  rfl

theorem validSorted {lease : DhcpsLease} {plist : List DhcpsPool} (valid : Valid lease plist) :
    (octets plist).Pairwise (· < ·) := by
  obtain ⟨t,same⟩ := valid.table
  have sorted := t.sorted
  rw [same, octetsOf] at sorted
  exact sorted

theorem validWithin {lease : DhcpsLease} {plist : List DhcpsPool} (valid : Valid lease plist) :
    ∀ a ∈ octets plist, octet lease.startIp ≤ a ∧ a ≤ octet lease.endIp := by
  obtain ⟨t,same⟩ := valid.table
  have within := t.within
  rw [same, octetsOf] at within
  exact within

theorem validSound {lease : DhcpsLease} {plist : List DhcpsPool} (range : Range lease) (valid : Valid lease plist) :
    Sound lease plist := by
  have sorted := List.pairwise_map.mp (validSorted valid)
  have member (p : DhcpsPool) (inside : p ∈ plist) : network p.ip = network lease.startIp := valid.network p inside
  constructor
  · apply List.pairwise_map.mpr
    apply sorted.imp_of_mem
    intro p q first second less
    exact ((hostLt ((member p first).trans (member q second).symm)).mpr less).le
  · apply List.pairwise_map.mpr
    apply sorted.imp
    intro p q less same
    rw [same] at less
    exact less.false
  · obtain ⟨t,same⟩ := valid.table
    have holders := t.holders
    rw [same, macsOf] at holders
    exact holders
  · intro p inside
    have bounds := validWithin valid (octet p.ip) (List.mem_map.mpr ⟨p,inside,rfl⟩)
    exact ⟨(hostLe (member p inside).symm).mpr bounds.1,
      (hostLe ((member p inside).trans range.network)).mpr bounds.2⟩

/-! Leases that end or are kept -/

def entry (p : DhcpsPool) : UInt32 × Mac := (p.ip,p.mac)

theorem validEnded {lease : DhcpsLease} {before after : List DhcpsPool} (valid : Valid lease before)
    (ended : (after.map entry).Sublist (before.map entry)) : Valid lease after := by
  have member : ∀ p ∈ after, network p.ip = network lease.startIp := by
    intro p inside
    obtain ⟨q,there,same⟩ := List.mem_map.mp (ended.subset (List.mem_map_of_mem inside))
    have address : q.ip = p.ip := congrArg Prod.fst same
    rw [← address]
    exact valid.network q there
  obtain ⟨t,same⟩ := valid.table
  have part := ended.map fun e => (octet e.1,e.2)
  rw [List.map_map, List.map_map] at part
  exact ⟨member,t.ended (same ▸ part),rfl⟩

theorem removedValid {lease : DhcpsLease} {plist : List DhcpsPool} (valid : Valid lease plist) (pdelete : Option Nat) :
    Valid lease (nodeRemoveFromList plist pdelete) := by
  cases pdelete with
  | none => exact valid
  | some pdelete => exact validEnded valid ((List.eraseIdx_sublist plist pdelete).map entry)

theorem modifiedEntries (f : DhcpsPool → DhcpsPool) (kept : ∀ p, entry (f p) = entry p) (plist : List DhcpsPool)
    (i : Nat) : (plist.modify i f).map entry = plist.map entry := by
  induction plist generalizing i with
  | nil => simp
  | cons p later ih =>
    cases i with
    | zero => simp [kept]
    | succ i => simp [ih]

theorem agedEntries (plist : List DhcpsPool) : ((ageLoop plist).map entry).Sublist (plist.map entry) := by
  induction plist with
  | nil => exact .slnil
  | cons p later ih =>
    rw [ageLoop]
    split
    · exact ih.cons (entry p)
    · exact ih.cons_cons (entry p)

theorem killedSublist (plist : List DhcpsPool) : (killOldestDhcpsPool plist).Sublist plist := by
  unfold killOldestDhcpsPool
  split
  · exact List.eraseIdx_sublist _ _
  · exact .refl _

theorem tickKept {d : Dhcps} (kept : Kept d) : Kept (dhcpsCoarseTmr d) := by
  have aged := validEnded kept.valid (agedEntries d.plist)
  refine ⟨kept.range,?_,kept.cursor⟩
  unfold dhcpsCoarseTmr
  dsimp only
  split
  · exact validEnded aged ((killedSublist _).map entry)
  · exact aged

/-! A lease that is added -/

theorem insertedHeld {plist : List DhcpsPool} {p : DhcpsPool} (net : ∀ q ∈ plist, network q.ip = network p.ip) :
    (nodeInsertToList plist p).map held = Table.place (held p) (plist.map held) := by
  induction plist with
  | nil => rfl
  | cons q later ih =>
    obtain ⟨first,rest⟩ := List.forall_mem_cons.mp net
    have order : p.ip < q.ip ↔ (held p).1 < (held q).1 := addressLt first.symm
    rw [nodeInsertToList, List.map_cons, Table.place]
    split
    · rename_i before
      rw [if_pos (order.mp before)]
      rfl
    · rename_i behind
      rw [if_neg (mt order.mpr behind), List.map_cons, ih rest]

theorem insertedMember {plist : List DhcpsPool} {p q : DhcpsPool} (inside : q ∈ nodeInsertToList plist p) :
    q = p ∨ q ∈ plist := by
  induction plist with
  | nil => exact Or.inl (List.mem_singleton.mp inside)
  | cons r later ih =>
    rw [nodeInsertToList] at inside
    split at inside
    · exact List.mem_cons.mp inside
    · rcases List.mem_cons.mp inside with same | more
      · exact Or.inr (same ▸ List.mem_cons_self ..)
      · exact (ih more).imp_right (List.mem_cons_of_mem r)

theorem insertedValid {lease : DhcpsLease} {plist : List DhcpsPool} {p : DhcpsPool} (valid : Valid lease plist)
    (inside : Inside lease p.ip) (free : octet p.ip ∉ octets plist)
    (stranger : p.mac ∉ plist.map DhcpsPool.mac) : Valid lease (nodeInsertToList plist p) := by
  obtain ⟨t,same⟩ := valid.table
  have apart : octet p.ip ∉ t.leases.map Prod.fst := by
    rw [same, octetsOf]
    exact free
  have other : p.mac ∉ t.leases.map Prod.snd := by
    rw [same, macsOf]
    exact stranger
  constructor
  · intro q there
    rcases insertedMember there with rfl | old
    · exact inside.network
    · exact valid.network q old
  · refine ⟨t.granted (octet p.ip) p.mac ⟨inside.start,inside.last⟩ apart other,?_⟩
    rw [insertedHeld fun q there => (valid.network q there).trans inside.network.symm, ← same]
    rfl

/-! The search -/

def searchStart (d : Dhcps) : Search :=
  ⟨none,d.clientAddressPlus,d.clientAddressPlus,d.lease.startIp,false,false⟩

theorem searchStarts (byte : Nat → UInt8) (d : Dhcps) : search byte d =
    searchLoop (Memory.slice byte chaddrAt 6) (Memory.slice byte ciaddrAt 4) 0 d.plist (searchStart d) := rfl

def passed (plist : List DhcpsPool) (s : Search) : Search := plist.foldl (fun s p => passNode p s) s

/- The search passes every node, or those before the first of the client. -/
theorem searchCases (mac ciaddr : List UInt8) (i : Nat) (plist : List DhcpsPool) (s : Search) :
    (mac ∉ plist.map DhcpsPool.mac ∧ searchLoop mac ciaddr i plist s = passed plist s) ∨
    ∃ before node behind renew, plist = before ++ node :: behind ∧ node.mac = mac ∧
      searchLoop mac ciaddr i plist s =
        { passed before s with
          renew := renew
          clientAddress := node.ip
          pnode := some (i + before.length) } := by
  induction plist generalizing i s with
  | nil => exact Or.inl ⟨List.not_mem_nil,rfl⟩
  | cons p later ih =>
    rw [searchLoop]
    split
    · rename_i own
      exact Or.inr ⟨[],p,later,_,rfl,own,rfl⟩
    · rename_i other
      rcases ih (i + 1) (passNode p s) with ⟨absent,same⟩ | ⟨before,node,behind,renew,rfl,own,same⟩
      · exact Or.inl ⟨List.not_mem_cons_of_ne_of_not_mem (Ne.symm other) absent,same⟩
      · refine Or.inr ⟨p :: before,node,behind,renew,rfl,own,?_⟩
        rw [same, List.length_cons, Nat.add_assoc, Nat.add_comm 1]
        rfl

theorem passNodeFields (p : DhcpsPool) (s : Search) : passNode p s =
    { s with
      clientAddressPlus := if p.ip = s.clientAddressPlus then increment s.clientAddressPlus else s.clientAddressPlus
      clientAddress := if p.ip = s.clientAddressPlus then increment s.clientAddressPlus else s.clientAddress
      flag := s.flag || s.firstAddress < p.ip
      firstAddress := if s.flag || s.firstAddress < p.ip then s.firstAddress else increment s.firstAddress } := by
  obtain ⟨pnode,client,plus,first,flag,renew⟩ := s
  unfold passNode
  cases flag with
  | true => by_cases here : p.ip = plus <;> simp [here]
  | false =>
    by_cases here : p.ip = plus
    · subst here
      by_cases gap : first < p.ip <;> simp only [gap, if_true, if_false, decide_true, decide_false, Bool.or_true,
        Bool.or_false, Bool.false_eq_true]
    · by_cases gap : first < p.ip <;> simp only [here, gap, if_true, if_false, decide_true, decide_false, Bool.or_true,
        Bool.or_false, Bool.false_eq_true]

theorem passedKeeps (plist : List DhcpsPool) {s : Search} (together : s.clientAddress = s.clientAddressPlus) :
    (passed plist s).pnode = s.pnode ∧ (passed plist s).clientAddress = (passed plist s).clientAddressPlus := by
  induction plist generalizing s with
  | nil => exact ⟨rfl,together⟩
  | cons p later ih =>
    have fields := passNodeFields p s
    have moved : (passNode p s).clientAddress = (passNode p s).clientAddressPlus := by
      rw [fields, together]
    have rest := ih moved
    rw [fields] at rest
    rw [passed, List.foldl_cons, fields]
    exact rest

/- The cursor of the server walks as the one of the table does, up to its last octet. -/
theorem passedCursor {net : Nat} {plist : List DhcpsPool} {s : Search} (members : ∀ p ∈ plist, network p.ip = net)
    (cursor : network s.clientAddressPlus = net) (low : walk (octet s.clientAddressPlus) (octets plist) ≤ 255) :
    network (passed plist s).clientAddressPlus = net ∧
      octet (passed plist s).clientAddressPlus = walk (octet s.clientAddressPlus) (octets plist) := by
  induction plist generalizing s with
  | nil => exact ⟨cursor,rfl⟩
  | cons p later ih =>
    obtain ⟨first,rest⟩ := List.forall_mem_cons.mp members
    have moved := congrArg Search.clientAddressPlus (passNodeFields p s)
    rw [octets, List.map_cons, walk] at low ⊢
    dsimp only at moved
    by_cases here : p.ip = s.clientAddressPlus
    · rw [if_pos (congrArg octet here)] at low ⊢
      rw [if_pos here] at moved
      have below := (Order.lt_succ (octet s.clientAddressPlus)).trans_le ((walkAhead _ _).trans low)
      obtain ⟨last,same⟩ := incremented below
      rw [← moved] at last same
      have walks := ih rest (same.trans cursor) (last ▸ low)
      rw [last] at walks
      exact walks
    · have apart : octet p.ip ≠ octet s.clientAddressPlus := fun same =>
        here (addressExt (first.trans cursor.symm) same)
      rw [if_neg apart] at low ⊢
      rw [if_neg here] at moved
      have walks := ih rest (moved ▸ cursor) (moved ▸ low)
      rw [moved] at walks
      exact walks

theorem passedFlagged (plist : List DhcpsPool) {s : Search} (flagged : s.flag = true) :
    (passed plist s).firstAddress = s.firstAddress := by
  induction plist generalizing s with
  | nil => rfl
  | cons p later ih =>
    have fields := passNodeFields p s
    have still : (passNode p s).flag = true := by
      rw [fields, flagged]
      rfl
    have rest := ih still
    rw [passed, List.foldl_cons]
    rw [fields, flagged] at rest ⊢
    exact rest

/- The first unused address is the first gap of the table, up to its last octet. -/
theorem passedFirst {net : Nat} {plist : List DhcpsPool} {s : Search} (members : ∀ p ∈ plist, network p.ip = net)
    (unset : s.flag = false) (first : network s.firstAddress = net)
    (low : firstGap (octet s.firstAddress) (octets plist) ≤ 255) :
    network (passed plist s).firstAddress = net ∧
      octet (passed plist s).firstAddress = firstGap (octet s.firstAddress) (octets plist) := by
  induction plist generalizing s with
  | nil => exact ⟨first,rfl⟩
  | cons p later ih =>
    obtain ⟨member,rest⟩ := List.forall_mem_cons.mp members
    have order : s.firstAddress < p.ip ↔ octet s.firstAddress < octet p.ip := addressLt (first.trans member.symm)
    have fields := passNodeFields p s
    rw [octets, List.map_cons, firstGap] at low ⊢
    by_cases gap : s.firstAddress < p.ip
    · rw [if_pos (order.mp gap)]
      have flagged : (passNode p s).flag = true := by
        rw [fields, decide_eq_true gap]
        exact Bool.or_true _
      have same : (passNode p s).firstAddress = s.firstAddress := by
        rw [fields, decide_eq_true gap, Bool.or_true]
        rfl
      have stays := (passedFlagged later flagged).trans same
      rw [passed, List.foldl_cons]
      unfold passed at stays
      rw [stays]
      exact ⟨first,rfl⟩
    · rw [if_neg (mt order.mpr gap)] at low ⊢
      have still : (passNode p s).flag = false := by
        rw [fields, decide_eq_false gap, unset]
        rfl
      have moved : (passNode p s).firstAddress = increment s.firstAddress := by
        rw [fields, decide_eq_false gap, unset]
        rfl
      have below := (Order.lt_succ (octet s.firstAddress)).trans_le ((gapAhead _ _).trans low)
      obtain ⟨last,same⟩ := incremented below
      rw [← moved] at last same
      have searched := ih rest still (same.trans first) (last ▸ low)
      rw [last] at searched
      exact searched

/-! Serving a message -/

theorem refreshedKept {d : Dhcps} {s : Search} {i : Nat} (kept : Kept d) (cursor : Inside d.lease s.clientAddressPlus) :
    Kept (refresh s i d).d := by
  have same := modifiedEntries (fun pool => { pool with leaseTimer := d.leaseTime }) (fun _ => rfl) d.plist i
  exact ⟨kept.range,validEnded kept.valid (same ▸ .refl _),cursor⟩

theorem nextInside {lease : DhcpsLease} (range : Range lease) {addr : UInt32} (inside : Inside lease addr) :
    Inside lease (if addr = lease.endIp then lease.startIp else increment addr) := by
  split
  · exact startInside range
  · rename_i before
    have apart : octet addr ≠ octet lease.endIp := fun same =>
      before (addressExt (inside.network.trans range.network) same)
    have last := octetBound lease.endIp
    have more := lt_of_le_of_ne inside.last apart
    obtain ⟨next,net⟩ := incremented (Nat.lt_of_lt_of_le more (Nat.le_of_lt_succ last))
    have start := inside.start
    exact ⟨net.trans inside.network,by omega,by omega⟩

/- What the search for a new client has to offer: a free address, or none in the range. -/
def Offers (d : Dhcps) (addr : UInt32) : Prop :=
  d.lease.endIp < addr ∨ Inside d.lease addr ∧ octet addr ∉ octets d.plist

theorem allocatedKept {d : Dhcps} {s : Search} {mac : Mac} (kept : Kept d) (stranger : mac ∉ d.plist.map DhcpsPool.mac)
    (offers : Offers d (if d.lease.endIp < s.clientAddressPlus then s.firstAddress else s.clientAddress)) :
    Kept (allocate s mac d).d := by
  unfold allocate
  dsimp only
  generalize (if d.lease.endIp < s.clientAddressPlus then s.firstAddress else s.clientAddress) = client at offers ⊢
  split
  · exact ⟨kept.range,kept.valid,startInside kept.range⟩
  · rename_i fits
    obtain ⟨inside,free⟩ := offers.resolve_left fits
    exact ⟨kept.range,insertedValid (p := ⟨client,mac,d.leaseTime⟩) kept.valid inside free stranger,
      nextInside kept.range inside⟩

/- An address between two of one network is of that network. -/
theorem betweenNetwork {a b addr : UInt32} (net : network a = network b) (above : hostOrder a ≤ hostOrder addr)
    (below : hostOrder addr ≤ hostOrder b) : network addr = network a := by
  have first := octetBound addr
  have last := octetBound b
  rw [hostDigits, hostDigits] at above below
  rw [← net] at below
  have upper : mirror (network addr) = mirror (network a) := by omega
  rw [← mirrorMirror (networkBound addr), upper, mirrorMirror (networkBound a)]

/- The cursor is carried past 255 in a crowded pool only. -/
theorem cursorLow {d : Dhcps} (kept : Kept d) (roomy : ¬ Crowded d) :
    walk (octet d.clientAddressPlus) (octets d.plist) ≤ 255 := by
  have last := octetBound d.lease.endIp
  by_contra carried
  rcases walkStop (octet d.clientAddressPlus) (octets d.plist) with stop | ⟨a,inside,stop⟩
  · have cursor := octetBound d.clientAddressPlus
    rw [stop] at carried
    omega
  · have bounds := validWithin kept.valid a inside
    have next : Order.succ a = a + 1 := rfl
    rw [stop, next] at carried
    refine roomy ⟨by omega,fun addr above below => ?_⟩
    have net := betweenNetwork (kept.cursor.network.trans kept.range.network) above below
    have ahead := (hostLe net.symm).mp above
    have passes : octet addr < walk (octet d.clientAddressPlus) (octets d.plist) := by
      have bound := octetBound addr
      rw [stop, next]
      omega
    obtain ⟨p,there,same⟩ := List.mem_map.mp (walkPasses ahead passes)
    have member := kept.valid.network p there
    exact List.mem_map.mpr ⟨p,there,addressExt (member.trans (net.trans kept.cursor.network).symm) same⟩

/- Where the cursor stands behind the whole list. -/
theorem searchWalks {d : Dhcps} (kept : Kept d) (low : walk (octet d.clientAddressPlus) (octets d.plist) ≤ 255) :
    network (passed d.plist (searchStart d)).clientAddressPlus = network d.lease.startIp ∧
      octet (passed d.plist (searchStart d)).clientAddressPlus =
        walk (octet d.clientAddressPlus) (octets d.plist) :=
  passedCursor (s := searchStart d) kept.valid.network kept.cursor.network low

/- The cursor in the range is at a free address. -/
theorem cursorOffers {d : Dhcps} (kept : Kept d) (low : walk (octet d.clientAddressPlus) (octets d.plist) ≤ 255)
    (fits : walk (octet d.clientAddressPlus) (octets d.plist) ≤ octet d.lease.endIp) :
    Offers d (passed d.plist (searchStart d)).clientAddress := by
  obtain ⟨net,cursor⟩ := searchWalks kept low
  have together := (passedKeeps d.plist (s := searchStart d) rfl).2
  have ahead := kept.cursor.start.trans (walkAhead (octet d.clientAddressPlus) (octets d.plist))
  have free := walkFree (validSorted kept.valid) (octet d.clientAddressPlus)
  rw [← cursor] at fits ahead free
  rw [together]
  exact Or.inr ⟨⟨net,ahead,fits⟩,free⟩

theorem gapLow {d : Dhcps} (kept : Kept d) (room : octet d.lease.endIp < 255) :
    firstGap (octet d.lease.startIp) (octets d.plist) ≤ 255 := by
  have within := validWithin kept.valid
  rcases gapStop (validSorted kept.valid) fun a inside => (within a inside).1 with stop | ⟨a,inside,stop⟩
  · rw [stop]
    exact (kept.range.ordered.trans_lt room).le
  · rw [stop]
    exact Order.succ_le_of_lt ((within a inside).2.trans_lt room)

/- The first gap of a range that ends below 255. -/
theorem gapOffers {d : Dhcps} (kept : Kept d) (room : octet d.lease.endIp < 255) :
    Offers d (passed d.plist (searchStart d)).firstAddress := by
  have sorted := validSorted kept.valid
  have within := validWithin kept.valid
  have ahead : ∀ a ∈ octets d.plist, octet d.lease.startIp ≤ a := fun a inside => (within a inside).1
  obtain ⟨net,gap⟩ := passedFirst (s := searchStart d) kept.valid.network rfl rfl (gapLow kept room)
  have first : octet (passed d.plist (searchStart d)).firstAddress =
      firstGap (octet d.lease.startIp) (octets d.plist) := gap
  have start := gapAhead (octet d.lease.startIp) (octets d.plist)
  have free := gapFree sorted ahead
  rw [← first] at start free
  rcases Nat.lt_or_ge (octet d.lease.endIp) (octet (passed d.plist (searchStart d)).firstAddress) with none | inside
  · exact Or.inl ((addressLt (kept.range.network.symm.trans net.symm)).mpr none)
  · exact Or.inr ⟨⟨net,start,inside⟩,free⟩

/- The search over the whole list offers a free address of the range, if there is one. -/
theorem searchOffers {d : Dhcps} (kept : Kept d) (roomy : ¬ Crowded d) {s : Search}
    (whole : s = passed d.plist (searchStart d)) :
    Offers d (if d.lease.endIp < s.clientAddressPlus then s.firstAddress else s.clientAddress) := by
  have low := cursorLow kept roomy
  obtain ⟨net,cursor⟩ := searchWalks kept low
  have order : d.lease.endIp < s.clientAddressPlus ↔
      octet d.lease.endIp < walk (octet d.clientAddressPlus) (octets d.plist) := by
    rw [whole, addressLt (kept.range.network.symm.trans net.symm), cursor]
  split
  · rename_i above
    rw [whole]
    exact gapOffers kept ((order.mp above).trans_le low)
  · rename_i fits
    rw [whole]
    exact cursorOffers kept low (Nat.le_of_not_lt (mt order.mpr fits))

/- Before a lease of the client itself the cursor meets smaller addresses only. -/
theorem foundInside {d : Dhcps} (kept : Kept d) {before behind : List DhcpsPool} {node : DhcpsPool} {s : Search}
    (split : d.plist = before ++ node :: behind) (start : s.clientAddressPlus = d.clientAddressPlus) :
    Inside d.lease (passed before s).clientAddressPlus := by
  have sorted := validSorted kept.valid
  have within := validWithin kept.valid
  have members := kept.valid.network
  have parts : octets (before ++ node :: behind) = octets before ++ octet node.ip :: octets behind := List.map_append
  rw [split] at sorted within members
  rw [parts] at sorted within
  have ends := (within (octet node.ip) (List.mem_append_right _ (List.mem_cons_self ..))).2
  have smaller : ∀ a ∈ octets before, a < octet node.ip := by
    intro a inside
    exact (List.pairwise_append.mp sorted).2.2 a inside (octet node.ip) (List.mem_cons_self ..)
  have stop : walk (octet s.clientAddressPlus) (octets before) ≤ octet d.lease.endIp := by
    rw [start]
    rcases walkStop (octet d.clientAddressPlus) (octets before) with stop | ⟨a,inside,stop⟩
    · rw [stop]
      exact kept.cursor.last
    · rw [stop]
      exact (Order.succ_le_of_lt (smaller a inside)).trans ends
  have last := octetBound d.lease.endIp
  have net : network s.clientAddressPlus = network d.lease.startIp := start ▸ kept.cursor.network
  obtain ⟨same,cursor⟩ := passedCursor (fun p inside => members p (List.mem_append_left _ inside)) net (by omega)
  have ahead := walkAhead (octet s.clientAddressPlus) (octets before)
  have first := kept.cursor.start
  rw [← start] at first
  exact ⟨same,by omega,by omega⟩

theorem serveKept {d : Dhcps} (kept : Kept d) (byte : Nat → UInt8)
    (roomy : Memory.slice byte chaddrAt 6 ∉ d.plist.map DhcpsPool.mac → ¬ Crowded d) : Kept (serve byte d).d := by
  unfold serve
  rw [searchStarts]
  rcases searchCases (Memory.slice byte chaddrAt 6) (Memory.slice byte ciaddrAt 4) 0 d.plist (searchStart d) with
    ⟨absent,same⟩ | ⟨before,node,behind,renew,split,_,same⟩
  · have none : (passed d.plist (searchStart d)).pnode = none := (passedKeeps d.plist (s := searchStart d) rfl).1
    dsimp only
    rw [same, none]
    exact allocatedKept kept absent (searchOffers kept (roomy absent) rfl)
  · dsimp only
    rw [same]
    exact refreshedKept kept (foundInside kept split rfl)

theorem messageKept {d : Dhcps} (kept : Kept d) {byte : Nat → UInt8} (len : Int) (station : Bool)
    (roomy : NewClient byte d → ¬ Crowded d) : Kept (parseMsg byte len station d).2 := by
  unfold parseMsg
  split
  · rename_i cookie
    have served := serveKept kept byte fun absent => roomy ⟨cookie,absent⟩
    have removed := removedValid served.valid (serve byte d).pnode
    dsimp only
    split
    · exact ⟨served.range,removed,served.cursor⟩
    · dsimp only
      split
      · exact ⟨served.range,removed,served.cursor⟩
      · exact served
  · exact kept

theorem startKept (ip : UInt32) (d : Dhcps) : Kept (dhcpsStart ip (dhcpsStop d)) := by
  have range := initRange ip d.lease
  exact ⟨range,emptyValid _,startInside range⟩

/-- From the start of the server on, with any configured range and any access point address,
the pool stays sound through every run of messages and ticks in which no new client arrives
at a crowded pool. -/
theorem poolSound (ip : UInt32) (d : Dhcps) (inputs : List Input)
    (roomy : Run.Along step Roomy (dhcpsStart ip (dhcpsStop d)) inputs) :
    let d := Run.run step (dhcpsStart ip (dhcpsStop d)) inputs
    Sound d.lease d.plist := by
  have kept : Kept (Run.run step (dhcpsStart ip (dhcpsStop d)) inputs) := by
    apply Run.alongInvariant _ (startKept ip d) roomy
    intro s input kept room
    cases input with
    | message byte len station => exact messageKept kept len station room
    | tick => exact tickKept kept
  exact validSound kept.range kept.valid

theorem cursorRoomy {d : Dhcps} (before : hostOrder d.clientAddressPlus ≤ hostOrder d.lease.endIp)
    (free : d.clientAddressPlus ∉ d.plist.map DhcpsPool.ip) : ¬ Crowded d :=
  fun crowded => free (crowded.2 d.clientAddressPlus (Nat.le_refl _) before)

/-! 192.168.4.1 with the range from 192.168.4.254 to 192.168.4.255 -/

def upperPair : Dhcps :=
  dhcpsStart 0x0104A8C0 (dhcpsStop ⟨⟨true,0xFE04A8C0,0xFF04A8C0⟩,[],0,0,0,false,120⟩)

def discover (client : UInt8) : Input :=
  let bytes := List.replicate 28 0 ++ [client,0,0,0,0,0] ++ List.replicate 202 0 ++ magicCookie ++ [53,1,1,255]
  .message (fun i => bytes.getD i 0) 4 true

theorem twoClientsSound :
    let d := Run.run step upperPair [discover 1,discover 2,.tick]
    Sound d.lease d.plist := by
  apply poolSound
  exact ⟨fun _ => cursorRoomy (by decide) (by decide),fun _ => cursorRoomy (by decide +kernel) (by decide +kernel),
    trivial,trivial⟩

/- The third client is leased 192.168.5.0. -/
theorem thirdClientOutside :
    let d := Run.run step upperPair [discover 1,discover 2,discover 3]
    d.plist = [⟨0x0005A8C0,[3,0,0,0,0,0],120⟩,⟨0xFE04A8C0,[1,0,0,0,0,0],120⟩,⟨0xFF04A8C0,[2,0,0,0,0,0],120⟩] ∧
      ¬ Sound d.lease d.plist := by
  have pool : (Run.run step upperPair [discover 1,discover 2,discover 3]).plist =
      [⟨0x0005A8C0,[3,0,0,0,0,0],120⟩,⟨0xFE04A8C0,[1,0,0,0,0,0],120⟩,⟨0xFF04A8C0,[2,0,0,0,0,0],120⟩] := by
    decide +kernel
  refine ⟨pool,fun sound => ?_⟩
  have within := sound.within
  rw [pool] at within
  exact absurd (within _ (List.mem_cons_self ..)).2 (by decide +kernel)

end YunbaIot.LeasePool
