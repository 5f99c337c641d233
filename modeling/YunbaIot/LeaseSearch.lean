import YunbaIot.LeasePool

/-! How far the search for an address reaches: a client without a lease gets a free address as
long as the range has one, a client with a lease keeps its own. -/
namespace YunbaIot.LeaseSearch
open DhcpServer NetworkOrder LeaseRange LeaseTable LeasePool

def client (byte : Nat → UInt8) : Mac := Memory.slice byte chaddrAt 6

-- the type does not depend on the address the client gets
def messageType (byte : Nat → UInt8) (len : Int) : UInt8 := (optionScan byte (optionsAt + 4) len 0).type

def InRange (lease : DhcpsLease) (addr : UInt32) : Prop :=
  hostOrder lease.startIp ≤ hostOrder addr ∧ hostOrder addr ≤ hostOrder lease.endIp

def Leased (d : Dhcps) (addr : UInt32) : Prop := addr ∈ d.plist.map DhcpsPool.ip

/- A lease of a free address is all that is added. -/
def Assigned (byte : Nat → UInt8) (d after : Dhcps) : Prop :=
  ∃ addr, InRange d.lease addr ∧ ¬ Leased d addr ∧ after.clientAddress = addr ∧
    after.plist = nodeInsertToList d.plist ⟨addr,client byte,d.leaseTime⟩

/- The answer of parse_msg when it has no address. -/
def Exhausted (d : Dhcps) (answer : Nat × Dhcps) : Prop := answer.1 = stateNak ∧ answer.2.plist = d.plist

def Complete (byte : Nat → UInt8) (len : Int) (station : Bool) (d : Dhcps) : Prop :=
  let answer := parseMsg byte len station d
  NewClient byte d →
    (messageType byte len ≠ dhcpRelease → (∃ addr, InRange d.lease addr ∧ ¬ Leased d addr) → Assigned byte d answer.2) ∧
    (Exhausted d answer → ∀ addr, InRange d.lease addr → Leased d addr)

/- The search came to 0.0.0.0, the start of the range, and parse_msg takes no such address. -/
def AnyAddress (d : Dhcps) (answer : Nat × Dhcps) : Prop :=
  d.lease.startIp = 0 ∧ answer.2.clientAddress = 0 ∧ Exhausted d answer

def CompleteButAny (byte : Nat → UInt8) (len : Int) (station : Bool) (d : Dhcps) : Prop :=
  let answer := parseMsg byte len station d
  NewClient byte d →
    (messageType byte len ≠ dhcpRelease → (∃ addr, InRange d.lease addr ∧ ¬ Leased d addr) →
      Assigned byte d answer.2 ∨ AnyAddress d answer) ∧
    (Exhausted d answer → (∀ addr, InRange d.lease addr → Leased d addr) ∨ AnyAddress d answer)

/- No message gives a client another address, and only RELEASE takes its own. -/
def Stable (byte : Nat → UInt8) (len : Int) (station : Bool) (d : Dhcps) : Prop :=
  let after := (parseMsg byte len station d).2
  ∀ pool ∈ d.plist, pool.mac = client byte →
    (∀ other ∈ after.plist, other.mac = client byte → other.ip = pool.ip) ∧
    (messageType byte len ≠ dhcpRelease → ∃ other ∈ after.plist, other.mac = client byte ∧ other.ip = pool.ip) ∧
    (Memory.slice byte optionsAt 4 = magicCookie → messageType byte len ≠ dhcpRelease → after.clientAddress = pool.ip)

/-! The type of a message -/

theorem loopType (byte : Nat → UInt8) (last : Int) (a b : UInt32) (fuel optptr : Nat) {s t : Options}
    (same : s.type = t.type) :
    (optionLoop byte a last fuel optptr s).type = (optionLoop byte b last fuel optptr t).type := by
  induction fuel generalizing optptr s t with
  | zero => exact same
  | succ fuel ih =>
    have inspected : (inspect byte a optptr s).type = (inspect byte b optptr t).type := by
      unfold inspect
      dsimp only
      split
      · rfl
      · split
        · exact same
        · exact same
    rw [optionLoop, optionLoop]
    split
    · dsimp only
      split
      · exact inspected
      · exact ih _ inspected
    · exact same

theorem scanType (byte : Nat → UInt8) (len : Int) (addr : UInt32) :
    (optionScan byte (optionsAt + 4) len addr).type = messageType byte len :=
  loopType byte _ addr 0 _ _ rfl

/- What the loop may have found out about the requested address. -/
theorem loopState (byte : Nat → UInt8) (addr : UInt32) (last : Int) (fuel optptr : Nat) {s : Options}
    (start : s.state ≠ stateRelease) : (optionLoop byte addr last fuel optptr s).state ≠ stateRelease := by
  induction fuel generalizing optptr s with
  | zero => exact start
  | succ fuel ih =>
    have inspected : (inspect byte addr optptr s).state ≠ stateRelease := by
      unfold inspect
      dsimp only
      split
      · exact start
      · split
        · dsimp only
          split <;> decide
        · exact start
    rw [optionLoop]
    split
    · dsimp only
      split
      · exact inspected
      · exact ih _ inspected
    · exact start

theorem releaseAnswer (byte : Nat → UInt8) (len : Int) (addr : UInt32) (renew : Bool) :
    parseOptions byte (optionsAt + 4) len addr renew = stateRelease ↔ messageType byte len = dhcpRelease := by
  rw [← scanType byte len addr]
  have state : (optionScan byte (optionsAt + 4) len addr).state ≠ stateRelease :=
    loopState byte addr _ _ _ (by decide)
  unfold parseOptions answeredState
  generalize optionScan byte (optionsAt + 4) len addr = s at state ⊢
  by_cases release : s.type = dhcpRelease
  · rw [release]
    exact iff_of_true rfl rfl
  · refine iff_of_false (fun answered => ?_) release
    split at answered
    · cases answered
    · split at answered
      · split at answered
        · exact state answered
        · cases renew <;> cases answered
      · split at answered
        · cases answered
        · exact state answered

/-! The address the search comes to -/

/- The search for a client without a lease, and what it comes to. -/
def searched (d : Dhcps) : Search := passed d.plist (searchStart d)

def chosen (d : Dhcps) : UInt32 :=
  if d.lease.endIp < (searched d).clientAddressPlus then (searched d).firstAddress else (searched d).clientAddress

theorem roomyBelow {d : Dhcps} (room : octet d.lease.endIp < 255) : ¬ Crowded d := fun crowded => room.ne crowded.1

theorem rangeNetwork {lease : DhcpsLease} (range : Range lease) {addr : UInt32} (inside : InRange lease addr) :
    network addr = network lease.startIp := betweenNetwork range.network inside.1 inside.2

theorem insideRange {lease : DhcpsLease} (range : Range lease) {addr : UInt32} (inside : Inside lease addr) :
    InRange lease addr :=
  ⟨(hostLe inside.network.symm).mpr inside.start,
    (hostLe (inside.network.trans range.network)).mpr inside.last⟩

theorem leasedOctet {d : Dhcps} (kept : Kept d) {addr : UInt32} (net : network addr = network d.lease.startIp) :
    Leased d addr ↔ octet addr ∈ octets d.plist := by
  constructor
  · intro leased
    obtain ⟨p,there,same⟩ := List.mem_map.mp leased
    exact List.mem_map.mpr ⟨p,there,congrArg octet same⟩
  · intro inside
    obtain ⟨p,there,same⟩ := List.mem_map.mp inside
    exact List.mem_map.mpr ⟨p,there,addressExt ((kept.valid.network p there).trans net.symm) same⟩

/- Behind the end of the range the search comes only when it is leased from start to end. -/
theorem chosenNone {d : Dhcps} (kept : Kept d) (room : octet d.lease.endIp < 255) (none : d.lease.endIp < chosen d)
    {addr : UInt32} (inside : InRange d.lease addr) : Leased d addr := by
  have sorted := validSorted kept.valid
  have within := validWithin kept.valid
  have ahead : ∀ a ∈ octets d.plist, octet d.lease.startIp ≤ a := fun a inside => (within a inside).1
  have net := rangeNetwork kept.range inside
  have start := (hostLe net.symm).mp inside.1
  have last := (hostLe (net.trans kept.range.network)).mp inside.2
  have together := (passedKeeps d.plist (s := searchStart d) rfl).2
  have gap : d.lease.endIp < (searched d).firstAddress := by
    unfold chosen at none
    split at none
    · exact none
    · rename_i fits
      exact absurd (together ▸ none) fits
  obtain ⟨same,first⟩ := passedFirst (s := searchStart d) kept.valid.network rfl rfl (gapLow kept room)
  have behind := (addressLt (kept.range.network.symm.trans same.symm)).mp gap
  have reached : octet addr < firstGap (octet d.lease.startIp) (octets d.plist) :=
    last.trans_lt (behind.trans_eq first)
  exact (leasedOctet kept net).mpr (gapPasses sorted ahead start reached)

theorem chosenFree {d : Dhcps} (kept : Kept d) (room : octet d.lease.endIp < 255) (fits : ¬ d.lease.endIp < chosen d) :
    InRange d.lease (chosen d) ∧ ¬ Leased d (chosen d) := by
  have offers : Offers d (chosen d) := searchOffers kept (roomyBelow room) rfl
  obtain ⟨inside,free⟩ := offers.resolve_left fits
  exact ⟨insideRange kept.range inside,mt (leasedOctet kept inside.network).mp free⟩

/- Only the start of a range can be 0.0.0.0. -/
theorem zeroStart {lease : DhcpsLease} (range : Range lease) (inside : InRange lease 0) : lease.startIp = 0 := by
  have net := rangeNetwork range inside
  have start := (hostLe net.symm).mp inside.1
  exact addressExt net.symm (Nat.le_antisymm start (Nat.zero_le _))

/-! What a message does -/

theorem insertedErased (plist : List DhcpsPool) (p : DhcpsPool) :
    (nodeInsertToList plist p).eraseIdx (insertedAt plist p.ip) = plist := by
  induction plist with
  | nil => rfl
  | cons q later ih =>
    rw [nodeInsertToList, insertedAt]
    split
    · rfl
    · rw [List.eraseIdx_cons_succ, ih]

theorem insertedLength (plist : List DhcpsPool) (p : DhcpsPool) :
    (nodeInsertToList plist p).length = plist.length + 1 := by
  induction plist with
  | nil => rfl
  | cons q later ih =>
    rw [nodeInsertToList]
    split
    · rfl
    · rw [List.length_cons, ih, List.length_cons]

/- A new client gets what the search comes to. -/
theorem newServed {byte : Nat → UInt8} {d : Dhcps} (new : NewClient byte d) :
    serve byte d = allocate (searched d) (client byte) d := by
  unfold serve
  rw [searchStarts]
  rcases searchCases (Memory.slice byte chaddrAt 6) (Memory.slice byte ciaddrAt 4) 0 d.plist (searchStart d) with
    ⟨_,same⟩ | ⟨before,node,behind,renew,split,own,_⟩
  · have none : (passed d.plist (searchStart d)).pnode = none := (passedKeeps d.plist (s := searchStart d) rfl).1
    dsimp only
    rw [same, none]
    rfl
  · have there : node ∈ d.plist := split ▸ List.mem_append_right _ (List.mem_cons_self ..)
    exact absurd (List.mem_map.mpr ⟨node,there,own⟩) new.2

theorem newCrowded {byte : Nat → UInt8} {d : Dhcps} (new : NewClient byte d) (len : Int) (station : Bool)
    (none : d.lease.endIp < chosen d) : Exhausted d (parseMsg byte len station d) := by
  unfold chosen at none
  unfold parseMsg
  rw [if_pos new.1, newServed new]
  unfold allocate
  dsimp only
  rw [if_pos none]
  dsimp only
  rw [if_pos (Or.inl none)]
  exact ⟨rfl,rfl⟩

theorem newAllocated {byte : Nat → UInt8} {d : Dhcps} (new : NewClient byte d) (fits : ¬ d.lease.endIp < chosen d) :
    ∃ plus renew, serve byte d = ⟨some (insertedAt d.plist (chosen d)),{ d with
      clientAddress := chosen d
      clientAddressPlus := plus
      renew := renew
      plist := nodeInsertToList d.plist ⟨chosen d,client byte,d.leaseTime⟩ }⟩ := by
  unfold chosen at fits ⊢
  rw [newServed new]
  unfold allocate
  dsimp only
  rw [if_neg fits]
  exact ⟨_,_,rfl⟩

/- 0.0.0.0 is leased and given up again. -/
theorem newAny {byte : Nat → UInt8} {d : Dhcps} (kept : Kept d) (room : octet d.lease.endIp < 255)
    (new : NewClient byte d) (len : Int) (station : Bool) (fits : ¬ d.lease.endIp < chosen d) (zero : chosen d = 0) :
    AnyAddress d (parseMsg byte len station d) := by
  have start := (chosenFree kept room fits).1
  rw [zero] at start
  obtain ⟨plus,renew,served⟩ := newAllocated new fits
  unfold parseMsg
  rw [if_pos new.1, served]
  dsimp only
  rw [if_pos (Or.inr zero)]
  exact ⟨zeroStart kept.range start,zero,rfl,insertedErased d.plist ⟨chosen d,client byte,d.leaseTime⟩⟩

theorem newInserted {byte : Nat → UInt8} {d : Dhcps} (new : NewClient byte d) {len : Int} (station : Bool)
    (fits : ¬ d.lease.endIp < chosen d) (some : chosen d ≠ 0) (type : messageType byte len ≠ dhcpRelease) :
    let after := (parseMsg byte len station d).2
    after.clientAddress = chosen d ∧ after.plist = nodeInsertToList d.plist ⟨chosen d,client byte,d.leaseTime⟩ := by
  obtain ⟨plus,renew,served⟩ := newAllocated new fits
  have answer : ¬ parseOptions byte (optionsAt + 4) len (chosen d) renew = stateRelease :=
    mt (releaseAnswer byte len (chosen d) renew).mp type
  unfold parseMsg
  rw [if_pos new.1, served]
  dsimp only
  rw [if_neg (not_or.mpr ⟨fits,some⟩)]
  dsimp only
  rw [if_neg answer]
  exact ⟨rfl,rfl⟩

theorem newReleased {byte : Nat → UInt8} {d : Dhcps} (new : NewClient byte d) {len : Int} (station : Bool)
    (fits : ¬ d.lease.endIp < chosen d) (some : chosen d ≠ 0) (type : messageType byte len = dhcpRelease) :
    (parseMsg byte len station d).1 ≠ stateNak ∧ (parseMsg byte len station d).2.plist = d.plist := by
  obtain ⟨plus,renew,served⟩ := newAllocated new fits
  have answer := (releaseAnswer byte len (chosen d) renew).mpr type
  unfold parseMsg
  rw [if_pos new.1, served]
  dsimp only
  rw [if_neg (not_or.mpr ⟨fits,some⟩)]
  dsimp only
  rw [answer, if_pos rfl]
  refine ⟨?_,insertedErased d.plist ⟨chosen d,client byte,d.leaseTime⟩⟩
  cases station with
  | true => exact (by decide : stateRelease ≠ stateNak)
  | false => exact (by decide : 0 ≠ stateNak)

theorem completeButAny {d : Dhcps} (kept : Kept d) (room : octet d.lease.endIp < 255) (byte : Nat → UInt8) (len : Int)
    (station : Bool) : CompleteButAny byte len station d := by
  intro new
  by_cases fits : d.lease.endIp < chosen d
  · have full : ∀ addr, InRange d.lease addr → Leased d addr := fun addr inside => chosenNone kept room fits inside
    refine ⟨fun _ free => ?_,fun _ => Or.inl full⟩
    obtain ⟨addr,inside,free⟩ := free
    exact absurd (full addr inside) free
  · by_cases zero : chosen d = 0
    · have any := newAny kept room new len station fits zero
      exact ⟨fun _ _ => Or.inr any,fun _ => Or.inr any⟩
    · obtain ⟨inside,free⟩ := chosenFree kept room fits
      have inserted (type : messageType byte len ≠ dhcpRelease) := newInserted new station fits zero type
      refine ⟨fun type _ => Or.inl ⟨chosen d,inside,free,inserted type⟩,fun exhausted => ?_⟩
      by_cases type : messageType byte len = dhcpRelease
      · exact absurd exhausted.1 (newReleased new station fits zero type).1
      · have longer := insertedLength d.plist ⟨chosen d,client byte,d.leaseTime⟩
        rw [← (inserted type).2, exhausted.2] at longer
        omega

/-! A client with a lease -/

theorem knownServed {byte : Nat → UInt8} {d : Dhcps} (known : client byte ∈ d.plist.map DhcpsPool.mac) :
    ∃ node ∈ d.plist, node.mac = client byte ∧ ∃ i plus renew, serve byte d = ⟨some i,{ d with
      clientAddress := node.ip
      clientAddressPlus := plus
      renew := renew
      plist := d.plist.modify i fun pool => { pool with leaseTimer := d.leaseTime } }⟩ := by
  unfold serve
  rw [searchStarts]
  rcases searchCases (Memory.slice byte chaddrAt 6) (Memory.slice byte ciaddrAt 4) 0 d.plist (searchStart d) with
    ⟨absent,_⟩ | ⟨before,node,behind,renew,split,own,same⟩
  · exact absurd known absent
  · refine ⟨node,split ▸ List.mem_append_right _ (List.mem_cons_self ..),own,?_⟩
    dsimp only
    rw [same]
    exact ⟨_,_,_,rfl⟩

/- What the server keeps to from its start on, with a range that ends below 255. -/
structure Serving (d : Dhcps) : Prop where
  kept : Kept d
  room : octet d.lease.endIp < 255
  named : ∀ pool ∈ d.plist, pool.ip ≠ 0

theorem leasedFits {d : Dhcps} (kept : Kept d) {pool : DhcpsPool} (inside : pool ∈ d.plist) :
    ¬ d.lease.endIp < pool.ip := by
  have net := (kept.valid.network pool inside).trans kept.range.network
  have bounds := validWithin kept.valid (octet pool.ip) (List.mem_map.mpr ⟨pool,inside,rfl⟩)
  rw [addressLt net.symm]
  exact Nat.not_lt_of_le bounds.2

theorem knownMessage {byte : Nat → UInt8} {d : Dhcps} (serving : Serving d)
    (cookie : Memory.slice byte optionsAt 4 = magicCookie) (known : client byte ∈ d.plist.map DhcpsPool.mac)
    (len : Int) (station : Bool) :
    let after := (parseMsg byte len station d).2
    (after.plist.map entry).Sublist (d.plist.map entry) ∧
    (messageType byte len ≠ dhcpRelease → after.plist.map entry = d.plist.map entry ∧
      ∃ node ∈ d.plist, node.mac = client byte ∧ after.clientAddress = node.ip) := by
  obtain ⟨node,there,own,i,plus,renew,served⟩ := knownServed known
  have fits := not_or.mpr ⟨leasedFits serving.kept there,serving.named node there⟩
  have same := modifiedEntries (fun pool => { pool with leaseTimer := d.leaseTime }) (fun _ => rfl) d.plist i
  have answer := releaseAnswer byte len node.ip renew
  unfold parseMsg
  rw [if_pos cookie, served]
  dsimp only
  rw [if_neg fits]
  dsimp only
  by_cases type : messageType byte len = dhcpRelease
  · rw [if_pos (answer.mpr type), ← same]
    exact ⟨(List.eraseIdx_sublist _ i).map entry,fun other => absurd type other⟩
  · rw [if_neg (mt answer.mp type)]
    exact ⟨same ▸ .refl _,fun _ => ⟨same,node,there,own,rfl⟩⟩

theorem sameLease {d : Dhcps} (kept : Kept d) {p q : DhcpsPool} (first : p ∈ d.plist) (second : q ∈ d.plist)
    (mac : p.mac = q.mac) : p = q :=
  List.inj_on_of_nodup_map (validSound kept.range kept.valid).macs first second mac

theorem stable {d : Dhcps} (serving : Serving d) (byte : Nat → UInt8) (len : Int) (station : Bool) :
    Stable byte len station d := by
  unfold Stable
  intro after pool inside own
  by_cases cookie : Memory.slice byte optionsAt 4 = magicCookie
  · have known : client byte ∈ d.plist.map DhcpsPool.mac := List.mem_map.mpr ⟨pool,inside,own⟩
    obtain ⟨fewer,kept⟩ := knownMessage serving cookie known len station
    refine ⟨fun other there mine => ?_,fun type => ?_,fun _ type => ?_⟩
    · obtain ⟨p,old,same⟩ := List.mem_map.mp (fewer.subset (List.mem_map_of_mem there))
      have mac : p.mac = other.mac := congrArg Prod.snd same
      rw [← sameLease serving.kept old inside (mac.trans (mine.trans own.symm))]
      exact (congrArg Prod.fst same).symm
    · have entries : entry pool ∈ after.plist.map entry := (kept type).1 ▸ List.mem_map_of_mem inside
      obtain ⟨other,there,same⟩ := List.mem_map.mp entries
      have mac : other.mac = pool.mac := congrArg Prod.snd same
      exact ⟨other,there,mac.trans own,congrArg Prod.fst same⟩
    · obtain ⟨_,node,there,mine,answered⟩ := kept type
      rw [← sameLease serving.kept there inside (mine.trans own.symm)]
      exact answered
  · have same : after = d := by
      show (parseMsg byte len station d).2 = d
      unfold parseMsg
      rw [if_neg cookie]
    rw [same]
    exact ⟨fun other there mine => congrArg DhcpsPool.ip (sameLease serving.kept there inside (mine.trans own.symm)),
      fun _ => ⟨pool,inside,own,rfl⟩,fun given => absurd given cookie⟩

/-! Runs -/

theorem stepLease (d : Dhcps) (input : Input) : (step d input).lease = d.lease := by
  cases input with
  | tick => rfl
  | message byte len station =>
    have served : (serve byte d).d.lease = d.lease := by
      unfold serve
      dsimp only
      split
      · rfl
      · unfold allocate
        generalize (if d.lease.endIp < (search byte d).clientAddressPlus then (search byte d).firstAddress
          else (search byte d).clientAddress) = addr
        dsimp only
        split <;> rfl
    show (parseMsg byte len station d).2.lease = d.lease
    unfold parseMsg
    split
    · dsimp only
      split
      · exact served
      · dsimp only
        split <;> exact served
    · rfl

theorem runLease (d : Dhcps) (inputs : List Input) : (Run.run step d inputs).lease = d.lease :=
  @Run.runInvariant _ _ step (fun s => s.lease = d.lease) (fun s input same => (stepLease s input).trans same) d inputs
    rfl

theorem fewerNamed {before after : List DhcpsPool} (named : ∀ pool ∈ before, pool.ip ≠ 0)
    (fewer : (after.map entry).Sublist (before.map entry)) : ∀ pool ∈ after, pool.ip ≠ 0 := by
  intro pool inside
  obtain ⟨p,old,same⟩ := List.mem_map.mp (fewer.subset (List.mem_map_of_mem inside))
  have address : p.ip = pool.ip := congrArg Prod.fst same
  exact address ▸ named p old

theorem tickNamed {d : Dhcps} (named : ∀ pool ∈ d.plist, pool.ip ≠ 0) : ∀ pool ∈ (dhcpsCoarseTmr d).plist, pool.ip ≠ 0 := by
  have aged := fewerNamed named (agedEntries d.plist)
  unfold dhcpsCoarseTmr
  dsimp only
  split
  · exact fun pool inside => aged pool ((killedSublist _).subset inside)
  · exact aged

theorem messageNamed {d : Dhcps} (serving : Serving d) (byte : Nat → UInt8) (len : Int) (station : Bool) :
    ∀ pool ∈ (parseMsg byte len station d).2.plist, pool.ip ≠ 0 := by
  have kept := serving.kept
  have room := serving.room
  have unchanged (same : (parseMsg byte len station d).2.plist = d.plist) :
      ∀ pool ∈ (parseMsg byte len station d).2.plist, pool.ip ≠ 0 := same ▸ serving.named
  by_cases cookie : Memory.slice byte optionsAt 4 = magicCookie
  · by_cases known : client byte ∈ d.plist.map DhcpsPool.mac
    · exact fewerNamed serving.named (knownMessage serving cookie known len station).1
    · have new : NewClient byte d := ⟨cookie,known⟩
      by_cases fits : d.lease.endIp < chosen d
      · exact unchanged (newCrowded new len station fits).2
      · by_cases zero : chosen d = 0
        · exact unchanged (newAny kept room new len station fits zero).2.2.2
        · by_cases type : messageType byte len = dhcpRelease
          · exact unchanged (newReleased new station fits zero type).2
          · rw [(newInserted new station fits zero type).2]
            intro pool inside
            rcases insertedMember inside with rfl | old
            · exact zero
            · exact serving.named pool old
  · apply unchanged
    unfold parseMsg
    rw [if_neg cookie]

theorem stepServing {d : Dhcps} (serving : Serving d) (input : Input) : Serving (step d input) := by
  have room : octet (step d input).lease.endIp < 255 := (stepLease d input).symm ▸ serving.room
  cases input with
  | tick => exact ⟨tickKept serving.kept,room,tickNamed serving.named⟩
  | message byte len station =>
    exact ⟨messageKept serving.kept len station fun _ => roomyBelow serving.room,room,
      messageNamed serving byte len station⟩

theorem runServing (ip : UInt32) (d : Dhcps) (inputs : List Input)
    (room : octet (Run.run step (dhcpsStart ip (dhcpsStop d)) inputs).lease.endIp < 255) :
    Serving (Run.run step (dhcpsStart ip (dhcpsStop d)) inputs) := by
  rw [runLease] at room
  have start : Serving (dhcpsStart ip (dhcpsStop d)) := ⟨startKept ip d,room,fun _ inside => nomatch inside⟩
  exact @Run.runInvariant _ _ step Serving (fun s input serving => stepServing serving input) _ inputs start

/-- In every state a run of messages and ticks reaches, with a range that ends below 255: a new
client gets a free address of the range if there is one, and is turned away only if there is
none, but for the address 0.0.0.0; a client with a lease keeps its address. -/
theorem allocationComplete (ip : UInt32) (d : Dhcps) (inputs : List Input) :
    let d := Run.run step (dhcpsStart ip (dhcpsStop d)) inputs
    octet d.lease.endIp < 255 →
    ∀ byte len station, CompleteButAny byte len station d ∧ Stable byte len station d := by
  intro d room byte len station
  have serving : Serving d := runServing ip _ inputs room
  exact ⟨completeButAny serving.kept serving.room byte len station,stable serving byte len station⟩

/- A DISCOVER of the client whose address begins with this byte. -/
def discover (client : UInt8) : Nat → UInt8 :=
  let bytes := List.replicate 28 0 ++ [client,0,0,0,0,0] ++ List.replicate 202 0 ++ magicCookie ++ [53,1,1,255]
  fun i => bytes.getD i 0

/-! 192.168.4.1 with the range from 192.168.4.2 to 192.168.4.100 and two clients -/

def homeNetwork : Dhcps := ⟨⟨true,0x0204A8C0,0x6404A8C0⟩,[],0,0,0,false,120⟩
def twoClients : List Input := [.message (discover 1) 4 true,.message (discover 2) 4 true]

theorem discoverComplete :
    let d := Run.run step (dhcpsStart 0x0104A8C0 (dhcpsStop homeNetwork)) twoClients
    d.plist.map DhcpsPool.ip = [0x0204A8C0,0x0304A8C0] ∧
      ∀ byte len station, CompleteButAny byte len station d ∧ Stable byte len station d :=
  ⟨by decide +kernel,allocationComplete 0x0104A8C0 homeNetwork twoClients (by decide +kernel)⟩

/-! 0.0.0.200 with the range from 0.0.0.0 to 0.0.0.50 -/

def zeroNetwork : Dhcps := ⟨⟨true,0,0x32000000⟩,[],0,0,0,false,120⟩
def firstDiscover : Nat → UInt8 := discover 1

/- The first client is turned away with every address free. -/
theorem zeroRefused : ¬ ∀ (ip : UInt32) (d : Dhcps) (inputs : List Input),
    let d := Run.run step (dhcpsStart ip (dhcpsStop d)) inputs
    octet d.lease.endIp < 255 →
    ∀ byte len station, Complete byte len station d ∧ Stable byte len station d := by
  intro complete
  have started := (complete 0xC8000000 zeroNetwork [] (by decide +kernel) firstDiscover 4 true).1
  have new : NewClient firstDiscover (dhcpsStart 0xC8000000 (dhcpsStop zeroNetwork)) :=
    ⟨by decide +kernel,List.not_mem_nil⟩
  have refused : Exhausted (dhcpsStart 0xC8000000 (dhcpsStop zeroNetwork))
      (parseMsg firstDiscover 4 true (dhcpsStart 0xC8000000 (dhcpsStop zeroNetwork))) :=
    ⟨by decide +kernel,by decide +kernel⟩
  have leased := (started new).2 refused 0 ⟨by decide +kernel,by decide +kernel⟩
  exact List.not_mem_nil leased

end YunbaIot.LeaseSearch
