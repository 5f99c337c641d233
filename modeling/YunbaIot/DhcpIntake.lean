import YunbaIot.DhcpServer

/-! What handle_dhcp stores and parse_options reads of a received chain, and the chains for
which both stay inside the message. -/
namespace YunbaIot.DhcpIntake
open DhcpServer

def copiedBytes (p : Pbuf) : List UInt8 := p.payload ++ p.next.headD []

/- The offsets parse_options reads when parse_msg calls it. -/
def inspected (byte : Nat → UInt8) (len : Int) (d : Dhcps) : List Nat :=
  let served := (serve byte d).d
  if Memory.slice byte optionsAt 4 = magicCookie ∧ ¬ (served.lease.endIp < served.clientAddress ∨ served.clientAddress = 0) then
    (optionScan byte (optionsAt + 4) len served.clientAddress).reads
  else []

/- All stores inside the dhcps_msg, all reads inside what was copied and before its end. -/
structure Bounded (heap : Nat → UInt8) (p : Pbuf) (d : Dhcps) : Prop where
  stores : ∀ s ∈ (copied heap p).stores, s.1 + s.2.length ≤ sizeofDhcpsMsg
  reads : ∀ r ∈ inspected (copied heap p).byte (optionLen p) d,
    r < sizeofDhcpsMsg ∧ r < (copiedBytes p).length ∧ r < p.totLen

/- Options of which `n` bytes are walked and the list is there: each has its length byte and
the data that is looked at, and the walk ends in the list, with END or at its last byte. -/
inductive Fits : Int → List UInt8 → Prop
  | past {n bs} (walked : n ≤ 0) : Fits n bs
  | ended {n later} : Fits n (optionEnd :: later)
  | option {n code len later} (more : code ≠ optionEnd) (type : code = optionMsgType → 1 ≤ later.length)
      (requested : code = optionReqIpaddr → 4 ≤ later.length)
      (rest : Fits (n - (len.toNat + 2 : Nat)) (later.drop len.toNat)) : Fits n (code :: len :: later)

structure Digestible (p : Pbuf) : Prop where
  size : (copiedBytes p).length ≤ sizeofDhcpsMsg
  options : ((copiedBytes p).drop optionsAt).take 4 = magicCookie →
    Fits (optionLen p) ((copiedBytes p).drop (optionsAt + 4))

/-! The copy -/

theorem copyLoopAppend (first second : List UInt8) (c : Copy) :
    copyLoop (first ++ second) c = copyLoop second (copyLoop first c) := by
  induction first generalizing c with
  | nil => rfl
  | cons b first ih => exact ih _

theorem copiedLoop (heap : Nat → UInt8) (p : Pbuf) : copied heap p = (copyLoop (copiedBytes p) ⟨zalloc heap,0⟩).msg := by
  unfold copied copiedBytes
  rw [copyLoopAppend]
  cases p.next <;> rfl

theorem copiedBound (p : Pbuf) : (copiedBytes p).length ≤ p.totLen ∧ p.totLen < 65536 := by
  refine ⟨?_,p.total⟩
  unfold copiedBytes Pbuf.totLen
  cases p.next with
  | nil => simp
  | cons second later => simp

theorem copyLoopBytes (data : List UInt8) (c : Copy) (fits : c.cnt + data.length < 65536) :
    (copyLoop data c).msg.byte = (c.msg.store c.cnt data).byte := by
  induction data generalizing c with
  | nil => exact (Memory.storeNil _ _).symm
  | cons b data ih =>
    rw [List.length_cons] at fits
    have next : (c.cnt + 1) % 65536 = c.cnt + 1 := Nat.mod_eq_of_lt (by omega)
    rw [copyLoop, next, ih _ (by dsimp only; omega)]
    exact Memory.storeBehind rfl rfl data

theorem copyLoopStores (data : List UInt8) (c : Copy) (size : Nat) (fits : c.cnt + data.length < 65536) :
    (∀ s ∈ (copyLoop data c).msg.stores, s.1 + s.2.length ≤ size) ↔
      (∀ s ∈ c.msg.stores, s.1 + s.2.length ≤ size) ∧ (data ≠ [] → c.cnt + data.length ≤ size) := by
  induction data generalizing c with
  | nil => simp [copyLoop]
  | cons b data ih =>
    rw [List.length_cons] at fits
    have next : (c.cnt + 1) % 65536 = c.cnt + 1 := Nat.mod_eq_of_lt (by omega)
    have stored : (c.msg.store c.cnt [b]).stores = c.msg.stores ++ [(c.cnt,[b])] := rfl
    rw [copyLoop, next, ih _ (by dsimp only; omega), stored, List.forall_mem_append, List.forall_mem_singleton]
    dsimp only
    rw [List.length_singleton, List.length_cons]
    cases data with
    | nil => simp
    | cons b' data =>
      simp only [List.length_cons, ne_eq, reduceCtorEq, not_false_eq_true, forall_const]
      constructor
      · rintro ⟨⟨old,_⟩,rest⟩
        exact ⟨old,by omega⟩
      · rintro ⟨old,rest⟩
        exact ⟨⟨old,by omega⟩,by omega⟩

theorem storesInside (heap : Nat → UInt8) (p : Pbuf) :
    (∀ s ∈ (copied heap p).stores, s.1 + s.2.length ≤ sizeofDhcpsMsg) ↔ (copiedBytes p).length ≤ sizeofDhcpsMsg := by
  obtain ⟨part,total⟩ := copiedBound p
  rw [copiedLoop, copyLoopStores _ _ _ (by dsimp only; omega)]
  cases copiedBytes p with
  | nil => simp [zalloc]
  | cons b data => simp [zalloc]

/- The copied bytes, and zeros behind them as far as the message goes. -/
theorem copiedByte (heap : Nat → UInt8) (p : Pbuf) {i : Nat} (inside : i < sizeofDhcpsMsg) :
    (copied heap p).byte i = (copiedBytes p).getD i 0 := by
  obtain ⟨part,total⟩ := copiedBound p
  rw [copiedLoop, copyLoopBytes _ _ (by dsimp only; omega)]
  simp [Memory.store, zalloc, inside]

/-! The walk over the options -/

theorem fitsEmpty {n : Int} (more : 0 < n) : ¬ Fits n [] := by
  intro fits
  cases fits with
  | past walked => omega

theorem fitsHalf {n : Int} {code : UInt8} (more : 0 < n) : Fits n [code] ↔ code = optionEnd := by
  constructor
  · intro fits
    cases fits with
    | past walked => omega
    | ended => rfl
  · rintro rfl
    exact .ended

theorem fitsOption {n : Int} {code len : UInt8} {later : List UInt8} (more : 0 < n) (go : code ≠ optionEnd) :
    Fits n (code :: len :: later) ↔ (code = optionMsgType → 1 ≤ later.length) ∧
      (code = optionReqIpaddr → 4 ≤ later.length) ∧ Fits (n - (len.toNat + 2 : Nat)) (later.drop len.toNat) := by
  constructor
  · intro fits
    cases fits with
    | past walked => omega
    | ended => exact absurd rfl go
    | option _ type requested rest => exact ⟨type,requested,rest⟩
  · rintro ⟨type,requested,rest⟩
    exact .option go type requested rest

theorem inspectReads (byte : Nat → UInt8) (client : UInt32) (optptr size : Nat) (s : Options) :
    (∀ r ∈ (inspect byte client optptr s).reads, r < size) ↔
      (∀ r ∈ s.reads, r < size) ∧ optptr < size ∧ (byte optptr = optionMsgType → optptr + 2 < size) ∧
        (byte optptr = optionReqIpaddr → optptr + 5 < size) := by
  have apart : optionReqIpaddr ≠ optionMsgType := by decide
  unfold inspect
  dsimp only
  split
  · rename_i type
    simp only [type, apart.symm, List.append_assoc, List.forall_mem_append, List.forall_mem_singleton, forall_const,
      false_implies, and_true]
  · split
    · rename_i other requested
      simp only [requested, apart, List.append_assoc, List.forall_mem_append, List.forall_mem_singleton,
        List.mem_range'_1, forall_const, false_implies, true_and]
      constructor
      · rintro ⟨old,here,rest⟩
        exact ⟨old,here,rest (optptr + 5) (by omega)⟩
      · rintro ⟨old,here,rest⟩
        exact ⟨old,here,fun r inside => by omega⟩
    · rename_i type requested
      simp only [type, requested, List.forall_mem_append, List.forall_mem_singleton, false_implies, and_true]

theorem dropHead {data : List UInt8} {k : Nat} {b : UInt8} {rest : List UInt8} (split : data.drop k = b :: rest) :
    ∃ inside : k < data.length, data[k] = b ∧ data.drop (k + 1) = rest := by
  have inside : k < data.length := by
    by_contra beyond
    rw [List.drop_eq_nil_of_le (Nat.le_of_not_lt beyond)] at split
    cases split
  rw [List.drop_eq_getElem_cons inside] at split
  injection split with head tail
  exact ⟨inside,head,tail⟩

section Walk
variable {byte : Nat → UInt8} {data : List UInt8}

/- What fitting means at a cursor, in terms of the memory the data lies in. -/
theorem fitsAt (agree : ∀ i (inside : i < data.length), byte i = data[i]) {n : Int} (more : 0 < n) (k : Nat) :
    Fits n (data.drop k) ↔
      (k < data.length ∧ (byte k = optionMsgType → k + 2 < data.length) ∧
        (byte k = optionReqIpaddr → k + 5 < data.length)) ∧
      (byte k ≠ optionEnd → k + 1 < data.length ∧
        Fits (n - ((byte (k + 1)).toNat + 2 : Nat)) (data.drop (k + (byte (k + 1)).toNat + 2))) := by
  cases rest : data.drop k with
  | nil =>
    have none := List.drop_eq_nil_iff.mp rest
    exact ⟨fun fits => absurd fits (fitsEmpty more),fun h => absurd h.1.1 (Nat.not_lt_of_le none)⟩
  | cons code behind =>
    obtain ⟨inside,first,tail⟩ := dropHead rest
    have head : byte k = code := (agree k inside).trans first
    rw [head]
    cases behind with
    | nil =>
      have whole := List.drop_eq_nil_iff.mp tail
      rw [fitsHalf more]
      constructor
      · rintro rfl
        exact ⟨⟨inside,nofun,nofun⟩,fun go => absurd rfl go⟩
      · rintro ⟨_,go⟩
        by_contra apart
        exact Nat.not_lt_of_le whole (go apart).1
    | cons len later =>
      obtain ⟨inside',second,tail'⟩ := dropHead tail
      have length : byte (k + 1) = len := (agree (k + 1) inside').trans second
      have size : later.length = data.length - (k + 1 + 1) := by rw [← tail', List.length_drop]
      have skipped : data.drop (k + len.toNat + 2) = later.drop len.toNat := by
        rw [← tail', List.drop_drop]
        congr 1
        omega
      rw [length, skipped]
      by_cases ended : code = optionEnd
      · subst ended
        exact ⟨fun _ => ⟨⟨inside,nofun,nofun⟩,fun go => absurd rfl go⟩,fun _ => .ended⟩
      · rw [fitsOption more ended]
        have two : 1 ≤ later.length ↔ k + 2 < data.length := by omega
        have five : 4 ≤ later.length ↔ k + 5 < data.length := by omega
        rw [two, five]
        constructor
        · rintro ⟨type,requested,fits⟩
          exact ⟨⟨inside,type,requested⟩,fun _ => ⟨inside',fits⟩⟩
        · rintro ⟨⟨_,type,requested⟩,go⟩
          exact ⟨type,requested,(go ended).2⟩

/- The loop reads inside the data from its cursor on exactly where the options fit. -/
theorem loopInside (agree : ∀ i (inside : i < data.length), byte i = data[i])
    (client : UInt32) (last : Int) (fuel optptr : Nat) (s : Options) (enough : last - optptr ≤ fuel) :
    (∀ r ∈ (optionLoop byte client last fuel optptr s).reads, r < data.length) ↔
      (∀ r ∈ s.reads, r < data.length) ∧ Fits (last - optptr) (data.drop optptr) := by
  induction fuel generalizing optptr s with
  | zero => exact ⟨fun old => ⟨old,.past (by omega)⟩,fun h => h.1⟩
  | succ fuel ih =>
    unfold optionLoop
    split
    · have positive : 0 < last - optptr := by omega
      have target : last - (optptr + (byte (optptr + 1)).toNat + 2 : Nat) =
          last - optptr - ((byte (optptr + 1)).toNat + 2 : Nat) := by omega
      have here := inspectReads byte client optptr data.length s
      rw [fitsAt agree positive, ← and_assoc, ← here]
      dsimp only
      split
      · rename_i passed
        exact ⟨fun reads => ⟨reads,fun go => absurd passed go⟩,fun h => h.1⟩
      · rename_i go
        rw [ih _ _ (by omega), target, List.forall_mem_append, List.forall_mem_singleton]
        constructor
        · rintro ⟨⟨reads,inside⟩,fits⟩
          exact ⟨reads,fun _ => ⟨inside,fits⟩⟩
        · rintro ⟨reads,rest⟩
          exact ⟨⟨reads,(rest go).1⟩,(rest go).2⟩
    · exact ⟨fun old => ⟨old,.past (by omega)⟩,fun h => h.1⟩

end Walk

/-! The intake -/

/- Four bytes at a place, of which none is zero, are there. -/
theorem fourBytes (data : List UInt8) (k : Nat) (a b c : UInt8) {d : UInt8} (nonzero : d ≠ 0) :
    [data.getD k 0,data.getD (k + 1) 0,data.getD (k + 2) 0,data.getD (k + 3) 0] = [a,b,c,d] ↔
      (data.drop k).take 4 = [a,b,c,d] := by
  by_cases there : k + 3 < data.length
  · have byte (i : Nat) (inside : i < data.length) : data.drop i = data.getD i 0 :: data.drop (i + 1) := by
      rw [List.getD_eq_getElem?_getD, List.getElem?_eq_getElem inside]
      exact List.drop_eq_getElem_cons inside
    rw [byte k (by omega), byte (k + 1) (by omega), byte (k + 2) (by omega), byte (k + 3) there]
    rfl
  · constructor
    · intro same
      have last : data.getD (k + 3) 0 = d := by
        injections
      rw [List.getD_eq_getElem?_getD, List.getElem?_eq_none (Nat.le_of_not_lt there)] at last
      exact absurd last.symm nonzero
    · intro same
      have length := congrArg List.length same
      simp at length
      omega

theorem cookieCopied (heap : Nat → UInt8) (p : Pbuf) :
    Memory.slice (copied heap p).byte optionsAt 4 = magicCookie ↔
      ((copiedBytes p).drop optionsAt).take 4 = magicCookie := by
  have inside (i : Nat) (below : i < 240) : i < sizeofDhcpsMsg := Nat.lt_trans below (by decide)
  have bytes : Memory.slice (copied heap p).byte optionsAt 4 =
      [(copiedBytes p).getD 236 0,(copiedBytes p).getD 237 0,(copiedBytes p).getD 238 0,(copiedBytes p).getD 239 0] := by
    rw [← copiedByte heap p (inside 236 (by decide)), ← copiedByte heap p (inside 237 (by decide)),
      ← copiedByte heap p (inside 238 (by decide)), ← copiedByte heap p (inside 239 (by decide))]
    rfl
  rw [bytes]
  exact fourBytes (copiedBytes p) 236 0x63 0x82 0x53 (by decide)

theorem inspectedInside (heap : Nat → UInt8) (p : Pbuf) (client : UInt32)
    (size : (copiedBytes p).length ≤ sizeofDhcpsMsg) :
    (∀ r ∈ (optionScan (copied heap p).byte (optionsAt + 4) (optionLen p) client).reads, r < (copiedBytes p).length) ↔
      Fits (optionLen p) ((copiedBytes p).drop (optionsAt + 4)) := by
  have agree : ∀ i (inside : i < (copiedBytes p).length), (copied heap p).byte i = (copiedBytes p)[i] := by
    intro i inside
    rw [copiedByte heap p (Nat.lt_of_lt_of_le inside size), List.getD_eq_getElem?_getD, List.getElem?_eq_getElem inside]
    rfl
  have walk := loopInside agree client ((optionsAt + 4 : Nat) + optionLen p) (optionLen p).toNat (optionsAt + 4)
    ⟨0,stateIdle,[]⟩ (by omega)
  have rest : ((optionsAt + 4 : Nat) + optionLen p) - (optionsAt + 4 : Nat) = optionLen p := by omega
  rw [rest] at walk
  exact walk.trans (and_iff_right nofun)

-- the server of 192.168.4.1 before its first lease
def fresh : Dhcps := dhcpsStart 0x0104A8C0 ⟨bzeroLease,[],0,0,0,false,120⟩

theorem freshServes (byte : Nat → UInt8) :
    ¬ ((serve byte fresh).d.lease.endIp < (serve byte fresh).d.clientAddress ∨ (serve byte fresh).d.clientAddress = 0) := by
  have lease : (serve byte fresh).d.lease = fresh.lease := rfl
  have client : (serve byte fresh).d.clientAddress = fresh.lease.startIp := rfl
  rw [lease, client]
  decide

/-- A received chain is digested inside the message by every state of the server if and only
if what is copied of it fits the message and its options fit what is copied. -/
theorem intakeExact (heap : Nat → UInt8) (p : Pbuf) : (∀ d, Bounded heap p d) ↔ Digestible p := by
  constructor
  · intro bounded
    have size := (storesInside heap p).mp (bounded fresh).stores
    refine ⟨size,fun cookie => (inspectedInside heap p (serve (copied heap p).byte fresh).d.clientAddress size).mp ?_⟩
    have reads := (bounded fresh).reads
    unfold inspected at reads
    dsimp only at reads
    rw [if_pos ⟨(cookieCopied heap p).mpr cookie,freshServes (copied heap p).byte⟩] at reads
    exact fun r read => (reads r read).2.1
  · intro digestible
    refine fun d => ⟨(storesInside heap p).mpr digestible.size,?_⟩
    have part := (copiedBound p).1
    unfold inspected
    dsimp only
    split
    · rename_i reached
      have fits := digestible.options ((cookieCopied heap p).mp reached.1)
      have inside := (inspectedInside heap p (serve (copied heap p).byte d).d.clientAddress digestible.size).mpr fits
      intro r read
      have copy := inside r read
      exact ⟨Nat.lt_of_lt_of_le copy digestible.size,copy,Nat.lt_of_lt_of_le copy part⟩
    · exact nofun

/-! Two chains of one segment -/

def oversize : Pbuf := ⟨List.replicate 549 0,[],by decide +kernel⟩

-- the message type option without its length byte
def truncated : Pbuf := ⟨List.replicate 236 0 ++ magicCookie ++ [optionMsgType],[],by decide +kernel⟩

/- The last byte of the one is stored behind the dhcps_msg, of the other two bytes behind its
end are read. -/
theorem chainsUnbounded : (¬ ∀ d, Bounded (fun _ => 0) oversize d) ∧ ¬ ∀ d, Bounded (fun _ => 0) truncated d := by
  constructor
  · intro bounded
    have size := (storesInside (fun _ => 0) oversize).mp (bounded fresh).stores
    exact absurd size (by decide +kernel)
  · intro bounded
    have read : 242 ∈ inspected (copied (fun _ => 0) truncated).byte (optionLen truncated) fresh := by decide +kernel
    have copy := ((bounded fresh).reads 242 read).2.1
    exact absurd copy (by decide +kernel)

end YunbaIot.DhcpIntake
