import YunbaIot.Memory

/-! dhcpserver.c, the server of the soft access point: address range, lease pool, message
parsing and the ageing of leases. An address is kept as it lies in memory, its first octet
lowest; the linked list of leases is a list, a node of it a position. -/
namespace YunbaIot.DhcpServer

def lwipHtonl (n : UInt32) : UInt32 :=
  (n &&& 0xff) <<< 24 ||| (n &&& 0xff00) <<< 8 ||| (n &&& 0xff0000) >>> 8 ||| (n &&& 0xff000000) >>> 24

/- addr_tmp.addr = htonl(a); addr_tmp.addr++; a = htonl(addr_tmp.addr) -/
def increment (addr : UInt32) : UInt32 := lwipHtonl (lwipHtonl addr + 1)

-- the four bytes of an address in memory
def addrBytes (addr : UInt32) : List UInt8 :=
  [addr.toUInt8,(addr >>> 8).toUInt8,(addr >>> 16).toUInt8,(addr >>> 24).toUInt8]

abbrev Mac := List UInt8

structure DhcpsLease where
  enable : Bool
  startIp : UInt32
  endIp : UInt32
  deriving DecidableEq, Repr

structure DhcpsPool where
  ip : UInt32
  mac : Mac
  leaseTimer : UInt32
  deriving DecidableEq, Repr

/- The static variables of the server. -/
structure Dhcps where
  lease : DhcpsLease
  plist : List DhcpsPool
  clientAddress : UInt32
  clientAddressPlus : UInt32
  serverAddress : UInt32
  renew : Bool
  leaseTime : UInt32
  deriving DecidableEq, Repr

/-! The address range -/

def dhcpsMaxLease : UInt32 := 100

def bzeroLease : DhcpsLease := ⟨false,0,0⟩

def configuredLease (ip : UInt32) (lease : DhcpsLease) : DhcpsLease :=
  if lease.enable then
    let softapIp := lwipHtonl ip
    let startIp := lwipHtonl lease.startIp
    let endIp := lwipHtonl lease.endIp
    if startIp ≤ softapIp ∧ softapIp ≤ endIp then { lease with enable := false }
    else
      let softapIp := softapIp >>> 8
      if (startIp >>> 8 ≠ softapIp ∨ endIp >>> 8 ≠ softapIp) ∨ dhcpsMaxLease < endIp - startIp then
        { lease with enable := false }
      else lease
  else lease

def defaultLease (ip : UInt32) : DhcpsLease :=
  let softapIp := lwipHtonl ip &&& 0xFFFFFF00
  let localIp := lwipHtonl ip &&& 0xFF
  let localIp := if 0x80 ≤ localIp then localIp - dhcpsMaxLease else localIp + 1
  { bzeroLease with
    startIp := lwipHtonl (softapIp ||| localIp)
    endIp := lwipHtonl (softapIp ||| (localIp + dhcpsMaxLease - 1)) }

/- A configured range that does not fit the address of the access point gives way to the
default one. -/
def wifiSoftapInitDhcpsLease (ip : UInt32) (lease : DhcpsLease) : DhcpsLease :=
  let lease := configuredLease ip lease
  if lease.enable then lease else defaultLease ip

/- `softap` tells an access point mode from the others, `started` the running server. -/
def wifiSoftapSetDhcpsLease (softap started : Bool) (ip : UInt32) (please : Option DhcpsLease) (lease : DhcpsLease) :
    Bool × DhcpsLease :=
  if !softap then (false, lease)
  else match please with
    | none => (false, lease)
    | some please =>
      if started then (false, lease)
      else if please.enable then
        let softapIp := lwipHtonl ip
        let startIp := lwipHtonl please.startIp
        let endIp := lwipHtonl please.endIp
        if startIp ≤ softapIp ∧ softapIp ≤ endIp then (false, lease)
        else
          let softapIp := softapIp >>> 8
          if startIp >>> 8 ≠ softapIp ∨ endIp >>> 8 ≠ softapIp then (false, lease)
          else if dhcpsMaxLease < endIp - startIp then (false, lease)
          else (true, { bzeroLease with
            startIp := please.startIp, endIp := please.endIp, enable := please.enable })
      else (true, { lease with enable := please.enable })

def dhcpsStart (ip : UInt32) (d : Dhcps) : Dhcps :=
  let lease := wifiSoftapInitDhcpsLease ip d.lease
  { d with serverAddress := ip, lease := lease, clientAddressPlus := lease.startIp }

def dhcpsStop (d : Dhcps) : Dhcps := { d with plist := [] }

/-! The list of leases -/

def nodeInsertToList : List DhcpsPool → DhcpsPool → List DhcpsPool
  | [], pinsert => [pinsert]
  | node :: later, pinsert =>
    if pinsert.ip < node.ip then pinsert :: node :: later else node :: nodeInsertToList later pinsert

/- Where nodeInsertToList puts a node. -/
def insertedAt : List DhcpsPool → UInt32 → Nat
  | [], _ => 0
  | node :: later, ip => if ip < node.ip then 0 else insertedAt later ip + 1

def nodeRemoveFromList (plist : List DhcpsPool) : Option Nat → List DhcpsPool
  | none => plist
  | some pdelete => plist.eraseIdx pdelete

/-! A message, as memory from the first byte of its dhcps_msg on -/

def sizeofDhcpsMsg : Nat := 548
def ciaddrAt : Nat := 12
def chaddrAt : Nat := 28
def optionsAt : Nat := 236

def magicCookie : List UInt8 := [0x63,0x82,0x53,0x63]

def optionMsgType : UInt8 := 53
def optionReqIpaddr : UInt8 := 50
def optionEnd : UInt8 := 255

def dhcpDiscover : UInt8 := 1
def dhcpRequest : UInt8 := 3
def dhcpDecline : UInt8 := 4
def dhcpRelease : UInt8 := 7

def stateOffer : Nat := 1
def stateAck : Nat := 3
def stateNak : Nat := 4
def stateIdle : Nat := 5
def stateRelease : Nat := 6

/- What the loop of parse_options has gathered, and the offsets it has read. -/
structure Options where
  type : UInt8
  state : Nat
  reads : List Nat
  deriving DecidableEq, Repr

def inspect (byte : Nat → UInt8) (client : UInt32) (optptr : Nat) (s : Options) : Options :=
  let s := { s with reads := s.reads ++ [optptr] }
  if byte optptr = optionMsgType then
    { s with type := byte (optptr + 2), reads := s.reads ++ [optptr + 2] }
  else if byte optptr = optionReqIpaddr then
    { s with
      state := if Memory.slice byte (optptr + 2) 4 = addrBytes client then stateAck else stateNak
      reads := s.reads ++ List.range' (optptr + 2) 4 }
  else s

/- Every round moves the cursor by two bytes at least, so the length of the options bounds
the rounds. -/
def optionLoop (byte : Nat → UInt8) (client : UInt32) (last : Int) : Nat → Nat → Options → Options
  | 0, _, s => s
  | fuel+1, optptr, s =>
    if optptr < last then
      let s := inspect byte client optptr s
      if byte optptr = optionEnd then s
      else optionLoop byte client last fuel (optptr + (byte (optptr + 1)).toNat + 2)
        { s with reads := s.reads ++ [optptr + 1] }
    else s

def optionScan (byte : Nat → UInt8) (optptr : Nat) (len : Int) (client : UInt32) : Options :=
  optionLoop byte client (optptr + len) len.toNat optptr ⟨0,stateIdle,[]⟩

def answeredState (renew : Bool) (s : Options) : Nat :=
  if s.type = dhcpDiscover then stateOffer
  else if s.type = dhcpRequest then
    if s.state = stateAck ∨ s.state = stateNak then s.state
    else if renew then stateAck else stateNak
  else if s.type = dhcpDecline then stateIdle
  else if s.type = dhcpRelease then stateRelease
  else s.state

def parseOptions (byte : Nat → UInt8) (optptr : Nat) (len : Int) (client : UInt32) (renew : Bool) : Nat :=
  answeredState renew (optionScan byte optptr len client)

/-! Finding an address -/

structure Search where
  pnode : Option Nat
  clientAddress : UInt32
  clientAddressPlus : UInt32
  firstAddress : UInt32
  flag : Bool
  renew : Bool
  deriving DecidableEq, Repr

/- The body of the loop for a node of another client: the cursor gives way to a leased
address, and the search for the first unused address goes on. -/
def passNode (node : DhcpsPool) (s : Search) : Search :=
  let s := if node.ip = s.clientAddressPlus then
    { s with
      clientAddressPlus := increment s.clientAddressPlus
      clientAddress := increment s.clientAddressPlus }
    else s
  if s.flag then s
  else if s.firstAddress < node.ip then { s with flag := true }
  else { s with firstAddress := increment s.firstAddress }

def searchLoop (mac ciaddr : List UInt8) : Nat → List DhcpsPool → Search → Search
  | _, [], s => s
  | i, node :: later, s =>
    if node.mac = mac then
      { s with
        renew := if addrBytes node.ip = ciaddr then true else s.renew
        clientAddress := node.ip
        pnode := some i }
    else searchLoop mac ciaddr (i + 1) later (passNode node s)

def search (byte : Nat → UInt8) (d : Dhcps) : Search :=
  searchLoop (Memory.slice byte chaddrAt 6) (Memory.slice byte ciaddrAt 4) 0 d.plist
    ⟨none,d.clientAddressPlus,d.clientAddressPlus,d.lease.startIp,false,false⟩

structure Served where
  pnode : Option Nat
  d : Dhcps

/- The lease of a client the search found, for the full time again. -/
def refresh (s : Search) (pnode : Nat) (d : Dhcps) : Served :=
  ⟨some pnode,{ d with
    clientAddress := s.clientAddress
    clientAddressPlus := s.clientAddressPlus
    renew := s.renew
    plist := d.plist.modify pnode fun pool => { pool with leaseTimer := d.leaseTime } }⟩

/- A lease for a client the search did not find. -/
def allocate (s : Search) (mac : Mac) (d : Dhcps) : Served :=
  let client := if d.lease.endIp < s.clientAddressPlus then s.firstAddress else s.clientAddress
  let d := { d with clientAddress := client, clientAddressPlus := s.clientAddressPlus, renew := s.renew }
  if d.lease.endIp < client then ⟨none,{ d with clientAddressPlus := d.lease.startIp }⟩
  else
    ⟨some (insertedAt d.plist client),{ d with
      plist := nodeInsertToList d.plist ⟨client,mac,d.leaseTime⟩
      clientAddressPlus := if client = d.lease.endIp then d.lease.startIp else increment client }⟩

def serve (byte : Nat → UInt8) (d : Dhcps) : Served :=
  let s := search byte d
  match s.pnode with
  | some pnode => refresh s pnode d
  | none => allocate s (Memory.slice byte chaddrAt 6) d

def remove (served : Served) : Dhcps :=
  { served.d with plist := nodeRemoveFromList served.d.plist served.pnode }

/- `station` is what wifi_softap_set_station_info returns. -/
def parseMsg (byte : Nat → UInt8) (len : Int) (station : Bool) (d : Dhcps) : Nat × Dhcps :=
  if Memory.slice byte optionsAt 4 = magicCookie then
    let served := serve byte d
    let d := served.d
    if d.lease.endIp < d.clientAddress ∨ d.clientAddress = 0 then (stateNak, remove served)
    else
      let ret := parseOptions byte (optionsAt + 4) len d.clientAddress d.renew
      let d := if ret = stateRelease then { remove served with clientAddress := 0 } else d
      (if station then ret else 0, d)
  else (0, d)

/-! Message intake -/

/- A received chain of segments. -/
structure Pbuf where
  payload : List UInt8
  next : List (List UInt8)
  total : (payload :: next).flatten.length < 65536

def Pbuf.totLen (p : Pbuf) : Nat := (p.payload :: p.next).flatten.length

structure Copy where
  msg : Memory
  cnt : Nat

/- The loop over one segment; dhcps_msg_cnt is a u16_t. -/
def copyLoop : List UInt8 → Copy → Copy
  | [], c => c
  | b :: data, c => copyLoop data ⟨c.msg.store c.cnt [b],(c.cnt + 1) % 65536⟩

-- a zeroed dhcps_msg, with what lies behind it on the heap
def zalloc (heap : Nat → UInt8) : Memory := ⟨fun i => if i < sizeofDhcpsMsg then 0 else heap i,[]⟩

/- Two segments of the chain at most are copied. -/
def copied (heap : Nat → UInt8) (p : Pbuf) : Memory :=
  let first := copyLoop p.payload ⟨zalloc heap,0⟩
  match p.next with
  | [] => first.msg
  | second :: _ => (copyLoop second first).msg

def s16 (n : Int) : Int := n.bmod 65536

/- tlen is a s16_t, parse_msg takes tlen - 240 as a u16_t and parse_options as a s16_t. -/
def optionLen (p : Pbuf) : Int := s16 ((s16 p.totLen - 240) % 65536)

/- The state tells which answer is sent; `allocated` is whether zalloc has room. -/
def handleDhcp (heap : Nat → UInt8) (allocated station : Bool) (p : Option Pbuf) (d : Dhcps) : Nat × Dhcps :=
  match p with
  | none => (0, d)
  | some p => if allocated then parseMsg (copied heap p).byte (optionLen p) station d else (0, d)

/-! The ageing of leases -/

def maxStationNum : UInt8 := 8

def age (pool : DhcpsPool) : DhcpsPool := { pool with leaseTimer := pool.leaseTimer - 1 }

def ageLoop : List DhcpsPool → List DhcpsPool
  | [] => []
  | pool :: later =>
    if (age pool).leaseTimer = 0 then ageLoop later else age pool :: ageLoop later

/- The position of the first lease with the least time left; `p` is the next to look at,
`least` the time of `minp`. -/
def oldestLoop : Nat → List DhcpsPool → Nat → UInt32 → Nat
  | _, [], minp, _ => minp
  | p, pool :: later, minp, least =>
    if pool.leaseTimer < least then oldestLoop (p + 1) later p pool.leaseTimer
    else oldestLoop (p + 1) later minp least

/- The head of the list is never looked at. -/
def killOldestDhcpsPool : List DhcpsPool → List DhcpsPool
  | head :: second :: later => (head :: second :: later).eraseIdx (oldestLoop 1 (second :: later) 1 second.leaseTimer)
  | plist => plist

def dhcpsCoarseTmr (d : Dhcps) : Dhcps :=
  let plist := ageLoop d.plist
  { d with plist := if maxStationNum ≤ UInt8.ofNat plist.length then killOldestDhcpsPool plist else plist }

/-! Runs -/

/- What reaches a running server: a message, whatever its bytes, or a tick of the timer. -/
inductive Input where
  | message (byte : Nat → UInt8) (len : Int) (station : Bool)
  | tick

def step (d : Dhcps) : Input → Dhcps
  | .message byte len station => (parseMsg byte len station d).2
  | .tick => dhcpsCoarseTmr d

/- What handle_dhcp does to the server is such a step, or nothing. -/
theorem handleDhcpStep (heap : Nat → UInt8) (allocated station : Bool) (p : Option Pbuf) (d : Dhcps) :
    (handleDhcp heap allocated station p d).2 = d ∨
    ∃ byte len, (handleDhcp heap allocated station p d).2 = step d (.message byte len station) := by
  unfold handleDhcp
  split
  · exact Or.inl rfl
  · split
    · exact Or.inr ⟨_,_,rfl⟩
    · exact Or.inl rfl

end YunbaIot.DhcpServer
