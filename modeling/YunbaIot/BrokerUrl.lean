import YunbaIot.CJson
import YunbaIot.MqttClient

/-! get_ip_pair of mqtt_client.c, beside what a broker url is. addr is the block of 28 bytes
that yunba_mqtt_client_task clears, into which a host of any length is copied. -/
namespace YunbaIot.BrokerUrl
open Block MqttPacket
open CJson (isDigit)

def scheme : List UInt8 := [116,99,112,58,47,47]
def colon : UInt8 := 58

/-! atoi -/

def isSpace (b : UInt8) : Bool := b = 32 ∨ 9 ≤ b ∧ b ≤ 13

def number (digits : List UInt8) : Nat := digits.foldl (fun n d => 10 * n + (d.toNat - 48)) 0

def magnitude (s : List UInt8) : Nat := number (s.takeWhile isDigit)

-- strtol keeps to the ends of the range
def atoi (s : List UInt8) : Int :=
  match s.dropWhile isSpace with
  | 45 :: s => max (-2^31) (-magnitude s)
  | 43 :: s => min (2^31 - 1) (magnitude s)
  | s => min (2^31 - 1) (magnitude s)

/-! get_ip_pair -/

structure IpPair where
  rc : Int
  addr : List UInt8
  port : UInt16
  deriving DecidableEq, Repr

def addrSize : Nat := 28

def getIpPair (url : CString) (addr : List UInt8) (port : UInt16) : Defined IpPair :=
  match strstr scheme url.bytes with
  | some found =>
    let p := found.drop 6
    match strstr [colon] p with
    | some q =>
      let len := p.length - q.length
      if 0 < len then
        (fun addr => ⟨MqttClient.success,addr,UInt16.ofInt (atoi (q.drop 1))⟩) <$> memcpy addr 0 (p.take len)
      else .ok ⟨MqttClient.failure,addr,port⟩
    | none => .ok ⟨MqttClient.failure,addr,port⟩
  | none => .ok ⟨MqttClient.failure,addr,port⟩

/-! Broker urls -/

/- What stands behind the first tcp:// of a url. -/
def After (url rest : List UInt8) : Prop :=
  ∃ before, url = before ++ (scheme ++ rest) ∧ ∀ other, other ++ scheme <+: url → before.length ≤ other.length

/- A url with a host and a port number that addr and port can hold. -/
structure Good (url host : List UInt8) (port : Nat) : Prop where
  place : ∃ digits, After url (host ++ colon :: digits) ∧ digits ≠ [] ∧ (∀ d ∈ digits, isDigit d = true) ∧
    number digits = port
  host : host ≠ [] ∧ colon ∉ host ∧ host.length ≤ 27
  port : port ≤ 65535

def zeroed : List UInt8 := List.replicate addrSize 0

structure Parsed (url : List UInt8) (port : UInt16) (result : Defined IpPair) : Prop where
  good : ∀ host number, Good url host number →
    result = .ok ⟨MqttClient.success,host ++ List.replicate (addrSize - host.length) 0,UInt16.ofNat number⟩
  other : (∀ host number, ¬Good url host number) → result = .ok ⟨MqttClient.failure,zeroed,port⟩

/- A url without a scheme, or without a colon behind it, or with nothing between the two. -/
def Declined (url : List UInt8) : Prop :=
  (∀ rest, ¬After url rest) ∨ ∃ rest, After url rest ∧ (colon ∉ rest ∨ rest.head? = some colon)

/-! The scheme and the host -/

theorem afterFound {url rest : List UInt8} (after : After url rest) : strstr scheme url = some (scheme ++ rest) := by
  obtain ⟨before,rfl,first⟩ := after
  exact strstrFirst first

theorem foundAfter {url found : List UInt8} (there : strstr scheme url = some found) : After url (found.drop 6) := by
  obtain ⟨before,behind,rfl,same,first⟩ := strstrSome there
  exact ⟨before,same,first⟩

theorem afterUnique {url rest rest' : List UInt8} (after : After url rest) (after' : After url rest') : rest = rest' :=
  List.append_cancel_left (Option.some.inj ((afterFound after).symm.trans (afterFound after')))

/- The colon ends the host. -/
theorem hostUnique {host host' behind behind' : List UInt8} (free : colon ∉ host) (free' : colon ∉ host')
    (same : host ++ colon :: behind = host' ++ colon :: behind') : host = host' ∧ behind = behind' := by
  induction host generalizing host' with
  | nil =>
    cases host' with
    | nil => exact ⟨rfl,(List.cons.inj same).2⟩
    | cons c host' => exact absurd (List.mem_cons.mpr (.inl (List.cons.inj same).1)) free'
  | cons c host ih =>
    simp only [List.mem_cons, not_or] at free
    cases host' with
    | nil => exact absurd (List.cons.inj same).1.symm free.1
    | cons c' host' =>
      simp only [List.mem_cons, not_or] at free'
      obtain ⟨rfl,later⟩ := List.cons.inj same
      obtain ⟨rfl,rfl⟩ := ih free.2 free'.2 later
      exact ⟨rfl,rfl⟩

theorem colonFound {host behind : List UInt8} (free : colon ∉ host) :
    strstr [colon] (host ++ colon :: behind) = some (colon :: behind) := by
  have other : ∀ c ∈ host, decide (c ≠ colon) = true :=
    fun c inside => decide_eq_true fun same => free (by rw [← same]; exact inside)
  rw [strstrByte, if_pos (by simp), List.dropWhile_append_of_pos other]
  simp

theorem ipPairNone {url : CString} (absent : ∀ rest, ¬After url.bytes rest) (addr : List UInt8) (port : UInt16) :
    getIpPair url addr port = .ok ⟨MqttClient.failure,addr,port⟩ := by
  have none : strstr scheme url.bytes = none := by
    cases there : strstr scheme url.bytes with
    | none => rfl
    | some found => exact absurd (foundAfter there) (absent _)
  unfold getIpPair
  rw [none]

theorem ipPairOpen {url : CString} {rest : List UInt8} (after : After url.bytes rest) (free : colon ∉ rest)
    (addr : List UInt8) (port : UInt16) : getIpPair url addr port = .ok ⟨MqttClient.failure,addr,port⟩ := by
  have none : strstr [colon] rest = none := by rw [strstrByte, if_neg free]
  unfold getIpPair
  rw [afterFound after]
  dsimp only
  rw [show (scheme ++ rest).drop 6 = rest from rfl, none]

/- With a colon the host is copied, whatever its length, and the rest is read as a number. -/
theorem ipPairHost {url : CString} {host behind : List UInt8} (after : After url.bytes (host ++ colon :: behind))
    (free : colon ∉ host) (addr : List UInt8) (port : UInt16) :
    getIpPair url addr port =
      if host = [] then .ok ⟨MqttClient.failure,addr,port⟩
      else (fun addr => ⟨MqttClient.success,addr,UInt16.ofInt (atoi behind)⟩) <$> memcpy addr 0 host := by
  have length : (host ++ colon :: behind).length - (colon :: behind).length = host.length := by simp
  have dropped : (scheme ++ (host ++ colon :: behind)).drop 6 = host ++ colon :: behind := rfl
  unfold getIpPair
  rw [afterFound after]
  dsimp only
  rw [dropped, colonFound free]
  dsimp only
  rw [length, List.take_left, List.drop_one, List.tail_cons]
  by_cases empty : host = []
  · rw [if_pos empty, if_neg (by simp [empty])]
  · rw [if_neg empty, if_pos (List.length_pos_iff.mpr empty)]

/-! Numbers -/

theorem digitPlain {d : UInt8} (digit : isDigit d = true) : isSpace d = false ∧ d ≠ 45 ∧ d ≠ 43 := by
  unfold isDigit at digit
  unfold isSpace
  have bounds : 48 ≤ d ∧ d ≤ 57 := of_decide_eq_true digit
  refine ⟨decide_eq_false ?_,?_,?_⟩
  · rintro (rfl | ⟨_,small⟩)
    · exact absurd bounds.1 (by decide)
    · exact absurd (UInt8.le_trans bounds.1 small) (by decide)
  · rintro rfl
    exact absurd bounds.1 (by decide)
  · rintro rfl
    exact absurd bounds.1 (by decide)

theorem atoiDigits {digits : List UInt8} (some : digits ≠ []) (all : ∀ d ∈ digits, isDigit d = true)
    (small : number digits ≤ 65535) : atoi digits = number digits := by
  cases digits with
  | nil => exact absurd rfl some
  | cons d digits =>
    obtain ⟨solid,minus,plus⟩ := digitPlain (all d List.mem_cons_self)
    have kept : (d :: digits).dropWhile isSpace = d :: digits := by
      rw [List.dropWhile_cons, solid, if_neg Bool.false_ne_true]
    have whole : magnitude (d :: digits) = number (d :: digits) := by
      unfold magnitude
      rw [List.takeWhile_eq_self_iff.mpr all]
    unfold atoi
    rw [kept]
    split
    · rename_i same
      exact absurd (List.cons.inj same).1 minus
    · rename_i same
      exact absurd (List.cons.inj same).1 plus
    · rw [whole]
      omega

theorem portOf {n : Nat} (small : n ≤ 65535) : UInt16.ofInt n = UInt16.ofNat n := by
  have kept : ((n : Int) % 2^16).toNat = n := by omega
  unfold UInt16.ofInt
  rw [kept]

/-! What get_ip_pair makes of a url -/

theorem goodParsed {url : CString} {host : List UInt8} {digits : Nat} (good : Good url.bytes host digits) (port : UInt16) :
    getIpPair url zeroed port =
      .ok ⟨MqttClient.success,host ++ List.replicate (addrSize - host.length) 0,UInt16.ofNat digits⟩ := by
  obtain ⟨⟨ds,after,some,all,rfl⟩,⟨nonempty,free,short⟩,small⟩ := good
  rw [ipPairHost after free, if_neg nonempty, zeroed, zeroedCopy (by unfold addrSize; omega), atoiDigits some all small,
    portOf small]
  rfl

theorem goodUnique {url host host' : List UInt8} {n n' : Nat} (good : Good url host n) (good' : Good url host' n') :
    host = host' ∧ n = n' := by
  obtain ⟨⟨ds,after,_,_,rfl⟩,⟨_,free,_⟩,_⟩ := good
  obtain ⟨⟨ds',after',_,_,rfl⟩,⟨_,free',_⟩,_⟩ := good'
  obtain ⟨rfl,rfl⟩ := hostUnique free free' (afterUnique after after')
  exact ⟨rfl,rfl⟩

theorem declinedNotGood {url : List UInt8} (declined : Declined url) (host : List UInt8) (n : Nat) : ¬Good url host n := by
  rintro ⟨⟨ds,after,_⟩,⟨nonempty,free,_⟩,_⟩
  rcases declined with absent | ⟨rest,after',open' | direct⟩
  · exact absent _ after
  · rw [← afterUnique after after'] at open'
    exact open' (by simp)
  · rw [← afterUnique after after'] at direct
    cases host with
    | nil => exact nonempty rfl
    | cons c host => exact free (List.mem_cons.mpr (.inl (Option.some.inj direct).symm))

/- It fails exactly for the urls it declines. -/
theorem failureDeclined (url : CString) (addr : List UInt8) (port : UInt16) :
    getIpPair url addr port = .ok ⟨MqttClient.failure,addr,port⟩ ↔ Declined url.bytes := by
  by_cases absent : ∀ rest, ¬After url.bytes rest
  · exact ⟨fun _ => .inl absent,fun _ => ipPairNone absent addr port⟩
  · obtain ⟨rest,present⟩ := not_forall.mp absent
    have after := not_not.mp present
    by_cases inside : colon ∈ rest
    · obtain ⟨host,behind,rfl,free⟩ := List.eq_append_cons_of_mem inside
      rw [ipPairHost after free]
      by_cases empty : host = []
      · rw [if_pos empty]
        exact ⟨fun _ => .inr ⟨_,after,.inr (by rw [empty]; rfl)⟩,fun _ => rfl⟩
      · rw [if_neg empty]
        constructor
        · intro failed
          obtain ⟨_,_,same⟩ := mapOk.mp failed
          have returned : MqttClient.success = MqttClient.failure := congrArg IpPair.rc same
          exact absurd returned (by decide)
        · rintro (none | ⟨rest',after',open' | direct⟩)
          · exact absurd after (none _)
          · rw [← afterUnique after after'] at open'
            exact absurd inside open'
          · rw [← afterUnique after after'] at direct
            cases host with
            | nil => exact absurd rfl empty
            | cons c host => exact absurd (List.mem_cons.mpr (.inl (Option.some.inj direct).symm)) free
    · exact ⟨fun _ => .inr ⟨rest,after,.inl inside⟩,fun _ => ipPairOpen after inside addr port⟩

theorem brokerUrl (url : CString) (port : UInt16) :
    Parsed url.bytes port (getIpPair url zeroed port) ↔ (∃ host number, Good url.bytes host number) ∨ Declined url.bytes := by
  constructor
  · intro parsed
    by_cases good : ∃ host number, Good url.bytes host number
    · exact .inl good
    · exact .inr ((failureDeclined url zeroed port).mp (parsed.other fun host n h => good ⟨host,n,h⟩))
  · rintro (⟨host,n,good⟩ | declined)
    · refine ⟨fun host' n' good' => ?_,fun none => absurd good (none host n)⟩
      obtain ⟨rfl,rfl⟩ := goodUnique good good'
      exact goodParsed good port
    · exact ⟨fun host n good => absurd good (declinedNotGood declined host n),
        fun _ => (failureDeclined url zeroed port).mpr declined⟩

/- tcp:// with a host of 29 bytes, which does not fit into addr. -/
def longHost : CString := ⟨scheme ++ List.replicate 29 97 ++ [colon,49],by simp [scheme, colon]⟩

theorem longHostOverruns : longHost.bytes.length < 128 ∧ getIpPair longHost zeroed 0 = .error .store ∧
    ¬Parsed longHost.bytes 0 (getIpPair longHost zeroed 0) := by
  have past : getIpPair longHost zeroed 0 = .error .store := by decide
  refine ⟨by decide,past,fun parsed => ?_⟩
  have after : After longHost.bytes (List.replicate 29 97 ++ colon :: [49]) := ⟨[],by decide,fun _ _ => Nat.zero_le _⟩
  have other : ∀ host number, ¬Good longHost.bytes host number := by
    rintro host n ⟨⟨ds,after',_⟩,⟨_,free,short⟩,_⟩
    obtain ⟨rfl,_⟩ := hostUnique (by decide) free (afterUnique after after')
    exact absurd short (by decide)
  rw [past] at parsed
  cases parsed.other other

end YunbaIot.BrokerUrl
