import YunbaIot.NetworkOrder

/-! The address range of the server: from first to last address in one network, whether it was
configured or is the default one. -/
namespace YunbaIot.LeaseRange
open DhcpServer NetworkOrder
open BigEndian (masked)

structure Range (lease : DhcpsLease) : Prop where
  network : network lease.startIp = network lease.endIp
  ordered : octet lease.startIp ≤ octet lease.endIp

theorem hostUpper (addr : UInt32) : (lwipHtonl addr >>> 8).toNat = mirror (network addr) := by
  have digits := hostDigits addr
  have last := octetBound addr
  rw [hostOrder] at digits
  rw [UInt32.toNat_shiftRight, digits, Nat.shiftRight_eq_div_pow]
  simp only [UInt32.toNat_ofNat, Nat.reducePow, Nat.reduceMod]
  omega

theorem sameUpper {a b : UInt32} (same : lwipHtonl a >>> 8 = lwipHtonl b >>> 8) : network a = network b := by
  have upper := congrArg UInt32.toNat same
  rw [hostUpper, hostUpper] at upper
  rw [← mirrorMirror (networkBound a), upper, mirrorMirror (networkBound b)]

/- A difference that does not wrap. -/
theorem shortOrdered {a b : UInt32} (net : network a = network b)
    (short : ¬ dhcpsMaxLease < lwipHtonl b - lwipHtonl a) : octet a ≤ octet b := by
  have first := hostDigits a
  have last := hostDigits b
  have octets := octetBound a
  rw [hostOrder] at first last
  rw [UInt32.lt_iff_toNat_lt, UInt32.toNat_sub, first, last, net] at short
  have limit : dhcpsMaxLease.toNat = 100 := rfl
  have upper := mirrorBound (networkBound b)
  omega

theorem configuredRange {ip : UInt32} {lease : DhcpsLease} (enabled : (configuredLease ip lease).enable = true) :
    configuredLease ip lease = lease ∧ Range lease := by
  unfold configuredLease at enabled ⊢
  split at enabled
  · rename_i on
    dsimp only at enabled
    split at enabled
    · cases enabled
    · rename_i outside
      split at enabled
      · cases enabled
      · rename_i fits
        rw [if_pos on]
        dsimp only
        rw [if_neg outside, if_neg fits]
        have net := sameUpper ((not_not.mp (not_or.mp (not_or.mp fits).1).1).trans
          (not_not.mp (not_or.mp (not_or.mp fits).1).2).symm)
        exact ⟨rfl,net,shortOrdered net (not_or.mp fits).2⟩
  · rename_i off
    exact absurd enabled off

/- An address of the access point's network, put together from its upper bits and an octet. -/
theorem assembled (ip last : UInt32) (digit : last.toNat < 256) :
    let addr := lwipHtonl (lwipHtonl ip &&& 0xFFFFFF00 ||| last)
    octet addr = last.toNat ∧ network addr = network ip := by
  have digits := hostDigits ip
  have octets := octetBound ip
  have size := networkBound ip
  have above := mirrorBound size
  have upper : (lwipHtonl ip &&& 0xFFFFFF00).toNat = 2 ^ 8 * mirror (network ip) := by
    have field := masked (lwipHtonl ip).toNat 8 24
    rw [hostOrder] at digits
    rw [digits] at field
    simp only [UInt32.toNat_and, UInt32.toNat_ofNat, Nat.shiftLeft_eq, Nat.reducePow, Nat.reduceMod, Nat.reduceMul,
      Nat.reduceSub, digits] at field ⊢
    omega
  have value : (lwipHtonl ip &&& 0xFFFFFF00 ||| last).toNat = 256 * mirror (network ip) + last.toNat := by
    rw [UInt32.toNat_or, upper, ← Nat.two_pow_add_eq_or_of_lt digit]
  have parts := ofHost (lwipHtonl ip &&& 0xFFFFFF00 ||| last)
  have digit : (256 * mirror (network ip) + last.toNat) % 256 = last.toNat := by omega
  have rest : (256 * mirror (network ip) + last.toNat) / 256 = mirror (network ip) := by omega
  rw [value, digit, rest, mirrorMirror size] at parts
  exact parts

/- The default range has a hundred addresses below the access point or above it. -/
structure Hundred (ip : UInt32) (lease : DhcpsLease) : Prop where
  start : network lease.startIp = network ip
  last : network lease.endIp = network ip
  count : octet lease.endIp = octet lease.startIp + 99
  apart : octet lease.endIp < octet ip ∨ octet ip < octet lease.startIp

theorem defaultHundred (ip : UInt32) : Hundred ip (defaultLease ip) := by
  have own : (lwipHtonl ip &&& 0xFF).toNat = octet ip := by
    have field := Nat.and_two_pow_sub_one_eq_mod (lwipHtonl ip).toNat 8
    have digits := hostDigits ip
    have last := octetBound ip
    rw [hostOrder] at digits
    simp only [UInt32.toNat_and, UInt32.toNat_ofNat, Nat.reducePow, Nat.reduceMod, Nat.reduceSub] at field ⊢
    omega
  have step (n : UInt32) : (n + dhcpsMaxLease - 1).toNat = (n.toNat + 99) % 4294967296 := by
    have limit : dhcpsMaxLease.toNat = 100 := rfl
    rw [UInt32.toNat_sub, UInt32.toNat_add, limit, UInt32.toNat_one]
    omega
  have last := octetBound ip
  unfold defaultLease
  dsimp only
  generalize lwipHtonl ip &&& 0xFF = octets at own ⊢
  generalize chosen : (if 0x80 ≤ octets then octets - dhcpsMaxLease else octets + 1) = first
  have placed : first.toNat + 100 = octet ip ∨ first.toNat = octet ip + 1 ∧ first.toNat ≤ 128 := by
    rw [← chosen]
    split
    · rename_i high
      have limit : dhcpsMaxLease.toNat = 100 := rfl
      have half : 128 ≤ octets.toNat := UInt32.le_iff_toNat_le.mp high
      rw [UInt32.toNat_sub, limit]
      omega
    · rename_i small
      have half : octets.toNat < 128 := Nat.lt_of_not_le fun high => small (UInt32.le_iff_toNat_le.mpr high)
      rw [UInt32.toNat_add, UInt32.toNat_one]
      omega
  have ended := step first
  have starts := assembled ip first (by omega)
  have ends := assembled ip (first + dhcpsMaxLease - 1) (by omega)
  refine ⟨starts.2,ends.2,?_,?_⟩
  · rw [starts.1, ends.1]
    omega
  · rw [starts.1, ends.1]
    omega

theorem defaultRange (ip : UInt32) : Range (defaultLease ip) := by
  have hundred := defaultHundred ip
  have count := hundred.count
  exact ⟨hundred.start.trans hundred.last.symm,by omega⟩

/-- Whatever was configured, the server runs with a range inside one network. -/
theorem initRange (ip : UInt32) (lease : DhcpsLease) : Range (wifiSoftapInitDhcpsLease ip lease) := by
  unfold wifiSoftapInitDhcpsLease
  dsimp only
  split
  · rename_i enabled
    obtain ⟨same,range⟩ := configuredRange enabled
    rw [same]
    exact range
  · exact defaultRange ip

/- What the range of an access point has to be, in host order. -/
structure Safe (ip : UInt32) (lease : DhcpsLease) : Prop where
  ordered : hostOrder lease.startIp ≤ hostOrder lease.endIp
  short : hostOrder lease.endIp - hostOrder lease.startIp ≤ dhcpsMaxLease.toNat
  start : hostOrder lease.startIp / 256 = hostOrder ip / 256
  last : hostOrder lease.endIp / 256 = hostOrder ip / 256
  apart : ¬ (hostOrder lease.startIp ≤ hostOrder ip ∧ hostOrder ip ≤ hostOrder lease.endIp)

theorem hundredSafe {ip : UInt32} {lease : DhcpsLease} (hundred : Hundred ip lease) : Safe ip lease := by
  have own := hostDigits ip
  have start := hostDigits lease.startIp
  have last := hostDigits lease.endIp
  have octets := octetBound ip
  have ends := octetBound lease.endIp
  have limit : dhcpsMaxLease.toNat = 100 := rfl
  rw [hundred.start] at start
  rw [hundred.last, hundred.count] at last
  rw [hundred.count] at ends
  have apart := hundred.apart
  rw [hundred.count] at apart
  constructor <;> omega

theorem configuredSafe {ip : UInt32} {lease : DhcpsLease} (enabled : (configuredLease ip lease).enable = true) :
    Safe ip lease := by
  have ordered := (configuredRange enabled).2.ordered
  unfold configuredLease at enabled
  split at enabled
  · dsimp only at enabled
    split at enabled
    · cases enabled
    · rename_i outside
      split at enabled
      · cases enabled
      · rename_i fits
        obtain ⟨segment,short⟩ := not_or.mp fits
        obtain ⟨start,last⟩ := not_or.mp segment
        have startNet := sameUpper (not_not.mp start)
        have lastNet := sameUpper (not_not.mp last)
        have startDigits := hostDigits lease.startIp
        have lastDigits := hostDigits lease.endIp
        have digits := hostDigits ip
        have octets := octetBound ip
        have starts := octetBound lease.startIp
        have ends := octetBound lease.endIp
        have limit : dhcpsMaxLease.toNat = 100 := rfl
        rw [startNet] at startDigits
        rw [lastNet] at lastDigits
        rw [UInt32.le_iff_toNat_le, UInt32.le_iff_toNat_le] at outside
        rw [UInt32.lt_iff_toNat_lt, UInt32.toNat_sub, limit] at short
        have bound := (lwipHtonl lease.endIp).toNat_lt
        unfold hostOrder at *
        constructor
        all_goals simp only [hostOrder,limit]
        all_goals omega
  · rename_i off
    exact absurd enabled off

/-- Every range the server starts with is ordered, short, in the segment of the access point and
without its address. -/
theorem rangeSafe (ip : UInt32) (lease : DhcpsLease) : Safe ip (wifiSoftapInitDhcpsLease ip lease) := by
  unfold wifiSoftapInitDhcpsLease
  dsimp only
  split
  · rename_i enabled
    rw [(configuredRange enabled).1]
    exact configuredSafe enabled
  · exact hundredSafe (defaultHundred ip)

/-- A range that wifi_softap_set_dhcps_lease accepts is the one the server runs with. -/
theorem acceptedStays {softap started : Bool} {ip : UInt32} {please lease accepted : DhcpsLease}
    (enabled : please.enable = true)
    (accept : wifiSoftapSetDhcpsLease softap started ip (some please) lease = (true,accepted)) :
    wifiSoftapInitDhcpsLease ip accepted = ⟨true,please.startIp,please.endIp⟩ := by
  unfold wifiSoftapSetDhcpsLease at accept
  dsimp only at accept
  split at accept
  · cases accept
  · split at accept
    · cases accept
    · -- the branch of an enabled configuration
      split at accept
      · cases accept
      · rename_i outside
        split at accept
        · cases accept
        · rename_i inside
          split at accept
          · cases accept
          · rename_i short
            cases accept
            have kept : configuredLease ip ⟨please.enable,please.startIp,please.endIp⟩ =
                ⟨please.enable,please.startIp,please.endIp⟩ := by
              unfold configuredLease
              rw [if_pos enabled]
              exact (if_neg outside).trans (if_neg (not_or.mpr ⟨inside,short⟩))
            unfold wifiSoftapInitDhcpsLease
            dsimp only [bzeroLease]
            rw [kept, if_pos enabled, enabled]

end YunbaIot.LeaseRange
