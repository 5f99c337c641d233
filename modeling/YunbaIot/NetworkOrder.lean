import YunbaIot.BigEndian
import YunbaIot.DhcpServer

/-! Addresses by their last octet and the network before it. In memory the last octet leads
a comparison, in host order it is the last digit to base 256. -/
namespace YunbaIot.NetworkOrder
open DhcpServer
open BigEndian (masked)

/-! lwip_htonl by bytes -/

theorem joinedBytes (a : Nat) {b c d : Nat} (second : b < 256) (third : c < 256) (last : d < 256) :
    2 ^ 24 * a ||| 2 ^ 16 * b ||| 2 ^ 8 * c ||| d = 2 ^ 24 * a + 2 ^ 16 * b + 2 ^ 8 * c + d := by
  have two : 2 ^ 24 * a ||| 2 ^ 16 * b = 2 ^ 16 * (2 ^ 8 * a + b) := by
    rw [← Nat.two_pow_add_eq_or_of_lt (by omega)]
    omega
  have three : 2 ^ 16 * (2 ^ 8 * a + b) ||| 2 ^ 8 * c = 2 ^ 8 * (2 ^ 16 * a + 2 ^ 8 * b + c) := by
    rw [← Nat.two_pow_add_eq_or_of_lt (by omega)]
    omega
  rw [two, three, ← Nat.two_pow_add_eq_or_of_lt last]
  omega

theorem htonlBytes (n : UInt32) : (lwipHtonl n).toNat = 2 ^ 24 * (n.toNat % 256) + 2 ^ 16 * (n.toNat / 2 ^ 8 % 256) +
    2 ^ 8 * (n.toNat / 2 ^ 16 % 256) + n.toNat / 2 ^ 24 := by
  have size := n.toNat_lt
  have byte (k : Nat) : n.toNat / 2 ^ k % 256 < 256 := Nat.mod_lt _ (by decide)
  have high : n.toNat / 2 ^ 24 < 256 := by omega
  have first : ((n &&& 0xff) <<< 24).toNat = 2 ^ 24 * (n.toNat % 256) := by
    have field := Nat.and_two_pow_sub_one_eq_mod n.toNat 8
    simp only [UInt32.toNat_shiftLeft, UInt32.toNat_and, UInt32.toNat_ofNat, Nat.shiftLeft_eq, Nat.reducePow,
      Nat.reduceMod, Nat.reduceSub] at field ⊢
    omega
  have second : ((n &&& 0xff00) <<< 8).toNat = 2 ^ 16 * (n.toNat / 2 ^ 8 % 256) := by
    have field := masked n.toNat 8 8
    simp only [UInt32.toNat_shiftLeft, UInt32.toNat_and, UInt32.toNat_ofNat, Nat.shiftLeft_eq, Nat.reducePow,
      Nat.reduceMod, Nat.reduceMul, Nat.reduceSub] at field ⊢
    omega
  have third : ((n &&& 0xff0000) >>> 8).toNat = 2 ^ 8 * (n.toNat / 2 ^ 16 % 256) := by
    have field := masked n.toNat 16 8
    simp only [UInt32.toNat_shiftRight, UInt32.toNat_and, UInt32.toNat_ofNat, Nat.shiftLeft_eq,
      Nat.shiftRight_eq_div_pow, Nat.reducePow, Nat.reduceMod, Nat.reduceMul, Nat.reduceSub] at field ⊢
    omega
  have fourth : ((n &&& 0xff000000) >>> 24).toNat = n.toNat / 2 ^ 24 := by
    have field := masked n.toNat 24 8
    simp only [UInt32.toNat_shiftRight, UInt32.toNat_and, UInt32.toNat_ofNat, Nat.shiftLeft_eq,
      Nat.shiftRight_eq_div_pow, Nat.reducePow, Nat.reduceMod, Nat.reduceMul, Nat.reduceSub] at field ⊢
    omega
  rw [lwipHtonl, UInt32.toNat_or, UInt32.toNat_or, UInt32.toNat_or, first, second, third, fourth,
    joinedBytes _ (byte 8) (byte 16) high]

/-! Octet and network -/

def octet (addr : UInt32) : Nat := addr.toNat / 16777216
def network (addr : UInt32) : Nat := addr.toNat % 16777216
def hostOrder (addr : UInt32) : Nat := (lwipHtonl addr).toNat

-- the three bytes of a network, the other way round
def mirror (net : Nat) : Nat := 65536 * (net % 256) + 256 * (net / 256 % 256) + net / 65536

theorem networkBytes {net : Nat} (size : net < 16777216) :
    ∃ a b c, a < 256 ∧ b < 256 ∧ c < 256 ∧ net = 65536 * a + 256 * b + c :=
  ⟨net / 65536,net / 256 % 256,net % 256,by omega,by omega,by omega,by omega⟩

theorem mirrorBytes {a b c : Nat} (second : b < 256) (third : c < 256) :
    mirror (65536 * a + 256 * b + c) = 65536 * c + 256 * b + a := by
  have low : (65536 * a + 256 * b + c) % 256 = c := by omega
  have mid : (65536 * a + 256 * b + c) / 256 % 256 = b := by omega
  have high : (65536 * a + 256 * b + c) / 65536 = a := by omega
  rw [mirror, low, mid, high]

theorem mirrorMirror {net : Nat} (size : net < 16777216) : mirror (mirror net) = net := by
  obtain ⟨a,b,c,first,second,third,rfl⟩ := networkBytes size
  rw [mirrorBytes second third, mirrorBytes second first]

theorem mirrorBound {net : Nat} (size : net < 16777216) : mirror net < 16777216 := by
  obtain ⟨a,b,c,first,second,third,rfl⟩ := networkBytes size
  rw [mirrorBytes second third]
  omega

theorem octetBound (addr : UInt32) : octet addr < 256 := by
  have size := addr.toNat_lt
  unfold octet
  omega

theorem networkBound (addr : UInt32) : network addr < 16777216 := Nat.mod_lt _ (by decide)

theorem addressParts (addr : UInt32) : addr.toNat = 16777216 * octet addr + network addr :=
  (Nat.div_add_mod addr.toNat 16777216).symm

theorem addressExt {a b : UInt32} (net : network a = network b) (last : octet a = octet b) : a = b := by
  apply UInt32.toNat_inj.mp
  rw [addressParts a, addressParts b, net, last]

/- In one network the chip compares addresses by their last octet. -/
theorem addressLt {a b : UInt32} (net : network a = network b) : a < b ↔ octet a < octet b := by
  rw [UInt32.lt_iff_toNat_lt, addressParts a, addressParts b, net]
  omega

theorem htonlParts {n : UInt32} {upper last : Nat} (size : upper < 16777216) (digit : last < 256)
    (value : n.toNat = 256 * upper + last) : (lwipHtonl n).toNat = 16777216 * last + mirror upper := by
  obtain ⟨a,b,c,first,second,third,rfl⟩ := networkBytes size
  have d0 : n.toNat % 256 = last := by omega
  have d1 : n.toNat / 2 ^ 8 % 256 = c := by omega
  have d2 : n.toNat / 2 ^ 16 % 256 = b := by omega
  have d3 : n.toNat / 2 ^ 24 = a := by omega
  rw [htonlBytes, d0, d1, d2, d3, mirrorBytes second third]
  omega

theorem hostDigits (addr : UInt32) : hostOrder addr = 256 * mirror (network addr) + octet addr := by
  have octets := octetBound addr
  have parts := addressParts addr
  obtain ⟨a,b,c,first,second,third,bytes⟩ := networkBytes (networkBound addr)
  have whole : addr.toNat = 256 * (65536 * octet addr + 256 * a + b) + c := by omega
  rw [hostOrder, htonlParts (by omega) third whole, mirrorBytes first second, bytes,
    mirrorBytes second third]
  omega

theorem hostLt {a b : UInt32} (net : network a = network b) : hostOrder a < hostOrder b ↔ octet a < octet b := by
  rw [hostDigits, hostDigits, net]
  omega

theorem hostLe {a b : UInt32} (net : network a = network b) : hostOrder a ≤ hostOrder b ↔ octet a ≤ octet b := by
  rw [hostDigits, hostDigits, net]
  omega

theorem ofHost (host : UInt32) :
    octet (lwipHtonl host) = host.toNat % 256 ∧ network (lwipHtonl host) = mirror (host.toNat / 256) := by
  have size := host.toNat_lt
  have upper : host.toNat / 256 < 16777216 := by omega
  have value := htonlParts upper (Nat.mod_lt host.toNat (by decide)) (Nat.div_add_mod host.toNat 256).symm
  have bound := mirrorBound upper
  unfold octet network
  rw [value]
  omega

/- Below 255 the next address is the one with the next last octet. -/
theorem incremented {addr : UInt32} (low : octet addr < 255) :
    octet (increment addr) = octet addr + 1 ∧ network (increment addr) = network addr := by
  have digits := hostDigits addr
  have size := networkBound addr
  have above := mirrorBound size
  have next : (lwipHtonl addr + 1).toNat = 256 * mirror (network addr) + (octet addr + 1) := by
    rw [hostOrder] at digits
    rw [UInt32.toNat_add, digits, UInt32.toNat_one]
    omega
  have parts := ofHost (lwipHtonl addr + 1)
  have last : (256 * mirror (network addr) + (octet addr + 1)) % 256 = octet addr + 1 := by omega
  have upper : (256 * mirror (network addr) + (octet addr + 1)) / 256 = mirror (network addr) := by omega
  rw [next, last, upper, mirrorMirror size] at parts
  exact parts

end YunbaIot.NetworkOrder
