import NetVirt.PoolSubnets

/-!
# The subtractions of ipcalc

`ipcalc` subtracts words in network order as numbers of the machine. What a byte borrows there
would come from the byte behind it in memory on the one machine and from the byte before it on the
other. Under the netmask of a prefix of at most 30 bits no byte borrows, so that both compute the
hosts of the subnet.
-/

namespace NetVirt.IpPool

open Inet

/-- A subtraction borrows across the boundary behind so many of its lowest bytes. Behind all of
them it wraps around. -/
def borrows (x y : BitVec 32) (bytes : Nat) : Prop :=
  x.toNat % 2 ^ (8 * bytes) < y.toNat % 2 ^ (8 * bytes)

instance (x y : BitVec 32) (bytes : Nat) : Decidable (borrows x y bytes) :=
  inferInstanceAs (Decidable (_ < _))

def Unborrowed (x y : BitVec 32) : Prop := ∀ bytes, bytes ≤ 4 → ¬ borrows x y bytes

/-- No byte borrows when none is smaller than the byte that is subtracted from it. -/
theorem unborrowed_of_covers {x y : BitVec 32} (covers : Covers x y) : Unborrowed x y := by
  obtain ⟨first, second, third, fourth⟩ := covers
  intro bytes within
  unfold borrows
  interval_cases bytes <;> omega

section Subnet
variable (endian : Endian) (address netmask : Text) (value : BitVec 32) (length : Nat)
  (most : length ≤ 30)
  (addressed : inetPton endian address = some (htonl endian value))
  (masked : inetPton endian netmask = some (htonl endian (prefixMask length)))
include most addressed masked

/-- What `ipcalc` computes from an address and the netmask of a prefix, as numbers. None of its
subtractions of words in network order borrows across a byte boundary, and no subtraction wraps
around.

Proof: of each subtraction, every octet of the first word covers that of the second one: all
ones cover anything, the broadcast address the ones of its host part, and one is below the
last octet. A subtraction without borrow is the same in network order, so the words are those
of the numbers. -/
theorem ipcalc_unborrowed : ∃ mask fields,
    inetPton endian "255.255.255.255".toList = some mask ∧
    ipcalc endian address netmask = some fields ∧
    fields.address = htonl endian value ∧ fields.netmask = htonl endian (prefixMask length) ∧
    Unborrowed mask fields.netmask ∧
    2 ≤ (ntohl endian (mask - fields.netmask)).toNat ∧
    Unborrowed (fields.address ||| ~~~fields.netmask) (htonl endian 1) ∧
    Unborrowed fields.hostmax (htonl endian fields.hosts) ∧
    fields.hosts.toNat + 3 = 2 ^ (32 - length) ∧
    (ntohl endian fields.hostmin).toNat = (value &&& prefixMask length).toNat + 1 ∧
    (ntohl endian fields.hostmax).toNat + 1 = (value ||| ~~~prefixMask length).toNat ∧
    (ntohl endian fields.hostmin).toNat + fields.hosts.toNat =
      (ntohl endian fields.hostmax).toNat := by
  have fourfold := prefixMask_fourfold length most
  have spacious : 2 ≤ (~~~prefixMask length).toNat % 256 := by omega
  have covers := or_covers value (prefixMask length)
  have occupied := Nat.le_of_succ_le (spacious.trans covers.fourth)
  have whole : Covers (BitVec.allOnes 32) (prefixMask length) :=
    { first := Nat.div_le_div_right (by
        rw [BitVec.toNat_allOnes]
        exact Nat.le_pred_of_lt (prefixMask length).isLt)
      second := Nat.le_of_lt_succ (Nat.mod_lt _ (by decide))
      third := Nat.le_of_lt_succ (Nat.mod_lt _ (by decide))
      fourth := Nat.le_of_lt_succ (Nat.mod_lt _ (by decide)) }
  have one : Covers (value ||| ~~~prefixMask length) 1 := covers_small _ 1 occupied
  have hosts := covers_hosts covers spacious
  have last : (ipcalcWords endian (htonl endian (BitVec.allOnes 32)) (htonl endian value)
      (htonl endian (prefixMask length))).hostmax =
        htonl endian ((value ||| ~~~prefixMask length) - 1) := by
    rw [← one.htonl_sub endian, htonl_or, htonl_not]
    rfl
  have before : ((value ||| ~~~prefixMask length) - 1).toNat =
      (value ||| ~~~prefixMask length).toNat - 1 := toNat_sub_small _ 1 occupied
  have parts := or_not_toNat value (prefixMask length)
  have ones := not_prefixMask length (by omega)
  have power := Nat.two_pow_pos (32 - length)
  obtain ⟨fewer, least⟩ := ipcalcWords_spacious endian value (prefixMask length) spacious
  refine ⟨_, _, inetPton_ones endian, ?_, rfl, rfl, ?_, ?_, ?_, ?_, ?_, least, ?_, ?_⟩
  · simp only [ipcalc, inetPton_ones, addressed, masked, Option.bind_eq_bind, Option.bind_some]
    rfl
  · exact unborrowed_of_covers (whole.htonl endian)
  · simp only [ipcalcWords, allOnes_sub_htonl, ntohl_htonl]
    exact spacious.trans (Nat.mod_le _ _)
  · simp only [ipcalcWords, ← htonl_not, ← htonl_or]
    exact unborrowed_of_covers (one.htonl endian)
  · rw [last, ipcalcWords_hosts]
    exact unborrowed_of_covers (hosts.htonl endian)
  · rw [fewer, ones]
    omega
  · rw [last, ntohl_htonl, before]
    omega
  · rw [least, fewer, last, ntohl_htonl, before, parts]
    omega

end Subnet

theorem ipcalc_unborrowed_sample : ∃ mask fields,
    inetPton .little "255.255.255.255".toList = some mask ∧
    ipcalc .little "10.1.255.200".toList "255.255.254.0".toList = some fields ∧
    Unborrowed mask fields.netmask ∧ Unborrowed fields.hostmax (htonl .little fields.hosts) ∧
    fields.hosts.toNat + 3 = 2 ^ 9 := by
  obtain ⟨mask, fields, ones, computed, _, _, first, _, _, third, hosts, _⟩ :=
    ipcalc_unborrowed .little "10.1.255.200".toList "255.255.254.0".toList 0x0a01ffc8 23
      (by decide) (by decide) (by decide)
  exact ⟨mask, fields, ones, computed, first, third, hosts⟩

end NetVirt.IpPool
