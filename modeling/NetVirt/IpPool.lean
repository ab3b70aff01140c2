import NetVirt.Bitmaps
import NetVirt.Inet

/-!
# Pools of IP addresses

The functions of ippool.c. A pool hands out the addresses from its first host on: bit `n`
of its bitmap stands for the `n`th of them. The number of hosts is one less than the number
of addresses, and the bit of that number is the last one handed out.
-/

namespace NetVirt.IpPool

open Bitmaps Inet

/-- The bytes of a bitmap: `(bits+7)/8`. -/
def bitmapBytes (bits : BitVec 32) : Nat := (bits.toNat + 7) / 8

/-- `struct ippool`. The addresses are in network order. -/
structure Ippool where
  hosts : BitVec 32
  hostmin : BitVec 32
  hostmax : BitVec 32
  address : BitVec 32
  netmask : BitVec 32
  pool : List (BitVec 8)
  allocated : bitmapBytes hosts ≤ pool.length

/-- `allocate_bit`: the bitmap and the bit it hands out, none when there is no clear bit in
it that stands for a host. -/
def allocateBit (bitmap : List (BitVec 8)) (bits : BitVec 32) :
    List (BitVec 8) × Option (BitVec 32) :=
  let byteSize := bitmapBytes bits
  let i := fullBytes (bitmap.take byteSize)
  if i = byteSize then (bitmap, none)
  else
    let bit := BitVec.ofNat 32 (i * 8 + fullBits (bitmap.getD i 0))
    if bit.toNat > bits.toNat then (bitmap, none)
    else (setBit bitmap bit.toNat, some bit)

/-- `free_bit` -/
def freeBit (bitmap : List (BitVec 8)) (bits bit : Nat) : List (BitVec 8) :=
  if bit ≤ bits then clearBit bitmap bit else bitmap

/-- The fields that `ipcalc` computes, on words in network order. -/
structure Ipcalc where
  hosts : BitVec 32
  hostmin : BitVec 32
  hostmax : BitVec 32
  address : BitVec 32
  netmask : BitVec 32
deriving DecidableEq

/-- The arithmetic of `ipcalc`. -/
def ipcalcWords (endian : Endian) (mask address netmask : BitVec 32) : Ipcalc :=
  let hosts := ntohl endian (mask - netmask) - 2
  let hostmax := (address ||| ~~~netmask) - htonl endian 1
  { hosts := hosts, hostmin := hostmax - htonl endian hosts, hostmax := hostmax,
    address := address, netmask := netmask }

/-- `ipcalc` -/
def ipcalc (endian : Endian) (address netmask : Text) : Option Ipcalc := do
  let mask ← inetPton endian "255.255.255.255".toList
  let address ← inetPton endian address
  let netmask ← inetPton endian netmask
  return ipcalcWords endian mask address netmask

/-- `ippool_new` -/
def ippoolNew (endian : Endian) (address netmask : Text) : Option Ippool :=
  (ipcalc endian address netmask).map fun fields =>
    { hosts := fields.hosts, hostmin := fields.hostmin, hostmax := fields.hostmax,
      address := fields.address, netmask := fields.netmask,
      pool := List.replicate (bitmapBytes fields.hosts) 0, allocated := by simp }

/-- A new pool has no address in use. -/
theorem ippoolNew_pool (endian : Endian) (address netmask : Text) (ippool : Ippool)
    (new : ippoolNew endian address netmask = some ippool) :
    ippool.pool = List.replicate (bitmapBytes ippool.hosts) 0 := by
  obtain ⟨fields, _, rfl⟩ := Option.map_eq_some_iff.mp new
  rfl

/-- A search that finds nothing leaves the bitmap, and so does one that finds a bit past
the last host; else the bit is set that was found. -/
theorem allocateBit_cases (bitmap : List (BitVec 8)) (bits : BitVec 32) :
    let i := fullBytes (bitmap.take (bitmapBytes bits))
    let bit := BitVec.ofNat 32 (i * 8 + fullBits (bitmap.getD i 0))
    (i = bitmapBytes bits ∧ allocateBit bitmap bits = (bitmap, none)) ∨
      (i ≠ bitmapBytes bits ∧ bits.toNat < bit.toNat ∧ allocateBit bitmap bits = (bitmap, none)) ∨
      (i ≠ bitmapBytes bits ∧ bit.toNat ≤ bits.toNat ∧
        allocateBit bitmap bits = (setBit bitmap bit.toNat, some bit)) := by
  intro i bit
  by_cases full : i = bitmapBytes bits
  · exact Or.inl ⟨full, if_pos full⟩
  · right
    by_cases past : bits.toNat < bit.toNat
    · exact Or.inl ⟨full, past, (if_neg full).trans (if_pos past)⟩
    · exact Or.inr ⟨full, Nat.not_lt.mp past, (if_neg full).trans (if_neg past)⟩

theorem allocateBit_length (bitmap : List (BitVec 8)) (bits : BitVec 32) :
    (allocateBit bitmap bits).1.length = bitmap.length := by
  rcases allocateBit_cases bitmap bits with ⟨_, same⟩ | ⟨_, _, same⟩ | ⟨_, _, same⟩
  · rw [same]
  · rw [same]
  · rw [same, setBit_length]

theorem freeBit_length (bitmap : List (BitVec 8)) (bits bit : Nat) :
    (freeBit bitmap bits bit).length = bitmap.length := by
  unfold freeBit
  split
  · exact clearBit_length bitmap bit
  · rfl

/-- The pool with another bitmap of its size. -/
def Ippool.withPool (ippool : Ippool) (pool : List (BitVec 8))
    (same : pool.length = ippool.pool.length) : Ippool :=
  { ippool with pool := pool, allocated := same.symm ▸ ippool.allocated }

/-- `ippool_get_ip` -/
def ippoolGetIp (endian : Endian) (ippool : Ippool) : Ippool × Option Text :=
  let found := allocateBit ippool.pool ippool.hosts
  (ippool.withPool found.1 (allocateBit_length ippool.pool ippool.hosts),
    found.2.map fun bit => inetNtoa endian (htonl endian (ntohl endian ippool.hostmin + bit)))

/-- `ippool_release_ip`. The index is an int, which free_bit takes as a `size_t`. -/
def ippoolReleaseIp (endian : Endian) (ippool : Ippool) (ip : Text) : Ippool :=
  match inetAton endian ip with
  | none => ippool
  | some addr =>
    let bit := ntohl endian addr - ntohl endian ippool.hostmin
    ippool.withPool (freeBit ippool.pool ippool.hosts.toNat (bit.signExtend 64).toNat)
      (freeBit_length _ _ _)

/-! ## Accesses

The bytes of the bitmap that the calls read or write, in their order.
-/

/-- The accesses of `ippool_get_ip`: the bytes searched, the bits of the byte found, and the
bit that is set. -/
def getIpAccesses (ippool : Ippool) : List Nat :=
  let byteSize := bitmapBytes ippool.hosts
  let i := fullBytes (ippool.pool.take byteSize)
  let j := fullBits (ippool.pool.getD i 0)
  let bit := BitVec.ofNat 32 (i * 8 + j)
  List.range (min (i + 1) byteSize) ++
    if i = byteSize then []
    else (List.range (j + 1)).map (fun tested => i + tested / 8) ++
      if bit.toNat > ippool.hosts.toNat then [] else [bit.toNat / 8]

/-- The accesses of `ippool_release_ip`: the bit that is reset, if its index is in range. -/
def releaseIpAccesses (endian : Endian) (ippool : Ippool) (ip : Text) : List Nat :=
  match inetAton endian ip with
  | none => []
  | some addr =>
    let bit := ((ntohl endian addr - ntohl endian ippool.hostmin).signExtend 64).toNat
    if bit ≤ ippool.hosts.toNat then [bit / 8] else []

/-! ## Bits and addresses -/

/-- A negative index becomes one past every bitmap. -/
theorem signExtend_index (bit : BitVec 32) :
    (bit.signExtend 64).toNat = if bit.toNat < 2 ^ 31 then bit.toNat
      else bit.toNat + (2 ^ 64 - 2 ^ 32) := by
  have wide := bit.isLt
  rw [BitVec.toNat_signExtend, BitVec.msb_eq_decide, BitVec.toNat_setWidth]
  by_cases negative : 2 ^ 31 ≤ bit.toNat
  · rw [if_pos (by simpa using negative), if_neg (by omega), Nat.mod_eq_of_lt (by omega)]
  · rw [if_neg (by simpa using negative), if_pos (by omega), Nat.mod_eq_of_lt (by omega)]
    rfl

/-- The bit that a search finds is the first clear one, and stands for a host. When it finds
none, every bit that stands for a host is set. The last byte of the bitmap is not wholly
used, so that the bit of the number of hosts is in it. -/
theorem allocateBit_spec (bitmap : List (BitVec 8)) (bits : BitVec 32)
    (allocated : bitmapBytes bits ≤ bitmap.length) (spare : bits.toNat % 8 ≠ 0) :
    (allocateBit bitmap bits = (bitmap, none) ∧
      ∀ bit, bit ≤ bits.toNat → getBit bitmap bit = true) ∨
    ∃ bit : BitVec 32, bit.toNat ≤ bits.toNat ∧
      allocateBit bitmap bits = (setBit bitmap bit.toNat, some bit) ∧
      getBit bitmap bit.toNat = false ∧
      ∀ earlier, earlier < bit.toNat → getBit bitmap earlier = true := by
  have wide := bits.isLt
  have bytes : bitmapBytes bits * 8 ≤ 2 ^ 32 := by
    unfold bitmapBytes
    omega
  have exact : ∀ i, i < bitmapBytes bits → fullBits (bitmap.getD i 0) < 8 →
      (BitVec.ofNat 32 (i * 8 + fullBits (bitmap.getD i 0))).toNat =
        i * 8 + fullBits (bitmap.getD i 0) := by
    intro i inside small
    rw [BitVec.toNat_ofNat, Nat.mod_eq_of_lt (by omega)]
  rcases allocateBit_cases bitmap bits with ⟨full, same⟩ | ⟨short, past, same⟩ |
    ⟨short, inside, same⟩
  · refine Or.inl ⟨same, fun bit inside => allSet bitmap _ full bit ?_⟩
    unfold bitmapBytes
    omega
  · obtain ⟨within, small, clear, set⟩ := firstClear bitmap _ allocated short
    refine Or.inl ⟨same, fun bit inside => set bit ?_⟩
    rw [exact _ within small] at past
    omega
  · obtain ⟨within, small, clear, set⟩ := firstClear bitmap _ allocated short
    rw [← exact _ within small] at clear set
    exact Or.inr ⟨_, inside, same, clear, set⟩

/-- The pool hands out the given number of addresses from the first one on. -/
structure Spans (endian : Endian) (ippool : Ippool) (first count : Nat) : Prop where
  hostmin : (ntohl endian ippool.hostmin).toNat = first
  hosts : ippool.hosts.toNat + 1 = count
  spare : ippool.hosts.toNat % 8 ≠ 0
  signed : count ≤ 2 ^ 31
  bounded : first + count ≤ 2 ^ 32

/-- The text of an address, given as a number. -/
def hostText (value : Nat) : Text := dotted (octets (BitVec.ofNat 32 value))

theorem inetAton_hostText (endian : Endian) (value : Nat) :
    inetAton endian (hostText value) = some (htonl endian (BitVec.ofNat 32 value)) := by
  have text : hostText value = inetNtoa endian (htonl endian (BitVec.ofNat 32 value)) := by
    rw [inetNtoa, ntohl_htonl, hostText]
  rw [text, inetAton_inetNtoa]

/-- The address that a text names, as a number. -/
def named (endian : Endian) (ip : Text) : Option Nat :=
  (inetAton endian ip).map fun addr => (ntohl endian addr).toNat

theorem named_hostText (endian : Endian) (value : Nat) (bounded : value < 2 ^ 32) :
    named endian (hostText value) = some value := by
  have whole : value % 2 ^ 32 = value := Nat.mod_eq_of_lt bounded
  simpa [named, inetAton_hostText] using whole

section Spans
variable {endian : Endian} {ippool : Ippool} {first count : Nat}
  (spans : Spans endian ippool first count)
include spans

/-- The address handed out is the first one whose bit was clear, and its bit is set. None is
handed out when all of them are set. -/
theorem ippoolGetIp_spec :
    ((ippoolGetIp endian ippool).2 = none ∧ (ippoolGetIp endian ippool).1.pool = ippool.pool ∧
      ∀ bit, bit < count → getBit ippool.pool bit = true) ∨
    ∃ bit, bit < count ∧ (ippoolGetIp endian ippool).2 = some (hostText (first + bit)) ∧
      (ippoolGetIp endian ippool).1.pool = setBit ippool.pool bit ∧
      getBit ippool.pool bit = false ∧
      ∀ earlier, earlier < bit → getBit ippool.pool earlier = true := by
  have hosts := spans.hosts
  rcases allocateBit_spec ippool.pool ippool.hosts ippool.allocated spans.spare with
    ⟨same, full⟩ | ⟨bit, inside, same, clear, set⟩
  · left
    simp only [ippoolGetIp, Ippool.withPool, same, Option.map_none]
    exact ⟨trivial, trivial, fun bit inside => full bit (by omega)⟩
  · right
    refine ⟨bit.toNat, by omega, ?_, ?_, clear, set⟩
    · have value : ntohl endian ippool.hostmin + bit = BitVec.ofNat 32 (first + bit.toNat) := by
        apply BitVec.eq_of_toNat_eq
        rw [BitVec.toNat_add, BitVec.toNat_ofNat, spans.hostmin]
      simp only [ippoolGetIp, same, Option.map_some, inetNtoa, ntohl_htonl, value, hostText]
    · simp only [ippoolGetIp, Ippool.withPool, same]

theorem ippoolReleaseIp_spans (ip : Text) :
    Spans endian (ippoolReleaseIp endian ippool ip) first count := by
  unfold ippoolReleaseIp
  cases inetAton endian ip with
  | none => exact spans
  | some addr => exact { spans with }

/-- Releasing the address of a host clears its bit; releasing anything else does nothing. -/
theorem ippoolReleaseIp_spec (ip : Text) :
    (∀ value, named endian ip = some value → first ≤ value → value < first + count →
      (ippoolReleaseIp endian ippool ip).pool = clearBit ippool.pool (value - first)) ∧
    ((∀ value, named endian ip = some value → ¬ (first ≤ value ∧ value < first + count)) →
      (ippoolReleaseIp endian ippool ip).pool = ippool.pool) := by
  unfold ippoolReleaseIp named
  cases inetAton endian ip with
  | none => simp
  | some addr =>
    have hosts := spans.hosts
    have signed := spans.signed
    have bounded := spans.bounded
    have wide := (ntohl endian addr).isLt
    have index : (ntohl endian addr - ntohl endian ippool.hostmin).toNat =
        (2 ^ 32 - first + (ntohl endian addr).toNat) % 2 ^ 32 := by
      rw [BitVec.toNat_sub, spans.hostmin]
    simp only [Option.map_some, Option.some.injEq, forall_eq', Ippool.withPool, freeBit,
      signExtend_index, index]
    constructor
    · intro low high
      have same : (2 ^ 32 - first + (ntohl endian addr).toNat) % 2 ^ 32 =
          (ntohl endian addr).toNat - first := by omega
      rw [same, if_pos (by omega : (ntohl endian addr).toNat - first < 2 ^ 31),
        if_pos (by omega)]
    · intro foreign
      have past : ippool.hosts.toNat <
          (2 ^ 32 - first + (ntohl endian addr).toNat) % 2 ^ 32 := by omega
      refine if_neg (Nat.not_le.mpr ?_)
      split
      · exact past
      · omega

end Spans

end NetVirt.IpPool
