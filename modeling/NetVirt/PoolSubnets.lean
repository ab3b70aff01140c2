import NetVirt.PoolLaw

/-!
# The netmasks of address pools

ippool_new takes any two dotted quads for the address and the netmask. A pool hands out hosts
of its network only, and stays within its bitmap, exactly when the netmask is that of a prefix
of at most 30 bits. The pool of any other netmask hands out an address that is not in the
network after some calls; the one that leaves two addresses which are not neighbours has no
byte, and resets a bit of it all the same.
-/

namespace NetVirt.IpPool

open Bitmaps Inet

/-- The next address is a host of the network, and the next access is within the bitmap. The
address and the netmask are in network order. -/
structure Contained (endian : Endian) (address netmask : BitVec 32) (ippool : Ippool) :
    Prop where
  host : ∀ ip, (ippoolGetIp endian ippool).2 = some ip → ∃ word, inetAton endian ip = some word ∧
    word &&& netmask = address &&& netmask ∧ word ≠ address &&& netmask ∧
    word ≠ address ||| ~~~netmask
  getInside : ∀ byte ∈ getIpAccesses ippool, byte < ippool.pool.length
  releaseInside : ∀ ip, ∀ byte ∈ releaseIpAccesses endian ippool ip, byte < ippool.pool.length

/-- The fields of a new pool. -/
theorem ippoolNew_fields (endian : Endian) (address netmask : Text) (value mask : BitVec 32)
    (ippool : Ippool) (new : ippoolNew endian address netmask = some ippool)
    (addressed : inetPton endian address = some (htonl endian value))
    (masked : inetPton endian netmask = some (htonl endian mask)) :
    ippool.hosts = ~~~mask - 2 ∧
      ippool.hostmin = (ipcalcWords endian (htonl endian (BitVec.allOnes 32))
        (htonl endian value) (htonl endian mask)).hostmin ∧
      ippool.pool = List.replicate (bitmapBytes ippool.hosts) 0 := by
  refine ⟨?_, ?_, ippoolNew_pool endian address netmask ippool new⟩
  all_goals
    simp only [ippoolNew, ipcalc, inetPton_ones, addressed, masked, Option.bind_eq_bind,
      Option.bind_some] at new
    obtain rfl := Option.some.inj new
  · exact ipcalcWords_hosts endian value mask
  · rfl

/-! ## Addresses in turn -/

/-- A pool whose first bits are set hands out the address behind them. -/
theorem getIp_next (endian : Endian) (ippool : Ippool) (count : Nat)
    (filled : ∀ bit, getBit ippool.pool bit = decide (bit < count))
    (inside : count ≤ ippool.hosts.toNat) (room : count < bitmapBytes ippool.hosts * 8) :
    (ippoolGetIp endian ippool).2 = some (inetNtoa endian (htonl endian
      (ntohl endian ippool.hostmin + BitVec.ofNat 32 count))) ∧
    ∀ bit, getBit (ippoolGetIp endian ippool).1.pool bit = decide (bit < count + 1) := by
  have wide := ippool.hosts.isLt
  have notSet : ¬ getBit ippool.pool count = true := by simp [filled]
  have short : fullBytes (ippool.pool.take (bitmapBytes ippool.hosts)) ≠
      bitmapBytes ippool.hosts :=
    fun full => notSet (allSet ippool.pool _ full count room)
  obtain ⟨within, small, clear, set⟩ := firstClear ippool.pool _ ippool.allocated short
  -- The first clear bit is the one behind the bits that are set.
  have first : fullBytes (ippool.pool.take (bitmapBytes ippool.hosts)) * 8 +
      fullBits (ippool.pool.getD (fullBytes (ippool.pool.take (bitmapBytes ippool.hosts))) 0) =
        count := by
    rw [filled, decide_eq_false_iff_not] at clear
    by_contra other
    exact notSet (set count (by omega))
  have index : (BitVec.ofNat 32 count).toNat = count := by
    rw [BitVec.toNat_ofNat]
    omega
  have stored : count / 8 < ippool.pool.length := by
    have allocated := ippool.allocated
    omega
  have found : allocateBit ippool.pool ippool.hosts =
      (setBit ippool.pool count, some (BitVec.ofNat 32 count)) := by
    unfold allocateBit
    rw [if_neg short]
    simp only [first, index]
    rw [if_neg (Nat.not_lt.mpr inside)]
  refine ⟨by simp [ippoolGetIp, found], fun bit => ?_⟩
  simp only [ippoolGetIp, Ippool.withPool, found, getBit_setBit _ _ _ stored, filled]
  rw [Bool.eq_iff_iff, Bool.or_eq_true, decide_eq_true_eq, decide_eq_true_eq, decide_eq_true_eq]
  omega

/-- A new pool hands out its addresses one after the other. -/
theorem gets_address (endian : Endian) (ippool : Ippool) (count : Nat)
    (fresh : ippool.pool = List.replicate (bitmapBytes ippool.hosts) 0)
    (inside : count ≤ ippool.hosts.toNat) (room : count < bitmapBytes ippool.hosts * 8) :
    ∃ calls : List PoolCall, (ippoolGetIp endian (calls.foldl (poolStep endian)
      { ippool := ippool, inUse := [] }).ippool).2 = some (inetNtoa endian (htonl endian
        (ntohl endian ippool.hostmin + BitVec.ofNat 32 count))) := by
  have filled : ∀ taken, taken ≤ count → ∃ after, (List.replicate taken .getIp).foldl
      (poolStep endian) { ippool := ippool, inUse := [] } = after ∧
      after.ippool.hosts = ippool.hosts ∧ after.ippool.hostmin = ippool.hostmin ∧
      ∀ bit, getBit after.ippool.pool bit = decide (bit < taken) := by
    intro taken fewer
    induction taken with
    | zero => exact ⟨_, rfl, rfl, rfl, by simp [fresh]⟩
    | succ taken inductionHypothesis =>
      obtain ⟨before, reached, hosts, hostmin, bits⟩ := inductionHypothesis (by omega)
      obtain ⟨_, next⟩ := getIp_next endian before.ippool taken bits (by rw [hosts]; omega)
        (by rw [hosts]; omega)
      refine ⟨poolStep endian before .getIp, ?_, hosts, hostmin, next⟩
      rw [List.replicate_succ', List.foldl_append, reached]
      rfl
  obtain ⟨after, reached, hosts, hostmin, bits⟩ := filled count (Nat.le_refl count)
  refine ⟨List.replicate count .getIp, ?_⟩
  rw [reached, ← hostmin]
  exact (getIp_next endian after.ippool count bits (by rwa [hosts]) (by rwa [hosts])).1

/-! ## Netmasks -/

/-- A number has a lowest bit that is clear. -/
theorem lowest_clear (n : Nat) : ∃ k rest, n = 2 ^ (k + 1) * rest + (2 ^ k - 1) := by
  induction n using Nat.binaryRec with
  | zero => exact ⟨0, 0, rfl⟩
  | bit last n inductionHypothesis =>
    cases last with
    | false => exact ⟨0, n, by simp [Nat.bit]⟩
    | true =>
      obtain ⟨k, rest, parts⟩ := inductionHypothesis
      have positive := Nat.two_pow_pos k
      have double : 2 ^ (k + 1 + 1) * rest = 2 * (2 ^ (k + 1) * rest) := by
        rw [Nat.pow_succ', Nat.mul_assoc]
      have last : Nat.bit true n = 2 * n + 1 := by simp [Nat.bit]
      refine ⟨k + 1, rest, ?_⟩
      rw [last, double]
      omega

/-- That bit. -/
theorem lowest_clear_bit (k rest : Nat) :
    (2 ^ (k + 1) * rest + (2 ^ k - 1)).testBit k = false := by
  have less : 2 ^ k - 1 < 2 ^ (k + 1) := by
    have positive := Nat.two_pow_pos k
    omega
  rw [Nat.testBit_two_pow_mul_add _ less, if_pos (Nat.lt_succ_self k),
    Nat.testBit_two_pow_sub_one]
  simp

/-- Numbers that differ in a bit of the mask differ under it. -/
theorem masked_apart (x y mask : BitVec 32) (bit : Nat) (kept : mask.getLsbD bit = true)
    (apart : x.getLsbD bit ≠ y.getLsbD bit) : x &&& mask ≠ y &&& mask := by
  intro same
  have bits := congrArg (fun word => word.getLsbD bit) same
  simp only [BitVec.getLsbD_and, kept, Bool.and_true] at bits
  exact apart bits

/-- The bits of a netmask and of its complement. -/
theorem mask_kept (mask : BitVec 32) (k : Nat) (inside : k < 32)
    (clear : (~~~mask).toNat.testBit k = false) : mask.getLsbD k = true := by
  rw [← BitVec.getLsbD, BitVec.getLsbD_not] at clear
  simpa [inside] using clear

/-- A prefix's netmask is the one with this complement. -/
theorem prefixMask_of_ones (mask : BitVec 32) (k : Nat) (most : k ≤ 32)
    (ones : (~~~mask).toNat = 2 ^ k - 1) : mask = prefixMask (32 - k) := by
  have complement := not_prefixMask (32 - k) (by omega)
  rw [show 32 - (32 - k) = k by omega, ← ones] at complement
  exact (BitVec.not_inj.mp (BitVec.eq_of_toNat_eq complement)).symm

/-! ## Pools that leave their network -/

section Escapes
variable {endian : Endian} {address netmask : Text} {value mask : BitVec 32} {ippool : Ippool}
  (new : ippoolNew endian address netmask = some ippool)
  (addressed : inetPton endian address = some (htonl endian value))
  (masked : inetPton endian netmask = some (htonl endian mask))
  (contained : ∀ calls : List PoolCall, Contained endian (htonl endian value)
    (htonl endian mask) (calls.foldl (poolStep endian) { ippool := ippool, inUse := [] }).ippool)
include new addressed masked contained

/-- All addresses that can be handed out agree with the given one under the netmask. -/
theorem contained_agrees (count : Nat) (inside : count ≤ ippool.hosts.toNat)
    (room : count < bitmapBytes ippool.hosts * 8) :
    (ntohl endian ippool.hostmin + BitVec.ofNat 32 count) &&& mask = value &&& mask := by
  obtain ⟨_, _, fresh⟩ := ippoolNew_fields endian address netmask value mask ippool new addressed
    masked
  obtain ⟨calls, got⟩ := gets_address endian ippool count fresh inside room
  obtain ⟨word, read, agrees, _⟩ := (contained calls).host _ got
  rw [inetAton_inetNtoa] at read
  obtain rfl := Option.some.inj read
  rw [← htonl_and, ← htonl_and] at agrees
  exact htonl_injective endian _ _ agrees

/-- The netmask leaves two addresses in the last octet. -/
theorem contained_spacious : 2 ≤ (~~~mask).toNat % 256 := by
  by_contra tight
  obtain ⟨hosts, _⟩ := ippoolNew_fields endian address netmask value mask ippool new addressed
    masked
  -- The number of hosts wraps around, or borrows from the next octet.
  have many : 2 ≤ ippool.hosts.toNat := by
    have wide := (~~~mask).isLt
    have two : (2 : BitVec 32).toNat = 2 := rfl
    rw [hosts, BitVec.toNat_sub, two]
    omega
  have room : 2 < bitmapBytes ippool.hosts * 8 := by
    unfold bitmapBytes
    omega
  have kept : mask.getLsbD 1 = true := by
    apply mask_kept mask 1 (by decide)
    rw [Nat.testBit_eq_decide_div_mod_eq, decide_eq_false_iff_not]
    omega
  have first := contained_agrees new addressed masked contained 0 (by omega) (by omega)
  have third := contained_agrees new addressed masked contained 2 many room
  refine masked_apart _ _ mask 1 kept ?_ (first.trans third.symm)
  generalize ntohl endian ippool.hostmin = least
  have wide := least.isLt
  rw [BitVec.getLsbD, BitVec.getLsbD, BitVec.toNat_add, BitVec.toNat_add, BitVec.toNat_ofNat,
    BitVec.toNat_ofNat, Nat.testBit_eq_decide_div_mod_eq, Nat.testBit_eq_decide_div_mod_eq]
  simp only [ne_eq, decide_eq_decide]
  omega

/-- There is a host. -/
theorem contained_hosts : (~~~mask).toNat ≠ 2 := by
  intro alone
  obtain ⟨hosts, _, fresh⟩ := ippoolNew_fields endian address netmask value mask ippool new
    addressed masked
  have empty : ippool.hosts = 0 := by
    rw [hosts, ← BitVec.toNat_inj, BitVec.toNat_sub, alone]
    rfl
  have outside := (contained []).releaseInside
    (inetNtoa endian (htonl endian (ntohl endian ippool.hostmin))) 0
  simp [releaseIpAccesses, inetAton_inetNtoa, fresh, empty, bitmapBytes] at outside

/-- The netmask is that of a prefix. -/
theorem contained_prefix : ∃ length, length ≤ 30 ∧ mask = prefixMask length := by
  have spacious := contained_spacious new addressed masked contained
  have several := contained_hosts new addressed masked contained
  obtain ⟨hosts, hostmin, _⟩ := ippoolNew_fields endian address netmask value mask ippool new
    addressed masked
  obtain ⟨fewer, least⟩ := ipcalcWords_spacious endian value mask spacious
  rw [ipcalcWords_hosts, ← hosts] at fewer
  rw [← hostmin] at least
  obtain ⟨k, rest, parts⟩ := lowest_clear (~~~mask).toNat
  have wide := (~~~mask).isLt
  have positive := Nat.two_pow_pos k
  cases rest with
  | zero =>
    rw [Nat.mul_zero, Nat.zero_add] at parts
    have large : 2 ≤ k := by
      by_contra small
      have cases : k = 0 ∨ k = 1 := by omega
      rcases cases with rfl | rfl <;> omega
    have most : k ≤ 32 := by
      have within : 2 ^ k ≤ 2 ^ 32 := by omega
      exact (Nat.pow_le_pow_iff_right (by decide)).mp within
    exact ⟨32 - k, by omega, prefixMask_of_ones mask k most parts⟩
  | succ rest =>
    exfalso
    have beyond : 2 * 2 ^ k + (2 ^ k - 1) ≤ (~~~mask).toNat := by
      rw [parts, Nat.mul_succ, Nat.pow_succ]
      omega
    have inside : k < 32 := by
      have within : 2 ^ k < 2 ^ 32 := by omega
      exact (Nat.pow_lt_pow_iff_right (by decide)).mp within
    have kept := mask_kept mask k inside (by rw [parts]; exact lowest_clear_bit k _)
    have index : 2 ^ k - 1 < ippool.hosts.toNat := by omega
    have room : 2 ^ k - 1 < bitmapBytes ippool.hosts * 8 := by
      unfold bitmapBytes
      omega
    have agrees := contained_agrees new addressed masked contained (2 ^ k - 1)
      (Nat.le_of_lt index) room
    -- The address that far behind the network address differs from it in the clear bit.
    have network : (value ||| ~~~mask).toNat < 2 ^ 32 := (value ||| ~~~mask).isLt
    rw [or_not_toNat] at network
    have reached : (ntohl endian ippool.hostmin + BitVec.ofNat 32 (2 ^ k - 1)).toNat =
        2 ^ k + (value &&& mask).toNat := by
      rw [BitVec.toNat_add, least, BitVec.toNat_ofNat]
      omega
    refine masked_apart _ _ mask k kept ?_ agrees
    rw [BitVec.getLsbD, reached, Nat.testBit_two_pow_add_eq, ← BitVec.getLsbD,
      BitVec.getLsbD_and, kept, Bool.and_true]
    simp

end Escapes

/-! ## Pools of prefixes -/

/-- Calls leave everything of a pool but its bitmap. -/
theorem calls_fields (endian : Endian) (ledger : Ledger) (calls : List PoolCall) :
    (calls.foldl (poolStep endian) ledger).ippool.hosts = ledger.ippool.hosts ∧
      (calls.foldl (poolStep endian) ledger).ippool.hostmin = ledger.ippool.hostmin := by
  induction calls generalizing ledger with
  | nil => exact ⟨rfl, rfl⟩
  | cons call rest inductionHypothesis =>
    obtain ⟨hosts, hostmin⟩ := inductionHypothesis (poolStep endian ledger call)
    rw [List.foldl_cons, hosts, hostmin]
    cases call with
    | getIp => exact ⟨rfl, rfl⟩
    | releaseIp ip =>
      simp only [poolStep, ippoolReleaseIp]
      cases inetAton endian ip with
      | none => exact ⟨rfl, rfl⟩
      | some addr => exact ⟨rfl, rfl⟩

section Prefixes
variable (length : Nat) (most : length ≤ 30)
include most

/-- The two lowest bits are not in the netmask. -/
theorem prefixMask_fourfold : (~~~prefixMask length).toNat % 4 = 3 := by
  have ones := not_prefixMask length (by omega)
  have fourfold : (2 ^ 2 : Nat) ∣ 2 ^ (32 - length) := Nat.pow_dvd_pow 2 (by omega)
  have positive := Nat.two_pow_pos (32 - length)
  omega

/-- A number of a prefix's hosts has no bit of the netmask. -/
theorem prefixMask_below (number : BitVec 32)
    (small : number.toNat ≤ (~~~prefixMask length).toNat) : number &&& prefixMask length = 0 := by
  have ones := not_prefixMask length (by omega)
  have positive := Nat.two_pow_pos (32 - length)
  apply BitVec.eq_of_getLsbD_eq
  intro bit inside
  rw [BitVec.getLsbD_and]
  by_cases low : bit < 32 - length
  · have clear : (prefixMask length).getLsbD bit = false := by
      have set := congrArg (fun n => Nat.testBit n bit) ones
      rw [Nat.testBit_two_pow_sub_one, decide_eq_true low, ← BitVec.getLsbD,
        BitVec.getLsbD_not] at set
      simpa [inside] using set
    simp [clear]
  · have clear : number.getLsbD bit = false := by
      have bounded : 2 ^ (32 - length) ≤ 2 ^ bit :=
        Nat.pow_le_pow_right (by decide) (Nat.not_lt.mp low)
      exact Nat.testBit_lt_two_pow (by omega)
    simp [clear]

/-- An address that far behind the network address agrees with it. -/
theorem prefixMask_agrees (value number : BitVec 32)
    (small : number.toNat ≤ (~~~prefixMask length).toNat) :
    (value &&& prefixMask length) + number &&& prefixMask length = value &&& prefixMask length := by
  have below := prefixMask_below length most number small
  have apart : value &&& prefixMask length &&& number = 0 := by
    rw [BitVec.and_assoc, BitVec.and_comm (prefixMask length), below]
    exact BitVec.and_zero
  rw [BitVec.add_eq_or_of_and_eq_zero _ _ apart, BitVec.and_comm, BitVec.and_or_distrib_left,
    BitVec.and_comm _ number, below, BitVec.and_comm _ (value &&& _), BitVec.and_assoc,
    BitVec.and_self]
  exact BitVec.or_zero

theorem prefix_contained (endian : Endian) (value : BitVec 32) (ippool : Ippool)
    (hosts : ippool.hosts.toNat = (~~~prefixMask length).toNat - 2)
    (hostmin : (ntohl endian ippool.hostmin).toNat = (value &&& prefixMask length).toNat + 1) :
    Contained endian (htonl endian value) (htonl endian (prefixMask length)) ippool := by
  have fourfold := prefixMask_fourfold length most
  have spare : ippool.hosts.toNat % 8 ≠ 0 := by omega
  obtain ⟨getInside, releaseInside⟩ := accesses_inside endian ippool spare
  refine ⟨?_, getInside, releaseInside⟩
  intro ip got
  obtain ⟨bit, found, rfl⟩ := Option.map_eq_some_iff.mp got
  have inside : bit.toNat ≤ ippool.hosts.toNat := by
    rcases allocateBit_cases ippool.pool ippool.hosts with ⟨_, same⟩ | ⟨_, _, same⟩ | ⟨_, low, same⟩
    · rw [same] at found
      cases found
    · rw [same] at found
      cases found
    · rw [same] at found
      obtain rfl := Option.some.inj found
      exact low
  have last := (value ||| ~~~prefixMask length).isLt
  have parts := or_not_toNat value (prefixMask length)
  rw [parts] at last
  have one : (1 : BitVec 32).toNat = 1 := rfl
  have reached : ntohl endian ippool.hostmin + bit =
      (value &&& prefixMask length) + (1 + bit) := by
    apply BitVec.eq_of_toNat_eq
    simp only [BitVec.toNat_add, hostmin, one]
    omega
  have number : (1 + bit).toNat = 1 + bit.toNat := by
    rw [BitVec.toNat_add, one]
    omega
  have value' : ((value &&& prefixMask length) + (1 + bit)).toNat =
      (value &&& prefixMask length).toNat + 1 + bit.toNat := by
    rw [BitVec.toNat_add, number]
    omega
  refine ⟨_, inetAton_inetNtoa endian _, ?_, ?_, ?_⟩
  · rw [← htonl_and, ← htonl_and, reached, prefixMask_agrees length most value (1 + bit) (by omega)]
  · rw [← htonl_and, reached]
    intro same
    have equal := congrArg BitVec.toNat (htonl_injective endian _ _ same)
    omega
  · rw [← htonl_not, ← htonl_or, reached]
    intro same
    have equal := congrArg BitVec.toNat (htonl_injective endian _ _ same)
    omega

end Prefixes

/-- A pool stays in its network and in its bitmap, whatever the calls, exactly when its netmask is
that of a prefix of at most 30 bits.

Proof: in a pool that stays inside, the complement of the mask has no gap: behind its lowest
ones there would be an index whose address differs from the network's in a bit of the mask. So
the mask is that of a prefix, with two clear bits at least, and for such a mask the hosts are
those of the subnet. -/
theorem pool_contained_iff (endian : Endian) (address netmask : Text) (value mask : BitVec 32)
    (ippool : Ippool) (new : ippoolNew endian address netmask = some ippool)
    (addressed : inetPton endian address = some (htonl endian value))
    (masked : inetPton endian netmask = some (htonl endian mask)) :
    (∀ calls : List PoolCall, Contained endian (htonl endian value) (htonl endian mask)
      (calls.foldl (poolStep endian) { ippool := ippool, inUse := [] }).ippool) ↔
      ∃ length, length ≤ 30 ∧ mask = prefixMask length := by
  constructor
  · exact contained_prefix new addressed masked
  · rintro ⟨length, most, rfl⟩ calls
    obtain ⟨hosts, hostmin, _⟩ := ippoolNew_fields endian address netmask value _ ippool new
      addressed masked
    have fourfold := prefixMask_fourfold length most
    obtain ⟨fewer, least⟩ := ipcalcWords_spacious endian value (prefixMask length) (by omega)
    rw [ipcalcWords_hosts, ← hosts] at fewer
    rw [← hostmin] at least
    obtain ⟨sameHosts, sameMin⟩ := calls_fields endian { ippool := ippool, inUse := [] } calls
    refine prefix_contained length most endian value _ ?_ ?_
    · rw [sameHosts]
      exact fewer
    · rw [sameMin]
      exact least

/-- Two dotted quads have a pool. -/
theorem ippoolNew_defined (endian : Endian) (address netmask : Text) (value mask : BitVec 32)
    (addressed : inetPton endian address = some value)
    (masked : inetPton endian netmask = some mask) :
    ∃ ippool, ippoolNew endian address netmask = some ippool := by
  simp only [ippoolNew, ipcalc, inetPton_ones, addressed, masked, Option.bind_eq_bind,
    Option.bind_some]
  exact ⟨_, rfl⟩

/-- The pool of a prefix of 30 bits. -/
theorem pool_contained_small : ∃ ippool,
    ippoolNew .little "10.0.0.0".toList "255.255.255.252".toList = some ippool ∧
    ∀ calls : List PoolCall, Contained .little (htonl .little 0x0a000000)
      (htonl .little 0xfffffffc)
      (calls.foldl (poolStep .little) { ippool := ippool, inUse := [] }).ippool := by
  have addressed : inetPton .little "10.0.0.0".toList = some (htonl .little 0x0a000000) := by decide
  have masked : inetPton .little "255.255.255.252".toList = some (htonl .little 0xfffffffc) := by
    decide
  obtain ⟨ippool, new⟩ := ippoolNew_defined .little _ _ _ _ addressed masked
  exact ⟨ippool, new, (pool_contained_iff .little _ _ _ _ ippool new addressed masked).mpr
    ⟨30, Nat.le_refl 30, by decide⟩⟩

/-- The pool of a prefix of 31 bits. -/
theorem pool_escapes : ∃ ippool,
    ippoolNew .little "10.0.0.0".toList "255.255.255.254".toList = some ippool ∧
    ¬ ∀ calls : List PoolCall, Contained .little (htonl .little 0x0a000000)
      (htonl .little 0xfffffffe)
      (calls.foldl (poolStep .little) { ippool := ippool, inUse := [] }).ippool := by
  have addressed : inetPton .little "10.0.0.0".toList = some (htonl .little 0x0a000000) := by decide
  have masked : inetPton .little "255.255.255.254".toList = some (htonl .little 0xfffffffe) := by
    decide
  obtain ⟨ippool, new⟩ := ippoolNew_defined .little _ _ _ _ addressed masked
  refine ⟨ippool, new, fun contained => ?_⟩
  have spacious := contained_spacious new addressed masked contained
  revert spacious
  decide

end NetVirt.IpPool
