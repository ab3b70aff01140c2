import NetVirt.IpPool
import NetVirt.Runs
import Mathlib.Tactic.IntervalCases

/-!
# The law of address pools

The pool of a subnet hands out its host addresses, the lowest one that is not in use, and
takes back what names one of them. `ipcalc` subtracts words in network order; no octet
borrows there, so the words are those of the numbers on any machine.
-/

namespace NetVirt.IpPool

open Bitmaps Inet Runs

/-! ## Subnets -/

/-- The netmask of a prefix length. -/
def prefixMask (length : Nat) : BitVec 32 := BitVec.allOnes 32 <<< (32 - length)

/-- The network address of an address, as a number. -/
def networkAddress (address : BitVec 32) (length : Nat) : Nat :=
  address.toNat / 2 ^ (32 - length) * 2 ^ (32 - length)

/-- The broadcast address. -/
def broadcastAddress (address : BitVec 32) (length : Nat) : Nat :=
  networkAddress address length + 2 ^ (32 - length) - 1

/-- The complement of a netmask has the bits of the hosts. -/
theorem not_prefixMask : ∀ length, length ≤ 32 →
    (~~~prefixMask length).toNat = 2 ^ (32 - length) - 1 := by
  decide

/-- A number with its last bits set. -/
theorem or_ones (n k : Nat) : n ||| (2 ^ k - 1) = n / 2 ^ k * 2 ^ k + (2 ^ k - 1) := by
  have positive : 0 < 2 ^ k := Nat.two_pow_pos k
  have quotient : (n ||| (2 ^ k - 1)) / 2 ^ k = n / 2 ^ k := by
    rw [Nat.or_div_two_pow, Nat.div_eq_of_lt (by omega : 2 ^ k - 1 < 2 ^ k), Nat.or_zero]
  have remainder : (n ||| (2 ^ k - 1)) % 2 ^ k = 2 ^ k - 1 := by
    apply Nat.eq_of_testBit_eq
    intro bit
    rw [Nat.testBit_mod_two_pow, Nat.testBit_or, Nat.testBit_two_pow_sub_one]
    by_cases inside : bit < k
    · simp [inside]
    · simp [inside]
  rw [← Nat.div_add_mod' (n ||| (2 ^ k - 1)) (2 ^ k), quotient, remainder]

/-- Words in network order are complemented octet by octet. -/
theorem allOnes_sub_htonl (endian : Endian) (mask : BitVec 32) :
    htonl endian (BitVec.allOnes 32) - htonl endian mask = htonl endian (~~~mask) := by
  rw [htonl_not, ← BitVec.allOnes_sub_eq_not]
  cases endian with
  | little =>
    have same : byteSwap (BitVec.allOnes 32) = BitVec.allOnes 32 := by decide
    simp only [htonl, same]
  | big => rfl

/-- The last address under a mask is the first one and the number of those between. -/
theorem or_not_toNat (value mask : BitVec 32) :
    (value ||| ~~~mask).toNat = (value &&& mask).toNat + (~~~mask).toNat := by
  have apart : (value &&& mask) &&& ~~~mask = 0 := by
    rw [BitVec.and_assoc, BitVec.and_not_self]
    exact BitVec.and_zero
  have union : value ||| ~~~mask = (value &&& mask) ||| ~~~mask := by
    ext bit inside
    simp only [BitVec.getElem_or, BitVec.getElem_and, BitVec.getElem_not]
    cases value[bit] <;> cases mask[bit] <;> rfl
  rw [union, ← BitVec.add_eq_or_of_and_eq_zero _ _ apart, BitVec.toNat_add_of_and_eq_zero apart]

/-- An octet of a union is no smaller than that of a part. -/
theorem octet_or (x y : BitVec 32) (shift : Nat) :
    y.toNat / 2 ^ shift % 2 ^ 8 ≤ (x ||| y).toNat / 2 ^ shift % 2 ^ 8 := by
  rw [BitVec.toNat_or, Nat.or_div_two_pow, Nat.or_mod_two_pow]
  exact Nat.right_le_or

/-- Less than its last octet taken from a number leaves the other octets alone. -/
theorem octets_less (n d : Nat) (small : d ≤ n % 256) :
    (n - d) / 2 ^ 24 = n / 2 ^ 24 ∧ (n - d) / 2 ^ 16 % 256 = n / 2 ^ 16 % 256 ∧
      (n - d) / 2 ^ 8 % 256 = n / 2 ^ 8 % 256 ∧ (n - d) % 256 = n % 256 - d := by
  refine ⟨?_, ?_, ?_, ?_⟩ <;> omega

theorem toNat_sub_small (word : BitVec 32) (d : Nat) (small : d ≤ word.toNat % 256) :
    (word - BitVec.ofNat 32 d).toNat = word.toNat - d := by
  have bounded := word.isLt
  have same : (BitVec.ofNat 32 d).toNat = d := by
    rw [BitVec.toNat_ofNat]
    omega
  rw [BitVec.toNat_sub_of_le (by rw [BitVec.le_def, same]; omega), same]

/-- The last address covers the number of those that a mask leaves. -/
theorem or_covers (value mask : BitVec 32) : Covers (value ||| ~~~mask) (~~~mask) :=
  { first := Nat.div_le_div_right (by rw [or_not_toNat]; exact Nat.le_add_left _ _)
    second := octet_or value (~~~mask) 16
    third := octet_or value (~~~mask) 8
    fourth := by simpa using octet_or value (~~~mask) 0 }

/-- The last host covers the number of the others, less one. -/
theorem covers_hosts {highest ones : BitVec 32} (covers : Covers highest ones)
    (spacious : 2 ≤ ones.toNat % 256) : Covers (highest - 1) (ones - 2) := by
  have occupied : 1 ≤ highest.toNat % 256 := Nat.le_of_succ_le (spacious.trans covers.fourth)
  have before : (highest - 1).toNat = highest.toNat - 1 := toNat_sub_small highest 1 occupied
  have fewer : (ones - 2).toNat = ones.toNat - 2 := toNat_sub_small ones 2 spacious
  obtain ⟨a, b, c, d⟩ := octets_less highest.toNat 1 occupied
  obtain ⟨a', b', c', d'⟩ := octets_less ones.toNat 2 spacious
  refine ⟨?_, ?_, ?_, ?_⟩
  · rw [fewer, before, a, a']
    exact covers.first
  · rw [fewer, before, b, b']
    exact covers.second
  · rw [fewer, before, c, c']
    exact covers.third
  · rw [fewer, before, d, d']
    exact (Nat.sub_le_sub_right covers.fourth 2).trans (Nat.sub_le_sub_left (by decide) _)

/-- From a last address that covers the number of those that a mask leaves, the hosts are counted
back without a borrow. -/
theorem hostmin_words (endian : Endian) {highest ones : BitVec 32} (covers : Covers highest ones)
    (spacious : 2 ≤ ones.toNat % 256) :
    htonl endian highest - htonl endian 1 - htonl endian (ones - 2) =
      htonl endian (highest - 1 - (ones - 2)) := by
  have one : Covers highest 1 :=
    covers_small highest 1 (Nat.le_of_succ_le (spacious.trans covers.fourth))
  rw [one.htonl_sub endian, (covers_hosts covers spacious).htonl_sub endian]

theorem counted_back (network ones highest : Nat) (parts : highest = network + ones)
    (spacious : 2 ≤ ones) :
    ones - 2 ≤ highest - 1 ∧ highest - 1 - (ones - 2) = network + 1 := by
  omega

section Words
variable (endian : Endian) (value mask : BitVec 32)

/-- The number of hosts does not depend on the machine. -/
theorem ipcalcWords_hosts : (ipcalcWords endian (htonl endian (BitVec.allOnes 32))
    (htonl endian value) (htonl endian mask)).hosts = ~~~mask - 2 := by
  simp only [ipcalcWords, allOnes_sub_htonl, ntohl_htonl]

variable (spacious : 2 ≤ (~~~mask).toNat % 256)
include spacious

/-- With two addresses in the last octet there are as many hosts as addresses, less two, and the
first host is the one behind the network address. -/
theorem ipcalcWords_spacious :
    (ipcalcWords endian (htonl endian (BitVec.allOnes 32)) (htonl endian value)
      (htonl endian mask)).hosts.toNat = (~~~mask).toNat - 2 ∧
    (ntohl endian (ipcalcWords endian (htonl endian (BitVec.allOnes 32)) (htonl endian value)
      (htonl endian mask)).hostmin).toNat = (value &&& mask).toNat + 1 := by
  have parts := or_not_toNat value mask
  have covers := or_covers value mask
  have words := hostmin_words endian covers spacious
  have occupied : 1 ≤ (value ||| ~~~mask).toNat % 256 :=
    Nat.le_of_succ_le (spacious.trans covers.fourth)
  have fewer : (~~~mask - 2).toNat = (~~~mask).toNat - 2 := toNat_sub_small _ 2 spacious
  have before : ((value ||| ~~~mask) - 1).toNat = (value ||| ~~~mask).toNat - 1 :=
    toNat_sub_small _ 1 occupied
  rw [ipcalcWords_hosts]
  refine ⟨fewer, ?_⟩
  simp only [ipcalcWords, allOnes_sub_htonl, ntohl_htonl, ← htonl_not, ← htonl_or, words]
  obtain ⟨larger, host⟩ := counted_back _ _ _ parts (spacious.trans (Nat.mod_le _ _))
  rw [← fewer, ← before] at larger
  rw [BitVec.toNat_sub_of_le larger, fewer, before, host]

end Words

/-- The last byte of the bitmap has spare bits, and the subnet ends where the addresses end at
the latest. -/
theorem subnet_bounds (k n : Nat) (least : 2 ≤ k) (most : k ≤ 31) (bounded : n < 2 ^ 32) :
    (2 ^ k - 3) % 8 ≠ 0 ∧ n / 2 ^ k * 2 ^ k + 2 ^ k ≤ 2 ^ 32 := by
  interval_cases k <;> omega

theorem inetPton_ones (endian : Endian) : inetPton endian "255.255.255.255".toList =
    some (htonl endian (BitVec.allOnes 32)) := by
  cases endian <;> decide

section Subnet
variable (endian : Endian) (address netmask : Text) (value : BitVec 32) (length : Nat)
  (least : 1 ≤ length) (most : length ≤ 30)
  (addressed : inetPton endian address = some (htonl endian value))
  (masked : inetPton endian netmask = some (htonl endian (prefixMask length)))
include least most addressed masked

/-- The hosts of a subnet, as `ipcalc` computes them. -/
theorem ipcalc_subnet : ∃ fields, ipcalc endian address netmask = some fields ∧
    fields.hosts.toNat = 2 ^ (32 - length) - 3 ∧
    (ntohl endian fields.hostmin).toNat = networkAddress value length + 1 := by
  have ones := inetPton_ones endian
  obtain ⟨k, short, low⟩ : ∃ k, 32 - length = k ∧ 2 ≤ k := ⟨32 - length, rfl, by omega⟩
  have power : 2 ^ 2 ≤ 2 ^ k := Nat.pow_le_pow_right (by decide) low
  have hosts : (~~~prefixMask length).toNat = 2 ^ k - 1 :=
    short ▸ not_prefixMask length (by omega)
  have network : (value &&& prefixMask length).toNat = networkAddress value length := by
    have parts := or_not_toNat value (prefixMask length)
    rw [BitVec.toNat_or, hosts, or_ones] at parts
    rw [networkAddress, short]
    omega
  have spacious : 2 ≤ (~~~prefixMask length).toNat % 256 := by
    have split : (2 ^ 2 : Nat) ∣ 2 ^ k := Nat.pow_dvd_pow 2 low
    rw [hosts]
    omega
  obtain ⟨fewer, least⟩ := ipcalcWords_spacious endian value (prefixMask length) spacious
  refine ⟨_, ?_, fewer.trans (by rw [hosts, short]; omega), least.trans (by rw [network])⟩
  simp only [ipcalc, ones, addressed, masked, Option.bind_eq_bind, Option.bind_some]
  rfl

end Subnet

/-! ## Runs -/

inductive PoolCall where
  | getIp
  | releaseIp (ip : Text)
deriving DecidableEq

/-- A pool, and the addresses that were handed out of it and not released since. -/
structure Ledger where
  ippool : Ippool
  inUse : List Nat

def poolStep (endian : Endian) (ledger : Ledger) : PoolCall → Ledger
  | .getIp =>
    let (ippool, ip) := ippoolGetIp endian ledger.ippool
    { ippool := ippool, inUse := (ip.bind (named endian)).toList ++ ledger.inUse }
  | .releaseIp ip =>
    { ippool := ippoolReleaseIp endian ledger.ippool ip
      inUse := ledger.inUse.filter fun value => named endian ip ≠ some value }

/-- The bits of a pool say which of its addresses are in use. -/
structure Booked (endian : Endian) (first count : Nat) (ledger : Ledger) : Prop where
  spans : Spans endian ledger.ippool first count
  distinct : ledger.inUse.Nodup
  booked : ∀ value, value ∈ ledger.inUse ↔
    first ≤ value ∧ value < first + count ∧ getBit ledger.ippool.pool (value - first) = true

section Booked
variable {endian : Endian} {first count : Nat} {ledger : Ledger}
  (booked : Booked endian first count ledger)
include booked

/-- Handing out an address adds one that was not in use. -/
theorem getIp_booked : Booked endian first count (poolStep endian ledger .getIp) := by
  obtain ⟨spans, distinct, bits⟩ := booked
  have bounded := spans.bounded
  rcases ippoolGetIp_spec spans with ⟨nothing, same, _⟩ | ⟨bit, inside, ip, same, clear, _⟩
  · refine ⟨?_, ?_, ?_⟩
    · exact { spans with }
    · simp [poolStep, nothing, distinct]
    · intro value
      simp [poolStep, nothing, same, bits]
  · have name := named_hostText endian (first + bit) (by omega)
    have fresh : first + bit ∉ ledger.inUse := by
      rw [bits]
      simp [clear]
    have stored : bit / 8 < ledger.ippool.pool.length := by
      have allocated := ledger.ippool.allocated
      have hosts := spans.hosts
      have spare := spans.spare
      unfold bitmapBytes at allocated
      omega
    refine ⟨?_, ?_, ?_⟩
    · exact { spans with }
    · simp [poolStep, ip, name, distinct, fresh]
    · intro value
      simp only [poolStep, ip, Option.bind_some, name, Option.toList_some, List.cons_append,
        List.nil_append, List.mem_cons, bits, same, getBit_setBit _ _ _ stored, Bool.or_eq_true,
        decide_eq_true_eq]
      by_cases own : value = first + bit
      · simp only [own, true_or, true_iff]
        exact ⟨by omega, by omega, Or.inr (by omega)⟩
      · have other : first ≤ value → value - first ≠ bit := by omega
        constructor
        · rintro (same | ⟨low, high, set⟩)
          · exact absurd same own
          · exact ⟨low, high, Or.inl set⟩
        · rintro ⟨low, high, set⟩
          exact Or.inr ⟨low, high, set.resolve_right (other low)⟩

/-- Releasing an address takes it out of use. -/
theorem releaseIp_booked (ip : Text) :
    Booked endian first count (poolStep endian ledger (.releaseIp ip)) := by
  obtain ⟨spans, distinct, bits⟩ := booked
  refine ⟨ippoolReleaseIp_spans spans ip, distinct.filter _, ?_⟩
  intro value
  obtain ⟨host, foreign⟩ := ippoolReleaseIp_spec spans ip
  simp only [poolStep, List.mem_filter, bits, decide_eq_true_eq]
  by_cases inside : ∃ freed, named endian ip = some freed ∧ first ≤ freed ∧ freed < first + count
  · obtain ⟨freed, name, low, high⟩ := inside
    have apart : first ≤ value → (value - first ≠ freed - first ↔ ¬ freed = value) := by omega
    simp only [host freed name low high, getBit_clearBit, Bool.and_eq_true, decide_eq_true_eq,
      name, ne_eq, Option.some.injEq]
    constructor
    · rintro ⟨⟨low, high, set⟩, other⟩
      exact ⟨low, high, set, (apart low).mpr other⟩
    · rintro ⟨low, high, set, other⟩
      exact ⟨⟨low, high, set⟩, (apart low).mp other⟩
  · rw [foreign fun freed name bounds => inside ⟨freed, name, bounds⟩]
    constructor
    · exact And.left
    · rintro ⟨low, high, set⟩
      exact ⟨⟨low, high, set⟩, fun name => inside ⟨value, name, low, high⟩⟩

end Booked

/-- Every call keeps the ledger booked, so every run of calls does. -/
theorem calls_booked (endian : Endian) (first count : Nat) (ledger : Ledger)
    (calls : List PoolCall) (booked : Booked endian first count ledger) :
    Booked endian first count (calls.foldl (poolStep endian) ledger) := by
  induction calls generalizing ledger with
  | nil => exact booked
  | cons call rest inductionHypothesis =>
    cases call with
    | getIp => exact inductionHypothesis _ (getIp_booked booked)
    | releaseIp ip => exact inductionHypothesis _ (releaseIp_booked booked ip)

/-- The accesses of a call are to bytes that the bitmap has. -/
theorem accesses_inside (endian : Endian) (ippool : Ippool) (spare : ippool.hosts.toNat % 8 ≠ 0) :
    (∀ byte ∈ getIpAccesses ippool, byte < ippool.pool.length) ∧
      ∀ ip, ∀ byte ∈ releaseIpAccesses endian ippool ip, byte < ippool.pool.length := by
  have allocated := ippool.allocated
  have last : ∀ bit, bit ≤ ippool.hosts.toNat → bit / 8 < ippool.pool.length := by
    intro bit inside
    unfold bitmapBytes at allocated
    omega
  constructor
  · intro byte accessed
    simp only [getIpAccesses, List.mem_append, List.mem_range] at accessed
    rcases accessed with searched | found
    · omega
    · split at found
      · cases found
      · next short =>
        obtain ⟨inside, small, _⟩ := firstClear ippool.pool _ allocated short
        rcases List.mem_append.mp found with tested | written
        · obtain ⟨bit, within, rfl⟩ := List.mem_map.mp tested
          have early := List.mem_range.mp within
          omega
        · split at written
          · cases written
          · next bounded =>
            rw [List.mem_singleton.mp written]
            exact last _ (Nat.not_lt.mp bounded)
  · intro ip byte accessed
    unfold releaseIpAccesses at accessed
    cases read : inetAton endian ip with
    | none => simp [read] at accessed
    | some addr =>
      simp only [read] at accessed
      split at accessed
      · next inside =>
        rw [List.mem_singleton.mp accessed]
        exact last _ inside
      · cases accessed

/-- What the pool of a subnet guarantees after any calls. -/
structure Lawful (endian : Endian) (network broadcast : Nat) (ledger : Ledger) : Prop where
  distinct : ledger.inUse.Nodup
  hosts : ∀ value ∈ ledger.inUse, network < value ∧ value < broadcast
  lowest : ∀ ip, (ippoolGetIp endian ledger.ippool).2 = some ip → ∃ value, ip = hostText value ∧
    named endian ip = some value ∧ network < value ∧ value < broadcast ∧
      value ∉ ledger.inUse ∧ ∀ lower, network < lower → lower < value → lower ∈ ledger.inUse
  exhausted : (ippoolGetIp endian ledger.ippool).2 = none ↔
    ∀ value, network < value → value < broadcast → value ∈ ledger.inUse
  stored : ∀ value, network < value → value < broadcast →
    (value ∈ ledger.inUse ↔ getBit ledger.ippool.pool (value - network - 1) = true)
  freed : ∀ ip value, named endian ip = some value → network < value → value < broadcast →
    (ippoolReleaseIp endian ledger.ippool ip).pool =
      clearBit ledger.ippool.pool (value - network - 1)
  foreign : ∀ ip, (∀ value, named endian ip = some value → ¬ (network < value ∧
    value < broadcast)) → (ippoolReleaseIp endian ledger.ippool ip).pool = ledger.ippool.pool
  getInside : ∀ byte ∈ getIpAccesses ledger.ippool, byte < ledger.ippool.pool.length
  releaseInside : ∀ ip, ∀ byte ∈ releaseIpAccesses endian ledger.ippool ip,
    byte < ledger.ippool.pool.length

/-- A booked pool is lawful. -/
theorem Booked.lawful {endian : Endian} {network broadcast : Nat} {ledger : Ledger}
    (booked : Booked endian (network + 1) (broadcast - network - 1) ledger) :
    Lawful endian network broadcast ledger := by
  obtain ⟨spans, distinct, bits⟩ := booked
  have bounded := spans.bounded
  have allocated := spans.hosts
  obtain ⟨getInside, releaseInside⟩ := accesses_inside endian ledger.ippool spans.spare
  have used : ∀ value, network < value → value < broadcast →
      (value ∈ ledger.inUse ↔ getBit ledger.ippool.pool (value - network - 1) = true) := by
    intro value low high
    rw [bits, Nat.sub_sub]
    exact ⟨fun ⟨_, _, set⟩ => set, fun set => ⟨by omega, by omega, set⟩⟩
  have outcome := ippoolGetIp_spec spans
  constructor
  case distinct => exact distinct
  case hosts =>
    intro value inside
    have bounds := (bits value).mp inside
    omega
  case lowest =>
    intro ip got
    rcases outcome with ⟨nothing, _⟩ | ⟨bit, inside, text, _, clear, set⟩
    · rw [nothing] at got
      cases got
    · obtain rfl := Option.some.inj (got.symm.trans text)
      refine ⟨network + 1 + bit, rfl, named_hostText endian _ (by omega), by omega, by omega,
        ?_, ?_⟩
      · rw [bits]
        simp [clear]
      · intro lower low high
        rw [bits]
        exact ⟨by omega, by omega, set _ (by omega)⟩
  case exhausted =>
    rcases outcome with ⟨nothing, _, full⟩ | ⟨bit, inside, text, _, clear, _⟩
    · refine iff_of_true nothing fun value low high => ?_
      rw [bits]
      exact ⟨by omega, by omega, full _ (by omega)⟩
    · refine iff_of_false (by simp [text]) fun all => ?_
      have set := (bits _).mp (all (network + 1 + bit) (by omega) (by omega))
      simp [clear] at set
  case stored => exact used
  case freed =>
    intro ip value name low high
    rw [(ippoolReleaseIp_spec spans ip).1 value name (by omega) (by omega), Nat.sub_sub]
  case foreign =>
    intro ip outside
    refine (ippoolReleaseIp_spec spans ip).2 fun value name bounds => outside value name ?_
    omega
  case getInside => exact getInside
  case releaseInside => exact releaseInside

/-- The pool of every subnet is lawful after any calls.

Proof: ipcalc computes the addresses of the subnet, so the new pool is booked with no address
in use. Every call keeps the booking, and what is booked is lawful. -/
theorem pool_law (endian : Endian) (address netmask : Text) (value : BitVec 32) (length : Nat)
    (least : 1 ≤ length) (most : length ≤ 30)
    (addressed : inetPton endian address = some (htonl endian value))
    (masked : inetPton endian netmask = some (htonl endian (prefixMask length))) :
    ∃ ippool, ippoolNew endian address netmask = some ippool ∧ ∀ calls : List PoolCall,
      Lawful endian (networkAddress value length) (broadcastAddress value length)
        (calls.foldl (poolStep endian) { ippool := ippool, inUse := [] }) := by
  obtain ⟨fields, computed, hosts, hostmin⟩ :=
    ipcalc_subnet endian address netmask value length least most addressed masked
  refine ⟨_, by rw [ippoolNew, computed, Option.map_some], fun calls => ?_⟩
  have power : 2 ^ 2 ≤ 2 ^ (32 - length) ∧ 2 ^ (32 - length) ≤ 2 ^ 31 :=
    ⟨Nat.pow_le_pow_right (by decide) (by omega), Nat.pow_le_pow_right (by decide) (by omega)⟩
  have count : broadcastAddress value length - networkAddress value length - 1 =
      2 ^ (32 - length) - 2 := by
    unfold broadcastAddress
    omega
  obtain ⟨spare, bounded⟩ := subnet_bounds (32 - length) value.toNat (by omega) (by omega)
    value.isLt
  apply Booked.lawful
  apply calls_booked
  refine ⟨⟨hostmin, ?_, ?_, ?_, ?_⟩, List.nodup_nil, ?_⟩
  · simp only [hosts, count]
    omega
  · rwa [hosts]
  · rw [count]
    omega
  · rw [count, networkAddress]
    omega
  · intro address
    simp

/-- The pool of a subnet with two hosts. -/
theorem pool_law_small : ∃ ippool, ippoolNew .little "10.0.0.4".toList "255.255.255.252".toList =
    some ippool ∧ ∀ calls : List PoolCall,
      Lawful .little (networkAddress 0x0a000004 30) (broadcastAddress 0x0a000004 30)
        (calls.foldl (poolStep .little) { ippool := ippool, inUse := [] }) :=
  pool_law .little "10.0.0.4".toList "255.255.255.252".toList 0x0a000004 30 (by decide)
    (by decide) (by decide) (by decide)

end NetVirt.IpPool
