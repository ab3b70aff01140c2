import NetVirt.Cert
import NetVirt.CStrings
import Mathlib.Algebra.Ring.Nat

/-!
# Node names in memory

`altname2node_info` and `cn2node_info` again, byte by byte: where they read the name and
where they write node_info_t. Both copy from fixed offsets of the name, and cn2node_info
takes its last length by a subtraction, before either has looked at how long the name is.
An allocation is one that succeeds.
-/

namespace NetVirt.NodeNames

open Cert CStrings

/-! ## The functions -/

/-- The fields of node_info_t, which follow one another. -/
def type : Region := { offset := 0, size := 4 }
def uuid : Region := { offset := 4, size := 37 }
def networkUuid : Region := { offset := 41, size := 37 }
def networkId : Region := { offset := 78, size := 6 }
def v : Region := { offset := 84, size := 1 }

/-- An int assigned from a size_t. -/
def cInt (value : Int) : Int := value.bmod 4294967296

/-- An int passed as a size_t. -/
def sizeT (value : Int) : Nat := (value % 18446744073709551616).toNat

/-- What is left of a call, and whether it returned a node_info_t. -/
structure Parsed where
  machine : Machine
  returned : Bool

/-- `altname2node_info` -/
def altname2nodeInfo (altn : CString) : Parsed :=
  let ninfo := copyLiteral type (ascii ['n', 'v', 'a']) 0 .start
  let ninfo := ninfo.store type 3 0
  let ninfo := strncpy altn uuid 0 36 ninfo
  let ninfo := ninfo.store uuid 36 0
  let ninfo := strncpy altn networkUuid 37 36 ninfo
  let ninfo := ninfo.store uuid 36 0
  { machine := ninfo.store v 0 2, returned := true }

/-- The length that cn2node_info copies to network_id. -/
def networkIdLength (length : Nat) : Int :=
  let len := cInt (length - 41)
  if len > 5 then 5 else len

/-- cn2node_info on a name of version 1. -/
def versionOne (cn : CString) (ninfo : Machine) : Machine :=
  let ninfo := strncpy cn type 0 3 ninfo
  let ninfo := ninfo.store type 3 0
  let ninfo := strncpy cn uuid 4 36 ninfo
  let ninfo := ninfo.store uuid 36 0
  let (length, ninfo) := strlen cn ninfo
  let ninfo := strncpy cn networkId 41 (sizeT (networkIdLength length)) ninfo
  let ninfo := ninfo.store networkId 5 0
  ninfo.store v 0 1

/-- cn2node_info on a name of version 2. -/
def versionTwo (cn : CString) (ninfo : Machine) : Machine :=
  let ninfo := strncpy cn type 0 3 ninfo
  let ninfo := ninfo.store type 3 0
  let ninfo := strncpy cn networkUuid 5 36 ninfo
  let ninfo := ninfo.store uuid 36 0
  ninfo.store v 0 2

/-- `cn2node_info` -/
def cn2nodeInfo (cn : CString) : Parsed :=
  let (nva, machine) := strncmp cn (ascii ['n', 'v', 'a', '-']) 0 .start
  let (dnc, machine) := if nva then (false, machine)
    else strncmp cn (ascii ['d', 'n', 'c', '-']) 0 machine
  if nva || dnc then { machine := versionOne cn machine, returned := true }
  else
    let (nva2, machine) := strncmp cn (ascii ['n', 'v', 'a', '2', '-']) 0 machine
    if nva2 then { machine := versionTwo cn machine, returned := true }
    else { machine := machine, returned := false }

/-! ## Safety -/

/-- A call stays inside the name and the fields, and ends the fields of what it returns. -/
structure Safe (s : CString) (parsed : Parsed) : Prop where
  within : Within s parsed.machine
  terminated : parsed.returned = true → ∀ field ∈ [type, uuid, networkUuid, networkId],
    Terminated field parsed.machine

/-- A name of version 1 begins with nva- or dnc-. -/
def FirstVersion (name : List UInt8) : Prop :=
  name.take 4 = ascii ['n', 'v', 'a', '-'] ∨ name.take 4 = ascii ['d', 'n', 'c', '-']

/-- The name has the bytes before its network id, and not so many after them that an int
does not hold their number. -/
def LongEnough (length : Nat) : Prop :=
  41 ≤ length ∧ (length - 41) % 4294967296 < 2147483648

/-- The last copy of a version 1 name is inside exactly when the name is long enough. -/
theorem networkIdLength_iff (length : Nat) :
    (sizeT (networkIdLength length) = 0 ∨
      41 ≤ length ∧ sizeT (networkIdLength length) ≤ networkId.size) ↔ LongEnough length := by
  simp only [sizeT, networkIdLength, cInt, Int.bmod, LongEnough, networkId]
  omega

/-- Of a name that is long enough, at most five bytes are copied. -/
theorem networkIdLength_of (length : Nat) (long : LongEnough length) :
    sizeT (networkIdLength length) = min ((length - 41) % 4294967296) 5 := by
  obtain ⟨enough, fits⟩ := long
  simp only [sizeT, networkIdLength, cInt, Int.bmod]
  omega

theorem altname2nodeInfo_within (altn : CString) :
    Within altn (altname2nodeInfo altn).machine ↔ 37 ≤ altn.length := by
  simp [altname2nodeInfo, within_store, within_strncpy, within_copyLiteral, within_start, type,
    uuid, networkUuid, v, ascii]

/-- What altname2node_info leaves, byte by byte. -/
theorem altname2nodeInfo_block (altn : CString) (long : 37 ≤ altn.length) (address : Nat) :
    (altname2nodeInfo altn).machine.block address =
      if address = 84 then 2
      else if address = 40 then 0
      else if 41 ≤ address ∧ address < 77 then altn.byte (37 + (address - 41))
      else if 4 ≤ address ∧ address < 40 then altn.byte (address - 4)
      else if address = 0 then 110 -- nva
      else if address = 1 then 118
      else if address = 2 then 97
      else 0 := by
  simp only [altname2nodeInfo, store_block, strncpy_block _ _ _ _ _ long,
    strncpy_block _ _ _ _ _ (Nat.zero_le _), type, uuid, networkUuid, v, copyLiteral, ascii,
    List.map_cons, List.map_nil, Machine.start]
  grind

/-- The steps of a version 1 name, with strlen taken apart. -/
theorem versionOne_eq (cn : CString) (ninfo : Machine) :
    versionOne cn ninfo =
      ((strncpy cn networkId 41 (sizeT (networkIdLength cn.length))
        (strlen cn ((strncpy cn uuid 4 36 ((strncpy cn type 0 3 ninfo).store type 3 0)).store
          uuid 36 0)).2).store networkId 5 0).store v 0 1 := rfl

theorem versionOne_within (cn : CString) (ninfo : Machine) (begun : 4 ≤ cn.length) :
    Within cn (versionOne cn ninfo) ↔ Within cn ninfo ∧ LongEnough cn.length := by
  rw [← networkIdLength_iff, versionOne_eq]
  simp [within_store, within_strncpy, within_strlen, type, uuid, networkId, v, begun]

theorem versionTwo_within (cn : CString) (ninfo : Machine) (begun : 5 ≤ cn.length) :
    Within cn (versionTwo cn ninfo) ↔ Within cn ninfo := by
  simp [versionTwo, within_store, within_strncpy, type, uuid, networkUuid, v, begun]

/-- What is left of a version 1 name, byte by byte. -/
theorem versionOne_block (cn : CString) (ninfo : Machine) (blank : ninfo.block = fun _ => 0)
    (long : LongEnough cn.length) (address : Nat) :
    (versionOne cn ninfo).block address =
      if address = 84 then 1
      else if 78 ≤ address ∧ address < 78 + min ((cn.length - 41) % 4294967296) 5 then
        cn.byte (41 + (address - 78))
      else if 4 ≤ address ∧ address < 40 then cn.byte (4 + (address - 4))
      else if address < 3 then cn.byte address
      else 0 := by
  have enough := long.1
  rw [versionOne_eq, networkIdLength_of cn.length long]
  simp only [store_block, strncpy_block _ _ 41 _ _ enough, strlen,
    strncpy_block _ _ 4 _ _ (Nat.le_trans (by decide) enough),
    strncpy_block _ _ 0 _ _ (Nat.zero_le _), type, uuid, networkId, v, blank]
  grind

/-- What is left of a version 2 name, byte by byte. -/
theorem versionTwo_block (cn : CString) (ninfo : Machine) (blank : ninfo.block = fun _ => 0)
    (begun : 5 ≤ cn.length) (address : Nat) :
    (versionTwo cn ninfo).block address =
      if address = 84 then 2
      else if 41 ≤ address ∧ address < 77 then cn.byte (5 + (address - 41))
      else if address < 3 then cn.byte address
      else 0 := by
  simp only [versionTwo, store_block, strncpy_block _ _ 5 _ _ begun,
    strncpy_block _ _ 0 _ _ (Nat.zero_le _), type, uuid, networkUuid, v, blank]
  grind

/-! ## The fields -/

theorem altname2nodeInfo_uuid (altn : CString) (long : 37 ≤ altn.length) :
    Holds altn uuid 0 36 (altname2nodeInfo altn).machine := by
  refine ⟨Nat.zero_le _, by decide, fun index less => ?_, ?_⟩
  · rw [altname2nodeInfo_block altn long]
    simp only [uuid]
    grind
  · rw [altname2nodeInfo_block altn long]
    rfl

theorem altname2nodeInfo_networkUuid (altn : CString) (long : 37 ≤ altn.length) :
    Holds altn networkUuid 37 36 (altname2nodeInfo altn).machine := by
  refine ⟨long, by decide, fun index less => ?_, ?_⟩
  · rw [altname2nodeInfo_block altn long]
    simp only [networkUuid]
    grind
  · rw [altname2nodeInfo_block altn long]
    rfl

theorem altname2nodeInfo_networkId (altn : CString) (long : 37 ≤ altn.length) :
    Holds altn networkId 0 0 (altname2nodeInfo altn).machine := by
  refine .none altn networkId _ (by decide) ?_
  rw [altname2nodeInfo_block altn long]
  rfl

theorem altname2nodeInfo_type (altn : CString) (long : 37 ≤ altn.length) :
    (altname2nodeInfo altn).machine.text type = ascii ['n', 'v', 'a'] := by
  have bytes : ∀ address, address < 4 →
      (altname2nodeInfo altn).machine.block address = [110, 118, 97, 0].getD address 0 := by
    intro address less
    rw [altname2nodeInfo_block altn long]
    grind
  have first := bytes 0 (by decide)
  have second := bytes 1 (by decide)
  have third := bytes 2 (by decide)
  have last := bytes 3 (by decide)
  simp only [Machine.text, type, List.range_succ, List.range_zero, List.nil_append,
    List.map_append, List.map_cons, List.map_nil, Nat.zero_add, first, second, third, last]
  rfl

/-- The fields of a version 1 name. -/
structure FirstFields (cn : CString) (machine : Machine) : Prop where
  type : Holds cn type 0 3 machine
  uuid : Holds cn uuid 4 36 machine
  networkUuid : Holds cn networkUuid 0 0 machine
  networkId : Holds cn networkId 41 (min ((cn.length - 41) % 4294967296) 5) machine

theorem versionOne_fields (cn : CString) (ninfo : Machine) (blank : ninfo.block = fun _ => 0)
    (long : LongEnough cn.length) : FirstFields cn (versionOne cn ninfo) := by
  have enough := long.1
  have block := versionOne_block cn ninfo blank long
  constructor
  · refine ⟨Nat.zero_le _, by decide, fun index less => ?_, ?_⟩
    · simp only [block, type]
      grind
    · simp [block, type]
  · refine ⟨Nat.le_trans (by decide) enough, by decide, fun index less => ?_, ?_⟩
    · simp only [block, uuid]
      grind
    · simp [block, uuid]
  · exact .none cn networkUuid _ (by decide) (by simp [block, networkUuid])
  · refine ⟨enough, ?_, fun index less => ?_, ?_⟩
    · simp only [networkId]
      omega
    · simp only [block, networkId]
      grind
    · simp only [block, networkId]
      grind

/-- The fields of a version 2 name. -/
structure SecondFields (cn : CString) (machine : Machine) : Prop where
  type : Holds cn type 0 3 machine
  uuid : Holds cn uuid 0 0 machine
  networkUuid : Holds cn networkUuid 5 36 machine
  networkId : Holds cn networkId 0 0 machine

theorem versionTwo_fields (cn : CString) (ninfo : Machine) (blank : ninfo.block = fun _ => 0)
    (begun : 5 ≤ cn.length) : SecondFields cn (versionTwo cn ninfo) := by
  have block := versionTwo_block cn ninfo blank begun
  constructor
  · refine ⟨Nat.zero_le _, by decide, fun index less => ?_, ?_⟩
    · simp only [block, type]
      grind
    · simp [block, type]
  · exact .none cn uuid _ (by decide) (by simp [block, uuid])
  · refine ⟨begun, by decide, fun index less => ?_, ?_⟩
    · simp only [block, networkUuid]
      grind
    · simp [block, networkUuid]
  · exact .none cn networkId _ (by decide) (by simp [block, networkId])

/-! ## cn2node_info -/

/-- A machine on which the name was only compared. -/
structure Compared (cn : CString) (machine : Machine) : Prop where
  within : Within cn machine
  blank : machine.block = fun _ => 0

theorem compared_start (cn : CString) : Compared cn .start := ⟨within_start cn, rfl⟩

theorem Compared.strncmp {cn : CString} {machine : Machine} (compared : Compared cn machine)
    (literal : List UInt8) (nonzero : ∀ byte ∈ literal, byte ≠ 0) :
    Compared cn (strncmp cn literal 0 machine).2 :=
  ⟨(within_strncmp cn literal 0 machine nonzero (Nat.zero_le _)).mpr compared.within,
    (strncmp_block cn literal 0 machine).trans compared.blank⟩

/-- The three ways that cn2node_info goes. -/
inductive Case (cn : CString) : Parsed → Prop where
  | first (machine : Machine) (compared : Compared cn machine) (begins : FirstVersion cn.text) :
      Case cn { machine := versionOne cn machine, returned := true }
  | second (machine : Machine) (compared : Compared cn machine)
      (other : ¬ FirstVersion cn.text)
      (begins : cn.text.take 5 = ascii ['n', 'v', 'a', '2', '-']) :
      Case cn { machine := versionTwo cn machine, returned := true }
  | unknown (machine : Machine) (compared : Compared cn machine)
      (other : ¬ FirstVersion cn.text)
      (another : cn.text.take 5 ≠ ascii ['n', 'v', 'a', '2', '-']) :
      Case cn { machine := machine, returned := false }

theorem cn2nodeInfo_case (cn : CString) : Case cn (cn2nodeInfo cn) := by
  have nva := nonzero_of_all (ascii ['n', 'v', 'a', '-']) rfl
  have dnc := nonzero_of_all (ascii ['d', 'n', 'c', '-']) rfl
  have nva2 := nonzero_of_all (ascii ['n', 'v', 'a', '2', '-']) rfl
  have nvaFound := strncmp_iff cn (ascii ['n', 'v', 'a', '-']) .start nva 0 (Nat.zero_le _)
  have afterNva := (compared_start cn).strncmp (ascii ['n', 'v', 'a', '-']) nva
  unfold cn2nodeInfo
  dsimp only
  generalize strncmp cn (ascii ['n', 'v', 'a', '-']) 0 .start = found at nvaFound afterNva ⊢
  obtain ⟨isNva, machine⟩ := found
  dsimp only at nvaFound afterNva ⊢
  cases isNva with
  | true =>
    exact .first machine afterNva (Or.inl (nvaFound.mp rfl))
  | false =>
    have dncFound := strncmp_iff cn (ascii ['d', 'n', 'c', '-']) machine dnc 0 (Nat.zero_le _)
    have afterDnc := afterNva.strncmp (ascii ['d', 'n', 'c', '-']) dnc
    simp only [Bool.false_eq_true, if_false, Bool.false_or]
    generalize strncmp cn (ascii ['d', 'n', 'c', '-']) 0 machine = found at dncFound afterDnc ⊢
    obtain ⟨isDnc, machine⟩ := found
    dsimp only at dncFound afterDnc ⊢
    cases isDnc with
    | true => exact .first machine afterDnc (Or.inr (dncFound.mp rfl))
    | false =>
      have other : ¬ FirstVersion cn.text := by
        rintro (begins | begins)
        · exact absurd (nvaFound.mpr begins) (by decide)
        · exact absurd (dncFound.mpr begins) (by decide)
      have nva2Found := strncmp_iff cn (ascii ['n', 'v', 'a', '2', '-']) machine nva2 0
        (Nat.zero_le _)
      have afterNva2 := afterDnc.strncmp (ascii ['n', 'v', 'a', '2', '-']) nva2
      simp only [Bool.false_eq_true, if_false]
      generalize strncmp cn (ascii ['n', 'v', 'a', '2', '-']) 0 machine = found
        at nva2Found afterNva2 ⊢
      obtain ⟨isNva2, machine⟩ := found
      dsimp only at nva2Found afterNva2 ⊢
      cases isNva2 with
      | true => exact .second machine afterNva2 other (nva2Found.mp rfl)
      | false =>
        refine .unknown machine afterNva2 other ?_
        intro begins
        exact absurd (nva2Found.mpr begins) (by decide)

/-- A text that begins with n bytes is as long. -/
theorem begins_length (s : CString) (literal : List UInt8)
    (begins : s.text.take literal.length = literal) : literal.length ≤ s.length := by
  have same := congrArg List.length begins
  simp only [List.length_take, CString.text_length] at same
  omega

theorem FirstVersion.length {cn : CString} (begins : FirstVersion cn.text) : 4 ≤ cn.length := by
  rcases begins with begins | begins
  · exact begins_length cn (ascii ['n', 'v', 'a', '-']) begins
  · exact begins_length cn (ascii ['d', 'n', 'c', '-']) begins

/-! ## When the functions are safe -/

theorem each_field {Ended : Region → Prop} (typed : Ended type) (named : Ended uuid)
    (networked : Ended networkUuid) (numbered : Ended networkId) :
    ∀ field ∈ [type, uuid, networkUuid, networkId], Ended field := by
  simp only [List.forall_mem_cons]
  exact ⟨typed, named, networked, numbered, fun _ inside => absurd inside List.not_mem_nil⟩

theorem altname2nodeInfo_safe_iff (altn : CString) :
    Safe altn (altname2nodeInfo altn) ↔ 37 ≤ altn.length := by
  rw [← altname2nodeInfo_within]
  constructor
  · exact Safe.within
  · intro within
    have long := (altname2nodeInfo_within altn).mp within
    have type : Terminated type (altname2nodeInfo altn).machine := by
      refine ⟨3, by decide, ?_⟩
      rw [altname2nodeInfo_block altn long]
      rfl
    exact ⟨within, fun _ => each_field type (altname2nodeInfo_uuid altn long).terminated
      (altname2nodeInfo_networkUuid altn long).terminated
      (altname2nodeInfo_networkId altn long).terminated⟩

theorem cn2nodeInfo_safe_iff (cn : CString) :
    Safe cn (cn2nodeInfo cn) ↔ (FirstVersion cn.text → LongEnough cn.length) := by
  have way := cn2nodeInfo_case cn
  generalize cn2nodeInfo cn = parsed at way ⊢
  cases way with
  | first machine compared begins =>
    have within := versionOne_within cn machine begins.length
    constructor
    · exact fun safe _ => (within.mp safe.within).2
    · intro enough
      have long := enough begins
      have fields := versionOne_fields cn machine compared.blank long
      exact ⟨within.mpr ⟨compared.within, long⟩, fun _ => each_field fields.type.terminated
        fields.uuid.terminated fields.networkUuid.terminated fields.networkId.terminated⟩
  | second machine compared other begins =>
    have begun := begins_length cn (ascii ['n', 'v', 'a', '2', '-']) begins
    have fields := versionTwo_fields cn machine compared.blank begun
    refine iff_of_true ⟨(versionTwo_within cn machine begun).mpr compared.within, ?_⟩
      (fun first => absurd first other)
    exact fun _ => each_field fields.type.terminated fields.uuid.terminated
      fields.networkUuid.terminated fields.networkId.terminated
  | unknown machine compared other another =>
    refine iff_of_true ⟨compared.within, ?_⟩ (fun first => absurd first other)
    intro returned
    cases returned

/-- Parsing a name is safe exactly when the alternative name has the uuid and the byte after
it, and a common name of version 1 the bytes before its network id (and no 2 GiB after
them).

Proof: each parser reads byte by byte, up to the NUL or for a fixed number of bytes; what it
reads lies inside the text under its half of the condition and at no other time. -/
theorem name_parsing_safe_iff (s : CString) :
    (Safe s (altname2nodeInfo s) ∧ Safe s (cn2nodeInfo s)) ↔
      37 ≤ s.length ∧ (FirstVersion s.text → LongEnough s.length) :=
  and_congr (altname2nodeInfo_safe_iff s) (cn2nodeInfo_safe_iff s)

/-- nva- and nothing else, with zeros after it. -/
def barePrefix : CString := .ofText (ascii ['n', 'v', 'a', '-']) (nonzero_of_all _ rfl)

/-- A URI of four bytes is read at its 38th byte, and a common name of four bytes is not
parsed safely either. -/
theorem barePrefix_unsafe :
    37 ∈ (altname2nodeInfo barePrefix).machine.reads ∧
      ¬ Safe barePrefix (altname2nodeInfo barePrefix) ∧
      FirstVersion barePrefix.text ∧ ¬ Safe barePrefix (cn2nodeInfo barePrefix) := by
  have first : FirstVersion barePrefix.text := Or.inl rfl
  refine ⟨by decide, ?_, first, ?_⟩
  · intro safe
    exact absurd ((altname2nodeInfo_safe_iff barePrefix).mp safe) (by decide)
  · intro safe
    exact absurd ((cn2nodeInfo_safe_iff barePrefix).mp safe first).1 (by decide)

/-! ## The names as texts -/

/-- What node_info_t holds. -/
def nodeInfo (machine : Machine) : NodeInfo :=
  { type := machine.text type, uuid := machine.text uuid, networkUuid := machine.text networkUuid,
    networkId := machine.text networkId, v := (machine.block v.offset).toNat }

/-- A URI that is read safely gives the fields of its text. -/
theorem altname2nodeInfo_text (altn : CString) (long : 37 ≤ altn.length) :
    Cert.altname2nodeInfo altn.text = some (nodeInfo (altname2nodeInfo altn).machine) := by
  have version : (altname2nodeInfo altn).machine.block v.offset = 2 := by
    rw [altname2nodeInfo_block altn long]
    rfl
  rw [Cert.altname2nodeInfo, if_neg (by simp; omega), nodeInfo, altname2nodeInfo_type altn long,
    (altname2nodeInfo_uuid altn long).text, (altname2nodeInfo_networkUuid altn long).text,
    (altname2nodeInfo_networkId altn long).text, version]
  rfl

/-- A common name that is read safely, and is shorter than 2 GiB, gives the fields of its
text, or NULL. -/
theorem cn2nodeInfo_text (cn : CString) (short : cn.length < 2147483648)
    (safe : FirstVersion cn.text → 41 ≤ cn.length) :
    Cert.cn2nodeInfo cn.text =
      some (if (cn2nodeInfo cn).returned then some (nodeInfo (cn2nodeInfo cn).machine)
        else none) := by
  unfold Cert.cn2nodeInfo
  have way := cn2nodeInfo_case cn
  generalize cn2nodeInfo cn = parsed at way ⊢
  cases way with
  | first machine compared begins =>
    have enough := safe begins
    have long : LongEnough cn.length := ⟨enough, by omega⟩
    have fields := versionOne_fields cn machine compared.blank long
    have version : (versionOne cn machine).block v.offset = 1 := by
      rw [versionOne_block cn machine compared.blank long]
      rfl
    have last : (cn.text.drop 41).take (min ((cn.length - 41) % 4294967296) 5) =
        (cn.text.drop 41).take 5 := by
      rw [List.take_eq_take_iff]
      simp only [List.length_drop, CString.text_length]
      omega
    rw [if_pos (show _ ∨ _ from begins), if_neg (by simp; omega), if_pos rfl, nodeInfo,
      fields.type.text, fields.uuid.text, fields.networkUuid.text, fields.networkId.text, last,
      version]
    rfl
  | second machine compared other begins =>
    have begun := begins_length cn (ascii ['n', 'v', 'a', '2', '-']) begins
    have fields := versionTwo_fields cn machine compared.blank begun
    have version : (versionTwo cn machine).block v.offset = 2 := by
      rw [versionTwo_block cn machine compared.blank begun]
      rfl
    rw [if_neg (show ¬ (_ ∨ _) from other), if_pos begins, if_pos rfl, nodeInfo,
      fields.type.text, fields.uuid.text, fields.networkUuid.text, fields.networkId.text, version]
    rfl
  | unknown machine compared other another =>
    rw [if_neg (show ¬ (_ ∨ _) from other), if_neg another]
    rfl

end NetVirt.NodeNames
