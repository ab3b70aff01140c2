import NetVirt.NodeNames

/-!
# The formats of node names

The three formats in which a node is named, as add_node of the controller writes two of them
and older certificates carry the third, and what cert.c makes of a name in each. A uuid is
any text of 36 bytes here.
-/

namespace NetVirt.NameFormats

open Cert CStrings NodeNames

structure Uuid where
  bytes : List UInt8
  length : bytes.length = 36
  nonzero : ∀ byte ∈ bytes, byte ≠ 0

/-- The number of a network, as version 1 has it in a name. -/
structure NetworkId where
  bytes : List UInt8
  length : bytes.length ≤ 5
  nonzero : ∀ byte ∈ bytes, byte ≠ 0

inductive Kind where
  | nva
  | dnc
deriving DecidableEq

def Kind.text : Kind → List UInt8
  | .nva => ascii ['n', 'v', 'a']
  | .dnc => ascii ['d', 'n', 'c']

/-- u@n, nva2-n, and nva-u@id or dnc-u@id. -/
inductive Name where
  | alternative (uuid network : Uuid)
  | second (network : Uuid)
  | first (kind : Kind) (uuid : Uuid) (id : NetworkId)

def Name.text : Name → List UInt8
  | .alternative uuid network => uuid.bytes ++ ascii ['@'] ++ network.bytes
  | .second network => ascii ['n', 'v', 'a', '2', '-'] ++ network.bytes
  | .first kind uuid id =>
    kind.text ++ ascii ['-'] ++ uuid.bytes ++ ascii ['@'] ++ id.bytes

/-- What a name says. -/
def Name.info : Name → NodeInfo
  | .alternative uuid network =>
    { type := Kind.nva.text, uuid := uuid.bytes, networkUuid := network.bytes, networkId := [],
      v := 2 }
  | .second network =>
    { type := Kind.nva.text, uuid := [], networkUuid := network.bytes, networkId := [], v := 2 }
  | .first kind uuid id =>
    { type := kind.text, uuid := uuid.bytes, networkUuid := [], networkId := id.bytes, v := 1 }

/-- An alternative name is parsed by altname2node_info, the other two by cn2node_info. -/
def Name.parse : Name → CString → Parsed
  | .alternative _ _, s => NodeNames.altname2nodeInfo s
  | .second _, s => NodeNames.cn2nodeInfo s
  | .first _ _ _, s => NodeNames.cn2nodeInfo s

/-! ## add_node -/

/-- common_name -/
def addNodeCommonName (networkUuid : List UInt8) : List UInt8 :=
  snprintf 64 (ascii ['n', 'v', 'a', '2', '-'] ++ networkUuid)

/-- alt_name -/
def addNodeAltName (uuid networkUuid : List UInt8) : List UInt8 :=
  snprintf 256 (ascii ['U', 'R', 'I', ':'] ++ uuid ++ ascii ['@'] ++ networkUuid)

/-- A text that is shorter than its buffer is printed whole. -/
theorem snprintf_whole (size : Nat) (text : List UInt8) (room : text.length < size) :
    snprintf size text = text := List.take_of_length_le (by omega)

theorem addNodeCommonName_whole (network : Uuid) :
    addNodeCommonName network.bytes = (Name.second network).text := by
  apply snprintf_whole
  simp [ascii, network.length]

theorem addNodeAltName_whole (uuid network : Uuid) :
    addNodeAltName uuid.bytes network.bytes =
      ascii ['U', 'R', 'I', ':'] ++ (Name.alternative uuid network).text := by
  rw [addNodeAltName, snprintf_whole]
  · simp [Name.text]
  · simp [ascii, uuid.length, network.length]

/-! ## Parsing -/

/-- The parts of a text, by their lengths. -/
theorem take_part (first rest : List UInt8) (n : Nat) (length : first.length = n) :
    (first ++ rest).take n = first := by
  subst length
  exact List.take_left

theorem drop_part (first rest : List UInt8) (n : Nat) (length : first.length = n) :
    (first ++ rest).drop n = rest := by
  subst length
  exact List.drop_left

theorem alternative_parsed (uuid network : Uuid) :
    Cert.altname2nodeInfo (Name.alternative uuid network).text =
      some (Name.alternative uuid network).info := by
  have long : ¬ (uuid.bytes ++ ascii ['@'] ++ network.bytes).length < 37 := by
    simp only [List.length_append, uuid.length, network.length, ascii, List.length_map,
      List.length_singleton]
    decide
  have whole : network.bytes.take 36 = network.bytes :=
    List.take_of_length_le (Nat.le_of_eq network.length)
  rw [Name.text, Cert.altname2nodeInfo, if_neg long,
    drop_part _ _ 37 (by simp [ascii, uuid.length]), whole, List.append_assoc,
    take_part _ _ 36 uuid.length]
  rfl

theorem second_parsed (network : Uuid) :
    Cert.cn2nodeInfo (Name.second network).text = some (some (Name.second network).info) := by
  have whole : network.bytes.take 36 = network.bytes :=
    List.take_of_length_le (Nat.le_of_eq network.length)
  simp [Cert.cn2nodeInfo, Name.text, Name.info, Kind.text, ascii, whole]

theorem first_parsed (kind : Kind) (uuid : Uuid) (id : NetworkId) :
    Cert.cn2nodeInfo (Name.first kind uuid id).text =
      some (some (Name.first kind uuid id).info) := by
  have whole : id.bytes.take 5 = id.bytes := List.take_of_length_le id.length
  have typed : kind.text.length = 3 := by cases kind <;> rfl
  have four : (kind.text ++ ascii ['-']).length = 4 := by simp [ascii, typed]
  have begins : kind.text ++ ascii ['-'] = ascii ['n', 'v', 'a', '-'] ∨
      kind.text ++ ascii ['-'] = ascii ['d', 'n', 'c', '-'] := by
    cases kind
    · exact Or.inl rfl
    · exact Or.inr rfl
  have parts : (Name.first kind uuid id).text =
      (kind.text ++ ascii ['-']) ++ (uuid.bytes ++ (ascii ['@'] ++ id.bytes)) := by
    simp only [Name.text, List.append_assoc]
  have long : ¬ (Name.first kind uuid id).text.length < 41 := by
    rw [parts]
    simp only [List.length_append, uuid.length, typed, ascii, List.length_map,
      List.length_singleton]
    omega
  have type : (Name.first kind uuid id).text.take 3 = kind.text := by
    rw [parts, List.append_assoc]
    exact take_part _ _ 3 typed
  have named : ((Name.first kind uuid id).text.drop 4).take 36 = uuid.bytes := by
    rw [parts, drop_part _ _ 4 four]
    exact take_part _ _ 36 uuid.length
  have numbered : (Name.first kind uuid id).text.drop 41 = id.bytes := by
    apply drop_part _ _ 41
    simp [ascii, typed, uuid.length]
  have version : (Name.first kind uuid id).text.take 4 = kind.text ++ ascii ['-'] := by
    rw [parts]
    exact take_part _ _ 4 four
  rw [Cert.cn2nodeInfo, version, if_pos begins, if_neg long, type, named, numbered, whole]
  rfl

/-- A name of each format is parsed safely, and to what it says. -/
theorem name_parsed (name : Name) (s : CString) (written : s.text = name.text) :
    Safe s (name.parse s) ∧ (name.parse s).returned = true ∧
      nodeInfo (name.parse s).machine = name.info := by
  have length : s.length = name.text.length := by rw [← written, CString.text_length]
  have found (safe : FirstVersion s.text → LongEnough s.length) (short : s.length < 2147483648)
      (info : NodeInfo) (parsed : Cert.cn2nodeInfo s.text = some (some info)) :
      Safe s (NodeNames.cn2nodeInfo s) ∧ (NodeNames.cn2nodeInfo s).returned = true ∧
        nodeInfo (NodeNames.cn2nodeInfo s).machine = info := by
    rw [cn2nodeInfo_text s short fun first => (safe first).1, Option.some.injEq] at parsed
    refine ⟨(cn2nodeInfo_safe_iff s).mpr safe, ?_⟩
    split at parsed
    · next returned => exact ⟨returned, Option.some.inj parsed⟩
    · cases parsed
  cases name with
  | alternative uuid network =>
    have long : 37 ≤ s.length := by
      rw [length]
      simp [Name.text, ascii, uuid.length, network.length]
    refine ⟨(altname2nodeInfo_safe_iff s).mpr long, rfl, ?_⟩
    have parsed := altname2nodeInfo_text s long
    rw [written, alternative_parsed] at parsed
    exact (Option.some.inj parsed).symm
  | second network =>
    have counted : s.length = 41 := by
      rw [length]
      simp [Name.text, ascii, network.length]
    refine found (fun _ => ⟨by omega, by omega⟩) (by omega) _ ?_
    rw [written, second_parsed]
  | first kind uuid id =>
    have short := id.length
    have counted : s.length = 41 + id.bytes.length := by
      rw [length]
      cases kind <;> simp [Name.text, Kind.text, ascii, uuid.length] <;> omega
    refine found (fun _ => ⟨by omega, by omega⟩) (by omega) _ ?_
    rw [written, first_parsed]

/-- The name that says this. -/
def nameOf (info : NodeInfo) : List UInt8 :=
  if info.v = 1 then info.type ++ ascii ['-'] ++ info.uuid ++ ascii ['@'] ++ info.networkId
  else if info.uuid = [] then ascii ['n', 'v', 'a', '2', '-'] ++ info.networkUuid
  else info.uuid ++ ascii ['@'] ++ info.networkUuid

/-- What a name says determines it. -/
theorem nameOf_info (name : Name) : nameOf name.info = name.text := by
  cases name with
  | alternative uuid network =>
    have named : uuid.bytes ≠ [] := by
      intro empty
      have length := uuid.length
      rw [empty] at length
      cases length
    exact if_neg named
  | second network => rfl
  | first kind uuid id => rfl

/-- The names that add_node writes are not truncated, a name of each format is parsed to what it
says, and two names that are parsed to the same are the same.

Proof: the lengths of the formats leave room in the buffers. Parsing the text of a name gives
its information, and a name can be told from its information. -/
theorem names_round_trip :
    (∀ uuid network : Uuid, addNodeAltName uuid.bytes network.bytes =
      ascii ['U', 'R', 'I', ':'] ++ (Name.alternative uuid network).text) ∧
    (∀ network : Uuid, addNodeCommonName network.bytes = (Name.second network).text) ∧
    (∀ (name : Name) (s : CString), s.text = name.text →
      Safe s (name.parse s) ∧ (name.parse s).returned = true ∧
        nodeInfo (name.parse s).machine = name.info) ∧
    ∀ (one other : Name) (s t : CString), s.text = one.text → t.text = other.text →
      nodeInfo (one.parse s).machine = nodeInfo (other.parse t).machine →
        one.text = other.text := by
  refine ⟨addNodeAltName_whole, addNodeCommonName_whole, name_parsed, ?_⟩
  intro one other s t written writtenToo same
  rw [(name_parsed one s written).2.2, (name_parsed other t writtenToo).2.2] at same
  rw [← nameOf_info one, same, nameOf_info]

def sampleUuid : Uuid where
  bytes := List.replicate 36 0x61
  length := rfl
  nonzero := nonzero_of_all _ rfl

/-- The common name of a node in the network of this uuid. -/
def sampleName : CString := .ofText (Name.second sampleUuid).text (nonzero_of_all _ rfl)

theorem names_round_trip_sample :
    Safe sampleName (NodeNames.cn2nodeInfo sampleName) ∧
      (Name.second sampleUuid).text = sampleName.text :=
  have written : sampleName.text = (Name.second sampleUuid).text := CString.ofText_text _ _
  have parsed := names_round_trip.2.2.1 (.second sampleUuid) sampleName written
  have same := names_round_trip.2.2.2 (.second sampleUuid) (.second sampleUuid) sampleName
    sampleName written written rfl
  ⟨parsed.1, same.trans written.symm⟩

end NetVirt.NameFormats
