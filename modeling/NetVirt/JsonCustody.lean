import NetVirt.JsonSoundness

/-!
# Custody of references

While every value has one reference and the code gives away only references that it owns, each
function of jansson has a result, and leaves the values as they were apart from the one that it
changes. Values that were made later do not refer to earlier ones, and so keep none of them.
-/

namespace NetVirt.JsonCounts

open Inet (Text)

/-! ## Programs -/

/-- A program has a result, and this holds of it. -/
def Yields {α : Type} (run : Option (α × Memory)) (post : α → Memory → Prop) : Prop :=
  ∃ result after, run = some (result, after) ∧ post result after

section Programs
variable {α β : Type} {mem : Memory}

theorem yields_pure (result : α) {post : α → Memory → Prop} (holds : post result mem) :
    Yields ((pure result : Jansson α) mem) post :=
  ⟨result, mem, rfl, holds⟩

/-- When the result of the first part is known. -/
theorem yields_run {program : Jansson α} {next : α → Jansson β} {result : α} {mid : Memory}
    {post : β → Memory → Prop} (run : program mem = some (result, mid))
    (rest : Yields (next result mid) post) : Yields ((program >>= next) mem) post := by
  obtain ⟨final, after, runNext, holds⟩ := rest
  refine ⟨final, after, ?_, holds⟩
  change (program mem).bind _ = _
  rw [run]
  exact runNext

theorem yields_bind {program : Jansson α} {next : α → Jansson β} {mid : α → Memory → Prop}
    {post : β → Memory → Prop} (first : Yields (program mem) mid)
    (rest : ∀ result after, mid result after → Yields (next result after) post) :
    Yields ((program >>= next) mem) post := by
  obtain ⟨result, middle, run, holds⟩ := first
  exact yields_run run (rest result middle holds)

theorem yields_mono {run : Option (α × Memory)} {mid post : α → Memory → Prop}
    (first : Yields run mid) (weaker : ∀ result after, mid result after → post result after) :
    Yields run post := by
  obtain ⟨result, after, ran, holds⟩ := first
  exact ⟨result, after, ran, weaker result after holds⟩

end Programs

/-! ## Reading -/

/-- A value that is read is there. -/
def Readable (mem : Memory) (ref : Option JsonRef) : Prop :=
  ∀ id, ref = some (.counted id) → (mem.values id).isSome

def Memory.shape (mem : Memory) : Option JsonRef → Option Shape
  | some (.counted id) => (mem.values id).map Value.shape
  | none | some .constant => none

def Memory.member (mem : Memory) (object : Option JsonRef) (key : Text) : Option JsonRef :=
  (mem.shape object).bind (Shape.member key)

/-- The string at a key. -/
def Memory.text (mem : Memory) (root : Option JsonRef) (key : Text) : Option Text :=
  (mem.shape (mem.member root key)).bind Shape.text

theorem member_refs {key : Text} {shape : Shape} {ref : JsonRef}
    (member : shape.member key = some ref) : ref ∈ shape.refs := by
  cases shape with
  | object members =>
    obtain ⟨before, after, rfl, -⟩ := List.lookup_eq_some_iff.mp member
    simp [Shape.refs]
  | array elements => cases member
  | string text => cases member
  | number => cases member

theorem member_children {mem : Memory} {object : Option JsonRef} {key : Text} {child : JsonId}
    (member : mem.member object key = some (.counted child)) :
    ∃ parent, object = some (.counted parent) ∧ child ∈ mem.children parent := by
  cases object with
  | none => cases member
  | some ref =>
    cases ref with
    | constant => cases member
    | counted parent =>
      obtain ⟨shape, found, inside⟩ := Option.bind_eq_some_iff.mp member
      obtain ⟨value, there, rfl⟩ := Option.map_eq_some_iff.mp found
      refine ⟨parent, rfl, ?_⟩
      rw [children_of_some there]
      exact List.mem_flatMap.mpr ⟨_, member_refs inside, List.mem_singleton.mpr rfl⟩

section Reading
variable {mem : Memory} {held : List JsonId}

theorem Sound.readable_member (sound : Sound mem held) (object : Option JsonRef) (key : Text) :
    Readable mem (mem.member object key) := by
  intro child member
  obtain ⟨parent, -, inside⟩ := member_children member
  exact sound.live parent child inside

theorem shapeOf_eq {ref : Option JsonRef} (readable : Readable mem ref) :
    shapeOf ref mem = some (mem.shape ref, mem) := by
  cases ref with
  | none => rfl
  | some ref =>
    cases ref with
    | constant => rfl
    | counted id =>
      obtain ⟨value, found⟩ := Option.isSome_iff_exists.mp (readable id rfl)
      change (mem.values id).map _ = some ((mem.values id).map _, mem)
      rw [found]
      rfl

theorem jsonObjectGet_eq {object : Option JsonRef} (readable : Readable mem object) (key : Text) :
    jsonObjectGet object key mem = some (mem.member object key, mem) := by
  change (shapeOf object mem).bind _ = _
  rw [shapeOf_eq readable]
  rfl

theorem jsonUnpack_eq (sound : Sound mem held) {root : Option JsonRef}
    (readable : Readable mem root) (key : Text) :
    jsonUnpack root key mem = some (mem.text root key, mem) := by
  change (jsonObjectGet root key mem).bind _ = _
  rw [jsonObjectGet_eq readable]
  change (shapeOf (mem.member root key) mem).bind _ = _
  rw [shapeOf_eq (sound.readable_member root key)]
  rfl

end Reading

/-! ## Custody -/

/-- What is left of the owned references when this one is taken. -/
def JsonRef.outOf (ref : JsonRef) (owned : List JsonId) : List JsonId :=
  ref.ids.foldl List.erase owned

/-- The code has the references that it owns and those in its hand, every value has one reference,
and a value from this one on refers to none before it. -/
structure Custody (base : JsonId) (hand : List JsonId) (mem : Memory) : Prop where
  sound : Sound mem (hand ++ mem.owned)
  single : ∀ id value, mem.values id = some value → value.refs = 1
  apart : ∀ parent child, child ∈ mem.children parent → base ≤ parent → base ≤ child
  base : base ≤ mem.fresh
  unowned : mem.unowned = []

/-- The values that were there and are still have their shapes, apart from these. -/
structure Frame (touched : List JsonId) (mem after : Memory) : Prop where
  fresh : mem.fresh ≤ after.fresh
  kept : ∀ id value, after.values id = some value → id < mem.fresh → id ∉ touched →
    ∃ old, mem.values id = some old ∧ value.shape = old.shape

section Frame
variable {touched : List JsonId} {mem mid after : Memory}

theorem Frame.refl (mem : Memory) : Frame touched mem mem :=
  { fresh := Nat.le_refl _
    kept := fun _ value found _ _ => ⟨value, found, rfl⟩ }

theorem Frame.trans (first : Frame touched mem mid) (second : Frame touched mid after) :
    Frame touched mem after :=
  { fresh := first.fresh.trans second.fresh
    kept := fun id value found inside untouched => by
      obtain ⟨middle, foundMiddle, shape⟩ := second.kept id value found
        (Nat.lt_of_lt_of_le inside first.fresh) untouched
      obtain ⟨old, foundOld, shapeOld⟩ := first.kept id middle foundMiddle inside untouched
      exact ⟨old, foundOld, shape.trans shapeOld⟩ }

theorem Frame.mono {more : List JsonId} (frame : Frame touched mem after)
    (within : touched ⊆ more) : Frame more mem after :=
  { frame with
    kept := fun id value found inside untouched =>
      frame.kept id value found inside fun member => untouched (within member) }

/-- What is there is read as before. -/
theorem Frame.shape (frame : Frame touched mem after) {id : JsonId} (inside : id < mem.fresh)
    (untouched : id ∉ touched) (readable : Readable after (some (.counted id))) :
    after.shape (some (.counted id)) = mem.shape (some (.counted id)) := by
  obtain ⟨value, found⟩ := Option.isSome_iff_exists.mp (readable id rfl)
  obtain ⟨old, foundOld, same⟩ := frame.kept id value found inside untouched
  rw [Memory.shape, Memory.shape, found, foundOld, Option.map_some, Option.map_some, same]

theorem Pruned.frame (pruned : Pruned mem after) : Frame touched mem after :=
  { fresh := pruned.fresh.ge
    kept := fun id value found _ _ => by
      obtain ⟨old, foundOld, shape, -⟩ := pruned.kept id value found
      exact ⟨old, foundOld, shape⟩ }

end Frame

section Custody
variable {base : JsonId} {hand : List JsonId} {mem : Memory}

/-- A value that the code owns is part of no other. -/
theorem Custody.unreferred (custody : Custody base hand mem) {id : JsonId}
    (owned : id ∈ hand ++ mem.owned) : mem.incoming id = 0 := by
  obtain ⟨value, found⟩ := Option.isSome_iff_exists.mp (custody.sound.heldLive id owned)
  have owners := custody.sound.refs id value found
  rw [custody.single id value found] at owners
  have counted := List.count_pos_iff.mpr owned
  omega

/-- The code owns a value once. -/
theorem Custody.nodup (custody : Custody base hand mem) : (hand ++ mem.owned).Nodup := by
  refine List.nodup_iff_count_le_one.mpr fun id => ?_
  by_cases owned : id ∈ hand ++ mem.owned
  · obtain ⟨value, found⟩ := Option.isSome_iff_exists.mp (custody.sound.heldLive id owned)
    have owners := custody.sound.refs id value found
    rw [custody.single id value found] at owners
    omega
  · exact (List.count_eq_zero.mpr owned).le.trans (Nat.zero_le 1)

/-- What is part of a value is owned by the code nowhere. -/
theorem Custody.borrowed (custody : Custody base hand mem) {parent child : JsonId}
    (member : child ∈ mem.children parent) : child ∉ hand ++ mem.owned := by
  intro owned
  have unreferred := custody.unreferred owned
  have referred := incoming_pos (custody.sound.parent member) member
  omega

/-- The code takes a reference that it owns into its hand. -/
theorem Custody.taken (custody : Custody base [] mem) {ref : JsonRef}
    (owned : ∀ id ∈ ref.ids, id ∈ mem.owned) :
    Custody base ref.ids { mem with owned := ref.outOf mem.owned } := by
  have whole : mem.owned.Perm (ref.ids ++ ref.outOf mem.owned) := by
    cases ref with
    | constant => exact List.Perm.refl _
    | counted id => exact List.perm_cons_erase (owned id (List.mem_singleton.mpr rfl))
  have sound := custody.sound.perm whole
  exact
    { sound := { sound with }
      single := custody.single
      apart := custody.apart
      base := custody.base
      unowned := custody.unowned }

theorem take_eq {ref : JsonRef} (owned : ∀ id ∈ ref.ids, id ∈ mem.owned) :
    take ref mem = some ((), { mem with owned := ref.outOf mem.owned }) := by
  cases ref with
  | constant => rfl
  | counted id =>
    change some ((), mem.take id) = _
    rw [Memory.take, if_pos (owned id (List.mem_singleton.mpr rfl))]
    rfl

/-- Dropping the reference in the hand. -/
theorem drop_yields {ref : JsonRef} (custody : Custody base ref.ids mem) (touched : List JsonId) :
    Yields (drop ref mem) fun _ after =>
      Custody base [] after ∧ after.owned = mem.owned ∧ Frame touched mem after := by
  obtain ⟨after, run, sound, pruned⟩ := decrefWithin_sound mem.fresh mem ref mem.owned
    custody.sound (alive_fresh mem)
  refine ⟨(), after, ?_, ?_, pruned.owned, pruned.frame⟩
  · change (decrefWithin mem.fresh mem ref).map _ = _
    rw [run]
    rfl
  · exact
      { sound := pruned.owned.symm ▸ sound
        single := fun id value found => by
          obtain ⟨old, foundOld, -, refs⟩ := pruned.kept id value found
          have one := custody.single id old foundOld
          have used := sound.used id value found
          omega
        apart := fun parent child member => custody.apart parent child (pruned.children member)
        base := pruned.fresh ▸ custody.base
        unowned := pruned.unowned.trans custody.unowned }

/-- A reference that was taken and is not stored is dropped. -/
theorem taken_drop_yields {ref : JsonRef} (custody : Custody base [] mem)
    (owned : ∀ id ∈ ref.ids, id ∈ mem.owned) (touched : List JsonId) :
    Yields (drop ref { mem with owned := ref.outOf mem.owned }) fun _ after =>
      Custody base [] after ∧ after.owned = ref.outOf mem.owned ∧ Frame touched mem after :=
  yields_mono (drop_yields (custody.taken owned) touched)
    fun _ _ ⟨kept, left, frame⟩ => ⟨kept, left, { frame with }⟩

/-- `json_decref` of what the code owns. -/
theorem jsonDecref_yields (ref : JsonRef) (custody : Custody base [] mem)
    (owned : ∀ id ∈ ref.ids, id ∈ mem.owned) (touched : List JsonId) :
    Yields (jsonDecref (some ref) mem) fun _ after =>
      Custody base [] after ∧ after.owned = ref.outOf mem.owned ∧ Frame touched mem after := by
  exact yields_run (take_eq owned) (taken_drop_yields custody owned touched)

/-- A new value without parts. -/
theorem Custody.new (custody : Custody base [] mem) (shape : Shape)
    (leaf : shape.children = []) : Custody base [] (mem.new shape) :=
  { sound := custody.sound.new shape leaf
    single := fun id value found => by
      by_cases equal : id = mem.fresh
      · subst equal
        obtain rfl := Option.some.inj ((new_self mem shape).symm.trans found)
        rfl
      · exact custody.single id value ((new_of_ne mem shape equal).symm.trans found)
    apart := fun parent child member => by
      by_cases equal : parent = mem.fresh
      · rw [equal, children_of_some (new_self mem shape)] at member
        rw [leaf] at member
        cases member
      · rw [children_congr (new_of_ne mem shape equal)] at member
        exact custody.apart parent child member
    base := custody.base.trans (Nat.le_succ _)
    unowned := custody.unowned }

theorem frame_new (mem : Memory) (shape : Shape) (touched : List JsonId) :
    Frame touched mem (mem.new shape) :=
  { fresh := Nat.le_succ _
    kept := fun _ value found inside _ =>
      ⟨value, (new_of_ne mem shape (Nat.ne_of_lt inside)).symm.trans found, rfl⟩ }

theorem Readable.new {ref : Option JsonRef} (readable : Readable mem ref) (shape : Shape) :
    Readable (mem.new shape) ref := by
  intro id same
  by_cases equal : id = mem.fresh
  · rw [equal, new_self]
    rfl
  · rw [new_of_ne mem shape equal]
    exact readable id same

end Custody

/-! ## Changing a value -/

/-- The value that this refers to, if it is counted. -/
def idsOf (ref : Option JsonRef) : List JsonId := ref.elim [] JsonRef.ids

section Members
variable (key : Text) (members : List (Text × JsonRef))

/-- The members are the one of a key and the others. -/
theorem count_without (id : JsonId) : (Shape.object members).children.count id =
    (idsOf (members.lookup key)).count id +
      (Shape.object (without key members)).children.count id := by
  induction members with
  | nil => rfl
  | cons pair rest inductionHypothesis =>
    obtain ⟨name, ref⟩ := pair
    by_cases same : key = name
    · subst same
      simp [Shape.children, Shape.refs, idsOf, without, List.count_append]
    · have different : (name == key) = false := beq_false_of_ne (Ne.symm same)
      have unlike : (key == name) = false := beq_false_of_ne same
      simp only [Shape.children, Shape.refs, without, List.map_cons, List.flatMap_cons,
        List.count_append, List.lookup_cons, unlike, List.eraseP_cons, different,
        cond_false] at inductionHypothesis ⊢
      omega

theorem without_children : (Shape.object (without key members)).children ⊆
    (Shape.object members).children := by
  intro id member
  have counted := count_without key members id
  have positive := List.count_pos_iff.mpr member
  exact List.count_pos_iff.mp (by omega)

theorem lookup_without {other : Text} (different : other ≠ key) :
    (without key members).lookup other = members.lookup other := by
  induction members with
  | nil => rfl
  | cons pair rest inductionHypothesis =>
    obtain ⟨name, ref⟩ := pair
    by_cases same : name = key
    · have unlike : (other == name) = false := beq_false_of_ne (same ▸ different)
      simp [without, same, List.lookup_cons, beq_false_of_ne different]
    · have unlike : (name == key) = false := beq_false_of_ne same
      rw [without] at inductionHypothesis
      simp [without, unlike, List.lookup_cons, inductionHypothesis]

end Members

section Changes
variable {base : JsonId} {hand : List JsonId} {mem : Memory} {id : JsonId} {value : Value}

theorem frame_reshape (mem : Memory) (id : JsonId) (shape : Shape) :
    Frame [id] mem (mem.reshape id shape) :=
  { fresh := Nat.le_refl _
    kept := fun other kept reached _ untouched => by
      rw [reshape_of_ne mem id shape fun equal => untouched (equal ▸ List.mem_singleton.mpr rfl)]
        at reached
      exact ⟨kept, reached, rfl⟩ }

theorem Custody.reshape (custody : Custody base hand mem) (found : mem.values id = some value)
    {shape : Shape} {left : List JsonId}
    (conserved : ∀ other, shape.children.count other + left.count other =
      value.shape.children.count other + hand.count other)
    (levels : ∃ level : JsonId → Nat, ∀ parent child,
      child ∈ (mem.reshape id shape).children parent → level parent < level child)
    (above : ∀ child ∈ shape.children, child ∈ value.shape.children ∨ base ≤ child) :
    Custody base left (mem.reshape id shape) :=
  { sound := custody.sound.reshape found (fun other => by
      have balance := conserved other
      change _ + (left ++ mem.owned).count other = _
      rw [List.count_append, List.count_append]
      omega) levels
    single := fun other kept reached => by
      obtain ⟨old, before, refs⟩ := reshape_refs shape reached
      exact refs.trans (custody.single other old before)
    apart := fun parent child member later => by
      by_cases equal : parent = id
      · subst equal
        rw [children_reshape found] at member
        refine (above child member).elim (fun old => ?_) (fun new => new)
        exact custody.apart parent child (by rwa [children_of_some found]) later
      · rw [children_congr (reshape_of_ne mem id shape equal)] at member
        exact custody.apart parent child member later
    base := custody.base
    unowned := custody.unowned }

/-- A value in the hand can be stored in another: it has no parts, or the other is part of
nothing. -/
def Storable (base : JsonId) (mem : Memory) (id : JsonId) (ref : JsonRef) : Prop :=
  ∀ new ∈ ref.ids, new ≠ id ∧ base ≤ new ∧ (mem.children new = [] ∨ mem.incoming id = 0)

/-- Storing the reference in the hand, in a shape with some of the parts that were there. -/
theorem Custody.store {ref : JsonRef} (custody : Custody base ref.ids mem)
    (found : mem.values id = some value) (storable : Storable base mem id ref)
    {shape : Shape} {left : List JsonId}
    (conserved : ∀ other, shape.children.count other + left.count other =
      value.shape.children.count other + ref.ids.count other) :
    Custody base left (mem.reshape id shape) := by
  have known : ∀ child ∈ shape.children, child ∈ value.shape.children ∨ child ∈ ref.ids := by
    intro child member
    have counted := conserved child
    have positive := List.count_pos_iff.mpr member
    rcases Nat.add_pos_iff_pos_or_pos.mp (counted ▸ Nat.add_pos_left positive _) with old | new
    · exact Or.inl (List.count_pos_iff.mp old)
    · exact Or.inr (List.count_pos_iff.mp new)
  refine custody.reshape found conserved ?_ fun child member =>
    (known child member).imp (fun old => old) fun new => (storable child new).2.1
  cases ref with
  | constant =>
    refine custody.sound.levels_less found fun child member => ?_
    rw [children_of_some found]
    exact (known child member).resolve_right (List.not_mem_nil)
  | counted new =>
    obtain ⟨different, -, free⟩ := storable new (List.mem_singleton.mpr rfl)
    refine custody.sound.levels_more found (fun child member => ?_) different
      (custody.unreferred List.mem_cons_self) free
    rw [children_of_some found]
    exact (known child member).imp (fun old => old) List.mem_singleton.mp

/-- The reference in the hand becomes a member. -/
theorem setMember_yields {ref : JsonRef} {members : List (Text × JsonRef)}
    (custody : Custody base ref.ids mem) (found : mem.values id = some value)
    (object : value.shape = .object members) (storable : Storable base mem id ref) (key : Text) :
    Yields (setMember id key ref members mem) fun _ after =>
      Custody base [] after ∧ after.owned = mem.owned ∧ Frame [id] mem after := by
  have stored : Custody base (idsOf (members.lookup key))
      (mem.reshape id (.object ((key, ref) :: without key members))) := by
    refine custody.store found storable fun other => ?_
    have parts := count_without key members other
    have whole : (Shape.object ((key, ref) :: without key members)).children.count other =
        ref.ids.count other + (Shape.object (without key members)).children.count other :=
      List.count_append
    rw [object]
    omega
  refine yields_run rfl ?_
  cases replaced : members.lookup key with
  | none =>
    rw [replaced] at stored
    exact yields_pure () ⟨stored, rfl, frame_reshape mem id _⟩
  | some old =>
    rw [replaced] at stored
    exact yields_mono (drop_yields stored [id])
      fun _ after ⟨kept, left, frame⟩ => ⟨kept, left, (frame_reshape mem id _).trans frame⟩

/-- A value is not stored in itself, but dropped. -/
theorem apart_yields {ref : JsonRef} {id : JsonId} {stores : Jansson Unit}
    (custody : Custody base [] mem) (owned : ∀ id ∈ ref.ids, id ∈ mem.owned)
    (stored : ref ≠ .counted id → Yields (stores { mem with owned := ref.outOf mem.owned })
      fun _ after => Custody base [] after ∧ after.owned = ref.outOf mem.owned ∧
        Frame [id] { mem with owned := ref.outOf mem.owned } after) :
    Yields ((if ref = .counted id then drop ref else stores)
        { mem with owned := ref.outOf mem.owned }) fun _ after =>
      Custody base [] after ∧ after.owned = ref.outOf mem.owned ∧ Frame [id] mem after := by
  by_cases itself : ref = .counted id
  · rw [if_pos itself]
    exact taken_drop_yields custody owned [id]
  · rw [if_neg itself]
    exact yields_mono (stored itself)
      fun _ _ ⟨kept, left, frame⟩ => ⟨kept, left, { frame with }⟩

/-- `json_object_set_new` with a reference that the code owns. -/
theorem jsonObjectSetNew_yields {object : Option JsonRef} (ref : JsonRef)
    (custody : Custody base [] mem) (readable : Readable mem object)
    (owned : ∀ id ∈ ref.ids, id ∈ mem.owned)
    (storable : ∀ id, object = some (.counted id) → ref ≠ .counted id → Storable base mem id ref)
    (key : Text) :
    Yields (jsonObjectSetNew object key (some ref) mem) fun _ after =>
      Custody base [] after ∧ after.owned = ref.outOf mem.owned ∧
        Frame (idsOf object) mem after := by
  have taken := custody.taken owned
  have dropped := taken_drop_yields custody owned (idsOf object)
  refine yields_run (take_eq owned) (yields_run (shapeOf_eq readable) ?_)
  cases object with
  | none => exact dropped
  | some target =>
    cases target with
    | constant => exact dropped
    | counted id =>
      obtain ⟨value, found⟩ := Option.isSome_iff_exists.mp (readable id rfl)
      have known : ({ mem with owned := ref.outOf mem.owned } : Memory).shape
          (some (.counted id)) = some value.shape := congrArg (Option.map Value.shape) found
      rw [known]
      cases shape : value.shape with
      | object members =>
        exact apart_yields custody owned fun different =>
          setMember_yields taken found shape (storable id rfl different) key
      | array elements => exact dropped
      | string text => exact dropped
      | number => exact dropped

/-- `json_array_append_new` with a reference that the code owns. -/
theorem jsonArrayAppendNew_yields {array : Option JsonRef} (ref : JsonRef)
    (custody : Custody base [] mem) (readable : Readable mem array)
    (owned : ∀ id ∈ ref.ids, id ∈ mem.owned)
    (storable : ∀ id, array = some (.counted id) → ref ≠ .counted id →
      Storable base mem id ref) :
    Yields (jsonArrayAppendNew array (some ref) mem) fun _ after =>
      Custody base [] after ∧ after.owned = ref.outOf mem.owned ∧
        Frame (idsOf array) mem after := by
  have taken := custody.taken owned
  have dropped := taken_drop_yields custody owned (idsOf array)
  refine yields_run (take_eq owned) (yields_run (shapeOf_eq readable) ?_)
  cases array with
  | none => exact dropped
  | some target =>
    cases target with
    | constant => exact dropped
    | counted id =>
      obtain ⟨value, found⟩ := Option.isSome_iff_exists.mp (readable id rfl)
      have known : ({ mem with owned := ref.outOf mem.owned } : Memory).shape
          (some (.counted id)) = some value.shape := congrArg (Option.map Value.shape) found
      rw [known]
      cases shape : value.shape with
      | array elements =>
        refine apart_yields custody owned fun different => ?_
        have stored : Custody base []
            (({ mem with owned := ref.outOf mem.owned } : Memory).reshape id
              (.array (elements ++ [ref]))) := by
          refine taken.store found (storable id rfl different) fun other => ?_
          simp [shape, Shape.children, Shape.refs, List.flatMap_append]
        exact ⟨(), _, rfl, stored, rfl, frame_reshape _ id _⟩
      | object members => exact dropped
      | string text => exact dropped
      | number => exact dropped

/-- `json_object_set_new` of a new string. -/
theorem setString_yields {object : Option JsonRef} (custody : Custody base [] mem)
    (readable : Readable mem object) (key : Text) (text : Option Text) :
    Yields (setString object key text mem) fun _ after =>
      Custody base [] after ∧ after.owned = mem.owned ∧ Frame (idsOf object) mem after := by
  cases text with
  | none => exact yields_run rfl (yields_pure () ⟨custody, rfl, Frame.refl mem⟩)
  | some text =>
    have leaf : (Shape.string text).children = [] := rfl
    have set := jsonObjectSetNew_yields (.counted mem.fresh) (custody.new (.string text) leaf)
      (readable.new (.string text))
      (fun id member => List.mem_singleton.mp member ▸ List.mem_cons_self)
      (fun id _ different new member => by
        obtain rfl := List.mem_singleton.mp member
        exact ⟨fun same => different (congrArg _ same), custody.base,
          Or.inl (children_of_some (new_self mem _))⟩) key
    have made : jsonString (some text) mem =
        some (some (.counted mem.fresh), mem.new (.string text)) := rfl
    refine yields_run made (yields_mono set ?_)
    rintro - after ⟨kept, left, frame⟩
    refine ⟨kept, left.trans ?_, (frame_new mem _ _).trans frame⟩
    exact List.erase_cons_head mem.fresh mem.owned

/-- `json_object_del` keeps the members of the other keys. -/
theorem jsonObjectDel_yields {object : Option JsonRef} (custody : Custody base [] mem)
    (readable : Readable mem object) (key : Text) :
    Yields (jsonObjectDel object key mem) fun _ after =>
      Custody base [] after ∧ after.owned = mem.owned ∧ Frame (idsOf object) mem after ∧
        ∀ other, other ≠ key → Readable after object →
          after.member object other = mem.member object other := by
  have unchanged : Yields ((pure () : Jansson Unit) mem) fun _ after =>
      Custody base [] after ∧ after.owned = mem.owned ∧ Frame (idsOf object) mem after ∧
        ∀ other, other ≠ key → Readable after object →
          after.member object other = mem.member object other :=
    yields_pure () ⟨custody, rfl, Frame.refl mem, fun _ _ _ => rfl⟩
  refine yields_run (shapeOf_eq readable) ?_
  cases object with
  | none => exact unchanged
  | some target =>
    cases target with
    | constant => exact unchanged
    | counted id =>
      obtain ⟨value, found⟩ := Option.isSome_iff_exists.mp (readable id rfl)
      have known : mem.shape (some (.counted id)) = some value.shape :=
        congrArg (Option.map Value.shape) found
      rw [known]
      cases shape : value.shape with
      | object members =>
        have parts := count_without key members
        have less : Custody base (idsOf (members.lookup key))
            (mem.reshape id (.object (without key members))) := by
          refine custody.reshape found (fun other => ?_) ?_ fun child member => ?_
          · have balance := parts other
            rw [shape, List.count_nil]
            omega
          · refine custody.sound.levels_less found fun child member => ?_
            rw [children_of_some found, shape]
            exact without_children key members member
          · exact Or.inl (shape ▸ without_children key members member)
        cases there : members.lookup key with
        | none =>
          simp only [there]
          exact unchanged
        | some removed =>
          simp only [there]
          rw [there] at less
          refine yields_run rfl (yields_mono (drop_yields less []) ?_)
          rintro - after ⟨kept, left, frame⟩
          refine ⟨kept, left, (frame_reshape mem id _).trans (frame.mono (List.nil_subset _)),
            fun other different read => ?_⟩
          have now := frame.shape (custody.sound.inside found) List.not_mem_nil read
          have stored : (mem.reshape id (.object (without key members))).shape
              (some (.counted id)) = some (.object (without key members)) := by
            rw [Memory.shape, reshape_self, found]
            rfl
          rw [Memory.member, Memory.member, now, stored, known, shape]
          exact lookup_without key members different
      | array elements => exact unchanged
      | string text => exact unchanged
      | number => exact unchanged

end Changes

/-! ## Documents -/

theorem outOf_append (ref : JsonRef) (owned : List JsonId) :
    ref.outOf (ref.ids ++ owned) = owned := by
  cases ref with
  | constant => rfl
  | counted id => exact List.erase_cons_head id owned

/-- A value that the code owns is stored in one that it owns. -/
theorem storable_owned {base : JsonId} {mem : Memory} (custody : Custody base [] mem)
    {id : JsonId} {ref : JsonRef} (owned : id ∈ mem.owned) (different : ref ≠ .counted id)
    (above : ∀ new ∈ ref.ids, base ≤ new) : Storable base mem id ref := by
  cases ref with
  | constant => exact fun new member => nomatch member
  | counted stored =>
    intro new member
    refine ⟨fun same => ?_, above new member, Or.inr (custody.unreferred owned)⟩
    exact different (congrArg _ ((List.mem_singleton.mp member).symm.trans same))

theorem readable_owned {base : JsonId} {mem : Memory} (custody : Custody base [] mem)
    {id : JsonId} (owned : id ∈ mem.owned) : Readable mem (some (.counted id)) := by
  rintro other ⟨⟩
  exact custody.sound.heldLive id owned

mutual

/-- Making the value of a document leaves the code with one reference more. -/
theorem jsonLoad_yields (document : Document) {mem : Memory} (custody : Custody 0 [] mem) :
    Yields (jsonLoad document mem) fun ref after =>
      Custody 0 [] after ∧ after.owned = ref.ids ++ mem.owned := by
  cases document with
  | object members =>
    have whole := loadMembers_yields members (custody.new (.object []) rfl) List.mem_cons_self
    exact yields_run rfl (yields_bind whole fun _ _ kept => yields_pure _ kept)
  | array elements =>
    have whole := loadElements_yields elements (custody.new (.array []) rfl) List.mem_cons_self
    exact yields_run rfl (yields_bind whole fun _ _ kept => yields_pure _ kept)
  | string text => exact ⟨_, _, rfl, custody.new _ rfl, rfl⟩
  | number => exact ⟨_, _, rfl, custody.new _ rfl, rfl⟩
  | constant => exact yields_pure _ ⟨custody, rfl⟩

/-- The members are made while the code owns the object that they are stored in. -/
theorem loadMembers_yields (members : List (Text × Document)) {mem : Memory} {id : JsonId}
    (custody : Custody 0 [] mem) (inside : id ∈ mem.owned) :
    Yields (loadMembers (.counted id) members mem) fun _ after =>
      Custody 0 [] after ∧ after.owned = mem.owned := by
  cases members with
  | nil => exact yields_pure _ ⟨custody, rfl⟩
  | cons member rest =>
    obtain ⟨key, document⟩ := member
    refine yields_bind (jsonLoad_yields document custody) fun ref made ⟨keptMade, ownedMade⟩ => ?_
    have here : id ∈ made.owned := ownedMade ▸ List.mem_append_right _ inside
    have set := jsonObjectSetNew_yields ref keptMade (readable_owned keptMade here)
      (fun new member => ownedMade ▸ List.mem_append_left _ member)
      (fun target same different => by
        obtain ⟨⟩ := same
        exact storable_owned keptMade here different fun _ _ => Nat.zero_le _) key
    refine yields_bind set fun _ stored ⟨keptStored, ownedStored, _⟩ => ?_
    rw [ownedMade, outOf_append] at ownedStored
    refine yields_mono (loadMembers_yields rest keptStored (ownedStored ▸ inside)) ?_
    rintro - after ⟨kept, owned⟩
    exact ⟨kept, owned.trans ownedStored⟩

theorem loadElements_yields (elements : List Document) {mem : Memory} {id : JsonId}
    (custody : Custody 0 [] mem) (inside : id ∈ mem.owned) :
    Yields (loadElements (.counted id) elements mem) fun _ after =>
      Custody 0 [] after ∧ after.owned = mem.owned := by
  cases elements with
  | nil => exact yields_pure _ ⟨custody, rfl⟩
  | cons document rest =>
    refine yields_bind (jsonLoad_yields document custody) fun ref made ⟨keptMade, ownedMade⟩ => ?_
    have here : id ∈ made.owned := ownedMade ▸ List.mem_append_right _ inside
    have stored := jsonArrayAppendNew_yields ref keptMade (readable_owned keptMade here)
      (fun new member => ownedMade ▸ List.mem_append_left _ member)
      fun target same different => by
        obtain ⟨⟩ := same
        exact storable_owned keptMade here different fun _ _ => Nat.zero_le _
    refine yields_bind stored fun _ stored ⟨keptStored, ownedStored, _⟩ => ?_
    rw [ownedMade, outOf_append] at ownedStored
    refine yields_mono (loadElements_yields rest keptStored (ownedStored ▸ inside)) ?_
    rintro - after ⟨kept, owned⟩
    exact ⟨kept, owned.trans ownedStored⟩

end

theorem custody_empty : Custody 0 [] Memory.empty :=
  { sound :=
      { live := fun _ _ member => nomatch member
        heldLive := fun _ member => nomatch member
        refs := fun _ _ found => nomatch found
        used := fun _ _ found => nomatch found
        bounded := fun _ _ => rfl
        freedOnce := List.nodup_nil
        freed := fun _ => iff_of_false List.not_mem_nil fun both => nomatch both.1
        levels := ⟨fun _ => 0, fun _ _ member => nomatch member⟩ }
    single := fun _ _ found => nomatch found
    apart := fun _ _ member _ => nomatch member
    base := Nat.le_refl _
    unowned := rfl }

/-- No value refers to one that is not made yet. -/
theorem Custody.atFresh {mem : Memory} (custody : Custody 0 [] mem) :
    Custody mem.fresh [] mem :=
  { custody with
    apart := fun _ _ member later =>
      absurd (custody.sound.parent member) (Nat.not_lt.mpr later)
    base := Nat.le_refl _ }

/-- A message. It is all that there is, and the code owns it. -/
structure Message where
  mem : Memory
  jmsg : JsonRef
  custody : Custody mem.fresh [] mem
  owned : mem.owned = jmsg.ids

theorem jsonLoad_isSome (document : Document) : (jsonLoad document Memory.empty).isSome := by
  obtain ⟨jmsg, mem, run, -⟩ := jsonLoad_yields document custody_empty
  rw [run]
  rfl

/-- What `json_loadb` makes of a document. -/
def Message.load (document : Document) : Message :=
  have made : Custody 0 [] ((jsonLoad document Memory.empty).get (jsonLoad_isSome document)).2 ∧
      ((jsonLoad document Memory.empty).get (jsonLoad_isSome document)).2.owned =
        ((jsonLoad document Memory.empty).get (jsonLoad_isSome document)).1.ids := by
    obtain ⟨jmsg, mem, run, custody, owned⟩ :=
      jsonLoad_yields document custody_empty
    simp only [run, Option.get_some]
    exact ⟨custody, owned.trans (List.append_nil _)⟩
  { mem := ((jsonLoad document Memory.empty).get (jsonLoad_isSome document)).2
    jmsg := ((jsonLoad document Memory.empty).get (jsonLoad_isSome document)).1
    custody := made.1.atFresh
    owned := made.2 }

theorem jsonLoad_eq (document : Document) : jsonLoad document Memory.empty =
    some ((Message.load document).jmsg, (Message.load document).mem) :=
  (Option.some_get (jsonLoad_isSome document)).symm

/-! ## What is left -/

/-- When the code owns no value before this one, none is left: each would have a reference, and so
be part of another that has one, and no value is part of itself. -/
theorem Custody.gone {base : JsonId} {mem : Memory} (custody : Custody base [] mem)
    (later : ∀ id ∈ mem.owned, base ≤ id) {id : JsonId} (before : id < base) :
    mem.values id = none := by
  obtain ⟨level, deeper⟩ := custody.sound.levels
  generalize depth : level id = bound
  induction bound using Nat.strong_induction_on generalizing id with
  | h bound inductionHypothesis =>
    cases found : mem.values id with
    | none => rfl
    | some value =>
      have owners := custody.sound.refs id value found
      have unowned : id ∉ mem.owned := fun member =>
        absurd (later id member) (Nat.not_le.mpr before)
      have unheld : ([] ++ mem.owned).count id = 0 := List.count_eq_zero.mpr unowned
      rw [custody.single id value found, unheld] at owners
      have referred : 0 < mem.incoming id := by omega
      obtain ⟨parent, member⟩ := incoming_parent referred
      have parentBefore : parent < base := by
        by_contra late
        exact absurd (custody.apart parent id member (Nat.not_lt.mp late)) (Nat.not_le.mpr before)
      have shallower := deeper parent id member
      have parentGone := inductionHypothesis (level parent) (depth ▸ shallower) parentBefore rfl
      rw [children_of_none parentGone] at member
      cases member

/-! ## What was not owned -/

/-- A program that forgets nothing that the code gave away without owning it. -/
def Remembers {α : Type} (program : Jansson α) : Prop :=
  ∀ mem result after, program mem = some (result, after) → mem.unowned ≠ [] → after.unowned ≠ []

/-- A run after which the code gave something away that it did not own. -/
def Overdraws {α : Type} (run : Option (α × Memory)) : Prop :=
  ∀ result after, run = some (result, after) → after.unowned ≠ []

section Remembers
variable {α β : Type} {mem : Memory}

theorem bind_some {program : Jansson α} {next : α → Jansson β} {result : β} {after : Memory}
    (run : (program >>= next) mem = some (result, after)) :
    ∃ first mid, program mem = some (first, mid) ∧ next first mid = some (result, after) := by
  change (program mem).bind _ = _ at run
  obtain ⟨pair, first, second⟩ := Option.bind_eq_some_iff.mp run
  exact ⟨pair.1, pair.2, first, second⟩

theorem remembers_pure (result : α) : Remembers (pure result : Jansson α) := by
  intro mem first after run
  obtain ⟨⟩ := Option.some.inj run
  exact id

theorem remembers_bind {program : Jansson α} {next : α → Jansson β} (first : Remembers program)
    (rest : ∀ result, Remembers (next result)) : Remembers (program >>= next) := by
  intro mem result after run before
  obtain ⟨middle, mid, runFirst, runRest⟩ := bind_some run
  exact rest middle mid result after runRest (first mem middle mid runFirst before)

theorem overdraws_run {program : Jansson α} {next : α → Jansson β} {result : α} {mid : Memory}
    (run : program mem = some (result, mid)) (rest : Overdraws (next result mid)) :
    Overdraws ((program >>= next) mem) := by
  intro final after whole
  obtain ⟨other, reached, runOther, runRest⟩ := bind_some whole
  obtain ⟨rfl, rfl⟩ := Prod.mk.inj (Option.some.inj (run.symm.trans runOther))
  exact rest final after runRest

theorem overdraws_bind {program : Jansson α} {next : α → Jansson β} {mid : α → Memory → Prop}
    (first : Yields (program mem) mid)
    (rest : ∀ result after, mid result after → Overdraws (next result after)) :
    Overdraws ((program >>= next) mem) := by
  obtain ⟨middle, between, run, holds⟩ := first
  exact overdraws_run run (rest middle between holds)

/-- When the first part gave away what the code did not own. -/
theorem overdraws_first {program : Jansson α} {next : α → Jansson β}
    (first : Overdraws (program mem)) (rest : ∀ result, Remembers (next result)) :
    Overdraws ((program >>= next) mem) := by
  intro result after run
  obtain ⟨middle, mid, runFirst, runRest⟩ := bind_some run
  exact rest middle mid result after runRest (first middle mid runFirst)

theorem decrefWithin_unowned (depth : Nat) : ∀ (mem : Memory) (ref : JsonRef) (after : Memory),
    decrefWithin depth mem ref = some after → after.unowned = mem.unowned := by
  induction depth with
  | zero =>
    intro mem ref after run
    cases ref with
    | constant => exact Option.some.inj run ▸ rfl
    | counted id => cases run
  | succ depth inductionHypothesis =>
    intro mem ref after run
    have all : ∀ (refs : List JsonRef) (mem after : Memory),
        refs.foldlM (decrefWithin depth) mem = some after → after.unowned = mem.unowned := by
      intro refs
      induction refs with
      | nil => exact fun mem after run => Option.some.inj run ▸ rfl
      | cons ref rest others =>
        intro mem after run
        rw [List.foldlM_cons] at run
        obtain ⟨next, first, second⟩ := Option.bind_eq_some_iff.mp run
        exact (others next after second).trans (inductionHypothesis mem ref next first)
    cases ref with
    | constant => exact Option.some.inj run ▸ rfl
    | counted id =>
      simp only [decrefWithin] at run
      split at run
      · cases run
      split at run
      · exact (all _ (mem.release id) after run)
      · exact Option.some.inj run ▸ rfl

theorem remembers_drop (ref : JsonRef) : Remembers (drop ref) := by
  intro mem result after run before
  obtain ⟨dropped, runDrop, same⟩ := Option.map_eq_some_iff.mp run
  obtain rfl := congrArg Prod.snd same
  exact (decrefWithin_unowned mem.fresh mem ref dropped runDrop).trans_ne before

theorem remembers_take (ref : JsonRef) : Remembers (take ref) := by
  intro mem result after run before
  cases ref with
  | constant => exact remembers_pure () mem result after run before
  | counted id =>
    obtain ⟨⟩ := Option.some.inj run
    rw [Memory.take]
    split
    · exact before
    · exact fun none => before (List.append_eq_nil_iff.mp none).1

theorem remembers_shapeOf (ref : Option JsonRef) : Remembers (shapeOf ref) := by
  intro mem result after run before
  cases ref with
  | none => exact remembers_pure none mem result after run before
  | some ref =>
    cases ref with
    | constant => exact remembers_pure none mem result after run before
    | counted id =>
      obtain ⟨value, -, same⟩ := Option.map_eq_some_iff.mp run
      obtain ⟨⟩ := same
      exact before

theorem remembers_setMember (id : JsonId) (key : Text) (value : JsonRef)
    (members : List (Text × JsonRef)) : Remembers (setMember id key value members) := by
  refine remembers_bind (fun mem result after run before => ?_) fun _ => ?_
  · obtain ⟨⟩ := Option.some.inj run
    exact before
  · cases members.lookup key with
    | none => exact remembers_pure ()
    | some replaced => exact remembers_drop replaced

theorem remembers_jsonDecref (ref : JsonRef) : Remembers (jsonDecref (some ref)) :=
  remembers_bind (remembers_take ref) fun _ => remembers_drop ref

/-- Giving away what the code does not own. -/
theorem overdraws_take {id : JsonId} (borrowed : id ∉ mem.owned) :
    Overdraws (take (.counted id) mem) := by
  intro result after run
  obtain ⟨⟩ := Option.some.inj run
  rw [Memory.take, if_neg borrowed]
  exact List.append_ne_nil_of_right_ne_nil _ (List.cons_ne_nil id [])

theorem overdraws_jsonDecref {id : JsonId} (borrowed : id ∉ mem.owned) :
    Overdraws (jsonDecref (some (.counted id)) mem) :=
  overdraws_first (overdraws_take borrowed) fun _ => remembers_drop _

theorem overdraws_jsonObjectSetNew {id : JsonId} (borrowed : id ∉ mem.owned)
    (object : Option JsonRef) (key : Text) :
    Overdraws (jsonObjectSetNew object key (some (.counted id)) mem) := by
  refine overdraws_first (overdraws_take borrowed) fun _ =>
    remembers_bind (remembers_shapeOf object) fun shape => ?_
  split
  · split
    · exact remembers_drop _
    · exact remembers_setMember _ _ _ _
  · exact remembers_drop _

end Remembers

end NetVirt.JsonCounts
