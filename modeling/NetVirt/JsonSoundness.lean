import NetVirt.JsonCounts

/-!
# Sound reference counts

The count of a value is the number of the references that other values and the code have to it.
Dropping an owned reference keeps this, whatever is freed with it, and reads no value that was
freed. As no value is part of itself, there is nothing left when no reference is owned.
-/

namespace NetVirt.JsonCounts

open Inet (Text)

/-- What a value refers to. -/
def Memory.children (mem : Memory) (parent : JsonId) : List JsonId :=
  match mem.values parent with
  | none => []
  | some value => value.shape.children

/-- How many references to a value the others have. -/
def Memory.incoming (mem : Memory) (id : JsonId) : Nat :=
  ∑ parent ∈ Finset.range mem.fresh, (mem.children parent).count id

/-- The counts are those of the references, when the code has these. -/
structure Sound (mem : Memory) (held : List JsonId) : Prop where
  live : ∀ parent child, child ∈ mem.children parent → (mem.values child).isSome
  heldLive : ∀ id ∈ held, (mem.values id).isSome
  refs : ∀ id value, mem.values id = some value →
    value.refs = mem.incoming id + held.count id
  used : ∀ id value, mem.values id = some value → 0 < value.refs
  bounded : ∀ id, mem.fresh ≤ id → mem.values id = none
  freedOnce : mem.freed.Nodup
  freed : ∀ id, id ∈ mem.freed ↔ id < mem.fresh ∧ mem.values id = none
  levels : ∃ level : JsonId → Nat, ∀ parent child, child ∈ mem.children parent →
    level parent < level child

theorem children_of_some {mem : Memory} {id : JsonId} {value : Value}
    (found : mem.values id = some value) : mem.children id = value.shape.children := by
  rw [Memory.children, found]

theorem children_of_none {mem : Memory} {id : JsonId} (gone : mem.values id = none) :
    mem.children id = [] := by
  rw [Memory.children, gone]

section Incoming
variable {mem after : Memory}

/-- When the references of one value are others. -/
theorem incoming_update {parent : JsonId}
    (others : ∀ other, other ≠ parent → after.children other = mem.children other)
    (fresh : after.fresh = mem.fresh) (inside : parent < mem.fresh) (id : JsonId) :
    after.incoming id + (mem.children parent).count id =
      mem.incoming id + (after.children parent).count id := by
  have member := Finset.mem_range.mpr inside
  have rest : ∑ other ∈ (Finset.range mem.fresh).erase parent, (after.children other).count id =
      ∑ other ∈ (Finset.range mem.fresh).erase parent, (mem.children other).count id :=
    Finset.sum_congr rfl fun other among => by rw [others other (Finset.ne_of_mem_erase among)]
  rw [Memory.incoming, Memory.incoming, fresh, ← Finset.add_sum_erase _ _ member,
    ← Finset.add_sum_erase _ _ member, rest]
  omega

theorem incoming_congr (same : ∀ parent, after.children parent = mem.children parent)
    (fresh : after.fresh = mem.fresh) (id : JsonId) :
    after.incoming id = mem.incoming id := by
  rw [Memory.incoming, Memory.incoming, fresh]
  exact Finset.sum_congr rfl fun parent _ => by rw [same parent]

/-- A value that is referred to has a reference. -/
theorem incoming_pos {parent child : JsonId} (inside : parent < mem.fresh)
    (member : child ∈ mem.children parent) : 0 < mem.incoming child := by
  have one : 0 < (mem.children parent).count child := List.count_pos_iff.mpr member
  rw [Memory.incoming, ← Finset.add_sum_erase _ _ (Finset.mem_range.mpr inside)]
  exact Nat.add_pos_left one _

/-- What has a reference is referred to. -/
theorem incoming_parent {child : JsonId} (positive : 0 < mem.incoming child) :
    ∃ parent, child ∈ mem.children parent := by
  by_contra none
  have zero : mem.incoming child = 0 := Finset.sum_eq_zero fun parent _ =>
    List.count_eq_zero.mpr fun member => none ⟨parent, member⟩
  omega

end Incoming

section Sound
variable {mem : Memory} {held : List JsonId} (sound : Sound mem held)
include sound

theorem Sound.inside {id : JsonId} {value : Value} (found : mem.values id = some value) :
    id < mem.fresh := by
  by_contra outside
  rw [sound.bounded id (Nat.not_lt.mp outside)] at found
  cases found

/-- Only what is there refers to something. -/
theorem Sound.parent {parent child : JsonId} (member : child ∈ mem.children parent) :
    parent < mem.fresh := by
  cases found : mem.values parent with
  | none =>
    rw [children_of_none found] at member
    cases member
  | some value => exact sound.inside found

/-- The order of the code's references plays no part. -/
theorem Sound.perm {other : List JsonId} (same : held.Perm other) : Sound mem other :=
  { sound with
    heldLive := fun id inside => sound.heldLive id (same.mem_iff.mpr inside)
    refs := fun id value found => by rw [sound.refs id value found, same.count_eq] }

end Sound

/-! ## What the functions do to the values -/

section Values
variable (mem : Memory) (id : JsonId)

@[simp]
theorem store_self (value : Value) : (mem.store id value).values id = some value :=
  Function.update_self id _ mem.values

@[simp]
theorem store_of_ne (value : Value) {other : JsonId} (apart : other ≠ id) :
    (mem.store id value).values other = mem.values other :=
  Function.update_of_ne apart _ mem.values

@[simp]
theorem release_self : (mem.release id).values id = none :=
  Function.update_self id _ mem.values

@[simp]
theorem release_of_ne {other : JsonId} (apart : other ≠ id) :
    (mem.release id).values other = mem.values other :=
  Function.update_of_ne apart _ mem.values

@[simp]
theorem reshape_self (shape : Shape) : (mem.reshape id shape).values id =
    (mem.values id).map fun value => { value with shape := shape } :=
  Function.update_self id _ mem.values

@[simp]
theorem reshape_of_ne (shape : Shape) {other : JsonId} (apart : other ≠ id) :
    (mem.reshape id shape).values other = mem.values other :=
  Function.update_of_ne apart _ mem.values

@[simp]
theorem new_self (shape : Shape) :
    (mem.new shape).values mem.fresh = some { refs := 1, shape := shape } :=
  store_self mem mem.fresh _

@[simp]
theorem new_of_ne (shape : Shape) {other : JsonId} (apart : other ≠ mem.fresh) :
    (mem.new shape).values other = mem.values other :=
  store_of_ne mem mem.fresh _ apart

/-- The values that are gone are the same when those that are there are. -/
theorem none_congr {mem after : Memory} {id : JsonId}
    (present : (after.values id).isSome = (mem.values id).isSome) :
    after.values id = none ↔ mem.values id = none := by
  rw [← Option.isNone_iff_eq_none, ← Option.isNone_iff_eq_none, ← Option.not_isSome,
    ← Option.not_isSome, present]

/-- A value refers to what it did when it is as it was. -/
theorem children_congr {mem after : Memory} {id : JsonId}
    (same : after.values id = mem.values id) : after.children id = mem.children id := by
  rw [Memory.children, Memory.children, same]

end Values

/-! ## Dropping references -/

section Drop
variable {mem : Memory} {held : List JsonId} {id : JsonId} {value : Value}

/-- One reference less, of several. -/
theorem Sound.count_down (sound : Sound mem (id :: held)) (found : mem.values id = some value)
    (several : value.refs ≠ 1) :
    Sound (mem.store id { value with refs := value.refs - 1 }) held := by
  have used := sound.used id value found
  have owners := sound.refs id value found
  rw [List.count_cons_self] at owners
  have present : ∀ other, ((mem.store id { value with refs := value.refs - 1 }).values
      other).isSome = (mem.values other).isSome := by
    intro other
    by_cases same : other = id
    · rw [same, store_self, found]
      rfl
    · rw [store_of_ne mem id _ same]
  have same : ∀ parent, (mem.store id { value with refs := value.refs - 1 }).children parent =
      mem.children parent := by
    intro parent
    by_cases equal : parent = id
    · rw [equal, children_of_some found, children_of_some (store_self mem id _)]
    · exact children_congr (store_of_ne mem id _ equal)
  refine
    { live := fun parent child member => ?_
      heldLive := fun other among => ?_
      refs := fun other kept reached => ?_
      used := fun other kept reached => ?_
      bounded := fun other outside => (none_congr (present other)).mpr (sound.bounded other outside)
      freedOnce := sound.freedOnce
      freed := fun other => (sound.freed other).trans
        (and_congr_right fun _ => (none_congr (present other)).symm)
      levels := ?_ }
  · rw [same] at member
    rw [present]
    exact sound.live parent child member
  · rw [present]
    exact sound.heldLive other (List.mem_cons_of_mem id among)
  · have counted : (mem.store id { value with refs := value.refs - 1 }).incoming other =
        mem.incoming other := incoming_congr same rfl other
    rw [counted]
    by_cases equal : other = id
    · subst equal
      obtain rfl := Option.some.inj ((store_self mem other _).symm.trans reached)
      change value.refs - 1 = _
      omega
    · rw [store_of_ne mem id _ equal] at reached
      rw [sound.refs other kept reached, List.count_cons_of_ne (Ne.symm equal)]
  · by_cases equal : other = id
    · subst equal
      obtain rfl := Option.some.inj ((store_self mem other _).symm.trans reached)
      change 0 < value.refs - 1
      omega
    · rw [store_of_ne mem id _ equal] at reached
      exact sound.used other kept reached
  · obtain ⟨level, deeper⟩ := sound.levels
    exact ⟨level, fun parent child member => deeper parent child (same parent ▸ member)⟩

/-- With the last reference a value is freed, and its own references have to be dropped. -/
theorem Sound.release (sound : Sound mem (id :: held)) (found : mem.values id = some value)
    (last : value.refs = 1) : Sound (mem.release id) (value.shape.children ++ held) := by
  have owners := sound.refs id value found
  rw [List.count_cons_self, last] at owners
  have unused : mem.incoming id = 0 := by omega
  have unheld : id ∉ held := List.count_eq_zero.mp (by omega)
  have inside := sound.inside found
  have apart : ∀ parent child, child ∈ mem.children parent → child ≠ id := by
    rintro parent child member rfl
    have positive := incoming_pos (sound.parent member) member
    omega
  have others : ∀ other, other ≠ id → (mem.release id).children other = mem.children other :=
    fun other different => children_congr (release_of_ne mem id different)
  have gone : (mem.release id).children id = [] := children_of_none (release_self mem id)
  have alive : id ∉ mem.freed := by
    rw [sound.freed id, found]
    exact fun both => nomatch both.2
  refine
    { live := fun parent child member => ?_
      heldLive := fun other among => ?_
      refs := fun other kept reached => ?_
      used := fun other kept reached => ?_
      bounded := fun other outside => ?_
      freedOnce := ?_
      freed := fun other => ?_
      levels := ?_ }
  · by_cases equal : parent = id
    · rw [equal, gone] at member
      cases member
    · rw [others parent equal] at member
      rw [release_of_ne mem id (apart parent child member)]
      exact sound.live parent child member
  · rcases List.mem_append.mp among with child | own
    · have member : other ∈ mem.children id := by rwa [children_of_some found]
      rw [release_of_ne mem id (apart id other member)]
      exact sound.live id other member
    · rw [release_of_ne mem id fun same => unheld (same ▸ own)]
      exact sound.heldLive other (List.mem_cons_of_mem id own)
  · have different : other ≠ id := by
      rintro rfl
      rw [release_self] at reached
      cases reached
    rw [release_of_ne mem id different] at reached
    have moved : (mem.release id).incoming other + (mem.children id).count other =
        mem.incoming other + ((mem.release id).children id).count other :=
      incoming_update others rfl inside other
    rw [gone, List.count_nil, children_of_some found] at moved
    rw [sound.refs other kept reached, List.count_cons_of_ne (Ne.symm different),
      List.count_append]
    omega
  · have different : other ≠ id := by
      rintro rfl
      rw [release_self] at reached
      cases reached
    rw [release_of_ne mem id different] at reached
    exact sound.used other kept reached
  · have different : other ≠ id := by
      rintro rfl
      exact absurd inside (Nat.not_lt.mpr outside)
    rw [release_of_ne mem id different]
    exact sound.bounded other outside
  · change (mem.freed ++ [id]).Nodup
    rw [← List.concat_eq_append, List.nodup_concat]
    exact ⟨alive, sound.freedOnce⟩
  · change other ∈ mem.freed ++ [id] ↔ _
    rw [List.mem_append, List.mem_singleton, sound.freed other]
    by_cases equal : other = id
    · rw [equal, release_self]
      exact iff_of_true (Or.inr rfl) ⟨inside, rfl⟩
    · rw [release_of_ne mem id equal]
      exact or_iff_left equal
  · obtain ⟨level, deeper⟩ := sound.levels
    refine ⟨level, fun parent child member => ?_⟩
    by_cases equal : parent = id
    · rw [equal, gone] at member
      cases member
    · exact deeper parent child (others parent equal ▸ member)

end Drop

/-! ## Storing references -/

section Store
variable {mem : Memory} {held : List JsonId} {id : JsonId} {value : Value}

theorem children_reshape (found : mem.values id = some value) (shape : Shape) :
    (mem.reshape id shape).children id = shape.children := by
  have stored : (mem.reshape id shape).values id = some { value with shape := shape } := by
    rw [reshape_self, found]
    rfl
  exact children_of_some stored

theorem reshape_isSome (found : mem.values id = some value) (shape : Shape) (other : JsonId) :
    ((mem.reshape id shape).values other).isSome = (mem.values other).isSome := by
  by_cases equal : other = id
  · rw [equal, reshape_self, found]
    rfl
  · rw [reshape_of_ne mem id shape equal]

theorem reshape_refs (shape : Shape) {other : JsonId} {kept : Value}
    (reached : (mem.reshape id shape).values other = some kept) :
    ∃ old, mem.values other = some old ∧ kept.refs = old.refs := by
  by_cases equal : other = id
  · subst equal
    rw [reshape_self] at reached
    obtain ⟨old, found, rfl⟩ := Option.map_eq_some_iff.mp reached
    exact ⟨old, found, rfl⟩
  · rw [reshape_of_ne mem id shape equal] at reached
    exact ⟨kept, reached, rfl⟩

/-- The references that a value loses are the code's, and those it gets were. -/
theorem Sound.reshape (sound : Sound mem held) (found : mem.values id = some value)
    {shape : Shape} {left : List JsonId}
    (conserved : ∀ other, shape.children.count other + left.count other =
      value.shape.children.count other + held.count other)
    (levels : ∃ level : JsonId → Nat, ∀ parent child,
      child ∈ (mem.reshape id shape).children parent → level parent < level child) :
    Sound (mem.reshape id shape) left := by
  have present := reshape_isSome found shape
  have reachable : ∀ other, 0 < shape.children.count other + left.count other →
      (mem.values other).isSome := by
    intro other positive
    rw [conserved other] at positive
    rcases Nat.add_pos_iff_pos_or_pos.mp positive with child | own
    · refine sound.live id other ?_
      rw [children_of_some found]
      exact List.count_pos_iff.mp child
    · exact sound.heldLive other (List.count_pos_iff.mp own)
  refine
    { live := fun parent child member => ?_
      heldLive := fun other among => ?_
      refs := fun other kept reached => ?_
      used := fun other kept reached => ?_
      bounded := fun other outside => (none_congr (present other)).mpr (sound.bounded other outside)
      freedOnce := sound.freedOnce
      freed := fun other => (sound.freed other).trans
        (and_congr_right fun _ => (none_congr (present other)).symm)
      levels := levels }
  · rw [present]
    by_cases equal : parent = id
    · rw [equal, children_reshape found] at member
      exact reachable child (Nat.add_pos_left (List.count_pos_iff.mpr member) _)
    · rw [children_congr (reshape_of_ne mem id shape equal)] at member
      exact sound.live parent child member
  · rw [present]
    exact reachable other (Nat.add_pos_right _ (List.count_pos_iff.mpr among))
  · obtain ⟨old, before, refs⟩ := reshape_refs shape reached
    have moved : (mem.reshape id shape).incoming other + (mem.children id).count other =
        mem.incoming other + ((mem.reshape id shape).children id).count other :=
      incoming_update (fun other different => children_congr (reshape_of_ne mem id shape different))
        rfl (sound.inside found) other
    rw [children_reshape found, children_of_some found] at moved
    have owners := sound.refs other old before
    have balance := conserved other
    omega
  · obtain ⟨old, before, refs⟩ := reshape_refs shape reached
    rw [refs]
    exact sound.used other old before

/-- No value is part of itself when a value is only made less. -/
theorem Sound.levels_less (sound : Sound mem held) (found : mem.values id = some value)
    {shape : Shape} (less : ∀ child ∈ shape.children, child ∈ mem.children id) :
    ∃ level : JsonId → Nat, ∀ parent child,
      child ∈ (mem.reshape id shape).children parent → level parent < level child := by
  obtain ⟨level, deeper⟩ := sound.levels
  refine ⟨level, fun parent child member => ?_⟩
  by_cases equal : parent = id
  · rw [equal, children_reshape found] at member
    exact equal ▸ deeper id child (less child member)
  · exact deeper parent child (children_congr (reshape_of_ne mem id shape equal) ▸ member)

/-- Nor when a value becomes part of another, of which one has no parts or the other is part of
nothing. -/
theorem Sound.levels_more (sound : Sound mem held) (found : mem.values id = some value)
    {shape : Shape} {new : JsonId} (more : ∀ child ∈ shape.children, child ∈ mem.children id ∨
      child = new) (different : new ≠ id) (single : mem.incoming new = 0)
    (apart : mem.children new = [] ∨ mem.incoming id = 0) :
    ∃ level : JsonId → Nat, ∀ parent child,
      child ∈ (mem.reshape id shape).children parent → level parent < level child := by
  obtain ⟨level, deeper⟩ := sound.levels
  have unreferred : ∀ {target}, mem.incoming target = 0 → ∀ parent,
      target ∉ mem.children parent := by
    intro target zero parent member
    have positive := incoming_pos (sound.parent member) member
    omega
  have others : ∀ parent, parent ≠ id →
      (mem.reshape id shape).children parent = mem.children parent :=
    fun parent other => children_congr (reshape_of_ne mem id shape other)
  rcases apart with leaf | top
  · refine ⟨Function.update level new (level id + 1), fun parent child member => ?_⟩
    by_cases equal : parent = id
    · rw [equal, children_reshape found] at member
      rw [equal, Function.update_of_ne (Ne.symm different)]
      by_cases added : child = new
      · rw [added, Function.update_self]
        exact Nat.lt_succ_self _
      · rw [Function.update_of_ne added]
        exact deeper id child ((more child member).resolve_right added)
    · rw [others parent equal] at member
      have parentOld : parent ≠ new := by
        rintro rfl
        rw [leaf] at member
        cases member
      have childOld : child ≠ new := by
        rintro rfl
        exact unreferred single parent member
      rw [Function.update_of_ne parentOld, Function.update_of_ne childOld]
      exact deeper parent child member
  · refine ⟨fun other => if other = id then 0 else level other + 1, fun parent child member => ?_⟩
    have below : child ≠ id := by
      rintro rfl
      by_cases equal : parent = child
      · rw [equal, children_reshape found] at member
        exact (more child member).elim (unreferred top child) (Ne.symm different)
      · exact unreferred top parent (others parent equal ▸ member)
    simp only [below, if_false]
    split
    · exact Nat.succ_pos _
    · next other => exact Nat.succ_lt_succ (deeper parent child (others parent other ▸ member))

/-- A new value, which the code refers to. -/
theorem Sound.new (sound : Sound mem held) (shape : Shape) (leaf : shape.children = []) :
    Sound (mem.new shape) (mem.fresh :: held) := by
  have unused : mem.values mem.fresh = none := sound.bounded mem.fresh (Nat.le_refl _)
  have self := new_self mem shape
  have others : ∀ {other}, other ≠ mem.fresh → (mem.new shape).values other = mem.values other :=
    fun different => new_of_ne mem shape different
  have children : ∀ parent, (mem.new shape).children parent = mem.children parent := by
    intro parent
    by_cases equal : parent = mem.fresh
    · rw [equal, children_of_some self, children_of_none unused]
      exact leaf
    · exact children_congr (others equal)
  have incoming : ∀ other, (mem.new shape).incoming other = mem.incoming other := by
    intro other
    refine (Finset.sum_range_succ _ mem.fresh).trans ?_
    rw [children mem.fresh, children_of_none unused, List.count_nil, Nat.add_zero]
    exact Finset.sum_congr rfl fun parent _ => by rw [children parent]
  have present : ∀ other, (mem.values other).isSome →
      ((mem.new shape).values other).isSome := by
    intro other there
    by_cases equal : other = mem.fresh
    · rw [equal, self]
      rfl
    · rwa [others equal]
  have absent : mem.fresh ∉ held := by
    intro member
    have there := sound.heldLive mem.fresh member
    rw [unused] at there
    cases there
  have unreferred : mem.incoming mem.fresh = 0 := by
    by_contra referred
    obtain ⟨parent, member⟩ := incoming_parent (Nat.pos_of_ne_zero referred)
    have there := sound.live parent mem.fresh member
    rw [unused] at there
    cases there
  refine
    { live := fun parent child member => ?_
      heldLive := fun other among => ?_
      refs := fun other kept reached => ?_
      used := fun other kept reached => ?_
      bounded := fun other outside => ?_
      freedOnce := sound.freedOnce
      freed := fun other => (sound.freed other).trans ?_
      levels := ?_ }
  · exact present child (sound.live parent child (children parent ▸ member))
  · rcases List.mem_cons.mp among with rfl | own
    · exact Option.isSome_iff_exists.mpr ⟨_, self⟩
    · exact present other (sound.heldLive other own)
  · rw [incoming other]
    by_cases equal : other = mem.fresh
    · subst equal
      obtain rfl := Option.some.inj (self.symm.trans reached)
      rw [List.count_cons_self, List.count_eq_zero.mpr absent, unreferred]
    · rw [List.count_cons_of_ne (Ne.symm equal)]
      exact sound.refs other kept ((others equal).symm.trans reached)
  · by_cases equal : other = mem.fresh
    · subst equal
      obtain rfl := Option.some.inj (self.symm.trans reached)
      exact Nat.one_pos
    · exact sound.used other kept ((others equal).symm.trans reached)
  · have above : mem.fresh < other := outside
    exact (others (Nat.ne_of_gt above)).trans (sound.bounded other (Nat.le_of_lt above))
  · by_cases equal : other = mem.fresh
    · rw [equal]
      refine iff_of_false (fun both => Nat.lt_irrefl _ both.1) (fun both => ?_)
      cases self.symm.trans both.2
    · refine and_congr ?_ (by rw [← others equal])
      exact (Nat.lt_succ_iff_lt_or_eq.trans (or_iff_left equal)).symm
  · obtain ⟨level, deeper⟩ := sound.levels
    exact ⟨level, fun parent child member => deeper parent child (children parent ▸ member)⟩

end Store

/-! ## What goes with a reference -/

/-- What dropping references leaves: of the values some, with no more references than before. -/
structure Pruned (mem after : Memory) : Prop where
  fresh : after.fresh = mem.fresh
  owned : after.owned = mem.owned
  unowned : after.unowned = mem.unowned
  kept : ∀ id value, after.values id = some value →
    ∃ old, mem.values id = some old ∧ value.shape = old.shape ∧ value.refs ≤ old.refs

theorem Pruned.refl (mem : Memory) : Pruned mem mem :=
  { fresh := rfl
    owned := rfl
    unowned := rfl
    kept := fun _ value found => ⟨value, found, rfl, Nat.le_refl _⟩ }

theorem Pruned.trans {first second third : Memory} (before : Pruned first second)
    (after : Pruned second third) : Pruned first third :=
  { fresh := after.fresh.trans before.fresh
    owned := after.owned.trans before.owned
    unowned := after.unowned.trans before.unowned
    kept := fun id value found => by
      obtain ⟨middle, foundMiddle, shape, refs⟩ := after.kept id value found
      obtain ⟨old, foundOld, shapeOld, refsOld⟩ := before.kept id middle foundMiddle
      exact ⟨old, foundOld, shape.trans shapeOld, refs.trans refsOld⟩ }

theorem Pruned.children {mem after : Memory} (pruned : Pruned mem after) {parent child : JsonId}
    (member : child ∈ after.children parent) : child ∈ mem.children parent := by
  cases found : after.values parent with
  | none =>
    rw [children_of_none found] at member
    cases member
  | some value =>
    obtain ⟨old, foundOld, shape, -⟩ := pruned.kept parent value found
    rwa [children_of_some found, shape, ← children_of_some foundOld] at member

theorem pruned_count_down {mem : Memory} {id : JsonId} {value : Value}
    (found : mem.values id = some value) :
    Pruned mem (mem.store id { value with refs := value.refs - 1 }) :=
  { fresh := rfl
    owned := rfl
    unowned := rfl
    kept := fun other kept reached => by
      by_cases equal : other = id
      · subst equal
        obtain rfl := Option.some.inj ((store_self mem other _).symm.trans reached)
        exact ⟨value, found, rfl, Nat.sub_le _ _⟩
      · rw [store_of_ne mem id _ equal] at reached
        exact ⟨kept, reached, rfl, Nat.le_refl _⟩ }

theorem pruned_release (mem : Memory) (id : JsonId) : Pruned mem (mem.release id) :=
  { fresh := rfl
    owned := rfl
    unowned := rfl
    kept := fun other kept reached => by
      have different : other ≠ id := by
        rintro rfl
        rw [release_self] at reached
        cases reached
      rw [release_of_ne mem id different] at reached
      exact ⟨kept, reached, rfl, Nat.le_refl _⟩ }

/-- The values that are there. -/
def Memory.alive (mem : Memory) : Finset JsonId :=
  (Finset.range mem.fresh).filter fun id => (mem.values id).isSome

theorem mem_alive {mem : Memory} {id : JsonId} :
    id ∈ mem.alive ↔ id < mem.fresh ∧ (mem.values id).isSome := by
  rw [Memory.alive, Finset.mem_filter, Finset.mem_range]

theorem alive_fresh (mem : Memory) : mem.alive.card ≤ mem.fresh := by
  have within : mem.alive ⊆ Finset.range mem.fresh := Finset.filter_subset _ _
  exact (Finset.card_le_card within).trans (Finset.card_range mem.fresh).le

theorem Pruned.alive {mem after : Memory} (pruned : Pruned mem after) :
    after.alive ⊆ mem.alive := by
  intro id member
  obtain ⟨inside, there⟩ := mem_alive.mp member
  obtain ⟨value, found⟩ := Option.isSome_iff_exists.mp there
  obtain ⟨old, foundOld, -⟩ := pruned.kept id value found
  exact mem_alive.mpr ⟨pruned.fresh ▸ inside, Option.isSome_iff_exists.mpr ⟨old, foundOld⟩⟩

theorem alive_release {mem : Memory} {id : JsonId} (member : id ∈ mem.alive) :
    (mem.release id).alive.card < mem.alive.card := by
  refine Finset.card_lt_card (Finset.ssubset_iff_subset_ne.mpr ⟨(pruned_release mem id).alive, ?_⟩)
  intro same
  rw [← same, mem_alive, release_self] at member
  cases member.2

/-- Dropping the references of a list keeps the counts when dropping each does. -/
theorem foldlM_sound {drop : Memory → JsonRef → Option Memory} {bound : Nat}
    (each : ∀ mem ref held, Sound mem (ref.ids ++ held) → mem.alive.card ≤ bound →
      ∃ after, drop mem ref = some after ∧ Sound after held ∧ Pruned mem after)
    (refs : List JsonRef) (mem : Memory) (held : List JsonId)
    (sound : Sound mem (refs.flatMap JsonRef.ids ++ held)) (enough : mem.alive.card ≤ bound) :
    ∃ after, refs.foldlM drop mem = some after ∧ Sound after held ∧ Pruned mem after := by
  induction refs generalizing mem with
  | nil => exact ⟨mem, rfl, sound, Pruned.refl mem⟩
  | cons ref rest inductionHypothesis =>
    rw [List.flatMap_cons, List.append_assoc] at sound
    obtain ⟨next, dropped, soundNext, pruned⟩ := each mem ref _ sound enough
    obtain ⟨after, run, soundAfter, prunedAfter⟩ := inductionHypothesis next soundNext
      ((Finset.card_le_card pruned.alive).trans enough)
    exact ⟨after, by rw [List.foldlM_cons, dropped]; exact run, soundAfter,
      pruned.trans prunedAfter⟩

/-- Dropping a reference of the code ends, and keeps the counts. The depth is the number of
values that are left. -/
theorem decrefWithin_sound (depth : Nat) : ∀ (mem : Memory) (ref : JsonRef) (held : List JsonId),
    Sound mem (ref.ids ++ held) → mem.alive.card ≤ depth →
    ∃ after, decrefWithin depth mem ref = some after ∧ Sound after held ∧ Pruned mem after := by
  induction depth with
  | zero =>
    intro mem ref held sound enough
    cases ref with
    | constant => exact ⟨mem, rfl, sound, Pruned.refl mem⟩
    | counted id =>
      obtain ⟨value, found⟩ := Option.isSome_iff_exists.mp (sound.heldLive id List.mem_cons_self)
      have there : id ∈ mem.alive :=
        mem_alive.mpr ⟨sound.inside found, Option.isSome_iff_exists.mpr ⟨value, found⟩⟩
      rw [Finset.card_eq_zero.mp (Nat.le_zero.mp enough)] at there
      exact absurd there (Finset.notMem_empty id)
  | succ depth inductionHypothesis =>
    intro mem ref held sound enough
    cases ref with
    | constant => exact ⟨mem, rfl, sound, Pruned.refl mem⟩
    | counted id =>
      obtain ⟨value, found⟩ := Option.isSome_iff_exists.mp (sound.heldLive id List.mem_cons_self)
      by_cases last : value.refs = 1
      · have there : id ∈ mem.alive :=
          mem_alive.mpr ⟨sound.inside found, Option.isSome_iff_exists.mpr ⟨value, found⟩⟩
        have fewer := alive_release there
        obtain ⟨after, run, soundAfter, pruned⟩ := foldlM_sound inductionHypothesis value.shape.refs
          (mem.release id) held (sound.release found last) (by omega)
        refine ⟨after, ?_, soundAfter, (pruned_release mem id).trans pruned⟩
        simp only [decrefWithin, found, last, if_true]
        exact run
      · refine ⟨_, ?_, sound.count_down found last, pruned_count_down found⟩
        simp only [decrefWithin, found, last, if_false]

end NetVirt.JsonCounts
