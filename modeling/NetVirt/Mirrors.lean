import Mathlib.Data.Set.Insert

/-!
# A mirror of members in groups

A copy of the members of some groups, kept by updates that wait in a queue. The copy knows
the groups it was told about and ignores members of others. What matters about a queue is
the mirror that it will leave: whether that has no member too many, and whether it has every
member of the groups it knows.
-/

namespace NetVirt.Mirrors

universe u v

@[ext]
structure Mirror (Group : Type u) (Member : Type v) where
  groups : Set Group
  members : Set (Group × Member)

inductive Update (Group : Type u) (Member : Type v) where
  | group (group : Group)
  | add (group : Group) (member : Member)
  | remove (group : Group) (member : Member)

variable {Group : Type u} {Member : Type v}

namespace Mirror

def apply (mirror : Mirror Group Member) : Update Group Member → Mirror Group Member
  | .group group => { mirror with groups := insert group mirror.groups }
  | .add group member => { mirror with
      members := {pair | pair ∈ mirror.members ∨ pair = (group, member) ∧ group ∈ mirror.groups} }
  | .remove group member => { mirror with members := mirror.members \ {(group, member)} }

/-- The mirror after the updates of a queue. -/
def replay (mirror : Mirror Group Member) (updates : List (Update Group Member)) :
    Mirror Group Member :=
  updates.foldl apply mirror

variable (mirror : Mirror Group Member)

@[simp]
theorem replay_nil : mirror.replay [] = mirror := rfl

@[simp]
theorem replay_cons (update : Update Group Member) (rest : List (Update Group Member)) :
    mirror.replay (update :: rest) = (mirror.apply update).replay rest := rfl

@[simp]
theorem replay_append (early late : List (Update Group Member)) :
    mirror.replay (early ++ late) = (mirror.replay early).replay late :=
  List.foldl_append

/-- Groups alone bring no members. -/
theorem replay_groups (groups : List Group) :
    (mirror.replay (groups.map .group)).members = mirror.members := by
  induction groups generalizing mirror with
  | nil => rfl
  | cons group rest inductionHypothesis => exact inductionHypothesis (mirror.apply (.group group))

/-- A list of members brings those of the known groups, and no group. -/
theorem replay_adds (pairs : List (Group × Member)) :
    (mirror.replay (pairs.map fun pair => .add pair.1 pair.2)).groups = mirror.groups ∧
    ∀ pair, pair ∈ (mirror.replay (pairs.map fun pair => .add pair.1 pair.2)).members ↔
      pair ∈ mirror.members ∨ pair ∈ pairs ∧ pair.1 ∈ mirror.groups := by
  induction pairs generalizing mirror with
  | nil => simp
  | cons first rest inductionHypothesis =>
    obtain ⟨groups, members⟩ := inductionHypothesis (mirror.apply (.add first.1 first.2))
    refine ⟨groups, fun pair => ?_⟩
    rw [List.map_cons, replay_cons, members]
    simp only [apply, Set.mem_ofPred_eq, List.mem_cons]
    constructor
    · rintro ((inside | ⟨rfl, known⟩) | ⟨inside, known⟩)
      · exact .inl inside
      · exact .inr ⟨.inl rfl, known⟩
      · exact .inr ⟨.inr inside, known⟩
    · rintro (inside | ⟨rfl | inside, known⟩)
      · exact .inl (.inl inside)
      · exact .inl (.inr ⟨rfl, known⟩)
      · exact .inr ⟨inside, known⟩

end Mirror

/-- Every member is one of the rows. -/
def Sound (rows : Set (Group × Member)) (mirror : Mirror Group Member) : Prop :=
  mirror.members ⊆ rows

/-- Every row of a known group is a member. -/
def Complete (rows : Set (Group × Member)) (mirror : Mirror Group Member) : Prop :=
  ∀ pair ∈ rows, pair.1 ∈ mirror.groups → pair ∈ mirror.members

section Rows
variable {rows : Set (Group × Member)} {mirror : Mirror Group Member}

theorem Sound.grow {more : Set (Group × Member)} (sound : Sound rows mirror)
    (larger : rows ⊆ more) : Sound more mirror :=
  sound.trans larger

theorem Sound.add (sound : Sound rows mirror) (group : Group) (member : Member) :
    Sound (insert (group, member) rows) (mirror.apply (.add group member)) := by
  rintro pair (inside | ⟨rfl, known⟩)
  · exact Set.mem_insert_of_mem _ (sound inside)
  · exact Set.mem_insert _ _

theorem Sound.remove (sound : Sound rows mirror) (group : Group) (member : Member) :
    Sound (rows \ {(group, member)}) (mirror.apply (.remove group member)) := by
  rintro pair ⟨inside, other⟩
  exact ⟨sound inside, other⟩

/-- A row that is no member can go without an update. -/
theorem Sound.shrink (sound : Sound rows mirror) (pair : Group × Member)
    (outside : pair ∉ mirror.members) : Sound (rows \ {pair}) mirror := by
  intro other inside
  refine ⟨sound inside, fun same => outside ?_⟩
  exact Set.mem_singleton_iff.mp same ▸ inside

/-- A listing of rows is sound, whatever members were there. -/
theorem Sound.listing (sound : Sound rows mirror) (pairs : List (Group × Member))
    (listed : ∀ pair ∈ pairs, pair ∈ rows) :
    Sound rows (mirror.replay (pairs.map fun pair => .add pair.1 pair.2)) := by
  intro pair inside
  obtain old | ⟨new, known⟩ := ((mirror.replay_adds pairs).2 pair).mp inside
  · exact sound old
  · exact listed pair new

theorem Complete.add (complete : Complete rows mirror) (group : Group) (member : Member) :
    Complete (insert (group, member) rows) (mirror.apply (.add group member)) := by
  rintro pair (rfl | inside) known
  · exact .inr ⟨rfl, known⟩
  · exact .inl (complete pair inside known)

theorem Complete.remove (complete : Complete rows mirror) (group : Group) (member : Member) :
    Complete (rows \ {(group, member)}) (mirror.apply (.remove group member)) := by
  rintro pair ⟨inside, other⟩ known
  exact ⟨complete pair inside known, other⟩

/-- A listing of all rows makes any mirror complete. -/
theorem complete_listing (mirror : Mirror Group Member) (pairs : List (Group × Member))
    (all : ∀ pair ∈ rows, pair ∈ pairs) :
    Complete rows (mirror.replay (pairs.map fun pair => .add pair.1 pair.2)) := by
  obtain ⟨groups, members⟩ := mirror.replay_adds pairs
  intro pair inside known
  exact (members pair).mpr (.inr ⟨all pair inside, groups ▸ known⟩)

end Rows

end NetVirt.Mirrors
