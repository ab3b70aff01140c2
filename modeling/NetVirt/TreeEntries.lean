import Mathlib.Logic.Function.Basic
import NetVirt.RedBlackTrees

/-!
# Trees of entries in memory

The macros of tree.h that insert an element into a red-black tree, remove one and find one, on
the entries that the elements carry: the pointers to both children and to the parent, and the
colour. Where a macro follows a NULL pointer there is no result, and neither is there one where
a loop takes more rounds than it was given.

The laws are about a tree that these pointers form, of which one subtree is looked at. The
macros that treat both sides alike are stated once for a side.
-/

namespace NetVirt.RbTrees

universe u
variable {Elem : Type u}

/-- `RB_ENTRY` -/
structure Entry (Elem : Type u) where
  left : Option Elem
  right : Option Elem
  parent : Option Elem
  color : Color

def Entry.child (entry : Entry Elem) : Side → Option Elem
  | .left => entry.left
  | .right => entry.right

def Entry.setChild (entry : Entry Elem) (side : Side) (child : Option Elem) : Entry Elem :=
  match side with
  | .left => { entry with left := child }
  | .right => { entry with right := child }

/-- `RB_HEAD`, with the entries of the elements. -/
structure Head (Elem : Type u) where
  root : Option Elem
  entry : Elem → Entry Elem

section Macros
variable [DecidableEq Elem]

namespace Head

def put (head : Head Elem) (elm : Elem) (entry : Entry Elem) : Head Elem :=
  { head with entry := Function.update head.entry elm entry }

def setColor (head : Head Elem) (elm : Elem) (color : Color) : Head Elem :=
  head.put elm { head.entry elm with color := color }

def setParent (head : Head Elem) (elm : Elem) (parent : Option Elem) : Head Elem :=
  head.put elm { head.entry elm with parent := parent }

def setChild (head : Head Elem) (elm : Elem) (side : Side) (child : Option Elem) : Head Elem :=
  head.put elm ((head.entry elm).setChild side child)

/-- `if (child) RB_PARENT(child) = parent` -/
def adopt (head : Head Elem) (child parent : Option Elem) : Head Elem :=
  match child with
  | none => head
  | some child => head.setParent child parent

/-- The side of its parent on which a child is: `RB_LEFT(parent) == elm`. -/
def sideOf (head : Head Elem) (parent : Elem) (elm : Option Elem) : Side :=
  if (head.entry parent).left = elm then .left else .right

/-- The pointer to an element, in its parent or in the head, is redirected to another one. -/
def redirect (head : Head Elem) (parent : Option Elem) (elm : Elem) (new : Option Elem) :
    Head Elem :=
  match parent with
  | none => { head with root := new }
  | some parent => head.setChild parent (head.sideOf parent (some elm)) new

end Head

/-- The stores of a rotation at an element, whose child on the other side is `tmp`. -/
def rotated (side : Side) (head : Head Elem) (elm tmp : Elem) : Head Elem :=
  let inner := (head.entry tmp).child side
  let lowered := (head.setChild elm side.other inner).adopt inner (some elm)
  let parent := (lowered.entry elm).parent
  let raised := (lowered.setParent tmp parent).redirect parent elm (some tmp)
  (raised.setChild tmp side (some elm)).setParent elm (some tmp)

/-- RB_ROTATE_LEFT and RB_ROTATE_RIGHT, for the side to which the element goes down. -/
def rotate (side : Side) (head : Head Elem) (elm : Elem) : Option (Head Elem) :=
  ((head.entry elm).child side.other).map (rotated side head elm)

/-- `RB_ROTATE_LEFT` -/
def rotateLeft : Head Elem → Elem → Option (Head Elem) := rotate .left

/-- `RB_ROTATE_RIGHT` -/
def rotateRight : Head Elem → Elem → Option (Head Elem) := rotate .right

/-- `RB_SET`, and the pointer to the element that was set. -/
def attach (head : Head Elem) (parent : Option Elem) (side : Side) (elm : Elem) : Head Elem :=
  let head := head.put elm ⟨none, none, parent, .red⟩
  match parent with
  | none => { head with root := some elm }
  | some parent => head.setChild parent side (some elm)

/-- An element with at most one child is taken out: the child gets its place. -/
def splice (head : Head Elem) (elm : Elem) (child parent : Option Elem) : Head Elem :=
  (head.adopt child parent).redirect parent elm child

/-- An element takes the place of one with two children. -/
def substitute (head : Head Elem) (old elm : Elem) : Option (Head Elem) :=
  let head := head.put elm (head.entry old)
  let head := head.redirect (head.entry old).parent old (some elm)
  match (head.entry old).left with
  | none => none
  | some left =>
    let head := head.setParent left (some elm)
    some (head.adopt (head.entry old).right (some elm))

end Macros

/-! ## The tree that entries form -/

/-- An entry, given by the child on a side and the one on the other side. -/
def Entry.joined (side : Side) (color : Color) (near far parent : Option Elem) : Entry Elem :=
  match side with
  | .left => ⟨near, far, parent, color⟩
  | .right => ⟨far, near, parent, color⟩

section Joined
variable (side : Side) (color : Color) (near far parent other : Option Elem)

@[simp] theorem child_joined : (Entry.joined side color near far parent).child side = near := by
  cases side <;> rfl

@[simp] theorem child_other_joined :
    (Entry.joined side color near far parent).child side.other = far := by
  cases side <;> rfl

@[simp] theorem parent_joined : (Entry.joined side color near far parent).parent = parent := by
  cases side <;> rfl

@[simp] theorem color_joined : (Entry.joined side color near far parent).color = color := by
  cases side <;> rfl

@[simp] theorem setChild_joined :
    (Entry.joined side color near far parent).setChild side other =
      Entry.joined side color other far parent := by
  cases side <;> rfl

@[simp] theorem setChild_other_joined :
    (Entry.joined side color near far parent).setChild side.other other =
      Entry.joined side color near other parent := by
  cases side <;> rfl

@[simp] theorem setParent_joined :
    { Entry.joined side color near far parent with parent := other } =
      Entry.joined side color near far other := by
  cases side <;> rfl

@[simp] theorem setColor_joined (new : Color) :
    { Entry.joined side color near far parent with color := new } =
      Entry.joined side new near far parent := by
  cases side <;> rfl

end Joined

/-- The entries form this tree below a parent. -/
def Holds (entry : Elem → Entry Elem) : Option Elem → RbTree Elem → Prop
  | _, .nil => True
  | parent, .node color left elem right => entry elem = ⟨left.top, right.top, parent, color⟩ ∧
      Holds entry (some elem) left ∧ Holds entry (some elem) right

/-- The entries and the root form what is around a subtree, whose top is where a pointer
leads. -/
def Around (head : Head Elem) : List (Frame Elem) → Option Elem → Prop
  | [], hole => head.root = hole
  | frame :: path, hole =>
    head.entry frame.elem =
        Entry.joined frame.side frame.color hole frame.sibling.top (above path) ∧
      Holds head.entry (some frame.elem) frame.sibling ∧ Around head path (some frame.elem)

/-- The tree in memory is this subtree with what is around it, and no element is in it twice. -/
structure At (head : Head Elem) (path : List (Frame Elem)) (tree : RbTree Elem) : Prop where
  outer : Around head path tree.top
  inner : Holds head.entry (above path) tree
  nodup : tree.elems.Nodup
  nodup_outer : (around path).Nodup
  apart : List.Disjoint tree.elems (around path)

theorem holds_join (entry : Elem → Entry Elem) (parent : Option Elem) (side : Side)
    (color : Color) (near far : RbTree Elem) (elem : Elem) :
    Holds entry parent (.join side color near elem far) ↔
      entry elem = Entry.joined side color near.top far.top parent ∧
        Holds entry (some elem) near ∧ Holds entry (some elem) far := by
  cases side with
  | left => rfl
  | right =>
    simp only [RbTree.join, Holds, Entry.joined]
    tauto

/-- A tree depends on the entries of its own elements only. -/
theorem Holds.congr {entry other : Elem → Entry Elem} {parent : Option Elem}
    {tree : RbTree Elem} (holds : Holds entry parent tree)
    (same : ∀ elem ∈ tree.elems, other elem = entry elem) : Holds other parent tree := by
  induction tree generalizing parent with
  | nil => trivial
  | node color left elem right left_ih right_ih =>
    obtain ⟨own, lower, lower'⟩ := holds
    simp only [RbTree.elems, List.mem_append, List.mem_cons] at same
    refine ⟨?_, left_ih lower fun elem inside => same elem (Or.inl inside),
      right_ih lower' fun elem inside => same elem (Or.inr (Or.inr inside))⟩
    rw [same elem (Or.inr (Or.inl rfl)), own]

theorem Around.congr {head other : Head Elem} {path : List (Frame Elem)} {hole : Option Elem}
    (outer : Around head path hole) (root : other.root = head.root)
    (same : ∀ elem ∈ around path, other.entry elem = head.entry elem) :
    Around other path hole := by
  induction path generalizing hole with
  | nil => exact root.trans outer
  | cons frame path inductionHypothesis =>
    obtain ⟨own, sibling, outer⟩ := outer
    simp only [around, List.cons_append, List.mem_cons, List.mem_append] at same
    refine ⟨?_, sibling.congr fun elem inside => same elem (Or.inr (Or.inl inside)),
      inductionHypothesis outer fun elem inside => same elem (Or.inr (Or.inr inside))⟩
    rw [same frame.elem (Or.inl rfl), own]

/-- The subtree that is looked at can be any on the way. -/
theorem at_cons_iff (head : Head Elem) (frame : Frame Elem) (path : List (Frame Elem))
    (tree : RbTree Elem) : At head (frame :: path) tree ↔ At head path (frame.close tree) := by
  obtain ⟨side, color, elem, sibling⟩ := frame
  constructor
  · rintro ⟨⟨own, beside, outer⟩, inner, nodup, nodup', apart⟩
    simp only [around, List.cons_append, List.nodup_cons, List.nodup_append', List.mem_append,
      List.disjoint_cons_right, List.disjoint_append_right] at nodup' apart
    refine ⟨?_, ?_, ?_, nodup'.2.2.1, ?_⟩
    · simpa only [Frame.close, RbTree.top_join] using outer
    · exact (holds_join ..).mpr ⟨own, inner, beside⟩
    · simp only [Frame.close, RbTree.nodup_elems_join]
      tauto
    · intro other inside outside
      simp only [Frame.close, RbTree.mem_elems_join] at inside
      rcases inside with inside | inside | inside
      · exact apart.2.2 inside outside
      · exact nodup'.1 (Or.inr (inside ▸ outside))
      · exact nodup'.2.2.2 inside outside
  · rintro ⟨outer, inner, nodup, nodup', apart⟩
    obtain ⟨own, inner, beside⟩ := (holds_join ..).mp inner
    simp only [Frame.close, RbTree.top_join] at outer
    simp only [Frame.close, RbTree.nodup_elems_join] at nodup
    have split : ∀ other, (other ∈ tree.elems ∨ other = elem ∨ other ∈ sibling.elems) →
        other ∉ around path := by
      intro other inside
      exact apart ((RbTree.mem_elems_join ..).mpr inside)
    refine ⟨⟨own, beside, outer⟩, inner, nodup.1, ?_, ?_⟩
    · simp only [around, List.cons_append, List.nodup_cons, List.nodup_append',
        List.mem_append]
      refine ⟨?_, nodup.2.1, nodup', fun other inside => split other (Or.inr (Or.inr inside))⟩
      rintro (inside | inside)
      · exact nodup.2.2.2.1 inside
      · exact split elem (Or.inr (Or.inl rfl)) inside
    · simp only [around, List.cons_append, List.disjoint_cons_right,
        List.disjoint_append_right]
      exact ⟨nodup.2.2.1, nodup.2.2.2.2, fun other inside => split other (Or.inl inside)⟩

theorem at_append_iff (head : Head Elem) (inner outer : List (Frame Elem))
    (tree : RbTree Elem) : At head (inner ++ outer) tree ↔ At head outer (plug inner tree) := by
  induction inner generalizing tree with
  | nil => rfl
  | cons frame inner inductionHypothesis =>
    rw [List.cons_append, at_cons_iff, inductionHypothesis, plug]

/-- The whole tree, and any subtree of it. -/
theorem at_plug_iff (head : Head Elem) (path : List (Frame Elem)) (tree : RbTree Elem) :
    At head [] (plug path tree) ↔ At head path tree := by
  rw [← at_append_iff, List.append_nil]

/-! ## What the macros leave -/

theorem above_mem (path : List (Frame Elem)) (elem : Elem) (found : above path = some elem) :
    elem ∈ around path := by
  cases path with
  | nil => cases found
  | cons frame path =>
    cases found
    exact List.mem_append_left _ List.mem_cons_self

section Stores
variable [DecidableEq Elem] (head : Head Elem) (elm other : Elem)

@[simp] theorem root_put (entry : Entry Elem) : (head.put elm entry).root = head.root := rfl

@[simp] theorem entry_put_self (entry : Entry Elem) : (head.put elm entry).entry elm = entry :=
  Function.update_self ..

theorem entry_put_of_ne (entry : Entry Elem) (apart : other ≠ elm) :
    (head.put elm entry).entry other = head.entry other :=
  Function.update_of_ne apart ..

@[simp] theorem root_setColor (color : Color) : (head.setColor elm color).root = head.root := rfl

@[simp] theorem entry_setColor_self (color : Color) :
    (head.setColor elm color).entry elm = { head.entry elm with color := color } :=
  entry_put_self ..

theorem entry_setColor_of_ne (color : Color) (apart : other ≠ elm) :
    (head.setColor elm color).entry other = head.entry other :=
  entry_put_of_ne _ _ _ _ apart

/-- Colours are not pointers. -/
@[simp] theorem child_setColor (color : Color) (side : Side) :
    ((head.setColor elm color).entry other).child side = (head.entry other).child side := by
  by_cases same : other = elm
  · subst same
    rw [entry_setColor_self]
    cases side <;> rfl
  · rw [entry_setColor_of_ne _ _ _ _ same]

@[simp] theorem root_setParent (parent : Option Elem) :
    (head.setParent elm parent).root = head.root := rfl

@[simp] theorem entry_setParent_self (parent : Option Elem) :
    (head.setParent elm parent).entry elm = { head.entry elm with parent := parent } :=
  entry_put_self ..

theorem entry_setParent_of_ne (parent : Option Elem) (apart : other ≠ elm) :
    (head.setParent elm parent).entry other = head.entry other :=
  entry_put_of_ne _ _ _ _ apart

@[simp] theorem root_setChild (side : Side) (child : Option Elem) :
    (head.setChild elm side child).root = head.root := rfl

@[simp] theorem entry_setChild_self (side : Side) (child : Option Elem) :
    (head.setChild elm side child).entry elm = (head.entry elm).setChild side child :=
  entry_put_self ..

theorem entry_setChild_of_ne (side : Side) (child : Option Elem) (apart : other ≠ elm) :
    (head.setChild elm side child).entry other = head.entry other :=
  entry_put_of_ne _ _ _ _ apart

@[simp] theorem root_adopt (child parent : Option Elem) :
    (head.adopt child parent).root = head.root := by
  cases child <;> rfl

theorem entry_adopt_of_ne (child parent : Option Elem) (apart : child ≠ some other) :
    (head.adopt child parent).entry other = head.entry other := by
  cases child with
  | none => rfl
  | some child => exact entry_setParent_of_ne _ _ _ _ fun same => apart (congrArg some same.symm)

/-- What an element is told does not depend on the entries of others. -/
theorem entry_adopt_congr {head other : Head Elem} (elm : Elem) (child parent : Option Elem)
    (same : other.entry elm = head.entry elm) :
    (other.adopt child parent).entry elm = (head.adopt child parent).entry elm := by
  cases child with
  | none => exact same
  | some child =>
    by_cases own : elm = child
    · subst own
      rw [Head.adopt, Head.adopt, entry_setParent_self, entry_setParent_self, same]
    · rw [Head.adopt, Head.adopt, entry_setParent_of_ne _ _ _ _ own,
        entry_setParent_of_ne _ _ _ _ own, same]

theorem entry_redirect_of_ne (parent new : Option Elem) (apart : parent ≠ some other) :
    (head.redirect parent elm new).entry other = head.entry other := by
  cases parent with
  | none => rfl
  | some parent =>
    exact entry_setChild_of_ne _ _ _ _ _ fun same => apart (congrArg some same.symm)

/-- What redirecting a pointer makes of an entry is decided by this one and the parent's. -/
theorem entry_redirect_congr {head other : Head Elem} (elm old : Elem)
    (parent new : Option Elem) (same : other.entry elm = head.entry elm)
    (same_parent : ∀ above, parent = some above → other.entry above = head.entry above) :
    (other.redirect parent old new).entry elm = (head.redirect parent old new).entry elm := by
  cases parent with
  | none => exact same
  | some parent =>
    have same_parent := same_parent parent rfl
    have side : other.sideOf parent (some old) = head.sideOf parent (some old) := by
      rw [Head.sideOf, Head.sideOf, same_parent]
    rw [Head.redirect, Head.redirect, side]
    by_cases own : elm = parent
    · rw [own, entry_setChild_self, entry_setChild_self, same_parent]
    · rw [entry_setChild_of_ne _ _ _ _ _ own, entry_setChild_of_ne _ _ _ _ _ own, same]

/-- A child is on the side of its frame, unless the other side looks the same. -/
theorem sideOf_eq (side : Side) (color : Color) (child sibling parent : Option Elem)
    (entry : head.entry elm = Entry.joined side color child sibling parent)
    (apart : sibling ≠ child) : head.sideOf elm child = side := by
  rw [Head.sideOf, entry]
  cases side with
  | left => exact if_pos rfl
  | right => exact if_neg apart

/-- The top of a subtree is told its parent. -/
theorem Holds.adopt {head : Head Elem} {parent : Option Elem} {tree : RbTree Elem}
    (holds : Holds head.entry parent tree) (nodup : tree.elems.Nodup) (new : Option Elem) :
    Holds (head.adopt tree.top new).entry new tree := by
  cases tree with
  | nil => trivial
  | node color left elem right =>
    obtain ⟨own, lower, lower'⟩ := holds
    have apart : ∀ other, other ∈ left.elems ∨ other ∈ right.elems → other ≠ elem := by
      have unique := (RbTree.nodup_elems_join .left color left right elem).mp nodup
      rintro other (inside | inside) rfl
      · exact unique.2.2.1 inside
      · exact unique.2.2.2.1 inside
    refine ⟨?_, lower.congr ?_, lower'.congr ?_⟩
    · simp [Head.adopt, RbTree.top, own]
    · intro other inside
      exact entry_setParent_of_ne _ _ _ _ (apart other (Or.inl inside))
    · intro other inside
      exact entry_setParent_of_ne _ _ _ _ (apart other (Or.inr inside))

/-- Another subtree is put in the place of one with this top. -/
theorem Around.redirect {head : Head Elem} {path : List (Frame Elem)} {old : Elem}
    (outer : Around head path (some old)) (nodup : (around path).Nodup)
    (absent : old ∉ around path) (new : Option Elem) :
    Around (head.redirect (above path) old new) path new := by
  cases path with
  | nil => rfl
  | cons frame path =>
    obtain ⟨own, sibling, outer⟩ := outer
    simp only [around, List.cons_append, List.nodup_cons, List.nodup_append',
      List.mem_append, List.mem_cons, not_or] at nodup absent
    have side : head.sideOf frame.elem (some old) = frame.side :=
      sideOf_eq _ _ _ _ _ _ _ own fun same => absent.2.1 (RbTree.top_mem _ _ same)
    have apart : ∀ other, other ∈ frame.sibling.elems ∨ other ∈ around path →
        (head.redirect (above (frame :: path)) old new).entry other = head.entry other := by
      rintro other inside
      refine entry_redirect_of_ne _ _ _ _ _ fun same => ?_
      cases same
      rcases inside with inside | inside
      · exact nodup.1.1 inside
      · exact nodup.1.2 inside
    refine ⟨?_, sibling.congr fun other inside => apart other (Or.inl inside),
      outer.congr rfl fun other inside => apart other (Or.inr inside)⟩
    simp [Head.redirect, above, side, own]

end Stores

/-! ## Rotations -/

section Rotations
variable [DecidableEq Elem] {side : Side} {head : Head Elem} {color color' : Color}
  {near middle far parent : Option Elem} {elm tmp : Elem}
  (entry_elm : head.entry elm = .joined side color near (some tmp) parent)
  (entry_tmp : head.entry tmp = .joined side color' middle far (some elm))
  (not_elm : middle ≠ some elm)
include entry_elm entry_tmp not_elm

theorem rotated_eq : rotated side head elm tmp =
    (((((head.setChild elm side.other middle).adopt middle (some elm)).setParent tmp
      parent).redirect parent elm (some tmp)).setChild tmp side (some elm)).setParent elm
        (some tmp) := by
  have inner : (head.entry tmp).child side = middle := by rw [entry_tmp, child_joined]
  have above : (((head.setChild elm side.other middle).adopt middle (some elm)).entry
      elm).parent = parent := by
    rw [entry_adopt_of_ne _ _ _ _ not_elm, entry_setChild_self, entry_elm,
      setChild_other_joined, parent_joined]
  simp only [rotated, inner, above]

/-- Below the two elements, only the child that changes its side is told its parent. -/
theorem rotated_lower (other : Elem) (not_self : other ≠ elm) (not_tmp : other ≠ tmp)
    (not_above : parent ≠ some other) : (rotated side head elm tmp).entry other =
      (head.adopt middle (some elm)).entry other := by
  rw [rotated_eq entry_elm entry_tmp not_elm, entry_setParent_of_ne _ _ _ _ not_self,
    entry_setChild_of_ne _ _ _ _ _ not_tmp, entry_redirect_of_ne _ _ _ _ _ not_above,
    entry_setParent_of_ne _ _ _ _ not_tmp]
  exact entry_adopt_congr other _ _ (entry_setChild_of_ne _ _ _ _ _ not_self)

theorem rotated_elm (apart : elm ≠ tmp) (not_above : parent ≠ some elm) :
    (rotated side head elm tmp).entry elm = .joined side color near middle (some tmp) := by
  rw [rotated_eq entry_elm entry_tmp not_elm, entry_setParent_self,
    entry_setChild_of_ne _ _ _ _ _ apart, entry_redirect_of_ne _ _ _ _ _ not_above,
    entry_setParent_of_ne _ _ _ _ apart, entry_adopt_of_ne _ _ _ _ not_elm,
    entry_setChild_self, entry_elm, setChild_other_joined, setParent_joined]

theorem rotated_tmp (apart : elm ≠ tmp) (not_above : parent ≠ some tmp)
    (not_middle : middle ≠ some tmp) :
    (rotated side head elm tmp).entry tmp = .joined side color' (some elm) far parent := by
  rw [rotated_eq entry_elm entry_tmp not_elm, entry_setParent_of_ne _ _ _ _ (Ne.symm apart),
    entry_setChild_self, entry_redirect_of_ne _ _ _ _ _ not_above, entry_setParent_self,
    entry_adopt_of_ne _ _ _ _ not_middle, entry_setChild_of_ne _ _ _ _ _ (Ne.symm apart),
    entry_tmp, setParent_joined, setChild_joined]

/-- Above the two elements, only the pointer to the upper one is redirected. -/
theorem rotated_outer (other : Elem)
    (apart : other ≠ elm ∧ other ≠ tmp ∧ middle ≠ some other)
    (apart_above : ∀ above, parent = some above →
      above ≠ elm ∧ above ≠ tmp ∧ middle ≠ some above) :
    (rotated side head elm tmp).entry other =
      (head.redirect parent elm (some tmp)).entry other := by
  have kept : ∀ other, other ≠ elm ∧ other ≠ tmp ∧ middle ≠ some other →
      (((head.setChild elm side.other middle).adopt middle (some elm)).setParent tmp
        parent).entry other = head.entry other := by
    rintro other ⟨not_self, not_tmp, not_middle⟩
    rw [entry_setParent_of_ne _ _ _ _ not_tmp, entry_adopt_of_ne _ _ _ _ not_middle,
      entry_setChild_of_ne _ _ _ _ _ not_self]
  rw [rotated_eq entry_elm entry_tmp not_elm, entry_setParent_of_ne _ _ _ _ apart.1,
    entry_setChild_of_ne _ _ _ _ _ apart.2.1]
  exact entry_redirect_congr _ _ _ _ (kept other apart) fun above found =>
    kept above (apart_above above found)

end Rotations

/-! ## A subtree in its place -/

section Operations
variable [DecidableEq Elem] {head : Head Elem} {path : List (Frame Elem)}

omit [DecidableEq Elem] in
/-- No element around a subtree is in it. -/
theorem At.above_ne {tree : RbTree Elem} (place : At head path tree) (elem : Elem)
    (inside : elem ∈ tree.elems) : above path ≠ some elem :=
  fun same => place.apart inside (above_mem path elem same)

omit [DecidableEq Elem] in
/-- The two subtrees of a node are each the sibling of the other. -/
theorem at_swap_iff (head : Head Elem) (side : Side) (color : Color) (elem : Elem)
    (path : List (Frame Elem)) (tree sibling : RbTree Elem) :
    At head (⟨side, color, elem, sibling⟩ :: path) tree ↔
      At head (⟨side.other, color, elem, tree⟩ :: path) sibling := by
  rw [at_cons_iff, at_cons_iff, Frame.close, Frame.close, RbTree.join_other]

/-- Another subtree is in the place of one, when the pointer to it is redirected and nothing
else around it has changed. -/
theorem At.replace {tree new : RbTree Elem} {after : Head Elem} (place : At head path tree)
    (elm : Elem) (top : tree.top = some elm)
    (root : after.root = (head.redirect (above path) elm new.top).root)
    (same : ∀ other ∈ around path,
      after.entry other = (head.redirect (above path) elm new.top).entry other)
    (inner : Holds after.entry (above path) new) (nodup : new.elems.Nodup)
    (apart : List.Disjoint new.elems (around path)) : At after path new := by
  have outer := place.outer
  rw [top] at outer
  have absent : elm ∉ around path := place.apart (RbTree.top_mem tree elm top)
  exact ⟨(outer.redirect place.nodup_outer absent new.top).congr root same, inner, nodup,
    place.nodup_outer, apart⟩

/-- An element gets another colour. -/
theorem At.recolor {side : Side} {color : Color} {near far : RbTree Elem} {elm : Elem}
    (place : At head path (.join side color near elm far)) (new : Color) :
    At (head.setColor elm new) path (.join side new near elm far) := by
  obtain ⟨own, holds, holds'⟩ := (holds_join ..).mp place.inner
  have nodup := place.nodup
  simp only [RbTree.nodup_elems_join] at nodup
  have absent : elm ∉ around path := place.apart (by simp)
  have elsewhere : ∀ other, other ≠ elm →
      (head.setColor elm new).entry other = head.entry other :=
    fun other apart => entry_setColor_of_ne _ _ _ _ apart
  constructor
  · have outer := place.outer
    rw [RbTree.top_join] at outer ⊢
    exact outer.congr rfl fun other inside =>
      elsewhere other fun same => absent (same ▸ inside)
  · rw [holds_join]
    refine ⟨?_, holds.congr fun other inside => elsewhere other ?_,
      holds'.congr fun other inside => elsewhere other ?_⟩
    · rw [entry_setColor_self, own, setColor_joined]
    · exact fun same => nodup.2.2.1 (same ▸ inside)
    · exact fun same => nodup.2.2.2.1 (same ▸ inside)
  · rw [RbTree.elems_join_color side new near far elm color]
    exact place.nodup
  · exact place.nodup_outer
  · rw [RbTree.elems_join_color side new near far elm color]
    exact place.apart

/-- The same for a node as the constructor writes it. -/
theorem At.recolor_node {color : Color} {left right : RbTree Elem} {elm : Elem}
    (place : At head path (.node color left elm right)) (new : Color) :
    At (head.setColor elm new) path (.node new left elm right) := by
  have joined : At head path (.join .left color left elm right) := place
  exact joined.recolor new

/-- A new element is put where a search ended. -/
theorem attach_at (place : At head path .nil) (elm : Elem) (fresh : elm ∉ around path)
    (side : Side) (below : ∀ frame ∈ path.head?, frame.side = side) :
    At (attach head (above path) side elm) path (.node .red .nil elm .nil) := by
  have single : ∀ other ∈ (RbTree.node .red .nil elm .nil).elems, other = elm := by
    intro other inside
    simpa [RbTree.elems] using inside
  refine ⟨?_, ⟨?_, trivial, trivial⟩, List.nodup_singleton elm, place.nodup_outer, ?_⟩
  · cases path with
    | nil => rfl
    | cons frame path =>
      obtain ⟨own, sibling, outer⟩ := place.outer
      have nodup := place.nodup_outer
      simp only [around, List.cons_append, List.nodup_cons, List.mem_append,
        List.mem_cons, not_or] at nodup fresh
      have elsewhere : ∀ other, other ≠ elm → other ≠ frame.elem →
          (attach head (above (frame :: path)) side elm).entry other = head.entry other := by
        intro other not_elm not_above
        exact (entry_setChild_of_ne _ _ _ _ _ not_above).trans
          (entry_put_of_ne _ _ _ _ not_elm)
      refine ⟨?_, sibling.congr fun other inside => elsewhere other ?_ ?_,
        outer.congr rfl fun other inside => elsewhere other ?_ ?_⟩
      · simp only [attach, above, List.head?_cons, Option.map_some]
        rw [entry_setChild_self, entry_put_of_ne _ _ _ _ (Ne.symm fresh.1), own,
          ← below frame rfl, setChild_joined]
        rfl
      · exact fun same => fresh.2.1 (same ▸ inside)
      · exact fun same => nodup.1.1 (same ▸ inside)
      · exact fun same => fresh.2.2 (same ▸ inside)
      · exact fun same => nodup.1.2 (same ▸ inside)
  · cases path with
    | nil => exact entry_put_self ..
    | cons frame path =>
      have apart : elm ≠ frame.elem := fun same => fresh (by simp [around, same])
      exact (entry_setChild_of_ne _ _ _ _ _ apart).trans (entry_put_self ..)
  · intro other inside outside
    exact fresh (single other inside ▸ outside)

/-- An element with one child at most is taken out. -/
theorem splice_at {side : Side} {color : Color} {child : RbTree Elem} {elm : Elem}
    (place : At head path (.join side color .nil elm child)) :
    At (splice head elm child.top (above path)) path child := by
  obtain ⟨own, _, holds⟩ := (holds_join ..).mp place.inner
  have nodup := place.nodup
  simp only [RbTree.nodup_elems_join] at nodup
  have inside : ∀ other ∈ child.elems,
      other ∈ (RbTree.join side color .nil elm child).elems := by
    intro other inside
    simp [inside]
  refine place.replace elm (RbTree.top_join ..) ?_ ?_ ?_ nodup.2.1 ?_
  · cases above path <;> simp [splice, Head.redirect]
  · have kept : ∀ other ∈ around path,
        (head.adopt child.top (above path)).entry other = head.entry other := by
      refine fun other outside => entry_adopt_of_ne _ _ _ _ fun same => ?_
      exact place.apart (inside other (RbTree.top_mem _ _ same)) outside
    intro other outside
    exact entry_redirect_congr _ _ _ _ (kept other outside)
      fun parent found => kept parent (above_mem path parent found)
  · refine (holds.adopt nodup.2.1 (above path)).congr fun other within => ?_
    exact entry_redirect_of_ne _ _ _ _ _ (place.above_ne other (inside other within))
  · exact fun other within => place.apart (inside other within)

/-- An element that is in no tree takes the place of one with a left child. -/
theorem substitute_at {color : Color} {left right : RbTree Elem} {old elm : Elem}
    (place : At head path (.node color left old right)) (some_left : left ≠ .nil)
    (apart : elm ∉ around path) (not_old : elm ≠ old) (not_left : elm ∉ left.elems)
    (not_right : elm ∉ right.elems) :
    ∃ after, substitute head old elm = some after ∧
      At after path (.node color left elm right) := by
  obtain ⟨own, held_left, held_right⟩ := place.inner
  have nodup := (RbTree.nodup_elems_join .left color left right old).mp place.nodup
  have within : ∀ other, other ∈ left.elems ∨ other = old ∨ other ∈ right.elems →
      other ∈ (RbTree.node color left old right).elems :=
    fun other => (RbTree.mem_elems_join .left color left right old other).mpr
  have above_ne : ∀ other, other ∈ left.elems ∨ other = old ∨ other ∈ right.elems →
      above path ≠ some other := fun other inside => place.above_ne other (within other inside)
  have above_elm : above path ≠ some elm := fun same => apart (above_mem path elm same)
  have top_ne : ∀ (tree : RbTree Elem) (other : Elem), other ∉ tree.elems →
      tree.top ≠ some other := fun tree other outside same => outside (RbTree.top_mem _ _ same)
  -- The entries after the pointer to the old element was redirected.
  obtain ⟨turned, turned_eq⟩ : ∃ turned, turned =
    (head.put elm (head.entry old)).redirect (above path) old (some elm) := ⟨_, rfl⟩
  have turned_old : turned.entry old = head.entry old := by
    rw [turned_eq, entry_redirect_of_ne _ _ _ _ _ (above_ne old (by tauto)),
      entry_put_of_ne _ _ _ _ (Ne.symm not_old)]
  have turned_elm : turned.entry elm = ⟨left.top, right.top, above path, color⟩ := by
    rw [turned_eq, entry_redirect_of_ne _ _ _ _ _ above_elm, entry_put_self, own]
  have turned_same : ∀ other, other ∈ left.elems ∨ other ∈ right.elems →
      turned.entry other = head.entry other := by
    intro other inside
    have not_elm : other ≠ elm := by
      rintro rfl
      tauto
    rw [turned_eq, entry_redirect_of_ne _ _ _ _ _ (above_ne other (by tauto)),
      entry_put_of_ne _ _ _ _ not_elm]
  have taken : substitute head old elm =
      some ((turned.adopt left.top (some elm)).adopt right.top (some elm)) := by
    cases left with
    | nil => exact absurd rfl some_left
    | node color' lower other lower' =>
      have not_other : old ≠ other := fun same => nodup.2.2.1 (by simp [same, RbTree.elems])
      have parent : ((head.put elm (head.entry old)).entry old).parent = above path := by
        rw [entry_put_of_ne _ _ _ _ (Ne.symm not_old), own]
      have below : (turned.entry old).left = some other := by
        rw [turned_old, own]
        rfl
      have beside : ((turned.setParent other (some elm)).entry old).right = right.top := by
        rw [entry_setParent_of_ne _ _ _ _ not_other, turned_old, own]
      simp only [substitute, parent, ← turned_eq, below, beside]
      rfl
  refine ⟨_, taken, place.replace old rfl ?_ ?_ ⟨?_, ?_, ?_⟩ ?_ ?_⟩
  · rw [root_adopt, root_adopt, turned_eq]
    cases above path <;> rfl
  · intro other outside
    have out : ∀ tree : RbTree Elem, (∀ other ∈ tree.elems,
        other ∈ (RbTree.node color left old right).elems) → other ∉ tree.elems :=
      fun tree contained inside => place.apart (contained other inside) outside
    rw [entry_adopt_of_ne _ _ _ _ (top_ne right other (out right fun _ _ => within _ (by tauto))),
      entry_adopt_of_ne _ _ _ _ (top_ne left other (out left fun _ _ => within _ (by tauto))),
      turned_eq]
    refine entry_redirect_congr _ _ _ _ (entry_put_of_ne _ _ _ _ ?_) fun parent found =>
      entry_put_of_ne _ _ _ _ ?_
    · rintro rfl
      exact apart outside
    · rintro rfl
      exact above_elm found
  · rw [entry_adopt_of_ne _ _ _ _ (top_ne right elm not_right),
      entry_adopt_of_ne _ _ _ _ (top_ne left elm not_left), turned_elm]
  · refine ((held_left.congr fun other inside => turned_same other (Or.inl inside)).adopt
      nodup.1 (some elm)).congr fun other inside => ?_
    exact entry_adopt_of_ne _ _ _ _ (top_ne right other fun within =>
      nodup.2.2.2.2 inside within)
  · have lower : Holds (turned.adopt left.top (some elm)).entry (some old) right := by
      refine held_right.congr fun other inside => ?_
      rw [entry_adopt_of_ne _ _ _ _ (top_ne left other fun within =>
        nodup.2.2.2.2 within inside), turned_same other (Or.inr inside)]
    exact lower.adopt nodup.2.1 (some elm)
  · exact (RbTree.nodup_elems_join .left color left right elm).mpr
      ⟨nodup.1, nodup.2.1, not_left, not_right, nodup.2.2.2.2⟩
  · intro other inside outside
    rcases (RbTree.mem_elems_join .left color left right elm other).mp inside with
      inside | inside | inside
    · exact place.apart (within other (Or.inl inside)) outside
    · exact apart (inside ▸ outside)
    · exact place.apart (within other (Or.inr (Or.inr inside))) outside

/-- A rotation at an element. -/
theorem rotate_at (side : Side) (color color' : Color) (near middle far : RbTree Elem)
    (elm tmp : Elem)
    (place : At head path (.join side color near elm (.join side color' middle tmp far))) :
    ∃ after, rotate side head elm = some after ∧
      At after path (.join side color' (.join side color near elm middle) tmp far) := by
  obtain ⟨entry_elm, held_near, lower⟩ := (holds_join ..).mp place.inner
  obtain ⟨entry_tmp, held_middle, held_far⟩ := (holds_join ..).mp lower
  have above_ne := place.above_ne
  have nodup := place.nodup
  simp only [RbTree.nodup_elems_join, RbTree.mem_elems_join, RbTree.top_join, not_or,
    List.disjoint_left] at above_ne nodup entry_elm
  obtain ⟨nodup_near, ⟨nodup_middle, nodup_far, tmp_middle, tmp_far, middle_far⟩, elm_near,
    ⟨elm_middle, elm_tmp, elm_far⟩, near_lower⟩ := nodup
  have top_middle : ∀ other, other ∉ middle.elems → middle.top ≠ some other :=
    fun other outside same => outside (RbTree.top_mem _ _ same)
  have middle_ne := top_middle elm elm_middle
  have down : (head.entry elm).child side.other = some tmp := by
    rw [entry_elm, child_other_joined]
  refine ⟨rotated side head elm tmp, by rw [rotate, down]; rfl, ?_⟩
  have elsewhere : ∀ other, other ≠ elm → other ≠ tmp → other ∉ middle.elems →
      above path ≠ some other → (rotated side head elm tmp).entry other = head.entry other := by
    intro other not_elm not_tmp not_middle not_above
    rw [rotated_lower entry_elm entry_tmp middle_ne other not_elm not_tmp not_above,
      entry_adopt_of_ne _ _ _ _ (top_middle other not_middle)]
  have outside : ∀ other ∈ around path, other ≠ elm ∧ other ≠ tmp ∧ middle.top ≠ some other := by
    intro other inside
    have apart := fun within => place.apart within inside
    simp only [RbTree.mem_elems_join] at apart
    exact ⟨fun same => apart (by tauto), fun same => apart (by tauto),
      top_middle other fun within => apart (by tauto)⟩
  refine place.replace elm (RbTree.top_join ..) ?_ ?_ ?_ ?_ ?_
  · rw [RbTree.top_join, rotated_eq entry_elm entry_tmp middle_ne]
    cases above path <;> simp [Head.redirect]
  · intro other inside
    rw [RbTree.top_join]
    exact rotated_outer entry_elm entry_tmp middle_ne other (outside other inside)
      fun parent found => outside parent (above_mem path parent found)
  · rw [holds_join, holds_join, RbTree.top_join]
    refine ⟨rotated_tmp entry_elm entry_tmp middle_ne elm_tmp (above_ne tmp (by tauto))
      (top_middle tmp tmp_middle),
      ⟨rotated_elm entry_elm entry_tmp middle_ne elm_tmp (above_ne elm (by tauto)), ?_, ?_⟩, ?_⟩
    · refine held_near.congr fun other inside => elsewhere other ?_ ?_ ?_ (above_ne other ?_)
      · exact fun same => elm_near (same ▸ inside)
      · exact fun same => (near_lower inside).2.1 same
      · exact (near_lower inside).1
      · tauto
    · refine (held_middle.adopt nodup_middle (some elm)).congr fun other inside =>
        rotated_lower entry_elm entry_tmp middle_ne other ?_ ?_ (above_ne other ?_)
      · exact fun same => elm_middle (same ▸ inside)
      · exact fun same => tmp_middle (same ▸ inside)
      · tauto
    · refine held_far.congr fun other inside => elsewhere other ?_ ?_ ?_ (above_ne other ?_)
      · exact fun same => elm_far (same ▸ inside)
      · exact fun same => tmp_far (same ▸ inside)
      · exact fun within => middle_far within inside
      · tauto
  · rw [RbTree.elems_rotated side color near middle elm color' far tmp]
    exact place.nodup
  · rw [RbTree.elems_rotated side color near middle elm color' far tmp]
    exact place.apart

end Operations

end NetVirt.RbTrees
