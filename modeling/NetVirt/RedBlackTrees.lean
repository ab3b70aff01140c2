import Mathlib.Data.List.Nodup
import Mathlib.Data.Nat.Log
import Mathlib.Tactic.Linarith

/-!
# Red-black trees and the way to a subtree

A tree whose nodes are red or black is balanced when no red node has a red child and every way
down meets the same number of black nodes. The laws below are those of a tree in which one
subtree is looked at, with the way to it from the root: what is above a subtree is balanced
around a hole, into which any balanced tree of the right height fits.

The two sides of a node are treated alike: a node is joined from what is on a side of it and
what is on the other one, and a rotation at a node reads the same from either side.
-/

namespace NetVirt.RbTrees

universe u
variable {Elem : Type u}

inductive Color where
  | black
  | red
deriving DecidableEq

inductive Side where
  | left
  | right
deriving DecidableEq

def Side.other : Side → Side
  | .left => .right
  | .right => .left

@[simp] theorem Side.other_other (side : Side) : side.other.other = side := by
  cases side <;> rfl

inductive RbTree (Elem : Type u) where
  | nil
  | node (color : Color) (left : RbTree Elem) (elem : Elem) (right : RbTree Elem)

namespace RbTree

def top : RbTree Elem → Option Elem
  | nil => none
  | node _ _ elem _ => some elem

/-- What is not there counts as black. -/
def color : RbTree Elem → Color
  | nil => .black
  | node color _ _ _ => color

/-- The elements from left to right. -/
def elems : RbTree Elem → List Elem
  | nil => []
  | node _ left elem right => left.elems ++ elem :: right.elems

def height : RbTree Elem → Nat
  | nil => 0
  | node _ left _ right => max left.height right.height + 1

def blacken : RbTree Elem → RbTree Elem
  | nil => nil
  | node _ left elem right => node .black left elem right

/-- A node with what is on a side of it, and what is on the other side. -/
def join (side : Side) (color : Color) (near : RbTree Elem) (elem : Elem) (far : RbTree Elem) :
    RbTree Elem :=
  match side with
  | .left => node color near elem far
  | .right => node color far elem near

theorem join_other (side : Side) (color : Color) (near far : RbTree Elem) (elem : Elem) :
    join side.other color near elem far = join side color far elem near := by
  cases side <;> rfl

/-- Every node is joined, from either side. -/
theorem node_eq_join (side : Side) (color : Color) (left right : RbTree Elem) (elem : Elem) :
    ∃ near far, node color left elem right = join side color near elem far := by
  cases side with
  | left => exact ⟨left, right, rfl⟩
  | right => exact ⟨right, left, rfl⟩

/-- What is joined from one side is joined from the other. -/
theorem join_eq_join (side other : Side) (color : Color) (near far : RbTree Elem) (elem : Elem) :
    ∃ near' far', join side color near elem far = join other color near' elem far' := by
  cases side with
  | left => exact node_eq_join other color near far elem
  | right => exact node_eq_join other color far near elem

theorem eq_nil_or_join (side : Side) (tree : RbTree Elem) :
    tree = nil ∨ ∃ color near elem far, tree = join side color near elem far := by
  cases tree with
  | nil => exact Or.inl rfl
  | node color left elem right =>
    obtain ⟨near, far, joined⟩ := node_eq_join side color left right elem
    exact Or.inr ⟨color, near, elem, far, joined⟩

section Join
variable (side : Side) (color : Color) (near far : RbTree Elem) (elem : Elem)

@[simp] theorem top_join : (join side color near elem far).top = some elem := by
  cases side <;> rfl

@[simp] theorem color_join : (join side color near elem far).color = color := by
  cases side <;> rfl

@[simp] theorem blacken_join :
    (join side color near elem far).blacken = join side .black near elem far := by
  cases side <;> rfl

@[simp] theorem mem_elems_join (other : Elem) :
    other ∈ (join side color near elem far).elems ↔
      other ∈ near.elems ∨ other = elem ∨ other ∈ far.elems := by
  cases side with
  | left => simp [join, elems]
  | right =>
    simp only [join, elems, List.mem_append, List.mem_cons]
    tauto

@[simp] theorem nodup_elems_join :
    (join side color near elem far).elems.Nodup ↔
      near.elems.Nodup ∧ far.elems.Nodup ∧ elem ∉ near.elems ∧ elem ∉ far.elems ∧
        List.Disjoint near.elems far.elems := by
  have symm := @List.disjoint_comm Elem near.elems far.elems
  cases side with
  | left =>
    simp only [join, elems, List.nodup_append', List.nodup_cons, List.disjoint_cons_right]
    tauto
  | right =>
    simp only [join, elems, List.nodup_append', List.nodup_cons, List.disjoint_cons_right]
    tauto

/-- The colour of a node says nothing about its elements. -/
theorem elems_join_color (other : Color) :
    (join side color near elem far).elems = (join side other near elem far).elems := by
  cases side <;> rfl

/-- A rotation keeps the order of the elements. -/
theorem elems_rotated (inner : Color) (beyond : RbTree Elem) (child : Elem) :
    (join side inner (join side color near elem far) child beyond).elems =
      (join side color near elem (join side inner far child beyond)).elems := by
  cases side <;> simp [join, elems]

theorem elems_join_congr (near' far' : RbTree Elem) (sameNear : near'.elems = near.elems)
    (sameFar : far'.elems = far.elems) (other : Color) :
    (join side other near' elem far').elems = (join side color near elem far).elems := by
  cases side <;> simp [join, elems, sameNear, sameFar]

end Join

@[simp] theorem elems_blacken (tree : RbTree Elem) : tree.blacken.elems = tree.elems := by
  cases tree <;> rfl

@[simp] theorem color_blacken (tree : RbTree Elem) : tree.blacken.color = .black := by
  cases tree <;> rfl

theorem blacken_of_black (tree : RbTree Elem) (black : tree.color = .black) :
    tree.blacken = tree := by
  cases tree with
  | nil => rfl
  | node colored left elem right =>
    cases black
    rfl

theorem top_mem (tree : RbTree Elem) (elem : Elem) (found : tree.top = some elem) :
    elem ∈ tree.elems := by
  cases tree with
  | nil => cases found
  | node color left other right =>
    cases found
    exact List.mem_append_right _ List.mem_cons_self

end RbTree

open RbTree

/-! ## Balance -/

/-- A balanced tree, with the number of black nodes on every way down. -/
inductive Balanced : RbTree Elem → Nat → Prop where
  | nil : Balanced nil 0
  | red {left right : RbTree Elem} {elem : Elem} {blacks : Nat} (black : left.color = .black)
      (black' : right.color = .black) (balanced : Balanced left blacks)
      (balanced' : Balanced right blacks) : Balanced (node .red left elem right) blacks
  | black {left right : RbTree Elem} {elem : Elem} {blacks : Nat}
      (balanced : Balanced left blacks) (balanced' : Balanced right blacks) :
      Balanced (node .black left elem right) (blacks + 1)

section Balance
variable {side : Side} {near far : RbTree Elem} {elem : Elem} {blacks : Nat}

theorem balanced_red : Balanced (join side .red near elem far) blacks ↔
    near.color = .black ∧ far.color = .black ∧ Balanced near blacks ∧ Balanced far blacks := by
  cases side with
  | left =>
    constructor
    · intro balanced
      cases balanced with
      | red black black' balanced balanced' => exact ⟨black, black', balanced, balanced'⟩
    · rintro ⟨black, black', balanced, balanced'⟩
      exact .red black black' balanced balanced'
  | right =>
    constructor
    · intro balanced
      cases balanced with
      | red black black' balanced balanced' => exact ⟨black', black, balanced', balanced⟩
    · rintro ⟨black, black', balanced, balanced'⟩
      exact .red black' black balanced' balanced

theorem balanced_black : Balanced (join side .black near elem far) (blacks + 1) ↔
    Balanced near blacks ∧ Balanced far blacks := by
  cases side with
  | left =>
    constructor
    · intro balanced
      cases balanced with
      | black balanced balanced' => exact ⟨balanced, balanced'⟩
    · rintro ⟨balanced, balanced'⟩
      exact .black balanced balanced'
  | right =>
    constructor
    · intro balanced
      cases balanced with
      | black balanced balanced' => exact ⟨balanced', balanced⟩
    · rintro ⟨balanced, balanced'⟩
      exact .black balanced' balanced

/-- A tree in which some black nodes are met has an element. -/
theorem Balanced.exists_join (side : Side) {tree : RbTree Elem}
    (balanced : Balanced tree (blacks + 1)) :
    ∃ color near elem far, tree = join side color near elem far := by
  cases eq_nil_or_join side tree with
  | inl none => rw [none] at balanced; cases balanced
  | inr joined => exact joined

/-- A black node is met at least once. -/
theorem Balanced.black_join (balanced : Balanced (join side .black near elem far) blacks) :
    ∃ fewer, blacks = fewer + 1 ∧ Balanced near fewer ∧ Balanced far fewer := by
  cases blacks with
  | zero => cases side <;> cases balanced
  | succ fewer => exact ⟨fewer, rfl, balanced_black.mp balanced⟩

/-- Which element is at a node does not matter to the balance. -/
theorem Balanced.exchange {color : Color} {left right : RbTree Elem} (other : Elem)
    (balanced : Balanced (node color left elem right) blacks) :
    Balanced (node color left other right) blacks := by
  cases balanced with
  | red black black' balanced balanced' => exact .red black black' balanced balanced'
  | black balanced balanced' => exact .black balanced balanced'

/-- A red top that is made black is met on every way down. -/
theorem Balanced.blacken_red {tree : RbTree Elem} (balanced : Balanced tree blacks)
    (red : tree.color = .red) : Balanced tree.blacken (blacks + 1) := by
  cases balanced with
  | nil => cases red
  | red _ _ balanced balanced' => exact .black balanced balanced'
  | black _ _ => cases red

/-- A balanced tree whose top is made black. -/
theorem Balanced.blackened {tree : RbTree Elem} (balanced : Balanced tree blacks) :
    ∃ more, Balanced tree.blacken more := by
  cases balanced with
  | nil => exact ⟨0, .nil⟩
  | red _ _ balanced balanced' => exact ⟨_, .black balanced balanced'⟩
  | black balanced balanced' => exact ⟨_, .black balanced balanced'⟩

end Balance

/-- A red-black tree is balanced, with a black root. -/
def RedBlack (tree : RbTree Elem) : Prop :=
  tree.color = .black ∧ ∃ blacks, Balanced tree blacks

/-- As many black nodes on every way down take a number of elements. -/
theorem Balanced.size_lt {tree : RbTree Elem} {blacks : Nat} (balanced : Balanced tree blacks) :
    2 ^ blacks ≤ tree.elems.length + 1 := by
  induction balanced with
  | nil => simp [elems]
  | red _ _ _ _ left right =>
    simp only [elems, List.length_append, List.length_cons]
    omega
  | black _ _ left right =>
    simp only [elems, List.length_append, List.length_cons, pow_succ]
    omega

/-- No way down is longer than twice the number of black nodes, but for a red top. -/
theorem Balanced.height_le {tree : RbTree Elem} {blacks : Nat} (balanced : Balanced tree blacks) :
    tree.height ≤ 2 * blacks + if tree.color = .red then 1 else 0 := by
  induction balanced with
  | nil => simp [height]
  | red black black' _ _ left right =>
    simp only [black, black', reduceCtorEq, if_false] at left right
    simp only [height, color, if_true]
    omega
  | @black left right _ blacks _ _ low low' =>
    have bound : (if left.color = .red then 1 else 0) ≤ 1 := by split <;> omega
    have bound' : (if right.color = .red then 1 else 0) ≤ 1 := by split <;> omega
    simp only [height, color, reduceCtorEq, if_false]
    omega

/-- A red-black tree is at most twice as high as its size needs. -/
theorem RedBlack.height_le {tree : RbTree Elem} (valid : RedBlack tree) :
    tree.height ≤ 2 * Nat.log 2 (tree.elems.length + 1) := by
  obtain ⟨black, blacks, balanced⟩ := valid
  have high := balanced.height_le
  rw [black, if_neg (by decide)] at high
  have low : blacks ≤ Nat.log 2 (tree.elems.length + 1) :=
    Nat.le_log_of_pow_le (by decide) balanced.size_lt
  omega

/-! ## The way to a subtree -/

/-- A node above the subtree, which is on the given side of it. -/
structure Frame (Elem : Type u) where
  side : Side
  color : Color
  elem : Elem
  sibling : RbTree Elem

def Frame.close (frame : Frame Elem) (tree : RbTree Elem) : RbTree Elem :=
  join frame.side frame.color tree frame.elem frame.sibling

/-- The whole tree around a subtree; the frames are those from its parent to the root. -/
def plug : List (Frame Elem) → RbTree Elem → RbTree Elem
  | [], tree => tree
  | frame :: path, tree => plug path (frame.close tree)

def above (path : List (Frame Elem)) : Option Elem :=
  path.head?.map Frame.elem

def aboveColor (path : List (Frame Elem)) : Option Color :=
  path.head?.map Frame.color

/-- The elements that are not in the subtree. -/
def around : List (Frame Elem) → List Elem
  | [] => []
  | frame :: path => frame.elem :: frame.sibling.elems ++ around path

/-- Frames that were passed last come first. -/
theorem plug_append (inner outer : List (Frame Elem)) (tree : RbTree Elem) :
    plug (inner ++ outer) tree = plug outer (plug inner tree) := by
  induction inner generalizing tree with
  | nil => rfl
  | cons frame inner inductionHypothesis => exact inductionHypothesis (frame.close tree)

/-- The elements before the subtree. -/
def before : List (Frame Elem) → List Elem
  | [] => []
  | ⟨.left, _, _, _⟩ :: path => before path
  | ⟨.right, _, elem, sibling⟩ :: path => before path ++ (sibling.elems ++ [elem])

/-- The elements behind the subtree. -/
def behind : List (Frame Elem) → List Elem
  | [] => []
  | ⟨.left, _, elem, sibling⟩ :: path => elem :: sibling.elems ++ behind path
  | ⟨.right, _, _, _⟩ :: path => behind path

theorem elems_plug (path : List (Frame Elem)) (tree : RbTree Elem) :
    (plug path tree).elems = before path ++ tree.elems ++ behind path := by
  induction path generalizing tree with
  | nil => simp [plug, before, behind]
  | cons frame path inductionHypothesis =>
    obtain ⟨side, color, elem, sibling⟩ := frame
    cases side <;>
      simp [plug, Frame.close, join, elems, before, behind, inductionHypothesis]

theorem before_append (inner outer : List (Frame Elem)) :
    before (inner ++ outer) = before outer ++ before inner := by
  induction inner with
  | nil => simp [before]
  | cons frame inner inductionHypothesis =>
    obtain ⟨side, color, elem, sibling⟩ := frame
    cases side <;> simp [before, inductionHypothesis]

theorem behind_append (inner outer : List (Frame Elem)) :
    behind (inner ++ outer) = behind inner ++ behind outer := by
  induction inner with
  | nil => simp [behind]
  | cons frame inner inductionHypothesis =>
    obtain ⟨side, color, elem, sibling⟩ := frame
    cases side <;> simp [behind, inductionHypothesis]

/-- There is a way to every element. -/
theorem exists_plug (tree : RbTree Elem) (elem : Elem) (inside : elem ∈ tree.elems) :
    ∃ path color left right, tree = plug path (node color left elem right) := by
  induction tree with
  | nil => cases inside
  | node color left top right left_ih right_ih =>
    rcases (mem_elems_join .left color left right top elem).mp inside with inside | rfl | inside
    · obtain ⟨path, color', lower, lower', found⟩ := left_ih inside
      refine ⟨path ++ [⟨.left, color, top, right⟩], color', lower, lower', ?_⟩
      rw [plug_append, ← found]
      rfl
    · exact ⟨[], color, left, right, rfl⟩
    · obtain ⟨path, color', lower, lower', found⟩ := right_ih inside
      refine ⟨path ++ [⟨.right, color, top, left⟩], color', lower, lower', ?_⟩
      rw [plug_append, ← found]
      rfl

/-- Every frame on the way makes the tree higher. -/
theorem length_le_height (path : List (Frame Elem)) (tree : RbTree Elem) :
    path.length + tree.height ≤ (plug path tree).height := by
  induction path generalizing tree with
  | nil => simp [plug]
  | cons frame path inductionHypothesis =>
    have lower : tree.height + 1 ≤ (frame.close tree).height := by
      obtain ⟨side, color, elem, sibling⟩ := frame
      cases side with
      | left => exact Nat.succ_le_succ (Nat.le_max_left _ _)
      | right => exact Nat.succ_le_succ (Nat.le_max_right _ _)
    have upper := inductionHypothesis (frame.close tree)
    rw [plug, List.length_cons]
    omega

theorem mem_around_iff (path : List (Frame Elem)) (other : Elem) :
    other ∈ around path ↔ other ∈ before path ∨ other ∈ behind path := by
  induction path with
  | nil => simp [around, before, behind]
  | cons frame path inductionHypothesis =>
    obtain ⟨side, color, elem, sibling⟩ := frame
    cases side <;>
      simp only [around, before, behind, List.cons_append, List.mem_cons, List.mem_append,
        List.not_mem_nil, or_false, inductionHypothesis] <;>
      tauto

/-- Subtrees with the same elements make whole trees with the same elements. -/
theorem elems_plug_congr (path : List (Frame Elem)) (tree other : RbTree Elem)
    (same : tree.elems = other.elems) : (plug path tree).elems = (plug path other).elems := by
  rw [elems_plug, elems_plug, same]

/-- What is around a hole is balanced when a tree with so many black nodes on every way down is
in it, and the tree does not have a red top below a red node. -/
inductive Surrounds : List (Frame Elem) → Nat → Prop where
  | root {blacks : Nat} : Surrounds [] blacks
  | red {side : Side} {elem : Elem} {sibling : RbTree Elem} {path : List (Frame Elem)}
      {blacks : Nat} (black : sibling.color = .black) (balanced : Balanced sibling blacks)
      (below : aboveColor path = some .black) (outer : Surrounds path blacks) :
      Surrounds (⟨side, .red, elem, sibling⟩ :: path) blacks
  | black {side : Side} {elem : Elem} {sibling : RbTree Elem} {path : List (Frame Elem)}
      {blacks : Nat} (balanced : Balanced sibling blacks)
      (outer : Surrounds path (blacks + 1)) :
      Surrounds (⟨side, .black, elem, sibling⟩ :: path) blacks

/-- The whole tree is red-black exactly when the subtree fits into what is around it. -/
theorem redBlack_plug_iff (path : List (Frame Elem)) (tree : RbTree Elem) :
    RedBlack (plug path tree) ↔ ∃ blacks, Surrounds path blacks ∧ Balanced tree blacks ∧
      (tree.color = .red → aboveColor path = some .black) := by
  induction path generalizing tree with
  | nil =>
    constructor
    · rintro ⟨black, blacks, balanced⟩
      exact ⟨blacks, .root, balanced, fun red => by
        rw [plug] at black
        rw [black] at red
        cases red⟩
    · rintro ⟨blacks, _, balanced, fits⟩
      refine ⟨?_, blacks, balanced⟩
      cases colored : tree.color with
      | black => exact colored
      | red => cases fits colored
  | cons frame path inductionHypothesis =>
    obtain ⟨side, color, elem, sibling⟩ := frame
    rw [plug, inductionHypothesis, Frame.close]
    cases color with
    | red =>
      constructor
      · rintro ⟨blacks, outer, balanced, fits⟩
        obtain ⟨black, black', balanced, balanced'⟩ := balanced_red.mp balanced
        exact ⟨blacks, .red black' balanced' (fits (color_join ..)) outer, balanced,
          fun red => by rw [black] at red; cases red⟩
      · rintro ⟨blacks, outer, balanced, fits⟩
        have black : tree.color = .black := by
          cases colored : tree.color with
          | black => rfl
          | red => cases fits colored
        cases outer with
        | red black' balanced' below outer =>
          exact ⟨blacks, outer, balanced_red.mpr ⟨black, black', balanced, balanced'⟩,
            fun _ => below⟩
    | black =>
      constructor
      · rintro ⟨blacks, outer, balanced, _⟩
        obtain ⟨fewer, rfl, balanced, balanced'⟩ := balanced.black_join
        exact ⟨fewer, .black balanced' outer, balanced, fun _ => rfl⟩
      · rintro ⟨blacks, outer, balanced, _⟩
        cases outer with
        | black balanced' outer =>
          exact ⟨blacks + 1, outer, balanced_black.mpr ⟨balanced, balanced'⟩, fun red => by
            rw [color_join] at red
            cases red⟩

end NetVirt.RbTrees
