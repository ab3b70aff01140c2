import NetVirt.TreeInsertions

/-!
# Removing

RB_REMOVE and RB_REMOVE_COLOR. An element with two children is replaced by the next one, which
has no left child, so that it is always an element with at most one child whose place is taken
by the child. If it was black, a black node is missing on the ways through this place; going up,
siblings are made red until a rotation brings a black node over.
-/

namespace NetVirt.RbTrees

universe u v
variable {Elem : Type u} [DecidableEq Elem]

/-- `if (elm) RB_COLOR(elm) = RB_BLACK` -/
def blackenAt (head : Head Elem) (elm : Option Elem) : Head Elem :=
  elm.elim head fun elm => head.setColor elm .black

/-- The first part of the loop: a red sibling is rotated above the parent, which has a black
one then. -/
def blackSibling (side : Side) (head : Head Elem) (parent : Elem) :
    Option (Head Elem × Elem) :=
  match (head.entry parent).child side.other with
  | none => none
  | some tmp =>
    if (head.entry tmp).color = .red then
      (rotate side (setBlackRed head tmp parent) parent).bind fun head =>
        ((head.entry parent).child side.other).map fun tmp => (head, tmp)
    else some (head, tmp)

/-- The red child of a sibling is moved to the far side. -/
def redFar (side : Side) (head : Head Elem) (parent tmp : Elem) : Option (Head Elem × Elem) :=
  if head.isRed ((head.entry tmp).child side.other) then some (head, tmp)
  else
    (rotate side.other ((blackenAt head ((head.entry tmp).child side)).setColor tmp .red)
      tmp).bind fun head =>
        ((head.entry parent).child side.other).map fun tmp => (head, tmp)

/-- A sibling with a red child is rotated above the parent. -/
def borrow (side : Side) (head : Head Elem) (parent tmp : Elem) : Option (Head Elem) :=
  (redFar side head parent tmp).bind fun moved =>
    let head := moved.1.setColor moved.2 (moved.1.entry parent).color
    let head := head.setColor parent .black
    rotate side (blackenAt head ((head.entry moved.2).child side.other)) parent

/-- `RB_REMOVE_COLOR`, with both of its branches for the side of the element. -/
def removeColor : Nat → Head Elem → Option Elem → Option Elem → Option (Head Elem)
  | 0, _, _, _ => none
  | rounds + 1, head, parent, elm =>
    if ¬ head.isRed elm ∧ elm ≠ head.root then
      parent.bind fun parent =>
        let side := head.sideOf parent elm
        (blackSibling side head parent).bind fun found =>
          let entry := found.1.entry found.2
          if ¬ found.1.isRed (entry.child side) ∧ ¬ found.1.isRed (entry.child side.other) then
            let head := found.1.setColor found.2 .red
            removeColor rounds head (head.entry parent).parent (some parent)
          else
            (borrow side found.1 parent found.2).map fun head => blackenAt head head.root
    else some (blackenAt head elm)

/-- The label `color` of RB_REMOVE. -/
def removeColored (rounds : Nat) (head : Head Elem) (color : Color)
    (parent child : Option Elem) : Option (Head Elem) :=
  if color = .black then removeColor rounds head parent child else some head

/-- The loop of RB_REMOVE to the leftmost element. -/
def leftmost (head : Head Elem) : Nat → Elem → Option Elem
  | 0, _ => none
  | rounds + 1, elm =>
    match (head.entry elm).left with
    | none => some elm
    | some left => leftmost head rounds left

/-- RB_REMOVE of an element with at most one child. -/
def removeSingle (rounds : Nat) (head : Head Elem) (elm : Elem) (child : Option Elem) :
    Option (Head Elem) :=
  let parent := (head.entry elm).parent
  removeColored rounds (splice head elm child parent) (head.entry elm).color parent child

/-- The loop of RB_REMOVE from an element to the root. RB_AUGMENT does nothing there. -/
def augmentAbove : Nat → Head Elem → Elem → Option (Head Elem)
  | 0, _, _ => none
  | rounds + 1, head, left =>
    match (head.entry left).parent with
    | none => some head
    | some left => augmentAbove rounds head left

/-- RB_REMOVE of an element with two children, when its right child is given. -/
def removeDouble (rounds : Nat) (head : Head Elem) (old right : Elem) : Option (Head Elem) :=
  (leftmost head rounds right).bind fun elm =>
    let child := (head.entry elm).right
    let color := (head.entry elm).color
    let parent := (head.entry elm).parent
    (substitute (splice head elm child parent) old elm).bind fun head =>
      let parent := if parent = some old then some elm else parent
      (parent.elim (some head) (augmentAbove rounds head)).bind fun head =>
        removeColored rounds head color parent child

/-- `RB_REMOVE` -/
def rbRemove (rounds : Nat) (head : Head Elem) (elm : Elem) : Option (Head Elem × Elem) :=
  (match (head.entry elm).left with
    | none => removeSingle rounds head elm (head.entry elm).right
    | some left =>
      match (head.entry elm).right with
      | none => removeSingle rounds head elm (some left)
      | some right => removeDouble rounds head elm right).map fun head => (head, elm)

section Mending
variable {head : Head Elem} {path : List (Frame Elem)}

theorem blackenAt_at {tree : RbTree Elem} (place : At head path tree) :
    At (blackenAt head tree.top) path tree.blacken := by
  cases tree with
  | nil => exact place
  | node color left elem right => exact place.recolor_node .black

/-- A black node may be missing on the ways through a subtree, unless its top is red. -/
def Short (tree : RbTree Elem) (blacks : Nat) : Prop :=
  (tree.color = .black ∧ Balanced tree blacks) ∨
    (tree.color = .red ∧ Balanced tree.blacken (blacks + 1))

/-- The loop ends at a red top, or at the root. -/
theorem removeColor_ends (rounds : Nat) {tree : RbTree Elem} {blacks : Nat}
    (place : At head path tree) (outer : Surrounds path (blacks + 1))
    (short : Short tree blacks) (ends : tree.color = .red ∨ path = []) :
    ∃ after, removeColor (rounds + 1) head (above path) tree.top = some after ∧
      Mended (plug path tree) after := by
  have through : ¬ (¬ head.isRed tree.top ∧ tree.top ≠ head.root) := by
    rintro ⟨black, lower⟩
    cases ends with
    | inl red => exact black (place.isRed_iff.mpr red)
    | inr root =>
      subst root
      exact lower place.root_eq.symm
  refine ⟨blackenAt head tree.top, by rw [removeColor, if_neg through], ?_⟩
  refine ⟨plug path tree.blacken, (at_plug_iff ..).mpr (blackenAt_at place), ?_,
    elems_plug_congr path _ _ (RbTree.elems_blacken tree)⟩
  have black : tree.blacken.color = .red → aboveColor path = some .black := by
    intro red
    rw [RbTree.color_blacken] at red
    cases red
  cases short with
  | inr red => exact (redBlack_plug_iff ..).mpr ⟨_, outer, red.2, black⟩
  | inl black' =>
    cases ends with
    | inl red =>
      rw [black'.1] at red
      cases red
    | inr root =>
      subst root
      rw [RbTree.blacken_of_black tree black'.1]
      exact ⟨black'.1, _, black'.2⟩

omit [DecidableEq Elem] in
/-- What is around a subtree and its black sibling. -/
theorem Surrounds.sibling {side : Side} {color : Color} {elem : Elem} {sibling : RbTree Elem}
    {blacks : Nat} (outer : Surrounds (⟨side, color, elem, sibling⟩ :: path) blacks) :
    Balanced sibling blacks ∧
      (color = .red ∧ sibling.color = .black ∧ aboveColor path = some .black ∧
          Surrounds path blacks ∨
        color = .black ∧ Surrounds path (blacks + 1)) := by
  cases outer with
  | red black balanced below outer => exact ⟨balanced, Or.inl ⟨rfl, black, below, outer⟩⟩
  | black balanced outer => exact ⟨balanced, Or.inr ⟨rfl, outer⟩⟩

omit [DecidableEq Elem] in
/-- Another sibling, which is black, too. -/
theorem Surrounds.exchange {side side' : Side} {color : Color} {elem elem' : Elem}
    {sibling sibling' : RbTree Elem} {blacks : Nat}
    (outer : Surrounds (⟨side, color, elem, sibling⟩ :: path) blacks)
    (balanced : Balanced sibling' blacks) (black : sibling'.color = .black) :
    Surrounds (⟨side', color, elem', sibling'⟩ :: path) blacks := by
  cases outer with
  | red _ _ below outer => exact .red black balanced below outer
  | black _ outer => exact .black balanced outer

omit [DecidableEq Elem] in
/-- A node of the colour that was here, with two black nodes below. -/
theorem redBlack_restored {side : Side} {color : Color} {elem other : Elem}
    {sibling near far : RbTree Elem} {blacks : Nat}
    (outer : Surrounds (⟨side, color, elem, sibling⟩ :: path) (blacks + 1))
    (balanced : Balanced near (blacks + 1)) (balanced' : Balanced far (blacks + 1))
    (black : near.color = .black) (black' : far.color = .black) :
    RedBlack (plug path (.join side color near other far)) := by
  refine (redBlack_plug_iff ..).mpr ?_
  obtain ⟨_, ⟨rfl, _, below, higher⟩ | ⟨rfl, higher⟩⟩ := outer.sibling
  · exact ⟨_, higher, balanced_red.mpr ⟨black, black', balanced, balanced'⟩, fun _ => below⟩
  · refine ⟨_, higher, balanced_black.mpr ⟨balanced, balanced'⟩, fun red => ?_⟩
    rw [RbTree.color_join] at red
    cases red

/-- A sibling with a red far child is rotated above the parent. -/
theorem borrow_far {side : Side} {color : Color} {tree near far : RbTree Elem}
    {parent tmp : Elem} {blacks : Nat}
    (place : At head (⟨side, color, parent, .join side .black near tmp far⟩ :: path) tree)
    (outer : Surrounds (⟨side, color, parent, .join side .black near tmp far⟩ :: path)
      (blacks + 1))
    (balanced : Balanced tree blacks) (red : far.color = .red) :
    ∃ after, rotate side (blackenAt ((head.setColor tmp color).setColor parent .black)
        far.top) parent = some after ∧
      Mended (plug (⟨side, color, parent, .join side .black near tmp far⟩ :: path) tree)
        after := by
  have tmp_colored := (place.sibling.recolor color).sibling
  rw [Side.other_other] at tmp_colored
  have parent_black := ((at_cons_iff ..).mp tmp_colored).recolor .black
  have beside := ((at_cons_iff _ ⟨side, .black, parent, _⟩ path tree).mpr parent_black).sibling
  have far_black := blackenAt_at
    ((at_cons_iff _ ⟨side, color, tmp, far⟩ _ near).mpr beside).sibling
  have near_again := far_black.sibling
  rw [Side.other_other] at near_again
  have whole := ((at_cons_iff ..).mp near_again).sibling
  rw [Side.other_other] at whole
  obtain ⟨after, rotated, place'⟩ := rotate_at _ _ _ _ _ _ _ _ ((at_cons_iff ..).mp whole)
  obtain ⟨below, _⟩ := outer.sibling
  obtain ⟨balanced_near, balanced_far⟩ := balanced_black.mp below
  refine ⟨after, rotated, _, (at_plug_iff ..).mpr place', ?_, ?_⟩
  · exact redBlack_restored outer (balanced_black.mpr ⟨balanced, balanced_near⟩)
      (balanced_far.blacken_red red) (RbTree.color_join ..) (RbTree.color_blacken far)
  · refine elems_plug_congr path _ _ ?_
    rw [RbTree.elems_rotated]
    refine RbTree.elems_join_congr _ _ _ _ _ _ _ rfl ?_ _
    exact RbTree.elems_join_congr _ _ _ _ _ _ _ rfl (RbTree.elems_blacken far) _

/-- A sibling with a red child is rotated above the parent, after its red child was moved to
the far side. -/
theorem borrow_mends {side : Side} {color : Color} {tree near far : RbTree Elem}
    {parent tmp : Elem} {blacks : Nat}
    (place : At head (⟨side, color, parent, .join side .black near tmp far⟩ :: path) tree)
    (outer : Surrounds (⟨side, color, parent, .join side .black near tmp far⟩ :: path)
      (blacks + 1))
    (balanced : Balanced tree blacks)
    (red : near.color = .red ∨ far.color = .red) :
    ∃ after, borrow side head parent tmp = some after ∧
      Mended (plug (⟨side, color, parent, .join side .black near tmp far⟩ :: path) tree)
        after := by
  have tmp_place := place.sibling
  have far_place := ((at_cons_iff _ ⟨side, .black, tmp, far⟩ _ near).mpr tmp_place).sibling
  have far_eq : (head.entry tmp).child side.other = far.top := by
    rw [tmp_place.entry_top, child_other_joined]
  have near_eq : (head.entry tmp).child side = near.top := by
    rw [tmp_place.entry_top, child_joined]
  obtain ⟨below, _⟩ := outer.sibling
  obtain ⟨balanced_near, balanced_far⟩ := balanced_black.mp below
  by_cases far_red : far.color = .red
  · have already : redFar side head parent tmp = some (head, tmp) := by
      rw [redFar, far_eq, if_pos (far_place.isRed_iff.mpr far_red)]
    rw [borrow, already, Option.bind_some]
    simp only [child_setColor, far_eq, place.entry_above, color_joined]
    exact borrow_far place outer balanced far_red
  · have near_red : near.color = .red := red.resolve_right far_red
    have far_black : far.color = .black := by
      cases colored : far.color with
      | black => rfl
      | red => exact absurd colored far_red
    rcases RbTree.eq_nil_or_join side near with rfl | ⟨_, first, elem, second, rfl⟩
    · cases near_red
    rw [RbTree.color_join] at near_red
    subst near_red
    obtain ⟨black_first, black_second, balanced_first, balanced_second⟩ :=
      balanced_red.mp balanced_near
    -- The red child is made black and goes up, the sibling is made red and goes down.
    have elem_black := ((at_cons_iff _ ⟨side, .black, tmp, far⟩ _ _).mpr tmp_place).recolor
      .black
    have tmp_red : At ((head.setColor elem .black).setColor tmp .red)
        (⟨side.other, color, parent, tree⟩ :: path)
        (.join side .red (.join side .black first elem second) tmp far) :=
      ((at_cons_iff ..).mp elem_black).recolor .red
    rw [← RbTree.join_other, ← RbTree.join_other side .black] at tmp_red
    obtain ⟨after, rotated, place'⟩ := rotate_at _ _ _ _ _ _ _ _ tmp_red
    rw [RbTree.join_other, RbTree.join_other] at place'
    have place' := place'.sibling
    rw [Side.other_other] at place'
    have moved : redFar side head parent tmp = some (after, elem) := by
      have not_red : ¬ head.isRed far.top :=
        fun red => far_red (far_place.isRed_iff.mp red)
      rw [redFar, far_eq, if_neg not_red, near_eq, RbTree.top_join]
      rw [show blackenAt head (some elem) = head.setColor elem .black from rfl, rotated,
        Option.bind_some, place'.entry_above, child_other_joined, RbTree.top_join]
      rfl
    have elem_place := place'.sibling
    have elem_far : (after.entry elem).child side.other = some tmp := by
      rw [elem_place.entry_top, child_other_joined, RbTree.top_join]
    have lower : Balanced (.join side .red second tmp far) blacks :=
      balanced_red.mpr ⟨black_second, far_black, balanced_second, balanced_far⟩
    obtain ⟨last, ended, tree', holds, valid, elems⟩ := borrow_far place'
      (outer.exchange (balanced_black.mpr ⟨balanced_first, lower⟩) (RbTree.color_join ..))
      balanced (RbTree.color_join ..)
    refine ⟨last, ?_, tree', holds, valid, elems.trans (elems_plug_congr path _ _ ?_)⟩
    · rw [borrow, moved, Option.bind_some]
      simp only [child_setColor, elem_far, place'.entry_above, color_joined]
      rw [RbTree.top_join] at ended
      exact ended
    · refine RbTree.elems_join_congr _ _ _ _ _ _ _ rfl ?_ _
      rw [← RbTree.elems_rotated]
      exact RbTree.elems_join_congr _ _ _ _ _ _ _ (RbTree.elems_join_color ..) rfl _

/-- Past a black sibling: it is made red, and the black node is missing one node higher, or a
rotation has mended the tree. -/
theorem removeColor_turn (rounds : Nat) {side : Side} {color : Color}
    {tree near far : RbTree Elem} {parent tmp : Elem} {blacks : Nat}
    (place : At head (⟨side, color, parent, .join side .black near tmp far⟩ :: path) tree)
    (outer : Surrounds (⟨side, color, parent, .join side .black near tmp far⟩ :: path)
      (blacks + 1))
    (balanced : Balanced tree blacks)
    (goes_on : ∀ {after : Head Elem} {larger : RbTree Elem} {more : Nat},
      At after path larger → Surrounds path (more + 1) → Short larger more →
      larger.color = color → ∃ last, removeColor rounds after (above path) larger.top =
        some last ∧ Mended (plug path larger) last) :
    ∃ after,
      (if ¬ head.isRed ((head.entry tmp).child side) ∧
          ¬ head.isRed ((head.entry tmp).child side.other) then
        removeColor rounds (head.setColor tmp .red)
          (((head.setColor tmp .red).entry parent).parent) (some parent)
      else
        (borrow side head parent tmp).map fun head => blackenAt head head.root) = some after ∧
      Mended (plug (⟨side, color, parent, .join side .black near tmp far⟩ :: path) tree)
        after := by
  obtain ⟨below, above_eq⟩ := outer.sibling
  obtain ⟨balanced_near, balanced_far⟩ := balanced_black.mp below
  have tmp_place := place.sibling
  have near_place := (at_cons_iff _ ⟨side, .black, tmp, far⟩ _ near).mpr tmp_place
  have far_eq : (head.entry tmp).child side.other = far.top := by
    rw [tmp_place.entry_top, child_other_joined]
  have near_eq : (head.entry tmp).child side = near.top := by
    rw [tmp_place.entry_top, child_joined]
  rw [near_eq, far_eq]
  simp only [near_place.isRed_iff, near_place.sibling.isRed_iff]
  by_cases both : ¬ near.color = .red ∧ ¬ far.color = .red
  · rw [if_pos both]
    have black_of : ∀ {tree : RbTree Elem}, ¬ tree.color = .red → tree.color = .black := by
      intro tree not_red
      cases colored : tree.color with
      | black => rfl
      | red => exact absurd colored not_red
    have tmp_red := (tmp_place.recolor .red).sibling
    rw [Side.other_other] at tmp_red
    have lower : Balanced (.join side .red near tmp far) blacks :=
      balanced_red.mpr ⟨black_of both.1, black_of both.2, balanced_near, balanced_far⟩
    have larger := (at_cons_iff ..).mp tmp_red
    rw [tmp_red.entry_above, parent_joined]
    have same : (Frame.close ⟨side, color, parent, .join side .red near tmp far⟩ tree).elems =
        (Frame.close ⟨side, color, parent, .join side .black near tmp far⟩ tree).elems :=
      RbTree.elems_join_congr _ _ _ _ _ _ _ rfl (RbTree.elems_join_color ..) _
    have finish : ∃ last, removeColor rounds (head.setColor tmp .red) (above path)
        (some parent) = some last ∧
          Mended (plug path (Frame.close ⟨side, color, parent, .join side .red near tmp far⟩
            tree)) last := by
      have top := RbTree.top_join side color tree (.join side .red near tmp far) parent
      rw [← top]
      rcases above_eq with ⟨rfl, _, _, higher⟩ | ⟨rfl, higher⟩
      · refine goes_on larger higher (Or.inr ⟨RbTree.color_join .., ?_⟩) (RbTree.color_join ..)
        simp only [RbTree.blacken_join]
        exact balanced_black.mpr ⟨balanced, lower⟩
      · exact goes_on larger higher
          (Or.inl ⟨RbTree.color_join .., balanced_black.mpr ⟨balanced, lower⟩⟩)
          (RbTree.color_join ..)
    obtain ⟨last, ended, tree', holds, valid, elems⟩ := finish
    exact ⟨last, ended, tree', holds, valid, elems.trans (elems_plug_congr path _ _ same)⟩
  · rw [if_neg both]
    obtain ⟨after, borrowed, tree', holds, valid, elems⟩ :=
      borrow_mends place outer balanced (by tauto)
    rw [borrowed, Option.map_some]
    refine ⟨_, rfl, tree', ?_, valid, elems⟩
    have root_black := blackenAt_at holds
    rw [RbTree.blacken_of_black tree' valid.1] at root_black
    rw [holds.root_eq]
    exact root_black

omit [DecidableEq Elem] in
/-- The root is around every subtree but the whole tree. -/
theorem At.root_around {frame : Frame Elem} {tree : RbTree Elem}
    (place : At head (frame :: path) tree) : tree.top ≠ head.root := by
  have inside : ∀ (path : List (Frame Elem)) (hole : Option Elem), Around head path hole →
      path ≠ [] → ∃ root ∈ around path, head.root = some root := by
    intro path
    induction path with
    | nil => exact fun _ _ some_path => absurd rfl some_path
    | cons frame path inductionHypothesis =>
      rintro hole ⟨_, _, outer⟩ _
      by_cases last : path = []
      · subst last
        exact ⟨frame.elem, List.mem_cons_self, outer⟩
      · obtain ⟨root, around_root, root_eq⟩ := inductionHypothesis _ outer last
        exact ⟨root, List.mem_append_right _ around_root, root_eq⟩
  obtain ⟨root, around_root, root_eq⟩ := inside _ _ place.outer (List.cons_ne_nil _ _)
  rw [root_eq]
  exact fun same => place.apart (RbTree.top_mem tree root same) around_root

/-- Above a black subtree that is not the whole tree, the loop looks at its sibling. -/
theorem removeColor_below (rounds : Nat) {side : Side} {color : Color} {parent : Elem}
    {sibling tree : RbTree Elem}
    (place : At head (⟨side, color, parent, sibling⟩ :: path) tree)
    (black : tree.color = .black) (some_sibling : sibling.top ≠ none) :
    removeColor (rounds + 1) head (above (⟨side, color, parent, sibling⟩ :: path)) tree.top =
      (blackSibling side head parent).bind fun found =>
        if ¬ found.1.isRed ((found.1.entry found.2).child side) ∧
            ¬ found.1.isRed ((found.1.entry found.2).child side.other) then
          removeColor rounds (found.1.setColor found.2 .red)
            (((found.1.setColor found.2 .red).entry parent).parent) (some parent)
        else
          (borrow side found.1 parent found.2).map fun head => blackenAt head head.root := by
  have goes : ¬ head.isRed tree.top ∧ tree.top ≠ head.root := by
    refine ⟨fun red => ?_, place.root_around⟩
    rw [place.isRed_iff, black] at red
    cases red
  have side_eq := place.sideOf_above (Or.inl some_sibling)
  simp only at side_eq
  rw [removeColor, if_pos goes]
  simp only [above, List.head?_cons, Option.map_some, Option.bind_some, side_eq]

/-- The loop mends a tree in which a black node is missing on the ways through a subtree. -/
theorem removeColor_mends (rounds : Nat) {tree : RbTree Elem} {blacks : Nat}
    (place : At head path tree) (outer : Surrounds path (blacks + 1))
    (short : Short tree blacks) (enough : path.length + 1 < rounds) :
    ∃ after, removeColor rounds head (above path) tree.top = some after ∧
      Mended (plug path tree) after := by
  induction rounds generalizing head path tree blacks with
  | zero => exact absurd enough (Nat.not_lt_zero _)
  | succ rounds inductionHypothesis =>
    by_cases ends : tree.color = .red ∨ path = []
    · exact removeColor_ends rounds place outer short ends
    · obtain ⟨black, balanced⟩ : tree.color = .black ∧ Balanced tree blacks := by
        rcases short with short | short
        · exact short
        · exact absurd (Or.inl short.1) ends
      cases path with
      | nil => exact absurd (Or.inr rfl) ends
      | cons frame path =>
        obtain ⟨side, color, parent, sibling⟩ := frame
        obtain ⟨balanced_sibling, above_eq⟩ := outer.sibling
        obtain ⟨sibling_color, near, tmp, far, rfl⟩ := balanced_sibling.exists_join side
        rw [removeColor_below rounds place black (by rw [RbTree.top_join]; intro none; cases none)]
        have tmp_eq : (head.entry parent).child side.other = some tmp := by
          rw [place.entry_above, child_other_joined, RbTree.top_join]
        have tmp_color : (head.entry tmp).color = sibling_color := by
          rw [place.sibling.entry_top, color_joined]
        have shorter : path.length + 1 < rounds := by
          simp only [List.length_cons] at enough
          omega
        cases sibling_color with
        | black =>
          have found : blackSibling side head parent = some (head, tmp) := by
            simp only [blackSibling, tmp_eq, tmp_color, reduceCtorEq, if_false]
          rw [found, Option.bind_some]
          exact removeColor_turn rounds place outer balanced
            fun place outer short _ => inductionHypothesis place outer short shorter
        | red =>
          rw [RbTree.color_join] at above_eq
          obtain ⟨rfl, higher⟩ : color = .black ∧ Surrounds path (blacks + 1 + 1) := by
            rcases above_eq with ⟨_, sibling_black, _⟩ | above_black
            · cases sibling_black
            · exact above_black
          obtain ⟨black_near, black_far, balanced_near, balanced_far⟩ :=
            balanced_red.mp balanced_sibling
          obtain ⟨near_color, first, elem, second, rfl⟩ := balanced_near.exists_join side
          rw [RbTree.color_join] at black_near
          subst black_near
          -- The sibling is made black and goes up, so that its black child is the next one.
          have tmp_black := (place.sibling.recolor .black).sibling
          rw [Side.other_other] at tmp_black
          have parent_red : At (setBlackRed head tmp parent) path (.join side .red tree parent
              (.join side .black (.join side .black first elem second) tmp far)) :=
            ((at_cons_iff ..).mp tmp_black).recolor .red
          obtain ⟨after, rotated, place'⟩ := rotate_at _ _ _ _ _ _ _ _ parent_red
          have lower := (at_cons_iff _ ⟨side, .red, parent, .join side .black first elem second⟩
            _ tree).mpr ((at_cons_iff _ ⟨side, .black, tmp, far⟩ path _).mpr place')
          have found : blackSibling side head parent = some (after, elem) := by
            simp only [blackSibling, tmp_eq, tmp_color, if_true, rotated, Option.bind_some]
            rw [lower.entry_above, child_other_joined, RbTree.top_join, Option.map_some]
          rw [found, Option.bind_some]
          have goes_on : ∀ {after : Head Elem} {larger : RbTree Elem} {more : Nat},
              At after (⟨side, .black, tmp, far⟩ :: path) larger →
              Surrounds (⟨side, .black, tmp, far⟩ :: path) (more + 1) → Short larger more →
              larger.color = .red → ∃ last, removeColor rounds after
                (above (⟨side, .black, tmp, far⟩ :: path)) larger.top = some last ∧
                Mended (plug (⟨side, .black, tmp, far⟩ :: path) larger) last := by
            intro after larger more place outer short red
            cases rounds with
            | zero => exact absurd shorter (Nat.not_lt_zero _)
            | succ rounds => exact removeColor_ends rounds place outer short (Or.inl red)
          obtain ⟨last, ended, mended, holds, valid, elems⟩ := removeColor_turn rounds lower
            (.red (RbTree.color_join ..) balanced_near rfl (.black balanced_far higher)) balanced
            goes_on
          refine ⟨last, ended, mended, holds, valid, elems.trans (elems_plug_congr path _ _ ?_)⟩
          simp only [Frame.close]
          rw [RbTree.elems_rotated]
          exact RbTree.elems_join_congr _ _ _ _ _ _ _ rfl (RbTree.elems_join_color ..) _

end Mending

/-! ## Removing an element -/

section Removing
variable {head : Head Elem} {path : List (Frame Elem)}

omit [DecidableEq Elem] in
/-- The loop goes down the left children. -/
theorem leftmost_at (rounds : Nat) {tree : RbTree Elem} {top : Elem}
    (place : At head path tree) (some_top : tree.top = some top)
    (enough : tree.height ≤ rounds) :
    ∃ spine color elm right, tree = plug spine (.node color .nil elm right) ∧
      before spine = [] ∧ leftmost head rounds top = some elm := by
  induction tree generalizing path top rounds with
  | nil => cases some_top
  | node color left elem right left_ih _ =>
    cases some_top
    cases rounds with
    | zero => exact absurd enough (by simp [RbTree.height])
    | succ rounds =>
      rw [leftmost, place.inner.1]
      cases below : left.top with
      | none =>
        cases left with
        | nil => exact ⟨[], color, elem, right, rfl, rfl, rfl⟩
        | node _ _ _ _ => cases below
      | some next =>
        have lower := (at_cons_iff head ⟨.left, color, elem, right⟩ path left).mpr place
        have enough : left.height ≤ rounds := by
          simp only [RbTree.height] at enough
          omega
        obtain ⟨spine, color', elm, right', found, first, reached⟩ :=
          left_ih rounds lower below enough
        refine ⟨spine ++ [⟨.left, color, elem, right⟩], color', elm, right', ?_, ?_, reached⟩
        · rw [plug_append, ← found]
          rfl
        · rw [before_append, first]
          rfl

omit [DecidableEq Elem] in
/-- The way up ends at the root, after as many rounds as there are nodes above. -/
theorem augmentAbove_at (rounds : Nat) {hole : Option Elem} {parent : Elem}
    (outer : Around head path hole) (found : above path = some parent)
    (enough : path.length ≤ rounds) : augmentAbove rounds head parent = some head := by
  induction path generalizing hole parent rounds with
  | nil => cases found
  | cons frame path inductionHypothesis =>
    cases found
    obtain ⟨own, _, outer⟩ := outer
    cases rounds with
    | zero => exact absurd enough (Nat.not_succ_le_zero _)
    | succ rounds =>
      rw [augmentAbove, own, parent_joined]
      cases higher : above path with
      | none => rfl
      | some parent =>
        exact inductionHypothesis rounds outer higher (Nat.le_of_succ_le_succ enough)

/-- The child of an element that was taken out: if the element was black, a black node is
missing now. -/
theorem removeColored_mends (rounds : Nat) {side : Side} {color : Color} {child : RbTree Elem}
    {elm : Elem} (place : At head path child)
    (valid : RedBlack (plug path (.join side color .nil elm child)))
    (enough : path.length + 1 < rounds) :
    ∃ after, removeColored rounds head color (above path) child.top = some after ∧
      Mended (plug path child) after := by
  obtain ⟨blacks, outer, balanced, fits⟩ := (redBlack_plug_iff ..).mp valid
  cases color with
  | red =>
    obtain ⟨_, black, _, balanced⟩ := balanced_red.mp balanced
    refine ⟨head, by simp [removeColored], plug path child, (at_plug_iff ..).mpr place, ?_, rfl⟩
    refine (redBlack_plug_iff ..).mpr ⟨blacks, outer, balanced, fun red => ?_⟩
    rw [black] at red
    cases red
  | black =>
    obtain ⟨fewer, rfl, _, balanced⟩ := balanced.black_join
    rw [removeColored, if_pos rfl]
    refine removeColor_mends rounds place outer ?_ enough
    cases colored : child.color with
    | black => exact Or.inl ⟨colored, balanced⟩
    | red => exact Or.inr ⟨colored, balanced.blacken_red colored⟩

/-- An element with one child at most. -/
theorem removeSingle_mends (rounds : Nat) {side : Side} {color : Color} {child : RbTree Elem}
    {elm : Elem} (place : At head path (.join side color .nil elm child))
    (valid : RedBlack (plug path (.join side color .nil elm child)))
    (enough : path.length + 1 < rounds) :
    ∃ after, removeSingle rounds head elm child.top = some after ∧
      Mended (plug path child) after := by
  rw [removeSingle, place.entry_top, parent_joined, color_joined]
  exact removeColored_mends rounds (splice_at place) valid enough

/-- An element with two children: the next element gets its place. -/
theorem removeDouble_mends (rounds : Nat) {color : Color} {left right : RbTree Elem}
    {old top : Elem} (place : At head path (.node color left old right))
    (valid : RedBlack (plug path (.node color left old right)))
    (some_left : left ≠ .nil) (some_right : right.top = some top)
    (enough : (plug path (.node color left old right)).height + 1 < rounds) :
    ∃ after, removeDouble rounds head old top = some after ∧
      ∃ tree, At after [] tree ∧ RedBlack tree ∧
        tree.elems = before path ++ left.elems ++ right.elems ++ behind path := by
  have lower := (at_cons_iff head ⟨.right, color, old, left⟩ path right).mpr place
  have high := length_le_height path (.node color left old right)
  have right_high : right.height ≤ rounds := by
    simp only [RbTree.height] at high
    omega
  obtain ⟨spine, color', elm, child, rfl, first, reached⟩ :=
    leftmost_at rounds lower some_right right_high
  have leaf : At head (spine ++ ⟨.right, color, old, left⟩ :: path)
      (.join .left color' .nil elm child) := (at_append_iff ..).mpr lower
  have back := (at_cons_iff ..).mp ((at_append_iff ..).mp (splice_at leaf))
  have right_elems := elems_plug spine (.node color' .nil elm child)
  rw [first] at right_elems
  simp only [RbTree.elems, List.nil_append] at right_elems
  have nodup := (RbTree.nodup_elems_join .left color left _ old).mp place.nodup
  have nodup_right := nodup.2.1
  rw [right_elems, List.cons_append, List.nodup_cons] at nodup_right
  have elm_right : elm ∈ (plug spine (.node color' .nil elm child)).elems := by
    rw [right_elems]
    exact List.mem_cons_self
  have not_old : elm ≠ old := fun same => nodup.2.2.2.1 (same ▸ elm_right)
  have absent : elm ∉ (plug spine child).elems := by
    rw [elems_plug, first]
    simpa using nodup_right.1
  obtain ⟨after, taken, place'⟩ := substitute_at back some_left
    (place.apart ((RbTree.mem_elems_join .left color left _ old elm).mpr
      (Or.inr (Or.inr elm_right)))) not_old
    (fun inside => nodup.2.2.2.2 inside elm_right) absent
  have place' := (at_append_iff after spine (⟨.right, color, elm, left⟩ :: path) child).mpr
    ((at_cons_iff ..).mpr place')
  have parent : (if above (spine ++ ⟨.right, color, old, left⟩ :: path) = some old then some elm
      else above (spine ++ ⟨.right, color, old, left⟩ :: path)) =
        above (spine ++ ⟨.right, color, elm, left⟩ :: path) := by
    cases spine with
    | nil => exact if_pos rfl
    | cons frame spine =>
      refine if_neg fun same => nodup.2.2.2.1 ?_
      cases same
      rw [elems_plug, List.append_assoc, List.mem_append, List.mem_append]
      have inside := (mem_around_iff (frame :: spine) frame.elem).mp List.mem_cons_self
      tauto
  obtain ⟨blacks, outer, balanced, fits⟩ := (redBlack_plug_iff ..).mp valid
  have valid' : RedBlack (plug (spine ++ ⟨.right, color, elm, left⟩ :: path)
      (.join .left color' .nil elm child)) := by
    rw [plug_append]
    exact (redBlack_plug_iff path _).mpr ⟨blacks, outer, balanced.exchange elm, fits⟩
  have short : (spine ++ ⟨.right, color, elm, left⟩ :: path).length + 1 < rounds := by
    have long := length_le_height (spine ++ ⟨.right, color, old, left⟩ :: path)
      (.node color' .nil elm child)
    rw [plug_append] at long
    simp only [List.length_append, List.length_cons, plug, Frame.close, RbTree.join] at long ⊢
    omega
  obtain ⟨last, mended, tree, holds, valid, elems⟩ :=
    removeColored_mends rounds place' valid' short
  refine ⟨last, ?_, tree, holds, valid, ?_⟩
  · have walked : (above (spine ++ ⟨.right, color, elm, left⟩ :: path)).elim (some after)
        (augmentAbove rounds after) = some after := by
      cases found : above (spine ++ ⟨.right, color, elm, left⟩ :: path) with
      | none => rfl
      | some parent => exact augmentAbove_at rounds place'.outer found (by omega)
    rw [removeDouble, reached, Option.bind_some]
    simp only [leaf.inner.1, taken, Option.bind_some, parent, walked]
    exact mended
  · rw [elems, elems_plug, before_append, behind_append, first, right_elems]
    simp [before, behind]

/-- What is left of a red-black tree without one of its elements. -/
theorem rbRemove_mends (rounds : Nat) {tree : RbTree Elem} {elm : Elem}
    (place : At head [] tree) (valid : RedBlack tree) (inside : elm ∈ tree.elems)
    (enough : tree.height + 1 < rounds) :
    ∃ after smaller front back, rbRemove rounds head elm = some (after, elm) ∧
      At after [] smaller ∧ RedBlack smaller ∧ tree.elems = front ++ elm :: back ∧
      smaller.elems = front ++ back := by
  obtain ⟨path, color, left, right, rfl⟩ := exists_plug tree elm inside
  have here := (at_plug_iff ..).mp place
  have own := here.inner.1
  have long := length_le_height path (.node color left elm right)
  have short : path.length + 1 < rounds := by
    simp only [RbTree.height] at long
    omega
  have split := elems_plug path (.node color left elm right)
  rw [RbTree.elems, List.append_assoc, List.append_assoc, ← List.append_assoc,
    List.cons_append] at split
  cases left_top : left.top with
  | none =>
    cases left with
    | node _ _ _ _ => cases left_top
    | nil =>
      have only_right : At head path (.join .left color .nil elm right) := here
      obtain ⟨after, mended, smaller, holds, valid', elems⟩ :=
        removeSingle_mends rounds only_right valid short
      refine ⟨after, smaller, _, _, ?_, holds, valid', split, ?_⟩
      · simp only [rbRemove, own, left_top, mended, Option.map_some]
      · rw [elems, elems_plug]
        simp [RbTree.elems]
  | some left_elm =>
    cases right_top : right.top with
    | none =>
      cases right with
      | node _ _ _ _ => cases right_top
      | nil =>
        have only_left : At head path (.join .right color .nil elm left) := here
        obtain ⟨after, mended, smaller, holds, valid', elems⟩ :=
          removeSingle_mends rounds only_left valid short
        refine ⟨after, smaller, _, _, ?_, holds, valid', split, ?_⟩
        · rw [left_top] at mended
          simp only [rbRemove, own, left_top, right_top, mended, Option.map_some]
        · rw [elems, elems_plug]
          simp [RbTree.elems]
    | some right_elm =>
      have some_left : left ≠ .nil := by
        intro none
        rw [none] at left_top
        cases left_top
      obtain ⟨after, mended, smaller, holds, valid', elems⟩ :=
        removeDouble_mends rounds here valid some_left right_top enough
      refine ⟨after, smaller, _, _, ?_, holds, valid', split, ?_⟩
      · simp only [rbRemove, own, left_top, right_top, mended, Option.map_some]
      · rw [elems]
        simp

end Removing

section Search
variable {Key : Type v} {key : Elem → Key} {cmp : Key → Key → Int} (compares : Comparison cmp)
variable {head : Head Elem} {tree : RbTree Elem}
include compares

/-- An element of the tree is removed, and no other one. -/
theorem Formed.rbRemove_eq (formed : Formed key cmp head tree) (elm : Elem)
    (inside : elm ∈ tree.elems) (rounds : Nat) (enough : tree.height + 1 < rounds) :
    ∃ after smaller, rbRemove rounds head elm = some (after, elm) ∧
      Formed key cmp after smaller ∧
      ∀ other, other ∈ smaller.elems ↔ other ∈ tree.elems ∧ other ≠ elm := by
  obtain ⟨after, smaller, front, back, removed, place, valid, split, rest⟩ :=
    rbRemove_mends rounds formed.place formed.valid inside enough
  have sorted := formed.sorted
  rw [Sorted, split] at sorted
  refine ⟨after, smaller, removed, ⟨place, valid, ?_⟩, fun other => ?_⟩
  · rw [Sorted, rest]
    exact sorted.sublist ((List.sublist_cons_self elm back).append_left front)
  · have apart : ∀ other, other ∈ front ∨ other ∈ back → other ≠ elm := by
      obtain ⟨_, upper, across⟩ := List.pairwise_append.mp sorted
      rintro other (within | within) rfl
      · exact compares.ne_of_neg (across other within other List.mem_cons_self) rfl
      · exact compares.ne_of_neg (List.rel_of_pairwise_cons upper within) rfl
    have apart := apart other
    rw [rest, split]
    simp only [List.mem_append, List.mem_cons]
    tauto

end Search

end NetVirt.RbTrees
