import NetVirt.TreeEntries

/-!
# Finding and inserting

RB_FIND, RB_INSERT and RB_INSERT_COLOR. A search goes down one way of the tree, and so takes
no more rounds than the tree is high. A new element is red and may have a red parent; going up,
the colours above it are exchanged until one or two rotations end it.
-/

namespace NetVirt.RbTrees

universe u v
variable {Elem : Type u}

/-- The loop of `RB_FIND`, by how what is sought compares with an element. -/
def findFrom (head : Head Elem) (comp : Elem → Int) : Nat → Option Elem → Option (Option Elem)
  | 0, _ => none
  | _ + 1, none => some none
  | rounds + 1, some tmp =>
    if comp tmp < 0 then findFrom head comp rounds (head.entry tmp).left
    else if 0 < comp tmp then findFrom head comp rounds (head.entry tmp).right
    else some (some tmp)

/-- `RB_FIND` -/
def rbFind (rounds : Nat) (head : Head Elem) (comp : Elem → Int) : Option (Option Elem) :=
  findFrom head comp rounds head.root

/-- Where the search of `RB_INSERT` ends: at an equal element, or below a parent, after the
last comparison. -/
inductive Place (Elem : Type u) where
  | found (elm : Elem)
  | below (parent : Option Elem) (comp : Int)

/-- The loop of `RB_INSERT` -/
def placeFrom (head : Head Elem) (comp : Elem → Int) :
    Nat → Option Elem → Option Elem → Int → Option (Place Elem)
  | 0, _, _, _ => none
  | _ + 1, none, parent, last => some (.below parent last)
  | rounds + 1, some tmp, _, _ =>
    if comp tmp < 0 then placeFrom head comp rounds (head.entry tmp).left (some tmp) (comp tmp)
    else if 0 < comp tmp then
      placeFrom head comp rounds (head.entry tmp).right (some tmp) (comp tmp)
    else some (.found tmp)

def sideOfComp (comp : Int) : Side :=
  if comp < 0 then .left else .right

section Macros
variable [DecidableEq Elem]

/-- `RB_SET_BLACKRED` -/
def setBlackRed (head : Head Elem) (black red : Elem) : Head Elem :=
  (head.setColor black .black).setColor red .red

/-- `RB_COLOR(head->rbh_root, field) = RB_BLACK` -/
def blackenRoot (head : Head Elem) : Option (Head Elem) :=
  head.root.map fun root => head.setColor root .black

/-- There is an element, and it is red. -/
def Head.isRed (head : Head Elem) (pointer : Option Elem) : Prop :=
  ∃ elm, pointer = some elm ∧ (head.entry elm).color = .red

instance (head : Head Elem) (pointer : Option Elem) : Decidable (head.isRed pointer) :=
  match pointer with
  | none => isFalse fun red => by obtain ⟨elm, same, _⟩ := red; cases same
  | some elm => decidable_of_iff ((head.entry elm).color = .red)
      ⟨fun red => ⟨elm, rfl, red⟩, fun red => by obtain ⟨other, same, red⟩ := red; cases same
                                                 exact red⟩

/-- An element on the inner side of its parent is rotated into its place: the entries, and
which of the two is the parent then. -/
def straighten (side : Side) (head : Head Elem) (parent elm : Elem) :
    Option (Head Elem × Elem × Elem) :=
  if (head.entry parent).child side.other = some elm then
    (rotate side head parent).map fun head => (head, elm, parent)
  else some (head, parent, elm)

/-- `RB_INSERT_COLOR`, with both of its branches for the side of the parent. -/
def insertColor : Nat → Head Elem → Elem → Option (Head Elem)
  | 0, _, _ => none
  | rounds + 1, head, elm =>
    match (head.entry elm).parent with
    | none => blackenRoot head
    | some parent =>
      if (head.entry parent).color = .red then
        match (head.entry parent).parent with
        | none => none
        | some gparent =>
          let side := head.sideOf gparent (some parent)
          let tmp := (head.entry gparent).child side.other
          if head.isRed tmp then
            insertColor rounds (setBlackRed (tmp.elim head fun tmp => head.setColor tmp .black)
              parent gparent) gparent
          else
            (straighten side head parent elm).bind fun straight =>
              (rotate side.other (setBlackRed straight.1 straight.2.1 gparent) gparent).bind
                fun head => insertColor rounds head straight.2.2
      else blackenRoot head

/-- `RB_INSERT`: the element that was there already, if there was one. -/
def rbInsert (rounds : Nat) (head : Head Elem) (comp : Elem → Int) (elm : Elem) :
    Option (Head Elem × Option Elem) :=
  match placeFrom head comp rounds head.root none 0 with
  | none => none
  | some (.found tmp) => some (head, some tmp)
  | some (.below parent last) =>
    (insertColor rounds (attach head parent (sideOfComp last) elm) elm).map fun head =>
      (head, none)

end Macros

/-! ## Entries on the way -/

section Entries
variable {head : Head Elem} {path : List (Frame Elem)}

theorem At.entry_top {side : Side} {color : Color} {near far : RbTree Elem} {elm : Elem}
    (place : At head path (.join side color near elm far)) :
    head.entry elm = .joined side color near.top far.top (above path) :=
  ((holds_join ..).mp place.inner).1

theorem At.entry_above {frame : Frame Elem} {tree : RbTree Elem}
    (place : At head (frame :: path) tree) :
    head.entry frame.elem =
      .joined frame.side frame.color tree.top frame.sibling.top (above path) :=
  place.outer.1

/-- The top of a subtree is not that of its sibling. -/
theorem At.top_ne {frame : Frame Elem} {tree : RbTree Elem}
    (place : At head (frame :: path) tree) (elm : Elem) (top : tree.top = some elm) :
    frame.sibling.top ≠ some elm := by
  intro same
  refine place.apart (RbTree.top_mem tree elm top) ?_
  simp [around, RbTree.top_mem _ _ same]

theorem At.sideOf_above [DecidableEq Elem] {frame : Frame Elem} {tree : RbTree Elem}
    (place : At head (frame :: path) tree)
    (some_top : frame.sibling.top ≠ none ∨ tree.top ≠ none) :
    head.sideOf frame.elem tree.top = frame.side := by
  refine sideOf_eq _ _ _ _ _ _ _ place.entry_above fun same => ?_
  cases top : tree.top with
  | none =>
    rw [same, top] at some_top
    tauto
  | some elm => exact place.top_ne elm top (same.trans top)

/-- A subtree is red exactly when the pointer to it leads to a red element. -/
theorem At.isRed_iff {tree : RbTree Elem} (place : At head path tree) :
    head.isRed tree.top ↔ tree.color = .red := by
  cases tree with
  | nil =>
    constructor
    · rintro ⟨elm, same, _⟩
      cases same
    · intro red
      cases red
  | node color left elem right =>
    have own := place.inner.1
    constructor
    · rintro ⟨elm, same, red⟩
      cases same
      rw [own] at red
      exact red
    · intro red
      exact ⟨elem, rfl, by rw [own]; exact red⟩

/-- The sibling of a subtree is looked at instead. -/
theorem At.sibling {side : Side} {color : Color} {elem : Elem} {sibling tree : RbTree Elem}
    (place : At head (⟨side, color, elem, sibling⟩ :: path) tree) :
    At head (⟨side.other, color, elem, tree⟩ :: path) sibling :=
  (at_swap_iff ..).mp place

theorem At.root_eq {tree : RbTree Elem} (place : At head [] tree) : head.root = tree.top :=
  place.outer

end Entries

section Colours
variable [DecidableEq Elem] {head : Head Elem} {path : List (Frame Elem)}

/-- The root is made black. -/
theorem blackenRoot_at {tree : RbTree Elem} (place : At head [] tree)
    (some_top : tree ≠ .nil) :
    ∃ after, blackenRoot head = some after ∧ At after [] tree.blacken := by
  cases tree with
  | nil => exact absurd rfl some_top
  | node color left elem right =>
    refine ⟨_, ?_, place.recolor_node .black⟩
    rw [blackenRoot, place.root_eq]
    rfl

/-- What is left of a loop that recolours the tree: it is red-black, with the same elements. -/
def Mended (before : RbTree Elem) (after : Head Elem) : Prop :=
  ∃ tree, At after [] tree ∧ RedBlack tree ∧ tree.elems = before.elems

theorem blackenRoot_mended {tree : RbTree Elem} {blacks : Nat} (place : At head path tree)
    (some_top : tree ≠ .nil) (outer : Surrounds path blacks) (balanced : Balanced tree blacks)
    (fits : tree.color = .red → path = [] ∨ aboveColor path = some .black) :
    ∃ after, blackenRoot head = some after ∧ Mended (plug path tree) after := by
  have whole := (at_plug_iff head path tree).mpr place
  have some_whole : plug path tree ≠ .nil := by
    intro none
    cases tree with
    | nil => exact some_top rfl
    | node color left elem right =>
      have empty := elems_plug path (.node color left elem right)
      rw [none] at empty
      simp [RbTree.elems] at empty
  obtain ⟨after, blackened, place'⟩ := blackenRoot_at whole some_whole
  refine ⟨after, blackened, _, place', ⟨RbTree.color_blacken _, ?_⟩, RbTree.elems_blacken _⟩
  cases path with
  | nil => exact balanced.blackened
  | cons frame path =>
    have fits' : tree.color = .red → aboveColor (frame :: path) = some .black := by
      intro red
      cases fits red with
      | inl empty => cases empty
      | inr below => exact below
    obtain ⟨_, blacks, balanced⟩ := (redBlack_plug_iff _ _).mpr ⟨blacks, outer, balanced, fits'⟩
    exact balanced.blackened

/-- The loop ends at a red element that is the root, or below a black one. -/
theorem insertColor_ends (rounds : Nat) {side : Side} {near far : RbTree Elem} {elm : Elem}
    {blacks : Nat} (place : At head path (.join side .red near elm far))
    (outer : Surrounds path blacks)
    (balanced : Balanced (.join side .red near elm far) blacks)
    (ends : path = [] ∨ aboveColor path = some .black) :
    ∃ after, insertColor (rounds + 1) head elm = some after ∧
      Mended (plug path (.join side .red near elm far)) after := by
  have some_top : RbTree.join side .red near elm far ≠ .nil := by
    cases side <;> intro empty <;> cases empty
  have parent : (head.entry elm).parent = above path := by rw [place.entry_top, parent_joined]
  obtain ⟨after, blackened, mended⟩ :=
    blackenRoot_mended place some_top outer balanced fun _ => ends
  refine ⟨after, ?_, mended⟩
  cases path with
  | nil =>
    rw [above, List.head?_nil, Option.map_none] at parent
    rw [insertColor, parent]
    exact blackened
  | cons frame path =>
    rw [above, List.head?_cons, Option.map_some] at parent
    have black : (head.entry frame.elem).color = .black := by
      rw [place.entry_above, color_joined]
      cases ends with
      | inl empty => cases empty
      | inr below => exact Option.some.inj below
    rw [insertColor, parent]
    simp only [black, reduceCtorEq, if_false]
    exact blackened

/-- An outer red element below a red parent and a black grandparent: the colours of these are
exchanged, and the rotation makes the parent the upper one. -/
theorem insertColor_outer (rounds : Nat) {side own : Side} {first second third uncle : RbTree Elem}
    {elm parent gparent : Elem} {blacks : Nat}
    (place : At head path (.join side .black
      (.join side .red (.join own .red first elm second) parent third) gparent uncle))
    (outer : Surrounds path (blacks + 1))
    (balanced : Balanced (.join own .red first elm second) blacks)
    (balanced_third : Balanced third blacks) (balanced_uncle : Balanced uncle blacks)
    (black_third : third.color = .black) (black_uncle : uncle.color = .black) :
    ∃ after, (rotate side.other (setBlackRed head parent gparent) gparent).bind
        (fun head => insertColor (rounds + 1) head elm) = some after ∧
      Mended (plug path (.join side .black
        (.join side .red (.join own .red first elm second) parent third) gparent uncle))
        after := by
  have colored : At (setBlackRed head parent gparent) path (.join side .red
      (.join side .black (.join own .red first elm second) parent third) gparent uncle) := by
    have parent_black := ((at_cons_iff head ⟨side, .black, gparent, uncle⟩ path _).mpr
      place).recolor .black
    exact ((at_cons_iff ..).mp parent_black).recolor .red
  rw [← RbTree.join_other, ← RbTree.join_other side .black] at colored
  obtain ⟨after, rotated, place'⟩ := rotate_at _ _ _ _ _ _ _ _ colored
  rw [rotated, Option.bind_some]
  rw [RbTree.join_other, RbTree.join_other] at place'
  have lower := (at_cons_iff after ⟨side, .black, parent, .join side .red third gparent uncle⟩
    path (.join own .red first elm second)).mpr place'
  have beside : Balanced (.join side .red third gparent uncle) blacks :=
    balanced_red.mpr ⟨black_third, black_uncle, balanced_third, balanced_uncle⟩
  obtain ⟨last, ended, tree, holds, valid, same⟩ :=
    insertColor_ends rounds lower (.black beside outer) balanced (Or.inr rfl)
  refine ⟨last, ended, tree, holds, valid, same.trans ?_⟩
  rw [plug]
  apply elems_plug_congr
  rw [Frame.close, ← RbTree.elems_rotated]
  exact RbTree.elems_join_congr _ _ _ _ _ _ _ (RbTree.elems_join_color ..) rfl _

/-- Below a red parent the loop looks at the parent's sibling. -/
theorem insertColor_below_red (rounds : Nat) {side inner outer_side : Side}
    {color : Color} {near far sibling uncle : RbTree Elem} {elm parent gparent : Elem}
    (place : At head (⟨inner, .red, parent, sibling⟩ :: ⟨outer_side, .black, gparent, uncle⟩ ::
      path) (.join side color near elm far)) :
    insertColor (rounds + 1) head elm =
      if head.isRed uncle.top then
        insertColor rounds (setBlackRed (uncle.top.elim head fun tmp => head.setColor tmp .black)
          parent gparent) gparent
      else
        (straighten outer_side head parent elm).bind fun straight =>
          (rotate outer_side.other (setBlackRed straight.1 straight.2.1 gparent) gparent).bind
            fun head => insertColor rounds head straight.2.2 := by
  have lower := (at_cons_iff ..).mp place
  rw [Frame.close] at lower
  have parent_eq : (head.entry elm).parent = some parent := by
    rw [place.entry_top, parent_joined]
    rfl
  have red : (head.entry parent).color = .red := by
    rw [lower.entry_top, color_joined]
  have gparent_eq : (head.entry parent).parent = some gparent := by
    rw [lower.entry_top, parent_joined]
    rfl
  have side_eq : head.sideOf gparent (some parent) = outer_side := by
    have found := lower.sideOf_above (Or.inr (by rw [RbTree.top_join]; intro none; cases none))
    rwa [RbTree.top_join] at found
  have uncle_eq : (head.entry gparent).child outer_side.other = uncle.top := by
    rw [lower.entry_above, child_other_joined]
  simp only [insertColor, parent_eq, red, if_true, gparent_eq, side_eq, uncle_eq]

/-- A red element below a red one whose sibling is red, too: the redness goes up. -/
theorem insertColor_recolored {side inner outer_side : Side}
    {near far sibling uncle : RbTree Elem} {elm parent gparent : Elem}
    (place : At head (⟨inner, .red, parent, sibling⟩ :: ⟨outer_side, .black, gparent, uncle⟩ ::
      path) (.join side .red near elm far)) (red : uncle.color = .red) :
    At (setBlackRed (uncle.top.elim head fun tmp => head.setColor tmp .black) parent gparent)
      path (.join outer_side .red (.join inner .black (.join side .red near elm far) parent
        sibling) gparent uncle.blacken) := by
  cases uncle with
  | nil => cases red
  | node color left tmp right =>
    have lower := (at_cons_iff ..).mp place
    have uncle_black := (lower.sibling.recolor_node .black).sibling
    rw [Side.other_other] at uncle_black
    have parent_black := (At.recolor uncle_black .black)
    exact ((at_cons_iff ..).mp parent_black).recolor .red

/-- A red element below a red one whose sibling is black: rotations end the loop. -/
theorem insertColor_rotated (rounds : Nat) {side inner outer_side : Side}
    {near far sibling uncle : RbTree Elem} {elm parent gparent : Elem} {blacks : Nat}
    (place : At head (⟨inner, .red, parent, sibling⟩ :: ⟨outer_side, .black, gparent, uncle⟩ ::
      path) (.join side .red near elm far)) (outer : Surrounds path (blacks + 1))
    (balanced : Balanced (.join side .red near elm far) blacks)
    (balanced_sibling : Balanced sibling blacks) (balanced_uncle : Balanced uncle blacks)
    (black_sibling : sibling.color = .black) (black_uncle : uncle.color = .black) :
    ∃ after, ((straighten outer_side head parent elm).bind fun straight =>
        (rotate outer_side.other (setBlackRed straight.1 straight.2.1 gparent) gparent).bind
          fun head => insertColor (rounds + 1) head straight.2.2) = some after ∧
      Mended (plug (⟨inner, .red, parent, sibling⟩ :: ⟨outer_side, .black, gparent, uncle⟩ ::
        path) (.join side .red near elm far)) after := by
  have lower := (at_cons_iff ..).mp place
  rw [Frame.close] at lower
  by_cases straight : inner = outer_side
  · subst straight
    have beside : (head.entry parent).child inner.other ≠ some elm := by
      rw [lower.entry_top, child_other_joined]
      exact place.top_ne elm (RbTree.top_join ..)
    rw [straighten, if_neg beside, Option.bind_some]
    exact insertColor_outer rounds ((at_cons_iff ..).mp lower) outer balanced balanced_sibling
      balanced_uncle black_sibling black_uncle
  · have turned : inner = outer_side.other := by
      cases inner <;> cases outer_side <;> first | rfl | exact absurd rfl straight
    subst turned
    -- The element goes up to the outer side first, and the parent is below it then.
    obtain ⟨first, second, same⟩ :=
      RbTree.join_eq_join side outer_side .red near far elm
    rw [same] at place lower balanced ⊢
    obtain ⟨black_first, black_second, balanced_first, balanced_second⟩ :=
      balanced_red.mp balanced
    have beside : (head.entry parent).child outer_side.other = some elm := by
      rw [lower.entry_top, child_joined, RbTree.top_join]
    rw [RbTree.join_other] at lower
    obtain ⟨after, rotated, place'⟩ := rotate_at _ _ _ _ _ _ _ _ lower
    rw [straighten, if_pos beside, rotated, Option.map_some, Option.bind_some]
    obtain ⟨last, ended, tree, holds, valid, elems⟩ := insertColor_outer rounds
      ((at_cons_iff ..).mp place') outer
      (balanced_red.mpr ⟨black_sibling, black_first, balanced_sibling, balanced_first⟩)
      balanced_second balanced_uncle black_second black_uncle
    refine ⟨last, ended, tree, holds, valid, elems.trans (elems_plug_congr path _ _ ?_)⟩
    rw [Frame.close, Frame.close, RbTree.join_other]
    exact RbTree.elems_join_congr _ _ _ _ _ _ _ (RbTree.elems_rotated ..) rfl _

/-- The loop mends a tree in which at most a red element has a red parent. -/
theorem insertColor_mends (rounds : Nat) {side : Side} {near far : RbTree Elem} {elm : Elem}
    {blacks : Nat} (place : At head path (.join side .red near elm far))
    (outer : Surrounds path blacks)
    (balanced : Balanced (.join side .red near elm far) blacks)
    (enough : path.length < rounds) :
    ∃ after, insertColor rounds head elm = some after ∧
      Mended (plug path (.join side .red near elm far)) after := by
  induction rounds generalizing head path side near far elm blacks with
  | zero => exact absurd enough (Nat.not_lt_zero _)
  | succ rounds inductionHypothesis =>
    cases outer with
    | root => exact insertColor_ends rounds place .root balanced (Or.inl rfl)
    | black balanced' outer =>
      exact insertColor_ends rounds place (.black balanced' outer) balanced (Or.inr rfl)
    | red black_sibling balanced_sibling below outer =>
      cases outer with
      | root => cases below
      | red _ _ _ _ => cases below
      | @black outer_side gparent uncle path blacks balanced_uncle outer =>
        rw [insertColor_below_red rounds place]
        have uncle_place := ((at_cons_iff ..).mp place).sibling
        simp only [uncle_place.isRed_iff]
        by_cases red : uncle.color = .red
        · rw [if_pos red]
          have higher : path.length < rounds := by
            simp only [List.length_cons] at enough
            omega
          obtain ⟨last, ended, tree, holds, valid, elems⟩ :=
            inductionHypothesis (insertColor_recolored place red) outer
              (balanced_red.mpr ⟨RbTree.color_join .., RbTree.color_blacken uncle,
                balanced_black.mpr ⟨balanced, balanced_sibling⟩,
                balanced_uncle.blacken_red red⟩) higher
          refine ⟨last, ended, tree, holds, valid, elems.trans (elems_plug_congr path _ _ ?_)⟩
          exact RbTree.elems_join_congr _ _ _ _ _ _ _ (RbTree.elems_join_color ..)
            (RbTree.elems_blacken uncle) _
        · rw [if_neg red]
          have black_uncle : uncle.color = .black := by
            cases colored : uncle.color with
            | black => rfl
            | red => exact absurd colored red
          cases rounds with
          | zero => simp at enough
          | succ rounds =>
            exact insertColor_rotated rounds place outer balanced balanced_sibling
              balanced_uncle black_sibling black_uncle

end Colours

/-! ## Searches -/

/-- What a search relies on in a comparison: it is a linear order. -/
structure Comparison {Key : Type v} (cmp : Key → Key → Int) : Prop where
  zero_iff : ∀ key other, cmp key other = 0 ↔ key = other
  flip : ∀ key other, cmp key other < 0 ↔ 0 < cmp other key
  trans : ∀ key middle other, cmp key middle < 0 → cmp middle other < 0 → cmp key other < 0

section Search
variable {Key : Type v} (key : Elem → Key) (cmp : Key → Key → Int)

def Sorted (elems : List Elem) : Prop :=
  elems.Pairwise fun elem other => cmp (key elem) (key other) < 0

/-- The tree in memory is a red-black search tree. -/
structure Formed (head : Head Elem) (tree : RbTree Elem) : Prop where
  place : At head [] tree
  valid : RedBlack tree
  sorted : Sorted key cmp tree.elems

variable {key cmp} (compares : Comparison cmp)
include compares

theorem Comparison.self (sought : Key) : cmp sought sought = 0 :=
  (compares.zero_iff _ _).mpr rfl

variable {head : Head Elem} {path : List (Frame Elem)} {tree : RbTree Elem} (sought : Key)

/-- What is sought is on the left if it is less than the top. -/
theorem Comparison.left_only {left right : RbTree Elem} {top : Elem}
    (sorted : Sorted key cmp (left.elems ++ top :: right.elems))
    (less : cmp sought (key top) < 0) (elem : Elem)
    (inside : elem = top ∨ elem ∈ right.elems) : cmp sought (key elem) < 0 := by
  have lower := (List.pairwise_append.mp sorted).2.1
  rcases inside with rfl | inside
  · exact less
  · exact compares.trans _ _ _ less (List.rel_of_pairwise_cons lower inside)

theorem Comparison.right_only {left right : RbTree Elem} {top : Elem}
    (sorted : Sorted key cmp (left.elems ++ top :: right.elems))
    (greater : 0 < cmp sought (key top)) (elem : Elem)
    (inside : elem ∈ left.elems ∨ elem = top) : cmp (key elem) sought < 0 := by
  have apart := (List.pairwise_append.mp sorted).2.2
  have less := (compares.flip _ _).mpr greater
  rcases inside with inside | rfl
  · exact compares.trans _ _ _ (apart elem inside top List.mem_cons_self) less
  · exact less

theorem Comparison.ne_of_neg {key other : Key} (less : cmp key other < 0) : key ≠ other := by
  rintro rfl
  rw [compares.self] at less
  exact lt_irrefl 0 less

/-- A search finds the element with the key that is sought, and nothing if there is none. -/
theorem findFrom_at (rounds : Nat) (place : At head path tree)
    (sorted : Sorted key cmp tree.elems) (enough : tree.height < rounds) :
    ∃ found, findFrom head (fun elem => cmp sought (key elem)) rounds tree.top = some found ∧
      ∀ elem, found = some elem ↔ elem ∈ tree.elems ∧ key elem = sought := by
  induction tree generalizing path rounds with
  | nil =>
    cases rounds with
    | zero => exact absurd enough (Nat.not_lt_zero _)
    | succ rounds => exact ⟨none, rfl, fun elem => by simp [RbTree.elems]⟩
  | node color left top right left_ih right_ih =>
    cases rounds with
    | zero => exact absurd enough (Nat.not_lt_zero _)
    | succ rounds =>
      have own := place.inner.1
      have bound : left.height < rounds ∧ right.height < rounds := by
        simp only [RbTree.height] at enough
        omega
      have parts := List.pairwise_append.mp sorted
      simp only [RbTree.top, findFrom, own, RbTree.elems, List.mem_append, List.mem_cons]
      by_cases less : cmp sought (key top) < 0
      · rw [if_pos less]
        have lower := (at_cons_iff head ⟨.left, color, top, right⟩ path left).mpr place
        obtain ⟨found, searched, exact⟩ := left_ih rounds lower parts.1 bound.1
        refine ⟨found, searched, fun elem => (exact elem).trans ?_⟩
        have out := fun inside =>
          compares.ne_of_neg (compares.left_only sought sorted less elem inside)
        constructor
        · rintro ⟨inside, same⟩
          exact ⟨Or.inl inside, same⟩
        · rintro ⟨inside | inside, same⟩
          · exact ⟨inside, same⟩
          · exact absurd same.symm (out inside)
      · rw [if_neg less]
        by_cases greater : 0 < cmp sought (key top)
        · rw [if_pos greater]
          have lower := (at_cons_iff head ⟨.right, color, top, left⟩ path right).mpr place
          obtain ⟨found, searched, exact⟩ :=
            right_ih rounds lower (List.pairwise_cons.mp parts.2.1).2 bound.2
          refine ⟨found, searched, fun elem => (exact elem).trans ?_⟩
          have out := fun inside =>
            compares.ne_of_neg (compares.right_only sought sorted greater elem inside)
          constructor
          · rintro ⟨inside, same⟩
            exact ⟨Or.inr (Or.inr inside), same⟩
          · rintro ⟨inside | inside | inside, same⟩
            · exact absurd same (out (Or.inl inside))
            · exact absurd same (out (Or.inr inside))
            · exact ⟨inside, same⟩
        · rw [if_neg greater]
          have equal : sought = key top := (compares.zero_iff _ _).mp (by omega)
          refine ⟨some top, rfl, fun elem => ?_⟩
          constructor
          · rintro ⟨⟩
            exact ⟨Or.inr (Or.inl rfl), equal.symm⟩
          · rintro ⟨inside | rfl | inside, same⟩
            · exact absurd (same.trans equal)
                (compares.ne_of_neg (parts.2.2 elem inside top List.mem_cons_self))
            · rfl
            · exact absurd (equal.symm.trans same.symm)
                (compares.ne_of_neg (List.rel_of_pairwise_cons parts.2.1 inside))

/-- What is sought belongs between the elements before and behind a subtree. -/
def Fits (key : Elem → Key) (cmp : Key → Key → Int) (sought : Key)
    (path : List (Frame Elem)) : Prop :=
  (∀ elem ∈ before path, cmp (key elem) sought < 0) ∧
    ∀ elem ∈ behind path, cmp sought (key elem) < 0

theorem Comparison.fits_left {color : Color} {left right : RbTree Elem} {top : Elem}
    (fits : Fits key cmp sought path) (sorted : Sorted key cmp (left.elems ++ top :: right.elems))
    (less : cmp sought (key top) < 0) :
    Fits key cmp sought (⟨.left, color, top, right⟩ :: path) := by
  have out := compares.left_only sought sorted less
  refine ⟨fits.1, fun elem inside => ?_⟩
  simp only [behind, List.cons_append, List.mem_cons, List.mem_append] at inside
  rcases inside with inside | inside | inside
  · exact out elem (Or.inl inside)
  · exact out elem (Or.inr inside)
  · exact fits.2 elem inside

theorem Comparison.fits_right {color : Color} {left right : RbTree Elem} {top : Elem}
    (fits : Fits key cmp sought path) (sorted : Sorted key cmp (left.elems ++ top :: right.elems))
    (greater : 0 < cmp sought (key top)) :
    Fits key cmp sought (⟨.right, color, top, left⟩ :: path) := by
  have out := compares.right_only sought sorted greater
  refine ⟨fun elem inside => ?_, fits.2⟩
  simp only [before, List.mem_append, List.mem_singleton] at inside
  rcases inside with inside | inside
  · exact fits.1 elem inside
  · exact out elem inside

/-- Where the search for the place of a new element ends: at one with its key, or below the
parent that the new one belongs to. -/
theorem placeFrom_at (rounds : Nat) (last : Int) (place : At head path tree)
    (sorted : Sorted key cmp tree.elems) (enough : tree.height < rounds)
    (fits : Fits key cmp sought path)
    (side : ∀ frame ∈ path.head?, frame.side = sideOfComp last) :
    (∃ elem ∈ tree.elems, key elem = sought ∧
      placeFrom head (fun elem => cmp sought (key elem)) rounds tree.top (above path) last =
        some (.found elem)) ∨
    ((∀ elem ∈ tree.elems, key elem ≠ sought) ∧ ∃ way latest,
      placeFrom head (fun elem => cmp sought (key elem)) rounds tree.top (above path) last =
        some (.below (above way) latest) ∧
      At head way .nil ∧ plug way .nil = plug path tree ∧ Fits key cmp sought way ∧
      (∀ frame ∈ way.head?, frame.side = sideOfComp latest) ∧
      way.length ≤ path.length + tree.height) := by
  induction tree generalizing path rounds last with
  | nil =>
    cases rounds with
    | zero => exact absurd enough (Nat.not_lt_zero _)
    | succ rounds =>
      have absent : ∀ elem ∈ (RbTree.nil : RbTree Elem).elems, key elem ≠ sought := by
        intro elem inside
        cases inside
      exact Or.inr ⟨absent, path, last, rfl, place, rfl, fits, side, Nat.le_refl _⟩
  | node color left top right left_ih right_ih =>
    cases rounds with
    | zero => exact absurd enough (Nat.not_lt_zero _)
    | succ rounds =>
      have own := place.inner.1
      have bound : left.height < rounds ∧ right.height < rounds := by
        simp only [RbTree.height] at enough
        omega
      have parts := List.pairwise_append.mp sorted
      simp only [RbTree.top, placeFrom, own, RbTree.elems, List.mem_append, List.mem_cons]
      by_cases less : cmp sought (key top) < 0
      · rw [if_pos less]
        have out := compares.left_only sought sorted less
        have fits' : Fits key cmp sought (⟨.left, color, top, right⟩ :: path) :=
          compares.fits_left sought fits sorted less
        have turned : ∀ frame ∈ (⟨.left, color, top, right⟩ :: path : List (Frame Elem)).head?,
            frame.side = sideOfComp (cmp sought (key top)) := by
          rintro frame ⟨⟩
          rw [sideOfComp, if_pos less]
        cases left_ih rounds (cmp sought (key top))
          ((at_cons_iff head ⟨.left, color, top, right⟩ path left).mpr place) parts.1 bound.1
          fits' turned with
        | inl found =>
          obtain ⟨elem, inside, same, searched⟩ := found
          exact Or.inl ⟨elem, Or.inl inside, same, searched⟩
        | inr missing =>
          obtain ⟨absent, way, latest, searched, place', whole, fits', side', short⟩ := missing
          refine Or.inr ⟨?_, way, latest, searched, place', whole, fits', side', ?_⟩
          · rintro elem (inside | inside)
            · exact absent elem inside
            · exact (compares.ne_of_neg (out elem inside)).symm
          · simp only [List.length_cons] at short
            simp only [RbTree.height]
            omega
      · rw [if_neg less]
        by_cases greater : 0 < cmp sought (key top)
        · rw [if_pos greater]
          have out := compares.right_only sought sorted greater
          have fits' : Fits key cmp sought (⟨.right, color, top, left⟩ :: path) :=
            compares.fits_right sought fits sorted greater
          have turned : ∀ frame ∈
              (⟨.right, color, top, left⟩ :: path : List (Frame Elem)).head?,
              frame.side = sideOfComp (cmp sought (key top)) := by
            rintro frame ⟨⟩
            rw [sideOfComp, if_neg less]
          cases right_ih rounds (cmp sought (key top))
            ((at_cons_iff head ⟨.right, color, top, left⟩ path right).mpr place)
            (List.pairwise_cons.mp parts.2.1).2 bound.2 fits' turned with
          | inl found =>
            obtain ⟨elem, inside, same, searched⟩ := found
            exact Or.inl ⟨elem, Or.inr (Or.inr inside), same, searched⟩
          | inr missing =>
            obtain ⟨absent, way, latest, searched, place', whole, fits', side', short⟩ := missing
            refine Or.inr ⟨?_, way, latest, searched, place', whole, fits', side', ?_⟩
            · rintro elem (inside | inside | inside)
              · exact compares.ne_of_neg (out elem (Or.inl inside))
              · exact compares.ne_of_neg (out elem (Or.inr inside))
              · exact absent elem inside
            · simp only [List.length_cons] at short
              simp only [RbTree.height]
              omega
        · rw [if_neg greater]
          have equal : sought = key top := (compares.zero_iff _ _).mp (by omega)
          exact Or.inl ⟨top, Or.inr (Or.inl rfl), equal.symm, rfl⟩

/-- A key is found exactly if it is in the tree. -/
theorem Formed.rbFind_eq (formed : Formed key cmp head tree) (rounds : Nat)
    (enough : tree.height < rounds) :
    ∃ found, rbFind rounds head (fun elem => cmp sought (key elem)) = some found ∧
      ∀ elem, found = some elem ↔ elem ∈ tree.elems ∧ key elem = sought := by
  rw [rbFind, formed.place.root_eq]
  exact findFrom_at compares sought rounds formed.place formed.sorted enough

/-- An element whose key is in the tree is refused. Any other one is added, and the tree stays
a red-black search tree. -/
theorem Formed.rbInsert_eq [DecidableEq Elem] (formed : Formed key cmp head tree) (elm : Elem)
    (rounds : Nat) (enough : tree.height < rounds) :
    (∃ other ∈ tree.elems, key other = key elm ∧
      rbInsert rounds head (fun elem => cmp (key elm) (key elem)) elm =
        some (head, some other)) ∨
    ((∀ other ∈ tree.elems, key other ≠ key elm) ∧ ∃ after larger,
      rbInsert rounds head (fun elem => cmp (key elm) (key elem)) elm = some (after, none) ∧
      Formed key cmp after larger ∧
      ∀ other, other ∈ larger.elems ↔ other = elm ∨ other ∈ tree.elems) := by
  have from_root := placeFrom_at compares (key elm) rounds 0 formed.place
    formed.sorted enough ⟨by simp [before], by simp [behind]⟩ (by simp)
  rw [above, List.head?_nil, Option.map_none, ← formed.place.root_eq] at from_root
  cases from_root with
  | inl found =>
    obtain ⟨other, inside, same, searched⟩ := found
    exact Or.inl ⟨other, inside, same, by rw [rbInsert, searched]⟩
  | inr missing =>
    obtain ⟨absent, way, latest, searched, place, whole, fits, side, short⟩ := missing
    rw [plug] at whole
    have split : tree.elems = before way ++ behind way := by
      rw [← whole, elems_plug, RbTree.elems, List.append_nil]
    have fresh : elm ∉ around way := by
      intro inside
      refine absent elm ?_ rfl
      rw [split, List.mem_append, ← mem_around_iff]
      exact inside
    obtain ⟨blacks, outer, balanced, _⟩ := (redBlack_plug_iff way .nil).mp (whole ▸ formed.valid)
    have leaf : Balanced (.join .left .red .nil elm .nil) blacks :=
      balanced_red.mpr ⟨rfl, rfl, balanced, balanced⟩
    have low : way.length < rounds := by
      simp only [List.length_nil] at short
      omega
    have attached : At _ way (.join .left .red .nil elm .nil) :=
      attach_at place elm fresh (sideOfComp latest) side
    obtain ⟨after, mended, larger, place', valid, same⟩ :=
      insertColor_mends rounds attached outer leaf low
    rw [elems_plug] at same
    refine Or.inr ⟨absent, after, larger, ?_, ⟨place', valid, ?_⟩, fun other => ?_⟩
    · rw [rbInsert, searched]
      simp only [mended, Option.map_some]
    · have sorted := formed.sorted
      rw [split, Sorted, List.pairwise_append] at sorted
      rw [same, Sorted, List.append_assoc, List.pairwise_append]
      refine ⟨sorted.1, ?_, ?_⟩
      · exact List.pairwise_cons.mpr ⟨fits.2, sorted.2.1⟩
      · intro other inside next inside'
        rcases List.mem_cons.mp inside' with rfl | inside'
        · exact fits.1 other inside
        · exact sorted.2.2 other inside next inside'
    · rw [same, split]
      simp only [RbTree.join, RbTree.elems, List.mem_append, List.mem_singleton,
        List.nil_append]
      tauto

end Search

end NetVirt.RbTrees
