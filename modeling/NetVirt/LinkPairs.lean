import NetVirt.LinkStates

/-!
# The pairs of a link state

What the matrix is for: a symmetric relation between indexes. Joining two indexes adds
their pair, growing the matrix where it has to, and disjoining an index takes every pair
with it away. An index that the matrix does not reach is in no pair.
-/

namespace NetVirt.LinkStates

/-- The pair is linked. -/
def Linkst.Up (linkst : Linkst) (idxA idxB : Nat) : Prop :=
  1 ≤ idxA ∧ 1 ≤ idxB ∧ ∃ info,
    linkst.entry (ordered idxA idxB).1 (ordered idxA idxB).2 = some info ∧ info.linked = 1

/-! ## Entries -/

theorem ordered_eq_iff (idxA idxB c d : Nat) : ordered c d = ordered idxA idxB ↔
    c = idxA ∧ d = idxB ∨ c = idxB ∧ d = idxA := by
  unfold ordered
  split <;> split <;> rw [Prod.mk.injEq] <;> omega

theorem ordered_low {idxA idxB : Nat} (lowA : 1 ≤ idxA) (lowB : 1 ≤ idxB) :
    1 ≤ (ordered idxA idxB).1 ∧ 1 ≤ (ordered idxA idxB).2 := by
  unfold ordered
  split
  · exact ⟨lowA, lowB⟩
  · exact ⟨lowB, lowA⟩

/-- A stored entry is the only one that storing it changes. -/
theorem entry_setEntry (linkst : Linkst) (info : LinkInfo) {x y c d : Nat} (lowX : 1 ≤ x)
    (lowY : 1 ≤ y) (lowC : 1 ≤ c) (lowD : 1 ≤ d) :
    (linkst.setEntry x y info).entry c d =
      if c = x ∧ d = y then (linkst.entry c d).map fun _ => info else linkst.entry c d := by
  simp only [Linkst.entry, Linkst.setEntry, List.getElem?_modify, Option.map_eq_map]
  have sameRow : x - 1 = c - 1 ↔ c = x := by omega
  have sameColumn : y - 1 = d - 1 ↔ d = y := by omega
  cases row : linkst.adjacencyMatrix[c - 1]? with
  | none => simp
  | some entries =>
    by_cases ownRow : c = x
    · by_cases ownColumn : d = y
      · simp only [ownRow, ownColumn, if_true, and_self, Option.map_some,
          Option.bind_some, List.getElem?_set_self']
        rfl
      · have apart : y - 1 ≠ d - 1 := fun same => ownColumn (sameColumn.mp same)
        simp [ownRow, ownColumn, List.getElem?_set_ne apart]
    · simp [sameRow, ownRow]

/-- New rows have no link. -/
theorem up_resize (linkst : Linkst) (resizeSize idxA idxB : Nat) :
    (linkstResize linkst resizeSize).Up idxA idxB ↔ linkst.Up idxA idxB := by
  refine and_congr_right fun lowA => and_congr_right fun lowB => exists_congr fun info => ?_
  refine and_congr_left fun linked => ?_
  generalize (ordered idxA idxB).1 = x
  generalize (ordered idxA idxB).2 = y
  simp only [Linkst.entry, linkstResize]
  rcases Nat.lt_or_ge (x - 1) linkst.adjacencyMatrix.length with old | new
  · rw [List.getElem?_append_left old]
  · rw [List.getElem?_append_right new, List.getElem?_eq_none new, Option.bind_none]
    refine iff_of_false ?_ (by simp)
    intro found
    obtain ⟨row, there, found⟩ := Option.bind_eq_some_iff.mp found
    rw [List.getElem?_map, Option.map_eq_some_iff] at there
    obtain ⟨place, _, rfl⟩ := there
    obtain rfl := List.eq_of_mem_replicate (List.mem_of_getElem? found)
    cases linked

theorem Linkst.Formed.up_bounded {linkst : Linkst} (formed : linkst.Formed) {idxA idxB : Nat}
    (up : linkst.Up idxA idxB) :
    idxA ≤ linkst.matrixSize ∧ idxB ≤ linkst.matrixSize := by
  obtain ⟨lowA, lowB, info, found, _⟩ := up
  obtain ⟨row, there, _⟩ := Option.bind_eq_some_iff.mp found
  obtain ⟨inside, _⟩ := List.getElem?_eq_some_iff.mp there
  rw [formed.rows] at inside
  unfold ordered at inside
  split at inside <;> simp only at inside <;> omega

/-- Storing the entry of a pair that has one decides its link, and no other. -/
theorem up_setEntry (linkst : Linkst) (info before : LinkInfo) {idxA idxB : Nat}
    (lowA : 1 ≤ idxA) (lowB : 1 ≤ idxB)
    (found : linkst.entry (ordered idxA idxB).1 (ordered idxA idxB).2 = some before) (c d : Nat) :
    (linkst.setEntry (ordered idxA idxB).1 (ordered idxA idxB).2 info).Up c d ↔
      if c = idxA ∧ d = idxB ∨ c = idxB ∧ d = idxA then info.linked = 1 else linkst.Up c d := by
  have low := ordered_low lowA lowB
  by_cases same : c = idxA ∧ d = idxB ∨ c = idxB ∧ d = idxA
  · have lows : 1 ≤ c ∧ 1 ≤ d := by omega
    have pair := (ordered_eq_iff idxA idxB c d).mpr same
    rw [if_pos same]
    simp only [Linkst.Up, pair, entry_setEntry linkst info low.1 low.2 low.1 low.2, found,
      and_self, if_true, Option.map_some]
    simp [lows]
  · rw [if_neg same]
    refine and_congr_right fun lowC => and_congr_right fun lowD => exists_congr fun kept => ?_
    have other := ordered_low lowC lowD
    have apart : ¬ ((ordered c d).1 = (ordered idxA idxB).1 ∧
        (ordered c d).2 = (ordered idxA idxB).2) :=
      fun both => same ((ordered_eq_iff idxA idxB c d).mp (Prod.ext both.1 both.2))
    rw [entry_setEntry linkst info low.1 low.2 other.1 other.2, if_neg apart]

/-! ## Joining and disjoining -/

section Formed
variable {linkst : Linkst} (formed : linkst.Formed)
include formed

theorem Linkst.Formed.joined_iff (idxA idxB : Nat) :
    linkstJoined linkst idxA idxB = some 1 ↔ linkst.Up idxA idxB := by
  unfold linkstJoined
  split
  · next outside =>
    refine iff_of_false (by simp) fun up => ?_
    have bounded := formed.up_bounded up
    have low := up.1
    have low := up.2.1
    omega
  · next inside =>
    simp only [not_or, Nat.not_lt] at inside
    obtain ⟨info, found⟩ := formed.pair inside.1 inside.2.2.1 inside.2.1 inside.2.2.2
    simp only [Linkst.Up, found, inside.1, inside.2.2.1, true_and, Option.some.injEq,
      exists_eq_left', Option.bind_eq_bind, Option.bind_some, Option.pure_def]
    split <;> simp_all

/-- Indexes within the limit are linked by joining them, and no others. -/
theorem Linkst.Formed.join_up (idxA idxB now : Nat) (lowA : 1 ≤ idxA) (lowB : 1 ≤ idxB)
    (highA : idxA ≤ linkst.upperLimit) (highB : idxB ≤ linkst.upperLimit) :
    ∃ after code, linkstJoin linkst idxA idxB now = some (after, code) ∧
      after.upperLimit = linkst.upperLimit ∧ ∀ c d, after.Up c d ↔
        linkst.Up c d ∨ c = idxA ∧ d = idxB ∨ c = idxB ∧ d = idxA := by
  have inside : ¬ (idxA < 1 ∨ linkst.upperLimit < idxA ∨ idxB < 1 ∨ linkst.upperLimit < idxB) := by
    omega
  have larger : idxA ≤ (ordered idxA idxB).1 ∧ idxB ≤ (ordered idxA idxB).1 ∧
      (ordered idxA idxB).1 ≤ linkst.upperLimit := by
    unfold ordered
    split <;> simp only <;> omega
  -- The matrix is made large enough for the larger index.
  obtain ⟨grown, resized, large, enough, limit, same⟩ : ∃ grown,
      (if linkst.matrixSize ≤ (ordered idxA idxB).1 then
        linkstResize linkst ((ordered idxA idxB).1 - linkst.matrixSize) else linkst) = grown ∧
      grown.Formed ∧ (ordered idxA idxB).1 ≤ grown.matrixSize ∧
      grown.upperLimit = linkst.upperLimit ∧ ∀ c d, grown.Up c d ↔ linkst.Up c d := by
    split
    · next short =>
      have bound : linkst.matrixSize + ((ordered idxA idxB).1 - linkst.matrixSize) ≤
          linkst.upperLimit := by omega
      have resize := Linkst.Formed.resize formed bound
      exact ⟨_, rfl, resize.1, by omega, rfl, up_resize linkst _⟩
    · exact ⟨_, rfl, formed, by omega, rfl, fun _ _ => Iff.rfl⟩
  obtain ⟨info, found⟩ := large.pair lowA lowB (by omega) (by omega)
  refine ⟨grown.setEntry (ordered idxA idxB).1 (ordered idxA idxB).2
    { linked := 1, timestamp := now }, 0, ?_, limit, fun c d => ?_⟩
  · simp only [linkstJoin, if_neg inside, resized, found]
    rfl
  · rw [up_setEntry grown _ info lowA lowB found, same]
    split
    · next pair => exact iff_of_true rfl (Or.inr pair)
    · next pair => exact ⟨Or.inl, fun either => either.resolve_right pair⟩

/-- One turn of the loop takes one pair away. -/
theorem Linkst.Formed.disjoinPair_up {idx i : Nat} (lowA : 1 ≤ idx) (lowB : 1 ≤ i)
    (highA : idx ≤ linkst.matrixSize) (highB : i ≤ linkst.matrixSize) :
    ∃ after, disjoinPair idx linkst i = some after ∧ after.Formed ∧
      after.matrixSize = linkst.matrixSize ∧ after.upperLimit = linkst.upperLimit ∧
      ∀ c d, after.Up c d ↔ linkst.Up c d ∧ ¬ (c = idx ∧ d = i ∨ c = i ∧ d = idx) := by
  obtain ⟨info, found⟩ := formed.pair lowA lowB highA highB
  by_cases linked : info.linked = 1
  · refine ⟨linkst.setEntry (ordered idx i).1 (ordered idx i).2 { linked := 0, timestamp := 0 },
      Option.bind_eq_some_iff.mpr ⟨info, found, if_pos linked⟩, formed.setEntry _ _ _, rfl, rfl,
      fun c d => ?_⟩
    rw [up_setEntry linkst _ info lowA lowB found]
    split
    · next pair => exact iff_of_false (by simp) fun both => both.2 pair
    · next pair => exact ⟨fun up => ⟨up, pair⟩, And.left⟩
  · refine ⟨_, Option.bind_eq_some_iff.mpr ⟨info, found, if_neg linked⟩, formed, rfl, rfl,
      fun c d => ⟨fun up => ⟨up, ?_⟩, And.left⟩⟩
    -- The pair was not linked before either.
    intro pair
    obtain ⟨_, _, kept, there, up⟩ := up
    rw [(ordered_eq_iff idx i c d).mpr pair, found, Option.some.injEq] at there
    exact linked (there ▸ up)

theorem Linkst.Formed.disjoinAll_up {idx : Nat} (low : 1 ≤ idx) (high : idx ≤ linkst.matrixSize)
    (indexes : List Nat) (within : ∀ i ∈ indexes, 1 ≤ i ∧ i ≤ linkst.matrixSize) :
    ∃ after, indexes.foldlM (disjoinPair idx) linkst = some after ∧
      after.upperLimit = linkst.upperLimit ∧ ∀ c d, after.Up c d ↔ linkst.Up c d ∧
        ¬ (c = idx ∧ d ∈ indexes ∨ c ∈ indexes ∧ d = idx) := by
  induction indexes generalizing linkst with
  | nil => exact ⟨linkst, rfl, rfl, by simp⟩
  | cons i rest inductionHypothesis =>
    obtain ⟨lowest, highest⟩ := within i List.mem_cons_self
    obtain ⟨next, taken, kept, size, limit, first⟩ :=
      formed.disjoinPair_up low lowest high highest
    obtain ⟨after, reached, last, others⟩ := inductionHypothesis kept (size ▸ high)
      fun j inside => size ▸ within j (List.mem_cons_of_mem i inside)
    refine ⟨after, ?_, last.trans limit, fun c d => ?_⟩
    · rw [List.foldlM_cons, taken]
      exact reached
    · rw [others, first, List.mem_cons, List.mem_cons]
      grind

/-- Disjoining an index takes every pair with it away, and no others. -/
theorem Linkst.Formed.disjoin_up (idx : Nat) :
    ∃ after code, linkstDisjoin linkst idx = some (after, code) ∧
      after.upperLimit = linkst.upperLimit ∧
      ∀ c d, after.Up c d ↔ linkst.Up c d ∧ c ≠ idx ∧ d ≠ idx := by
  unfold linkstDisjoin
  split
  · next outside =>
    refine ⟨linkst, -1, rfl, rfl, fun c d => ⟨fun up => ⟨up, ?_⟩, And.left⟩⟩
    have bounded := formed.up_bounded up
    have low := up.1
    have lowest := up.2.1
    omega
  · next inside =>
    simp only [not_or, Nat.not_lt] at inside
    obtain ⟨after, reached, limit, others⟩ := formed.disjoinAll_up inside.1 inside.2
      (List.range' 1 linkst.matrixSize) (fun i within => by
        have bounds := List.mem_range'_1.mp within
        omega)
    refine ⟨after, 0, by rw [reached]; rfl, limit, fun c d => ?_⟩
    rw [others]
    refine and_congr_right fun up => ?_
    have bounded := formed.up_bounded up
    have low := up.1
    have lowest := up.2.1
    simp only [List.mem_range'_1]
    omega

end Formed

namespace FormedLinkst
variable (linkst : FormedLinkst)

theorem joined_iff (idxA idxB : Nat) : linkst.joined idxA idxB = 1 ↔ linkst.val.Up idxA idxB := by
  rw [← linkst.property.joined_iff, joined, ← Option.some_inj, Option.some_get]

theorem join_iff (idxA idxB now : Nat) (lowA : 1 ≤ idxA) (lowB : 1 ≤ idxB)
    (highA : idxA ≤ linkst.val.upperLimit) (highB : idxB ≤ linkst.val.upperLimit) :
    (linkst.join idxA idxB now).1.val.upperLimit = linkst.val.upperLimit ∧
      ∀ c d, (linkst.join idxA idxB now).1.joined c d = 1 ↔
        linkst.joined c d = 1 ∨ c = idxA ∧ d = idxB ∨ c = idxB ∧ d = idxA := by
  obtain ⟨after, code, joined, limit, up⟩ :=
    linkst.property.join_up idxA idxB now lowA lowB highA highB
  have value : (linkst.join idxA idxB now).1.val = after := by
    simp only [join, joined, Option.get_some]
  simp only [joined_iff, value, limit, up, true_and, implies_true]

theorem disjoin_iff (idx : Nat) :
    (linkst.disjoin idx).1.val.upperLimit = linkst.val.upperLimit ∧
      ∀ c d, (linkst.disjoin idx).1.joined c d = 1 ↔
        linkst.joined c d = 1 ∧ c ≠ idx ∧ d ≠ idx := by
  obtain ⟨after, code, disjoined, limit, up⟩ := linkst.property.disjoin_up idx
  have value : (linkst.disjoin idx).1.val = after := by
    simp only [disjoin, disjoined, Option.get_some]
  simp only [joined_iff, value, limit, up, true_and, implies_true]

end FormedLinkst

/-- A new link state has no pairs. -/
theorem joined_new (upperLimit timeoutSec : Nat)
    (formed : (linkstNew upperLimit timeoutSec).Formed) (idxA idxB : Nat) :
    FormedLinkst.joined ⟨linkstNew upperLimit timeoutSec, formed⟩ idxA idxB ≠ 1 := by
  rw [Ne, FormedLinkst.joined_iff]
  rintro ⟨_, _, info, found, _⟩
  simp [Linkst.entry, linkstNew] at found

end NetVirt.LinkStates
