import Mathlib.Algebra.Ring.Nat

/-!
# Link states

The functions of linkst.c. Row `i` of the matrix has `i + 1` entries, so a pair is kept in
the row of its larger index; rows are added when a larger index is joined. An access
outside of the allocated entries has no defined result.
-/

namespace NetVirt.LinkStates

/-- `linkinfo_t` -/
structure LinkInfo where
  linked : Nat
  timestamp : Nat
deriving DecidableEq

/-- `linkst_t`, with the allocated rows of the matrix. -/
structure Linkst where
  adjacencyMatrix : List (List LinkInfo)
  matrixSize : Nat
  upperLimit : Nat
  timeoutSec : Nat
deriving DecidableEq

/-- A 32-bit sum or difference. -/
def word (value : Nat) : Nat := value % 2 ^ 32

/-- `linkst_new` -/
def linkstNew (upperLimit timeoutSec : Nat) : Linkst :=
  { adjacencyMatrix := [], matrixSize := 0, upperLimit := upperLimit, timeoutSec := timeoutSec }

/-- `adjacency_matrix[x-1][y-1]` -/
def Linkst.entry (linkst : Linkst) (x y : Nat) : Option LinkInfo :=
  linkst.adjacencyMatrix[x - 1]?.bind fun row => row[y - 1]?

/-- Store an entry. -/
def Linkst.setEntry (linkst : Linkst) (x y : Nat) (info : LinkInfo) : Linkst :=
  { linkst with
    adjacencyMatrix := linkst.adjacencyMatrix.modify (x - 1) fun row => row.set (y - 1) info }

/-- `linkst_resize`: five more rows than asked for, or all that are left. -/
def linkstResize (linkst : Linkst) (resizeSize : Nat) : Linkst :=
  let resizeSize :=
    if word (linkst.matrixSize + resizeSize + 5) < linkst.upperLimit then word (resizeSize + 5)
    else linkst.upperLimit - linkst.matrixSize
  { linkst with
    adjacencyMatrix := linkst.adjacencyMatrix ++
      (List.range' linkst.matrixSize resizeSize).map fun i =>
        List.replicate (i + 1) { linked := 0, timestamp := 0 }
    matrixSize := word (linkst.matrixSize + resizeSize) }

/-- The row and the column of a pair: the larger index first. -/
def ordered (idxA idxB : Nat) : Nat × Nat := if idxB < idxA then (idxA, idxB) else (idxB, idxA)

/-- One turn of the loop of `linkst_disjoin`. -/
def disjoinPair (idx : Nat) (linkst : Linkst) (i : Nat) : Option Linkst := do
  let (x, y) := ordered idx i
  let info ← linkst.entry x y
  if info.linked = 1 then return linkst.setEntry x y { linked := 0, timestamp := 0 }
  else return linkst

/-- `linkst_disjoin` -/
def linkstDisjoin (linkst : Linkst) (idx : Nat) : Option (Linkst × Int) :=
  if idx < 1 ∨ linkst.matrixSize < idx then some (linkst, -1)
  else ((List.range' 1 linkst.matrixSize).foldlM (disjoinPair idx) linkst).map fun linkst =>
    (linkst, 0)

/-- `linkst_joined` -/
def linkstJoined (linkst : Linkst) (idxA idxB : Nat) : Option Int :=
  if idxA < 1 ∨ linkst.matrixSize < idxA ∨ idxB < 1 ∨ linkst.matrixSize < idxB then some (-1)
  else do
    let (x, y) := ordered idxA idxB
    let info ← linkst.entry x y
    return if info.linked = 1 then 1 else 0

/-- `linkst_join` at a time. -/
def linkstJoin (linkst : Linkst) (idxA idxB now : Nat) : Option (Linkst × Int) :=
  if idxA < 1 ∨ linkst.upperLimit < idxA ∨ idxB < 1 ∨ linkst.upperLimit < idxB then
    some (linkst, -1)
  else do
    let (x, y) := ordered idxA idxB
    let linkst :=
      if linkst.matrixSize ≤ x then linkstResize linkst (x - linkst.matrixSize) else linkst
    let _ ← linkst.entry x y
    return (linkst.setEntry x y { linked := 1, timestamp := now }, 0)

/-! ## Matrices that are never left -/

/-- The matrix is a triangle of the recorded size, within its limit. -/
structure Linkst.Formed (linkst : Linkst) : Prop where
  rows : linkst.adjacencyMatrix.length = linkst.matrixSize
  bounded : linkst.matrixSize ≤ linkst.upperLimit
  small : linkst.upperLimit + 5 < 2 ^ 32
  triangle : ∀ i row, linkst.adjacencyMatrix[i]? = some row → row.length = i + 1

theorem formed_new (upperLimit timeoutSec : Nat) (small : upperLimit + 5 < 2 ^ 32) :
    (linkstNew upperLimit timeoutSec).Formed :=
  { rows := rfl, bounded := Nat.zero_le _, small := small,
    triangle := fun i row found => by simp [linkstNew] at found }

section Formed
variable {linkst : Linkst} (formed : linkst.Formed)
include formed

/-- A pair within the matrix has an entry. -/
theorem Linkst.Formed.entry {x y : Nat} (low : 1 ≤ y) (ordered : y ≤ x)
    (high : x ≤ linkst.matrixSize) : ∃ info, linkst.entry x y = some info := by
  have inside : x - 1 < linkst.adjacencyMatrix.length := by
    have rows := formed.rows
    omega
  have row := formed.triangle (x - 1) _ (List.getElem?_eq_getElem inside)
  have within : y - 1 < (linkst.adjacencyMatrix[x - 1]).length := by omega
  exact ⟨_, by rw [Linkst.entry, List.getElem?_eq_getElem inside, Option.bind_some,
    List.getElem?_eq_getElem within]⟩

theorem Linkst.Formed.setEntry (x y : Nat) (info : LinkInfo) :
    (linkst.setEntry x y info).Formed := by
  refine { rows := ?_, bounded := formed.bounded, small := formed.small, triangle := ?_ }
  · simp [Linkst.setEntry, formed.rows]
  · intro i row found
    simp only [Linkst.setEntry, List.getElem?_modify, Option.map_eq_map,
      Option.map_eq_some_iff] at found
    obtain ⟨before, there, rfl⟩ := found
    by_cases same : x - 1 = i
    · simp [same, formed.triangle i before there]
    · simp [same, formed.triangle i before there]

/-- Adding rows within the limit. -/
theorem Linkst.Formed.resize {resizeSize : Nat}
    (limit : linkst.matrixSize + resizeSize ≤ linkst.upperLimit) :
    (linkstResize linkst resizeSize).Formed ∧
      linkst.matrixSize + resizeSize ≤ (linkstResize linkst resizeSize).matrixSize := by
  have small := formed.small
  have bounded := formed.bounded
  obtain ⟨added, chosen, enough, most⟩ : ∃ added, (if word (linkst.matrixSize + resizeSize + 5) <
      linkst.upperLimit then word (resizeSize + 5) else linkst.upperLimit - linkst.matrixSize) =
        added ∧ resizeSize ≤ added ∧ linkst.matrixSize + added ≤ linkst.upperLimit := by
    have exact : word (linkst.matrixSize + resizeSize + 5) = linkst.matrixSize + resizeSize + 5 ∧
        word (resizeSize + 5) = resizeSize + 5 := by
      constructor
      · exact Nat.mod_eq_of_lt (by omega)
      · exact Nat.mod_eq_of_lt (by omega)
    rw [exact.1, exact.2]
    split
    · exact ⟨_, rfl, by omega, by omega⟩
    · exact ⟨_, rfl, by omega, by omega⟩
  have size : word (linkst.matrixSize + added) = linkst.matrixSize + added :=
    Nat.mod_eq_of_lt (by omega)
  unfold linkstResize
  simp only [chosen, size]
  refine ⟨{ rows := ?_, bounded := most, small := small, triangle := ?_ }, by omega⟩
  · simp [formed.rows]
  · intro i row found
    rcases Nat.lt_or_ge i linkst.adjacencyMatrix.length with old | new
    · rw [List.getElem?_append_left old] at found
      exact formed.triangle i row found
    · rw [List.getElem?_append_right new, List.getElem?_map, Option.map_eq_some_iff] at found
      obtain ⟨place, there, rfl⟩ := found
      have rows := formed.rows
      obtain ⟨_, rfl⟩ := List.getElem?_eq_some_iff.mp there
      rw [List.length_replicate, List.getElem_range']
      omega

/-- The entry of a pair, in whichever order it is given. -/
theorem Linkst.Formed.pair {idxA idxB : Nat} (lowA : 1 ≤ idxA) (lowB : 1 ≤ idxB)
    (highA : idxA ≤ linkst.matrixSize) (highB : idxB ≤ linkst.matrixSize) :
    ∃ info, linkst.entry (ordered idxA idxB).1 (ordered idxA idxB).2 = some info := by
  unfold ordered
  by_cases order : idxB < idxA
  · rw [if_pos order]
    exact formed.entry lowB (Nat.le_of_lt order) highA
  · rw [if_neg order]
    exact formed.entry lowA (Nat.not_lt.mp order) highB

theorem Linkst.Formed.joined (idxA idxB : Nat) :
    ∃ code, linkstJoined linkst idxA idxB = some code := by
  unfold linkstJoined
  split
  · exact ⟨_, rfl⟩
  · next inside =>
    simp only [not_or, Nat.not_lt] at inside
    obtain ⟨info, found⟩ := formed.pair inside.1 inside.2.2.1 inside.2.1 inside.2.2.2
    exact ⟨_, Option.bind_eq_some_iff.mpr ⟨info, found, rfl⟩⟩

theorem Linkst.Formed.join (idxA idxB now : Nat) :
    ∃ after code, linkstJoin linkst idxA idxB now = some (after, code) ∧ after.Formed := by
  unfold linkstJoin
  split
  · exact ⟨_, _, rfl, formed⟩
  · next inside =>
    simp only [not_or, Nat.not_lt] at inside
    obtain ⟨x, y, pair⟩ : ∃ x y, ordered idxA idxB = (x, y) := ⟨_, _, rfl⟩
    have larger : idxA ≤ x ∧ idxB ≤ x ∧ x ≤ linkst.upperLimit := by
      unfold ordered at pair
      split at pair
      · obtain ⟨rfl, rfl⟩ := Prod.mk.inj pair
        omega
      · obtain ⟨rfl, rfl⟩ := Prod.mk.inj pair
        omega
    simp only [pair]
    -- The matrix is made large enough for the larger index.
    obtain ⟨grown, resized, large, enough⟩ : ∃ grown, (if linkst.matrixSize ≤ x then
        linkstResize linkst (x - linkst.matrixSize) else linkst) = grown ∧ grown.Formed ∧
        x ≤ grown.matrixSize := by
      split
      · next short =>
        have bound : linkst.matrixSize + (x - linkst.matrixSize) ≤ linkst.upperLimit := by omega
        have resize := Linkst.Formed.resize formed bound
        exact ⟨_, rfl, resize.1, by omega⟩
      · exact ⟨_, rfl, formed, by omega⟩
    have entry := large.pair inside.1 inside.2.2.1 (by omega) (by omega)
    rw [pair] at entry
    obtain ⟨info, found⟩ := entry
    refine ⟨grown.setEntry x y { linked := 1, timestamp := now }, 0, ?_, large.setEntry _ _ _⟩
    rw [resized, found]
    rfl

theorem disjoinPair_formed {idx i : Nat} (lowA : 1 ≤ idx) (lowB : 1 ≤ i)
    (highA : idx ≤ linkst.matrixSize) (highB : i ≤ linkst.matrixSize) :
    ∃ after, disjoinPair idx linkst i = some after ∧ after.Formed ∧
      after.matrixSize = linkst.matrixSize := by
  obtain ⟨info, found⟩ := formed.pair lowA lowB highA highB
  by_cases linked : info.linked = 1
  · exact ⟨_, Option.bind_eq_some_iff.mpr ⟨info, found, if_pos linked⟩, formed.setEntry _ _ _, rfl⟩
  · exact ⟨_, Option.bind_eq_some_iff.mpr ⟨info, found, if_neg linked⟩, formed, rfl⟩

theorem disjoinAll_formed {idx : Nat} (low : 1 ≤ idx) (high : idx ≤ linkst.matrixSize)
    (indexes : List Nat) (within : ∀ i ∈ indexes, 1 ≤ i ∧ i ≤ linkst.matrixSize) :
    ∃ after, indexes.foldlM (disjoinPair idx) linkst = some after ∧ after.Formed := by
  induction indexes generalizing linkst with
  | nil => exact ⟨linkst, rfl, formed⟩
  | cons i rest inductionHypothesis =>
    obtain ⟨lowest, highest⟩ := within i List.mem_cons_self
    obtain ⟨next, taken, kept, size⟩ := disjoinPair_formed formed low lowest high highest
    obtain ⟨after, reached, last⟩ := inductionHypothesis kept (size ▸ high)
      fun j inside => size ▸ within j (List.mem_cons_of_mem i inside)
    refine ⟨after, ?_, last⟩
    rw [List.foldlM_cons, taken]
    exact reached

theorem Linkst.Formed.disjoin (idx : Nat) :
    ∃ after code, linkstDisjoin linkst idx = some (after, code) ∧ after.Formed := by
  unfold linkstDisjoin
  split
  · exact ⟨_, _, rfl, formed⟩
  · next inside =>
    simp only [not_or, Nat.not_lt] at inside
    obtain ⟨after, reached, kept⟩ := disjoinAll_formed formed inside.1 inside.2
      (List.range' 1 linkst.matrixSize) (fun i within => by
        have bounds := List.mem_range'_1.mp within
        omega)
    exact ⟨after, 0, by rw [reached]; rfl, kept⟩

end Formed

/-- A link state whose matrix is well formed, so that no access leaves it. -/
abbrev FormedLinkst := { linkst : Linkst // linkst.Formed }

namespace FormedLinkst

/-- `linkst_joined` -/
def joined (linkst : FormedLinkst) (idxA idxB : Nat) : Int :=
  (linkstJoined linkst.val idxA idxB).get
    (Option.isSome_iff_exists.mpr (linkst.property.joined idxA idxB))

/-- `linkst_join` -/
def join (linkst : FormedLinkst) (idxA idxB now : Nat) : FormedLinkst × Int :=
  have done : (linkstJoin linkst.val idxA idxB now).isSome := by
    obtain ⟨after, code, joined, _⟩ := linkst.property.join idxA idxB now
    rw [joined]
    rfl
  have kept : ((linkstJoin linkst.val idxA idxB now).get done).1.Formed := by
    obtain ⟨after, code, joined, formed⟩ := linkst.property.join idxA idxB now
    rw [Option.get_of_eq_some done joined]
    exact formed
  (⟨_, kept⟩, ((linkstJoin linkst.val idxA idxB now).get done).2)

/-- `linkst_disjoin` -/
def disjoin (linkst : FormedLinkst) (idx : Nat) : FormedLinkst × Int :=
  have done : (linkstDisjoin linkst.val idx).isSome := by
    obtain ⟨after, code, disjoined, _⟩ := linkst.property.disjoin idx
    rw [disjoined]
    rfl
  have kept : ((linkstDisjoin linkst.val idx).get done).1.Formed := by
    obtain ⟨after, code, disjoined, formed⟩ := linkst.property.disjoin idx
    rw [Option.get_of_eq_some done disjoined]
    exact formed
  (⟨_, kept⟩, ((linkstDisjoin linkst.val idx).get done).2)

end FormedLinkst

end NetVirt.LinkStates
