import Mathlib.Data.List.Basic

/-!
# Searching a sorted table

`bsearch` halves a window of the table at its middle entry. The key is known by how it
compares with each entry only: below it, above it or equal to it. A table is sorted for a
key when the entries above the key come last and those below it come first.
-/

namespace NetVirt.BinarySearches

universe u
variable {Entry : Type u} (compare : Entry → Ordering) (entries : List Entry)

/-- The index of an entry that is equal to the key, in the window from `l` up to `u`. -/
def bsearchWindow (l u : Nat) : Option Nat :=
  if l < u then
    match entries[(l + u) / 2]?.map compare with
    | none => none
    | some .lt => bsearchWindow l ((l + u) / 2)
    | some .gt => bsearchWindow ((l + u) / 2 + 1) u
    | some .eq => some ((l + u) / 2)
  else none
termination_by u - l

def bsearch : Option Nat := bsearchWindow compare entries 0 entries.length

/-- Behind an entry that is above the key all are, and before one below it all are. -/
def Ascending : Prop :=
  entries.Pairwise fun first second =>
    (compare first = .lt → compare second = .lt) ∧ (compare second = .gt → compare first = .gt)

variable {compare entries}

theorem bsearchWindow_sound (l u index : Nat)
    (found : bsearchWindow compare entries l u = some index) :
    l ≤ index ∧ index < u ∧ ∃ entry, entries[index]? = some entry ∧ compare entry = .eq := by
  fun_induction bsearchWindow compare entries l u with
  | case1 l u more missing => cases found
  | case2 l u more below inductionHypothesis =>
    obtain ⟨least, most, hit⟩ := inductionHypothesis found
    exact ⟨least, by omega, hit⟩
  | case3 l u more above inductionHypothesis =>
    obtain ⟨least, most, hit⟩ := inductionHypothesis found
    exact ⟨by omega, most, hit⟩
  | case4 l u more hit =>
    cases found
    obtain ⟨entry, there, same⟩ := Option.map_eq_some_iff.mp hit
    exact ⟨by omega, by omega, entry, there, same⟩
  | case5 l u none => cases found

/-- In a sorted table no entry of the window is missed. -/
theorem bsearchWindow_complete (ascending : Ascending compare entries) (l u index : Nat)
    (inside : u ≤ entries.length) (least : l ≤ index) (most : index < u) (entry : Entry)
    (there : entries[index]? = some entry) (same : compare entry = .eq) :
    ∃ hit, bsearchWindow compare entries l u = some hit := by
  obtain ⟨bound, rfl⟩ := List.getElem?_eq_some_iff.mp there
  have ordered := List.pairwise_iff_getElem.mp ascending
  fun_induction bsearchWindow compare entries l u with
  | case1 l u more missing =>
    rw [List.getElem?_eq_getElem (by omega)] at missing
    cases missing
  | case2 l u more below inductionHypothesis =>
    rw [List.getElem?_eq_getElem (by omega)] at below
    apply inductionHypothesis (by omega) least
    by_contra behind
    have entryBelow : compare entries[index] = .lt := by
      rcases Nat.lt_or_ge ((l + u) / 2) index with before | after
      · exact (ordered _ _ (by omega) bound before).1 (Option.some.inj below)
      · have middle : (l + u) / 2 = index := by omega
        simpa [middle] using below
    rw [same] at entryBelow
    cases entryBelow
  | case3 l u more above inductionHypothesis =>
    rw [List.getElem?_eq_getElem (by omega)] at above
    refine inductionHypothesis inside ?_ most
    by_contra before
    have entryAbove : compare entries[index] = .gt := by
      rcases Nat.lt_or_ge index ((l + u) / 2) with behind | middle
      · exact (ordered _ _ bound (by omega) behind).2 (Option.some.inj above)
      · have middle : (l + u) / 2 = index := by omega
        simpa [middle] using above
    rw [same] at entryAbove
    cases entryAbove
  | case4 l u more hit => exact ⟨_, rfl⟩
  | case5 l u none => omega

/-- The search finds the entry that is equal to the key, when there is one such entry. -/
theorem bsearch_finds (ascending : Ascending compare entries) (index : Nat) (entry : Entry)
    (there : entries[index]? = some entry) (same : compare entry = .eq)
    (only : ∀ other second, entries[other]? = some second → compare second = .eq →
      other = index) : bsearch compare entries = some index := by
  obtain ⟨bound, _⟩ := List.getElem?_eq_some_iff.mp there
  obtain ⟨hit, found⟩ := bsearchWindow_complete ascending 0 entries.length index (Nat.le_refl _)
    (Nat.zero_le _) bound entry there same
  obtain ⟨_, _, second, reached, equal⟩ := bsearchWindow_sound 0 entries.length hit found
  rw [← only hit second reached equal]
  exact found

end NetVirt.BinarySearches
