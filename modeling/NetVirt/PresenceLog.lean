import Mathlib.Data.Set.Insert

/-!
# Reports of presence

Members attend places, and a log hears of it: a report says of one place whether anybody
is there. The last report of a place is the one that counts. Where the log has been right
so far, it stays right over a member who joins or leaves exactly when the report of that,
if there is one, suits what the others attend.
-/

namespace NetVirt.PresenceLog

universe u v w
variable {Place : Type u} {Report : Type v} {Member : Type w}

/-! ## Members -/

/-- The places that members attend. -/
def attended (Attends : Member → Place → Prop) : Set Place :=
  { place | ∃ member, Attends member place }

/-- The places that members other than the given one attend. -/
def attendedBeside (Attends : Member → Place → Prop) (member : Member) : Set Place :=
  { place | ∃ other, other ≠ member ∧ Attends other place }

theorem attended_split (Attends : Member → Place → Prop) (member : Member) :
    attended Attends = attendedBeside Attends member ∪ { place | Attends member place } := by
  ext place
  constructor
  · rintro ⟨other, attends⟩
    by_cases own : other = member
    · exact Or.inr (own ▸ attends)
    · exact Or.inl ⟨other, own, attends⟩
  · rintro (⟨other, _, attends⟩ | attends)
    · exact ⟨other, attends⟩
    · exact ⟨member, attends⟩

/-- Members that join at a place. -/
theorem attended_join (Before After : Member → Place → Prop) (member : Member) (joined : Place)
    (changed : ∀ other place, After other place ↔
      Before other place ∨ other = member ∧ place = joined) :
    attended After = insert joined (attended Before) := by
  ext place
  constructor
  · rintro ⟨other, attends⟩
    rcases (changed other place).mp attends with before | ⟨_, here⟩
    · exact Or.inr ⟨other, before⟩
    · exact Or.inl here
  · rintro (here | ⟨other, before⟩)
    · exact ⟨member, (changed member place).mpr (Or.inr ⟨rfl, here⟩)⟩
    · exact ⟨other, (changed other place).mpr (Or.inl before)⟩

/-! ## The log -/

section Log
variable [DecidableEq Place] (placeOf : Report → Place) (Present : Report → Prop)

/-- The last report of a place. -/
def latest (reports : List Report) (place : Place) : Option Report :=
  (reports.filter fun report => placeOf report = place).getLast?

/-- The places of which the last report says that somebody is there. -/
def told (reports : List Report) : Set Place :=
  { place | ∃ report, latest placeOf reports place = some report ∧ Present report }

theorem latest_snoc (reports : List Report) (report : Report) (place : Place) :
    latest placeOf (reports ++ [report]) place =
      if placeOf report = place then some report else latest placeOf reports place := by
  by_cases here : placeOf report = place
  · simp [latest, List.filter_append, here]
  · simp [latest, List.filter_append, here]

theorem told_nil : told placeOf Present [] = ∅ := by
  ext place
  simp [told, latest]

theorem told_present (reports : List Report) (report : Report) (present : Present report) :
    told placeOf Present (reports ++ [report]) =
      insert (placeOf report) (told placeOf Present reports) := by
  ext place
  by_cases here : placeOf report = place
  · simp [told, latest_snoc, here, present]
  · simp [told, latest_snoc, here, Ne.symm here]

theorem told_absent (reports : List Report) (report : Report) (absent : ¬ Present report) :
    told placeOf Present (reports ++ [report]) =
      told placeOf Present reports \ {placeOf report} := by
  ext place
  by_cases here : placeOf report = place
  · simp [told, latest_snoc, here, absent]
  · simp [told, latest_snoc, here, Ne.symm here]

end Log

/-! ## Joining and leaving -/

/-- A join is told: it is reported at its place, or both that place and the reported one
were attended already. -/
def JoinTold (attended : Set Place) (joined : Place) : Option Place → Prop
  | none => joined ∈ attended
  | some reported => reported = joined ∨ reported ∈ attended ∧ joined ∈ attended

/-- A departure is told: no other member attends the reported place, and those that the
leaving member attended are reported or attended by others. -/
def LeaveTold (others own : Set Place) : Option Place → Prop
  | none => own ⊆ others
  | some reported => reported ∉ others ∧ own ⊆ insert reported others

theorem insert_eq_insert_iff (attended : Set Place) (reported joined : Place) :
    insert reported attended = insert joined attended ↔
      reported = joined ∨ reported ∈ attended ∧ joined ∈ attended := by
  constructor
  · intro same
    have forth : reported ∈ insert joined attended := same ▸ Set.mem_insert ..
    have back : joined ∈ insert reported attended := same ▸ Set.mem_insert ..
    rcases forth with equal | already
    · exact Or.inl equal
    · exact back.elim (fun equal => Or.inl equal.symm) fun other => Or.inr ⟨already, other⟩
  · rintro (rfl | ⟨already, other⟩)
    · rfl
    · rw [Set.insert_eq_of_mem already, Set.insert_eq_of_mem other]

theorem union_diff_eq_iff (others own : Set Place) (reported : Place) :
    (others ∪ own) \ {reported} = others ↔
      reported ∉ others ∧ own ⊆ insert reported others := by
  constructor
  · intro same
    refine ⟨fun inside => ?_, fun place mine => ?_⟩
    · exact (same.symm ▸ inside : reported ∈ (others ∪ own) \ {reported}).2 rfl
    · by_cases here : place = reported
      · exact Or.inl here
      · exact Or.inr (same ▸ ⟨Or.inr mine, here⟩)
  · rintro ⟨free, covered⟩
    ext place
    constructor
    · rintro ⟨inside | mine, elsewhere⟩
      · exact inside
      · exact (covered mine).resolve_left elsewhere
    · intro inside
      exact ⟨Or.inl inside, fun here => free (here ▸ inside)⟩

section Reported
variable [DecidableEq Place] (placeOf : Report → Place) (Present : Report → Prop)

theorem join_iff (reports : List Report) (attended : Set Place) (joined : Place)
    (report : Option Report) (right : told placeOf Present reports = attended)
    (present : ∀ said ∈ report, Present said) :
    told placeOf Present (reports ++ report.toList) = insert joined attended ↔
      JoinTold attended joined (report.map placeOf) := by
  cases report with
  | none =>
    simp only [Option.toList_none, List.append_nil, right, Option.map_none, JoinTold]
    exact eq_comm.trans Set.insert_eq_self
  | some said =>
    rw [Option.toList_some, told_present placeOf Present reports said (present said rfl), right]
    exact insert_eq_insert_iff attended (placeOf said) joined

theorem leave_iff (reports : List Report) (others own : Set Place) (report : Option Report)
    (right : told placeOf Present reports = others ∪ own)
    (absent : ∀ said ∈ report, ¬ Present said) :
    told placeOf Present (reports ++ report.toList) = others ↔
      LeaveTold others own (report.map placeOf) := by
  cases report with
  | none =>
    simp only [Option.toList_none, List.append_nil, right, Option.map_none, LeaveTold]
    exact Set.union_eq_left
  | some said =>
    rw [Option.toList_some, told_absent placeOf Present reports said (absent said rfl), right]
    exact union_diff_eq_iff others own (placeOf said)

end Reported


end NetVirt.PresenceLog
