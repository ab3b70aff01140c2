import Mathlib.Data.List.Perm.Basic

/-!
# Elements spread over buckets

A list of buckets, each with the elements that it holds, in order. All elements of a class
lie in one bucket, so that the elements of the class are those of that bucket, and a change
of one bucket changes the classes that lie in it.
-/

namespace NetVirt.Buckets

universe u v
variable {Bucket : Type u} {Element : Type v}

/-- The elements of all buckets, one bucket after the other. -/
def elements (held : Bucket → List Element) (buckets : List Bucket) : List Element :=
  buckets.flatMap held

/-- The elements before those of a bucket, and the ones behind, stay as they are when the
bucket is changed. -/
theorem elements_around (held : Bucket → List Element) (buckets : List Bucket) (index : Nat)
    (bucket : Bucket) (there : buckets[index]? = some bucket) :
    ∃ before after, elements held buckets = before ++ held bucket ++ after ∧
      ∀ other, elements held (buckets.set index other) = before ++ held other ++ after := by
  induction buckets generalizing index with
  | nil => cases there
  | cons first rest inductionHypothesis =>
    cases index with
    | zero =>
      obtain rfl := Option.some.inj there
      exact ⟨[], elements held rest, rfl, fun _ => rfl⟩
    | succ index =>
      obtain ⟨before, after, all, changed⟩ := inductionHypothesis index there
      refine ⟨held first ++ before, after, ?_, fun other => ?_⟩
      · simp only [elements, List.flatMap_cons] at all ⊢
        rw [all]
        simp only [List.append_assoc]
      · have rest := changed other
        simp only [elements, List.set_cons_succ, List.flatMap_cons] at rest ⊢
        rw [rest]
        simp only [List.append_assoc]

/-- The elements of a class that lies in one bucket. -/
theorem filter_elements (held : Bucket → List Element) (buckets : List Bucket) (index : Nat)
    (bucket : Bucket) (there : buckets[index]? = some bucket) (belongs : Element → Bool)
    (elsewhere : ∀ other found, buckets[other]? = some found → other ≠ index →
      ∀ element ∈ held found, belongs element = false) :
    (elements held buckets).filter belongs = (held bucket).filter belongs := by
  induction buckets generalizing index with
  | nil => cases there
  | cons first rest inductionHypothesis =>
    have none : ∀ bucket, (∀ element ∈ held bucket, belongs element = false) →
        (held bucket).filter belongs = [] := by
      intro bucket outside
      rw [List.filter_eq_nil_iff]
      intro element inside
      simp [outside element inside]
    cases index with
    | zero =>
      obtain rfl := Option.some.inj there
      have others : (elements held rest).filter belongs = [] := by
        rw [List.filter_eq_nil_iff]
        intro element inside
        obtain ⟨found, among, holds⟩ := List.mem_flatMap.mp inside
        obtain ⟨other, placed⟩ := List.getElem?_of_mem among
        simp [elsewhere (other + 1) found placed (Nat.succ_ne_zero other) element holds]
      simp only [elements, List.flatMap_cons, List.filter_append] at others ⊢
      rw [others, List.append_nil]
    | succ index =>
      have kept := inductionHypothesis index there fun other found placed apart =>
        elsewhere (other + 1) found placed (by omega)
      simp only [elements, List.flatMap_cons, List.filter_append] at kept ⊢
      rw [kept, none first (elsewhere 0 first rfl (Nat.zero_ne_add_one index)),
        List.nil_append]

/-! ## The first element of a class -/

theorem filter_eraseP_same (list : List Element) (belongs : Element → Bool) :
    (list.eraseP belongs).filter belongs = (list.filter belongs).tail := by
  induction list with
  | nil => rfl
  | cons first rest inductionHypothesis =>
    cases decided : belongs first with
    | true => simp [decided]
    | false => simp [decided, inductionHypothesis]

/-- Another class keeps all its elements. -/
theorem filter_eraseP_other (list : List Element) (belongs other : Element → Bool)
    (apart : ∀ element, belongs element = true → other element = false) :
    (list.eraseP belongs).filter other = list.filter other := by
  induction list with
  | nil => rfl
  | cons first rest inductionHypothesis =>
    cases decided : belongs first with
    | true => simp [decided, apart first decided]
    | false => simp [decided, List.filter_cons, inductionHypothesis]

/-- The first element of a class, and the others. -/
theorem perm_eraseP (list : List Element) (belongs : Element → Bool) (element : Element)
    (found : list.find? belongs = some element) :
    list.Perm (element :: list.eraseP belongs) := by
  induction list with
  | nil => cases found
  | cons first rest inductionHypothesis =>
    cases decided : belongs first with
    | true =>
      simp only [List.find?_cons, decided, Option.some.injEq] at found
      rw [List.eraseP_cons_of_pos decided, found]
    | false =>
      simp only [List.find?_cons, decided] at found
      simp only [List.eraseP_cons, decided, cond_false]
      exact (List.Perm.cons first (inductionHypothesis found)).trans (List.Perm.swap _ _ _)

end NetVirt.Buckets
