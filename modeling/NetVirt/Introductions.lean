import Mathlib.Data.List.Count
import Mathlib.Logic.Function.Basic

/-!
# Introducing the parties of a group to each other

Each party of a group holds a number, which another one may hold after it has left. The
numbers that have been introduced to each other are linked, and the links of a number go
with the party that holds it. If two parties are introduced only when their numbers are not
linked, no two parties of the group are introduced twice.

Introductions within other groups are recorded, too; they are nobody's here.
-/

namespace NetVirt.Introductions

universe u v
variable {Party : Type u} {Number : Type v}

/-- The introduction is one of these two, whichever was named first. -/
def Between (p q : Party) (call : Party × Party) : Prop := call = (p, q) ∨ call = (q, p)

instance [DecidableEq Party] (p q : Party) : DecidablePred (Between p q) := fun _ =>
  inferInstanceAs (Decidable (_ ∨ _))

theorem between_comm (p q : Party) (call : Party × Party) : Between p q call ↔ Between q p call :=
  or_comm

@[ext]
structure Group (Party : Type u) (Number : Type v) where
  number : Party → Option Number
  linked : Number → Number → Prop
  made : List (Party × Party)

/-- The links are those of the introductions between the parties of the group, and none of
these was made twice. -/
structure Group.Sound [DecidableEq Party] (group : Group Party Number) : Prop where
  injective : ∀ p q n, group.number p = some n → group.number q = some n → p = q
  held : ∀ n m, group.linked n m → ∃ p q, group.number p = some n ∧ group.number q = some m
  exact : ∀ p q n m, group.number p = some n → group.number q = some m →
    (group.linked n m ↔ ∃ call ∈ group.made, Between p q call)
  once : ∀ p q, p ≠ q → group.number p ≠ none → group.number q ≠ none →
    group.made.countP (Between p q) ≤ 1

variable [DecidableEq Party] {group : Group Party Number} (sound : group.Sound)
include sound

/-- A number that nobody holds is not linked. -/
theorem Group.Sound.unlinked (n m : Number) (unused : ∀ p, group.number p ≠ some n) :
    ¬ group.linked n m := by
  intro linked
  obtain ⟨p, _, held, _⟩ := sound.held n m linked
  exact unused p held

/-- A party that has not been introduced gets a number that nobody holds. -/
theorem Group.Sound.admit (p : Party) (n : Number) (outside : group.number p = none)
    (unused : ∀ q, group.number q ≠ some n) (alone : ∀ call ∈ group.made, call.1 ≠ p ∧ call.2 ≠ p) :
    ({ group with number := Function.update group.number p (some n) } :
      Group Party Number).Sound := by
  have stranger : ∀ q, ∀ call ∈ group.made, ¬ Between p q call := by
    rintro q call inside (rfl | rfl)
    · exact (alone _ inside).1 rfl
    · exact (alone _ inside).2 rfl
  have unlinked : ∀ m, ¬ group.linked m n := by
    intro m linked
    obtain ⟨_, q, _, held⟩ := sound.held m n linked
    exact unused q held
  constructor
  · intro q r m holdsQ holdsR
    by_cases ownQ : q = p <;> by_cases ownR : r = p
    · exact ownQ.trans ownR.symm
    · simp only [ownQ, Function.update_self, Option.some.injEq, ne_eq, ownR, not_false_eq_true,
        Function.update_of_ne] at holdsQ holdsR
      exact absurd (holdsQ ▸ holdsR) (unused r)
    · simp only [ownR, Function.update_self, Option.some.injEq, ne_eq, ownQ, not_false_eq_true,
        Function.update_of_ne] at holdsQ holdsR
      exact absurd (holdsR ▸ holdsQ) (unused q)
    · simp only [ne_eq, ownQ, ownR, not_false_eq_true, Function.update_of_ne] at holdsQ holdsR
      exact sound.injective q r m holdsQ holdsR
  · intro m k linked
    obtain ⟨q, r, holdsQ, holdsR⟩ := sound.held m k linked
    have other : ∀ t l, group.number t = some l → t ≠ p := by
      rintro t l holds rfl
      rw [outside] at holds
      cases holds
    exact ⟨q, r, by simp [other q m holdsQ, holdsQ], by simp [other r k holdsR, holdsR]⟩
  · intro q r m k holdsQ holdsR
    by_cases ownQ : q = p
    · simp only [ownQ, Function.update_self, Option.some.injEq] at holdsQ
      refine iff_of_false (fun linked => sound.unlinked m k (holdsQ ▸ unused) linked) ?_
      rintro ⟨call, inside, between⟩
      exact stranger r call inside (ownQ ▸ between)
    · by_cases ownR : r = p
      · simp only [ownR, Function.update_self, Option.some.injEq] at holdsR
        refine iff_of_false (fun linked => unlinked m (holdsR ▸ linked)) ?_
        rintro ⟨call, inside, between⟩
        exact stranger q call inside ((between_comm p q call).mpr (ownR ▸ between))
      · simp only [ne_eq, ownQ, ownR, not_false_eq_true, Function.update_of_ne] at holdsQ holdsR
        exact sound.exact q r m k holdsQ holdsR
  · intro q r apart heldQ heldR
    by_cases ownQ : q = p
    · have none : group.made.countP (Between p r) = 0 := List.countP_eq_zero.mpr
        fun call inside => by simpa using stranger r call inside
      rw [ownQ, none]
      exact Nat.zero_le 1
    · by_cases ownR : r = p
      · have none : group.made.countP (Between q p) = 0 := by
          refine List.countP_eq_zero.mpr fun call inside => ?_
          have apart := stranger q call inside
          rw [between_comm] at apart
          simpa using apart
        rw [ownR, none]
        exact Nat.zero_le 1
      · simp only [ne_eq, ownQ, ownR, not_false_eq_true, Function.update_of_ne] at heldQ heldR
        exact sound.once q r apart heldQ heldR

/-- Two parties whose numbers are not linked are introduced. -/
theorem Group.Sound.meet (p q : Party) (n m : Number)
    (holdsP : group.number p = some n) (holdsQ : group.number q = some m)
    (fresh : ¬ group.linked n m) (linked : Number → Number → Prop)
    (links : ∀ k l, linked k l ↔ group.linked k l ∨ k = n ∧ l = m ∨ k = m ∧ l = n) :
    ({ group with linked := linked, made := group.made ++ [(p, q)] } :
      Group Party Number).Sound := by
  have unmet : ∀ call ∈ group.made, ¬ Between p q call := fun call inside between =>
    fresh ((sound.exact p q n m holdsP holdsQ).mpr ⟨call, inside, between⟩)
  constructor
  · exact sound.injective
  · intro k l linked
    rcases (links k l).mp linked with old | ⟨rfl, rfl⟩ | ⟨rfl, rfl⟩
    · exact sound.held k l old
    · exact ⟨p, q, holdsP, holdsQ⟩
    · exact ⟨q, p, holdsQ, holdsP⟩
  · intro r t k l holdsR holdsT
    refine (links k l).trans ?_
    rw [sound.exact r t k l holdsR holdsT]
    simp only [List.mem_append, List.mem_singleton, or_and_right, exists_or, exists_eq_left]
    refine or_congr Iff.rfl ?_
    -- The numbers are those of the two exactly when the parties are.
    have same : ∀ a b c, group.number a = some b → group.number c = some b → a = c :=
      fun a b c => sound.injective a c b
    constructor
    · rintro (⟨rfl, rfl⟩ | ⟨rfl, rfl⟩)
      · exact Or.inl (Prod.ext (same p k r holdsP holdsR) (same q l t holdsQ holdsT))
      · exact Or.inr (Prod.ext (same p l t holdsP holdsT) (same q k r holdsQ holdsR))
    · rintro (both | both)
      · obtain ⟨rfl, rfl⟩ := Prod.mk.inj both
        exact Or.inl ⟨Option.some.inj (holdsR.symm.trans holdsP),
          Option.some.inj (holdsT.symm.trans holdsQ)⟩
      · obtain ⟨rfl, rfl⟩ := Prod.mk.inj both
        exact Or.inr ⟨Option.some.inj (holdsR.symm.trans holdsQ),
          Option.some.inj (holdsT.symm.trans holdsP)⟩
  · intro r t different heldR heldT
    rw [List.countP_append]
    by_cases between : Between r t (p, q)
    · -- They had not met before.
      have none : group.made.countP (Between r t) = 0 := by
        refine List.countP_eq_zero.mpr fun call inside => ?_
        have strangers := unmet call inside
        simp only [decide_eq_true_eq]
        rcases between with both | both
        · obtain ⟨rfl, rfl⟩ := Prod.mk.inj both
          exact strangers
        · obtain ⟨rfl, rfl⟩ := Prod.mk.inj both
          exact fun between => strangers ((between_comm p q call).mpr between)
      rw [none, Nat.zero_add]
      exact List.countP_le_length
    · have none : [(p, q)].countP (Between r t) = 0 := by simp [between]
      rw [none, Nat.add_zero]
      exact sound.once r t different heldR heldT

/-- An introduction in another group. -/
theorem Group.Sound.elsewhere (p q : Party)
    (outside : group.number p = none ∨ group.number q = none) :
    ({ group with made := group.made ++ [(p, q)] } : Group Party Number).Sound := by
  have other : ∀ r t, group.number r ≠ none → group.number t ≠ none → ¬ Between r t (p, q) := by
    rintro r t heldR heldT (both | both)
    · obtain ⟨rfl, rfl⟩ := Prod.mk.inj both
      exact outside.elim heldR heldT
    · obtain ⟨rfl, rfl⟩ := Prod.mk.inj both
      exact outside.elim heldT heldR
  refine { sound with exact := ?_, once := ?_ }
  · intro r t k l holdsR holdsT
    have here := other r t (Option.ne_none_iff_exists'.mpr ⟨k, holdsR⟩)
      (Option.ne_none_iff_exists'.mpr ⟨l, holdsT⟩)
    simp only [sound.exact r t k l holdsR holdsT, List.mem_append, List.mem_singleton,
      or_and_right, exists_or, exists_eq_left, here, or_false]
  · intro r t different heldR heldT
    have none : [(p, q)].countP (Between r t) = 0 := by simp [other r t heldR heldT]
    rw [List.countP_append, none, Nat.add_zero]
    exact sound.once r t different heldR heldT

/-- A party leaves, and its links with it. -/
theorem Group.Sound.leave (p : Party) (linked : Number → Number → Prop)
    (links : ∀ k l, linked k l ↔
      group.linked k l ∧ group.number p ≠ some k ∧ group.number p ≠ some l) :
    ({ group with number := Function.update group.number p none, linked := linked } :
      Group Party Number).Sound := by
  have stays : ∀ q n, Function.update group.number p none q = some n →
      q ≠ p ∧ group.number q = some n := by
    intro q n holds
    by_cases own : q = p
    · simp [own] at holds
    · rw [Function.update_of_ne own] at holds
      exact ⟨own, holds⟩
  have unheld : ∀ q n, q ≠ p → group.number q = some n → group.number p ≠ some n :=
    fun q n apart holds gone => apart (sound.injective q p n holds gone)
  constructor
  · intro q r n holdsQ holdsR
    exact sound.injective q r n (stays q n holdsQ).2 (stays r n holdsR).2
  · intro n m linked
    obtain ⟨old, goneN, goneM⟩ := (links n m).mp linked
    obtain ⟨q, r, holdsQ, holdsR⟩ := sound.held n m old
    have other : ∀ t k, group.number t = some k → group.number p ≠ some k → t ≠ p := by
      rintro t k holds gone rfl
      exact gone holds
    exact ⟨q, r, by simp [other q n holdsQ goneN, holdsQ], by simp [other r m holdsR goneM, holdsR]⟩
  · intro q r n m holdsQ holdsR
    obtain ⟨apartQ, keptQ⟩ := stays q n holdsQ
    obtain ⟨apartR, keptR⟩ := stays r m holdsR
    refine (links n m).trans ?_
    rw [← sound.exact q r n m keptQ keptR]
    exact and_iff_left ⟨unheld q n apartQ keptQ, unheld r m apartR keptR⟩
  · intro q r different heldQ heldR
    obtain ⟨n, holdsQ⟩ := Option.ne_none_iff_exists'.mp heldQ
    obtain ⟨m, holdsR⟩ := Option.ne_none_iff_exists'.mp heldR
    exact sound.once q r different (by simp [(stays q n holdsQ).2]) (by simp [(stays r m holdsR).2])

end NetVirt.Introductions
