import NetVirt.LinkPairs
import NetVirt.Runs

/-!
# What a link state remembers

Every call of linkst.c after linkst_new, in any order and with any indexes. A pair is linked
when a join of it was not followed by a disjoin of one of its indexes, in whatever order the
matrix had to grow. The time of a join is stored, and not looked at again.
-/

namespace NetVirt.LinkStates

open Runs

inductive Operation where
  | join (idxA idxB : Nat)
  | joined (idxA idxB : Nat)
  | disjoin (idx : Nat)
deriving DecidableEq

/-- A call, and what the clock shows. -/
structure Call where
  operation : Operation
  now : Nat
deriving DecidableEq

/-- The link state after a call, and what the call returns. -/
def Linkst.call (linkst : Linkst) (call : Call) : Option (Linkst × Int) :=
  match call.operation with
  | .join idxA idxB => linkstJoin linkst idxA idxB call.now
  | .joined idxA idxB => (linkstJoined linkst idxA idxB).map fun code => (linkst, code)
  | .disjoin idx => linkstDisjoin linkst idx

def callStep (linkst : Linkst) (call : Call) : Option Linkst := (linkst.call call).map Prod.fst

/-- Both indexes are within 1 and the limit. -/
def Within (upperLimit idxA idxB : Nat) : Prop :=
  (1 ≤ idxA ∧ idxA ≤ upperLimit) ∧ 1 ≤ idxB ∧ idxB ≤ upperLimit

instance (upperLimit idxA idxB : Nat) : Decidable (Within upperLimit idxA idxB) :=
  inferInstanceAs (Decidable (_ ∧ _))

/-- The call joins the pair, in either order. -/
def Call.Joins (upperLimit idxA idxB : Nat) (call : Call) : Prop :=
  (call.operation = .join idxA idxB ∨ call.operation = .join idxB idxA) ∧
    Within upperLimit idxA idxB

instance (upperLimit idxA idxB : Nat) : DecidablePred (Call.Joins upperLimit idxA idxB) :=
  fun _ => inferInstanceAs (Decidable (_ ∧ _))

/-- The call disjoins one index of the pair. -/
def Call.Parts (idxA idxB : Nat) (call : Call) : Prop :=
  call.operation = .disjoin idxA ∨ call.operation = .disjoin idxB

/-- A join of the pair was not followed by a disjoin of one of its indexes. -/
def Linked (upperLimit idxA idxB : Nat) (calls : List Call) : Prop :=
  Since (Call.Joins upperLimit idxA idxB) (Call.Parts idxA idxB) calls

/-! ## Single calls -/

/-- A join of indexes that are not within the limit is refused. -/
theorem linkstJoin_refused (linkst : Linkst) (idxA idxB now : Nat)
    (outside : ¬ Within linkst.upperLimit idxA idxB) :
    linkstJoin linkst idxA idxB now = some (linkst, -1) := by
  unfold linkstJoin
  rw [if_pos]
  unfold Within at outside
  omega

/-- A join of indexes within the limit succeeds. -/
theorem linkstJoin_code (linkst after : Linkst) (idxA idxB now : Nat) (code : Int)
    (within : Within linkst.upperLimit idxA idxB)
    (taken : linkstJoin linkst idxA idxB now = some (after, code)) : code = 0 := by
  have inside : ¬ (idxA < 1 ∨ linkst.upperLimit < idxA ∨ idxB < 1 ∨ linkst.upperLimit < idxB) := by
    unfold Within at within
    omega
  unfold linkstJoin at taken
  rw [if_neg inside] at taken
  obtain ⟨info, _, stored⟩ := Option.bind_eq_some_iff.mp taken
  exact (Prod.mk.inj (Option.some.inj stored)).2.symm

/-- What the matrix is after some calls. -/
structure Remembers (upperLimit : Nat) (calls : List Call) (linkst : Linkst) : Prop where
  formed : linkst.Formed
  limit : linkst.upperLimit = upperLimit
  up : ∀ c d, linkst.Up c d ↔ Linked upperLimit c d calls

theorem remembers_new (upperLimit timeoutSec : Nat) (small : upperLimit + 5 < 2 ^ 32) :
    Remembers upperLimit [] (linkstNew upperLimit timeoutSec) where
  formed := formed_new upperLimit timeoutSec small
  limit := rfl
  up c d := by
    refine iff_of_false ?_ (not_since_nil _ _)
    rintro ⟨_, _, info, found, _⟩
    simp [Linkst.entry, linkstNew] at found

section Remembers
variable {upperLimit : Nat} {calls : List Call} {linkst : Linkst}
  (remembers : Remembers upperLimit calls linkst)
include remembers

/-- A join stays within the matrix. It links its pair, if the indexes are within the limit. -/
theorem Remembers.join (idxA idxB now : Nat) : ∃ after,
    linkstJoin linkst idxA idxB now =
      some (after, if Within upperLimit idxA idxB then 0 else -1) ∧
    Remembers upperLimit (calls ++ [⟨.join idxA idxB, now⟩]) after := by
  have limit := remembers.limit
  by_cases within : Within upperLimit idxA idxB
  · have inside : Within linkst.upperLimit idxA idxB := limit ▸ within
    obtain ⟨⟨lowA, highA⟩, lowB, highB⟩ := inside
    obtain ⟨after, code, taken, kept, up⟩ :=
      remembers.formed.join_up idxA idxB now lowA lowB highA highB
    obtain ⟨same, other, again, formed⟩ := remembers.formed.join idxA idxB now
    obtain ⟨rfl, rfl⟩ := Prod.mk.inj (Option.some.inj (again.symm.trans taken))
    obtain rfl := linkstJoin_code linkst same idxA idxB now other (limit ▸ within) taken
    refine ⟨same, by rw [taken, if_pos within], formed, kept.trans limit, fun c d => ?_⟩
    rw [up, remembers.up, Linked, Linked, since_snoc]
    simp only [Call.Joins, Call.Parts, Operation.join.injEq, reduceCtorEq, or_self,
      not_false_eq_true, and_true]
    unfold Within at within ⊢
    constructor
    · rintro (before | pair)
      · exact Or.inr before
      · exact Or.inl (by omega)
    · rintro (⟨pair, _⟩ | before)
      · exact Or.inr (by omega)
      · exact Or.inl before
  · have refused := linkstJoin_refused linkst idxA idxB now (limit ▸ within)
    refine ⟨linkst, by rw [refused, if_neg within], remembers.formed, limit, fun c d => ?_⟩
    rw [remembers.up, Linked, Linked, since_snoc]
    have apart : ¬ Call.Joins upperLimit c d ⟨.join idxA idxB, now⟩ := by
      rintro ⟨same, bounds⟩
      simp only [Operation.join.injEq] at same
      unfold Within at within bounds
      omega
    simp [apart, Call.Parts]

/-- A question stays within the matrix, and is answered from the calls before it. -/
theorem Remembers.joined (idxA idxB : Nat) : ∃ code,
    linkstJoined linkst idxA idxB = some code ∧
      (code = 1 ↔ Linked upperLimit idxA idxB calls) := by
  obtain ⟨code, answered⟩ := remembers.formed.joined idxA idxB
  refine ⟨code, answered, ?_⟩
  rw [← remembers.up, ← remembers.formed.joined_iff, answered, Option.some.injEq]

/-- A disjoin stays within the matrix, and takes every pair with its index away. -/
theorem Remembers.disjoin (idx now : Nat) : ∃ after code,
    linkstDisjoin linkst idx = some (after, code) ∧
      Remembers upperLimit (calls ++ [⟨.disjoin idx, now⟩]) after := by
  obtain ⟨after, code, taken, kept, up⟩ := remembers.formed.disjoin_up idx
  obtain ⟨same, other, again, formed⟩ := remembers.formed.disjoin idx
  obtain ⟨rfl, rfl⟩ := Prod.mk.inj (Option.some.inj (again.symm.trans taken))
  refine ⟨same, other, taken, formed, kept.trans remembers.limit, fun c d => ?_⟩
  rw [up, remembers.up, Linked, Linked, since_snoc]
  simp only [Call.Joins, Call.Parts, Operation.disjoin.injEq, reduceCtorEq, or_self, false_and,
    false_or, not_or]
  exact and_congr_right fun _ => and_congr ne_comm ne_comm

/-- Every call stays within the matrix, which then remembers it too. -/
theorem Remembers.step (call : Call) :
    ∃ after, callStep linkst call = some after ∧ Remembers upperLimit (calls ++ [call]) after := by
  obtain ⟨operation, now⟩ := call
  cases operation with
  | join idxA idxB =>
    obtain ⟨after, taken, remembers⟩ := remembers.join idxA idxB now
    exact ⟨after, by simp [callStep, Linkst.call, taken], remembers⟩
  | joined idxA idxB =>
    obtain ⟨code, answered, _⟩ := remembers.joined idxA idxB
    refine ⟨linkst, by simp [callStep, Linkst.call, answered], remembers.formed,
      remembers.limit, fun c d => ?_⟩
    rw [remembers.up, Linked, Linked, since_snoc]
    simp [Call.Joins, Call.Parts]
  | disjoin idx =>
    obtain ⟨after, code, taken, remembers⟩ := remembers.disjoin idx now
    exact ⟨after, by simp [callStep, Linkst.call, taken], remembers⟩

end Remembers

/-- Every run of calls has a result, and the matrix remembers it. -/
theorem calls_remembered (upperLimit timeoutSec : Nat) (small : upperLimit + 5 < 2 ^ 32)
    (calls : List Call) : ∃ linkst,
      run callStep (linkstNew upperLimit timeoutSec) calls = some linkst ∧
        Remembers upperLimit calls linkst := by
  induction calls using List.reverseRecOn with
  | nil => exact ⟨_, rfl, remembers_new upperLimit timeoutSec small⟩
  | append_singleton past call inductionHypothesis =>
    obtain ⟨before, early, remembers⟩ := inductionHypothesis
    obtain ⟨after, taken, remembers⟩ := remembers.step call
    exact ⟨after, run_extend callStep _ before after past call early taken, remembers⟩

/-! ## The relation -/

/-- The calls answer as a set of unordered pairs would, and never leave the matrix. -/
structure Refines (upperLimit : Nat) (calls : List Call) (linkst : Linkst) : Prop where
  joined : ∀ idxA idxB, ∃ code, linkstJoined linkst idxA idxB = some code ∧
    (code = 1 ↔ Linked upperLimit idxA idxB calls)
  join : ∀ idxA idxB now, ∃ after code, linkstJoin linkst idxA idxB now = some (after, code) ∧
    (code = -1 ↔ ¬ Within upperLimit idxA idxB)
  disjoin : ∀ idx, ∃ after code, linkstDisjoin linkst idx = some (after, code)

/-- After any calls, a pair is linked exactly if it was joined and neither of its indexes was
disjoined since; a join fails exactly on indexes that are not within the limit.

Proof: induction over the calls: the bits of the matrix are those of the pairs that the
history leaves linked, through every growth of the triangle. -/
theorem link_relation (upperLimit timeoutSec : Nat) (small : upperLimit + 5 < 2 ^ 32)
    (calls : List Call) : ∃ linkst,
      run callStep (linkstNew upperLimit timeoutSec) calls = some linkst ∧
        Refines upperLimit calls linkst := by
  obtain ⟨linkst, reached, remembers⟩ :=
    calls_remembered upperLimit timeoutSec small calls
  refine ⟨linkst, reached, remembers.joined, ?_, ?_⟩
  · intro idxA idxB now
    obtain ⟨after, taken, _⟩ := remembers.join idxA idxB now
    refine ⟨after, _, taken, ?_⟩
    by_cases within : Within upperLimit idxA idxB
    · simp [within]
    · simp [within]
  · intro idx
    obtain ⟨after, code, taken, _⟩ := remembers.disjoin idx 0
    exact ⟨after, code, taken⟩

/-- Links grow over the limit of the matrix, and one index is disjoined. -/
def sampleCalls : List Call :=
  [⟨.join 1 2, 0⟩, ⟨.join 7 1, 0⟩, ⟨.join 100 1, 1⟩, ⟨.joined 2 1, 2⟩, ⟨.join 101 1, 3⟩,
    ⟨.disjoin 7, 4⟩]

theorem sampleCalls_relation : ∃ linkst,
    run callStep (linkstNew 100 3) sampleCalls = some linkst ∧ Refines 100 sampleCalls linkst :=
  link_relation 100 3 (by decide) sampleCalls

/-! ## Expiry -/

/-- The time of the latest join of a pair. -/
def latestJoin (upperLimit idxA idxB : Nat) (calls : List Call) : Option Nat :=
  (calls.filter fun call => call.Joins upperLimit idxA idxB).getLast?.map Call.now

/-- The latest join of the pair was less than the timeout ago. -/
def Fresh (upperLimit timeoutSec idxA idxB now : Nat) (calls : List Call) : Prop :=
  ∃ time, latestJoin upperLimit idxA idxB calls = some time ∧ now < time + timeoutSec

/-- Whenever linkst_joined answers that a pair is linked, the pair is fresh. -/
def LinksExpire (upperLimit timeoutSec : Nat) (calls : List Call) : Prop :=
  ∀ past idxA idxB now, past ++ [⟨.joined idxA idxB, now⟩] <+: calls →
    ∀ linkst, run callStep (linkstNew upperLimit timeoutSec) past = some linkst →
      linkstJoined linkst idxA idxB = some 1 → Fresh upperLimit timeoutSec idxA idxB now past

/-- No question is asked about a pair whose latest join is as old as the timeout, unless one of
its indexes was disjoined since a join of it. -/
def AskedInTime (upperLimit timeoutSec : Nat) (calls : List Call) : Prop :=
  ∀ past idxA idxB now, past ++ [⟨.joined idxA idxB, now⟩] <+: calls →
    Linked upperLimit idxA idxB past → Fresh upperLimit timeoutSec idxA idxB now past

/-- Links expire exactly in runs that never ask for one that has expired: the timeout is not
looked at.

Proof: linkst_joined answers for a pair what the history of calls says of it, without the
time; so a pair is asked for too late exactly where a link is found too late. -/
theorem links_expire_iff (upperLimit timeoutSec : Nat) (small : upperLimit + 5 < 2 ^ 32)
    (calls : List Call) :
    LinksExpire upperLimit timeoutSec calls ↔ AskedInTime upperLimit timeoutSec calls := by
  refine forall_congr' fun past => forall_congr' fun idxA => forall_congr' fun idxB =>
    forall_congr' fun now => imp_congr_right fun _ => ?_
  obtain ⟨linkst, reached, remembers⟩ := calls_remembered upperLimit timeoutSec small past
  have answer : linkstJoined linkst idxA idxB = some 1 ↔ Linked upperLimit idxA idxB past := by
    rw [remembers.formed.joined_iff, remembers.up]
  constructor
  · intro expire linked
    exact expire linkst reached (answer.mpr linked)
  · intro asked other again answered
    obtain rfl := Option.some.inj (again.symm.trans reached)
    exact asked (answer.mp answered)

/-- A link is asked for in time, and again after it was taken away. -/
def promptCalls : List Call :=
  [⟨.join 1 2, 0⟩, ⟨.joined 2 1, 2⟩, ⟨.disjoin 1, 3⟩, ⟨.joined 1 2, 9⟩]

theorem promptCalls_expire : LinksExpire 100 3 promptCalls := by
  refine (links_expire_iff 100 3 (by decide) promptCalls).mpr ?_
  intro past idxA idxB now within linked
  have parted : ∀ late, ¬ Linked 100 1 2 [⟨.join 1 2, 0⟩, late, ⟨.disjoin 1, 3⟩] := by
    intro late
    rw [Linked, show [_, late, _] = [⟨.join 1 2, 0⟩, late] ++ [⟨.disjoin 1, 3⟩] from rfl,
      since_snoc]
    simp [Call.Joins, Call.Parts]
  rcases past with _ | ⟨first, _ | ⟨second, _ | ⟨third, _ | ⟨fourth, rest⟩⟩⟩⟩
  · simp [promptCalls] at within
  · obtain ⟨rfl, ⟨rfl, rfl⟩, rfl⟩ : first = ⟨.join 1 2, 0⟩ ∧ (idxA = 2 ∧ idxB = 1) ∧ now = 2 := by
      simpa [promptCalls] using within
    exact ⟨0, by decide, by decide⟩
  · simp [promptCalls] at within
  · obtain ⟨rfl, rfl, rfl, ⟨rfl, rfl⟩, rfl⟩ : first = ⟨.join 1 2, 0⟩ ∧ second = ⟨.joined 2 1, 2⟩ ∧
        third = ⟨.disjoin 1, 3⟩ ∧ (idxA = 1 ∧ idxB = 2) ∧ now = 9 := by
      simpa [promptCalls] using within
    exact absurd linked (parted _)
  · simp [promptCalls] at within

/-- A link of three seconds is asked for after four. -/
def lateCalls : List Call := [⟨.join 1 2, 0⟩, ⟨.joined 1 2, 4⟩]

/-- The clock goes forward, and the link is reported when it is older than its timeout. -/
theorem lateCalls_linked : lateCalls.Pairwise (fun early late => early.now ≤ late.now) ∧
    ((run callStep (linkstNew 100 3) [⟨.join 1 2, 0⟩]).bind fun linkst =>
      linkstJoined linkst 1 2) = some 1 ∧
    ¬ LinksExpire 100 3 lateCalls := by
  have reported : ((run callStep (linkstNew 100 3) [⟨.join 1 2, 0⟩]).bind fun linkst =>
      linkstJoined linkst 1 2) = some 1 := by decide
  refine ⟨by decide, reported, fun expire => ?_⟩
  obtain ⟨linkst, reached, answered⟩ := Option.bind_eq_some_iff.mp reported
  obtain ⟨time, latest, fresh⟩ := expire [⟨.join 1 2, 0⟩] 1 2 4 (List.prefix_refl _) linkst reached
    answered
  have start : latestJoin 100 1 2 [⟨.join 1 2, 0⟩] = some 0 := by decide
  rw [start, Option.some.injEq] at latest
  omega

end NetVirt.LinkStates
