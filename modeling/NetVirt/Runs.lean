import Mathlib.Data.List.Induction

/-!
# Runs of a partial step function

A step function returns no state when the event is impossible or when the
program has no defined behaviour there. A run is defined exactly when each of its
steps is. The induction rules below are the only inductions over event lists that
the developments using them need: an invariant under a condition on the steps, and
an invariant that also mentions the events taken so far.
-/

namespace NetVirt.Runs

universe u v
variable {State : Type u} {Event : Type v}

/-- Take the events in order. A step without a result leaves the run without one. -/
def run (step : State → Event → Option State) : State → List Event → Option State
  | state, [] => some state
  | state, event :: rest => (step state event).bind fun next => run step next rest

/-- Every step that the run takes meets the condition on its state and event. -/
def Meets (step : State → Event → Option State) (condition : State → Event → Prop) :
    State → List Event → Prop
  | _, [] => True
  | state, event :: rest => condition state event ∧
      ∀ next, step state event = some next → Meets step condition next rest

variable (step : State → Event → Option State)

/-- A decidable condition is checked along a run by taking its steps. -/
def decideMeets (condition : State → Event → Prop)
    [checked : ∀ state event, Decidable (condition state event)] :
    ∀ start events, Decidable (Meets step condition start events)
  | _, [] => isTrue trivial
  | state, event :: rest =>
    match taken : step state event with
    | none => decidable_of_iff (condition state event)
        ⟨fun now => ⟨now, fun next reached => by simp [taken] at reached⟩, And.left⟩
    | some next =>
      have := decideMeets condition next rest
      decidable_of_iff (condition state event ∧ Meets step condition next rest)
        ⟨fun both => ⟨both.1, fun other reached => by
            rw [taken, Option.some.injEq] at reached
            exact reached ▸ both.2⟩,
          fun both => ⟨both.1, both.2 next taken⟩⟩

instance (condition : State → Event → Prop) [∀ state event, Decidable (condition state event)]
    (start : State) (events : List Event) : Decidable (Meets step condition start events) :=
  decideMeets step condition start events

/-- A run over two lists is the second run from the state the first one reaches. -/
theorem run_append (start : State) (early late : List Event) :
    run step start (early ++ late) = (run step start early).bind fun middle =>
      run step middle late := by
  induction early generalizing start with
  | nil => rfl
  | cons event rest inductionHypothesis =>
    cases taken : step start event with
    | none => simp [run, taken]
    | some next => simpa [run, taken] using inductionHypothesis next

/-- The last step of a run is taken from the state its earlier events reach. -/
theorem run_snoc (start final : State) (events : List Event) (event : Event)
    (reached : run step start (events ++ [event]) = some final) :
    ∃ before, run step start events = some before ∧ step before event = some final := by
  rw [run_append] at reached
  obtain ⟨before, early, late⟩ := Option.bind_eq_some_iff.mp reached
  refine ⟨before, early, ?_⟩
  simpa [run] using late

/-- Extending a run by one defined step. -/
theorem run_extend (start before final : State) (events : List Event) (event : Event)
    (reached : run step start events = some before) (taken : step before event = some final) :
    run step start (events ++ [event]) = some final := by
  rw [run_append, reached]
  simp [run, taken]

/-- What a count on the state and event of each step adds up to. -/
def tally (step : State → Event → Option State) (count : State → Event → Nat) :
    State → List Event → Nat
  | _, [] => 0
  | state, event :: rest => count state event +
      ((step state event).map fun next => tally step count next rest).getD 0

theorem tally_snoc (count : State → Event → Nat) (start before : State) (events : List Event)
    (event : Event) (reached : run step start events = some before) :
    tally step count start (events ++ [event]) =
      tally step count start events + count before event := by
  induction events generalizing start with
  | nil =>
    obtain rfl := Option.some.inj reached
    simp only [List.nil_append, tally]
    cases step start event <;> simp
  | cons first rest inductionHypothesis =>
    obtain ⟨next, taken, remaining⟩ := Option.bind_eq_some_iff.mp reached
    simp only [List.cons_append, tally, taken, Option.map_some, Option.getD_some,
      inductionHypothesis next remaining, Nat.add_assoc]

/-- A condition met along a run is met along its beginning and, from the state reached
there, along the rest. -/
theorem meets_append (condition : State → Event → Prop) (start : State)
    (early late : List Event) : Meets step condition start (early ++ late) ↔
      Meets step condition start early ∧
        ∀ middle, run step start early = some middle → Meets step condition middle late := by
  induction early generalizing start with
  | nil => simp [Meets, run]
  | cons event rest inductionHypothesis =>
    simp only [List.cons_append, Meets, inductionHypothesis, run, Option.bind_eq_some_iff,
      forall_exists_index, and_imp]
    constructor
    · rintro ⟨now, after⟩
      exact ⟨⟨now, fun next taken => (after next taken).1⟩,
        fun middle next taken reached => (after next taken).2 middle reached⟩
    · rintro ⟨⟨now, after⟩, later⟩
      exact ⟨now, fun next taken => ⟨after next taken, fun middle reached =>
        later middle next taken reached⟩⟩

/-- A condition is met along a run with one more event when that event meets it too. -/
theorem meets_snoc (condition : State → Event → Prop) (start middle : State)
    (early : List Event) (event : Event) (reached : run step start early = some middle) :
    Meets step condition start (early ++ [event]) ↔
      Meets step condition start early ∧ condition middle event := by
  rw [meets_append]
  apply and_congr_right
  intro _
  constructor
  · exact fun late => (late middle reached).1
  · intro now other there
    obtain rfl := Option.some.inj (reached.symm.trans there)
    exact ⟨now, fun _ _ => trivial⟩

/-- A condition is met along a run when it holds at each of its steps. -/
theorem meets_iff_forall (condition : State → Event → Prop) (start : State)
    (events : List Event) : Meets step condition start events ↔
      ∀ past event, past ++ [event] <+: events → ∀ state, run step start past = some state →
        condition state event := by
  induction events generalizing start with
  | nil => simp [Meets]
  | cons first rest inductionHypothesis =>
    simp only [Meets, inductionHypothesis]
    constructor
    · rintro ⟨now, later⟩ past event within state reached
      cases past with
      | nil =>
        obtain ⟨rfl, _⟩ := List.cons_prefix_cons.mp within
        obtain rfl := Option.some.inj reached
        exact now
      | cons earlier past =>
        obtain ⟨rfl, inside⟩ := List.cons_prefix_cons.mp within
        obtain ⟨next, taken, remaining⟩ := Option.bind_eq_some_iff.mp reached
        exact later next taken past event inside state remaining
    · intro always
      refine ⟨always [] first (by simp) start rfl, ?_⟩
      intro next taken past event within state reached
      refine always (first :: past) event (List.cons_prefix_cons.mpr ⟨rfl, within⟩) state ?_
      simpa [run, taken] using reached

/-- The steps of a program beside a record of its events. -/
def beside {Record : Type*} (step : State → Event → Option State)
    (record : Record → Event → Record) (both : State × Record) (event : Event) :
    Option (State × Record) :=
  (step both.1 event).map fun next => (next, record both.2 event)

theorem run_beside {Record : Type*} (record : Record → Event → Record) (start : State)
    (first : Record) (events : List Event) :
    run (beside step record) (start, first) events =
      (run step start events).map fun final => (final, events.foldl record first) := by
  induction events generalizing start first with
  | nil => rfl
  | cons event rest inductionHypothesis =>
    cases taken : step start event with
    | none => simp [run, beside, taken]
    | some next => simp [run, beside, taken, inductionHypothesis]

/-- A condition that does not look at the record. -/
theorem meets_beside {Record : Type*} (record : Record → Event → Record)
    (condition : State → Event → Prop) (start : State) (first : Record) (events : List Event) :
    Meets (beside step record) (fun both => condition both.1) (start, first) events ↔
      Meets step condition start events := by
  induction events generalizing start first with
  | nil => exact Iff.rfl
  | cons event rest inductionHypothesis =>
    cases taken : step start event with
    | none => simp [Meets, beside, taken]
    | some next => simp [Meets, beside, taken, inductionHypothesis]

/-- An invariant that every step meeting the condition preserves holds at the end of a
run whose steps all meet it. -/
theorem invariant_under (condition : State → Event → Prop) (Holds : State → Prop)
    (preserved : ∀ state event next, Holds state → condition state event →
      step state event = some next → Holds next)
    (start final : State) (events : List Event) (initial : Holds start)
    (met : Meets step condition start events) (reached : run step start events = some final) :
    Holds final := by
  induction events generalizing start with
  | nil =>
    have same : start = final := Option.some.inj reached
    exact same ▸ initial
  | cons event rest inductionHypothesis =>
    obtain ⟨next, taken, remaining⟩ := Option.bind_eq_some_iff.mp reached
    exact inductionHypothesis next (preserved start event next initial met.1 taken)
      (met.2 next taken) remaining

/-- A condition that always holds is met along every run. -/
theorem meets_always (condition : State → Event → Prop)
    (always : ∀ state event, condition state event) (start : State) (events : List Event) :
    Meets step condition start events := by
  induction events generalizing start with
  | nil => trivial
  | cons event rest inductionHypothesis =>
    exact ⟨always start event, fun next _ => inductionHypothesis next⟩

/-- A condition on the events alone is met along a run of events that satisfy it. -/
theorem meets_of_allowed (Allowed : Event → Prop) (start : State) (events : List Event)
    (allowed : ∀ event ∈ events, Allowed event) :
    Meets step (fun _ event => Allowed event) start events := by
  induction events generalizing start with
  | nil => trivial
  | cons event rest inductionHypothesis =>
    exact ⟨allowed event List.mem_cons_self, fun next _ => inductionHypothesis next
      fun other inside => allowed other (List.mem_cons_of_mem event inside)⟩

/-- A condition that follows from another one is met along the same runs. -/
theorem meets_mono (strong weak : State → Event → Prop)
    (enough : ∀ state event, strong state event → weak state event)
    (start : State) (events : List Event) (met : Meets step strong start events) :
    Meets step weak start events := by
  induction events generalizing start with
  | nil => trivial
  | cons event rest inductionHypothesis =>
    exact ⟨enough start event met.1, fun next taken => inductionHypothesis next (met.2 next taken)⟩

/-- Two conditions are met along a run when each of them is. -/
theorem meets_and (left right : State → Event → Prop) (start : State) (events : List Event) :
    Meets step (fun state event => left state event ∧ right state event) start events ↔
      Meets step left start events ∧ Meets step right start events := by
  induction events generalizing start with
  | nil => exact (and_iff_left trivial).symm
  | cons event rest inductionHypothesis =>
    simp only [Meets, inductionHypothesis]
    constructor
    · rintro ⟨⟨now, now'⟩, later⟩
      exact ⟨⟨now, fun next taken => (later next taken).1⟩,
        now', fun next taken => (later next taken).2⟩
    · rintro ⟨⟨now, later⟩, now', later'⟩
      exact ⟨⟨now, now'⟩, fun next taken => ⟨later next taken, later' next taken⟩⟩

/-- An invariant preserved by every step holds in every state a run reaches. -/
theorem invariant (Holds : State → Prop)
    (preserved : ∀ state event next, Holds state → step state event = some next → Holds next)
    (start final : State) (events : List Event) (initial : Holds start)
    (reached : run step start events = some final) : Holds final := by
  exact invariant_under step (fun _ _ => True) Holds
    (fun state event next holds _ => preserved state event next holds)
    start final events initial (meets_always step _ (fun _ _ => trivial) start events) reached

/-- An invariant preserved by every allowed event holds at the end of a run of them. -/
theorem invariant_of_allowed (Allowed : Event → Prop) (Holds : State → Prop)
    (preserved : ∀ state event next, Holds state → Allowed event →
      step state event = some next → Holds next)
    (start final : State) (events : List Event) (initial : Holds start)
    (allowed : ∀ event ∈ events, Allowed event) (reached : run step start events = some final) :
    Holds final := by
  induction events generalizing start with
  | nil =>
    have same : start = final := Option.some.inj reached
    exact same ▸ initial
  | cons event rest inductionHypothesis =>
    obtain ⟨next, taken, remaining⟩ := Option.bind_eq_some_iff.mp reached
    have now := allowed event List.mem_cons_self
    exact inductionHypothesis next (preserved start event next initial now taken)
      (fun other inside => allowed other (List.mem_cons_of_mem event inside)) remaining

/-- Two conditions that agree wherever an invariant holds are met along the same runs. -/
theorem meets_congr (Holds : State → Prop) (left right : State → Event → Prop)
    (preserved : ∀ state event next, Holds state → step state event = some next → Holds next)
    (agree : ∀ state event, Holds state → (left state event ↔ right state event))
    (start : State) (events : List Event) (initial : Holds start) :
    Meets step left start events ↔ Meets step right start events := by
  induction events generalizing start with
  | nil => exact Iff.rfl
  | cons event rest inductionHypothesis =>
    apply and_congr (agree start event initial)
    apply forall_congr'
    intro next
    apply imp_congr_right
    intro taken
    exact inductionHypothesis next (preserved start event next initial taken)

/-- What the steps of a run do and a condition on them agree along a run when they agree
wherever an invariant holds, and the condition keeps the invariant. -/
theorem meets_iff_under (Strong : State → Prop) (good condition : State → Event → Prop)
    (agree : ∀ state event, Strong state → (good state event ↔ condition state event))
    (kept : ∀ state event next, Strong state → condition state event →
      step state event = some next → Strong next)
    (start : State) (events : List Event) (initial : Strong start) :
    Meets step good start events ↔ Meets step condition start events := by
  induction events generalizing start with
  | nil => exact Iff.rfl
  | cons event rest inductionHypothesis =>
    have now := agree start event initial
    constructor
    · rintro ⟨met, after⟩
      refine ⟨now.mp met, fun next taken => ?_⟩
      exact (inductionHypothesis next (kept start event next initial (now.mp met) taken)).mp
        (after next taken)
    · rintro ⟨met, after⟩
      refine ⟨now.mpr met, fun next taken => ?_⟩
      exact (inductionHypothesis next (kept start event next initial met taken)).mpr
        (after next taken)

/-- An invariant about the events taken so far as well as the state. The induction
appends one event at the end; the condition may be used at each step. -/
theorem history_under (condition : State → Event → Prop) (Holds : List Event → State → Prop)
    (start : State)
    (preserved : ∀ past state event next, run step start past = some state → Holds past state →
      condition state event → step state event = some next → Holds (past ++ [event]) next)
    (final : State) (events : List Event) (initial : Holds [] start)
    (met : Meets step condition start events) (reached : run step start events = some final) :
    Holds events final := by
  induction events using List.reverseRecOn generalizing final with
  | nil =>
    have same : start = final := Option.some.inj reached
    exact same ▸ initial
  | append_singleton past event inductionHypothesis =>
    obtain ⟨before, early, taken⟩ := run_snoc step start final past event reached
    obtain ⟨metEarly, now⟩ := (meets_snoc step condition start before past event early).mp met
    exact preserved past before event final early (inductionHypothesis before metEarly early) now
      taken

/-- An invariant about the events taken so far as well as the state that every step
preserves. -/
theorem history_invariant (Holds : List Event → State → Prop) (start : State)
    (preserved : ∀ past state event next, run step start past = some state → Holds past state →
      step state event = some next → Holds (past ++ [event]) next)
    (final : State) (events : List Event) (initial : Holds [] start)
    (reached : run step start events = some final) : Holds events final := by
  exact history_under step (fun _ _ => True) Holds start
    (fun past state event next early holds _ taken =>
      preserved past state event next early holds taken)
    final events initial (meets_always step _ (fun _ _ => trivial) start events) reached

/-- A property of the events taken so far and the state holds all along a run exactly when
every step meets a condition, if a step from where it holds leads to where it holds exactly
under that condition. -/
theorem history_along_iff (Holds : List Event → State → Prop)
    (condition : List Event → State → Event → Prop) (start : State) (initial : Holds [] start)
    (exact_step : ∀ past state event next, run step start past = some state → Holds past state →
      step state event = some next → (Holds (past ++ [event]) next ↔ condition past state event))
    (events : List Event) :
    (∀ past, past <+: events → ∀ state, run step start past = some state → Holds past state) ↔
      ∀ past event, past ++ [event] <+: events → ∀ state next, run step start past = some state →
        step state event = some next → condition past state event := by
  constructor
  · intro always past event within state next reached taken
    have before := always past ((List.prefix_append past [event]).trans within) state reached
    have after := always (past ++ [event]) within next
      (run_extend step start state next past event reached taken)
    exact (exact_step past state event next reached before taken).mp after
  · intro met past
    induction past using List.reverseRecOn with
    | nil =>
      intro _ state reached
      obtain rfl := Option.some.inj reached
      exact initial
    | append_singleton past event inductionHypothesis =>
      intro within next reached
      obtain ⟨state, early, taken⟩ := run_snoc step start next past event reached
      have before := inductionHypothesis ((List.prefix_append past [event]).trans within) state
        early
      exact (exact_step past state event next early before taken).mpr
        (met past event within state next early taken)

/-- A property holds in every state along a run exactly when every step meets a condition:
the condition keeps a stronger property, and a step that does not meet it breaks the
weaker one at once. -/
theorem holds_along_iff (Allowed : Event → Prop) (condition : State → Event → Prop)
    (Strong Holds : State → Prop) (sound : ∀ state, Strong state → Holds state)
    (kept : ∀ state event next, Strong state → Allowed event → condition state event →
      step state event = some next → Strong next)
    (broken : ∀ state event next, Strong state → Allowed event → ¬ condition state event →
      step state event = some next → ¬ Holds next)
    (start final : State) (events : List Event) (initial : Strong start)
    (allowed : ∀ event ∈ events, Allowed event) (reached : run step start events = some final) :
    (∀ past, past <+: events → ∀ state, run step start past = some state → Holds state) ↔
      Meets step condition start events := by
  induction events generalizing start with
  | nil =>
    constructor
    · exact fun _ => trivial
    · intro _ past early state stopped
      rw [List.prefix_nil.mp early] at stopped
      obtain rfl := Option.some.inj stopped
      exact sound _ initial
  | cons event rest inductionHypothesis =>
    obtain ⟨next, taken, remaining⟩ := Option.bind_eq_some_iff.mp reached
    have now := allowed event List.mem_cons_self
    have later := fun strong => inductionHypothesis next strong
      (fun other inside => allowed other (List.mem_cons_of_mem event inside)) remaining
    constructor
    · intro always
      have after : Holds next := always [event] (by simp) next (by simp [run, taken])
      have met : condition start event := by
        by_contra unmet
        exact broken start event next initial now unmet taken after
      refine ⟨met, fun other reached => ?_⟩
      obtain rfl := Option.some.inj (taken.symm.trans reached)
      refine (later (kept start event next initial now met taken)).mp ?_
      intro past early state stopped
      refine always (event :: past) (List.cons_prefix_cons.mpr ⟨rfl, early⟩) state ?_
      simpa [run, taken] using stopped
    · rintro ⟨met, after⟩ past early state stopped
      cases past with
      | nil =>
        obtain rfl := Option.some.inj stopped
        exact sound _ initial
      | cons first past =>
        obtain ⟨rfl, within⟩ := List.cons_prefix_cons.mp early
        refine (later (kept start first next initial now met taken)).mpr (after next taken)
          past within state ?_
        simpa [run, taken] using stopped

/-! ## Histories -/

section Histories
universe w
variable {Stage : Type u} {Action : Type w} (advance : Stage → Action → Stage) (first : Stage)
  (permitted : Stage → Action → Prop)

/-- Every action of a history is permitted at the stage that the earlier ones lead to. -/
def Guarded (history : List Action) : Prop :=
  ∀ past action late, history = past ++ action :: late →
    permitted (past.foldl advance first) action

theorem guarded_nil : Guarded advance first permitted [] := by
  intro past action late split
  simp at split

/-- The last action of a history is the only new one. -/
theorem guarded_snoc (history : List Action) (action : Action) :
    Guarded advance first permitted (history ++ [action]) ↔
      Guarded advance first permitted history ∧
        permitted (history.foldl advance first) action := by
  constructor
  · intro guarded
    refine ⟨fun past earlier late split => ?_, guarded history action [] rfl⟩
    exact guarded past earlier (late ++ [action]) (by simp [split])
  · rintro ⟨guarded, last⟩ past earlier late split
    cases late using List.reverseRecOn with
    | nil =>
      obtain ⟨rfl, same⟩ := List.append_inj' split rfl
      obtain rfl := List.singleton_inj.mp same
      exact last
    | append_singleton late final =>
      rw [← List.cons_append, ← List.append_assoc] at split
      exact guarded past earlier late (List.append_inj' split rfl).1

/-- The first action of a history, and the others from the stage it leads to. -/
theorem guarded_cons (action : Action) (history : List Action) :
    Guarded advance first permitted (action :: history) ↔
      permitted first action ∧ Guarded advance (advance first action) permitted history := by
  constructor
  · intro guarded
    refine ⟨guarded [] action history rfl, fun past later late split => ?_⟩
    exact guarded (action :: past) later late (by simp [split])
  · rintro ⟨now, guarded⟩ past later late split
    cases past with
    | nil =>
      obtain ⟨rfl, _⟩ := List.cons_eq_cons.mp split
      exact now
    | cons earlier past =>
      obtain ⟨rfl, rest⟩ := List.cons_eq_cons.mp split
      exact guarded past later late rest

/-- A history, and another one from the stage it leads to. -/
theorem guarded_append (early late : List Action) :
    Guarded advance first permitted (early ++ late) ↔
      Guarded advance first permitted early ∧
        Guarded advance (early.foldl advance first) permitted late := by
  induction early generalizing first with
  | nil => exact (and_iff_right (guarded_nil advance first permitted)).symm
  | cons action early inductionHypothesis =>
    rw [List.cons_append, guarded_cons, inductionHypothesis, guarded_cons, and_assoc,
      List.foldl_cons]

variable {advance first permitted} in
/-- The beginning of a guarded history is guarded. -/
theorem Guarded.early {past history : List Action}
    (guarded : Guarded advance first permitted history) (within : past <+: history) :
    Guarded advance first permitted past := by
  obtain ⟨late, rfl⟩ := within
  intro before action after split
  exact guarded before action (after ++ late) (by simp [split])

end Histories

section Since
universe w
variable {Action : Type w} (Starts Stops : Action → Prop)

/-- Something was started, and has not been stopped since. -/
def Since (history : List Action) : Prop :=
  ∃ past action late, history = past ++ action :: late ∧ Starts action ∧
    ∀ later ∈ late, ¬ Stops later

theorem not_since_nil : ¬ Since Starts Stops [] := by
  rintro ⟨past, action, late, split, _⟩
  simp at split

/-- The last action starts it, or leaves it going. -/
theorem since_snoc (history : List Action) (action : Action) :
    Since Starts Stops (history ++ [action]) ↔
      Starts action ∨ Since Starts Stops history ∧ ¬ Stops action := by
  constructor
  · rintro ⟨past, earlier, late, split, starts, going⟩
    cases late using List.reverseRecOn with
    | nil =>
      obtain ⟨_, same⟩ := List.append_inj' split rfl
      obtain rfl := List.singleton_inj.mp same
      exact Or.inl starts
    | append_singleton late final =>
      rw [← List.cons_append, ← List.append_assoc] at split
      obtain ⟨whole, same⟩ := List.append_inj' split rfl
      obtain rfl := List.singleton_inj.mp same
      have kept : ∀ later ∈ late, ¬ Stops later :=
        fun later inside => going later (List.mem_append_left _ inside)
      exact Or.inr ⟨⟨past, earlier, late, whole, starts, kept⟩, going action (by simp)⟩
  · rintro (starts | ⟨⟨past, earlier, late, rfl, starts, going⟩, still⟩)
    · exact ⟨history, action, [], rfl, starts, by simp⟩
    · refine ⟨past, earlier, late ++ [action], by simp, starts, ?_⟩
      intro later inside
      rcases List.mem_append.mp inside with before | last
      · exact going later before
      · rwa [List.mem_singleton.mp last]

end Since

end NetVirt.Runs
