import NetVirt.Runs
import Mathlib.Data.List.Nodup
import Mathlib.Logic.Function.Basic

/-!
# Tickets

A name is issued a ticket with a key on it. The ticket is used with its key, once and only
while it is valid; another one is issued in its place when it was used or may be renewed.
What matters of the past is the last ticket of each name. If no key is issued twice, then no
key is used twice, by whichever name.
-/

namespace NetVirt.Tickets

open Runs

universe u v w
variable {Name : Type u} {Key : Type v} {Time : Type w}

/-- The last ticket of a name. -/
inductive Ticket (Key : Type v) (Time : Type w) where
  | none
  | issued (key : Key) (since : Time)
  | used (key : Key)

def Ticket.key : Ticket Key Time → Option Key
  | none => Option.none
  | issued key _ => some key
  | used key => some key

inductive Action (Name : Type u) (Key : Type v) (Time : Type w) where
  | issue (name : Name) (key : Key) (time : Time)
  | use (name : Name) (key : Key) (time : Time)
deriving DecidableEq

/-- The keys that are issued, in order. -/
def issuedKeys (history : List (Action Name Key Time)) : List Key := history.filterMap fun
  | .issue _ key _ => some key
  | .use _ _ _ => none

/-- The keys that are used, in order. -/
def usedKeys (history : List (Action Name Key Time)) : List Key := history.filterMap fun
  | .issue _ _ _ => none
  | .use _ key _ => some key

theorem nodup_snoc (keys : List Key) (key : Key) :
    (keys ++ [key]).Nodup ↔ keys.Nodup ∧ key ∉ keys := by
  rw [← List.concat_eq_append, List.nodup_concat]
  exact and_comm

/-- A key that was there before or is issued in the history. -/
def Known (first : Name → Ticket Key Time) (history : List (Action Name Key Time)) (key : Key) :
    Prop :=
  key ∈ issuedKeys history ∨ ∃ name, (first name).key = some key

variable {first : Name → Ticket Key Time} {history : List (Action Name Key Time)}

/-- What is known stays known. -/
theorem Known.snoc {key : Key} (known : Known first history key)
    (action : Action Name Key Time) : Known first (history ++ [action]) key :=
  known.imp (fun issued => by
    rw [issuedKeys, List.filterMap_append]
    exact List.mem_append_left _ issued) id

variable [DecidableEq Name]

def advance (desk : Name → Ticket Key Time) : Action Name Key Time → Name → Ticket Key Time
  | .issue name key time => Function.update desk name (.issued key time)
  | .use name key _ => Function.update desk name (.used key)

/-- A ticket is used while it is valid, and replaced if it may be renewed or was used. -/
def Permitted (valid renewable : Time → Time → Prop) (desk : Name → Ticket Key Time) :
    Action Name Key Time → Prop
  | .issue name _ time => ∀ key since, desk name = .issued key since → renewable since time
  | .use name key time => ∃ since, desk name = .issued key since ∧ valid since time

/-- No two names have a ticket with the same key. -/
def Apart (desk : Name → Ticket Key Time) : Prop :=
  ∀ one other key, (desk one).key = some key → (desk other).key = some key → one = other

/-- What a history leaves when no key is issued twice: every key belongs to one name, and a
ticket that is still to be used has a key that was not. -/
structure Sound (first : Name → Ticket Key Time) (history : List (Action Name Key Time)) :
    Prop where
  apart : Apart (history.foldl advance first)
  known : ∀ name key, (history.foldl advance first name).key = some key →
    Known first history key
  spent : ∀ key ∈ usedKeys history, Known first history key
  unused : ∀ name key since, history.foldl advance first name = .issued key since →
    key ∉ usedKeys history
  once : (usedKeys history).Nodup

theorem sound_nil (first : Name → Ticket Key Time) (apart : Apart first) : Sound first [] where
  apart := apart
  known := fun name _ held => .inr ⟨name, held⟩
  spent := by simp [usedKeys]
  unused := by simp [usedKeys]
  once := by simp [usedKeys]

/-- A name that is given a ticket with a key of nobody else. -/
theorem apart_update (desk : Name → Ticket Key Time) (name : Name) (ticket : Ticket Key Time)
    (apart : Apart desk)
    (alone : ∀ other key, ticket.key = some key → (desk other).key = some key → other = name) :
    Apart (Function.update desk name ticket) := by
  intro one other key left right
  by_cases isOne : one = name <;> by_cases isOther : other = name
  · rw [isOne, isOther]
  · simp only [isOne, Function.update_self, Function.update_of_ne isOther] at left right
    exact absurd (alone other key left right) isOther
  · simp only [isOther, Function.update_self, Function.update_of_ne isOne] at left right
    exact absurd (alone one key right left) isOne
  · rw [Function.update_of_ne isOne] at left
    rw [Function.update_of_ne isOther] at right
    exact apart one other key left right

/-- A key that is not known yet is issued. -/
theorem Sound.issue (sound : Sound first history) (name : Name) (key : Key) (time : Time)
    (unknown : ¬ Known first history key) : Sound first (history ++ [.issue name key time]) where
  apart := by
    rw [List.foldl_concat]
    refine apart_update _ name _ sound.apart ?_
    rintro other _ ⟨rfl⟩ held
    exact absurd (sound.known other key held) unknown
  known := by
    intro other held holds
    rw [List.foldl_concat, advance] at holds
    by_cases same : other = name
    · obtain rfl : key = held := by simpa [same, Ticket.key] using holds
      exact .inl (by simp [issuedKeys])
    · rw [Function.update_of_ne same] at holds
      exact (sound.known other held holds).snoc _
  spent := by
    intro used inside
    exact (sound.spent used (by simpa [usedKeys] using inside)).snoc _
  unused := by
    intro other held since holds inside
    have before : held ∈ usedKeys history := by simpa [usedKeys] using inside
    rw [List.foldl_concat, advance] at holds
    by_cases same : other = name
    · obtain ⟨rfl, -⟩ : key = held ∧ time = since := by simpa [same] using holds
      exact unknown (sound.spent key before)
    · rw [Function.update_of_ne same] at holds
      exact sound.unused other held since holds before
  once := by simpa [usedKeys] using sound.once

/-- The last ticket of a name is used. -/
theorem Sound.use (sound : Sound first history) (name : Name) (key : Key) (since time : Time)
    (held : history.foldl advance first name = .issued key since) :
    Sound first (history ++ [.use name key time]) where
  apart := by
    rw [List.foldl_concat]
    refine apart_update _ name _ sound.apart ?_
    rintro other _ ⟨rfl⟩ holds
    exact sound.apart other name key holds (by simp [held, Ticket.key])
  known := by
    intro other found holds
    rw [List.foldl_concat, advance] at holds
    by_cases same : other = name
    · obtain rfl : key = found := by simpa [same, Ticket.key] using holds
      exact (sound.known name key (by simp [held, Ticket.key])).snoc _
    · rw [Function.update_of_ne same] at holds
      exact (sound.known other found holds).snoc _
  spent := by
    intro used inside
    obtain before | rfl : used ∈ usedKeys history ∨ used = key := by
      simpa [usedKeys] using inside
    · exact (sound.spent used before).snoc _
    · exact (sound.known name used (by simp [held, Ticket.key])).snoc _
  unused := by
    intro other found since' holds inside
    rw [List.foldl_concat, advance] at holds
    by_cases same : other = name
    · simp [same] at holds
    · rw [Function.update_of_ne same] at holds
      obtain before | rfl : found ∈ usedKeys history ∨ found = key := by
        simpa [usedKeys] using inside
      · exact sound.unused other found since' holds before
      · exact same (sound.apart other name found (by simp [holds, Ticket.key])
          (by simp [held, Ticket.key]))
  once := by
    have new : key ∉ usedKeys history := sound.unused name key since held
    have last : usedKeys (history ++ [.use name key time]) = usedKeys history ++ [key] := by
      simp [usedKeys]
    rw [last, nodup_snoc]
    exact ⟨sound.once, new⟩

/-- If no key is issued twice, no key is used twice. -/
theorem used_once (valid renewable : Time → Time → Prop) (first : Name → Ticket Key Time)
    (history : List (Action Name Key Time)) (apart : Apart first)
    (distinct : (issuedKeys history).Nodup)
    (fresh : ∀ key ∈ issuedKeys history, ∀ name, (first name).key ≠ some key)
    (guarded : Guarded advance first (Permitted valid renewable) history) :
    (usedKeys history).Nodup := by
  suffices sound : Sound first history from sound.once
  induction history using List.reverseRecOn with
  | nil => exact sound_nil first apart
  | append_singleton past action inductionHypothesis =>
    obtain ⟨earlier, last⟩ := (guarded_snoc advance first _ past action).mp guarded
    cases action with
    | issue name key time =>
      have keys : issuedKeys (past ++ [.issue name key time]) = issuedKeys past ++ [key] := by
        simp [issuedKeys]
      rw [keys] at distinct fresh
      obtain ⟨before, new⟩ := (nodup_snoc _ key).mp distinct
      have sound := inductionHypothesis before
        (fun known issued => fresh known (List.mem_append_left _ issued)) earlier
      refine sound.issue name key time ?_
      rintro (issued | ⟨other, held⟩)
      · exact new issued
      · exact fresh key (by simp) other held
    | use name key time =>
      have keys : issuedKeys (past ++ [.use name key time]) = issuedKeys past := by
        simp [issuedKeys]
      rw [keys] at distinct fresh
      obtain ⟨since, held, _⟩ := last
      exact (inductionHypothesis distinct fresh earlier).use name key since time held

end NetVirt.Tickets
