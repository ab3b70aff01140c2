import Mathlib.Data.List.Basic

/-!
# Decoders that stop and go on

A decoder keeps what it knows of a value in its state, so that it can be given the bytes of
the value in pieces. It completes the value, wants more bytes or fails, and in each case
says how many of the given bytes it consumed; the others it must be given again. A decoder
that is stuck goes round without end and says nothing. A state awaits some bytes when the
decoder will complete on exactly these, however they are cut.

The receiver below keeps what was not consumed in front of what arrives next. It delivers
the values of a stream in order, each once, for every cut of the stream.
-/

namespace NetVirt.ResumableDecoders

universe u v w
variable {State : Type u} {Symbol : Type v} {Message : Type w}

inductive Outcome (State : Type u) where
  | done (state : State) (consumed : Nat)
  | more (state : State) (consumed : Nat)
  | failed (state : State) (consumed : Nat)
  | stuck (state : State)

def Outcome.state : Outcome State → State
  | .done state _ => state
  | .more state _ => state
  | .failed state _ => state
  | .stuck state => state

def Outcome.consumed : Outcome State → Nat
  | .done _ consumed => consumed
  | .more _ consumed => consumed
  | .failed _ consumed => consumed
  | .stuck _ => 0

/-- A relation between states and the bytes they still need. The decoder may look ahead at
what it does not consume, so that the bytes needed are those that were shown to it. -/
structure Resumes (decode : State → List Symbol → Outcome State) (Final : State → Prop)
    (Needs : State → List Symbol → Prop) : Prop where
  completes : ∀ state rest later, Needs state rest → rest ≠ [] →
    ∃ final, decode state (rest ++ later) = .done final rest.length ∧ Final final
  waits : ∀ state given missing, Needs state (given ++ missing) → given ≠ [] → missing ≠ [] →
    ∃ next consumed, decode state given = .more next consumed ∧ consumed ≤ given.length ∧
      Needs next ((given ++ missing).drop consumed)

/-- The state leads to a final one on these bytes, in one piece or in several. -/
def Awaits (decode : State → List Symbol → Outcome State) (Final : State → Prop)
    (state : State) (rest : List Symbol) : Prop :=
  ∃ Needs, Resumes decode Final Needs ∧ Needs state rest

/-- A set of states that a decoder does not leave, whatever it is given. In them it consumes
no more than it is given, and is stuck on certain bytes at most. -/
structure Confines (decode : State → List Symbol → Outcome State)
    (Endless : List Symbol → Prop) (Formed : State → Prop) : Prop where
  inside : ∀ state given, Formed state → (decode state given).consumed ≤ given.length
  kept : ∀ state given, Formed state → Formed (decode state given).state
  endless : ∀ state given next, Formed state → decode state given = .stuck next → Endless given

def Confined (decode : State → List Symbol → Outcome State) (Endless : List Symbol → Prop)
    (start : State) : Prop :=
  ∃ Formed, Confines decode Endless Formed ∧ Formed start

/-- The states from which a decoder is confined are such a set themselves. -/
theorem confined_confines (decode : State → List Symbol → Outcome State)
    (Endless : List Symbol → Prop) : Confines decode Endless (Confined decode Endless) where
  inside := by
    rintro state given ⟨Formed, confines, formed⟩
    exact confines.inside state given formed
  kept := by
    rintro state given ⟨Formed, confines, formed⟩
    exact ⟨Formed, confines, confines.kept state given formed⟩
  endless := by
    rintro state given next ⟨Formed, confines, formed⟩ stuck
    exact confines.endless state given next formed stuck

section Awaits
variable {decode : State → List Symbol → Outcome State} {Final : State → Prop}

theorem Awaits.completes {state : State} {rest : List Symbol}
    (awaits : Awaits decode Final state rest) (some : rest ≠ []) (later : List Symbol) :
    ∃ final, decode state (rest ++ later) = .done final rest.length ∧ Final final := by
  obtain ⟨Needs, resumes, needs⟩ := awaits
  exact resumes.completes state rest later needs some

theorem Awaits.waits {state : State} {given missing : List Symbol}
    (awaits : Awaits decode Final state (given ++ missing)) (someGiven : given ≠ [])
    (someMissing : missing ≠ []) :
    ∃ next consumed, decode state given = .more next consumed ∧ consumed ≤ given.length ∧
      Awaits decode Final next ((given ++ missing).drop consumed) := by
  obtain ⟨Needs, resumes, needs⟩ := awaits
  obtain ⟨next, consumed, decoded, bounded, kept⟩ :=
    resumes.waits state given missing needs someGiven someMissing
  exact ⟨next, consumed, decoded, bounded, Needs, resumes, kept⟩

/-- The last states may be described more weakly. -/
theorem Awaits.weaken {Weaker : State → Prop} {state : State} {rest : List Symbol}
    (awaits : Awaits decode Final state rest) (weaker : ∀ final, Final final → Weaker final) :
    Awaits decode Weaker state rest := by
  obtain ⟨Needs, resumes, needs⟩ := awaits
  refine ⟨Needs, ⟨fun state rest later needed some => ?_, resumes.waits⟩, needs⟩
  obtain ⟨final, decoded, settled⟩ := resumes.completes state rest later needed some
  exact ⟨final, decoded, weaker final settled⟩

/-- A decoder that keeps nothing of an incomplete value. -/
theorem awaits_of_restart {start : State} {encoding : List Symbol}
    (whole : ∀ later, ∃ final, decode start (encoding ++ later) = .done final encoding.length ∧
      Final final)
    (again : State → Prop) (fresh : again start)
    (restarted : ∀ state, again state → ∀ given, decode state given = decode start given)
    (part : ∀ given missing, encoding = given ++ missing → given ≠ [] → missing ≠ [] →
      ∃ next, decode start given = .more next 0 ∧ again next) :
    Awaits decode Final start encoding := by
  refine ⟨fun state rest => again state ∧ rest = encoding, ⟨?_, ?_⟩, fresh, rfl⟩
  · rintro state rest later ⟨kept, rfl⟩ _
    rw [restarted state kept]
    exact whole later
  · rintro state given missing ⟨kept, split⟩ someGiven someMissing
    obtain ⟨next, decoded, still⟩ := part given missing split.symm someGiven someMissing
    exact ⟨next, 0, by rw [restarted state kept, decoded], Nat.zero_le _, still, by
      rw [List.drop_zero, split]⟩

end Awaits

/-! ## A receiver that keeps what was not consumed -/

structure Receiver (State : Type u) (Symbol : Type v) (Message : Type w) where
  state : State
  pending : List Symbol
  received : List Message

section Receiver
variable (decode : State → List Symbol → Outcome State) (fresh : State) (read : State → Message)

/-- Decode what is pending, one message after the other. -/
def drain : Nat → Receiver State Symbol Message → Option (Receiver State Symbol Message)
  | 0, _ => none
  | fuel + 1, receiver =>
    match decode receiver.state receiver.pending with
    | .failed _ _ | .stuck _ => none
    | .more next consumed =>
      some { receiver with state := next, pending := receiver.pending.drop consumed }
    | .done final consumed =>
      let queued : Receiver State Symbol Message :=
        { state := fresh, pending := receiver.pending.drop consumed,
          received := receiver.received ++ [read final] }
      if queued.pending = [] then some queued else drain fuel queued

theorem drain_more {fuel consumed : Nat} {receiver : Receiver State Symbol Message} {next : State}
    (decoded : decode receiver.state receiver.pending = .more next consumed) :
    drain decode fresh read (fuel + 1) receiver =
      some { receiver with state := next, pending := receiver.pending.drop consumed } := by
  simp [drain, decoded]

theorem drain_done {fuel consumed : Nat} {receiver : Receiver State Symbol Message} {final : State}
    (decoded : decode receiver.state receiver.pending = .done final consumed)
    (queued : Receiver State Symbol Message)
    (same : queued = ⟨fresh, receiver.pending.drop consumed, receiver.received ++ [read final]⟩) :
    drain decode fresh read (fuel + 1) receiver =
      if queued.pending = [] then some queued else drain decode fresh read fuel queued := by
  simp [drain, decoded, same]

/-- Take an arrival behind what is pending. -/
def arrive (receiver : Receiver State Symbol Message) (chunk : List Symbol) :
    Option (Receiver State Symbol Message) :=
  if receiver.pending ++ chunk = [] then some receiver
  else drain decode fresh read (receiver.pending ++ chunk).length
    { receiver with pending := receiver.pending ++ chunk }

variable {decode fresh read} {encode : Message → List Symbol}

/-- The receiver stands within the first of the messages to come: its state awaits what is
left of that message, which begins with what is pending. -/
def Midway (decode : State → List Symbol → Outcome State) (fresh : State)
    (read : State → Message) (encode : Message → List Symbol)
    (receiver : Receiver State Symbol Message) (messages : List Message)
    (future : List Symbol) : Prop :=
  match messages with
  | [] => receiver.state = fresh ∧ receiver.pending = [] ∧ future = []
  | message :: rest => ∃ missing, receiver.pending ++ missing ≠ [] ∧ missing ≠ [] ∧
      Awaits decode (fun final => read final = message) receiver.state
        (receiver.pending ++ missing) ∧
      future = missing ++ rest.flatMap encode

/-- Every message is awaited from the start, as some bytes. -/
def Carried (decode : State → List Symbol → Outcome State) (fresh : State)
    (read : State → Message) (encode : Message → List Symbol) (message : Message) : Prop :=
  encode message ≠ [] ∧
    Awaits decode (fun final => read final = message) fresh (encode message)

theorem midway_start (messages : List Message)
    (carried : ∀ message ∈ messages, Carried decode fresh read encode message)
    (received : List Message) :
    Midway decode fresh read encode ⟨fresh, [], received⟩ messages
      (messages.flatMap encode) := by
  cases messages with
  | nil => exact ⟨rfl, rfl, rfl⟩
  | cons message rest =>
    obtain ⟨some, awaits⟩ := carried message List.mem_cons_self
    exact ⟨encode message, by simpa using some, some, by simpa using awaits, by simp⟩

/-- Two ways to cut the same bytes: the first piece of one ends within or behind that of the
other. -/
theorem split_cases {left right first second : List Symbol}
    (same : left ++ right = first ++ second) :
    (∃ later, left = first ++ later ∧ second = later ++ right) ∨
      ∃ missing, missing ≠ [] ∧ first = left ++ missing ∧ right = missing ++ second := by
  rcases List.append_eq_append_iff.mp same with ⟨missing, whole, rest⟩ | ⟨later, whole, rest⟩
  · by_cases exactly : missing = []
    · exact Or.inl ⟨[], by simpa [exactly] using whole.symm, by simpa [exactly] using rest.symm⟩
    · exact Or.inr ⟨missing, exactly, whole, rest⟩
  · exact Or.inl ⟨later, whole, rest⟩

/-- Draining delivers what is complete and stops within the next message. -/
theorem drain_exact (fuel : Nat) (receiver : Receiver State Symbol Message)
    (messages : List Message) (rest future : List Symbol)
    (carried : ∀ message ∈ messages, Carried decode fresh read encode message)
    (enough : receiver.pending.length ≤ fuel) (given : receiver.pending ≠ [])
    (first : ∃ message others, messages = message :: others ∧ rest ≠ [] ∧
      Awaits decode (fun final => read final = message) receiver.state rest ∧
      receiver.pending ++ future = rest ++ others.flatMap encode) :
    ∃ next finished remaining, drain decode fresh read fuel receiver = some next ∧
      messages = finished ++ remaining ∧ next.received = receiver.received ++ finished ∧
      Midway decode fresh read encode next remaining future := by
  induction fuel generalizing receiver messages rest with
  | zero => exact False.elim (given (List.eq_nil_of_length_eq_zero (by omega)))
  | succ fuel inductionHypothesis =>
    obtain ⟨message, others, rfl, someRest, awaits, bytes⟩ := first
    rcases split_cases bytes with ⟨later, whole, behind⟩ | ⟨missing, lacking, part, behind⟩
    · obtain ⟨final, decoded, settled⟩ := awaits.completes someRest later
      rw [← whole] at decoded
      have left : receiver.pending.drop rest.length = later := by
        rw [whole, List.drop_left]
      by_cases ended : later = []
      · refine ⟨⟨fresh, later, receiver.received ++ [read final]⟩, [message], others, ?_, rfl,
          by rw [settled], ?_⟩
        · simp [drain, decoded, left, ended]
        · have kept := midway_start others
            (fun other inside => carried other (List.mem_cons_of_mem message inside))
            (receiver.received ++ [read final])
          rw [behind, ended, List.nil_append] at kept
          rwa [ended]
      · cases others with
        | nil =>
          simp only [List.flatMap_nil, List.nil_eq, List.append_eq_nil_iff] at behind
          exact False.elim (ended behind.1)
        | cons second tail =>
          obtain ⟨someNext, awaitsNext⟩ :=
            carried second (List.mem_cons_of_mem message List.mem_cons_self)
          have positive := List.length_pos_iff.mpr someRest
          have shorter : later.length ≤ fuel := by
            rw [whole, List.length_append] at enough
            omega
          obtain ⟨next, finished, remaining, drained, partition, total, kept⟩ :=
            inductionHypothesis ⟨fresh, later, receiver.received ++ [read final]⟩
              (second :: tail) (encode second)
              (fun other inside => carried other (List.mem_cons_of_mem message inside))
              shorter ended
              ⟨second, tail, rfl, someNext, awaitsNext, by simpa using behind.symm⟩
          refine ⟨next, message :: finished, remaining, ?_, by rw [partition]; rfl, ?_, kept⟩
          · simpa [drain, decoded, left, ended] using drained
          · rw [total, settled, List.append_assoc]
            rfl
    · rw [part] at awaits
      obtain ⟨next, consumed, decoded, bounded, kept⟩ := awaits.waits given lacking
      refine ⟨⟨next, receiver.pending.drop consumed, receiver.received⟩, [], message :: others,
        by simp [drain, decoded], rfl, by simp, missing, ?_, lacking, ?_, behind⟩
      · simp [lacking]
      · rwa [List.drop_append_of_le_length bounded] at kept

/-- One arrival delivers what it completes. -/
theorem arrive_exact (receiver : Receiver State Symbol Message) (messages : List Message)
    (chunk future : List Symbol)
    (carried : ∀ message ∈ messages, Carried decode fresh read encode message)
    (midway : Midway decode fresh read encode receiver messages (chunk ++ future)) :
    ∃ next finished remaining, arrive decode fresh read receiver chunk = some next ∧
      messages = finished ++ remaining ∧ next.received = receiver.received ++ finished ∧
      Midway decode fresh read encode next remaining future := by
  by_cases nothing : receiver.pending ++ chunk = []
  · obtain ⟨_, noChunk⟩ := List.append_eq_nil_iff.mp nothing
    subst noChunk
    exact ⟨receiver, [], messages, if_pos nothing, rfl, by simp, midway⟩
  · unfold arrive
    rw [if_neg nothing]
    cases messages with
    | nil =>
      obtain ⟨_, noPending, noFuture⟩ := midway
      simp only [List.append_eq_nil_iff] at noFuture
      exact False.elim (nothing (by rw [noPending, noFuture.1]; rfl))
    | cons message others =>
      obtain ⟨missing, some, _, awaits, bytes⟩ := midway
      exact drain_exact (receiver.pending ++ chunk).length
        { receiver with pending := receiver.pending ++ chunk } (message :: others)
        (receiver.pending ++ missing) future carried (Nat.le_refl _) nothing
        ⟨message, others, rfl, some, awaits, by
          rw [List.append_assoc, bytes, List.append_assoc]⟩

/-- However a stream of messages is cut, the receiver delivers them in order, each once, as
soon as they are complete. -/
theorem arrivals_exact (receiver : Receiver State Symbol Message) (messages : List Message)
    (chunks : List (List Symbol)) (future : List Symbol)
    (carried : ∀ message ∈ messages, Carried decode fresh read encode message)
    (midway : Midway decode fresh read encode receiver messages (chunks.flatten ++ future)) :
    ∃ next finished remaining, chunks.foldlM (arrive decode fresh read) receiver = some next ∧
      messages = finished ++ remaining ∧ next.received = receiver.received ++ finished ∧
      Midway decode fresh read encode next remaining future := by
  induction chunks generalizing receiver messages with
  | nil => exact ⟨receiver, [], messages, rfl, rfl, by simp, by simpa using midway⟩
  | cons chunk rest inductionHypothesis =>
    obtain ⟨middle, early, others, arrived, split, total, kept⟩ :=
      arrive_exact receiver messages chunk (rest.flatten ++ future) carried
        (by simpa using midway)
    obtain ⟨next, late, remaining, reached, partition, sum, last⟩ :=
      inductionHypothesis middle others
        (fun message inside => carried message (by
          rw [split]
          exact List.mem_append_right early inside)) kept
    refine ⟨next, early ++ late, remaining, ?_, by rw [split, partition, List.append_assoc],
      by rw [sum, total, List.append_assoc], last⟩
    simp [arrived, reached]

/-- Once the whole stream has arrived, all of it is delivered. -/
theorem midway_end (receiver : Receiver State Symbol Message) (messages : List Message)
    (midway : Midway decode fresh read encode receiver messages []) : messages = [] := by
  cases messages with
  | nil => rfl
  | cons message rest =>
    obtain ⟨missing, _, lacking, _, bytes⟩ := midway
    have none := bytes.symm
    rw [List.append_eq_nil_iff] at none
    exact False.elim (lacking none.1)

end Receiver

end NetVirt.ResumableDecoders
