import NetVirt.Accounts
import NetVirt.Tickets
import Mathlib.Data.List.Pairwise

/-!
# Password resets

A reset key is a ticket of its account. Storing a key issues one and setting the password uses
it: the key stays in its column, but its date is NULL from then on, and a condition on a NULL
date is not true. So the two columns always are the last ticket of the account, and what the
statements do is permitted by it in every run.
-/

namespace NetVirt.Accounts

open Inet RowTables Nvctrler Tickets Runs

/-! ## Tickets of accounts -/

/-- The columns of an account that password resets are about. -/
structure Secrets where
  password : Text
  resetkey : Option Text
  resetdate : Option Int
deriving DecidableEq

def Account.secrets (account : Account) : Secrets :=
  { password := account.password, resetkey := account.resetkey, resetdate := account.resetdate }

def secretsOf (clients : ClientTable) (email : Text) : Option Secrets :=
  (clients.lookup email).map Account.secrets

/-- The last ticket of an account is in its two columns. -/
def Secrets.ticket (secrets : Secrets) : Ticket Text Int :=
  match secrets.resetkey, secrets.resetdate with
  | some key, some since => .issued key since
  | some key, none => .used key
  | none, _ => .none

def tickets (clients : ClientTable) (email : Text) : Ticket Text Int :=
  ((secretsOf clients email).map Secrets.ticket).getD .none

theorem secretsOf_eq_some (clients : ClientTable) (account : Account)
    (inside : account ∈ clients.rows) :
    secretsOf clients account.email = some account.secrets := by
  rw [secretsOf, (clients.lookup_eq_some account.email account).mpr ⟨inside, rfl⟩]
  rfl

section Updates
variable (clients : ClientTable) (update : Update)

/-- A statement that keeps the columns of the rows it updates. -/
theorem secretsOf_same
    (same : ∀ account ∈ clients.rows, update.touches account = true →
      (update.change account).secrets = account.secrets) :
    secretsOf (clients.update update.touches update.change update.keeps) = secretsOf clients := by
  funext email
  rw [secretsOf, secretsOf, clients.lookup_update]
  cases found : clients.lookup email with
  | none => rfl
  | some account =>
    have inside := ((clients.lookup_eq_some email account).mp found).1
    by_cases touched : update.touches account = true
    · simp [touched, same account inside touched]
    · simp [touched]

/-- A statement that updates the row of one account. -/
theorem secretsOf_update (account : Account) (inside : account ∈ clients.rows)
    (touched : update.touches account = true)
    (only : ∀ other, update.touches other = true → other.email = account.email) :
    secretsOf (clients.update update.touches update.change update.keeps) =
      Function.update (secretsOf clients) account.email (some (update.change account).secrets) := by
  funext email
  rw [secretsOf, clients.lookup_update]
  by_cases same : email = account.email
  · rw [same, (clients.lookup_eq_some account.email account).mpr ⟨inside, rfl⟩]
    simp [touched]
  · rw [Function.update_of_ne same, secretsOf]
    cases found : clients.lookup email with
    | none => rfl
    | some other =>
      have apart : ¬ update.touches other = true := fun concerned =>
        same (((clients.lookup_eq_some email other).mp found).2 ▸ only other concerned)
      simp [apart]

end Updates

/-- A key is stored if there is no date or it is more than an hour ago. -/
theorem setResetkey_touches (now : Int) (email resetkey : Text) (account : Account) :
    (setResetkey now email resetkey).touches account = true ↔ account.email = email ∧
      ∀ since, account.resetdate = some since → since + hour < now := by
  cases dated : account.resetdate <;>
    simp [Update.touches, setResetkey, both_true, either_true, compared_true, dated]

/-- A password is set with the stored key if there is a date less than a day ago. -/
theorem setPassword_touches (digest : Text → Text) (injective : Function.Injective digest)
    (now : Int) (email resetkey crypted : Text) (account : Account) :
    (setPassword digest now email resetkey crypted).touches account = true ↔
      account.email = email ∧ account.resetkey = some resetkey ∧
        ∃ since, account.resetdate = some since ∧ now < since + day := by
  have hashed (key : Text) : digest key = digest resetkey ↔ key = resetkey :=
    injective.eq_iff
  cases stored : account.resetkey <;> cases dated : account.resetdate <;>
    simp [Update.touches, setPassword, both_true, compared_true, stored, dated, hashed,
      and_comm, and_left_comm, and_assoc]

/-! ## Events -/

structure Event where
  env : Env
  request : Request

variable (digest : Text → Text)

def step (clients : ClientTable) (event : Event) : ClientTable :=
  (respond digest event.env clients event.request).1

/-- The reset key that an event generates. -/
def Event.resetkey (event : Event) : Option Text :=
  match event.request with
  | .resetAccountPassword _ => event.env.genKey
  | _ => none

/-- What a request does to the password of an account when it updates a row: a key is stored,
or the password is set with one. -/
def Event.means (event : Event) : Option (Action Text Text Int) :=
  match event.request with
  | .activateAccount _ => none
  | .resetAccountPassword message => do
    let account ← message.account
    let email ← account.email
    let resetkey ← event.env.genKey
    return .issue email resetkey event.env.now
  | .setNewPassword message => do
    let account ← message.account
    let email ← account.email
    let resetkey ← account.resetkey
    return .use email resetkey event.env.now

/-- What an event does: nothing unless it updates a row. -/
def action (clients : ClientTable) (event : Event) : Option (Action Text Text Int) :=
  if Updates digest event.env clients event.request then event.means else none

/-! ## One request -/

section Step
variable (clients : ClientTable) (event : Event)

/-- An event does nothing: the columns of password resets stay as they are. -/
def Idle : Prop :=
  action digest clients event = none ∧
    secretsOf (step digest clients event) = secretsOf clients

/-- A key is stored for an account that has no date or one of more than an hour ago. -/
def Stores : Prop :=
  ∃ email key old, action digest clients event = some (.issue email key event.env.now) ∧
    event.resetkey = some key ∧ secretsOf clients email = some old ∧
    (∀ since, old.resetdate = some since → since + hour < event.env.now) ∧
    secretsOf (step digest clients event) = Function.update (secretsOf clients) email
      (some { old with resetkey := some key, resetdate := some event.env.now })

/-- A password is set with the key of its account, less than a day after the date. -/
def Sets : Prop :=
  ∃ email key since crypted old, action digest clients event =
      some (.use email key event.env.now) ∧
    secretsOf clients email = some old ∧ old.resetkey = some key ∧
    old.resetdate = some since ∧ event.env.now < since + day ∧
    secretsOf (step digest clients event) = Function.update (secretsOf clients) email
      (some { password := crypted, resetkey := some key, resetdate := none })

/-- A statement that finds no row changes nothing. -/
theorem executed_idle (outcome : Outcome) (update : Update)
    (idle : ¬ (outcome = .done ∧ update.Finds clients)) :
    secretsOf (executed outcome clients update) = secretsOf clients := by
  unfold executed
  split
  · next done =>
    refine secretsOf_same clients update fun account inside touched => ?_
    exact absurd ⟨done, account, inside, touched⟩ idle
  · rfl

/-- A statement that has nothing to do with passwords. -/
theorem executed_other (outcome : Outcome) (update : Update)
    (other : ∀ account, (update.change account).secrets = account.secrets) :
    secretsOf (executed outcome clients update) = secretsOf clients := by
  unfold executed
  split
  · exact secretsOf_same clients update fun account _ _ => other account
  · rfl

/-- An executed statement that updates the row of one account. -/
theorem executed_update (update : Update) (account : Account) (inside : account ∈ clients.rows)
    (touched : update.touches account = true)
    (only : ∀ other, update.touches other = true → other.email = account.email) :
    secretsOf (executed .done clients update) =
      Function.update (secretsOf clients) account.email (some (update.change account).secrets) :=
  secretsOf_update clients update account inside touched only

/-- Activating an account has nothing to do with passwords. -/
theorem activateAccount_secrets (env : Env) (message : Message) :
    secretsOf (activateAccount env clients message).1 = secretsOf clients := by
  obtain ⟨account, apikey⟩ := message
  rcases account with - | account
  · rfl
  rcases apikey with - | apikey
  · rfl
  have activated := executed_other clients (env.outcome .activateClient) (activateClient apikey)
    fun _ => rfl
  by_cases updated : env.outcome .activateClient = .done ∧ (activateClient apikey).Finds clients
  · simp only [activateAccount, daoActivateClient_spec, if_pos updated,
      if_neg (show ¬ (0 : Int) = -1 by decide), daoUpdateClientApikey_clients]
    cases env.genKey with
    | none => exact activated
    | some newApikey =>
      exact (executed_other _ _ (updateClientApikey apikey newApikey) fun _ => rfl).trans activated
  · simp only [activateAccount, daoActivateClient_spec, if_neg updated, if_true]
    exact activated

theorem step_activateAccount (message : Message)
    (asked : event.request = .activateAccount message) : Idle digest clients event :=
  ⟨by simp [action, Event.means, asked],
    by simp [step, respond, asked, activateAccount_secrets]⟩

/-- A request that updates no row does nothing, if it leaves what its statement does. -/
theorem step_idle (table : step digest clients event =
      (event.request.update digest event.env).elim clients fun stands =>
        executed (event.env.outcome stands.1) clients stands.2)
    (idle : ¬ Updates digest event.env clients event.request) : Idle digest clients event := by
  refine ⟨if_neg idle, ?_⟩
  rw [table]
  cases stands : event.request.update digest event.env with
  | none => rfl
  | some both =>
    have updates := updates_iff digest event.env clients event.request both.1 both.2 stands
    exact executed_idle clients _ _ (updates.not.mp idle)

theorem step_resetAccountPassword (message : Message)
    (asked : event.request = .resetAccountPassword message) :
    Idle digest clients event ∨ Stores digest clients event := by
  obtain ⟨env, request⟩ := event
  obtain rfl : request = .resetAccountPassword message := asked
  have table := resetAccountPassword_clients digest env clients message
  by_cases updated : Updates digest env clients (.resetAccountPassword message)
  · right
    have acts : action digest clients ⟨env, .resetAccountPassword message⟩ =
        Event.means ⟨env, .resetAccountPassword message⟩ := if_pos updated
    obtain ⟨statement, update, stands, done, account, inside, touched⟩ := updated
    rw [stands, Option.elim_some, done] at table
    simp only [Request.update, Option.bind_eq_bind, Option.bind_eq_some_iff, Option.pure_def,
      Option.some.injEq, Prod.mk.injEq] at stands
    obtain ⟨given, object, email, named, key, drawn, -, rfl⟩ := stands
    obtain ⟨rfl, old⟩ := (setResetkey_touches env.now email key account).mp touched
    refine ⟨account.email, key, account.secrets, ?_, drawn,
      secretsOf_eq_some clients account inside, old, ?_⟩
    · rw [acts]
      simp [Event.means, object, named, drawn]
    · rw [step, respond, table]
      exact executed_update clients _ account inside touched fun other concerned =>
        ((setResetkey_touches env.now _ key other).mp concerned).1
  · exact .inl (step_idle digest clients _ table updated)

theorem step_setNewPassword (injective : Function.Injective digest) (message : Message)
    (asked : event.request = .setNewPassword message) :
    Idle digest clients event ∨ Sets digest clients event := by
  obtain ⟨env, request⟩ := event
  obtain rfl : request = .setNewPassword message := asked
  have table := setNewPassword_clients digest env clients message
  by_cases updated : Updates digest env clients (.setNewPassword message)
  · right
    have acts : action digest clients ⟨env, .setNewPassword message⟩ =
        Event.means ⟨env, .setNewPassword message⟩ := if_pos updated
    obtain ⟨statement, update, stands, done, account, inside, touched⟩ := updated
    rw [stands, Option.elim_some, done] at table
    simp only [Request.update, Option.bind_eq_bind, Option.bind_eq_some_iff, Option.pure_def,
      Option.some.injEq, Prod.mk.injEq] at stands
    obtain ⟨given, object, email, named, resetkey, keyed, password, -, -, rfl⟩ := stands
    obtain ⟨rfl, stored, since, dated, young⟩ :=
      (setPassword_touches digest injective env.now email resetkey _ account).mp touched
    refine ⟨account.email, resetkey, since, env.crypt password, account.secrets, ?_,
      secretsOf_eq_some clients account inside, stored, dated, young, ?_⟩
    · rw [acts]
      simp [Event.means, object, named, keyed]
    · rw [step, respond, table, executed_update clients _ account inside touched
        fun other concerned =>
          ((setPassword_touches digest injective env.now _ resetkey _ other).mp concerned).1,
        ← stored]
      rfl
  · exact .inl (step_idle digest clients _ table updated)

/-- What a request can do. -/
theorem step_cases (injective : Function.Injective digest) :
    Idle digest clients event ∨ Stores digest clients event ∨ Sets digest clients event := by
  cases asked : event.request with
  | activateAccount message => exact .inl (step_activateAccount digest clients event message asked)
  | resetAccountPassword message =>
    exact (step_resetAccountPassword digest clients event message asked).imp_right .inl
  | setNewPassword message =>
    exact (step_setNewPassword digest clients event injective message asked).imp_right .inr

end Step

/-- A date is less than a day ago. -/
def Valid (since now : Int) : Prop := now < since + day

/-- A date is more than an hour ago. -/
def Renewable (since now : Int) : Prop := since + hour < now

theorem ticket_key (secrets : Secrets) : secrets.ticket.key = secrets.resetkey := by
  obtain ⟨password, - | key, - | since⟩ := secrets <;> rfl

theorem ticket_issued_iff (secrets : Secrets) (key : Text) (since : Int) :
    secrets.ticket = .issued key since ↔
      secrets.resetkey = some key ∧ secrets.resetdate = some since := by
  obtain ⟨password, - | stored, - | dated⟩ := secrets <;> simp [Secrets.ticket]

theorem tickets_of_some (clients : ClientTable) (email : Text) (secrets : Secrets)
    (found : secretsOf clients email = some secrets) : tickets clients email = secrets.ticket := by
  simp [tickets, found]

theorem tickets_update (before after : ClientTable) (email : Text) (secrets : Secrets)
    (changed : secretsOf after = Function.update (secretsOf before) email (some secrets)) :
    tickets after = Function.update (tickets before) email secrets.ticket := by
  funext other
  by_cases same : other = email
  · simp [tickets, changed, same]
  · simp [tickets, changed, same]

section Step
variable (clients : ClientTable) (event : Event)

/-- What an event does is permitted by the tickets and changes them as it says. -/
theorem step_tickets (injective : Function.Injective digest) :
    tickets (step digest clients event) =
        (action digest clients event).toList.foldl advance (tickets clients) ∧
      ∀ done, action digest clients event = some done →
        Permitted Valid Renewable (tickets clients) done := by
  obtain ⟨nothing, same⟩ | ⟨email, key, old, acts, -, found, aged, changed⟩ |
      ⟨email, key, since, crypted, old, acts, found, stored, dated, young, changed⟩ :=
    step_cases digest clients event injective
  · refine ⟨?_, fun done acts => by simp [nothing] at acts⟩
    funext email
    simp [nothing, tickets, same]
  · refine ⟨by rw [tickets_update _ _ email _ changed, acts]; rfl, ?_⟩
    intro done same
    obtain rfl := Option.some.inj (acts.symm.trans same)
    intro before since held
    rw [tickets_of_some clients email old found, ticket_issued_iff] at held
    exact aged since held.2
  · refine ⟨by rw [tickets_update _ _ email _ changed, acts]; rfl, ?_⟩
    intro done same
    obtain rfl := Option.some.inj (acts.symm.trans same)
    refine ⟨since, ?_, young⟩
    rw [tickets_of_some clients email old found, ticket_issued_iff]
    exact ⟨stored, dated⟩

/-- A password changes only when it is set with a key. -/
theorem step_password (injective : Function.Injective digest) (email : Text)
    (changes : (secretsOf (step digest clients event) email).map Secrets.password ≠
      (secretsOf clients email).map Secrets.password) :
    ∃ key, action digest clients event = some (.use email key event.env.now) := by
  obtain ⟨-, same⟩ | ⟨name, key, old, -, -, found, -, changed⟩ |
      ⟨name, key, since, crypted, old, acts, -, -, -, -, changed⟩ :=
    step_cases digest clients event injective
  · exact absurd (by rw [same]) changes
  · refine absurd ?_ changes
    by_cases same : email = name
    · simp [changed, same, found]
    · simp [changed, same]
  · by_cases same : email = name
    · exact ⟨key, same ▸ acts⟩
    · exact absurd (by simp [changed, same]) changes

/-- A reset key changes only when one is stored. -/
theorem step_resetkey (injective : Function.Injective digest) (email : Text)
    (changes : (secretsOf (step digest clients event) email).map Secrets.resetkey ≠
      (secretsOf clients email).map Secrets.resetkey) :
    ∃ key, action digest clients event = some (.issue email key event.env.now) := by
  obtain ⟨-, same⟩ | ⟨name, key, old, acts, -, -, -, changed⟩ |
      ⟨name, key, since, crypted, old, -, found, stored, -, -, changed⟩ :=
    step_cases digest clients event injective
  · exact absurd (by rw [same]) changes
  · by_cases same : email = name
    · exact ⟨key, same ▸ acts⟩
    · exact absurd (by simp [changed, same]) changes
  · refine absurd ?_ changes
    by_cases same : email = name
    · simp [changed, same, found, stored]
    · simp [changed, same]

/-- A key that is stored is the one that the event generates. -/
theorem step_issues (injective : Function.Injective digest) :
    (issuedKeys (action digest clients event).toList).Sublist event.resetkey.toList := by
  obtain ⟨nothing, -⟩ | ⟨email, key, old, acts, drawn, -⟩ |
      ⟨email, key, since, crypted, old, acts, -⟩ :=
    step_cases digest clients event injective
  · simp [nothing, issuedKeys]
  · simp [acts, drawn, issuedKeys]
  · simp [acts, issuedKeys]

end Step

/-! ## Runs -/

/-- What the events of a run do, in order. -/
def history : ClientTable → List Event → List (Action Text Text Int)
  | _, [] => []
  | clients, event :: rest =>
    (action digest clients event).toList ++ history (step digest clients event) rest

theorem history_append (clients : ClientTable) (past late : List Event) :
    history digest clients (past ++ late) = history digest clients past ++
      history digest (past.foldl (step digest) clients) late := by
  induction past generalizing clients with
  | nil => rfl
  | cons event past inductionHypothesis => simp [history, inductionHypothesis]

/-- In every run what is done is permitted, and the tickets are what is left of it. -/
theorem history_guarded (injective : Function.Injective digest) (clients : ClientTable)
    (events : List Event) :
    tickets (events.foldl (step digest) clients) =
        (history digest clients events).foldl advance (tickets clients) ∧
      Guarded advance (tickets clients) (Permitted Valid Renewable)
        (history digest clients events) := by
  induction events using List.reverseRecOn with
  | nil => exact ⟨rfl, guarded_nil advance (tickets clients) _⟩
  | append_singleton past event inductionHypothesis =>
    obtain ⟨left, guarded⟩ := inductionHypothesis
    obtain ⟨changed, permitted⟩ := step_tickets digest (past.foldl (step digest) clients) event
      injective
    rw [List.foldl_concat, changed, left, history_append]
    simp only [history, List.append_nil]
    cases acts : action digest (past.foldl (step digest) clients) event with
    | none => simpa using guarded
    | some done =>
      refine ⟨by simp, ?_⟩
      rw [Option.toList_some, guarded_snoc]
      exact ⟨guarded, left ▸ permitted done acts⟩

/-- Only generated keys are stored, in their order. -/
theorem history_issues (injective : Function.Injective digest) (clients : ClientTable)
    (events : List Event) :
    (issuedKeys (history digest clients events)).Sublist (events.filterMap Event.resetkey) := by
  induction events generalizing clients with
  | nil => exact List.Sublist.refl _
  | cons event rest inductionHypothesis =>
    have split : (event :: rest).filterMap Event.resetkey =
        event.resetkey.toList ++ rest.filterMap Event.resetkey := by
      cases drawn : event.resetkey <;> simp [drawn]
    rw [split, history, issuedKeys, List.filterMap_append]
    exact (step_issues digest clients event injective).append (inductionHypothesis _)

/-- Rows with the same reset key are the same row. -/
theorem row_of_resetkey (clients : ClientTable)
    (distinct : (clients.rows.filterMap Account.resetkey).Nodup) (one other : Account) (key : Text)
    (oneIn : one ∈ clients.rows) (otherIn : other ∈ clients.rows)
    (oneKey : one.resetkey = some key) (otherKey : other.resetkey = some key) : one = other := by
  by_contra apart
  have pairs := List.pairwise_filterMap.mp distinct
  have symmetric : Std.Symm fun left right : Account => ∀ first, left.resetkey = some first →
      ∀ second, right.resetkey = some second → first ≠ second :=
    ⟨fun left right differ first held second holds same =>
      differ second holds first held same.symm⟩
  exact pairs.forall oneIn otherIn apart key oneKey key otherKey rfl

theorem tickets_key (clients : ClientTable) (email key : Text)
    (held : (tickets clients email).key = some key) :
    ∃ account ∈ clients.rows, account.email = email ∧ account.resetkey = some key := by
  rw [tickets, secretsOf] at held
  cases found : clients.lookup email with
  | none => simp [found, Ticket.key] at held
  | some account =>
    obtain ⟨inside, same⟩ := (clients.lookup_eq_some email account).mp found
    refine ⟨account, inside, same, ?_⟩
    simpa [found, ticket_key, Account.secrets] using held

/-- Accounts with different keys have different tickets. -/
theorem tickets_apart (clients : ClientTable)
    (distinct : (clients.rows.filterMap Account.resetkey).Nodup) : Apart (tickets clients) := by
  intro one other key oneHeld otherHeld
  obtain ⟨left, leftIn, rfl, leftKey⟩ := tickets_key clients one key oneHeld
  obtain ⟨right, rightIn, rfl, rightKey⟩ := tickets_key clients other key otherHeld
  rw [row_of_resetkey clients distinct left right key leftIn rightIn leftKey rightKey]

/-- What the past of a run leaves of the tickets: for each account the key that was stored last,
with its time, and whether it was used. -/
def lastTicket (clients : ClientTable) (past : List Event) (email : Text) : Ticket Text Int :=
  (history digest clients past).foldl advance (tickets clients) email

/-- Password reset is single-use and bounded in time. In a run whose reset keys are different
from each other and from those in the table, a password changes only when it is set with the
last key of its account, less than a day after the key was stored, and a reset key changes only
when one is stored and the last one was used or is more than an hour old. The same is true of
every update that writes what was there before. No key sets two passwords.

Proof: the tickets of the accounts follow the run: a key is issued, renewed or used only as
its ticket permits. A change of a password or of a key is such an action, and keys that are
issued once are used once. -/
theorem password_resets (injective : Function.Injective digest) (clients : ClientTable)
    (events : List Event)
    (distinct : (clients.rows.filterMap Account.resetkey ++
      events.filterMap Event.resetkey).Nodup) :
    (∀ past event late, events = past ++ event :: late → ∀ email,
      let before := past.foldl (step digest) clients
      ((secretsOf (step digest before event) email).map Secrets.password ≠
          (secretsOf before email).map Secrets.password →
        ∃ key since, action digest before event = some (.use email key event.env.now) ∧
          lastTicket digest clients past email = .issued key since ∧
          event.env.now < since + day) ∧
      ((secretsOf (step digest before event) email).map Secrets.resetkey ≠
          (secretsOf before email).map Secrets.resetkey →
        ∃ key, action digest before event = some (.issue email key event.env.now) ∧
          ∀ old since, lastTicket digest clients past email = .issued old since →
            since + hour < event.env.now)) ∧
    Guarded advance (tickets clients) (Permitted Valid Renewable)
      (history digest clients events) ∧
    (usedKeys (history digest clients events)).Nodup := by
  obtain ⟨stored, generated, fresh⟩ := List.nodup_append.mp distinct
  have guarded := (history_guarded digest injective clients events).2
  refine ⟨?_, guarded, ?_⟩
  · rintro past event late - email
    have left := (history_guarded digest injective clients past).1
    have permitted := (step_tickets digest (past.foldl (step digest) clients) event injective).2
    rw [left] at permitted
    constructor
    · intro changes
      obtain ⟨key, acts⟩ := step_password digest _ event injective email changes
      obtain ⟨since, held, young⟩ := permitted _ acts
      exact ⟨key, since, acts, held, young⟩
    · intro changes
      obtain ⟨key, acts⟩ := step_resetkey digest _ event injective email changes
      exact ⟨key, acts, permitted _ acts⟩
  · have issues := history_issues digest injective clients events
    refine used_once Valid Renewable (tickets clients) _ (tickets_apart clients stored)
      (generated.sublist issues) ?_ guarded
    intro key issued email held
    obtain ⟨account, inside, -, holds⟩ := tickets_key clients email key held
    exact fresh key (List.mem_filterMap.mpr ⟨account, inside, holds⟩) key
      (issues.subset issued) rfl

/-- One account, which never asked for a key. -/
def sampleClients : ClientTable where
  rows := [{ email := ['e'], status := 1, password := ['p'], apikey := ['a'], resetkey := none,
             resetdate := none }]
  unique := List.nodup_singleton _

def sampleMessage (resetkey password : Option Text) : Message where
  account := some { email := some ['e'], resetkey := resetkey, password := password }
  apikey := none

/-- A key is stored and used, used again, and asked for again. -/
def sampleEvents : List Event :=
  [⟨sampleEnv 0 (some ['k']), .resetAccountPassword (sampleMessage none none)⟩,
   ⟨sampleEnv 10 none, .setNewPassword (sampleMessage (some ['k']) (some ['q']))⟩,
   ⟨sampleEnv 20 none, .setNewPassword (sampleMessage (some ['k']) (some ['r']))⟩,
   ⟨sampleEnv 30 (some ['l']), .resetAccountPassword (sampleMessage none none)⟩]

theorem sampleEvents_once :
    history id sampleClients sampleEvents =
        [.issue ['e'] ['k'] 0, .use ['e'] ['k'] 10, .issue ['e'] ['l'] 30] ∧
      Guarded advance (tickets sampleClients) (Permitted Valid Renewable)
        (history id sampleClients sampleEvents) ∧
      (usedKeys (history id sampleClients sampleEvents)).Nodup := by
  refine ⟨by decide +kernel, ?_⟩
  exact (password_resets id Function.injective_id sampleClients sampleEvents (by decide)).2

end NetVirt.Accounts
