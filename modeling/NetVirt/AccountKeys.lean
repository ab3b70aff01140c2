import NetVirt.PasswordResets

/-!
# API keys of accounts

The requests that add an account and that return its API key, beside those that change one. A
key is drawn for an account when it is added and again when it is activated. If no key is
drawn twice, then over a whole run no key is ever the key of two accounts, and an account is
active only if a key of its own was presented.
-/

namespace NetVirt.Accounts

open Inet RowTables Nvctrler

/-! ## Requests -/

inductive KeyResponse where
  | success
  | duplicate
  | denied
  | error
deriving DecidableEq

structure KeyReply where
  response : KeyResponse
  apikey : Option Text
deriving DecidableEq

section Requests
variable (lower : Text → Text) (crypt : Text → Text → Text)

/-- The row of `INSERT INTO client`, with the defaults of the other columns. -/
def newAccount (env : Env) (email password apikey : Text) : Account :=
  { email := lower email, status := 0, password := env.crypt password, apikey := apikey,
    resetkey := none, resetdate := none }

/-- `PQexecPrepared` of an INSERT, which reports an error when the email is taken. -/
def execInsert (answer : Outcome) (clients : ClientTable) (account : Account) :
    ClientTable × Option PgResult :=
  match answer with
  | .noResult => (clients, none)
  | .failed => (clients, some .failed)
  | .done =>
    match clients.insert account with
    | none => (clients, some .failed)
    | some after => (after, some (.commandOk 1))

def daoAddClient (env : Env) (answer : Outcome) (clients : ClientTable)
    (email password apikey : Option Text) : ClientTable × Int :=
  match email, password, apikey with
  | some email, some password, some apikey =>
    let (clients, result) := execInsert answer clients (newAccount lower env email password apikey)
    match result with
    | none => (clients, -1)
    | some result => (clients, checkResultStatus result)
  | _, _, _ => (clients, -1)

/-- Every failure to add the account is reported as a duplicate. -/
def addAccount (env : Env) (answer : Outcome) (clients : ClientTable) (message : Message) :
    ClientTable × Option KeyReply :=
  match message.account with
  | none => (clients, none)
  | some account =>
    match account.email, account.password with
    | some email, some password =>
      match env.genKey with
      | none => (clients, some { response := .error, apikey := none })
      | some apikey =>
        let (clients, ret) :=
          daoAddClient lower env answer clients (some email) (some password) (some apikey)
        if ret = -1 then (clients, some { response := .duplicate, apikey := none })
        else (clients, some { response := .success, apikey := some apikey })
    | _, _ => (clients, none)

/-- The rows that `dao_fetch_account_apikey` selects. The stored hash is its own salt. -/
def loggedIn (email password : Text) (account : Account) : Bool :=
  lower account.email == lower email && account.password == crypt password account.password &&
    account.status == 1

/-- The key that is stored behind the pointer, and the code. -/
def daoFetchAccountApikey (answer : Outcome) (clients : ClientTable)
    (email password : Option Text) : Option Text × Int :=
  match email, password with
  | some email, some password =>
    match answer with
    | .done =>
      ((clients.first (loggedIn lower crypt email password)).map Account.apikey, 0)
    | _ => (none, -1)
  | _, _ => (none, -1)

def getAccountApikey (answer : Outcome) (clients : ClientTable) (message : Message) :
    Option KeyReply :=
  match message.account with
  | none => none
  | some account =>
    let (apikey, ret) :=
      daoFetchAccountApikey lower crypt answer clients account.email account.password
    if ret = -1 then some { response := .error, apikey := none }
    else match apikey with
      | none => some { response := .denied, apikey := none }
      | some apikey => some { response := .success, apikey := some apikey }

end Requests

/-! ## Events -/

inductive KeyRequest where
  | account (request : Request)
  | addAccount (message : Message)
  | getAccountApikey (message : Message)
deriving DecidableEq

/-- A request, with the answer to the statement of this module that it executes. -/
structure KeyEvent where
  env : Env
  answer : Outcome
  request : KeyRequest

variable (lower digest : Text → Text)

def keyStep (clients : ClientTable) (event : KeyEvent) : ClientTable :=
  match event.request with
  | .account request => (respond digest event.env clients request).1
  | .addAccount message => (addAccount lower event.env event.answer clients message).1
  | .getAccountApikey _ => clients

/-- The key that an event draws. -/
def KeyEvent.drawn (event : KeyEvent) : Option Text :=
  match event.request with
  | .account (.activateAccount message) => message.account.bind fun _ => event.env.genKey
  | .account (.resetAccountPassword message) =>
    (message.account.bind AccountObject.email).bind fun _ => event.env.genKey
  | .account (.setNewPassword _) => none
  | .addAccount message =>
    message.account.bind fun account =>
      account.email.bind fun _ => account.password.bind fun _ => event.env.genKey
  | .getAccountApikey _ => none

def drawnKeys (events : List KeyEvent) : List Text := events.filterMap KeyEvent.drawn

/-- The table after some events, from an empty one. -/
def served (events : List KeyEvent) : ClientTable :=
  events.foldl (keyStep lower digest) ⟨[], List.nodup_nil⟩

/-! ## One request -/

/-- A row of the table has this key and this email. -/
def Keyed (clients : ClientTable) (key email : Text) : Prop :=
  ∃ account ∈ clients.rows, account.apikey = key ∧ account.email = email

section Statements
variable (clients : ClientTable) (key email : Text)

/-- A row after an update was there, or the update made it of one. -/
theorem mem_executed (outcome : Outcome) (update : Update) (account : Account)
    (inside : account ∈ (executed outcome clients update).rows) :
    account ∈ clients.rows ∨
      ∃ old ∈ clients.rows, update.touches old = true ∧ update.change old = account := by
  unfold executed at inside
  split at inside
  · obtain ⟨old, there, changed⟩ := (clients.mem_update _ _ _ account).mp inside
    by_cases touched : update.touches old = true
    · rw [if_pos touched] at changed
      exact Or.inr ⟨old, there, touched, changed⟩
    · rw [if_neg touched] at changed
      exact Or.inl (changed ▸ there)
  · exact Or.inl inside

/-- A key in the table after an update was there, or the update wrote it. -/
theorem keyed_executed (outcome : Outcome) (update : Update)
    (keyed : Keyed (executed outcome clients update) key email) :
    Keyed clients key email ∨ ∃ old ∈ clients.rows, update.touches old = true ∧
      (update.change old).apikey = key ∧ old.email = email := by
  obtain ⟨account, inside, named, own⟩ := keyed
  rcases mem_executed clients outcome update account inside with there | ⟨old, there, touched, rfl⟩
  · exact Or.inl ⟨account, there, named, own⟩
  · exact Or.inr ⟨old, there, touched, named, (update.keeps old).symm.trans own⟩

/-- An update that writes no key. -/
theorem keyed_kept (outcome : Outcome) (update : Update)
    (keeps : ∀ account, (update.change account).apikey = account.apikey)
    (keyed : Keyed (executed outcome clients update) key email) : Keyed clients key email := by
  rcases keyed_executed clients key email outcome update keyed with
    there | ⟨old, inside, _, named, own⟩
  · exact there
  · exact ⟨old, inside, (keeps old).symm.trans named, own⟩

/-- An insertion adds one row or none. -/
theorem keyed_execInsert (answer : Outcome) (account : Account)
    (keyed : Keyed (execInsert answer clients account).1 key email) :
    Keyed clients key email ∨ key = account.apikey ∧ email = account.email := by
  cases answer with
  | noResult => exact Or.inl keyed
  | failed => exact Or.inl keyed
  | done =>
    cases inserted : clients.insert account with
    | none =>
      rw [execInsert, inserted] at keyed
      exact Or.inl keyed
    | some after =>
      rw [execInsert, inserted] at keyed
      obtain ⟨row, inside, rfl, rfl⟩ := keyed
      rw [(clients.insert_eq_some account after inserted).2, List.mem_append,
        List.mem_singleton] at inside
      rcases inside with inside | rfl
      · exact Or.inl ⟨row, inside, rfl, rfl⟩
      · exact Or.inr ⟨rfl, rfl⟩

theorem daoAddClient_clients (env : Env) (answer : Outcome) (password apikey : Text) :
    (daoAddClient lower env answer clients (some email) (some password) (some apikey)).1 =
      (execInsert answer clients (newAccount lower env email password apikey)).1 := by
  simp only [daoAddClient]
  split <;> rfl

end Statements

/-- What adding an account leaves. -/
theorem addAccount_clients (clients : ClientTable) (env : Env) (answer : Outcome)
    (message : Message) :
    (addAccount lower env answer clients message).1 = clients ∨
    ∃ account email password apikey, message.account = some account ∧
      account.email = some email ∧ account.password = some password ∧
      env.genKey = some apikey ∧ (addAccount lower env answer clients message).1 =
        (execInsert answer clients (newAccount lower env email password apikey)).1 := by
  obtain ⟨account, given⟩ := message
  rcases account with - | ⟨- | email, resetkey, - | password⟩
  case some.some.some =>
    cases drawn : env.genKey with
    | none =>
      left
      simp only [addAccount, drawn]
    | some apikey =>
      refine Or.inr ⟨_, email, password, apikey, rfl, rfl, rfl, rfl, ?_⟩
      rw [← daoAddClient_clients]
      simp only [addAccount, drawn]
      split <;> rfl
  all_goals exact Or.inl rfl

/-- What activating an account leaves: the status of a row, and at most a new key. -/
theorem activateAccount_clients (clients : ClientTable) (env : Env) (message : Message) :
    (activateAccount env clients message).1 = clients ∨
    ∃ account apikey, message.account = some account ∧ message.apikey = some apikey ∧
      ((activateAccount env clients message).1 =
        executed (env.outcome .activateClient) clients (activateClient apikey) ∨
      ∃ new, env.genKey = some new ∧ (activateAccount env clients message).1 =
        executed (env.outcome .updateClientApikey)
          (executed (env.outcome .activateClient) clients (activateClient apikey))
          (updateClientApikey apikey new)) := by
  obtain ⟨account, given⟩ := message
  cases account with
  | none => exact Or.inl rfl
  | some account =>
    cases given with
    | none => exact Or.inl rfl
    | some apikey =>
      refine Or.inr ⟨account, apikey, rfl, rfl, ?_⟩
      simp only [activateAccount, daoActivateClient_spec]
      by_cases finds : env.outcome .activateClient = .done ∧ (activateClient apikey).Finds clients
      · rw [if_pos finds, if_neg (by decide)]
        have stored := daoUpdateClientApikey_clients env
          (executed (env.outcome .activateClient) clients (activateClient apikey)) apikey
          env.genKey
        cases drawn : env.genKey with
        | none =>
          rw [drawn] at stored
          exact Or.inl stored
        | some new =>
          rw [drawn] at stored
          exact Or.inr ⟨new, rfl, stored⟩
      · rw [if_neg finds, if_pos rfl]
        exact Or.inl rfl

/-- The statements of the other requests write no key, and only one of them a status. -/
theorem update_keeps (env : Env) (request : Request) (statement : Statement) (update : Update)
    (stands : request.update digest env = some (statement, update)) (account : Account) :
    (update.change account).apikey = account.apikey ∧
      (request.statement ≠ .activateClient →
        (update.change account).status = account.status) := by
  cases request with
  | activateAccount message =>
    simp only [Request.update, Option.bind_eq_bind, Option.bind_eq_some_iff, Option.pure_def,
      Option.some.injEq, Prod.mk.injEq] at stands
    obtain ⟨_, -, _, -, -, rfl⟩ := stands
    exact ⟨rfl, fun other => absurd rfl other⟩
  | resetAccountPassword message =>
    simp only [Request.update, Option.bind_eq_bind, Option.bind_eq_some_iff, Option.pure_def,
      Option.some.injEq, Prod.mk.injEq] at stands
    obtain ⟨_, -, _, -, _, -, -, rfl⟩ := stands
    exact ⟨rfl, fun _ => rfl⟩
  | setNewPassword message =>
    simp only [Request.update, Option.bind_eq_bind, Option.bind_eq_some_iff, Option.pure_def,
      Option.some.injEq, Prod.mk.injEq] at stands
    obtain ⟨_, -, _, -, _, -, _, -, -, rfl⟩ := stands
    exact ⟨rfl, fun _ => rfl⟩

/-- What a request about a password leaves has the same keys. -/
theorem keyed_stands (clients : ClientTable) (env : Env) (request : Request) (key email : Text)
    (keyed : Keyed ((request.update digest env).elim clients fun stands =>
      executed (env.outcome stands.1) clients stands.2) key email) : Keyed clients key email := by
  cases stands : request.update digest env with
  | none =>
    rw [stands] at keyed
    exact keyed
  | some both =>
    rw [stands] at keyed
    exact keyed_kept clients key email _ _
      (fun account => (update_keeps digest env request both.1 both.2 stands account).1) keyed

/-- What an event can do to the keys: nothing, or the key it draws becomes that of a new
account, or of the accounts that had some key. -/
theorem keyStep_cases (clients : ClientTable) (event : KeyEvent) :
    (∀ key email, Keyed (keyStep lower digest clients event) key email →
      Keyed clients key email) ∨
    (∃ new given, event.drawn = some new ∧ ∀ key email,
      Keyed (keyStep lower digest clients event) key email →
        Keyed clients key email ∨ key = new ∧ email = lower given) ∨
    ∃ new old, event.drawn = some new ∧ ∀ key email,
      Keyed (keyStep lower digest clients event) key email →
        Keyed clients key email ∨ key = new ∧ Keyed clients old email := by
  obtain ⟨env, answer, request⟩ := event
  cases request with
  | getAccountApikey message => exact Or.inl fun _ _ keyed => keyed
  | addAccount message =>
    rcases addAccount_clients lower clients env answer message with
      same | ⟨account, email, password, apikey, given, named, secret, drawn, added⟩
    · exact Or.inl fun _ _ keyed => same ▸ keyed
    · refine Or.inr (Or.inl ⟨apikey, email, ?_, fun key owner keyed => ?_⟩)
      · simp only [KeyEvent.drawn, given, named, secret, drawn, Option.bind_some]
      · simp only [keyStep, added] at keyed
        exact keyed_execInsert clients key owner answer _ keyed
  | account request =>
    cases request with
    | activateAccount message =>
      rcases activateAccount_clients clients env message with
        same | ⟨account, apikey, given, _, activated | ⟨new, drawn, activated⟩⟩
      · exact Or.inl fun _ _ keyed => same ▸ keyed
      · refine Or.inl fun key email keyed => ?_
        simp only [keyStep, respond, activated] at keyed
        exact keyed_kept clients key email _ _ (fun _ => rfl) keyed
      · refine Or.inr (Or.inr ⟨new, apikey, ?_, fun key email keyed => ?_⟩)
        · simp only [KeyEvent.drawn, given, drawn, Option.bind_some]
        · simp only [keyStep, respond, activated] at keyed
          rcases keyed_executed _ key email _ _ keyed with
            there | ⟨old, inside, touched, rfl, rfl⟩
          · exact Or.inl (keyed_kept clients key email _ _ (fun _ => rfl) there)
          · have own : old.apikey = apikey := by
              simpa [Update.touches, updateClientApikey] using touched
            exact Or.inr ⟨rfl, keyed_kept clients apikey old.email _ _ (fun _ => rfl)
              ⟨old, inside, own, rfl⟩⟩
    | resetAccountPassword message =>
      refine Or.inl fun key email keyed => ?_
      simp only [keyStep, respond, resetAccountPassword_clients digest] at keyed
      exact keyed_stands digest clients env _ key email keyed
    | setNewPassword message =>
      refine Or.inl fun key email keyed => ?_
      simp only [keyStep, respond, setNewPassword_clients] at keyed
      exact keyed_stands digest clients env _ key email keyed

/-! ## Runs -/

/-- At some time of the run the account of this email had this key. -/
def Had (events : List KeyEvent) (key email : Text) : Prop :=
  ∃ past, past <+: events ∧ Keyed (served lower digest past) key email

theorem served_snoc (events : List KeyEvent) (event : KeyEvent) :
    served lower digest (events ++ [event]) =
      keyStep lower digest (served lower digest events) event := by
  rw [served, List.foldl_append]
  rfl

theorem drawnKeys_snoc (events : List KeyEvent) (event : KeyEvent) :
    drawnKeys (events ++ [event]) = drawnKeys events ++ event.drawn.toList := by
  rw [drawnKeys, List.filterMap_append]
  cases drawn : event.drawn <;> simp [drawnKeys, drawn]

/-- A time of a longer run is a time before its last event, or the end. -/
theorem had_snoc (events : List KeyEvent) (event : KeyEvent) (key email : Text)
    (had : Had lower digest (events ++ [event]) key email) :
    Had lower digest events key email ∨
      Keyed (keyStep lower digest (served lower digest events) event) key email := by
  obtain ⟨past, early, keyed⟩ := had
  rcases List.prefix_concat_iff.mp early with rfl | early
  · exact Or.inr (served_snoc lower digest events event ▸ keyed)
  · exact Or.inl ⟨past, early, keyed⟩

/-- What is new after an event has the key that it draws, and is for one account. -/
theorem had_step (events : List KeyEvent) (event : KeyEvent)
    (single : ∀ key email other, Had lower digest events key email →
      Had lower digest events key other → email = other) :
    ∃ granted : Text → Text → Prop,
      (∀ key email, granted key email → event.drawn = some key) ∧
      (∀ key email other, granted key email → granted key other → email = other) ∧
      ∀ key email, Had lower digest (events ++ [event]) key email →
        Had lower digest events key email ∨ granted key email := by
  have now : ∀ key email, Keyed (served lower digest events) key email →
      Had lower digest events key email :=
    fun key email keyed => ⟨events, List.prefix_rfl, keyed⟩
  rcases keyStep_cases lower digest (served lower digest events) event with
    nothing | ⟨new, given, own, added⟩ | ⟨new, old, own, rotated⟩
  · refine ⟨fun _ _ => False, fun _ _ no => no.elim, fun _ _ _ no => no.elim,
      fun key email had => ?_⟩
    rcases had_snoc lower digest events event key email had with had | keyed
    · exact Or.inl had
    · exact Or.inl (now key email (nothing key email keyed))
  · refine ⟨fun key email => key = new ∧ email = lower given, fun _ _ both => both.1 ▸ own,
      fun _ _ _ both both' => both.2.trans both'.2.symm, fun key email had => ?_⟩
    rcases had_snoc lower digest events event key email had with had | keyed
    · exact Or.inl had
    · exact (added key email keyed).imp_left (now key email)
  · refine ⟨fun key email => key = new ∧ Had lower digest events old email,
      fun _ _ both => both.1 ▸ own, fun _ email other both both' =>
        single old email other both.2 both'.2, fun key email had => ?_⟩
    rcases had_snoc lower digest events event key email had with had | keyed
    · exact Or.inl had
    · exact (rotated key email keyed).imp (now key email) fun both =>
        ⟨both.1, now old email both.2⟩

/-- Every key in the table was drawn. It is the key of one account, whenever it is one. -/
theorem keys_sound (events : List KeyEvent) (fresh : (drawnKeys events).Nodup) :
    (∀ key email, Had lower digest events key email → key ∈ drawnKeys events) ∧
      ∀ key email other, Had lower digest events key email →
        Had lower digest events key other → email = other := by
  induction events using List.reverseRecOn with
  | nil =>
    have none : ∀ key email, ¬ Had lower digest [] key email := by
      rintro key email ⟨past, early, account, inside, _⟩
      rw [List.prefix_nil.mp early] at inside
      cases inside
    exact ⟨fun key email had => absurd had (none key email),
      fun key email _ had => absurd had (none key email)⟩
  | append_singleton events event inductionHypothesis =>
    rw [drawnKeys_snoc] at fresh ⊢
    obtain ⟨drawn, single⟩ := inductionHypothesis (List.nodup_append.mp fresh).1
    obtain ⟨granted, own, alone, before⟩ := had_step lower digest events event single
    have unseen : ∀ key email other, granted key email →
        ¬ Had lower digest events key other := by
      intro key email other grant had
      rw [own key email grant] at fresh
      exact (List.nodup_append.mp fresh).2.2 key (drawn key other had) key
        (List.mem_singleton_self key) rfl
    constructor
    · intro key email had
      rcases before key email had with had | grant
      · exact List.mem_append_left _ (drawn key email had)
      · rw [own key email grant]
        exact List.mem_append_right _ (List.mem_singleton_self key)
    · intro key email other had had'
      rcases before key email had with had | grant
      · rcases before key other had' with had' | grant'
        · exact single key email other had had'
        · exact absurd had (unseen key other email grant')
      · rcases before key other had' with had' | grant'
        · exact absurd had' (unseen key email other grant)
        · exact alone key email other grant grant'

/-! ## Activation -/

/-- The account of this email is active. -/
def Active (clients : ClientTable) (email : Text) : Prop :=
  ∃ account ∈ clients.rows, account.email = email ∧ account.status = 1

/-- An update that changes no status. -/
theorem active_kept (clients : ClientTable) (email : Text) (outcome : Outcome) (update : Update)
    (keeps : ∀ account, (update.change account).status = account.status)
    (active : Active (executed outcome clients update) email) : Active clients email := by
  obtain ⟨account, inside, own, status⟩ := active
  rcases mem_executed clients outcome update account inside with there | ⟨old, there, _, rfl⟩
  · exact ⟨account, there, own, status⟩
  · exact ⟨old, there, (update.keeps old).symm.trans own, (keeps old).symm.trans status⟩

/-- Activation is for the account of the key. -/
theorem active_activated (clients : ClientTable) (email apikey : Text) (outcome : Outcome)
    (active : Active (executed outcome clients (activateClient apikey)) email) :
    Active clients email ∨ Keyed clients apikey email := by
  obtain ⟨account, inside, own, status⟩ := active
  rcases mem_executed clients outcome _ account inside with there | ⟨old, there, touched, rfl⟩
  · exact Or.inl ⟨account, there, own, status⟩
  · have named : old.apikey = apikey := by
      simpa [Update.touches, activateClient] using touched
    exact Or.inr ⟨old, there, named, own⟩

/-- An account that is added is not active. -/
theorem active_execInsert (clients : ClientTable) (env : Env) (answer : Outcome)
    (given password apikey email : Text)
    (active : Active
      (execInsert answer clients (newAccount lower env given password apikey)).1 email) :
    Active clients email := by
  cases answer with
  | noResult => exact active
  | failed => exact active
  | done =>
    cases inserted : clients.insert (newAccount lower env given password apikey) with
    | none =>
      rw [execInsert, inserted] at active
      exact active
    | some after =>
      rw [execInsert, inserted] at active
      obtain ⟨row, inside, own, status⟩ := active
      rw [(clients.insert_eq_some _ after inserted).2, List.mem_append,
        List.mem_singleton] at inside
      rcases inside with inside | rfl
      · exact ⟨row, inside, own, status⟩
      · cases status

/-- What a request about a password leaves has the same active accounts. -/
theorem active_stands (clients : ClientTable) (env : Env) (request : Request) (email : Text)
    (other : request.statement ≠ .activateClient)
    (active : Active ((request.update digest env).elim clients fun stands =>
      executed (env.outcome stands.1) clients stands.2) email) : Active clients email := by
  cases stands : request.update digest env with
  | none =>
    rw [stands] at active
    exact active
  | some both =>
    rw [stands] at active
    exact active_kept clients email _ _
      (fun account => (update_keeps digest env request both.1 both.2 stands account).2 other)
      active

/-- An event makes an account active only if its key is presented. -/
theorem keyStep_active (clients : ClientTable) (event : KeyEvent) (email : Text)
    (active : Active (keyStep lower digest clients event) email) :
    Active clients email ∨ ∃ message apikey,
      event.request = .account (.activateAccount message) ∧ message.apikey = some apikey ∧
        Keyed clients apikey email := by
  obtain ⟨env, answer, request⟩ := event
  cases request with
  | getAccountApikey message => exact Or.inl active
  | addAccount message =>
    rcases addAccount_clients lower clients env answer message with
      same | ⟨_, given, password, apikey, _, _, _, _, added⟩
    · simp only [keyStep, same] at active
      exact Or.inl active
    · simp only [keyStep, added] at active
      exact Or.inl (active_execInsert lower clients env answer given password apikey email active)
  | account request =>
    cases request with
    | activateAccount message =>
      rcases activateAccount_clients clients env message with
        same | ⟨_, apikey, _, presented, activated | ⟨new, _, activated⟩⟩
      · simp only [keyStep, respond, same] at active
        exact Or.inl active
      · simp only [keyStep, respond, activated] at active
        exact (active_activated clients email apikey _ active).imp_right fun keyed =>
          ⟨message, apikey, rfl, presented, keyed⟩
      · simp only [keyStep, respond, activated] at active
        have before := active_kept _ email _ _ (fun _ => rfl) active
        exact (active_activated clients email apikey _ before).imp_right fun keyed =>
          ⟨message, apikey, rfl, presented, keyed⟩
    | resetAccountPassword message =>
      simp only [keyStep, respond, resetAccountPassword_clients digest] at active
      exact Or.inl (active_stands digest clients env _ email (by simp [Request.statement]) active)
    | setNewPassword message =>
      simp only [keyStep, respond, setNewPassword_clients] at active
      exact Or.inl (active_stands digest clients env _ email (by simp [Request.statement]) active)

/-- An account is active only if a key was presented that was its key then, and that is at no
time of the run the key of another account.

Proof: induction over the run: an account that becomes active does so in an activation with
the key that it has then. No key is drawn twice, so it has never been that of another account.
-/
theorem active_presented (events : List KeyEvent) (fresh : (drawnKeys events).Nodup)
    (email : Text) (active : Active (served lower digest events) email) :
    ∃ past event rest message apikey, events = past ++ event :: rest ∧
      event.request = .account (.activateAccount message) ∧ message.apikey = some apikey ∧
      Keyed (served lower digest past) apikey email ∧
      ∀ other, Had lower digest events apikey other → other = email := by
  have presented : ∃ past event rest message apikey, events = past ++ event :: rest ∧
      event.request = .account (.activateAccount message) ∧ message.apikey = some apikey ∧
      Keyed (served lower digest past) apikey email := by
    clear fresh
    induction events using List.reverseRecOn with
    | nil =>
      obtain ⟨account, inside, _⟩ := active
      cases inside
    | append_singleton events event inductionHypothesis =>
      rw [served_snoc] at active
      rcases keyStep_active lower digest _ event email active with
        early | ⟨message, apikey, asked, given, keyed⟩
      · obtain ⟨past, first, rest, message, apikey, rfl, shown⟩ := inductionHypothesis early
        exact ⟨past, first, rest ++ [event], message, apikey, by simp, shown⟩
      · exact ⟨events, event, [], message, apikey, rfl, asked, given, keyed⟩
  obtain ⟨past, event, rest, message, apikey, rfl, asked, given, keyed⟩ := presented
  refine ⟨past, event, rest, message, apikey, rfl, asked, given, keyed, fun other had => ?_⟩
  exact (keys_sound lower digest _ fresh).2 apikey other email had
    ⟨past, List.prefix_append past (event :: rest), keyed⟩

/-! ## Logging in -/

section LoggingIn
variable (folds : ∀ text, lower (lower text) = lower text)
include folds

/-- Emails are in lower case. -/
theorem emails_lower (events : List KeyEvent) (key email : Text)
    (keyed : Keyed (served lower digest events) key email) : lower email = email := by
  induction events using List.reverseRecOn generalizing key email with
  | nil =>
    obtain ⟨account, inside, _⟩ := keyed
    cases inside
  | append_singleton events event inductionHypothesis =>
    rw [served_snoc] at keyed
    rcases keyStep_cases lower digest (served lower digest events) event with
      nothing | ⟨new, given, _, added⟩ | ⟨new, old, _, rotated⟩
    · exact inductionHypothesis key email (nothing key email keyed)
    · rcases added key email keyed with there | ⟨_, rfl⟩
      · exact inductionHypothesis key email there
      · exact folds given
    · rcases rotated key email keyed with there | ⟨_, there⟩
      · exact inductionHypothesis key email there
      · exact inductionHypothesis old email there

/-- The account that a request to log in is about: active, with the email and the password. -/
structure LogsIn (crypt : Text → Text → Text) (clients : ClientTable) (message : Message)
    (account : Account) : Prop where
  inside : account ∈ clients.rows
  named : ∃ given email password, message.account = some given ∧ given.email = some email ∧
    given.password = some password ∧ account.email = lower email ∧
    account.password = crypt password account.password
  active : account.status = 1

/-- At most one row is selected. -/
theorem first_loggedIn (crypt : Text → Text → Text) (events : List KeyEvent)
    (email password : Text) (account : Account) :
    (served lower digest events).first (loggedIn lower crypt email password) = some account ↔
      account ∈ (served lower digest events).rows ∧ account.email = lower email ∧
        account.password = crypt password account.password ∧ account.status = 1 := by
  have wanted : ∀ row ∈ (served lower digest events).rows,
      loggedIn lower crypt email password row = true ↔ row.email = lower email ∧
        row.password = crypt password row.password ∧ row.status = 1 := by
    intro row inside
    have low := emails_lower lower digest folds events row.apikey row.email
      ⟨row, inside, rfl, rfl⟩
    simp only [loggedIn, low, Bool.and_eq_true, beq_iff_eq, and_assoc]
  constructor
  · intro found
    have inside := List.mem_of_find?_eq_some found
    exact ⟨inside, (wanted account inside).mp (List.find?_some found)⟩
  · rintro ⟨inside, suits⟩
    cases found : (served lower digest events).first (loggedIn lower crypt email password) with
    | none =>
      exact absurd ((wanted account inside).mpr suits)
        (List.find?_eq_none.mp found account inside)
    | some other =>
      have otherIn := List.mem_of_find?_eq_some found
      have otherSuits := (wanted other otherIn).mp (List.find?_some found)
      rw [(served lower digest events).row_unique otherIn inside
        (otherSuits.1.trans suits.1.symm)]

/-- A key is returned exactly for an active account whose email and password are given, when
the statement is executed. -/
theorem getAccountApikey_iff (crypt : Text → Text → Text) (events : List KeyEvent)
    (answer : Outcome) (message : Message) (key : Text) :
    getAccountApikey lower crypt answer (served lower digest events) message =
        some { response := .success, apikey := some key } ↔
      answer = .done ∧ ∃ account, LogsIn lower crypt (served lower digest events) message account ∧
        account.apikey = key := by
  obtain ⟨given, apikey⟩ := message
  constructor
  · intro replied
    rcases given with - | ⟨- | email, resetkey, - | password⟩
    case some.some.some =>
      cases answer with
      | done =>
        simp only [getAccountApikey, daoFetchAccountApikey] at replied
        cases found : (served lower digest events).first
            (loggedIn lower crypt email password) with
        | none =>
          rw [found] at replied
          cases replied
        | some account =>
          rw [found] at replied
          obtain ⟨inside, named, secret, active⟩ :=
            (first_loggedIn lower digest folds crypt events email password account).mp found
          exact ⟨rfl, account, ⟨inside, ⟨_, email, password, rfl, rfl, rfl, named, secret⟩,
            active⟩, by simpa using replied⟩
      | noResult => cases replied
      | failed => cases replied
    all_goals cases replied
  · rintro ⟨rfl, account, ⟨inside, ⟨_, email, password, rfl, named, secret, own, hash⟩, active⟩,
      rfl⟩
    have found := (first_loggedIn lower digest folds crypt events email password account).mpr
      ⟨inside, own, hash, active⟩
    simp only [getAccountApikey, daoFetchAccountApikey, named, secret, found, Option.map_some]
    rfl

/-- The key that a request to log in gets is that of the account it is about, and has never been
that of another one.

Proof: the statement selects the active accounts with the email and the password, of which the
first is taken. Its key was drawn for it, and no key is drawn twice. -/
theorem apikey_own (crypt : Text → Text → Text) (events : List KeyEvent)
    (fresh : (drawnKeys events).Nodup) (answer : Outcome) (message : Message) (key : Text) :
    getAccountApikey lower crypt answer (served lower digest events) message =
        some { response := .success, apikey := some key } ↔
      answer = .done ∧ ∃ account, LogsIn lower crypt (served lower digest events) message account ∧
        account.apikey = key ∧
        ∀ email, Had lower digest events key email → email = account.email := by
  rw [getAccountApikey_iff lower digest folds]
  constructor
  · rintro ⟨done, account, login, rfl⟩
    refine ⟨done, account, login, rfl, fun email had => ?_⟩
    exact (keys_sound lower digest events fresh).2 account.apikey email account.email had
      ⟨events, List.prefix_rfl, account, login.inside, rfl, rfl⟩
  · rintro ⟨done, account, login, own, _⟩
    exact ⟨done, account, login, own⟩

end LoggingIn

/-- An account is added with one key and activated with it, which gives it another one. -/
def keyRun : List KeyEvent :=
  [⟨sampleEnv 0 (some ['k']), .done, .addAccount ⟨some ⟨some ['e'], none, some ['p']⟩, none⟩⟩,
    ⟨sampleEnv 10 (some ['l']), .done,
      .account (.activateAccount ⟨some ⟨none, none, none⟩, some ['k']⟩)⟩]

def loginMessage : Message := ⟨some ⟨some ['e'], none, some ['p']⟩, none⟩

/-- The account gets its second key, which has never been that of another one. -/
theorem keyRun_own :
    getAccountApikey id (fun password _ => password) .done (served id id keyRun) loginMessage =
        some { response := .success, apikey := some ['l'] } ∧
      ∃ account, LogsIn id (fun password _ => password) (served id id keyRun) loginMessage
          account ∧ account.apikey = ['l'] ∧
        ∀ email, Had id id keyRun ['l'] email → email = account.email := by
  have success : getAccountApikey id (fun password _ => password) .done (served id id keyRun)
      loginMessage = some { response := .success, apikey := some ['l'] } := by decide
  exact ⟨success, ((apikey_own id id (fun _ => rfl) _ keyRun (by decide) .done loginMessage
    ['l']).mp success).2⟩

/-- The account was activated with its first key. -/
theorem keyRun_presented :
    ∃ past event rest message apikey, keyRun = past ++ event :: rest ∧
      event.request = .account (.activateAccount message) ∧ message.apikey = some apikey ∧
      Keyed (served id id past) apikey ['e'] ∧
      ∀ other, Had id id keyRun apikey other → other = ['e'] :=
  active_presented id id keyRun (by decide) ['e']
    ⟨⟨['e'], 1, ['p'], ['l'], none, none⟩, by decide, rfl, rfl⟩

end NetVirt.Accounts
