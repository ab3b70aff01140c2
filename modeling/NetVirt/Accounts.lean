import NetVirt.Dao

/-!
# Accounts

The client table and the requests that activate an account, store a reset key for it and set
its password: the prepared statements, the data access functions that execute them, and the
handlers. The three functions look at their result each in its own way, and `dao_set_password`
does not look at the number of rows.

Times are in microseconds. A day has 24 hours. The hash of reset keys is a parameter.
-/

namespace NetVirt.Accounts

open Inet RowTables Nvctrler

/-! ## The table -/

/-- The columns of table client that the statements use. -/
structure Account where
  email : Text
  status : Int
  password : Text
  apikey : Text
  resetkey : Option Text
  resetdate : Option Int
deriving DecidableEq

abbrev ClientTable := RowTable Account.email

def hour : Int := 3600000000
def day : Int := 24 * hour

/-- `UPDATE client SET … WHERE …` -/
structure Update where
  condition : Account → Option Bool
  change : Account → Account
  keeps : ∀ account, (change account).email = account.email

/-- The rows that a statement updates: its condition is true, not unknown. -/
def Update.touches (update : Update) (account : Account) : Bool :=
  update.condition account == some true

/-- `dao_activate_client` -/
def activateClient (apikey : Text) : Update where
  condition := fun account => some (account.apikey == apikey)
  change := fun account => { account with status := 1 }
  keeps := fun _ => rfl

/-- `dao_update_client_apikey` -/
def updateClientApikey (apikey newApikey : Text) : Update where
  condition := fun account => some (account.apikey == apikey)
  change := fun account => { account with apikey := newApikey }
  keeps := fun _ => rfl

/-- `dao_set_password`, with what `crypt` makes of the password. -/
def setPassword (digest : Text → Text) (now : Int) (email resetkey crypted : Text) : Update where
  condition := fun account =>
    both (both (both
      (compared (· == ·) (account.resetkey.map digest) (some (digest resetkey)))
      (some (account.email == email)))
      (compared (fun valid now => decide (valid > now)) (account.resetdate.map (· + day))
        (some now)))
      (some account.resetkey.isSome)
  change := fun account => { account with password := crypted, resetdate := none }
  keeps := fun _ => rfl

/-- `dao_set_resetkey` -/
def setResetkey (now : Int) (email resetkey : Text) : Update where
  condition := fun account =>
    both (some (account.email == email))
      (either (some account.resetdate.isNone)
        (compared (fun valid now => decide (valid < now)) (account.resetdate.map (· + hour))
          (some now)))
  change := fun account => { account with resetkey := some resetkey, resetdate := some now }
  keeps := fun _ => rfl

/-! ## Executing a statement -/

inductive Statement where
  | activateClient
  | updateClientApikey
  | setPassword
  | setResetkey
deriving DecidableEq

/-- What a request finds around it: the time, the key drawn for it, the hash of a password with
the salt drawn for it, and how the database answers. -/
structure Env where
  now : Int
  /-- `pki_gen_key`, NULL without random bytes. -/
  genKey : Option Text
  crypt : Text → Text
  outcome : Statement → Outcome

/-- The result of an UPDATE: an error status, or the number of rows it updated. -/
inductive PgResult where
  | failed
  | commandOk (tuples : Nat)
deriving DecidableEq

/-- `PQexecPrepared` of an UPDATE. -/
def execPrepared (outcome : Outcome) (clients : ClientTable) (update : Update) :
    ClientTable × Option PgResult :=
  match outcome with
  | .noResult => (clients, none)
  | .failed => (clients, some .failed)
  | .done =>
    (clients.update update.touches update.change update.keeps,
      some (.commandOk (clients.rows.countP update.touches)))

/-- `check_result_status` -/
def checkResultStatus : PgResult → Int
  | .failed => -1
  | .commandOk _ => 0

/-- `strcmp(PQcmdTuples(result), "0") == 0`. The text is empty for an error and for NULL. -/
def cmdTuplesZero : Option PgResult → Bool
  | some (.commandOk tuples) => tuples == 0
  | _ => false

/-! ## Data access functions -/

def daoActivateClient (env : Env) (clients : ClientTable) (apikey : Option Text) :
    ClientTable × Int :=
  match apikey with
  | none => (clients, -1)
  | some apikey =>
    let (clients, result) :=
      execPrepared (env.outcome .activateClient) clients (activateClient apikey)
    match result with
    | none => (clients, -1)
    | some result =>
      if cmdTuplesZero (some result) then (clients, -1) else (clients, checkResultStatus result)

def daoUpdateClientApikey (env : Env) (clients : ClientTable) (apikey newApikey : Option Text) :
    ClientTable × Int :=
  match apikey, newApikey with
  | some apikey, some newApikey =>
    let (clients, result) :=
      execPrepared (env.outcome .updateClientApikey) clients (updateClientApikey apikey newApikey)
    match result with
    | none => (clients, -1)
    | some result => (clients, checkResultStatus result)
  | _, _ => (clients, -1)

/-- The number of rows is not looked at. -/
def daoSetPassword (digest : Text → Text) (env : Env) (clients : ClientTable)
    (email resetkey password : Option Text) : ClientTable × Int :=
  match email, resetkey, password with
  | some email, some resetkey, some password =>
    let (clients, result) := execPrepared (env.outcome .setPassword) clients
      (setPassword digest env.now email resetkey (env.crypt password))
    match result with
    | none => (clients, -1)
    | some result => (clients, checkResultStatus result)
  | _, _, _ => (clients, -1)

/-- The number of rows is looked at before the result is. -/
def daoSetResetkey (env : Env) (clients : ClientTable) (email resetkey : Option Text) :
    ClientTable × Int :=
  match email, resetkey with
  | some email, some resetkey =>
    let (clients, result) :=
      execPrepared (env.outcome .setResetkey) clients (setResetkey env.now email resetkey)
    if cmdTuplesZero result then (clients, -1)
    else match result with
      | none => (clients, -1)
      | some result => (clients, checkResultStatus result)
  | _, _ => (clients, -1)

/-! ## Requests -/

/-- The account object of a message. A field that is missing or not a string is not there. -/
structure AccountObject where
  email : Option Text
  resetkey : Option Text
  password : Option Text
deriving DecidableEq

structure Message where
  account : Option AccountObject
  apikey : Option Text
deriving DecidableEq

inductive Request where
  | activateAccount (message : Message)
  | resetAccountPassword (message : Message)
  | setNewPassword (message : Message)
deriving DecidableEq

inductive Response where
  | success
  | denied
  | error
deriving DecidableEq

structure Reply where
  response : Response
  account : Option AccountObject
deriving DecidableEq

def Reply.of (response : Response) : Reply := { response := response, account := none }

/-- Whether the new key was stored is not checked. -/
def activateAccount (env : Env) (clients : ClientTable) (message : Message) :
    ClientTable × Option Reply :=
  match message.account with
  | none => (clients, none)
  | some _ =>
    match message.apikey with
    | none => (clients, some (.of .error))
    | some apikey =>
      let (clients, ret) := daoActivateClient env clients (some apikey)
      if ret = -1 then (clients, some (.of .denied))
      else
        let (clients, _) := daoUpdateClientApikey env clients (some apikey) env.genKey
        (clients, some (.of .success))

def setNewPassword (digest : Text → Text) (env : Env) (clients : ClientTable)
    (message : Message) : ClientTable × Option Reply :=
  match message.account with
  | none => (clients, none)
  | some account =>
    match account.email, account.resetkey, account.password with
    | some email, some resetkey, some password =>
      let (clients, ret) :=
        daoSetPassword digest env clients (some email) (some resetkey) (some password)
      if ret = -1 then (clients, some (.of .denied)) else (clients, some (.of .success))
    | _, _, _ => (clients, none)

/-- The reply carries the account object of the request, with the key in place of the email. -/
def resetAccountPassword (env : Env) (clients : ClientTable) (message : Message) :
    ClientTable × Option Reply :=
  match message.account with
  | none => (clients, none)
  | some account =>
    match account.email with
    | none => (clients, none)
    | some email =>
      match env.genKey with
      | none => (clients, some (.of .error))
      | some resetkey =>
        let (clients, ret) := daoSetResetkey env clients (some email) (some resetkey)
        if ret = -1 then (clients, some (.of .denied))
        else
          (clients, some
            { response := .success
              account := some { account with resetkey := some resetkey, email := none } })

/-- The handler of a request: the table after it and the reply, if there is one. -/
def respond (digest : Text → Text) (env : Env) (clients : ClientTable) :
    Request → ClientTable × Option Reply
  | .activateAccount message => activateAccount env clients message
  | .resetAccountPassword message => resetAccountPassword env clients message
  | .setNewPassword message => setNewPassword digest env clients message

/-- A database that executes every statement. -/
def sampleEnv (now : Int) (genKey : Option Text) : Env where
  now := now
  genKey := genKey
  crypt := id
  outcome := fun _ => .done

/-! ## The statement of a request -/

/-- The statement that a request stands for, if it has its fields. -/
def Request.update (digest : Text → Text) (env : Env) : Request → Option (Statement × Update)
  | .activateAccount message => do
    let _ ← message.account
    let apikey ← message.apikey
    return (.activateClient, activateClient apikey)
  | .resetAccountPassword message => do
    let account ← message.account
    let email ← account.email
    let resetkey ← env.genKey
    return (.setResetkey, setResetkey env.now email resetkey)
  | .setNewPassword message => do
    let account ← message.account
    let email ← account.email
    let resetkey ← account.resetkey
    let password ← account.password
    return (.setPassword, setPassword digest env.now email resetkey (env.crypt password))

/-- Each request stands for one of the prepared statements. -/
def Request.statement : Request → Statement
  | .activateAccount _ => .activateClient
  | .resetAccountPassword _ => .setResetkey
  | .setNewPassword _ => .setPassword

theorem update_statement (digest : Text → Text) (env : Env) (request : Request)
    (statement : Statement) (update : Update)
    (stands : request.update digest env = some (statement, update)) :
    statement = request.statement := by
  cases request with
  | activateAccount message =>
    simp only [Request.update, Option.bind_eq_bind, Option.bind_eq_some_iff, Option.pure_def,
      Option.some.injEq, Prod.mk.injEq] at stands
    obtain ⟨_, -, _, -, rfl, -⟩ := stands
    rfl
  | resetAccountPassword message =>
    simp only [Request.update, Option.bind_eq_bind, Option.bind_eq_some_iff, Option.pure_def,
      Option.some.injEq, Prod.mk.injEq] at stands
    obtain ⟨_, -, _, -, _, -, rfl, -⟩ := stands
    rfl
  | setNewPassword message =>
    simp only [Request.update, Option.bind_eq_bind, Option.bind_eq_some_iff, Option.pure_def,
      Option.some.injEq, Prod.mk.injEq] at stands
    obtain ⟨_, -, _, -, _, -, _, -, rfl, -⟩ := stands
    rfl

/-- A statement finds a row to update. -/
def Update.Finds (update : Update) (clients : ClientTable) : Prop :=
  ∃ account ∈ clients.rows, update.touches account = true

instance (update : Update) (clients : ClientTable) : Decidable (update.Finds clients) :=
  inferInstanceAs (Decidable (∃ account ∈ clients.rows, update.touches account = true))

/-- The statement of the request is executed and updates a row. -/
def Updates (digest : Text → Text) (env : Env) (clients : ClientTable) (request : Request) :
    Prop :=
  ∃ statement update, request.update digest env = some (statement, update) ∧
    env.outcome statement = .done ∧ update.Finds clients

theorem updates_iff (digest : Text → Text) (env : Env) (clients : ClientTable)
    (request : Request) (statement : Statement) (update : Update)
    (stands : request.update digest env = some (statement, update)) :
    Updates digest env clients request ↔ env.outcome statement = .done ∧ update.Finds clients := by
  simp only [Updates, stands, Option.some.injEq, Prod.mk.injEq]
  constructor
  · rintro ⟨_, _, ⟨rfl, rfl⟩, both⟩
    exact both
  · intro both
    exact ⟨statement, update, ⟨rfl, rfl⟩, both⟩

instance (digest : Text → Text) (env : Env) (clients : ClientTable) (request : Request) :
    Decidable (Updates digest env clients request) :=
  match stands : request.update digest env with
  | none => isFalse fun ⟨_, _, other, _⟩ => by simp [stands] at other
  | some (statement, update) =>
    decidable_of_iff (env.outcome statement = .done ∧ update.Finds clients)
      (updates_iff digest env clients request statement update stands).symm

/-! ## What the functions do -/

/-- What a statement leaves. -/
def executed (outcome : Outcome) (clients : ClientTable) (update : Update) : ClientTable :=
  if outcome = .done then clients.update update.touches update.change update.keeps else clients

theorem executed_eq (outcome : Outcome) (clients : ClientTable) (update : Update) :
    (execPrepared outcome clients update).1 = executed outcome clients update := by
  cases outcome <;> rfl

/-- The number of rows is zero exactly when the statement finds none. -/
theorem cmdTuplesZero_iff (clients : ClientTable) (update : Update) :
    cmdTuplesZero (some (.commandOk (clients.rows.countP update.touches))) = true ↔
      ¬ update.Finds clients := by
  simp [cmdTuplesZero, Update.Finds]

section Functions
variable (digest : Text → Text) (env : Env) (clients : ClientTable)

theorem daoActivateClient_spec (apikey : Text) :
    daoActivateClient env clients (some apikey) =
      (executed (env.outcome .activateClient) clients (activateClient apikey),
        if env.outcome .activateClient = .done ∧ (activateClient apikey).Finds clients then 0
        else -1) := by
  rw [daoActivateClient, ← executed_eq]
  cases outcome : env.outcome .activateClient with
  | noResult => simp [execPrepared]
  | failed => simp [execPrepared, cmdTuplesZero, checkResultStatus]
  | done =>
    by_cases finds : (activateClient apikey).Finds clients
    · simp [execPrepared, cmdTuplesZero_iff, finds, checkResultStatus]
    · simp [execPrepared, cmdTuplesZero_iff, finds]

/-- Without a new key nothing is executed. -/
theorem daoUpdateClientApikey_clients (apikey : Text) (newApikey : Option Text) :
    (daoUpdateClientApikey env clients (some apikey) newApikey).1 =
      newApikey.elim clients fun newApikey =>
        executed (env.outcome .updateClientApikey) clients
          (updateClientApikey apikey newApikey) := by
  cases newApikey with
  | none => rfl
  | some newApikey =>
    rw [Option.elim_some, ← executed_eq, daoUpdateClientApikey]
    cases env.outcome .updateClientApikey <;> rfl

theorem daoSetResetkey_spec (email resetkey : Text) :
    daoSetResetkey env clients (some email) (some resetkey) =
      (executed (env.outcome .setResetkey) clients (setResetkey env.now email resetkey),
        if env.outcome .setResetkey = .done ∧
          (setResetkey env.now email resetkey).Finds clients then 0
        else -1) := by
  rw [daoSetResetkey, ← executed_eq]
  cases outcome : env.outcome .setResetkey with
  | noResult => simp [execPrepared, cmdTuplesZero]
  | failed => simp [execPrepared, cmdTuplesZero, checkResultStatus]
  | done =>
    by_cases finds : (setResetkey env.now email resetkey).Finds clients
    · simp [execPrepared, cmdTuplesZero_iff, finds, checkResultStatus]
    · simp [execPrepared, cmdTuplesZero_iff, finds]

/-- The code says only that the statement was executed. -/
theorem daoSetPassword_spec (email resetkey password : Text) :
    daoSetPassword digest env clients (some email) (some resetkey) (some password) =
      (executed (env.outcome .setPassword) clients
          (setPassword digest env.now email resetkey (env.crypt password)),
        if env.outcome .setPassword = .done then 0 else -1) := by
  rw [daoSetPassword, ← executed_eq]
  cases outcome : env.outcome .setPassword <;> simp [execPrepared, checkResultStatus]

/-- What a request for a new key leaves. -/
theorem resetAccountPassword_clients (message : Message) :
    (resetAccountPassword env clients message).1 =
      (Request.update digest env (.resetAccountPassword message)).elim clients
        fun stands => executed (env.outcome stands.1) clients stands.2 := by
  obtain ⟨account, apikey⟩ := message
  rcases account with - | ⟨- | email, given, password⟩
  · rfl
  · rfl
  · cases drawn : env.genKey with
    | none => simp [resetAccountPassword, Request.update, drawn]
    | some resetkey =>
      simp only [resetAccountPassword, Request.update, drawn, daoSetResetkey_spec]
      split <;> split <;> rfl

/-- What a request for a new password leaves. -/
theorem setNewPassword_clients (message : Message) :
    (setNewPassword digest env clients message).1 =
      (Request.update digest env (.setNewPassword message)).elim clients
        fun stands => executed (env.outcome stands.1) clients stands.2 := by
  obtain ⟨account, apikey⟩ := message
  rcases account with - | ⟨- | email, - | resetkey, - | password⟩
  case some.some.some.some =>
    simp only [setNewPassword, Request.update, daoSetPassword_spec]
    split <;> split <;> rfl
  all_goals rfl

end Functions

end NetVirt.Accounts
