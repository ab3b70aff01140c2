import NetVirt.Accounts

/-!
# Replies to account requests

A reply says success exactly if the statement of the request updated a row, whatever the
database answers, except for one case: `dao_set_password` takes a statement that found no row
for a success.
-/

namespace NetVirt.Accounts

open Inet RowTables Nvctrler

variable (digest : Text → Text) (env : Env) (clients : ClientTable)

/-- The reply to a request says success. -/
def SaysSuccess (request : Request) : Prop :=
  (respond digest env clients request).2.map Reply.response = some .success

/-- A statement that sets a password is executed and finds no row. -/
def FindsNobody (request : Request) : Prop :=
  ∃ update, request.update digest env = some (.setPassword, update) ∧
    env.outcome .setPassword = .done ∧ ¬ update.Finds clients

theorem activateAccount_success (message : Message) :
    SaysSuccess digest env clients (.activateAccount message) ↔
      Updates digest env clients (.activateAccount message) := by
  obtain ⟨account, apikey⟩ := message
  cases account with
  | none => simp [SaysSuccess, Updates, respond, activateAccount, Request.update]
  | some account =>
    cases apikey with
    | none => simp [SaysSuccess, Updates, respond, activateAccount, Request.update, Reply.of]
    | some apikey =>
      simp only [SaysSuccess, Updates, respond, activateAccount, Request.update,
        daoActivateClient_spec]
      by_cases updated :
        env.outcome .activateClient = .done ∧ (activateClient apikey).Finds clients
      · simp [updated, Reply.of]
      · simp [updated, Reply.of]

theorem resetAccountPassword_success (message : Message) :
    SaysSuccess digest env clients (.resetAccountPassword message) ↔
      Updates digest env clients (.resetAccountPassword message) := by
  obtain ⟨account, apikey⟩ := message
  rcases account with - | ⟨- | email, given, password⟩
  · simp [SaysSuccess, Updates, respond, resetAccountPassword, Request.update]
  · simp [SaysSuccess, Updates, respond, resetAccountPassword, Request.update]
  · cases drawn : env.genKey with
    | none =>
      simp [SaysSuccess, Updates, respond, resetAccountPassword, Request.update, drawn, Reply.of]
    | some resetkey =>
      simp only [SaysSuccess, Updates, respond, resetAccountPassword, Request.update, drawn,
        daoSetResetkey_spec]
      by_cases updated : env.outcome .setResetkey = .done ∧
        (setResetkey env.now email resetkey).Finds clients
      · simp [updated]
      · simp [updated, Reply.of]

/-- A new password is reported set whenever its statement is executed. -/
theorem setNewPassword_success (message : Message) :
    SaysSuccess digest env clients (.setNewPassword message) ↔
      ∃ update, Request.update digest env (.setNewPassword message) = some (.setPassword, update) ∧
        env.outcome .setPassword = .done := by
  obtain ⟨account, apikey⟩ := message
  rcases account with - | ⟨- | email, - | resetkey, - | password⟩
  case some.some.some.some =>
    simp only [SaysSuccess, respond, setNewPassword, Request.update, daoSetPassword_spec]
    by_cases executed : env.outcome .setPassword = .done
    · simp [executed, Reply.of]
    · simp [executed, Reply.of]
  all_goals simp [SaysSuccess, respond, setNewPassword, Request.update]

/-- A reply says success exactly if a row was updated, unless the statement that sets a
password finds none.

Proof: the reply of two of the requests looks at the rows that were updated. set-new-password
looks at the statement alone, so it says success without a row exactly when nobody is found.
-/
theorem truthful_iff (request : Request) :
    (SaysSuccess digest env clients request ↔ Updates digest env clients request) ↔
      ¬ FindsNobody digest env clients request := by
  cases request with
  | activateAccount message =>
    refine iff_of_true (activateAccount_success digest env clients message) ?_
    rintro ⟨update, stands, -⟩
    cases update_statement digest env _ _ update stands
  | resetAccountPassword message =>
    refine iff_of_true (resetAccountPassword_success digest env clients message) ?_
    rintro ⟨update, stands, -⟩
    cases update_statement digest env _ _ update stands
  | setNewPassword message =>
    rw [setNewPassword_success]
    constructor
    · rintro truthful ⟨update, stands, done, nobody⟩
      obtain ⟨statement, other, same, -, finds⟩ := truthful.mp ⟨update, stands, done⟩
      obtain ⟨-, rfl⟩ := Prod.mk.inj (Option.some.inj (stands.symm.trans same))
      exact nobody finds
    · intro noticed
      constructor
      · rintro ⟨update, stands, done⟩
        refine ⟨_, update, stands, done, ?_⟩
        by_contra nobody
        exact noticed ⟨update, stands, done, nobody⟩
      · rintro ⟨statement, update, stands, done, -⟩
        obtain rfl := update_statement digest env _ statement update stands
        exact ⟨update, stands, done⟩

/-- A new password for an email that has no account. -/
def strangerRequest : Request := .setNewPassword
  { account := some { email := some ['e'], resetkey := some ['k'], password := some ['p'] }
    apikey := none }

theorem strangerRequest_success :
    (respond id (sampleEnv 0 none) { rows := [], unique := List.nodup_nil } strangerRequest) =
        ({ rows := [], unique := List.nodup_nil }, some (.of .success)) ∧
      ¬ Updates id (sampleEnv 0 none) { rows := [], unique := List.nodup_nil }
        strangerRequest := by
  refine ⟨rfl, ?_⟩
  rintro ⟨_, _, -, -, account, inside, -⟩
  exact List.not_mem_nil inside

end NetVirt.Accounts
