import NetVirt.Cert
import NetVirt.Provisioning
import NetVirt.SqlTexts

/-!
# The statement for a provisioning code

`dao_fetch_node_from_provcode` puts the code it is given between the quotes of a statement,
as it is, and prints the statement into a buffer. It is the only statement of the controller
that is put together like this. What the server executes is then decided by reading the text:
it is the SELECT of this code if the code has no quote and leaves room for the rest.
-/

namespace NetVirt.Provisioning

open Cert SqlTexts

/-! ## The text -/

/-- The statement up to the provisioning code. -/
def statementHead : List UInt8 := ascii
  ("SELECT node.certificate, node.privatekey, node.ipaddress, " ++
    "context.embassy_certificate as trustedcert FROM\tnode, context WHERE\tprovcode = '").toList

/-- The statement after the provisioning code. -/
def statementTail : List UInt8 := ascii "' AND\tnode.network_uuid = context.uuid;".toList

/-- `fetch_req`: what `snprintf` leaves of the statement in 1024 bytes with the terminator. -/
def fetchReq (provcode : List UInt8) : List UInt8 :=
  (statementHead ++ cstring provcode ++ statementTail).take 1023

/-! ## The statement -/

def name (text : List Char) : Token := .word (ascii text)

def column (table column : List Char) : List Token := [name table, .symbol 0x2E, name column]

def comma : Token := .symbol 0x2C
def equals : Token := .symbol 0x3D
def semicolon : Token := .symbol 0x3B

/-- The statement before the value that is selected. -/
def selectHead : List Token :=
  name "SELECT".toList :: column "node".toList "certificate".toList ++
  comma :: column "node".toList "privatekey".toList ++
  comma :: column "node".toList "ipaddress".toList ++
  comma :: column "context".toList "embassy_certificate".toList ++
  [name "as".toList, name "trustedcert".toList, name "FROM".toList, name "node".toList, comma,
    name "context".toList, name "WHERE".toList, name "provcode".toList, equals]

/-- The statement after the value that is selected: the tables are joined. -/
def selectTail : List Token :=
  name "AND".toList :: column "node".toList "network_uuid".toList ++
  equals :: column "context".toList "uuid".toList

/-- The SELECT for a value: one literal in a fixed statement. -/
def select (value : List UInt8) : List Token := selectHead ++ .literal value :: selectTail

/-- A text is the SELECT for a value. A semicolon may end it. -/
def Selects (text value : List UInt8) : Prop :=
  lex text = some (select value) ∨ lex text = some (select value ++ [semicolon])

instance (text value : List UInt8) : Decidable (Selects text value) :=
  inferInstanceAs (Decidable (_ ∨ _))

/-! ## Reading the text -/

theorem statementHead_length : statementHead.length = 138 := by decide +kernel

theorem statementTail_length : statementTail.length = 39 := by decide +kernel

/-- What follows the closing quote begins with a word. -/
theorem statementTail_eq :
    statementTail.drop 1 = 0x20 :: 0x41 :: statementTail.drop 3 := by decide +kernel

theorem quote_statementTail : quote ∉ statementTail.drop 1 := by decide +kernel

theorem run_statementHead :
    run .between statementHead = (selectHead, .string .standard []) := by decide +kernel

/-- A literal that the word of the rest of the statement follows. -/
theorem lexFrom_closing (value bytes : List UInt8) :
    lexFrom (.closing .standard value) (0x20 :: 0x41 :: bytes) =
      (lexFrom (.word [0x41]) bytes).map (.literal value :: ·) := by
  have space : step (.closing .standard value) 0x20 = ([], .gap .standard value false) := rfl
  have word : step (.gap .standard value false) 0x41 = ([.literal value], .word [0x41]) := rfl
  simp [lexFrom_cons, space, word, Function.comp_def]

/-- Of the rest of the statement only the semicolon may be missing. -/
theorem lexFrom_statementTail (size : Nat) :
    (lexFrom (.word [0x41]) ((statementTail.drop 3).take size) = some selectTail ∨
      lexFrom (.word [0x41]) ((statementTail.drop 3).take size) =
        some (selectTail ++ [semicolon])) ↔ 35 ≤ size := by
  by_cases short : size < 36
  · revert size
    decide +kernel
  · rw [List.take_of_length_le (by simp [statementTail_length]; omega)]
    exact iff_of_true (by decide +kernel) (by omega)

/-- Read up to the closing quote, the text has the tokens of the rest if there is room. -/
theorem lexFrom_closing_take (value : List UInt8) (size : Nat) :
    (lexFrom (.closing .standard value) ((statementTail.drop 1).take size) =
        some (.literal value :: selectTail) ∨
      lexFrom (.closing .standard value) ((statementTail.drop 1).take size) =
        some (.literal value :: (selectTail ++ [semicolon]))) ↔ 37 ≤ size := by
  rw [statementTail_eq]
  rcases size with - | - | size
  · exact iff_of_false (by simp [lexFrom, run, finish, Kind.token, selectTail]) (by omega)
  · exact iff_of_false (by simp [lexFrom, run, finish, step, gapStep, isSpace, Kind.token,
      selectTail, quote]) (by omega)
  · rw [List.take_succ_cons, List.take_succ_cons, lexFrom_closing]
    simp only [Option.map_eq_some_iff, List.cons.injEq, true_and, exists_eq_right]
    exact (lexFrom_statementTail size).trans (by omega)

/-- The value is read as it is if it has no quote in it and there is room for the rest. -/
theorem literal_iff (value : List UInt8) (size : Nat) :
    (lexFrom (.string .standard []) ((value ++ statementTail).take size) =
        some (.literal value :: selectTail) ∨
      lexFrom (.string .standard []) ((value ++ statementTail).take size) =
        some (.literal value :: (selectTail ++ [semicolon]))) ↔
      quote ∉ value ∧ value.length + 38 ≤ size := by
  have opened : statementTail = quote :: statementTail.drop 1 := by decide +kernel
  constructor
  · intro read
    have plain : quote ∉ value ∧ value.length < size := by
      rw [opened] at read
      exact read.elim (plain_of_lexFrom value _ size _ quote_statementTail)
        (plain_of_lexFrom value _ size _ quote_statementTail)
    obtain ⟨rest, rfl⟩ : ∃ rest, size = value.length + (rest + 1) :=
      ⟨size - value.length - 1, by omega⟩
    rw [opened, List.take_length_add_append, List.take_succ_cons, lexFrom_plain _ _ plain.1,
      lexFrom_closing_take] at read
    exact ⟨plain.1, by omega⟩
  · rintro ⟨plain, room⟩
    obtain ⟨rest, rfl⟩ : ∃ rest, size = value.length + (rest + 1) :=
      ⟨size - value.length - 1, by omega⟩
    rw [opened, List.take_length_add_append, List.take_succ_cons, lexFrom_plain _ _ plain,
      lexFrom_closing_take]
    omega

/-- The text is the SELECT for the code exactly if the code has no quote in it and nothing but
the semicolon is cut off. -/
theorem selects_fetchReq_iff (provcode : List UInt8) :
    Selects (fetchReq provcode) (cstring provcode) ↔
      quote ∉ cstring provcode ∧
        statementHead.length + (cstring provcode).length + statementTail.length ≤ 1024 := by
  have text : fetchReq provcode =
      statementHead ++ (cstring provcode ++ statementTail).take 885 := by
    rw [fetchReq, List.append_assoc, List.take_append, statementHead_length,
      List.take_of_length_le (by rw [statementHead_length]; omega)]
  have read (tokens : List Token) : lex (fetchReq provcode) = some (selectHead ++ tokens) ↔
      lexFrom (.string .standard []) ((cstring provcode ++ statementTail).take 885) =
        some tokens := by
    simp [text, lex, lexFrom_append, run_statementHead]
  rw [Selects, select, List.append_assoc, read, read, List.cons_append, literal_iff,
    statementHead_length, statementTail_length]
  exact and_congr_right fun _ => by omega

/-! ## The rows -/

/-- The columns of tables node and context that the statement names. -/
structure NodeRow where
  networkUuid : List UInt8
  provcode : List UInt8
  certificate : List UInt8
  privatekey : List UInt8
  ipaddress : List UInt8

structure ContextRow where
  uuid : List UInt8
  embassyCertificate : List UInt8

structure Tables where
  node : List NodeRow
  context : List ContextRow

/-- The rows of the join that have this provisioning code. -/
def Tables.joined (tables : Tables) (value : List UInt8) : List Credentials :=
  tables.node.flatMap fun node => tables.context.filterMap fun context =>
    if node.provcode = value ∧ node.networkUuid = context.uuid then
      some { certificate := node.certificate, privateKey := node.privatekey,
             trustedcert := context.embassyCertificate, ipAddress := node.ipaddress }
    else none

theorem mem_joined (tables : Tables) (value : List UInt8) (row : Credentials) :
    row ∈ tables.joined value ↔ ∃ node ∈ tables.node, ∃ context ∈ tables.context,
      node.provcode = value ∧ node.networkUuid = context.uuid ∧
      row = { certificate := node.certificate, privateKey := node.privatekey,
              trustedcert := context.embassyCertificate, ipAddress := node.ipaddress } := by
  simp only [Tables.joined, List.mem_flatMap, List.mem_filterMap, Option.ite_none_right_eq_some,
    Option.some.injEq, and_assoc, eq_comm (b := row)]

/-- The value whose SELECT these tokens are. -/
def selected (tokens : List Token) : Option (List UInt8) :=
  match tokens[selectHead.length]? with
  | some (.literal value) =>
    if tokens = select value ∨ tokens = select value ++ [semicolon] then some value else none
  | _ => none

theorem selected_select (value : List UInt8) : selected (select value) = some value := by
  simp [selected, select]

theorem selected_select_semicolon (value : List UInt8) :
    selected (select value ++ [semicolon]) = some value := by
  simp [selected, select]

/-- A server with these tables: `PQexec` returns the rows of the four columns, or no such
result. It executes a SELECT; what else it executes is not fixed. -/
structure Server (tables : Tables) where
  exec : List UInt8 → Option (List Credentials)
  exec_select : ∀ text value, Selects text value → exec text = some (tables.joined value)

/-- A server that executes nothing else. -/
instance (tables : Tables) : Inhabited (Server tables) where
  default :=
    { exec := fun text => ((lex text).bind selected).map tables.joined
      exec_select := by
        rintro text value (read | read)
        · simp [read, selected_select]
        · simp [read, selected_select_semicolon] }

/-- `dao_fetch_node_from_provcode`: the first row of the result. -/
def daoFetchNodeFromProvcode {tables : Tables} (server : Server tables) (provcode : List UInt8) :
    Option Credentials :=
  (server.exec (fetchReq provcode)).bind List.head?

/-- The code is data, and the rows are those of the code, exactly if the code has no quote in
it and the statement has room for it.

Proof: the lexer reads the statement with the code in its place as the code's characters
exactly when none of them ends the literal and snprintf does not cut it. What the server
executes then are the rows of the code. -/
theorem provcode_data_iff (provcode : List UInt8) :
    (Selects (fetchReq provcode) (cstring provcode) ∧
      ∀ (tables : Tables) (server : Server tables),
        server.exec (fetchReq provcode) = some (tables.joined (cstring provcode))) ↔
      quote ∉ cstring provcode ∧
        statementHead.length + (cstring provcode).length + statementTail.length ≤ 1024 := by
  rw [← selects_fetchReq_iff]
  exact ⟨And.left, fun data => ⟨data, fun _ server => server.exec_select _ _ data⟩⟩

/-- A code that closes the quote and puts a condition of its own behind it. -/
def openingCode : List UInt8 := ascii "' OR '1'='1".toList

theorem openingCode_selects_all :
    lex (fetchReq openingCode) = some (selectHead ++
        [.literal [], name "OR".toList, .literal (ascii ['1']), equals, .literal (ascii ['1'])] ++
        selectTail ++ [semicolon]) ∧
      ¬ Selects (fetchReq openingCode) (cstring openingCode) := by
  refine ⟨by decide +kernel, fun data => ?_⟩
  exact ((selects_fetchReq_iff openingCode).mp data).1 (by decide +kernel)

/-- What is fetched for a code without a quote belongs to a node with that code. -/
theorem daoFetchNodeFromProvcode_some {tables : Tables} (server : Server tables)
    (provcode : List UInt8) (row : Credentials) (plain : quote ∉ cstring provcode)
    (room : statementHead.length + (cstring provcode).length + statementTail.length ≤ 1024)
    (fetched : daoFetchNodeFromProvcode server provcode = some row) :
    ∃ node ∈ tables.node, node.provcode = cstring provcode ∧
      row.certificate = node.certificate ∧ row.privateKey = node.privatekey ∧
      row.ipAddress = node.ipaddress := by
  have data := (selects_fetchReq_iff provcode).mpr ⟨plain, room⟩
  rw [daoFetchNodeFromProvcode, server.exec_select _ _ data, Option.bind_some] at fetched
  obtain ⟨node, present, context, -, same, -, rfl⟩ :=
    (mem_joined tables (cstring provcode) row).mp (List.mem_of_mem_head? fetched)
  exact ⟨node, present, same, rfl, rfl, rfl⟩

end NetVirt.Provisioning
