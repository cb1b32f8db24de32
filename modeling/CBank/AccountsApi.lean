import CBank.AccountRows
import CBank.Pages

/-!
# The Accounts API

What `handle_GET_api_accounts` sends for a table of well-formed rows. The JSON text is printed into
a buffer of 4096 bytes by a builder that adds up the lengths the pieces would have needed; one flag
says whether a comma is due, for the array and for the objects in it.

The text is one object for each row, in the order of the file, exactly when the table has at most
100 rows, each row fits the line buffer, and the text fits the buffer of the builder. Nothing in
the handler looks at any of the three.

## Main results

* `handleGETApiAccounts_eq`: the handler, whose format is `printBalance`.
* `flatten_apiBuilder`: what the builder prints.
* `accounts_api_complete_iff`: when the text is complete and stays in the buffer.
-/

namespace CBank

open CLib

/-! ### The builder -/

/-- `accountDTO_to_json_obj`, for a balance that is printed already. -/
def apiAccountToJsonObj (jb : JsonBuilder) (account : ApiAccount) : JsonBuilder :=
  let jb := jsonStartObject (jsonAddCommaIfNeeded jb)
  let jb := jsonAddString jb (lit "id") account.id
  let jb := jsonAddString jb (lit "created_at") account.createdAt
  jsonEndObject (jsonAddText jb (lit "balance") account.balance)

/-- What `handle_GET_api_accounts` prints. -/
def apiBuilder (accounts : List ApiAccount) : JsonBuilder :=
  jsonEndObject (jsonEndArray (accounts.foldl apiAccountToJsonObj
    (jsonStartArray (jsonStartObject jsonInit) (lit "data"))))

/-- The object of an account. -/
def apiObject (account : ApiAccount) : Bytes :=
  lit "\x7b\"id\":\"" ++ account.id ++ lit "\",\"created_at\":\"" ++ account.createdAt ++
    lit "\",\"balance\":" ++ account.balance ++ lit "\x7d"

/-- The text of a list of accounts: their objects, with single commas between them. -/
def apiDocument (accounts : List ApiAccount) : Bytes :=
  lit "\x7b\"data\":[" ++ [ch ','].intercalate (accounts.map apiObject) ++ lit "]\x7d"

/-- One object, after a comma if one is due. -/
theorem flatten_apiAccountToJsonObj (jb : JsonBuilder) (account : ApiAccount) :
    (apiAccountToJsonObj jb account).pieces.flatten =
      jb.pieces.flatten ++ ((if jb.isFirst then [] else [ch ',']) ++ apiObject account) := by
  have hid : lit "\x7b\"id\":\"" = [ch '{'] ++ (lit "\"" ++ lit "id" ++ lit "\":\"") := by decide
  have hcreated : lit "\",\"created_at\":\"" =
      lit "\"" ++ ([ch ','] ++ (lit "\"" ++ lit "created_at" ++ lit "\":\"")) := by decide
  have hbalance : lit "\",\"balance\":" =
      lit "\"" ++ ([ch ','] ++ (lit "\"" ++ lit "balance" ++ lit "\":")) := by decide
  have hclose : lit "\x7d" = [ch '}'] := by decide
  rw [apiObject, hid, hcreated, hbalance, hclose]
  cases hfirst : jb.isFirst with
  | true =>
      simp [apiAccountToJsonObj, jsonAddCommaIfNeeded, jsonStartObject, jsonAddString,
        jsonAddText, jsonEndObject, hfirst]
  | false =>
      simp [apiAccountToJsonObj, jsonAddCommaIfNeeded, jsonStartObject, jsonAddString,
        jsonAddText, jsonEndObject, hfirst]

/-- Once an object was printed, every further one comes with its comma. Induction along the
accounts. -/
theorem flatten_foldl_apiAccountToJsonObj {jb : JsonBuilder} (hfirst : jb.isFirst = false)
    (accounts : List ApiAccount) : (accounts.foldl apiAccountToJsonObj jb).pieces.flatten =
      jb.pieces.flatten ++ accounts.flatMap fun account => ch ',' :: apiObject account := by
  induction accounts generalizing jb with
  | nil => simp
  | cons account accounts ih =>
      rw [List.foldl_cons, ih rfl, flatten_apiAccountToJsonObj, hfirst]
      simp

/-- **What the builder prints.** -/
theorem flatten_apiBuilder (accounts : List ApiAccount) :
    (apiBuilder accounts).pieces.flatten = apiDocument accounts := by
  have hstart : (jsonStartArray (jsonStartObject jsonInit) (lit "data")).pieces.flatten =
      lit "\x7b\"data\":[" := by decide
  have hclose : lit "]\x7d" = [ch ']', ch '}'] := by decide
  have hprinted : ∀ jb : JsonBuilder, (jsonEndObject (jsonEndArray jb)).pieces.flatten =
      jb.pieces.flatten ++ lit "]\x7d" := by
    intro jb
    simp [jsonEndObject, jsonEndArray, hclose]
  rw [apiBuilder, hprinted, apiDocument]
  congr 1
  cases accounts with
  | nil => simpa using hstart
  | cons account accounts =>
      rw [List.foldl_cons, flatten_foldl_apiAccountToJsonObj rfl, flatten_apiAccountToJsonObj,
        hstart, List.map_cons, intercalate_cons_eq, List.flatMap_map]
      simp [jsonStartArray]

/-! ### The handler -/

variable {format : Bytes → Bytes} {scratch : ℕ → AccScratch} {d : Disk}
  {accounts : List StoredAccount}

/-- The body `handle_GET_api_accounts` makes, with `format` for `%.6f`. -/
def apiBody (format : Bytes → Bytes) (scratch : ℕ → AccScratch) (d : Disk) : Option Bytes := do
  let accounts ← listApiAccounts format scratch d
  jsonBuild (apiBuilder accounts)

/-- The balance a text denotes, printed with `%.6f`. -/
def printBalance (text : Bytes) : Bytes := printFixed 6 (scanBalance text)

/-- What `list_accounts` returns, as the API prints it. -/
theorem listApiAccounts_eq (scratch : ℕ → AccScratch) (d : Disk) :
    listApiAccounts printBalance scratch d =
      (listAccounts scratch d).map (List.map fun account =>
        ⟨account.id, account.createdAt, printFixed 6 account.balance⟩) := by
  have haccount : ∀ scratch line, apiAccount printBalance scratch line =
      (mountAccFromLineBuf scratch line).map fun account =>
        ⟨account.id, account.createdAt, printFixed 6 account.balance⟩ := by
    intro scratch line
    rw [apiAccount]
    cases hmount : mountAccFromLineBuf scratch line with
    | none => rfl
    | some account =>
        rw [Option.map_some, balance_of_mountAccFromLineBuf hmount]
        rfl
  rw [listApiAccounts, listAccounts]
  cases selectExecutor (qselectAllFrom .account) (d.table .account) with
  | none => rfl
  | some result =>
      simp only [Option.bind_eq_bind, Option.bind_some, ← mapM_map_right, haccount,
        Option.map_bind]
      rfl

/-- **The handler** sends the body made with its own format. -/
theorem handleGETApiAccounts_eq (env : HandlerEnv) (res : HttpResponse) (d : Disk) :
    handleGETApiAccounts env res d =
      (apiBody printBalance env.accScratch d).map fun text =>
        { addContentType res .json with body := text } := by
  rw [apiBody, listApiAccounts_eq, handleGETApiAccounts]
  cases listAccounts env.accScratch d with
  | none => rfl
  | some accounts =>
      have hbuilder : apiBuilder (accounts.map fun account =>
          ⟨account.id, account.createdAt, printFixed 6 account.balance⟩) =
          jsonEndObject (jsonEndArray ((accounts.map accountToGetAccountDTO).foldl
            accountDTOToJsonObj (jsonStartArray (jsonStartObject jsonInit) (lit "data")))) := by
        rw [apiBuilder, List.foldl_map, List.foldl_map]
        rfl
      simp only [Option.bind_eq_bind, Option.bind_some, Option.map_some, hbuilder]
      cases jsonBuild _ with
      | none => rfl
      | some text => rfl

/-! ### The length of the text -/

theorem length_apiObject (account : ApiAccount) : (apiObject account).length =
    36 + account.id.length + account.createdAt.length + account.balance.length := by
  have hid : (lit "\x7b\"id\":\"").length = 7 := by decide
  have hcreated : (lit "\",\"created_at\":\"").length = 16 := by decide
  have hbalance : (lit "\",\"balance\":").length = 12 := by decide
  have hclose : (lit "\x7d").length = 1 := by decide
  simp only [apiObject, List.length_append, hid, hcreated, hbalance, hclose]
  omega

/-- The bytes an account takes in the text. -/
def StoredAccount.objectSize (format : Bytes → Bytes) (a : StoredAccount) : ℕ :=
  36 + a.id.length + a.createdAt.length + (format a.balance).length

/-- The bytes of the text: 11 around the objects, and a comma between any two of them. -/
def documentSize (format : Bytes → Bytes) (accounts : List StoredAccount) : ℕ :=
  11 + (accounts.map (StoredAccount.objectSize format)).sum + (accounts.length - 1)

theorem length_apiDocument (format : Bytes → Bytes) (accounts : List StoredAccount) :
    (apiDocument (accounts.map (StoredAccount.api format))).length =
      documentSize format accounts := by
  have hopen : (lit "\x7b\"data\":[").length = 9 := by decide
  have hclose : (lit "]\x7d").length = 2 := by decide
  have hsizes : ((accounts.map (StoredAccount.api format)).map apiObject).map List.length =
      accounts.map (StoredAccount.objectSize format) := by
    rw [List.map_map, List.map_map]
    exact List.map_congr_left fun a _ => length_apiObject (a.api format)
  rw [apiDocument, List.length_append, List.length_append, length_intercalate, hsizes, hopen,
    hclose, documentSize, List.length_map, List.length_map]
  omega

/-! ### When the text is complete -/

/-- The accounts API is complete and bounded: the body is one object for each account, in order,
and the offset of the builder stays below the end of its buffer after every piece. -/
structure ApiComplete (format : Bytes → Bytes) (scratch : ℕ → AccScratch)
    (accounts : List StoredAccount) (d : Disk) : Prop where
  body : apiBody format scratch d = some (apiDocument (accounts.map (StoredAccount.api format)))
  bounded : ∀ listed, listApiAccounts format scratch d = some listed →
    ∀ printed, printed <+: (apiBuilder listed).pieces →
      printed.flatten.length ≤ jsonBufSize - 1

/-- A text that fits the buffer is printed whole. -/
theorem apiBody_of_fits {listed : List ApiAccount}
    (hlisted : listApiAccounts format scratch d = some listed)
    (hsize : (apiDocument listed).length ≤ jsonBufSize - 1) :
    apiBody format scratch d = some (apiDocument listed) := by
  rw [apiBody, hlisted, Option.bind_eq_bind, Option.bind_some, jsonBuild, snprintfs_eq_some,
    flatten_apiBuilder]
  rw [flatten_apiBuilder]
  exact Nat.lt_of_le_pred (by decide) hsize

/-- The accounts of a complete text are listed, and the text fits the buffer. -/
theorem ApiComplete.exists_listed (h : ApiComplete format scratch accounts d) :
    ∃ listed, listApiAccounts format scratch d = some listed ∧
      (apiDocument listed).length ≤ jsonBufSize - 1 ∧
        apiDocument listed = apiDocument (accounts.map (StoredAccount.api format)) := by
  obtain ⟨listed, hlisted, -⟩ := Option.bind_eq_some_iff.mp h.body
  have hsize := h.bounded listed hlisted _ List.prefix_rfl
  rw [flatten_apiBuilder] at hsize
  refine ⟨listed, hlisted, hsize, ?_⟩
  exact Option.some.inj ((apiBody_of_fits hlisted hsize).symm.trans h.body)

/-- How the text of some accounts starts. -/
theorem exists_apiDocument_cons (first : ApiAccount) (rest : List ApiAccount) : ∃ tail,
    apiDocument (first :: rest) =
      lit "\x7b\"data\":[" ++ (lit "\x7b\"id\":\"" ++ (first.id ++ ch '"' :: tail)) := by
  refine ⟨lit ",\"created_at\":\"" ++ first.createdAt ++ lit "\",\"balance\":" ++
    first.balance ++ lit "\x7d" ++ (rest.map apiObject).flatMap (ch ',' :: ·) ++ lit "]\x7d", ?_⟩
  have hcreated : lit "\",\"created_at\":\"" = ch '"' :: lit ",\"created_at\":\"" := by decide
  rw [apiDocument, List.map_cons, intercalate_cons_eq, apiObject, hcreated]
  simp

/-- A text whose first id is empty is not that of stored accounts: their ids are not. -/
theorem apiDocument_ne_of_empty_id {account : ApiAccount} (hempty : account.id = [])
    (rest : List ApiAccount) : apiDocument (account :: rest) ≠
      apiDocument (accounts.map (StoredAccount.api format)) := by
  intro heq
  obtain ⟨tail, htext⟩ := exists_apiDocument_cons account rest
  rw [htext, hempty] at heq
  cases accounts with
  | nil =>
      have hid : lit "\x7b\"id\":\"" = ch '{' :: lit "\"id\":\"" := by decide
      have hnone : apiDocument [] = lit "\x7b\"data\":[" ++ [ch ']', ch '}'] := by decide
      rw [List.map_nil, hnone, List.append_cancel_left_eq, hid] at heq
      exact absurd (List.cons.inj heq).1 (by decide)
  | cons a accounts =>
      obtain ⟨tail', htext'⟩ :=
        exists_apiDocument_cons (a.api format) (accounts.map (StoredAccount.api format))
      rw [List.map_cons, htext', List.append_cancel_left_eq, List.append_cancel_left_eq] at heq
      have hpos := (a.sized a.id (by simp)).1
      have hquote := (a.not_mem_value (by simp : a.id ∈ _)).2.2.2.2
      obtain ⟨c, id, hid⟩ := List.exists_cons_of_length_pos hpos
      rw [StoredAccount.api, hid] at heq
      rw [hid] at hquote
      have hc : ch '"' = c := by simpa using congrArg List.head? heq
      exact hquote (by simp [hc])

/-- The text of a complete answer fits the buffer of the builder. -/
theorem ApiComplete.documentSize_le (h : ApiComplete format scratch accounts d) :
    documentSize format accounts ≤ jsonBufSize - 1 := by
  obtain ⟨listed, -, hsize, hdocument⟩ := h.exists_listed
  rwa [hdocument, length_apiDocument] at hsize

/-- **When the accounts API is complete and bounded**: the result set has room for the rows, each
row fits the line buffer, and the text fits the buffer of the builder. -/
theorem accounts_api_complete_iff (htable : d.table .account = some (accountTable accounts)) :
    ApiComplete format scratch accounts d ↔
      accounts.length ≤ rsMaxRows ∧ (∀ a ∈ accounts, a.line.length ≤ 1022) ∧
        documentSize format accounts ≤ jsonBufSize - 1 := by
  constructor
  · intro h
    obtain ⟨listed, hlisted, -, hdocument⟩ := h.exists_listed
    have hfits : ∀ a ∈ accounts, a.line.length ≤ 1022 := by
      by_contra hlong
      push Not at hlong
      obtain ⟨rest, rfl⟩ := listApiAccounts_of_long htable hlong hlisted
      exact apiDocument_ne_of_empty_id rfl rest hdocument
    exact ⟨length_le_of_listApiAccounts htable hfits hlisted, hfits, h.documentSize_le⟩
  · rintro ⟨hcount, hfits, hsize⟩
    have hlisted : listApiAccounts format scratch d =
        some (accounts.map (StoredAccount.api format)) :=
      listApiAccounts_of_fits htable hcount hfits
    rw [← length_apiDocument] at hsize
    refine ⟨apiBody_of_fits hlisted hsize, fun listed hlisted' printed hprinted => ?_⟩
    obtain rfl := Option.some.inj (hlisted.symm.trans hlisted')
    refine (List.Sublist.length_le (List.IsPrefix.sublist ?_)).trans hsize
    rw [← flatten_apiBuilder]
    exact hprinted.flatten

/-- The account of the n-th user, as it is stored when it is new. -/
def numberedAccount (n : Fin rsMaxRows) : StoredAccount where
  id := printNat n
  userIdFk := printNat n
  balance := lit "0.000"
  createdAt := lit "2024-01-01 00:00:00"
  updatedAt := lit "NULL"
  plain := by decide +kernel +revert
  sized := by decide +kernel +revert

/-- The first n of them. -/
def numberedAccounts (n : ℕ) : List StoredAccount :=
  ((List.finRange rsMaxRows).take n).map numberedAccount

/-- A directory with an account table. -/
def accountDisk (accounts : List StoredAccount) : Disk :=
  Disk.empty.put .account (some (accountTable accounts))

theorem accounts_api_complete_two : ApiComplete printBalance (fun _ => ⟨[], [], [], []⟩)
    (numberedAccounts 2) (accountDisk (numberedAccounts 2)) :=
  (accounts_api_complete_iff (Disk.put_table_self _ _ _)).mpr
    ⟨by decide +kernel, by decide +kernel, by decide +kernel⟩

/-- Eighty new accounts are too many for the buffer of the builder. -/
theorem eighty_accounts_cut : ¬ ApiComplete printBalance (fun _ => ⟨[], [], [], []⟩)
    (numberedAccounts 80) (accountDisk (numberedAccounts 80)) := by
  intro h
  exact absurd h.documentSize_le (by decide +kernel)

end CBank
