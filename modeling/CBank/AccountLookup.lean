import CBank.AccountRows

/-!
# Looking up an Account

`get_account_by_user_id` on a table of rows as `make_new_account` inserts them. The lookup filters
the lines, joins the first one it kept again, and scans the joined text for its five labels. No
value holds an equals sign, so a label is only found at the head of its own pair, also `id=`, in
which the label of the second column ends.

The conversion `%lf` of the balance is some function `number` of its text.

## Main results

* `applySelectWhere_record`: which rows the lookup keeps.
* `getAccountByUserId_eq`: it returns the first row of the user.
-/

namespace CBank

open CLib

/-! ### The table -/

/-- A row of the account table: five values of 1 to 19 bytes that the table format can carry. -/
structure AccountRecord where
  id : Bytes
  userIdFk : Bytes
  balance : Bytes
  createdAt : Bytes
  updatedAt : Bytes
  plain : ∀ value ∈ [id, userIdFk, balance, createdAt, updatedAt], ∀ c ∈ value,
    c ≠ 0 ∧ c ≠ newline ∧ c ≠ ch ';' ∧ c ≠ ch '='
  sized : ∀ value ∈ [id, userIdFk, balance, createdAt, updatedAt],
    1 ≤ value.length ∧ value.length ≤ 19

namespace AccountRecord

/-- The pairs of a row. -/
def row (a : AccountRecord) : Row :=
  accountPairs a.id a.userIdFk a.balance a.createdAt a.updatedAt

/-- The row `make_new_account` inserts. -/
theorem row_eq_accountRow {a : AccountRecord} (hbalance : a.balance = lit "0.000")
    (hupdated : a.updatedAt = lit "NULL") : a.row = accountRow a.id a.userIdFk a.createdAt := by
  rw [row, hbalance, hupdated, accountPairs, accountRow]

theorem value_mem (a : AccountRecord) {p : Bytes × Bytes} (hp : p ∈ a.row) :
    p.2 ∈ [a.id, a.userIdFk, a.balance, a.createdAt, a.updatedAt] :=
  List.mem_map_of_mem (f := Prod.snd) hp

/-- The values hold none of the characters the table format gives a meaning. -/
theorem not_mem_value (a : AccountRecord) {value : Bytes}
    (hvalue : value ∈ [a.id, a.userIdFk, a.balance, a.createdAt, a.updatedAt]) :
    NulFree value ∧ newline ∉ value ∧ ch ';' ∉ value ∧ ch '=' ∉ value := by
  have hplain := a.plain value hvalue
  refine ⟨fun h => ?_, fun h => ?_, fun h => ?_, fun h => ?_⟩
  · exact (hplain _ h).1 rfl
  · exact (hplain _ h).2.1 rfl
  · exact (hplain _ h).2.2.1 rfl
  · exact (hplain _ h).2.2.2 rfl

/-- A row is one line of the table. -/
theorem row_line (a : AccountRecord) :
    NulFree (rowText a.row) ∧ newline ∉ rowText a.row ∧ (rowText a.row).length + 1 < 1024 := by
  refine ⟨nulFree_rowText columnOk_accountPairs fun p hp => (a.not_mem_value (a.value_mem hp)).1,
    newline_not_mem_rowText columnOk_accountPairs
      fun p hp => (a.not_mem_value (a.value_mem hp)).2.1, ?_⟩
  have hsized := a.sized
  simp only [List.mem_cons, List.not_mem_nil, or_false, forall_eq_or_imp, forall_eq] at hsized
  have hkeys : (lit "id").length = 2 ∧ (lit "user_id_fk").length = 10 ∧
      (lit "balance").length = 7 ∧ (lit "created_at").length = 10 ∧
      (lit "updated_at").length = 10 := by decide
  simp only [row, accountPairs, rowText, List.length_append, List.length_cons, hkeys]
  omega

/-- The pairs of its line are its own. -/
theorem linePairs_row (a : AccountRecord) : linePairs (rowText a.row) = a.row :=
  linePairs_rowText columnOk_accountPairs fun _ hp => (a.not_mem_value (a.value_mem hp)).2.2.1

/-- A whole row is selected. -/
theorem selectPairs_row (a : AccountRecord) :
    selectPairs (qselectAllFrom .account).columns (rowText a.row) = a.row := by
  rw [selectPairs_eq_linePairs nodup_accountQuery fun p hp => ?_, a.linePairs_row]
  rw [a.linePairs_row] at hp
  exact accountColumns_subset (List.mem_map_of_mem (f := Prod.fst) hp)

end AccountRecord

/-- The text of an account table. -/
def recordTable (accounts : List AccountRecord) : Bytes :=
  linesText (accounts.map fun a => rowText a.row)

/-! ### The lookup -/

/-- An account, with `number` of the text of its balance. -/
structure FoundAccount (β : Type) where
  id : Bytes
  userIdFk : Bytes
  balance : β
  createdAt : Bytes
  updatedAt : Bytes

/-- The account a row stands for. -/
def AccountRecord.found {β : Type} (number : Bytes → β) (a : AccountRecord) : FoundAccount β :=
  ⟨a.id, a.userIdFk, number a.balance, a.createdAt, a.updatedAt⟩

/-- The query of `get_account_by_user_id`. -/
def userIdQuery (userId : Bytes) : SelectQuery :=
  qwhere (qselectAllFrom .account) (lit "user_id_fk") (lit "=") userId

/-- `get_account_by_user_id`, with `number` for the conversion `%lf`. -/
def getAccountByUserId {β : Type} (number : Bytes → β) (scratch : AccScratch) (userId : Bytes)
    (d : Disk) : Option (Option (FoundAccount β)) := do
  let result ← selectExecutor (userIdQuery userId) (d.table .account)
  if result.rows = 0 then some none
  else do
    let buf ← fullLine result 0 1024
    let account ← mountAccFromLineBuf scratch buf
    some (some ⟨account.id, account.userIdFk, number (balanceText buf), account.createdAt,
      account.updatedAt⟩)

/-- Where `number` is the value `%lf` stores, this is `get_account_by_field`. -/
theorem getAccountByUserId_scanBalance (scratch : AccScratch) (userId : Bytes) (d : Disk) :
    getAccountByUserId scanBalance scratch userId d =
      (getAccountByField scratch (lit "user_id_fk") userId d).map fun response =>
        response.map fun a => ⟨a.id, a.userIdFk, a.balance, a.createdAt, a.updatedAt⟩ := by
  rw [getAccountByUserId, getAccountByField, userIdQuery]
  cases selectExecutor (qwhere (qselectAllFrom .account) (lit "user_id_fk") (lit "=") userId)
      (d.table .account) with
  | none => rfl
  | some result =>
      simp only [Option.bind_eq_bind, Option.bind_some]
      split
      · rfl
      · cases fullLine result 0 1024 with
        | none => rfl
        | some buf =>
            simp only [Option.bind_some]
            cases hmount : mountAccFromLineBuf scratch buf with
            | none => rfl
            | some account =>
                rw [← balance_of_mountAccFromLineBuf hmount]
                rfl

/-- **Which rows the lookup keeps**: those of the user. -/
theorem applySelectWhere_record (a : AccountRecord) (userId : Bytes) :
    applySelectWhere (userIdQuery userId) (rowText a.row) = decide (a.userIdFk = userId) := by
  have hlen := a.row_line.2.2
  have hcond : (userIdQuery userId).conditions = [⟨lit "user_id_fk", lit "=", userId⟩] := rfl
  have hkeys : lit "user_id_fk" ≠ lit "id" ∧ lit "user_id_fk" ≠ lit "balance" ∧
      lit "user_id_fk" ≠ lit "created_at" ∧ lit "user_id_fk" ≠ lit "updated_at" := by decide
  rw [applySelectWhere, hcond, List.take_of_length_le (by omega), a.linePairs_row]
  simp [AccountRecord.row, accountPairs, hkeys, compare]

/-- The rows the lookup selects from a table. -/
theorem matchedRows_recordTable (accounts : List AccountRecord) (userId : Bytes) :
    matchedRows (userIdQuery userId) (recordTable accounts) =
      (accounts.filter fun a => a.userIdFk = userId).map AccountRecord.row := by
  have hlines : tableLines (recordTable accounts) = accounts.map fun a => rowText a.row := by
    refine fileLines_linesText ?_
    rw [List.forall_mem_map]
    exact fun a _ => a.row_line
  have hfilter : accounts.filter ((fun line => applySelectWhere (userIdQuery userId) line) ∘
      fun a => rowText a.row) = accounts.filter fun a => a.userIdFk = userId :=
    List.filter_congr fun a _ => applySelectWhere_record a userId
  rw [matchedRows, hlines, List.filter_map, hfilter, List.map_map]
  exact List.map_congr_left fun a _ => a.selectPairs_row

/-- **Account lookup is exact.** For every table of at most 100 rows, every user id and every
conversion of the balance, `get_account_by_user_id` succeeds exactly when some row has the user id,
and returns the account of the first such row. -/
theorem getAccountByUserId_eq {β : Type} (number : Bytes → β) (scratch : AccScratch)
    {accounts : List AccountRecord} (hcount : accounts.length ≤ rsMaxRows) {d : Disk}
    (htable : d.table .account = some (recordTable accounts)) (userId : Bytes) :
    getAccountByUserId number scratch userId d =
      some ((accounts.find? fun a => a.userIdFk = userId).map (AccountRecord.found number)) := by
  set found := accounts.filter fun a => a.userIdFk = userId with hfound
  have hselect : selectExecutor (userIdQuery userId) (some (recordTable accounts)) =
      some (ResultSet.ofRows (found.map AccountRecord.row)) := by
    refine selectExecutor_eq_ofRows (matchedRows_recordTable _ _) ?_ ?_
    · rw [List.length_map]
      exact (List.length_filter_le _ _).trans hcount
    · rw [List.forall_mem_map]
      exact fun a _ => (by decide : 5 ≤ rsMaxCols)
  rw [getAccountByUserId, htable, hselect, Option.bind_eq_bind, Option.bind_some, rows_ofRows,
    List.length_map, ← List.head?_filter, ← hfound]
  cases found with
  | nil => rfl
  | cons a rest =>
      have hwidth : ∀ row ∈ (a :: rest).map AccountRecord.row, row.length = 5 :=
        List.forall_mem_map.mpr fun _ _ => rfl
      have hlen := a.row_line.2.2
      obtain ⟨hmount, htext⟩ := mountAccFromLineBuf_accountPairs (fun value hvalue =>
        ⟨(a.not_mem_value hvalue).2.2.1, (a.not_mem_value hvalue).2.2.2⟩)
        (fun value hvalue => a.sized value (by
          simp only [List.mem_cons, List.not_mem_nil, or_false] at hvalue ⊢
          tauto)) scratch
      have hline : fullLine (ResultSet.ofRows ((a :: rest).map AccountRecord.row)) 0 1024 =
          some (rowText (accountPairs a.id a.userIdFk a.balance a.createdAt a.updatedAt)) :=
        fullLine_of_width rfl hwidth (Nat.lt_of_succ_lt hlen)
      rw [if_neg (by simp), hline]
      simp only [Option.bind_eq_bind, Option.bind_some, hmount, htext]
      rfl

/-- An account of a user. -/
def sampleRecord (userId : Bytes) (hplain : ∀ c ∈ userId, c ≠ 0 ∧ c ≠ newline ∧ c ≠ ch ';' ∧
    c ≠ ch '=') (hsized : 1 ≤ userId.length ∧ userId.length ≤ 19) : AccountRecord where
  id := lit "7"
  userIdFk := userId
  balance := lit "0.000"
  createdAt := lit "2024-01-01 00:00:00"
  updatedAt := lit "NULL"
  plain := by
    simp only [List.mem_cons, List.not_mem_nil, or_false, forall_eq_or_imp, forall_eq]
    exact ⟨by decide +kernel, hplain, by decide +kernel, by decide +kernel, by decide +kernel⟩
  sized := by
    simp only [List.mem_cons, List.not_mem_nil, or_false, forall_eq_or_imp, forall_eq]
    exact ⟨by decide, hsized, by decide, by decide, by decide⟩

/-- Two accounts, the second one of the user `1`. -/
def sampleRecords : List AccountRecord :=
  [sampleRecord (lit "0") (by decide +kernel) (by decide),
    sampleRecord (lit "1") (by decide +kernel) (by decide)]

/-- The account of the user `1`. -/
theorem getAccountByUserId_one :
    getAccountByUserId id ⟨[], [], [], []⟩ (lit "1")
        (Disk.empty.put .account (some (recordTable sampleRecords))) =
      some (some ⟨lit "7", lit "1", lit "0.000", lit "2024-01-01 00:00:00", lit "NULL"⟩) :=
  @getAccountByUserId_eq _ id ⟨[], [], [], []⟩ sampleRecords (by decide) _
    (Disk.put_table_self _ _ _) (lit "1")

end CBank
