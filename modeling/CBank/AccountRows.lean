import CBank.AccountStore
import CBank.UserRow

/-!
# Rows of Accounts

How the rows of the account table are listed. `make_new_account` writes five columns in a fixed
order; `list_accounts` selects them, joins the values of each row again under the names of the
first one, and scans the line that comes out. What the accounts API prints of an account is its
id, its date, and some text made of the balance that was stored (`ApiAccount`): printing with
`%.6f` is the function `format` here, of which nothing is assumed.

The table is read through a buffer of 1024 bytes, and the result set has room for 100 rows. A row
that does not fit the buffer comes back as more than one line, and a line without all five
columns makes every account an empty one, or reads past a row of the result set.

## Main results

* `listApiAccounts_of_fits`: the accounts listed, when the rows fit.
* `listApiAccounts_of_long`: the first account listed is empty when one of them does not.
-/

namespace CBank

open CLib

/-! ### What is stored -/

/-- A row of the account table: five values the table format and a JSON text can carry, four of
them with room in their arrays. -/
structure StoredAccount where
  id : Bytes
  userIdFk : Bytes
  balance : Bytes
  createdAt : Bytes
  updatedAt : Bytes
  plain : ∀ value ∈ [id, userIdFk, balance, createdAt, updatedAt], ∀ c ∈ value,
    c ≠ 0 ∧ c ≠ newline ∧ c ≠ ch ';' ∧ c ≠ ch '=' ∧ c ≠ ch '"' ∧ c ≠ ch '\\'
  sized : ∀ value ∈ [id, userIdFk, createdAt, updatedAt], 1 ≤ value.length ∧ value.length ≤ 19

/-- The columns of the account table. -/
def accountColumns : List Bytes :=
  [lit "id", lit "user_id_fk", lit "balance", lit "created_at", lit "updated_at"]

theorem columnOk_accountColumns : ∀ col ∈ accountColumns, ColumnOk col := by decide

/-- No column name of an account ends in a later one. -/
theorem suffixFree_accountColumns : accountColumns.Pairwise fun c c' => ¬ c' <:+ c := by decide

/-- The pairs of a row with these values. -/
def accountPairs (id userIdFk balance createdAt updatedAt : Bytes) : Row :=
  [(lit "id", id), (lit "user_id_fk", userIdFk), (lit "balance", balance),
    (lit "created_at", createdAt), (lit "updated_at", updatedAt)]

theorem accountPairs_columns (id userIdFk balance createdAt updatedAt : Bytes) :
    (accountPairs id userIdFk balance createdAt updatedAt).map Prod.fst = accountColumns := rfl

theorem columnOk_accountPairs {id userIdFk balance createdAt updatedAt : Bytes} :
    ∀ p ∈ accountPairs id userIdFk balance createdAt updatedAt, ColumnOk p.1 := fun _ hp =>
  columnOk_accountColumns _ (accountPairs_columns .. ▸ List.mem_map_of_mem hp)

/-- Every column of a row is found at its own place, when no value has an equals sign. -/
theorem strstr_accountPairs {id userIdFk balance createdAt updatedAt : Bytes}
    (hfree : ∀ value ∈ [id, userIdFk, balance, createdAt, updatedAt], ch '=' ∉ value)
    {col value : Bytes}
    (hmem : (col, value) ∈ accountPairs id userIdFk balance createdAt updatedAt) :
    ∃ rest, strstr (col ++ [ch '=']) (rowText (accountPairs id userIdFk balance createdAt
      updatedAt)) = some (col ++ [ch '='] ++ (value ++ rowTail rest)) := by
  have hsuffix := suffixFree_accountColumns
  rw [← accountPairs_columns id userIdFk balance createdAt updatedAt, List.pairwise_map] at hsuffix
  refine strstr_of_mem_row columnOk_accountPairs hsuffix ?_ hmem
  refine List.Pairwise.imp_of_mem (fun hp _ _ h => ?_) (List.pairwise_of_forall fun _ _ => trivial)
  exact hfree _ (List.mem_map_of_mem (f := Prod.snd) hp) (h.subset (by simp))

namespace StoredAccount

/-- The pairs of a row. -/
def row (a : StoredAccount) : Row :=
  [(lit "id", a.id), (lit "user_id_fk", a.userIdFk), (lit "balance", a.balance),
    (lit "created_at", a.createdAt), (lit "updated_at", a.updatedAt)]

/-- The line of a row. -/
def line (a : StoredAccount) : Bytes := rowText a.row

theorem row_columns (a : StoredAccount) : a.row.map Prod.fst = accountColumns := rfl

/-- The row `make_new_account` inserts. -/
theorem row_eq_accountRow {a : StoredAccount} (hbalance : a.balance = lit "0.000")
    (hupdated : a.updatedAt = lit "NULL") : a.row = accountRow a.id a.userIdFk a.createdAt := by
  rw [row, hbalance, hupdated, accountRow]

theorem columnOk (a : StoredAccount) : ∀ p ∈ a.row, ColumnOk p.1 := fun _ hp =>
  columnOk_accountColumns _ (a.row_columns ▸ List.mem_map_of_mem hp)

theorem value_mem (a : StoredAccount) {p : Bytes × Bytes} (hp : p ∈ a.row) :
    p.2 ∈ [a.id, a.userIdFk, a.balance, a.createdAt, a.updatedAt] :=
  List.mem_map_of_mem (f := Prod.snd) hp

/-- The values hold none of the characters the formats give a meaning. -/
theorem not_mem_value (a : StoredAccount) {value : Bytes}
    (hvalue : value ∈ [a.id, a.userIdFk, a.balance, a.createdAt, a.updatedAt]) :
    NulFree value ∧ newline ∉ value ∧ ch ';' ∉ value ∧ ch '=' ∉ value ∧ ch '"' ∉ value := by
  have hplain := a.plain value hvalue
  refine ⟨fun h => ?_, fun h => ?_, fun h => ?_, fun h => ?_, fun h => ?_⟩
  · exact (hplain _ h).1 rfl
  · exact (hplain _ h).2.1 rfl
  · exact (hplain _ h).2.2.1 rfl
  · exact (hplain _ h).2.2.2.1 rfl
  · exact (hplain _ h).2.2.2.2.1 rfl

theorem nulFree_line (a : StoredAccount) : NulFree a.line :=
  nulFree_rowText a.columnOk fun _ hp => (a.not_mem_value (a.value_mem hp)).1

theorem newline_not_mem_line (a : StoredAccount) : newline ∉ a.line :=
  newline_not_mem_rowText a.columnOk fun _ hp => (a.not_mem_value (a.value_mem hp)).2.1

theorem semi_not_mem_value (a : StoredAccount) : ∀ p ∈ a.row, ch ';' ∉ p.2 :=
  fun _ hp => (a.not_mem_value (a.value_mem hp)).2.2.1

end StoredAccount

/-! ### What is listed -/

/-- What `accountDTO_to_json_obj` prints of an account. -/
structure ApiAccount where
  id : Bytes
  createdAt : Bytes
  balance : Bytes

/-- A stored account as the API prints it, with `format` for `%.6f`. -/
def StoredAccount.api (format : Bytes → Bytes) (a : StoredAccount) : ApiAccount :=
  ⟨a.id, a.createdAt, format a.balance⟩

/-- The text `mount_acc_from_line_buf` scans the balance from: up to the semicolon, which no
number contains. Without all five columns nothing is scanned. -/
def balanceText (line : Bytes) : Bytes :=
  match strstr (lit "id=") line, strstr (lit "user_id_fk=") line, strstr (lit "balance=") line,
    strstr (lit "created_at=") line, strstr (lit "updated_at=") line with
  | some _, some _, some balanceToken, some _, some _ =>
      (balanceToken.drop (lit "balance=").length).takeWhile (· ≠ ch ';')
  | _, _, _, _, _ => []

/-- The account mounted from a line, as the API prints it. -/
def apiAccount (format : Bytes → Bytes) (scratch : AccScratch) (line : Bytes) :
    Option ApiAccount := do
  let account ← mountAccFromLineBuf scratch line
  some ⟨account.id, account.createdAt, format (balanceText line)⟩

/-- `list_accounts`, as the API prints its accounts. -/
def listApiAccounts (format : Bytes → Bytes) (scratch : ℕ → AccScratch) (d : Disk) :
    Option (List ApiAccount) := do
  let result ← selectExecutor (qselectAllFrom .account) (d.table .account)
  (List.range result.rows).mapM fun i => do
    let line ← getLineFromResultset result i
    apiAccount format (scratch i) line

theorem balanceText_of_found {line idToken userIdFkToken balanceToken createdAtToken
    updatedAtToken : Bytes} (hid : strstr (lit "id=") line = some idToken)
    (hfk : strstr (lit "user_id_fk=") line = some userIdFkToken)
    (hbalance : strstr (lit "balance=") line = some balanceToken)
    (hcreated : strstr (lit "created_at=") line = some createdAtToken)
    (hupdated : strstr (lit "updated_at=") line = some updatedAtToken) : balanceText line =
      (balanceToken.drop (lit "balance=").length).takeWhile (· ≠ ch ';') := by
  rw [balanceText, hid, hfk, hbalance, hcreated, hupdated]

/-- The balance of a mounted account is the number its text denotes. -/
theorem balance_of_mountAccFromLineBuf {scratch : AccScratch} {line : Bytes} {account : Account}
    (h : mountAccFromLineBuf scratch line = some account) :
    account.balance = scanBalance (balanceText line) := by
  have hsemi : ∀ s : Bytes, scanBalance (s.takeWhile (· ≠ ch ';')) = scanBalance s := by
    intro s
    have hsplit := List.takeWhile_append_dropWhile (p := (· ≠ ch ';')) (l := s)
    rcases dropWhile_ne_eq (ch ';') s with hnil | ⟨rest, hcons⟩
    · rw [hnil, List.append_nil] at hsplit
      rw [hsplit]
    · conv_rhs => rw [← hsplit, hcons]
      rw [scanBalance, scanBalance, scanDouble_append_cons (by decide) (by decide)]
  rw [mountAccFromLineBuf] at h
  split at h
  · rename_i hid hfk hbalance hcreated hupdated
    rw [balanceText_of_found hid hfk hbalance hcreated hupdated]
    obtain ⟨-, -, h⟩ := Option.bind_eq_some_iff.mp h
    rw [← Option.some.inj h, hsemi]
  · rename_i hnone
    obtain rfl := Option.some.inj h
    rw [balanceText]
    split
    · rename_i hid hfk hbalance hcreated hupdated
      exact absurd hupdated (hnone _ _ _ _ _ hid hfk hbalance hcreated)
    · rfl

/-- The keys `mount_acc_from_line_buf` searches for. -/
theorem accountKeys : lit "id=" = lit "id" ++ [ch '='] ∧
    lit "user_id_fk=" = lit "user_id_fk" ++ [ch '='] ∧
    lit "balance=" = lit "balance" ++ [ch '='] ∧
    lit "created_at=" = lit "created_at" ++ [ch '='] ∧
    lit "updated_at=" = lit "updated_at" ++ [ch '='] := by decide

/-- **A row is mounted as it was stored**, when its values suit the format and fit the account. -/
theorem mountAccFromLineBuf_accountPairs {id userIdFk balance createdAt updatedAt : Bytes}
    (hfree : ∀ value ∈ [id, userIdFk, balance, createdAt, updatedAt],
      ch ';' ∉ value ∧ ch '=' ∉ value)
    (hsized : ∀ value ∈ [id, userIdFk, createdAt, updatedAt],
      1 ≤ value.length ∧ value.length ≤ 19) (scratch : AccScratch) :
    mountAccFromLineBuf scratch (rowText (accountPairs id userIdFk balance createdAt updatedAt)) =
        some ⟨id, userIdFk, scanBalance balance, createdAt, updatedAt⟩ ∧
      balanceText (rowText (accountPairs id userIdFk balance createdAt updatedAt)) = balance := by
  set line := rowText (accountPairs id userIdFk balance createdAt updatedAt) with hline
  have hfound : ∀ col value, (col, value) ∈ accountPairs id userIdFk balance createdAt updatedAt →
      ∃ rest, strstr (col ++ [ch '=']) line = some (col ++ [ch '='] ++ (value ++ rowTail rest)) :=
    fun _ _ hmem => strstr_accountPairs (fun value hvalue => (hfree value hvalue).2) hmem
  obtain ⟨hkey₁, hkey₂, hkey₃, hkey₄, hkey₅⟩ := accountKeys
  obtain ⟨r₁, hid⟩ := hfound (lit "id") id (by simp [accountPairs])
  obtain ⟨r₂, hfk⟩ := hfound (lit "user_id_fk") userIdFk (by simp [accountPairs])
  obtain ⟨r₃, hbalance⟩ := hfound (lit "balance") balance (by simp [accountPairs])
  obtain ⟨r₄, hcreated⟩ := hfound (lit "created_at") createdAt (by simp [accountPairs])
  obtain ⟨r₅, hupdated⟩ := hfound (lit "updated_at") updatedAt (by simp [accountPairs])
  rw [← hkey₁] at hid
  rw [← hkey₂] at hfk
  rw [← hkey₃] at hbalance
  rw [← hkey₄] at hcreated
  rw [← hkey₅] at hupdated
  have hscan : ∀ {key value : Bytes} (rest : Row) (scratch : Bytes),
      value ∈ [id, userIdFk, createdAt, updatedAt] →
        scanColumn key (key ++ (value ++ rowTail rest)) 19 scratch = value ∧
          value.length ≤ 19 := by
    intro key value rest scratch hvalue
    obtain ⟨hpos, hle⟩ := hsized value hvalue
    have hmem : value ∈ [id, userIdFk, balance, createdAt, updatedAt] := by
      simp only [List.mem_cons, List.not_mem_nil, or_false] at hvalue ⊢
      tauto
    exact ⟨scanColumn_rowTail (List.ne_nil_of_length_pos hpos) hle (hfree value hmem).1 rest
      scratch, hle⟩
  obtain ⟨hid₁, hid₂⟩ := @hscan (lit "id=") id r₁ scratch.id (by simp)
  obtain ⟨hfk₁, hfk₂⟩ := @hscan (lit "user_id_fk=") userIdFk r₂ scratch.userIdFk (by simp)
  obtain ⟨hcreated₁, hcreated₂⟩ :=
    @hscan (lit "created_at=") createdAt r₄ scratch.createdAt (by simp)
  obtain ⟨hupdated₁, hupdated₂⟩ :=
    @hscan (lit "updated_at=") updatedAt r₅ scratch.updatedAt (by simp)
  have htext : balanceText line = balance := by
    rw [balanceText_of_found hid hfk hbalance hcreated hupdated, List.drop_left]
    exact takeWhile_rowTail (hfree balance (by simp)).1 r₃
  have hmount : mountAccFromLineBuf scratch line =
      some ⟨id, userIdFk, scanBalance (balance ++ rowTail r₃), createdAt, updatedAt⟩ := by
    rw [mountAccFromLineBuf, hid, hfk, hbalance, hcreated, hupdated]
    simp only [hid₁, hfk₁, hcreated₁, hupdated₁, hid₂, hfk₂, hcreated₂, hupdated₂, List.drop_left]
    rfl
  have hnumber : scanBalance (balance ++ rowTail r₃) = scanBalance (balanceText line) :=
    balance_of_mountAccFromLineBuf hmount
  rw [hmount, hnumber, htext]
  exact ⟨rfl, rfl⟩

/-- **A stored account is mounted as it was stored.** -/
theorem StoredAccount.apiAccount_line (a : StoredAccount) (format : Bytes → Bytes)
    (scratch : AccScratch) :
    apiAccount format scratch a.line = some (a.api format) := by
  obtain ⟨hmount, htext⟩ := mountAccFromLineBuf_accountPairs (fun value hvalue =>
    ⟨(a.not_mem_value hvalue).2.2.1, (a.not_mem_value hvalue).2.2.2.1⟩) a.sized scratch
  have hline : a.line =
      rowText (accountPairs a.id a.userIdFk a.balance a.createdAt a.updatedAt) := rfl
  rw [apiAccount, hline, hmount, htext]
  rfl

/-- A line without the last column is mounted as an empty account. -/
theorem apiAccount_of_absent (format : Bytes → Bytes) (scratch : AccScratch) {line : Bytes}
    (h : ¬ lit "updated_at=" <:+: line) :
    apiAccount format scratch line = some ⟨[], [], format []⟩ := by
  have habsent : strstr (lit "updated_at=") line = none := strstr_eq_none_iff.mpr h
  have hmount : mountAccFromLineBuf scratch line = some Account.zero := by
    rw [mountAccFromLineBuf, habsent]
    split
    · rename_i hfound
      exact absurd hfound (by simp)
    · rfl
  have htext : balanceText line = [] := by
    rw [balanceText, habsent]
    split
    · rename_i hfound
      exact absurd hfound (by simp)
    · rfl
  rw [apiAccount, hmount, htext]
  rfl

/-! ### The lines of the table -/

/-- The text of an account table. -/
def accountTable (accounts : List StoredAccount) : Bytes :=
  linesText (accounts.map StoredAccount.line)

/-- The lines are those of the rows, one after the other. -/
theorem tableLines_accountTable (accounts : List StoredAccount) :
    tableLines (accountTable accounts) =
      accounts.flatMap fun a => tableLines (a.line ++ [newline]) := by
  rw [tableLines, accountTable, fileLines_linesText_flatMap, List.flatMap_map]

/-- The columns `list_accounts` selects. -/
theorem nodup_accountQuery : (qselectAllFrom .account).columns.Nodup := by decide +kernel

theorem accountColumns_subset : accountColumns ⊆ (qselectAllFrom .account).columns := by
  decide +kernel

/-- Every line is selected. -/
theorem matchedRows_account (text : Bytes) : matchedRows (qselectAllFrom .account) text =
    (tableLines text).map (selectPairs (qselectAllFrom .account).columns) := by
  rw [matchedRows, List.filter_eq_self.mpr]
  exact fun _ _ => rfl

/-- What is selected of a row, whole or cut: names from the first column on, and values without an
equals sign. -/
theorem StoredAccount.selectPairs_of_prefix (a : StoredAccount) {line : Bytes}
    (h : line <+: a.line) :
    (selectPairs (qselectAllFrom .account).columns line).map Prod.fst <+: accountColumns ∧
      ∀ p ∈ selectPairs (qselectAllFrom .account).columns line, ch '=' ∉ p.2 := by
  obtain ⟨hnames, hvalues⟩ := linePairs_of_prefix a.columnOk a.semi_not_mem_value h
  rw [a.row_columns] at hnames
  rw [selectPairs_eq_linePairs nodup_accountQuery fun p hp =>
    accountColumns_subset (hnames.subset (List.mem_map_of_mem hp))]
  refine ⟨hnames, fun p hp hmem => ?_⟩
  obtain ⟨q, hq, hcut⟩ := hvalues p hp
  exact (a.not_mem_value (a.value_mem hq)).2.2.2.1 (hcut.subset hmem)

/-- A whole row is selected. -/
theorem StoredAccount.selectPairs_line (a : StoredAccount) :
    selectPairs (qselectAllFrom .account).columns a.line = a.row := by
  have hpairs : linePairs a.line = a.row := linePairs_rowText a.columnOk a.semi_not_mem_value
  rw [selectPairs_eq_linePairs nodup_accountQuery fun p hp => ?_, hpairs]
  rw [hpairs] at hp
  exact accountColumns_subset (a.row_columns ▸ List.mem_map_of_mem hp)

/-! ### Tables whose rows fit -/

variable {format : Bytes → Bytes} {scratch : ℕ → AccScratch} {d : Disk}
  {accounts : List StoredAccount}

/-- The row a whole line is read back as. -/
theorem StoredAccount.tableLines_line {a : StoredAccount} (h : a.line.length ≤ 1022) :
    tableLines (a.line ++ [newline]) = [a.line] := by
  have hline := fileLines_append_row (Or.inl rfl : EndsInNewline newline []) a.nulFree_line
    a.newline_not_mem_line (by omega : a.line.length + 1 < 1024)
  rw [List.nil_append] at hline
  exact hline

theorem matchedRows_of_fits (hfits : ∀ a ∈ accounts, a.line.length ≤ 1022) :
    matchedRows (qselectAllFrom .account) (accountTable accounts) =
      accounts.map StoredAccount.row := by
  rw [matchedRows_account, tableLines_accountTable]
  induction accounts with
  | nil => rfl
  | cons a accounts ih =>
      rw [List.flatMap_cons, StoredAccount.tableLines_line (hfits a List.mem_cons_self),
        List.map_append, ih fun b hb => hfits b (List.mem_cons_of_mem _ hb), List.map_singleton,
        a.selectPairs_line]
      rfl

/-- **The accounts listed**, when there are at most 100 rows and each fits the buffer. -/
theorem listApiAccounts_of_fits (htable : d.table .account = some (accountTable accounts))
    (hcount : accounts.length ≤ rsMaxRows) (hfits : ∀ a ∈ accounts, a.line.length ≤ 1022) :
    listApiAccounts format scratch d = some (accounts.map (StoredAccount.api format)) := by
  have hselect : selectExecutor (qselectAllFrom .account) (some (accountTable accounts)) =
      some (ResultSet.ofRows (accounts.map StoredAccount.row)) := by
    refine selectExecutor_eq_ofRows (matchedRows_of_fits hfits) (by rwa [List.length_map]) ?_
    rw [List.forall_mem_map]
    exact fun a _ => (by decide : 5 ≤ rsMaxCols)
  rw [listApiAccounts, htable, hselect, Option.bind_eq_bind, Option.bind_some, rows_ofRows,
    List.length_map]
  refine mapM_range_eq_some_iff.mpr ⟨List.length_map _, fun i hi => ?_⟩
  obtain ⟨first, rest, hcons⟩ : ∃ first rest, accounts = first :: rest :=
    List.exists_cons_of_length_pos (by omega)
  have hcols : (ResultSet.ofRows (accounts.map StoredAccount.row)).cols = 5 := by
    have hlast := List.getLast?_eq_some_getLast (List.ne_nil_of_length_pos (by omega) :
      accounts ≠ [])
    simp [ResultSet.ofRows, List.getLast?_map, hlast, StoredAccount.row]
  have hline : getLineFromResultset (ResultSet.ofRows (accounts.map StoredAccount.row)) i =
      some accounts[i].line := by
    have hfirst : (accounts.map StoredAccount.row).head? = some first.row := by simp [hcons]
    have hrow : (accounts.map StoredAccount.row)[i]? = some accounts[i].row := by simp [hi]
    rw [getLineFromResultset_ofRows hfirst hrow rfl (by rw [hcols]; decide)
      (by rw [hcols]; exact le_rfl), hcols]
    rfl
  rw [hline, Option.bind_eq_bind, Option.bind_some, StoredAccount.apiAccount_line]
  simp [hi]

/-- More than 100 rows are not listed. -/
theorem length_le_of_listApiAccounts (htable : d.table .account = some (accountTable accounts))
    (hfits : ∀ a ∈ accounts, a.line.length ≤ 1022) {listed : List ApiAccount}
    (h : listApiAccounts format scratch d = some listed) : accounts.length ≤ rsMaxRows := by
  obtain ⟨result, hselect, -⟩ := Option.bind_eq_some_iff.mp h
  rw [htable] at hselect
  obtain ⟨-, hcount, -⟩ := selectExecutor_eq_some_iff.mp hselect
  rwa [matchedRows_of_fits hfits, List.length_map] at hcount

/-! ### Tables with a row that does not fit -/

/-- The first line a row is read back as is the row, whole or cut. -/
theorem StoredAccount.exists_tableLines (a : StoredAccount) :
    ∃ line rest, tableLines (a.line ++ [newline]) = line :: rest ∧ line <+: a.line := by
  rcases le_or_gt a.line.length 1022 with hshort | hlong
  · exact ⟨a.line, [], a.tableLines_line hshort, List.prefix_rfl⟩
  · exact ⟨_, _, tableLines_of_long a.nulFree_line a.newline_not_mem_line hlong,
      List.take_prefix _ _⟩

/-- A row that does not fit has a line with at most four of its columns. -/
theorem StoredAccount.exists_cut_line (a : StoredAccount) (hlong : 1022 < a.line.length) :
    ∃ line ∈ tableLines (a.line ++ [newline]),
      (selectPairs (qselectAllFrom .account).columns line).length ≤ 4 := by
  have hlines := tableLines_of_long a.nulFree_line a.newline_not_mem_line hlong
  obtain ⟨line, hline⟩ : ∃ line, line ∈ tableLines (a.line.drop 1023 ++ [newline]) := by
    refine List.exists_mem_of_ne_nil _ ?_
    rw [tableLines, fileLines, ne_eq, List.map_eq_nil_iff]
    exact chunks_ne_nil _ _ _ (List.concat_ne_nil _ _)
  refine ⟨line, by rw [hlines]; exact List.mem_cons_of_mem _ hline, ?_⟩
  have htotal : a.line.count (ch '=') = 5 :=
    count_rowText fun p hp => ⟨(a.columnOk p hp).2.2.1, (a.not_mem_value (a.value_mem hp)).2.2.2.1⟩
  -- the first of the five equals signs is in the first line
  have hfirst : 0 < (a.line.take 1023).count (ch '=') := by
    have hstarts : lit "id=" <+: a.line.take 1023 := by
      refine List.prefix_take_iff.mpr ⟨⟨a.id ++ rowTail a.row.tail, ?_⟩, by decide⟩
      rw [StoredAccount.line, StoredAccount.row, rowText_cons]
      rfl
    exact List.count_pos_iff.mpr (hstarts.subset (by decide))
  have hsplit := @List.count_append _ _ (ch '=') (a.line.take 1023) (a.line.drop 1023)
  rw [List.take_append_drop, htotal] at hsplit
  have hcount := count_le_of_mem_fileLines hline (ch '=')
  have hnl : [newline].count (ch '=') = 0 := by decide
  rw [List.count_append, hnl] at hcount
  have hpairs := (length_selectPairs_le nodup_accountQuery line).trans (length_linePairs_le line)
  omega

/-- A table with a row that does not fit has a selected row with at most four values. -/
theorem exists_short_row (hlong : ∃ a ∈ accounts, 1022 < a.line.length) :
    ∃ row ∈ matchedRows (qselectAllFrom .account) (accountTable accounts), row.length ≤ 4 := by
  obtain ⟨a, ha, hlong⟩ := hlong
  obtain ⟨cut, hcut, hle⟩ := a.exists_cut_line hlong
  rw [matchedRows_account, tableLines_accountTable]
  exact ⟨_, List.mem_map_of_mem (List.mem_flatMap.mpr ⟨a, ha, hcut⟩), hle⟩

/-- The first selected row holds the first columns of the first account. -/
theorem exists_first_row (first : StoredAccount) (more : List StoredAccount) :
    ∃ row rest, matchedRows (qselectAllFrom .account) (accountTable (first :: more)) =
      row :: rest ∧ row.map Prod.fst <+: accountColumns ∧ ∀ p ∈ row, ch '=' ∉ p.2 := by
  obtain ⟨cut, rest, hcut, hstarts⟩ := first.exists_tableLines
  rw [matchedRows_account, tableLines_accountTable, List.flatMap_cons, hcut]
  exact ⟨_, _, rfl, first.selectPairs_of_prefix hstarts⟩

/-- The last column is not found in the text of the others. -/
theorem not_infix_rowText_take {row : Row} (hnames : row.map Prod.fst <+: accountColumns)
    (hvalues : ∀ p ∈ row, ch '=' ∉ p.2) {n : ℕ} (hn : n ≤ 4) :
    ¬ lit "updated_at=" <:+: rowText (row.take n) := by
  have hother : ∀ name ∈ accountColumns.take 4, ¬ lit "updated_at" <:+ name := by decide
  rw [accountKeys.2.2.2.2]
  refine key_not_infix_rowText (by decide) (by decide) fun p hp => ?_
  have hmem : p.1 ∈ (row.map Prod.fst).take n := by
    rw [← List.map_take]
    exact List.mem_map_of_mem hp
  have hname : p.1 ∈ accountColumns.take 4 :=
    List.take_subset_take_left _ hn ((hnames.take n).subset hmem)
  exact ⟨(columnOk_accountColumns _ (List.mem_of_mem_take hname)).2.2.1,
    hvalues p (List.mem_of_mem_take hp), hother _ hname⟩

/-- The accounts listed are mounted from the lines of the selected rows, in order. -/
theorem exists_line_of_listApiAccounts {text : Bytes} (htable : d.table .account = some text)
    {rows : List Row} (hrows : matchedRows (qselectAllFrom .account) text = rows)
    {listed : List ApiAccount} (h : listApiAccounts format scratch d = some listed) {i : ℕ}
    (hi : i < rows.length) :
    ∃ line account, getLineFromResultset (ResultSet.ofRows rows) i = some line ∧
      apiAccount format (scratch i) line = some account ∧ listed[i]? = some account := by
  obtain ⟨result, hselect, h⟩ := Option.bind_eq_some_iff.mp h
  rw [htable] at hselect
  obtain ⟨rfl, -, -⟩ := selectExecutor_eq_some_iff.mp hselect
  obtain ⟨hlen, hlisted⟩ := mapM_range_eq_some_iff.mp h
  rw [hrows, rows_ofRows] at hlen hlisted
  have hentry := hlisted i hi
  rw [List.getElem?_eq_getElem (hlen ▸ hi)] at hentry
  obtain ⟨line, hline, haccount⟩ := Option.bind_eq_some_iff.mp hentry
  exact ⟨line, _, hline, haccount, List.getElem?_eq_getElem (hlen ▸ hi)⟩

/-- **The first account listed is empty** when some row does not fit the buffer, if the listing is
defined at all. -/
theorem listApiAccounts_of_long (htable : d.table .account = some (accountTable accounts))
    (hlong : ∃ a ∈ accounts, 1022 < a.line.length) {listed : List ApiAccount}
    (h : listApiAccounts format scratch d = some listed) :
    ∃ rest, listed = ⟨[], [], format []⟩ :: rest := by
  obtain ⟨first, more, rfl⟩ : ∃ first more, accounts = first :: more := by
    obtain ⟨a, ha, -⟩ := hlong
    exact List.exists_cons_of_ne_nil (List.ne_nil_of_mem ha)
  obtain ⟨row, rest, hrows, hnames, hvalues⟩ := exists_first_row first more
  -- a row with at most four values is read, so the set has no more columns
  have hcols : (ResultSet.ofRows (row :: rest)).cols ≤ 4 := by
    obtain ⟨short, hshort, hle⟩ := exists_short_row hlong
    rw [hrows] at hshort
    obtain ⟨k, hk, hentry⟩ := List.mem_iff_getElem.mp hshort
    obtain ⟨line, -, hline, -⟩ := exists_line_of_listApiAccounts htable hrows h hk
    have hbound := cols_of_getLineFromResultset (List.getElem?_eq_some_iff.mpr ⟨hk, hentry⟩) hline
    omega
  obtain ⟨line, account, hline, haccount, hfirst⟩ :=
    @exists_line_of_listApiAccounts _ _ _ _ htable _ hrows _ h 0 (by simp)
  have hbound := cols_of_getLineFromResultset (rfl : (row :: rest)[0]? = some row) hline
  rw [getLineFromResultset_ofRows rfl rfl rfl hbound.1 hbound.2, Option.some.injEq] at hline
  rw [apiAccount_of_absent format _ (hline ▸ not_infix_rowText_take hnames hvalues hcols),
    Option.some.injEq] at haccount
  cases listed with
  | nil => exact absurd hfirst (by simp)
  | cons account' listed =>
      obtain rfl := Option.some.inj hfirst
      exact ⟨listed, by rw [haccount]⟩

end CBank
