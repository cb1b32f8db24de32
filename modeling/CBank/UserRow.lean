import CBank.SessionIdentity
import CBank.UserTable

/-!
# Rows of Users

How the row of a user is read back. The user table is a relation over the columns of a user
(`userRelation`) as long as its rows suit the table format; on such a table `get_user_by_field`
mounts the first row with the value. The id and the password of that row are read back as long
as no earlier value holds the text `password=` and the hash fits its array (`SafeUser`), and
all of it when its values fit and none holds the key of a later column (`ReadableUser`).

## Main results

* `getUserByField_eq`: which row is mounted.
* `mountUserFromLineBuf_userRow`: the id and the password of the user mounted.
* `mountUserFromLineBuf_readable`: the whole user.
-/

namespace CBank

open CLib

/-! ### The user table as a relation -/

/-- The columns of the user table. -/
def userColumns : List Bytes :=
  [lit "id", lit "name", lit "cpf", lit "email", lit "password", lit "is_active",
    lit "created_at", lit "updated_at"]

theorem nodup_userColumns : userColumns.Nodup := by decide

theorem columnOk_userColumns : ∀ col ∈ userColumns, ColumnOk col := by decide

/-- The value of a column in a row. -/
def rowValue (row : Row) (col : Bytes) : Bytes := (row.lookup col).getD []

/-- The rows of the user table as a relation. -/
def userRelation (rows : List Row) : Relation Bytes Bytes :=
  ⟨userColumns, nodup_userColumns, rows.map rowValue⟩

/-- In a row of distinct columns every pair is found by its column. -/
theorem rowValue_of_mem {row : Row} (hnodup : (row.map Prod.fst).Nodup) {p : Bytes × Bytes}
    (hp : p ∈ row) : rowValue row p.1 = p.2 := by
  induction row with
  | nil => exact absurd hp List.not_mem_nil
  | cons q row ih =>
      obtain ⟨hq, hrest⟩ := List.nodup_cons.mp hnodup
      rw [rowValue, List.lookup_cons]
      rcases List.mem_cons.mp hp with rfl | hp
      · simp
      · have hne : p.1 ≠ q.1 := fun h => hq (h ▸ List.mem_map_of_mem hp)
        rw [beq_false_of_ne hne]
        exact ih hrest hp

/-- A row over the columns of a user is the row of the relation. -/
theorem tableRow_rowValue {row : Row} (hrow : row.map Prod.fst = userColumns) :
    tableRow userColumns (rowValue row) = row := by
  have hnodup : (row.map Prod.fst).Nodup := hrow ▸ nodup_userColumns
  rw [tableRow, ← hrow, List.map_map]
  refine (List.map_congr_left ?_).trans (List.map_id row)
  intro p hp
  exact Prod.ext rfl (rowValue_of_mem hnodup hp)

theorem userRow_columns (id : Bytes) (payload : CreateUserDTO) (pwdHash createdAt : Bytes) :
    (userRow id payload pwdHash createdAt).map Prod.fst = userColumns := rfl

theorem rowValue_cpf (id : Bytes) (payload : CreateUserDTO) (pwdHash createdAt : Bytes) :
    rowValue (userRow id payload pwdHash createdAt) (lit "cpf") = payload.cpf := by
  have hmem : (lit "cpf", payload.cpf) ∈ userRow id payload pwdHash createdAt := by
    simp [userRow]
  exact rowValue_of_mem ((userRow_columns _ _ _ _).symm ▸ nodup_userColumns) hmem

theorem tableText_userRelation {rows : List Row}
    (hrows : ∀ row ∈ rows, row.map Prod.fst = userColumns) :
    tableText (userRelation rows) = linesText (rows.map rowText) := by
  rw [tableText, userRelation, List.map_map]
  congr 1
  refine List.map_congr_left ?_
  intro row hrow
  exact congrArg rowText (tableRow_rowValue (hrows row hrow))

/-- A list of rows over the columns of a user that suits the table format. -/
theorem storable_userRelation {rows : List Row}
    (hrows : ∀ row ∈ rows, row.map Prod.fst = userColumns)
    (hval : ∀ row ∈ rows, ∀ p ∈ row, NulFree p.2 ∧ ValueOk p.2)
    (hlen : ∀ row ∈ rows, (rowText row).length ≤ 1022) : Storable (userRelation rows) := by
  refine ⟨columnOk_userColumns, ?_, ?_⟩
  · rintro _ hmem col hcol
    obtain ⟨row, hrow, rfl⟩ := List.mem_map.mp hmem
    obtain ⟨p, hp, rfl⟩ := List.mem_map.mp (hrows row hrow ▸ hcol : col ∈ row.map Prod.fst)
    rw [rowValue_of_mem ((hrows row hrow).symm ▸ nodup_userColumns) hp]
    exact hval row hrow p hp
  · rintro _ hmem
    obtain ⟨row, hrow, rfl⟩ := List.mem_map.mp hmem
    rw [userRelation, tableRow_rowValue (hrows row hrow)]
    exact hlen row hrow

/-- The rows with a value in a column. -/
def rowsWith (rows : List Row) (field value : Bytes) : List Row :=
  rows.filter fun row => rowValue row field = value

/-- The query of `get_user_by_field`. -/
def fieldQuery (field value : Bytes) : SelectQuery :=
  qwhere (qselectAllFrom .user) field (lit "=") value

theorem fieldQuery_columns (field value : Bytes) :
    (fieldQuery field value).columns.Nodup ∧
      userColumns.filter (· ∈ (fieldQuery field value).columns) = userColumns := by
  change (qselectAllFrom .user).columns.Nodup ∧
    userColumns.filter (· ∈ (qselectAllFrom .user).columns) = userColumns
  decide +kernel

/-- The rows the query of `get_user_by_field` keeps. -/
theorem matchedRows_userRelation {rows : List Row}
    (hrows : ∀ row ∈ rows, row.map Prod.fst = userColumns) (hR : Storable (userRelation rows))
    {field : Bytes} (hfield : field ∈ userColumns) (value : Bytes) :
    matchedRows (fieldQuery field value) (linesText (rows.map rowText)) =
      rowsWith rows field value := by
  obtain ⟨hsel, hcols⟩ := fieldQuery_columns field value
  have hcond : (fieldQuery field value).conditions = [⟨field, lit "=", value⟩] := rfl
  rw [← tableText_userRelation hrows, hR.matchedRows ?_ hsel]
  · have hproject : ((userRelation rows).project (fieldQuery field value).columns).columns =
        userColumns := hcols
    rw [hproject, hcond]
    simp only [Relation.restrict, userRelation, List.filter_map, List.map_map]
    have hfilter : rows.filter ((fun row => [(⟨field, lit "=", value⟩ : WhereCondition)].all
        fun clause => clause.holds row) ∘ rowValue) = rowsWith rows field value :=
      List.filter_congr fun row _ => by simp [WhereCondition.holds]
    rw [hfilter]
    refine (List.map_congr_left ?_).trans (List.map_id _)
    intro row hrow
    exact tableRow_rowValue (hrows row (List.mem_of_mem_filter hrow))
  · rw [hcond]
    simp only [List.mem_singleton, forall_eq]
    exact ⟨hfield, Or.inl trivial⟩

theorem length_of_mem_rowsWith {rows : List Row}
    (hrows : ∀ row ∈ rows, row.map Prod.fst = userColumns) {field value : Bytes} :
    ∀ row ∈ rowsWith rows field value, row.length = 8 := by
  intro row hrow
  have hcols := congrArg List.length (hrows row (List.mem_of_mem_filter hrow))
  rwa [List.length_map] at hcols

/-- What is selected: the rows with the value, when the result set has room for them. -/
theorem selectExecutor_userRelation {rows : List Row}
    (hrows : ∀ row ∈ rows, row.map Prod.fst = userColumns) (hR : Storable (userRelation rows))
    {field : Bytes} (hfield : field ∈ userColumns) (value : Bytes) :
    selectExecutor (fieldQuery field value) (some (linesText (rows.map rowText))) =
      if (rowsWith rows field value).length ≤ rsMaxRows then
        some (ResultSet.ofRows (rowsWith rows field value))
      else none := by
  have hmatched := matchedRows_userRelation hrows hR hfield value
  split
  · rename_i hlen
    exact selectExecutor_eq_ofRows hmatched hlen fun row hrow => by
      rw [length_of_mem_rowsWith hrows row hrow]
      decide
  · rename_i hlong
    refine Option.eq_none_iff_forall_ne_some.mpr ?_
    intro rs hrs
    obtain ⟨-, hlen, -⟩ := selectExecutor_eq_some_iff.mp hrs
    rw [hmatched] at hlen
    exact hlong hlen

/-- **Which row `get_user_by_field` mounts**: the first one with the value. -/
theorem getUserByField_eq {rows : List Row}
    (hrows : ∀ row ∈ rows, row.map Prod.fst = userColumns) (hR : Storable (userRelation rows))
    {field : Bytes} (hfield : field ∈ userColumns) (value : Bytes) (scratch : UserScratch)
    {d : Disk} (hd : d.table .user = some (linesText (rows.map rowText))) :
    getUserByField scratch field value d =
      if (rowsWith rows field value).length ≤ rsMaxRows then
        match (rowsWith rows field value).head? with
        | none => some none
        | some row => (mountUserFromLineBuf scratch (rowText row)).map some
      else none := by
  change (selectExecutor (fieldQuery field value) (d.table .user) >>= _) = _
  rw [hd, selectExecutor_userRelation hrows hR hfield]
  split
  · rw [Option.bind_eq_bind, Option.bind_some, rows_ofRows]
    cases hhead : (rowsWith rows field value).head? with
    | none =>
        rw [List.head?_eq_none_iff.mp hhead]
        rfl
    | some row =>
        have hrow := List.mem_of_mem_head? hhead
        have hne := List.ne_nil_of_mem hrow
        have hshort : (rowText row).length < 1024 := by
          have hle := hR.length _ (List.mem_map_of_mem (List.mem_of_mem_filter hrow))
          rw [userRelation, tableRow_rowValue (hrows row (List.mem_of_mem_filter hrow))] at hle
          omega
        rw [if_neg (List.length_pos_of_ne_nil hne).ne', fullLine_of_width hhead
          (length_of_mem_rowsWith hrows) hshort]
        cases hmount : mountUserFromLineBuf scratch (rowText row) with
        | none => simp [hmount]
        | some user => simp [hmount]
  · rfl

/-! ### The user that is mounted -/

/-- The row of a new user is one `login` reads back as it was meant: the table format carries
it, the hash fits its array, and no value before the password holds its key. -/
structure SafeUser (id : Bytes) (payload : CreateUserDTO) (pwdHash createdAt : Bytes) :
    Prop where
  value : ∀ v ∈ [payload.name, payload.cpf, payload.email, pwdHash, createdAt],
    NulFree v ∧ ValueOk v
  length : (rowText (userRow id payload pwdHash createdAt)).length ≤ 1022
  hash : pwdHash ≠ [] ∧ pwdHash.length ≤ 34
  noPassword : ∀ v ∈ [payload.name, payload.cpf, payload.email], ¬ lit "password=" <:+: v

theorem IsUserId.valueOk {id : Bytes} (h : IsUserId id) : NulFree id ∧ ValueOk id :=
  ⟨not_mem_of_isDigit h.2.2 (by decide), not_mem_of_isDigit h.2.2 (by decide),
    not_mem_of_isDigit h.2.2 (by decide)⟩

theorem SafeUser.valueOk {id : Bytes} {payload : CreateUserDTO} {pwdHash createdAt : Bytes}
    (h : SafeUser id payload pwdHash createdAt) (hid : IsUserId id) :
    ∀ p ∈ userRow id payload pwdHash createdAt, NulFree p.2 ∧ ValueOk p.2 := by
  have hval := h.value
  simp only [userRow, List.mem_cons, List.not_mem_nil, or_false, forall_eq_or_imp,
    forall_eq] at hval ⊢
  obtain ⟨hname, hcpf, hemail, hhash, hcreated⟩ := hval
  exact ⟨hid.valueOk, hname, hcpf, hemail, hhash, by decide, hcreated, by decide⟩

/-- A value in a row ends at its semicolon, or at the end of the row. -/
theorem takeWhile_rowTail {value : Bytes} (hsemi : ch ';' ∉ value) (row : Row) :
    (value ++ rowTail row).takeWhile (· ≠ ch ';') = value := by
  rw [takeWhile_ne_append hsemi]
  cases row with
  | nil => simp [rowTail]
  | cons p row => simp [rowTail]

/-- A value is scanned up to its semicolon, or to the end of the row, and to the width. -/
theorem scanColumn_rowTail_take {key value : Bytes} {width : ℕ} (hvalue : value ≠ [])
    (hwidth : 0 < width) (hsemi : ch ';' ∉ value) (row : Row) (scratch : Bytes) :
    scanColumn key (key ++ (value ++ rowTail row)) width scratch = value.take width := by
  have htake := takeWhile_rowTail hsemi row
  rw [scanColumn, List.drop_left, scanSet_eq_some (v := value.take width), Option.getD_some]
  · simp [hvalue, hwidth.ne']
  · rw [htake]

theorem scanColumn_rowTail {key value : Bytes} {width : ℕ} (hvalue : value ≠ [])
    (hwidth : value.length ≤ width) (hsemi : ch ';' ∉ value) (row : Row) (scratch : Bytes) :
    scanColumn key (key ++ (value ++ rowTail row)) width scratch = value := by
  have hpos := List.length_pos_of_ne_nil hvalue
  rw [scanColumn_rowTail_take hvalue (by omega) hsemi, List.take_of_length_le hwidth]

/-- The keys `mount_user_from_line_buf` searches for. -/
theorem userKeys : lit "id=" = lit "id" ++ [ch '='] ∧ lit "name=" = lit "name" ++ [ch '='] ∧
    lit "cpf=" = lit "cpf" ++ [ch '='] ∧ lit "password=" = lit "password" ++ [ch '='] ∧
    lit "is_active=" = lit "is_active" ++ [ch '='] ∧
    lit "created_at=" = lit "created_at" ++ [ch '='] ∧
    lit "updated_at=" = lit "updated_at" ++ [ch '='] := by decide

/-- The members `mount_user_from_line_buf` writes. -/
theorem userOffsets : idOffset = 0 ∧ nameOffset = 20 ∧ cpfOffset = 70 ∧ passwordOffset = 132 ∧
    isActiveOffset = 167 ∧ createdAtOffset = 168 ∧ updatedAtOffset = 188 :=
  ⟨rfl, rfl, rfl, rfl, rfl, rfl, rfl⟩

/-- The password is found at its own column. -/
theorem SafeUser.strstr_password {id : Bytes} {payload : CreateUserDTO}
    {pwdHash createdAt : Bytes} (hid : IsUserId id)
    (hsafe : SafeUser id payload pwdHash createdAt) :
    ∃ row, strstr (lit "password=") (rowText (userRow id payload pwdHash createdAt)) =
      some (lit "password=" ++ (pwdHash ++ rowTail row)) := by
  have hidFree : ¬ lit "password=" <:+: id := by
    intro h
    have hmem : ch '=' ∈ id := h.subset (by decide)
    exact not_mem_of_isDigit hid.2.2 (by decide) hmem
  have hfree := hsafe.noPassword
  have hcols : ∀ col ∈ [lit "id", lit "name", lit "cpf", lit "email"],
      ¬ lit "password" <:+ col ∧ ch '=' ∉ col := by decide
  simp only [List.mem_cons, List.not_mem_nil, or_false, forall_eq_or_imp, forall_eq]
    at hfree hcols
  rw [userKeys.2.2.2.1] at hfree hidFree ⊢
  refine ⟨[(lit "is_active", lit "true"), (lit "created_at", createdAt),
    (lit "updated_at", lit "NULL")], strstr_rowText [(lit "id", id), (lit "name", payload.name),
      (lit "cpf", payload.cpf), (lit "email", payload.email)] _ (by decide) (by decide) ?_ ?_⟩
  · simp only [List.mem_cons, List.not_mem_nil, or_false, forall_eq_or_imp, forall_eq]
    exact ⟨hcols.1.2, hcols.2.1.2, hcols.2.2.1.2, hcols.2.2.2.2⟩
  · simp only [List.mem_cons, List.not_mem_nil, or_false, forall_eq_or_imp, forall_eq]
    exact ⟨⟨hcols.1.1, hidFree⟩, ⟨hcols.2.1.1, hfree.1⟩, ⟨hcols.2.2.1.1, hfree.2.1⟩,
      hcols.2.2.2.1, hfree.2.2⟩

/-- **The id and the password of the user mounted** are those of its row. The copies after
them in the structure start past both. -/
theorem mountUserFromLineBuf_userRow {scratch : UserScratch} {id : Bytes}
    {payload : CreateUserDTO} {pwdHash createdAt : Bytes} {user : BankUser} (hid : IsUserId id)
    (hsafe : SafeUser id payload pwdHash createdAt)
    (h : mountUserFromLineBuf scratch (rowText (userRow id payload pwdHash createdAt)) =
      some user) : user.id = id ∧ user.password = pwdHash := by
  have hfound : ∀ col ∈ userColumns, ∃ token, strstr (col ++ [ch '='])
      (rowText (userRow id payload pwdHash createdAt)) = some token :=
    fun col hcol => exists_strstr_rowText hcol
  obtain ⟨hidKey, hnameKey, hcpfKey, -, hactiveKey, hcreatedKey, hupdatedKey⟩ := userKeys
  obtain ⟨nameToken, hname⟩ := hfound (lit "name") (by decide)
  obtain ⟨cpfToken, hcpf⟩ := hfound (lit "cpf") (by decide)
  obtain ⟨activeToken, hactive⟩ := hfound (lit "is_active") (by decide)
  obtain ⟨createdToken, hcreated⟩ := hfound (lit "created_at") (by decide)
  obtain ⟨updatedToken, hupdated⟩ := hfound (lit "updated_at") (by decide)
  rw [← hnameKey] at hname
  rw [← hcpfKey] at hcpf
  rw [← hactiveKey] at hactive
  rw [← hcreatedKey] at hcreated
  rw [← hupdatedKey] at hupdated
  have hidToken : strstr (lit "id=") (rowText (userRow id payload pwdHash createdAt)) =
      some (lit "id=" ++ (id ++ rowTail (userRow id payload pwdHash createdAt).tail)) := by
    rw [hidKey]
    exact strstr_rowText [] _ (by decide) (by decide) (by simp) (by simp)
  obtain ⟨row, hpwd⟩ := hsafe.strstr_password hid
  have hhash := hsafe.value pwdHash (by simp)
  rw [mountUserFromLineBuf, hidToken, hname, hcpf, hpwd, hactive, hcreated, hupdated] at h
  simp only [Option.bind_eq_bind, Option.bind_eq_some_iff] at h
  obtain ⟨m₁, h₁, m₂, h₂, m₃, h₃, m₄, h₄, m₅, h₅, m₆, h₆, huser⟩ := h
  rw [scanColumn_rowTail hid.1 hid.2.1 hid.valueOk.2.1] at h₁
  rw [scanColumn_rowTail hsafe.hash.1 (hsafe.hash.2.trans (by norm_num)) hhash.2.1] at h₄
  have hidLen : id.length ≤ 19 := hid.2.1
  have hpwdLen : pwdHash.length ≤ 34 := hsafe.hash.2
  obtain ⟨hoff₁, hoff₂, hoff₃, hoff₄, hoff₅, hoff₆, hoff₇⟩ := userOffsets
  have hidMem : HasStr m₆ idOffset id :=
    ((((((strcpy_hasStr hid.valueOk.1 h₁).strcpy h₂ (Or.inl (by omega))).strcpy h₃
      (Or.inl (by omega))).strcpy h₄ (Or.inl (by omega))).set _ (Or.inl (by omega))).strcpy h₅
        (Or.inl (by omega))).strcpy h₆ (Or.inl (by omega))
  have hpwdMem : HasStr m₆ passwordOffset pwdHash :=
    (((strcpy_hasStr hhash.1 h₄).set _ (Or.inl (by omega))).strcpy h₅
      (Or.inl (by omega))).strcpy h₆ (Or.inl (by omega))
  rw [Option.some.injEq] at huser
  subst huser
  exact ⟨hidMem.cstrAt_eq, hpwdMem.cstrAt_eq⟩

/-- The row of a user that is read back whole: besides being safe, it has no empty value that
is scanned, its values fit their arrays, and none holds the key of a later column. -/
structure ReadableUser (id : Bytes) (payload : CreateUserDTO) (pwdHash createdAt : Bytes) : Prop
    extends SafeUser id payload pwdHash createdAt where
  name : payload.name ≠ [] ∧ payload.name.length < 50
  cpf : payload.cpf ≠ [] ∧ payload.cpf.length < 12
  dated : createdAt ≠ []
  keys : (userRow id payload pwdHash createdAt).Pairwise fun p q => ¬ q.1 ++ [ch '='] <:+: p.2

/-- No column name of a user ends in a later one. -/
theorem suffixFree_userColumns : userColumns.Pairwise fun c c' => ¬ c' <:+ c := by decide

/-- Every column of a readable row is found at its own place. -/
theorem ReadableUser.strstr_column {id : Bytes} {payload : CreateUserDTO}
    {pwdHash createdAt : Bytes} (h : ReadableUser id payload pwdHash createdAt)
    (col value : Bytes) (hmem : (col, value) ∈ userRow id payload pwdHash createdAt) :
    ∃ row, strstr (col ++ [ch '=']) (rowText (userRow id payload pwdHash createdAt)) =
      some (col ++ [ch '='] ++ (value ++ rowTail row)) := by
  have hcols := userRow_columns id payload pwdHash createdAt
  have hsuffix := suffixFree_userColumns
  rw [← hcols, List.pairwise_map] at hsuffix
  exact strstr_of_mem_row (fun p hp => columnOk_userColumns _ (hcols ▸ List.mem_map_of_mem hp))
    hsuffix h.keys hmem

/-- A column of a readable row is scanned to its value. -/
theorem ReadableUser.scan_column {id : Bytes} {payload : CreateUserDTO}
    {pwdHash createdAt : Bytes} (h : ReadableUser id payload pwdHash createdAt)
    (col value : Bytes) (hmem : (col, value) ∈ userRow id payload pwdHash createdAt)
    (hvalue : value ≠ []) (hsemi : ch ';' ∉ value) :
    ∃ token, strstr (col ++ [ch '=']) (rowText (userRow id payload pwdHash createdAt)) =
      some token ∧ ∀ width scratch, 0 < width →
        scanColumn (col ++ [ch '=']) token width scratch = value.take width := by
  obtain ⟨row, htoken⟩ := h.strstr_column col value hmem
  exact ⟨_, htoken, fun _ scratch hwidth =>
    scanColumn_rowTail_take hvalue hwidth hsemi row scratch⟩

/-- Copying the empty string stores its NUL. -/
theorem strcpy_nil {mem : Bytes} {off : ℕ} (h : off < mem.length) :
    strcpy mem off [] = some (mem.set off 0) := by
  rw [strcpy, if_pos (by simpa using h), List.set_eq_take_append_cons_drop, if_pos h]
  rfl

/-- A cleared flag keeps the members of a user. -/
theorem holds_clearFlag {mem : Bytes} {values : BankField → Bytes}
    (h : bankUserLayout.Holds mem values) :
    bankUserLayout.Holds (mem.set isActiveOffset 0) (Function.update values .isActive []) := by
  obtain ⟨mem', hcopy, hholds⟩ := h.strcpy (i := .isActive) List.not_mem_nil (by decide)
  have hoff : isActiveOffset < mem.length := by
    rw [h.length]
    decide
  rw [show (bankUserLayout.field .isActive).offset = isActiveOffset from rfl, strcpy_nil hoff]
    at hcopy
  rwa [Option.some.inj hcopy]

/-- The seven strings `mount_user_from_line_buf` copies are read back when each fits its
member. -/
theorem copyUser_eq {id name cpf pwd createdAt updatedAt : Bytes}
    (hid : NulFree id ∧ id.length < 20) (hname : NulFree name ∧ name.length < 50)
    (hcpf : NulFree cpf ∧ cpf.length < 12) (hpwd : NulFree pwd ∧ pwd.length < 35)
    (hcreated : NulFree createdAt ∧ createdAt.length < 20)
    (hupdated : NulFree updatedAt ∧ updatedAt.length < 20) :
    (do
      let mem ← strcpy (List.replicate bankUserSize 0) idOffset id
      let mem ← strcpy mem nameOffset name
      let mem ← strcpy mem cpfOffset cpf
      let mem ← strcpy mem passwordOffset pwd
      let mem := mem.set isActiveOffset 0
      let mem ← strcpy mem createdAtOffset createdAt
      let mem ← strcpy mem updatedAtOffset updatedAt
      some (readBankUser mem)) = some ⟨id, name, cpf, [], pwd, false, createdAt, updatedAt⟩ := by
  obtain ⟨m₁, h₁, hm₁⟩ := (Layout.holds_zero bankUserLayout).strcpy (i := .id) hid.1 hid.2
  obtain ⟨m₂, h₂, hm₂⟩ := hm₁.strcpy (i := .name) hname.1 hname.2
  obtain ⟨m₃, h₃, hm₃⟩ := hm₂.strcpy (i := .cpf) hcpf.1 hcpf.2
  obtain ⟨m₄, h₄, hm₄⟩ := hm₃.strcpy (i := .password) hpwd.1 hpwd.2
  obtain ⟨m₅, h₅, hm₅⟩ := (holds_clearFlag hm₄).strcpy (i := .createdAt) hcreated.1 hcreated.2
  obtain ⟨m₆, h₆, hm₆⟩ := hm₅.strcpy (i := .updatedAt) hupdated.1 hupdated.2
  have hread : readBankUser m₆ =
      ⟨id, name, cpf, [], pwd, false, createdAt, updatedAt⟩ := by
    have hvalue := hm₆.cstrAt
    rw [readBankUser, BankUser.mk.injEq]
    refine ⟨hvalue .id, hvalue .name, hvalue .cpf, hvalue .email, hvalue .password, ?_,
      hvalue .createdAt, hvalue .updatedAt⟩
    have hflag : m₆[isActiveOffset]? = some 0 := (hm₆.value .isActive).1.2 0 le_rfl
    rw [List.getD_eq_getElem?_getD, hflag]
    rfl
  have h₁' : strcpy (List.replicate bankUserSize 0) idOffset id = some m₁ := h₁
  have h₂' : strcpy m₁ nameOffset name = some m₂ := h₂
  have h₃' : strcpy m₂ cpfOffset cpf = some m₃ := h₃
  have h₄' : strcpy m₃ passwordOffset pwd = some m₄ := h₄
  have h₅' : strcpy (m₄.set isActiveOffset 0) createdAtOffset createdAt = some m₅ := h₅
  have h₆' : strcpy m₅ updatedAtOffset updatedAt = some m₆ := h₆
  simp only [h₁', h₂', h₃', h₄', h₅', h₆', Option.bind_eq_bind, Option.bind_some, hread]

/-- **A readable row is mounted whole**, except for the email, which is not copied, and the
flag, which is not a number. -/
theorem mountUserFromLineBuf_readable {id : Bytes} {payload : CreateUserDTO}
    {pwdHash createdAt : Bytes} (hid : IsUserId id)
    (h : ReadableUser id payload pwdHash createdAt) (scratch : UserScratch) :
    mountUserFromLineBuf scratch (rowText (userRow id payload pwdHash createdAt)) =
      some ⟨id, payload.name, payload.cpf, [], pwdHash, false, createdAt.take 19,
        lit "NULL"⟩ := by
  obtain ⟨hidKey, hnameKey, hcpfKey, hpwdKey, hactiveKey, hcreatedKey, hupdatedKey⟩ := userKeys
  have hval := h.value
  simp only [List.mem_cons, List.not_mem_nil, or_false, forall_eq_or_imp, forall_eq] at hval
  obtain ⟨hname, hcpf, hemail, hpwd, hcreated⟩ := hval
  obtain ⟨idToken, hidToken, hidScan⟩ :=
    h.scan_column (lit "id") id (by simp [userRow]) hid.1 hid.valueOk.2.1
  obtain ⟨nameToken, hnameToken, hnameScan⟩ :=
    h.scan_column (lit "name") payload.name (by simp [userRow]) h.name.1 hname.2.1
  obtain ⟨cpfToken, hcpfToken, hcpfScan⟩ :=
    h.scan_column (lit "cpf") payload.cpf (by simp [userRow]) h.cpf.1 hcpf.2.1
  obtain ⟨pwdToken, hpwdToken, hpwdScan⟩ :=
    h.scan_column (lit "password") pwdHash (by simp [userRow]) h.hash.1 hpwd.2.1
  obtain ⟨activeRow, hactiveToken⟩ :=
    h.strstr_column (lit "is_active") (lit "true") (by simp [userRow])
  obtain ⟨createdToken, hcreatedToken, hcreatedScan⟩ :=
    h.scan_column (lit "created_at") createdAt (by simp [userRow]) h.dated hcreated.2.1
  obtain ⟨updatedToken, hupdatedToken, hupdatedScan⟩ :=
    h.scan_column (lit "updated_at") (lit "NULL") (by simp [userRow]) (by decide) (by decide)
  have hflag : (scanInt ((lit "is_active" ++ [ch '='] ++ (lit "true" ++ rowTail activeRow)).drop
      (lit "is_active=").length)).getD 0 = 0 := by
    rw [hactiveKey, List.drop_left]
    rfl
  rw [← hidKey] at hidToken hidScan
  rw [← hnameKey] at hnameToken hnameScan
  rw [← hcpfKey] at hcpfToken hcpfScan
  rw [← hpwdKey] at hpwdToken hpwdScan
  rw [← hactiveKey] at hactiveToken hflag
  rw [← hcreatedKey] at hcreatedToken hcreatedScan
  rw [← hupdatedKey] at hupdatedToken hupdatedScan
  have hshort : ∀ {s : Bytes} {width : ℕ}, s.length ≤ width → s.take width = s :=
    List.take_of_length_le
  rw [mountUserFromLineBuf, hidToken, hnameToken, hcpfToken, hpwdToken, hactiveToken,
    hcreatedToken, hupdatedToken]
  simp only [hidScan, hnameScan, hcpfScan, hpwdScan, hcreatedScan, hupdatedScan, hflag, if_true,
    Nat.ofNat_pos]
  rw [hshort hid.2.1, hshort (h.name.2.le.trans (by norm_num)),
    hshort (h.cpf.2.le.trans (by norm_num)), hshort (h.hash.2.trans (by norm_num)),
    hshort (by decide : (lit "NULL").length ≤ 19)]
  have hdate : (createdAt.take 19).length < 20 :=
    (List.length_take_le 19 createdAt).trans_lt (by norm_num)
  exact copyUser_eq ⟨hid.valueOk.1, Nat.lt_succ_of_le hid.2.1⟩ ⟨hname.1, h.name.2⟩
    ⟨hcpf.1, h.cpf.2⟩ ⟨hpwd.1, Nat.lt_succ_of_le h.hash.2⟩
    ⟨fun hmem => hcreated.1 (List.mem_of_mem_take hmem), hdate⟩ ⟨by decide, by decide⟩

end CBank
