import CBank.UserRow

/-!
# Stored Users

What `mount_user_from_line_buf` makes of the row of a user whose values fit a `BankUser`. It reads
every column but the email, which stays the empty string the structure was cleared to, and scans
the text of `is_active` as a number. A row that is read into a longer name or a longer cpf than it
stores could still leave bytes where the email is; then the name or the cpf is wrong.

## Main results

* `getUserByField_stored`: the text `get_user_by_field` mounts is the row it looked for.
* `email_of_mountUserFromLineBuf`: a user with the right id, name and cpf has no email.
* `not_readsBack`: no stored user is read back as itself.
-/

namespace CBank

open CLib

/-! ### What is stored -/

/-- A row of the user table whose values fit the arrays of a `BankUser`. -/
structure StoredUser where
  id : Bytes
  name : Bytes
  cpf : Bytes
  email : Bytes
  password : Bytes
  isActive : Bool
  createdAt : Bytes
  updatedAt : Bytes
  plain : ∀ value ∈ [id, name, cpf, email, password, createdAt, updatedAt],
    value ≠ [] ∧ NulFree value ∧ ValueOk value
  id_length : id.length < 20
  name_length : name.length < 50
  cpf_length : cpf.length < 12
  email_length : email.length < 50
  password_length : password.length < 35
  createdAt_length : createdAt.length < 20
  updatedAt_length : updatedAt.length < 20

namespace StoredUser

/-- The text of the flag. -/
def activeText (u : StoredUser) : Bytes := if u.isActive then lit "true" else lit "false"

/-- The pairs of a row. -/
def row (u : StoredUser) : Row :=
  [(lit "id", u.id), (lit "name", u.name), (lit "cpf", u.cpf), (lit "email", u.email),
    (lit "password", u.password), (lit "is_active", u.activeText),
    (lit "created_at", u.createdAt), (lit "updated_at", u.updatedAt)]

/-- The user a row stands for. -/
def user (u : StoredUser) : BankUser :=
  ⟨u.id, u.name, u.cpf, u.email, u.password, u.isActive, u.createdAt, u.updatedAt⟩

theorem row_columns (u : StoredUser) : u.row.map Prod.fst = userColumns := rfl

theorem activeText_ok (u : StoredUser) :
    u.activeText.length ≤ 5 ∧ NulFree u.activeText ∧ ValueOk u.activeText := by
  rw [activeText]
  cases u.isActive <;> decide

theorem value_ok (u : StoredUser) : ∀ p ∈ u.row, NulFree p.2 ∧ ValueOk p.2 := by
  have hplain := u.plain
  simp only [row, List.mem_cons, List.not_mem_nil, or_false, forall_eq_or_imp, forall_eq]
    at hplain ⊢
  obtain ⟨hid, hname, hcpf, hemail, hpassword, hcreated, hupdated⟩ := hplain
  exact ⟨hid.2, hname.2, hcpf.2, hemail.2, hpassword.2, u.activeText_ok.2, hcreated.2, hupdated.2⟩

/-- A row fits the line buffer. -/
theorem length_row (u : StoredUser) : (rowText u.row).length ≤ 1022 := by
  have h₁ := u.id_length
  have h₂ := u.name_length
  have h₃ := u.cpf_length
  have h₄ := u.email_length
  have h₅ := u.password_length
  have h₆ := u.activeText_ok.1
  have h₇ := u.createdAt_length
  have h₈ := u.updatedAt_length
  have hkeys : (lit "id").length = 2 ∧ (lit "name").length = 4 ∧ (lit "cpf").length = 3 ∧
      (lit "email").length = 5 ∧ (lit "password").length = 8 ∧ (lit "is_active").length = 9 ∧
      (lit "created_at").length = 10 ∧ (lit "updated_at").length = 10 := by decide
  simp only [row, rowText, List.length_append, List.length_cons, hkeys]
  omega

end StoredUser

/-- **Which text `get_user_by_field` mounts**: the row of the first user with the value. -/
theorem getUserByField_stored {users : List StoredUser} {d : Disk}
    (htable : d.table .user = some (linesText (users.map fun u => rowText u.row)))
    {field value : Bytes} (hfield : field ∈ userColumns)
    (hcount : (users.filter fun u => rowValue u.row field = value).length ≤ rsMaxRows)
    (scratch : UserScratch) :
    getUserByField scratch field value d =
      match (users.filter fun u => rowValue u.row field = value).head? with
      | none => some none
      | some u => (mountUserFromLineBuf scratch (rowText u.row)).map some := by
  have hrows : ∀ row ∈ users.map StoredUser.row, row.map Prod.fst = userColumns := by
    simp [StoredUser.row_columns]
  have hstorable : Storable (userRelation (users.map StoredUser.row)) := by
    refine storable_userRelation hrows ?_ ?_
    · rw [List.forall_mem_map]
      exact fun u _ => u.value_ok
    · rw [List.forall_mem_map]
      exact fun u _ => u.length_row
  have htext : d.table .user = some (linesText ((users.map StoredUser.row).map rowText)) := by
    rw [htable, List.map_map]
    rfl
  have hwith : rowsWith (users.map StoredUser.row) field value =
      (users.filter fun u => rowValue u.row field = value).map StoredUser.row := by
    rw [rowsWith, List.filter_map]
    rfl
  rw [getUserByField_eq hrows hstorable hfield value scratch htext, hwith, List.length_map,
    if_pos hcount, List.head?_map]
  cases (users.filter fun u => rowValue u.row field = value).head? with
  | none => rfl
  | some u => rfl

/-! ### What is mounted -/

/-- What the local buffers of `mount_user_from_line_buf` hold are strings. -/
structure UserScratch.Strings (scratch : UserScratch) : Prop where
  id : NulFree scratch.id
  name : NulFree scratch.name
  cpf : NulFree scratch.cpf

/-- A value that is scanned is a string. -/
theorem nulFree_scanColumn {key token scratch : Bytes} {width : ℕ} (htoken : NulFree token)
    (hscratch : NulFree scratch) : NulFree (scanColumn key token width scratch) := by
  rw [scanColumn, scanSet]
  split
  · exact hscratch
  · rename_i hscan
    rw [Option.getD_some, ← hscan]
    exact fun hmem => htoken <| List.mem_of_mem_drop <|
      (List.takeWhile_prefix _).subset (List.mem_of_mem_take hmem)

theorem nulFree_strstr {pat line token : Bytes} (hline : NulFree line)
    (h : strstr pat line = some token) : NulFree token := by
  obtain ⟨pre, post, hfirst, rfl⟩ := strstr_eq_some_iff.mp h
  have hsplit := hfirst.1
  rw [List.append_assoc] at hsplit
  exact fun hmem => hline (hsplit ▸ List.mem_append_right pre hmem)

/-- **No email.** A user mounted with an id, a name and a cpf that fit their arrays has the empty
email: a copy that reached it would have to start in one of them, and be read there. -/
theorem email_of_mountUserFromLineBuf {scratch : UserScratch} (hscratch : scratch.Strings)
    {line : Bytes} (hline : NulFree line) {user : BankUser}
    (h : mountUserFromLineBuf scratch line = some user) (hid : user.id.length < 20)
    (hname : user.name.length < 50) (hcpf : user.cpf.length < 12) : user.email = [] := by
  rw [mountUserFromLineBuf] at h
  split at h
  · rename_i idToken nameToken cpfToken _ _ _ _ hidToken hnameToken hcpfToken _ _ _ _
    simp only [Option.bind_eq_bind, Option.bind_eq_some_iff] at h
    obtain ⟨m₁, h₁, m₂, h₂, m₃, h₃, m₄, h₄, m₅, h₅, m₆, h₆, huser⟩ := h
    obtain rfl := Option.some.inj huser
    obtain ⟨hoff₁, hoff₂, hoff₃, hoff₄, hoff₅, hoff₆, hoff₇⟩ := userOffsets
    have hidStr := @nulFree_scanColumn (lit "id=") idToken _ 19
      (nulFree_strstr hline hidToken) hscratch.id
    have hnameStr := @nulFree_scanColumn (lit "name=") nameToken _ 255
      (nulFree_strstr hline hnameToken) hscratch.name
    have hcpfStr := @nulFree_scanColumn (lit "cpf=") cpfToken _ 19
      (nulFree_strstr hline hcpfToken) hscratch.cpf
    -- the copies after the cpf start behind the email
    have hafter : m₆.take 132 = m₃.take 132 := by
      rw [take_strcpy h₆ (by omega), take_strcpy h₅ (by omega), List.take_set_of_le (by omega),
        take_strcpy h₄ (by omega)]
    have hbefore : ∀ {n : ℕ}, n ≤ 132 → m₆.take n = m₃.take n := by
      intro n hn
      rw [← Nat.min_eq_left hn, ← List.take_take, hafter, List.take_take]
    -- so the three strings that are read are those that were copied
    have hcpfLen := (strcpy_hasStr hcpfStr h₃).length_lt_of_take (hbefore (by omega)) hcpf
    have hnameLen := (strcpy_hasStr hnameStr h₂).length_lt_of_take
      ((hbefore (by omega)).trans (take_strcpy h₃ (by omega))) hname
    have hidLen := (strcpy_hasStr hidStr h₁).length_lt_of_take
      ((hbefore (by omega)).trans ((take_strcpy h₃ (by omega)).trans
        (take_strcpy h₂ (by omega)))) hid
    have hemailOff : emailOffset = 82 := rfl
    have hnul : m₃[emailOffset]? = some 0 := by
      rw [getElem?_strcpy h₃, if_neg (by omega), getElem?_strcpy h₂, if_neg (by omega),
        getElem?_strcpy h₁, if_neg (by omega)]
      rfl
    have hnul' : m₆[emailOffset]? = some 0 := by
      have hread := congrArg (·[emailOffset]?) hafter
      rwa [List.getElem?_take_of_lt (by decide), List.getElem?_take_of_lt (by decide), hnul]
        at hread
    have hlen := length_cstrAt_le le_rfl hnul'
    exact List.length_eq_zero_iff.mp (Nat.le_zero.mp (Nat.sub_self emailOffset ▸ hlen))
  · obtain rfl := Option.some.inj h
    rfl

/-- The text `full_line` makes of a row as `get_user_by_field` selects it. -/
def StoredUser.selectedText (u : StoredUser) : Option Bytes :=
  fullLine (ResultSet.ofRows [selectPairs (qselectAllFrom .user).columns (rowText u.row)]) 0 1024

/-- It is the row. -/
theorem StoredUser.selectedText_eq (u : StoredUser) : u.selectedText = some (rowText u.row) := by
  have hcols : ∀ col ∈ userColumns, col ∈ (qselectAllFrom .user).columns := by decide +kernel
  have hok : ∀ p ∈ u.row, ColumnOk p.1 := fun p hp =>
    columnOk_userColumns _ (u.row_columns ▸ List.mem_map_of_mem hp)
  have hpairs : linePairs (rowText u.row) = u.row :=
    linePairs_rowText hok fun p hp => (u.value_ok p hp).2.1
  have hselect : selectPairs (qselectAllFrom .user).columns (rowText u.row) = u.row := by
    rw [selectPairs_eq_linePairs (by decide +kernel) fun p hp => ?_, hpairs]
    rw [hpairs] at hp
    exact hcols _ (u.row_columns ▸ List.mem_map_of_mem hp)
  have hlen := u.length_row
  rw [StoredUser.selectedText, hselect]
  exact fullLine_ofRows rfl rfl (by omega)

/-- A row is not mounted as its user: the email is lost. -/
theorem StoredUser.mountUserFromLineBuf_ne {scratch : UserScratch} (hscratch : scratch.Strings)
    (u : StoredUser) : mountUserFromLineBuf scratch (rowText u.row) ≠ some u.user := by
  intro h
  have hline : NulFree (rowText u.row) := nulFree_rowText
    (fun p hp => columnOk_userColumns _ (u.row_columns ▸ List.mem_map_of_mem hp))
    fun p hp => (u.value_ok p hp).1
  have hemail := email_of_mountUserFromLineBuf hscratch hline h u.id_length u.name_length
    u.cpf_length
  exact (u.plain u.email (by simp)).1 hemail

/-- The row of a user is read back as the user. -/
def StoredUser.ReadsBack (scratch : UserScratch) (u : StoredUser) : Prop :=
  u.selectedText.bind (mountUserFromLineBuf scratch) = some u.user

/-- **No stored user is read back as itself.** -/
theorem not_readsBack {scratch : UserScratch} (hscratch : scratch.Strings) (u : StoredUser) :
    ¬ u.ReadsBack scratch := by
  rw [StoredUser.ReadsBack, u.selectedText_eq, Option.bind_some]
  exact StoredUser.mountUserFromLineBuf_ne hscratch u

/-- **No lookup returns a stored user**: on a table of such rows, `get_user_by_field` does not
return the user of the row it finds. -/
theorem getUserByField_ne_user {users : List StoredUser} {d : Disk}
    (htable : d.table .user = some (linesText (users.map fun u => rowText u.row)))
    {field value : Bytes} (hfield : field ∈ userColumns)
    (hcount : (users.filter fun u => rowValue u.row field = value).length ≤ rsMaxRows)
    {scratch : UserScratch} (hscratch : scratch.Strings) {u : StoredUser}
    (hfound : (users.filter fun u => rowValue u.row field = value).head? = some u) :
    getUserByField scratch field value d ≠ some (some u.user) := by
  rw [getUserByField_stored htable hfield hcount, hfound]
  intro h
  obtain ⟨user, hmount, huser⟩ := Option.map_eq_some_iff.mp h
  obtain rfl := Option.some.inj huser
  exact StoredUser.mountUserFromLineBuf_ne hscratch u hmount

/-- The row of Ann. -/
def annStored : StoredUser where
  id := lit "0"
  name := lit "ann"
  cpf := lit "1"
  email := lit "ann@x"
  password := lit "secret"
  isActive := true
  createdAt := lit "2024-01-01 00:00:00"
  updatedAt := lit "NULL"
  plain := by decide
  id_length := by decide
  name_length := by decide
  cpf_length := by decide
  email_length := by decide
  password_length := by decide
  createdAt_length := by decide
  updatedAt_length := by decide

/-- Local buffers that hold empty strings. -/
def emptyUserScratch : UserScratch := ⟨[], [], [], [], [], []⟩

theorem strings_emptyUserScratch : emptyUserScratch.Strings :=
  ⟨List.not_mem_nil, List.not_mem_nil, List.not_mem_nil⟩

/-- Ann's row is not read back as Ann. -/
theorem not_readsBack_ann : ¬ annStored.ReadsBack emptyUserScratch :=
  not_readsBack strings_emptyUserScratch annStored

/-- **Ann without her email**, and not active: the text `true` is no number. -/
theorem readsBack_ann_changed :
    annStored.selectedText.bind (mountUserFromLineBuf emptyUserScratch) =
        some { annStored.user with email := [], isActive := false } ∧
      ¬ annStored.ReadsBack emptyUserScratch := by
  have hread : annStored.selectedText.bind (mountUserFromLineBuf emptyUserScratch) =
      some { annStored.user with email := [], isActive := false } := by decide +kernel
  refine ⟨hread, fun h => ?_⟩
  rw [StoredUser.ReadsBack, hread] at h
  exact absurd h (by decide)

end CBank
