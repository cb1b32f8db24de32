import CBank.StoreRuns
import CBank.Login

/-!
# The Bank

What the program is for, without its files: a bank has customers, who register with an email no
other customer has, and log in with a cpf and a password. The number of a customer, and of the
account opened with the registration, is the place in the list.

A disk keeps a bank when its two tables are the texts of the rows of the customers and of their
accounts. On such a disk the queries of the program are answered from the bank, as long as the
rows of the customers suit the table format (`Bank.Safe`).

## Main results

* `Bank.serve_answers`: which registrations a bank accepts.
* `Bank.emailAlreadyRegistered_eq`, `Bank.login_sound`: queries on a disk that keeps a bank.
-/

namespace CBank

open CLib

/-! ### The bank -/

/-- A customer: what was registered, the hash of the password, and the two dates. -/
structure Customer where
  name : Bytes
  email : Bytes
  cpf : Bytes
  pwdHash : Bytes
  createdAt : Bytes
  accountCreatedAt : Bytes
  deriving DecidableEq

/-- The customers of a bank, in the order they registered. -/
structure Bank where
  customers : List Customer
  emails : (customers.map Customer.email).Nodup

namespace Bank

/-- A bank without customers. -/
def empty : Bank := ⟨[], List.nodup_nil⟩

/-- An email some customer has. -/
def Knows (b : Bank) (email : Bytes) : Prop := email ∈ b.customers.map Customer.email

instance (b : Bank) (email : Bytes) : Decidable (b.Knows email) :=
  inferInstanceAs (Decidable (_ ∈ _))

/-- A customer with a new email. -/
def add (b : Bank) (c : Customer) (h : ¬ b.Knows c.email) : Bank where
  customers := b.customers ++ [c]
  emails := by
    rw [List.map_append, List.map_singleton]
    exact List.nodup_append.mpr ⟨b.emails, List.nodup_singleton _, fun _ hx _ hy heq =>
      h (List.mem_singleton.mp hy ▸ heq ▸ hx)⟩

/-- A registration, and whether it is accepted. -/
def register (b : Bank) (c : Customer) : Bank × Bool :=
  if h : b.Knows c.email then (b, false) else (b.add c h, true)

/-- Registrations, one after the other, and the answers to them. -/
def serve (b : Bank) : List Customer → Bank × List Bool
  | [] => (b, [])
  | c :: cs => (((b.register c).1.serve cs).1, (b.register c).2 :: ((b.register c).1.serve cs).2)

/-- The customer a login with a cpf and a hash is for, with the number: the first one with the
cpf, if the hash is right. -/
def login (b : Bank) (cpf pwdHash : Bytes) : Option (ℕ × Customer) :=
  (b.customers.zipIdx.find? fun p => p.1.cpf = cpf).bind fun p =>
    if p.1.pwdHash = pwdHash then some (p.2, p.1) else none

variable {b : Bank} {c : Customer}

theorem register_of_knows (h : b.Knows c.email) : b.register c = (b, false) := dif_pos h

theorem register_of_new (h : ¬ b.Knows c.email) : b.register c = (b.add c h, true) := dif_neg h

theorem serve_concat (b : Bank) (cs : List Customer) (c : Customer) :
    b.serve (cs ++ [c]) =
      (((b.serve cs).1.register c).1, (b.serve cs).2 ++ [((b.serve cs).1.register c).2]) := by
  induction cs generalizing b with
  | nil => rfl
  | cons c' cs ih => rw [List.cons_append, serve, ih, serve, List.cons_append]

/-- The emails a bank knows after a registration. -/
theorem knows_register (b : Bank) (c : Customer) (email : Bytes) :
    (b.register c).1.Knows email ↔ b.Knows email ∨ email = c.email := by
  by_cases h : b.Knows c.email
  · rw [register_of_knows h]
    refine ⟨Or.inl, fun hemail => ?_⟩
    rcases hemail with hemail | rfl
    · exact hemail
    · exact h
  · rw [register_of_new h, Knows, add, List.map_append, List.mem_append, List.map_singleton,
      List.mem_singleton, Knows]

/-- The emails a bank knows after some registrations, accepted or not. -/
theorem knows_serve (b : Bank) (cs : List Customer) (email : Bytes) :
    (b.serve cs).1.Knows email ↔ b.Knows email ∨ email ∈ cs.map Customer.email := by
  induction cs using List.reverseRecOn with
  | nil => simp [serve]
  | append_singleton cs c ih =>
      rw [serve_concat, knows_register, ih, List.map_append, List.mem_append, List.map_singleton,
        List.mem_singleton, or_assoc]

/-- **Which registrations a bank accepts**: those whose email no earlier one had. -/
theorem serve_answers (cs : List Customer) (c : Customer) :
    ((empty.serve cs).1.register c).2 = true ↔ c.email ∉ cs.map Customer.email := by
  have hknows := knows_serve empty cs c.email
  have hempty : ¬ empty.Knows c.email := List.not_mem_nil
  rw [or_iff_right hempty] at hknows
  rw [← hknows]
  by_cases h : (empty.serve cs).1.Knows c.email
  · simp [register_of_knows h, h]
  · simp [register_of_new h, h]

/-- The customers of a bank: those whose registration was accepted, in order. -/
theorem serve_customers (b : Bank) (cs : List Customer) : (b.serve cs).1.customers =
    b.customers ++ ((cs.zip (b.serve cs).2).filter Prod.snd).map Prod.fst := by
  induction cs generalizing b with
  | nil => simp [serve]
  | cons c cs ih =>
      rw [serve, ih, List.zip_cons_cons, List.filter_cons]
      by_cases h : b.Knows c.email
      · simp [register_of_knows h]
      · simp [register_of_new h, add]

end Bank

/-! ### The rows of a bank -/

/-- The row of a customer with a number. -/
def Customer.row (c : Customer) (n : ℕ) : Row :=
  userRow (printNat n) ⟨c.name, c.email, c.cpf, []⟩ c.pwdHash c.createdAt

/-- The row of the account opened with the registration. -/
def Customer.accountRow (c : Customer) (n : ℕ) : Row :=
  CBank.accountRow (printNat n) (printNat n) c.accountCreatedAt

/-- The customer a call of `make_new_user` is about. -/
def customerOf (crypt : Bytes → Bytes) (env : CallEnv) (payload : CreateUserDTO) : Customer :=
  ⟨payload.name, payload.email, payload.cpf, crypt payload.password, env.userCreatedAt,
    env.accCreatedAt⟩

/-- The row of a customer suits the table format. -/
def Customer.Safe (c : Customer) (n : ℕ) : Prop :=
  SafeUser (printNat n) ⟨c.name, c.email, c.cpf, []⟩ c.pwdHash c.createdAt

/-- The customer of a safe registration is safe. -/
theorem customerOf_safe {crypt : Bytes → Bytes} {env : CallEnv} {payload : CreateUserDTO} {n : ℕ}
    (h : SafeUser (printNat n) payload (crypt payload.password) env.userCreatedAt) :
    (customerOf crypt env payload).Safe n :=
  ⟨h.value, h.length, h.hash, h.noPassword⟩

namespace Bank

variable {b : Bank} {c : Customer}

/-- The rows of the customers. -/
def userRows (b : Bank) : List Row := b.customers.mapIdx fun n c => c.row n

/-- The rows of their accounts. -/
def accountRows (b : Bank) : List Row := b.customers.mapIdx fun n c => c.accountRow n

/-- The text of the user table. -/
abbrev usersText (b : Bank) : Bytes := linesText (b.userRows.map rowText)

/-- The text of the account table. -/
abbrev accountsText (b : Bank) : Bytes := linesText (b.accountRows.map rowText)

/-- Every row of a customer suits the table format. -/
def Safe (b : Bank) : Prop := ∀ (n : ℕ) (c : Customer), b.customers[n]? = some c → c.Safe n

theorem userRows_add (h : ¬ b.Knows c.email) :
    (b.add c h).userRows = b.userRows ++ [c.row b.customers.length] :=
  List.mapIdx_concat

theorem accountRows_add (h : ¬ b.Knows c.email) :
    (b.add c h).accountRows = b.accountRows ++ [c.accountRow b.customers.length] :=
  List.mapIdx_concat

theorem safe_empty : empty.Safe := fun _ _ h => absurd h (by simp [empty])

theorem Safe.add (hb : b.Safe) (h : ¬ b.Knows c.email) (hc : c.Safe b.customers.length) :
    (b.add c h).Safe := by
  intro n c' hn
  rcases lt_trichotomy n b.customers.length with hlt | rfl | hgt
  · rw [Bank.add, List.getElem?_append_left hlt] at hn
    exact hb n c' hn
  · rw [Bank.add, List.getElem?_concat_length] at hn
    exact Option.some.inj hn ▸ hc
  · rw [Bank.add, List.getElem?_eq_none (by simp; omega)] at hn
    simp at hn

/-- A row of the user table is that of a customer. -/
theorem mem_userRows {row : Row} :
    row ∈ b.userRows ↔ ∃ (n : ℕ) (c : Customer), b.customers[n]? = some c ∧ c.row n = row := by
  rw [userRows, List.mem_mapIdx]
  constructor
  · rintro ⟨n, hn, rfl⟩
    exact ⟨n, b.customers[n], List.getElem?_eq_getElem hn, rfl⟩
  · rintro ⟨n, c, hn, rfl⟩
    obtain ⟨hlt, rfl⟩ := List.getElem?_eq_some_iff.mp hn
    exact ⟨n, hlt, rfl⟩

theorem mem_emails {email : Bytes} :
    b.Knows email ↔ ∃ (n : ℕ) (c : Customer), b.customers[n]? = some c ∧ c.email = email := by
  rw [Knows, List.mem_map]
  constructor
  · rintro ⟨c, hc, rfl⟩
    obtain ⟨n, hn⟩ := List.mem_iff_getElem?.mp hc
    exact ⟨n, c, hn, rfl⟩
  · rintro ⟨n, c, hn, rfl⟩
    exact ⟨c, List.mem_of_getElem? hn, rfl⟩

/-- **The user table of a safe bank is a relation** over the columns of a user. -/
theorem Safe.storable (hb : b.Safe) (hcount : (b.customers.length : ℤ) ≤ intMax) :
    (∀ row ∈ b.userRows, row.map Prod.fst = userColumns) ∧
      Storable (userRelation b.userRows) := by
  have hcols : ∀ row ∈ b.userRows, row.map Prod.fst = userColumns := by
    intro row hrow
    obtain ⟨n, c, -, rfl⟩ := mem_userRows.mp hrow
    exact userRow_columns _ _ _ _
  have hsafe : ∀ row ∈ b.userRows, ∃ n c, IsUserId (printNat n) ∧ Customer.Safe c n ∧
      c.row n = row := by
    intro row hrow
    obtain ⟨n, c, hn, rfl⟩ := mem_userRows.mp hrow
    obtain ⟨hlt, -⟩ := List.getElem?_eq_some_iff.mp hn
    exact ⟨n, c, isUserId_printNat (by omega), hb n c hn, rfl⟩
  refine ⟨hcols, storable_userRelation hcols ?_ ?_⟩
  · intro row hrow
    obtain ⟨n, c, hid, hc, rfl⟩ := hsafe row hrow
    exact SafeUser.valueOk hc hid
  · intro row hrow
    obtain ⟨n, c, hid, hc, rfl⟩ := hsafe row hrow
    exact SafeUser.length hc

/-! ### The queries -/

end Bank

/-- The tables of a disk are those of a bank. -/
structure Disk.Keeps (d : Disk) (b : Bank) : Prop where
  users : (d.table .user).getD [] = b.usersText
  accounts : (d.table .account).getD [] = b.accountsText

theorem table_eq_linesText {d : Disk} {s : Store} {rows : List Row} {text : Bytes}
    (h : (d.table s).getD [] = linesText (rows.map rowText)) (htext : d.table s = some text) :
    text = linesText (rows.map rowText) := by
  rw [← h, htext, Option.getD_some]

theorem Customer.rowValue_row (c : Customer) (n : ℕ) :
    rowValue (c.row n) (lit "id") = printNat n ∧ rowValue (c.row n) (lit "cpf") = c.cpf ∧
      rowValue (c.row n) (lit "email") = c.email := by
  have hnodup : ((c.row n).map Prod.fst).Nodup := (userRow_columns _ _ _ _).symm ▸ nodup_userColumns
  have hvalue : ∀ {col value : Bytes}, (col, value) ∈ c.row n → rowValue (c.row n) col = value :=
    fun hmem => rowValue_of_mem hnodup hmem
  exact ⟨hvalue (by simp [row, userRow]), hvalue (by simp [row, userRow]),
    hvalue (by simp [row, userRow])⟩

/-- What a query with one condition keeps of the user table. -/
theorem matchedRows_oneCondition {rows : List Row}
    (hrows : ∀ row ∈ rows, row.map Prod.fst = userColumns) (hR : Storable (userRelation rows))
    {q : SelectQuery} {field value : Bytes} (hcond : q.conditions = [⟨field, lit "=", value⟩])
    (hfield : field ∈ userColumns) (hsel : q.columns.Nodup) :
    matchedRows q (linesText (rows.map rowText)) = (rowsWith rows field value).map fun row =>
      tableRow ((userRelation rows).project q.columns).columns (rowValue row) := by
  have hconds : ∀ clause ∈ q.conditions, clause.column ∈ (userRelation rows).columns ∧
      (clause.operator = lit "=" ∨ clause.operator = lit "!=") := by
    rw [hcond]
    simp only [List.mem_singleton, forall_eq]
    exact ⟨hfield, Or.inl trivial⟩
  have hfilter : rows.filter ((fun row => [(⟨field, lit "=", value⟩ : WhereCondition)].all
      fun clause => clause.holds row) ∘ rowValue) = rowsWith rows field value :=
    List.filter_congr fun row _ => by simp [WhereCondition.holds]
  rw [← tableText_userRelation hrows, hR.matchedRows hconds hsel, hcond, ← hfilter]
  simp only [userRelation, Relation.restrict, List.filter_map, List.map_map]
  rfl

/-- A query for all columns of a user keeps whole rows. -/
theorem matchedRows_allColumns {rows : List Row}
    (hrows : ∀ row ∈ rows, row.map Prod.fst = userColumns) (hR : Storable (userRelation rows))
    {q : SelectQuery} {field value : Bytes} (hcond : q.conditions = [⟨field, lit "=", value⟩])
    (hfield : field ∈ userColumns) (hsel : q.columns.Nodup) (hall : userColumns ⊆ q.columns) :
    matchedRows q (linesText (rows.map rowText)) = rowsWith rows field value := by
  have hproject : ((userRelation rows).project q.columns).columns = userColumns :=
    List.filter_eq_self.mpr fun col hcol => by simpa using hall hcol
  rw [matchedRows_oneCondition hrows hR hcond hfield hsel, hproject]
  refine (List.map_congr_left ?_).trans (List.map_id _)
  intro row hrow
  exact tableRow_rowValue (hrows row (List.mem_of_mem_filter hrow))

namespace Bank

variable {b : Bank} {d : Disk}

/-- The rows with an email, in a bank: some exactly when it knows the email. -/
theorem rowsWith_email_eq_nil {email : Bytes} :
    rowsWith b.userRows (lit "email") email = [] ↔ ¬ b.Knows email := by
  rw [rowsWith, List.filter_eq_nil_iff]
  constructor
  · intro h hknows
    obtain ⟨n, c, hn, rfl⟩ := mem_emails.mp hknows
    exact h _ (mem_userRows.mpr ⟨n, c, hn, rfl⟩) (decide_eq_true (c.rowValue_row n).2.2)
  · rintro hnew row hrow hemail
    obtain ⟨n, c, hn, rfl⟩ := mem_userRows.mp hrow
    rw [decide_eq_true_eq, (c.rowValue_row n).2.2] at hemail
    exact hnew (mem_emails.mpr ⟨n, c, hn, hemail⟩)

/-- **Whether an email is registered**: whether the bank knows it. -/
theorem emailAlreadyRegistered_eq (hb : b.Safe) (hcount : (b.customers.length : ℤ) ≤ intMax)
    (hd : (d.table .user).getD [] = b.usersText) {email : Bytes} {known : Bool}
    (h : emailAlreadyRegistered email d = some known) : known = decide (b.Knows email) := by
  obtain ⟨hcols, hR⟩ := hb.storable hcount
  obtain ⟨rs, hrs, hknown⟩ := Option.bind_eq_some_iff.mp h
  cases htext : d.table .user with
  | none => simp [htext, selectExecutor] at hrs
  | some text =>
      obtain rfl := table_eq_linesText hd htext
      rw [htext] at hrs
      obtain ⟨rfl, -, -⟩ := selectExecutor_eq_some_iff.mp hrs
      have hsel : (emailQuery email).columns.Nodup := by
        change (qselect (newSelectQuery .user) (lit "email")).columns.Nodup
        decide +kernel
      have hcond : (emailQuery email).conditions = [⟨lit "email", lit "=", email⟩] := rfl
      rw [rows_ofRows, matchedRows_oneCondition hcols hR hcond (by decide) hsel,
        List.length_map] at hknown
      obtain rfl := Option.some.inj hknown
      rw [decide_eq_decide, List.length_pos_iff_ne_nil, ne_eq, rowsWith_email_eq_nil, not_not]

/-- The first row with a value in a column is that of the first customer with it. -/
theorem head_rowsWith (b : Bank) (field value : Bytes) :
    (rowsWith b.userRows field value).head? =
      (b.customers.zipIdx.find? fun p => rowValue (p.1.row p.2) field = value).map fun p =>
        p.1.row p.2 := by
  rw [rowsWith, userRows, List.mapIdx_eq_zipIdx_map, List.filter_map, List.head?_map,
    List.head?_filter]
  rfl

/-- The customer with a number. -/
theorem find_id {n : ℕ} {c : Customer} (hn : b.customers[n]? = some c) :
    (b.customers.zipIdx.find? fun p => rowValue (p.1.row p.2) (lit "id") = printNat n) =
      some (c, n) := by
  obtain ⟨hlt, rfl⟩ := List.getElem?_eq_some_iff.mp hn
  have hlength : n < b.customers.zipIdx.length := by rwa [List.length_zipIdx]
  refine List.find?_eq_some_iff_getElem.mpr ⟨?_, n, hlength, ?_, fun j hj => ?_⟩
  · rw [decide_eq_true_eq, (Customer.rowValue_row _ _).1]
  · rw [List.getElem_zipIdx, Nat.zero_add]
  · rw [List.getElem_zipIdx, (Customer.rowValue_row _ _).1]
    simpa using fun h => hj.ne (printNat_injective h)

/-- A user found by the id of a customer is that customer's row. -/
theorem rowsWith_id {n : ℕ} {c : Customer} (hn : b.customers[n]? = some c) :
    (rowsWith b.userRows (lit "id") (printNat n)).head? = some (c.row n) := by
  rw [head_rowsWith, find_id hn]
  rfl

/-- **The user read back after a registration** has the id that was given. -/
theorem readNewUser_eq (hb : b.Safe) (hcount : (b.customers.length : ℤ) ≤ intMax)
    (hd : (d.table .user).getD [] = b.usersText) {n : ℕ} {c : Customer}
    (hn : b.customers[n]? = some c) {scratch : UserScratch} {user : BankUser}
    (h : readNewUser scratch (printNat n) d = some user) : user.id = printNat n := by
  obtain ⟨hcols, hR⟩ := hb.storable hcount
  obtain ⟨rs, hrs, h⟩ := Option.bind_eq_some_iff.mp h
  obtain ⟨line, hline, hmount⟩ := Option.bind_eq_some_iff.mp h
  cases htext : d.table .user with
  | none => simp [htext, selectExecutor] at hrs
  | some text =>
      obtain rfl := table_eq_linesText hd htext
      rw [htext] at hrs
      obtain ⟨rfl, -, -⟩ := selectExecutor_eq_some_iff.mp hrs
      have hsel : (userByIdQuery (printNat n)).columns.Nodup ∧
          userColumns ⊆ (userByIdQuery (printNat n)).columns := by
        change (qselect (newSelectQuery .user)
          (lit "id,name,cpf,password,email,is_active,created_at,updated_at")).columns.Nodup ∧
            ∀ col ∈ userColumns, col ∈ (qselect (newSelectQuery .user)
              (lit "id,name,cpf,password,email,is_active,created_at,updated_at")).columns
        decide +kernel
      have hcond : (userByIdQuery (printNat n)).conditions =
          [⟨lit "id", lit "=", printNat n⟩] := rfl
      obtain ⟨hlt, -⟩ := List.getElem?_eq_some_iff.mp hn
      have hid : IsUserId (printNat n) := isUserId_printNat (by omega)
      have hsafe : SafeUser (printNat n) ⟨c.name, c.email, c.cpf, []⟩ c.pwdHash c.createdAt :=
        hb n c hn
      have hshort : (rowText (c.row n)).length < 1024 := hsafe.length.trans_lt (by norm_num)
      rw [matchedRows_allColumns hcols hR hcond (by decide) hsel.1 hsel.2,
        fullLine_of_width (rowsWith_id hn) (length_of_mem_rowsWith hcols) hshort,
        Option.some.injEq] at hline
      subst hline
      exact (mountUserFromLineBuf_userRow hid hsafe hmount).1

/-- The first row with a cpf is that of the first customer with it. -/
theorem rowsWith_cpf (b : Bank) (cpf : Bytes) : (rowsWith b.userRows (lit "cpf") cpf).head? =
    (b.customers.zipIdx.find? fun p => p.1.cpf = cpf).map fun p => p.1.row p.2 := by
  rw [head_rowsWith]
  simp only [(Customer.rowValue_row _ _).2.1]

/-- The customer a login is for. -/
theorem login_eq_some {cpf pwdHash : Bytes} {n : ℕ} {c : Customer} :
    b.login cpf pwdHash = some (n, c) ↔
      b.customers.zipIdx.find? (fun p => p.1.cpf = cpf) = some (c, n) ∧ c.pwdHash = pwdHash := by
  rw [login, Option.bind_eq_some_iff]
  constructor
  · rintro ⟨⟨c', n'⟩, hfind, hhash⟩
    split at hhash
    · rename_i heq
      obtain ⟨rfl, rfl⟩ := Prod.mk.inj (Option.some.inj hhash)
      exact ⟨hfind, heq⟩
    · simp at hhash
  · rintro ⟨hfind, hhash⟩
    exact ⟨(c, n), hfind, if_pos hhash⟩

/-- It is one of the customers, with its number, and has the cpf and the hash. -/
theorem getElem?_of_login {cpf pwdHash : Bytes} {n : ℕ} {c : Customer}
    (h : b.login cpf pwdHash = some (n, c)) :
    b.customers[n]? = some c ∧ c.cpf = cpf ∧ c.pwdHash = pwdHash := by
  obtain ⟨hfind, hhash⟩ := login_eq_some.mp h
  have hcpf := List.find?_some hfind
  exact ⟨List.mk_mem_zipIdx_iff_getElem?.mp (List.mem_of_find?_eq_some hfind),
    of_decide_eq_true hcpf, hhash⟩

/-- No customer before it has the cpf. -/
theorem first_of_login {cpf pwdHash : Bytes} {n : ℕ} {c : Customer}
    (h : b.login cpf pwdHash = some (n, c)) {m : ℕ} {c' : Customer} (hm : m < n)
    (hc' : b.customers[m]? = some c') : c'.cpf ≠ cpf := by
  obtain ⟨hfind, -⟩ := login_eq_some.mp h
  obtain ⟨-, k, hk, hget, hbefore⟩ := List.find?_eq_some_iff_getElem.mp hfind
  rw [List.getElem_zipIdx] at hget
  obtain ⟨-, rfl⟩ := Prod.mk.inj hget
  rw [Nat.zero_add] at hm
  have hskip := hbefore m hm
  rw [List.getElem_zipIdx] at hskip
  obtain ⟨hlt, rfl⟩ := List.getElem?_eq_some_iff.mp hc'
  simpa using hskip

variable {crypt : Bytes → Bytes} {scratch : UserScratch} {cpf pwd : Bytes}

/-- **A login that succeeds is one the bank accepts**, and returns the id of its customer. -/
theorem login_sound (hb : b.Safe) (hcount : (b.customers.length : ℤ) ≤ intMax)
    (hd : (d.table .user).getD [] = b.usersText) {user : BankUser}
    (h : CBank.login crypt scratch cpf pwd d = some (some user)) :
    ∃ n c, b.login cpf (crypt pwd) = some (n, c) ∧ user.id = printNat n := by
  obtain ⟨hcols, hR⟩ := hb.storable hcount
  obtain ⟨hfound, hpwd⟩ := login_eq_some_iff.mp h
  cases htext : d.table .user with
  | none => simp [getUserByField, htext, selectExecutor] at hfound
  | some text =>
      obtain rfl := table_eq_linesText hd htext
      rw [getUserByField_eq hcols hR (by decide) cpf scratch htext, rowsWith_cpf] at hfound
      split at hfound
      · cases hfind : b.customers.zipIdx.find? (fun p => p.1.cpf = cpf) with
        | none => simp [hfind] at hfound
        | some p =>
            rw [hfind] at hfound
            obtain ⟨mounted, hmount, hsome⟩ := Option.map_eq_some_iff.mp hfound
            obtain rfl := Option.some.inj hsome
            have hn : b.customers[p.2]? = some p.1 :=
              List.mk_mem_zipIdx_iff_getElem?.mp (List.mem_of_find?_eq_some hfind)
            obtain ⟨hlt, -⟩ := List.getElem?_eq_some_iff.mp hn
            obtain ⟨hid, hhash⟩ := mountUserFromLineBuf_userRow
              (isUserId_printNat (n := p.2) (by omega)) (hb _ _ hn) hmount
            exact ⟨p.2, p.1, login_eq_some.mpr ⟨hfind, by rw [← hhash, hpwd]⟩, hid⟩
      · simp at hfound

end Bank

end CBank
