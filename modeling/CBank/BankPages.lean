import CBank.AccountLookup
import CBank.AccountsApi
import CBank.BankRuns
import Mathlib.Algebra.Group.Action.Defs
import Mathlib.Algebra.Order.BigOperators.Group.List

/-!
# What a Bank Shows

The lookups of the program on the tables of a bank whose customers are read back whole: users by a
column, accounts by their owner, all accounts, and what a login and the two views of the accounts
make of them. Beyond 100 rows a result set has no room, and none of these is defined.

## Main results

* `Bank.getUserByField_eq`: a user is found as the first customer with a value.
* `Bank.login_eq`: the program and the bank agree on logins.
* `Bank.handleAccounts_eq`: the accounts page of a customer.
* `Bank.apiBody_eq`: the accounts as JSON.
-/

namespace CBank

open CLib

/-! ### Customers that are read back -/

/-- The row of a customer is read back whole. -/
def Customer.Readable (c : Customer) (n : ℕ) : Prop :=
  ReadableUser (printNat n) ⟨c.name, c.email, c.cpf, []⟩ c.pwdHash c.createdAt

/-- The user that is mounted for a customer. -/
def Customer.user (c : Customer) (n : ℕ) : BankUser :=
  ⟨printNat n, c.name, c.cpf, [], c.pwdHash, false, c.createdAt.take 19, lit "NULL"⟩

/-- The date of the account fits its column and holds no character the formats give a meaning. -/
structure Customer.DateFits (c : Customer) : Prop where
  plain : ∀ x ∈ c.accountCreatedAt,
    x ≠ 0 ∧ x ≠ newline ∧ x ≠ ch ';' ∧ x ≠ ch '=' ∧ x ≠ ch '"' ∧ x ≠ ch '\\'
  sized : 1 ≤ c.accountCreatedAt.length ∧ c.accountCreatedAt.length ≤ 19

/-- A digit is no character of the formats. -/
theorem plain_printNat (n : ℕ) : ∀ x ∈ printNat n,
    x ≠ 0 ∧ x ≠ newline ∧ x ≠ ch ';' ∧ x ≠ ch '=' ∧ x ≠ ch '"' ∧ x ≠ ch '\\' := by
  intro x hx
  have hdigit := isDigit_of_mem_printNat hx
  have hne : ∀ {y : UInt8}, isDigit y = false → x ≠ y := by
    rintro y hy rfl
    rw [hdigit] at hy
    exact Bool.noConfusion hy
  exact ⟨hne (by decide), hne (by decide), hne (by decide), hne (by decide), hne (by decide),
    hne (by decide)⟩

variable {c : Customer} {n : ℕ}

/-- The five values of an account row. -/
theorem Customer.DateFits.values (h : c.DateFits) : ∀ value ∈ [printNat n, printNat n,
    lit "0.000", c.accountCreatedAt, lit "NULL"], ∀ x ∈ value,
      x ≠ 0 ∧ x ≠ newline ∧ x ≠ ch ';' ∧ x ≠ ch '=' ∧ x ≠ ch '"' ∧ x ≠ ch '\\' := by
  simp only [List.mem_cons, List.not_mem_nil, or_false, forall_eq_or_imp, forall_eq]
  exact ⟨plain_printNat n, plain_printNat n, by decide +kernel, h.plain, by decide +kernel⟩

/-- A number that fits has at most 19 digits. -/
theorem Customer.DateFits.lengths (h : c.DateFits) (hn : (n : ℤ) < intMax) :
    ∀ value ∈ [printNat n, printNat n, lit "0.000", c.accountCreatedAt, lit "NULL"],
      1 ≤ value.length ∧ value.length ≤ 19 := by
  have hdigits : 1 ≤ (printNat n).length ∧ (printNat n).length ≤ 19 :=
    ⟨List.length_pos_of_ne_nil (printNat_ne_nil n), (isUserId_printNat hn).2.1⟩
  simp only [List.mem_cons, List.not_mem_nil, or_false, forall_eq_or_imp, forall_eq]
  exact ⟨hdigits, hdigits, by decide, h.sized, by decide⟩

/-- The same without the balance. -/
theorem Customer.DateFits.lengths_texts (h : c.DateFits) (hn : (n : ℤ) < intMax) :
    ∀ value ∈ [printNat n, printNat n, c.accountCreatedAt, lit "NULL"],
      1 ≤ value.length ∧ value.length ≤ 19 := by
  have hsub : [printNat n, printNat n, c.accountCreatedAt, lit "NULL"] ⊆
      [printNat n, printNat n, lit "0.000", c.accountCreatedAt, lit "NULL"] :=
    List.cons_subset_cons _ (List.cons_subset_cons _ (List.subset_cons_self _ _))
  exact fun value hvalue => h.lengths hn value (hsub hvalue)

/-- The account of a customer, as it is stored. -/
def Customer.account (c : Customer) (n : ℕ) (hn : (n : ℤ) < intMax) (h : c.DateFits) :
    StoredAccount where
  id := printNat n
  userIdFk := printNat n
  balance := lit "0.000"
  createdAt := c.accountCreatedAt
  updatedAt := lit "NULL"
  plain := h.values
  sized := h.lengths_texts hn

/-- The same, as the lookup by the owner reads it. -/
def Customer.record (c : Customer) (n : ℕ) (hn : (n : ℤ) < intMax) (h : c.DateFits) :
    AccountRecord where
  id := printNat n
  userIdFk := printNat n
  balance := lit "0.000"
  createdAt := c.accountCreatedAt
  updatedAt := lit "NULL"
  plain := fun value hvalue x hx =>
    have hplain := h.values value hvalue x hx
    ⟨hplain.1, hplain.2.1, hplain.2.2.1, hplain.2.2.2.1⟩
  sized := h.lengths hn

/-- Customers whose accounts the table format has room for. -/
structure DatedCustomers (customers : List Customer) : Prop where
  count : (customers.length : ℤ) ≤ intMax
  dates : ∀ c ∈ customers, c.DateFits

/-- Every customer has a number that fits, and so does the date. -/
theorem DatedCustomers.numbered {customers : List Customer} (h : DatedCustomers customers) :
    ∀ p ∈ customers.zipIdx, (p.2 : ℤ) < intMax ∧ p.1.DateFits := by
  intro p hp
  have hn : customers[p.2]? = some p.1 := List.mk_mem_zipIdx_iff_getElem?.mp hp
  obtain ⟨hlt, -⟩ := List.getElem?_eq_some_iff.mp hn
  exact ⟨(Int.ofNat_lt.mpr hlt).trans_le h.count, h.dates _ (List.mem_of_getElem? hn)⟩

/-- Customers the result sets have room for, and whose rows are all read back whole. -/
structure ReadableCustomers (customers : List Customer) : Prop where
  count : customers.length ≤ rsMaxRows
  users : ∀ (n : ℕ) (c : Customer), customers[n]? = some c → c.Readable n
  dates : ∀ c ∈ customers, c.DateFits

namespace ReadableCustomers

variable {customers more : List Customer}

theorem count_le (h : ReadableCustomers customers) : (customers.length : ℤ) ≤ intMax :=
  (Int.ofNat_le.mpr h.count).trans (by decide)

theorem of_append (h : ReadableCustomers (customers ++ more)) : ReadableCustomers customers where
  count := (List.length_append ▸ Nat.le_add_right _ _).trans h.count
  users := fun n c hn => h.users n c <| by
    obtain ⟨hlt, -⟩ := List.getElem?_eq_some_iff.mp hn
    rw [List.getElem?_append_left hlt, hn]
  dates := fun c hc => h.dates c (List.mem_append_left _ hc)

theorem dated (h : ReadableCustomers customers) : DatedCustomers customers where
  count := h.count_le
  dates := h.dates

end ReadableCustomers

namespace Bank

variable {b : Bank} {d : Disk}

theorem safe_of_readable (hb : ReadableCustomers b.customers) : b.Safe :=
  fun n c hn => (hb.users n c hn).toSafeUser

/-! ### Users -/

/-- **A user is found as the first customer with a value.** -/
theorem getUserByField_eq (hb : ReadableCustomers b.customers)
    (hd : d.table .user = some b.usersText) {field : Bytes} (hfield : field ∈ userColumns)
    (value : Bytes) (scratch : UserScratch) :
    getUserByField scratch field value d =
      some ((b.customers.zipIdx.find? fun p => rowValue (p.1.row p.2) field = value).map
        fun p => p.1.user p.2) := by
  obtain ⟨hcols, hR⟩ := (safe_of_readable hb).storable hb.count_le
  have hlength : (rowsWith b.userRows field value).length ≤ rsMaxRows :=
    (List.length_filter_le _ _).trans (by rw [userRows, List.length_mapIdx]; exact hb.count)
  rw [CBank.getUserByField_eq hcols hR hfield value scratch hd, if_pos hlength, head_rowsWith]
  cases hfind : b.customers.zipIdx.find? (fun p => rowValue (p.1.row p.2) field = value) with
  | none => rfl
  | some p =>
      have hn : b.customers[p.2]? = some p.1 :=
        List.mk_mem_zipIdx_iff_getElem?.mp (List.mem_of_find?_eq_some hfind)
      obtain ⟨hlt, -⟩ := List.getElem?_eq_some_iff.mp hn
      have hid : IsUserId (printNat p.2) :=
        isUserId_printNat ((Int.ofNat_lt.mpr hlt).trans_le hb.count_le)
      rw [Option.map_some, Option.map_some, Customer.row]
      simp only [mountUserFromLineBuf_readable hid (hb.users _ _ hn) scratch]
      rfl

/-- **The program and the bank agree on logins.** -/
theorem login_eq (hb : ReadableCustomers b.customers) (hd : d.table .user = some b.usersText)
    (crypt : Bytes → Bytes) (scratch : UserScratch) (cpf pwd : Bytes) :
    CBank.login crypt scratch cpf pwd d =
      some ((b.login cpf (crypt pwd)).map fun p => p.2.user p.1) := by
  rw [CBank.login, getUserByField_eq hb hd (by decide), login]
  simp only [(Customer.rowValue_row _ _).2.1]
  cases b.customers.zipIdx.find? (fun p => p.1.cpf = cpf) with
  | none => rfl
  | some p =>
      simp only [Option.map_some, Option.bind_eq_bind, Option.bind_some, Customer.user]
      by_cases hhash : crypt pwd = p.1.pwdHash
      · rw [if_pos hhash, if_pos hhash.symm]
        rfl
      · rw [if_neg hhash, if_neg (Ne.symm hhash)]
        rfl

/-! ### Accounts -/

/-- The accounts of a bank, as they are stored. -/
def accounts (b : Bank) (hb : DatedCustomers b.customers) : List StoredAccount :=
  b.customers.zipIdx.pmap (fun p hp => p.1.account p.2 hp.1 hp.2) hb.numbered

/-- The same, as the lookup by the owner reads them. -/
def records (b : Bank) (hb : DatedCustomers b.customers) : List AccountRecord :=
  b.customers.zipIdx.pmap (fun p hp => p.1.record p.2 hp.1 hp.2) hb.numbered

/-- What is made of every customer with its number, and does not depend on the proofs. -/
theorem map_pmap_customers {α β : Type} (hb : DatedCustomers b.customers)
    (make : ∀ p : Customer × ℕ, (p.2 : ℤ) < intMax ∧ p.1.DateFits → α) (g : α → β)
    (f : Customer × ℕ → β) (hmake : ∀ p hp, g (make p hp) = f p) :
    (b.customers.zipIdx.pmap make hb.numbered).map g = b.customers.zipIdx.map f := by
  rw [List.map_pmap]
  simp only [hmake]
  exact List.pmap_eq_map _

theorem accountRows_eq_map (b : Bank) :
    b.accountRows = b.customers.zipIdx.map fun p => p.1.accountRow p.2 :=
  List.mapIdx_eq_zipIdx_map

theorem accountTable_accounts (hb : DatedCustomers b.customers) :
    accountTable (b.accounts hb) = b.accountsText := by
  have hrows : (b.accounts hb).map StoredAccount.row = b.accountRows :=
    (map_pmap_customers hb (fun p hp => p.1.account p.2 hp.1 hp.2) _
      (fun p => p.1.accountRow p.2) fun _ _ => rfl).trans b.accountRows_eq_map.symm
  rw [accountsText, ← hrows, List.map_map]
  rfl

theorem recordTable_records (hb : DatedCustomers b.customers) :
    recordTable (b.records hb) = b.accountsText := by
  have hrows : (b.records hb).map AccountRecord.row = b.accountRows :=
    (map_pmap_customers hb (fun p hp => p.1.record p.2 hp.1 hp.2) _
      (fun p => p.1.accountRow p.2) fun _ _ => rfl).trans b.accountRows_eq_map.symm
  rw [accountsText, ← hrows, List.map_map]
  rfl

/-- The balance of an account, or of none, is zero. -/
theorem getAccountByField_balance (hb : ReadableCustomers b.customers)
    (hd : d.table .account = some b.accountsText)
    (scratch : AccScratch) (userId : Bytes) :
    ∃ found, getAccountByField scratch (lit "user_id_fk") userId d = some found ∧
      (found.getD Account.zero).balance = Double.zero := by
  have hlookup := getAccountByUserId_eq scanBalance scratch (by
    rw [records, List.length_pmap, List.length_zipIdx]
    exact hb.count : (b.records hb.dated).length ≤ rsMaxRows)
    ((recordTable_records hb.dated).symm ▸ hd) userId
  rw [getAccountByUserId_scanBalance] at hlookup
  obtain ⟨found, hfound, hmap⟩ := Option.map_eq_some_iff.mp hlookup
  refine ⟨found, hfound, ?_⟩
  cases found with
  | none => rfl
  | some account =>
      obtain ⟨record, hrecord, heq⟩ := Option.map_eq_some_iff.mp hmap.symm
      obtain ⟨p, hp, rfl⟩ := List.mem_pmap.mp (List.mem_of_find?_eq_some hrecord)
      have hbalance : scanBalance (lit "0.000") = account.balance :=
        congrArg FoundAccount.balance heq
      rw [Option.getD_some, ← hbalance]
      decide +kernel

/-- The line of an account fits the buffer. -/
theorem length_line_accounts (hb : DatedCustomers b.customers) :
    ∀ a ∈ b.accounts hb, a.line.length ≤ 1022 := by
  intro a ha
  obtain ⟨p, hp, rfl⟩ := List.mem_pmap.mp ha
  have hp' := hb.numbered p hp
  have hline := (p.1.record p.2 hp'.1 hp'.2).row_line.2.2
  have hsame : (p.1.account p.2 hp'.1 hp'.2).line = rowText (p.1.record p.2 hp'.1 hp'.2).row := rfl
  rw [hsame]
  omega

/-- The accounts as the API prints them. -/
theorem map_api_accounts (hb : DatedCustomers b.customers) (format : Bytes → Bytes) :
    (b.accounts hb).map (StoredAccount.api format) = b.customers.zipIdx.map fun p =>
      ⟨printNat p.2, p.1.accountCreatedAt, format (lit "0.000")⟩ :=
  map_pmap_customers hb _ _ _ fun _ _ => rfl

/-- All accounts are listed. -/
theorem listApiAccounts_eq (hb : ReadableCustomers b.customers)
    (hd : d.table .account = some b.accountsText) (format : Bytes → Bytes)
    (scratch : ℕ → AccScratch) :
    listApiAccounts format scratch d =
      some ((b.accounts hb.dated).map (StoredAccount.api format)) := by
  have hcount : (b.accounts hb.dated).length ≤ rsMaxRows := by
    rw [accounts, List.length_pmap, List.length_zipIdx]
    exact hb.count
  exact listApiAccounts_of_fits ((accountTable_accounts hb.dated).symm ▸ hd) hcount
    (length_line_accounts hb.dated)

theorem isSome_listAccounts (hb : ReadableCustomers b.customers)
    (hd : d.table .account = some b.accountsText)
    (scratch : ℕ → AccScratch) : (listAccounts scratch d).isSome := by
  have hlisted := listApiAccounts_eq hb hd printBalance scratch
  rw [CBank.listApiAccounts_eq] at hlisted
  obtain ⟨accounts, haccounts, -⟩ := Option.map_eq_some_iff.mp hlisted
  rw [haccounts, Option.isSome_some]

/-- The text of 61 accounts fits the buffer of the builder: each takes 65 bytes, and a comma. -/
theorem documentSize_accounts_le (hb : ReadableCustomers b.customers)
    (hsize : b.customers.length ≤ 61) :
    documentSize printBalance (b.accounts hb.dated) ≤ jsonBufSize - 1 := by
  have hbalance : (printBalance (lit "0.000")).length = 8 := by decide +kernel
  have hobject : ∀ size ∈ (b.accounts hb.dated).map (StoredAccount.objectSize printBalance),
      size ≤ 65 := by
    intro size hsize
    obtain ⟨a, ha, rfl⟩ := List.mem_map.mp hsize
    obtain ⟨p, hp, rfl⟩ := List.mem_pmap.mp ha
    have hn : b.customers[p.2]? = some p.1 := List.mk_mem_zipIdx_iff_getElem?.mp hp
    obtain ⟨hlt, -⟩ := List.getElem?_eq_some_iff.mp hn
    have hdigits : (printNat p.2).length ≤ 2 := length_printNat_le (by decide) (by omega)
    have hdate := (hb.dated.numbered p hp).2.sized
    simp only [StoredAccount.objectSize, Customer.account, hbalance]
    omega
  have hsum := List.sum_le_card_nsmul _ _ hobject
  have hlength : (b.accounts hb.dated).length = b.customers.length := by
    rw [accounts, List.length_pmap, List.length_zipIdx]
  rw [List.length_map, hlength, smul_eq_mul] at hsum
  have hbuf : jsonBufSize = 4096 := rfl
  rw [documentSize, hlength, hbuf]
  omega

/-- **The accounts as JSON**, one object for each customer, in order. -/
theorem apiBody_eq (hb : ReadableCustomers b.customers)
    (hd : d.table .account = some b.accountsText)
    (hsize : b.customers.length ≤ 61) (scratch : ℕ → AccScratch) :
    apiBody printBalance scratch d = some (apiDocument (b.customers.zipIdx.map fun p =>
      ⟨printNat p.2, p.1.accountCreatedAt, lit "0.000000"⟩)) := by
  have hbalance : printBalance (lit "0.000") = lit "0.000000" := by decide +kernel
  rw [← hbalance, ← map_api_accounts hb.dated printBalance]
  refine apiBody_of_fits (listApiAccounts_eq hb hd printBalance scratch) ?_
  rw [length_apiDocument]
  exact documentSize_accounts_le hb hsize

/-- **The accounts page of a user**: the name of the customer with the id, and a balance of
zero. -/
theorem handleAccounts_eq (hb : ReadableCustomers b.customers)
    (hkeeps : d.table .user = some b.usersText) (hd : d.table .account = some b.accountsText)
    (env : HandlerEnv) {req : HttpRequest} {userId : Bytes}
    (hsub : req.authenticatedJwt.sub = some userId) :
    handleAccounts env req .zero d =
      (renderPage env (lit "./src/server/templates/accounts.html")
        [⟨lit "username", ((b.customers.zipIdx.find? fun p =>
            rowValue (p.1.row p.2) (lit "id") = userId).map fun p => p.1.name).getD []⟩,
          ⟨lit "total_balance", lit "0.0000"⟩]).map (addPage .zero) := by
  obtain ⟨accounts, haccounts⟩ := Option.isSome_iff_exists.mp
    (isSome_listAccounts hb hd env.accScratch)
  obtain ⟨found, hfound, hzero⟩ := getAccountByField_balance hb hd env.userAccScratch userId
  have hbalance : doubleToAscii Double.zero 4 = lit "0.0000" := by decide +kernel
  have huser := getUserByField_eq hb hkeeps (by decide : lit "id" ∈ userColumns) userId
    env.userScratch
  have hname : ∀ o : Option (Customer × ℕ), ((o.map fun p => p.1.user p.2).getD
      BankUser.zero).name = (o.map fun p => p.1.name).getD [] := by
    intro o
    cases o <;> rfl
  simp only [handleAccounts, haccounts, hsub, huser, hfound, hzero, hbalance, hname,
    Option.bind_eq_bind, Option.bind_some]
  cases renderPage env (lit "./src/server/templates/accounts.html") _ with
  | none => rfl
  | some text => rfl

end Bank

end CBank
