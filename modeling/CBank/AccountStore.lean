import CBank.IdTracker
import CBank.UserStore

/-!
# Accounts

`data/acc_store.c` and `make_new_account` of `core/acc.c`: the next account id is read, the
row is appended, the account is read back, and only then the counter is advanced. The query
that reads it back selects no columns, so its line is empty and the account returned has no
values.

## Main results

* `makeNewAccount_cases`: what a call performs, wherever it stops being defined.
-/

namespace CBank

open CLib

/-- The values of an `Account`. -/
structure Account where
  id : Bytes
  userIdFk : Bytes
  balance : Double
  createdAt : Bytes
  updatedAt : Bytes

/-- `Account account = {0}`. -/
def Account.zero : Account := ⟨[], [], Double.zero, [], []⟩

/-- The strings found in the local buffers of `mount_acc_from_line_buf` before they are
written. -/
structure AccScratch where
  id : Bytes
  userIdFk : Bytes
  createdAt : Bytes
  updatedAt : Bytes

/-- `__balance` of `mount_acc_from_line_buf`, which is `0.0` where `%lf` assigns nothing. -/
def scanBalance (s : Bytes) : Double := (scanDouble s).getD Double.zero

/-- `mount_acc_from_line_buf`. Each value is scanned to at most 19 bytes, the room of its
array; a longer string from a buffer nothing was scanned into runs past it. -/
def mountAccFromLineBuf (scratch : AccScratch) (line : Bytes) : Option Account :=
  match strstr (lit "id=") line, strstr (lit "user_id_fk=") line, strstr (lit "balance=") line,
    strstr (lit "created_at=") line, strstr (lit "updated_at=") line with
  | some idToken, some userIdFkToken, some balanceToken, some createdAtToken,
    some updatedAtToken => do
      let id := scanColumn (lit "id=") idToken 19 scratch.id
      let userIdFk := scanColumn (lit "user_id_fk=") userIdFkToken 19 scratch.userIdFk
      let balance := scanBalance (balanceToken.drop (lit "balance=").length)
      let createdAt := scanColumn (lit "created_at=") createdAtToken 19 scratch.createdAt
      let updatedAt := scanColumn (lit "updated_at=") updatedAtToken 19 scratch.updatedAt
      guard (id.length ≤ 19 ∧ userIdFk.length ≤ 19 ∧ createdAt.length ≤ 19 ∧
        updatedAt.length ≤ 19)
      pure ⟨id, userIdFk, balance, createdAt, updatedAt⟩
  | _, _, _, _, _ => some Account.zero

/-- `list_accounts`; each line is mounted from buffers of its own. -/
def listAccounts (scratch : ℕ → AccScratch) (d : Disk) : Option (List Account) := do
  let result ← selectExecutor (qselectAllFrom .account) (d.table .account)
  (List.range result.rows).mapM fun i => do
    let line ← getLineFromResultset result i
    mountAccFromLineBuf (scratch i) line

/-- `get_account_by_field`: the inner `none` is the response without success. -/
def getAccountByField (scratch : AccScratch) (field value : Bytes) (d : Disk) :
    Option (Option Account) := do
  let result ← selectExecutor (qwhere (qselectAllFrom .account) field (lit "=") value)
    (d.table .account)
  if result.rows = 0 then some none
  else do
    let buf ← fullLine result 0 1024
    let account ← mountAccFromLineBuf scratch buf
    some (some account)

/-- The insert query of `make_new_account`. -/
def accountInsert (nextId userId createdAt : Bytes) : InsertQuery :=
  ((((((InsertQuery.newInto .account).set (lit "id") nextId).set (lit "user_id_fk") userId).set
    (lit "balance") (lit "0.000")).set (lit "created_at") createdAt).set
      (lit "updated_at") (lit "NULL"))

/-- The query that reads the new account back. -/
def accountByIdQuery (id : Bytes) : SelectQuery :=
  qwhere (newSelectQuery .account) (lit "id") (lit "=") id

/-- The account `make_new_account` reads back. -/
def readNewAccount (scratch : AccScratch) (nextId : Bytes) (d : Disk) : Option Account := do
  let result ← selectExecutor (accountByIdQuery nextId) (d.table .account)
  let buf ← fullLine result 0 1024
  mountAccFromLineBuf scratch buf

/-- `make_new_account`, when `get_fmt_now` gives `createdAt`. -/
def makeNewAccount (scratch : AccScratch) (createdAt : Bytes) (user : BankUser) :
    Proc Disk FileOp Account := do
  let nextId ← getNextIdentity .account
  let _ ← insertQueryExecutor (accountInsert nextId user.id createdAt)
  let account ← Proc.read (readNewAccount scratch nextId)
  updtNextIdentity .account
  pure account

/-- The row of a new account. -/
def accountRow (id userId createdAt : Bytes) : Row :=
  [(lit "id", id), (lit "user_id_fk", userId), (lit "balance", lit "0.000"),
    (lit "created_at", createdAt), (lit "updated_at", lit "NULL")]

theorem accountInsert_insertPair (nextId userId createdAt : Bytes) :
    (accountInsert nextId userId createdAt).insertPair = accountRow nextId userId createdAt := by
  have hfold : accountInsert nextId userId createdAt = (accountRow nextId userId createdAt).foldl
      (fun q p => q.set p.1 p.2) (InsertQuery.newInto .account) := by
    simp only [accountInsert, accountRow, List.foldl_cons, List.foldl_nil]
  rw [hfold, InsertQuery.foldl_set_insertPair _ _ (by simp [accountRow, maxInsertPairs])]
  rfl

/-- The operations of a call that gives an entity the counter of its store as id: its row,
then the tracker with that counter advanced. -/
def recordOps (t : Tracker) (s : Store) (row : Row) : List FileOp :=
  .insert s row :: (replaceOps (t.advance s) ++ [.create .idTracker])

/-- The operation that stores a new account. -/
theorem performs_accountInsert (id userId createdAt : Bytes) (d : Disk) :
    (insertQueryExecutor (accountInsert id userId createdAt)).Performs d
      [.insert .account (accountRow id userId createdAt)] (some 0) :=
  insertQueryExecutor_performs (by simp [accountInsert_insertPair, accountRow]) d

/-- What a call performs that reads its account back. -/
theorem makeNewAccount_of_read {scratch : AccScratch} {createdAt : Bytes} {user : BankUser}
    {d : Disk} {t : Tracker} (h : d.Holds t) (ht : t.Small) {n : ℕ}
    (hn : t.counter .account = some n)
    (hlt : ∀ n, t.counter .account = some n → (n : ℤ) < intMax) {account : Account}
    (hread : readNewAccount scratch (printNat n) (Proc.execAll d [FileOp.insert .account
      (accountRow (printNat n) user.id createdAt)]) = some account) :
    (makeNewAccount scratch createdAt user).Performs d
      (recordOps t .account (accountRow (printNat n) user.id createdAt)) (some account) := by
  have hholds : (Proc.execAll d [FileOp.insert .account
      (accountRow (printNat n) user.id createdAt)]).Holds t := h.insert (by simp) _
  have hupdt := updtNextIdentity_spec (hholds.table hn) ht hlt
  have hrest := Proc.Performs.bind (f := fun _ => pure account) hupdt
    (Proc.performs_pure account _)
  rw [List.append_nil] at hrest
  exact Proc.Performs.read_bind (getNextIdentity_of_some h ht hn) <|
    Proc.Performs.bind (performs_accountInsert _ _ _ _) <| Proc.Performs.read_bind hread hrest

/-- **What a new account performs**: everything, or its row only. -/
theorem makeNewAccount_cases (scratch : AccScratch) (createdAt : Bytes) (user : BankUser)
    {d : Disk} {t : Tracker} (h : d.Holds t) (ht : t.Small) {n : ℕ}
    (hn : t.counter .account = some n)
    (hlt : ∀ n, t.counter .account = some n → (n : ℤ) < intMax) :
    (∃ account, (makeNewAccount scratch createdAt user).Performs d
        (recordOps t .account (accountRow (printNat n) user.id createdAt)) (some account)) ∨
      (makeNewAccount scratch createdAt user).Performs d
        [.insert .account (accountRow (printNat n) user.id createdAt)] none := by
  cases hread : readNewAccount scratch (printNat n) (Proc.execAll d [FileOp.insert .account
      (accountRow (printNat n) user.id createdAt)]) with
  | none =>
      right
      exact Proc.Performs.read_bind (getNextIdentity_of_some h ht hn) <|
        Proc.Performs.bind (performs_accountInsert _ _ _ _) <|
          Proc.Performs.read_bind_none hread _
  | some account => exact Or.inl ⟨account, makeNewAccount_of_read h ht hn hlt hread⟩

end CBank
