import CBank.AccountLookup
import CBank.ResultWrites

/-!
# Creating an Account

What `make_new_account` stores and what it returns. The row it appends and the counter it raises
are as they should be. The account it returns is read back with a query that selects no columns:
the result set has rows without values, `full_line` prints the empty text, and the account mounted
from it has neither an id nor a user.

## Main results

* `makeNewAccount_performs`: the row and the counter.
* `account_of_makeNewAccount`: the account returned is an empty one.
* `not_storesAndReturns`: so what is returned is never what was stored.
-/

namespace CBank

open CLib

/-! ### What is read back -/

variable {scratch : AccScratch} {createdAt : Bytes} {user : BankUser} {d : Disk} {t : Tracker}
  {n : ℕ}

/-- The query of `make_new_account` selects nothing of a line. -/
theorem selectPairs_accountById (nextId line : Bytes) :
    selectPairs (accountByIdQuery nextId).columns line = [] := by
  have hcolumns : (accountByIdQuery nextId).columns = [] := rfl
  rw [hcolumns, selectPairs]
  simp

/-- A result set without columns is printed as the empty text. -/
theorem fullLine_of_no_cols {rs : ResultSet} (h : rs.cols = 0) (i : ℕ) :
    fullLine rs i 1024 = some [] := by
  rw [fullLine, h]
  rfl

/-- **The account read back**: an empty one, when there is room for the rows with the id. -/
theorem readNewAccount_eq_some_iff {nextId : Bytes} {account : Account} :
    readNewAccount scratch nextId d = some account ↔
      account = Account.zero ∧ ∃ text, d.table .account = some text ∧
        (matchingLines (accountByIdQuery nextId) (tableLines text)).length ≤ rsMaxRows := by
  have hrow : ∀ text, ∀ row ∈ matchedRows (accountByIdQuery nextId) text, row = [] := by
    intro text row hrow
    obtain ⟨line, -, rfl⟩ := List.mem_map.mp hrow
    exact selectPairs_accountById nextId line
  have hcols : ∀ text,
      (ResultSet.ofRows (matchedRows (accountByIdQuery nextId) text)).cols = 0 := by
    intro text
    rw [ResultSet.ofRows]
    cases hlast : (matchedRows (accountByIdQuery nextId) text).getLast? with
    | none => rfl
    | some row =>
        rw [hrow text row (List.mem_of_getLast? hlast)]
        rfl
  have hmount : mountAccFromLineBuf scratch [] = some Account.zero := rfl
  rw [readNewAccount]
  cases htable : d.table .account with
  | none => simp [selectExecutor]
  | some text =>
      by_cases hcount : (matchingLines (accountByIdQuery nextId) (tableLines text)).length ≤
          rsMaxRows
      · have hselect : selectExecutor (accountByIdQuery nextId) (some text) =
            some (ResultSet.ofRows (matchedRows (accountByIdQuery nextId) text)) := by
          refine selectExecutor_eq_ofRows rfl (by rwa [matchedRows, List.length_map]) ?_
          intro row hmem
          rw [hrow text row hmem]
          exact Nat.zero_le _
        rw [hselect, Option.bind_eq_bind, Option.bind_some, fullLine_of_no_cols (hcols text),
          Option.bind_eq_bind, Option.bind_some, hmount]
        simp [hcount, eq_comm]
      · have hselect : selectExecutor (accountByIdQuery nextId) (some text) = none := by
          refine Option.eq_none_iff_forall_ne_some.mpr fun rs hrs => hcount ?_
          obtain ⟨-, hlen, -⟩ := selectExecutor_eq_some_iff.mp hrs
          rwa [matchedRows, List.length_map] at hlen
        rw [hselect]
        simp [hcount]

/-- **The account returned is an empty one.** -/
theorem account_of_makeNewAccount {account : Account}
    (h : (makeNewAccount scratch createdAt user).result d = some account) :
    account = Account.zero := by
  rw [makeNewAccount] at h
  obtain ⟨nextId, -, h⟩ := Proc.result_bind_eq_some.mp h
  obtain ⟨-, -, h⟩ := Proc.result_bind_eq_some.mp h
  obtain ⟨found, hread, h⟩ := Proc.result_bind_eq_some.mp h
  obtain ⟨-, -, h⟩ := Proc.result_bind_eq_some.mp h
  obtain rfl : found = account := Option.some.inj h
  exact (readNewAccount_eq_some_iff.mp hread).1

/-! ### What is stored -/

/-- The rows kept by the query for an id. -/
theorem applySelectWhere_accountById (a : AccountRecord) (nextId : Bytes) :
    applySelectWhere (accountByIdQuery nextId) (rowText a.row) = decide (a.id = nextId) := by
  have hlen := a.row_line.2.2
  have hcond : (accountByIdQuery nextId).conditions = [⟨lit "id", lit "=", nextId⟩] := rfl
  have hkeys : lit "id" ≠ lit "user_id_fk" ∧ lit "id" ≠ lit "balance" ∧
      lit "id" ≠ lit "created_at" ∧ lit "id" ≠ lit "updated_at" := by decide
  rw [applySelectWhere, hcond, List.take_of_length_le (by omega), a.linePairs_row]
  simp [AccountRecord.row, accountPairs, hkeys, compare]

/-- **The row and the counter.** When no account has the next id, a call appends the row of the
account with that id, raises the counter of accounts, and returns an empty account. -/
theorem makeNewAccount_performs (h : d.Holds t) (ht : t.Small)
    (hn : t.counter .account = some n) (hlt : (n : ℤ) < intMax) {accounts : List AccountRecord}
    (htable : d.table .account = some (recordTable accounts))
    (hunused : ∀ a ∈ accounts, a.id ≠ printNat n) {new : AccountRecord}
    (hnew : new.row = accountRow (printNat n) user.id createdAt) :
    (makeNewAccount scratch createdAt user).Performs d
      (recordOps t .account (accountRow (printNat n) user.id createdAt)) (some Account.zero) := by
  have hid : new.id = printNat n := by
    have hfirst := congrArg List.head? hnew
    exact (Prod.mk.inj (Option.some.inj hfirst)).2
  have htable' : (Proc.execAll d [FileOp.insert .account
      (accountRow (printNat n) user.id createdAt)]).table .account =
        some (recordTable (accounts ++ [new])) := by
    simp [FileOp.exec, htable, recordTable, linesText, hnew]
  have hlines : tableLines (recordTable (accounts ++ [new])) =
      (accounts ++ [new]).map fun a => rowText a.row := by
    refine fileLines_linesText ?_
    rw [List.forall_mem_map]
    exact fun a _ => a.row_line
  have hnone : ∀ a ∈ accounts,
      ¬ applySelectWhere (accountByIdQuery (printNat n)) (rowText a.row) = true := by
    intro a ha
    rw [applySelectWhere_accountById, decide_eq_true_eq]
    exact hunused a ha
  have hmatching : (matchingLines (accountByIdQuery (printNat n))
      (tableLines (recordTable (accounts ++ [new])))).length ≤ rsMaxRows := by
    rw [hlines, matchingLines, List.map_append, List.filter_append,
      List.filter_eq_nil_iff.mpr (List.forall_mem_map.mpr hnone), List.nil_append]
    exact (List.length_filter_le _ _).trans (by decide : 1 ≤ rsMaxRows)
  have hlt' : ∀ m, t.counter .account = some m → (m : ℤ) < intMax := by
    intro m hm
    rw [hn, Option.some.injEq] at hm
    exact hm ▸ hlt
  exact makeNewAccount_of_read h ht hn hlt'
    (readNewAccount_eq_some_iff.mpr ⟨rfl, _, htable', hmatching⟩)

/-! ### What is returned -/

/-- A call that gets the number `n` appends one row, with that id and the id of the user, raises
the counter of accounts to `n + 1` and no other, and returns the account of that row. -/
def StoresAndReturns (scratch : AccScratch) (createdAt : Bytes) (user : BankUser) (d : Disk)
    (t : Tracker) (n : ℕ) : Prop :=
  ∃ row account t', (makeNewAccount scratch createdAt user).result d = some account ∧
    (((makeNewAccount scratch createdAt user).after d).table .account).getD [] =
      (d.table .account).getD [] ++ (rowText row ++ [newline]) ∧
    row.lookup (lit "id") = some (printNat n) ∧ row.lookup (lit "user_id_fk") = some user.id ∧
    ((makeNewAccount scratch createdAt user).after d).Holds t' ∧
    t'.counter .account = some (n + 1) ∧ (∀ s ≠ .account, t'.counter s = t.counter s) ∧
    row.lookup (lit "id") = some account.id ∧
    row.lookup (lit "user_id_fk") = some account.userIdFk ∧
    row.lookup (lit "created_at") = some account.createdAt ∧
    row.lookup (lit "updated_at") = some account.updatedAt

/-- **What is returned is never what was stored**: an account without an id. -/
theorem not_storesAndReturns (scratch : AccScratch) (createdAt : Bytes) (user : BankUser)
    (d : Disk) (t : Tracker) (n : ℕ) : ¬ StoresAndReturns scratch createdAt user d t n := by
  rintro ⟨row, account, t', hresult, -, hid, -, -, -, -, hreturned, -⟩
  rw [account_of_makeNewAccount hresult, hid, Option.some.injEq] at hreturned
  exact printNat_ne_nil n hreturned

/-- A tracker with the counter of accounts. -/
def accountTracker (n : ℕ) : Tracker := ⟨[⟨.account, n, false⟩], List.nodup_singleton _⟩

/-- A directory without accounts. -/
def noAccountsDisk : Disk :=
  (Disk.empty.put .account (some [])).put .idTracker (some (accountTracker 0).text)

/-- The user with the id `0`. -/
def userZero : BankUser := { BankUser.zero with id := lit "0" }

/-- **The first account**: its row is stored and its counter raised, and the account returned has
no id. -/
theorem storesAndReturns_first :
    (∃ account, (makeNewAccount ⟨[], [], [], []⟩ (lit "2024-01-01 00:00:00") userZero).result
      noAccountsDisk = some account ∧ account.id = []) ∧
    ((makeNewAccount ⟨[], [], [], []⟩ (lit "2024-01-01 00:00:00") userZero).after
      noAccountsDisk).table .account = some (rowText (accountRow (lit "0") (lit "0")
        (lit "2024-01-01 00:00:00")) ++ [newline]) ∧
    ¬ StoresAndReturns ⟨[], [], [], []⟩ (lit "2024-01-01 00:00:00") userZero noAccountsDisk
      (accountTracker 0) 0 := by
  have hrun : ((makeNewAccount ⟨[], [], [], []⟩ (lit "2024-01-01 00:00:00") userZero).result
      noAccountsDisk).map Account.id = some [] := by decide +kernel
  obtain ⟨account, hresult, hid⟩ := Option.map_eq_some_iff.mp hrun
  refine ⟨⟨account, hresult, hid⟩, by decide +kernel, ?_⟩
  rintro ⟨row, account', t', hresult', -, hstored, -, -, -, -, hreturned, -⟩
  obtain rfl := Option.some.inj (hresult.symm.trans hresult')
  rw [hid, hstored, Option.some.injEq] at hreturned
  exact printNat_ne_nil 0 hreturned

end CBank
