import CBank.IdSafety
import CBank.UserTable

/-!
# The Dates of New Rows

`get_fmt_now` of `utils.c` prints the time into an array of its own and returns a pointer to it.
When `set_for_insert` copies the text, that frame is gone: what it copies is whatever the memory
holds by then, the texts `userCreatedAt` and `accCreatedAt` of a `CallEnv`. They reach the rows as
they are, so the rows of a registration are not determined by its payload, the stores and the
clock.

## Main results

* `length_fmtDate`: the text of a date has 19 characters.
* `within_makeNewUser_dated`: the rows carry the texts that were found in memory.
* `rowsDetermined_iff`: the rows are determined only when there are none.
-/

namespace CBank

open CLib

/-! ### The text of a date -/

/-- The fields of `struct tm` that are printed. -/
structure Tm where
  sec : ℤ
  min : ℤ
  hour : ℤ
  mday : ℤ
  mon : ℤ
  year : ℤ

/-- `fmt_date` into a buffer of `bufS` bytes. -/
def fmtDate (bufS : ℕ) (date : Tm) : Bytes :=
  (printPadded 4 (date.year + 1900) ++ ch '-' :: (printPadded 2 (date.mon + 1) ++
    ch '-' :: (printPadded 2 date.mday ++ ch ' ' :: (printPadded 2 date.hour ++
      ch ':' :: (printPadded 2 date.min ++ ch ':' :: printPadded 2 date.sec))))).take (bufS - 1)

/-- A reading of the clock in a year of four digits, as `localtime` gives it. -/
structure Tm.Valid (date : Tm) : Prop where
  year : 1000 ≤ date.year + 1900 ∧ date.year + 1900 ≤ 9999
  mon : 0 ≤ date.mon ∧ date.mon ≤ 11
  mday : 1 ≤ date.mday ∧ date.mday ≤ 31
  hour : 0 ≤ date.hour ∧ date.hour ≤ 23
  min : 0 ≤ date.min ∧ date.min ≤ 59
  sec : 0 ≤ date.sec ∧ date.sec ≤ 60

/-- **The text of a date has 19 characters.** -/
theorem length_fmtDate {date : Tm} (h : date.Valid) : (fmtDate 100 date).length = 19 := by
  obtain ⟨hyear, hmon, hmday, hhour, hmin, hsec⟩ := h
  have htwo : ∀ z : ℤ, 0 ≤ z → z ≤ 60 → (printPadded 2 z).length = 2 :=
    fun z hpos hle => length_printPadded (by norm_num) hpos (by norm_num; omega)
  have hfour : (printPadded 4 (date.year + 1900)).length = 4 :=
    length_printPadded (by norm_num) (by omega) (by norm_num; omega)
  rw [fmtDate, List.length_take]
  simp only [List.length_append, List.length_cons, hfour, htwo _ hsec.1 (by omega),
    htwo _ hmin.1 (by omega), htwo _ hhour.1 (by omega), htwo date.mday (by omega) (by omega),
    htwo (date.mon + 1) (by omega) (by omega)]
  rfl

/-! ### The dates of the rows -/

/-- The text of a row that was appended to a store is the one found in memory for it. -/
def Dated (env : CallEnv) (op : FileOp) : Prop :=
  (∀ row, op = .insert .user row → row.lookup (lit "created_at") = some env.userCreatedAt) ∧
  ∀ row, op = .insert .account row → row.lookup (lit "created_at") = some env.accCreatedAt

variable {crypt : Bytes → Bytes} {env : CallEnv} {payload : CreateUserDTO} {d : Disk} {date : Tm}

/-- An operation on another file appends no row. -/
theorem dated_of_not_target {op : FileOp} (huser : op.target ≠ some .user)
    (haccount : op.target ≠ some .account) : Dated env op := by
  constructor
  · rintro row rfl
    exact absurd rfl huser
  · rintro row rfl
    exact absurd rfl haccount

theorem within_updtNextIdentity_dated (s : Store) :
    (updtNextIdentity s).Within (Dated env) := fun d op hop =>
  dated_of_not_target (within_updtNextIdentity (by simp) s d op hop)
    (within_updtNextIdentity (by simp) s d op hop)

/-- The row of the account. -/
theorem within_makeNewAccount_dated (scratch : AccScratch) (user : BankUser) :
    (makeNewAccount scratch env.accCreatedAt user).Within (Dated env) := by
  refine Proc.Within.bind (Proc.within_read _) fun nextId => ?_
  have hinsert : (insertQueryExecutor
      (accountInsert nextId user.id env.accCreatedAt)).Within (Dated env) := by
    refine Proc.within_of_performs (performs_accountInsert _ _ _) (List.forall_mem_singleton.mpr ?_)
    refine ⟨fun row h => by simp at h, fun row h => ?_⟩
    obtain ⟨-, rfl⟩ := FileOp.insert.inj h
    rfl
  refine hinsert.bind fun _ => ?_
  refine Proc.Within.bind (Proc.within_read _) fun account => ?_
  exact (within_updtNextIdentity_dated _).bind fun _ => Proc.within_pure _

/-- **The rows carry the texts that were found in memory.** -/
theorem within_makeNewUser_dated : (makeNewUser crypt env payload).Within (Dated env) := by
  refine Proc.Within.bind (Proc.within_read _) fun registered => ?_
  cases registered with
  | true => exact Proc.within_pure _
  | false =>
      change (createUser crypt env payload).Within (Dated env)
      refine Proc.Within.bind (Proc.within_read _) fun nextId => ?_
      have hinsert : (insertQueryExecutor (userInsert nextId payload (crypt payload.password)
          env.userCreatedAt)).Within (Dated env) := by
        refine Proc.within_of_performs (performs_userInsert _ _ _ _)
          (List.forall_mem_singleton.mpr ?_)
        refine ⟨fun row h => ?_, fun row h => by simp at h⟩
        obtain ⟨-, rfl⟩ := FileOp.insert.inj h
        rfl
      refine hinsert.bind fun _ => ?_
      refine (within_updtNextIdentity_dated _).bind fun _ => ?_
      refine Proc.Within.bind (Proc.within_read _) fun user => ?_
      exact (within_makeNewAccount_dated _ _).bind fun _ => Proc.within_pure _

/-! ### Two runs -/

/-- The texts found in memory are C strings. -/
def CallEnv.Strings (env : CallEnv) : Prop :=
  NulFree env.userCreatedAt ∧ NulFree env.accCreatedAt

/-- Two registrations that find different leftovers append the same rows, each with the text of
the clock. -/
def RowsDetermined (crypt : Bytes → Bytes) (payload : CreateUserDTO) (d : Disk) (date : Tm) :
    Prop :=
  ∀ env env' : CallEnv, env.Strings → env'.Strings → ∀ s ∈ [Store.user, Store.account],
    insertedRows s ((makeNewUser crypt env payload).ops d) =
        insertedRows s ((makeNewUser crypt env' payload).ops d) ∧
      ∀ row ∈ insertedRows s ((makeNewUser crypt env payload).ops d),
        row.lookup (lit "created_at") = some (fmtDate 100 date)

/-- The email is not in the user table yet, and there is an id for the user. -/
def AppendsUser (payload : CreateUserDTO) (d : Disk) : Prop :=
  emailAlreadyRegistered payload.email d = some false ∧
    ((getNextIdentity .user).result d).isSome

/-- The row of a new user. -/
theorem insertedRows_makeNewUser (hemail : emailAlreadyRegistered payload.email d = some false)
    {id : Bytes} (hid : (getNextIdentity .user).result d = some id) :
    insertedRows .user ((makeNewUser crypt env payload).ops d) =
      [userRow id payload (crypt payload.password) env.userCreatedAt] := by
  have hread : (Proc.read (emailAlreadyRegistered payload.email) :
      Proc Disk FileOp Bool).result d = some false := hemail
  rw [makeNewUser, Proc.ops_bind_of_some hread, Proc.ops_read, Proc.after_read]
  exact insertedRows_createUser hid

/-- Otherwise nothing is written. -/
theorem ops_makeNewUser_eq_nil (h : ¬ AppendsUser payload d) :
    (makeNewUser crypt env payload).ops d = [] := by
  rw [makeNewUser]
  cases hemail : (Proc.read (emailAlreadyRegistered payload.email) :
      Proc Disk FileOp Bool).result d with
  | none => rw [Proc.ops_bind_of_none hemail, Proc.ops_read]
  | some registered =>
      rw [Proc.ops_bind_of_some hemail, Proc.ops_read, Proc.after_read]
      cases registered with
      | true => rfl
      | false =>
          have hid : (getNextIdentity .user).result d = none := by
            rw [← Option.not_isSome_iff_eq_none]
            exact fun hid => h ⟨hemail, hid⟩
          change ([] : List FileOp) ++ (createUser crypt env payload).ops d = []
          rw [createUser_eq, Proc.ops_bind_of_none hid]
          rfl

/-- **The rows are determined only when there are none.** -/
theorem rowsDetermined_iff (crypt : Bytes → Bytes) (payload : CreateUserDTO) (d : Disk)
    (date : Tm) : RowsDetermined crypt payload d date ↔ ¬ AppendsUser payload d := by
  constructor
  · rintro hrows ⟨hemail, hsome⟩
    obtain ⟨id, hid⟩ := Option.isSome_iff_exists.mp hsome
    let found (text : Bytes) : CallEnv := ⟨text, [], ⟨[], [], [], [], [], []⟩, ⟨[], [], [], []⟩⟩
    have hsame := (hrows (found []) (found [ch 'x'])
      ⟨by simp [found, NulFree], by simp [found, NulFree]⟩
      ⟨by simp [found, NulFree]; decide, by simp [found, NulFree]⟩ .user (by simp)).1
    rw [insertedRows_makeNewUser hemail hid, insertedRows_makeNewUser hemail hid] at hsame
    simp [userRow, found] at hsame
  · intro h env env' _ _ s _
    rw [ops_makeNewUser_eq_nil h, ops_makeNewUser_eq_nil h]
    exact ⟨rfl, fun row hrow => absurd hrow List.not_mem_nil⟩

/-- A clock reading. -/
def sampleDate : Tm := ⟨0, 0, 0, 1, 0, 124⟩

/-- The stack of a run where the frame of `get_fmt_now` was written over. -/
def overwrittenEnv : CallEnv := { sampleEnv with userCreatedAt := [], accCreatedAt := [] }

/-- The values of a column in the rows a registration appends. -/
def appendedValues (env : CallEnv) (s : Store) (column : Bytes) : List (Option Bytes) :=
  (insertedRows s ((makeNewUser id env samplePayload).ops startedDisk)).map (List.lookup column)

/-- **The first user with an overwritten date**: where the text of the clock is still in memory both
rows carry it, and where it is not they carry none. -/
theorem rowsDetermined_overwritten :
    sampleDate.Valid ∧ fmtDate 100 sampleDate = lit "2024-01-01 00:00:00" ∧
    (∀ s ∈ [Store.user, .account], appendedValues sampleEnv s (lit "created_at") =
        [some (lit "2024-01-01 00:00:00")] ∧
      appendedValues overwrittenEnv s (lit "created_at") = [some []]) ∧
    ¬ RowsDetermined id samplePayload startedDisk sampleDate := by
  have hvalues : ∀ s ∈ [Store.user, .account], appendedValues sampleEnv s (lit "created_at") =
        [some (lit "2024-01-01 00:00:00")] ∧
      appendedValues overwrittenEnv s (lit "created_at") = [some []] := by
    decide +kernel
  refine ⟨⟨by decide, by decide, by decide, by decide, by decide, by decide⟩, by decide, hvalues,
    fun hrows => ?_⟩
  have hsame := (hrows sampleEnv overwrittenEnv ⟨by decide, by decide⟩ ⟨by decide, by decide⟩
    .user (by simp)).1
  obtain ⟨hclock, hempty⟩ := hvalues .user (by simp)
  rw [appendedValues, hsame] at hclock
  rw [appendedValues, hclock] at hempty
  exact absurd hempty (by decide)

end CBank
