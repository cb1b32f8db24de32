import CBank.AccountStore

/-!
# Registration

`make_new_user` of `core/user.c`: a payload whose email the user table does not know yet gets
the next user id, a row, the advanced counter, and an account. The texts of the two
`get_fmt_now` calls point into a returned stack frame, and the local buffers of the readers
are not initialised; both are parameters of a call (`CallEnv`), like the password hash.

## Main results

* `makeNewUser_steps`: what a call performs, wherever it stops being defined.
-/

namespace CBank

open CLib

/-- `CreateUserDTO`, its arrays read as strings. -/
structure CreateUserDTO where
  name : Bytes
  email : Bytes
  cpf : Bytes
  password : Bytes
  deriving DecidableEq, Repr

/-- The strings fit the arrays of a `CreateUserDTO`. -/
structure CreateUserDTO.Fits (payload : CreateUserDTO) : Prop where
  name : payload.name.length < 50 ∧ NulFree payload.name
  email : payload.email.length < 50 ∧ NulFree payload.email
  cpf : payload.cpf.length < 12 ∧ NulFree payload.cpf
  password : payload.password.length < 35 ∧ NulFree payload.password

/-- What a call finds on the stack: the two date texts and the local buffers. -/
structure CallEnv where
  userCreatedAt : Bytes
  accCreatedAt : Bytes
  userScratch : UserScratch
  accScratch : AccScratch

/-- `MakeNewUserResponse`. -/
structure MakeNewUserResponse where
  user : BankUser
  success : Bool
  message : Bytes
  deriving DecidableEq, Repr

/-- The query of `email_already_registered`. -/
def emailQuery (email : Bytes) : SelectQuery :=
  qwhere (qselect (newSelectQuery .user) (lit "email")) (lit "email") (lit "=") email

/-- `email_already_registered`; the result set it reads after freeing it keeps its count. -/
def emailAlreadyRegistered (email : Bytes) (d : Disk) : Option Bool := do
  let result ← selectExecutor (emailQuery email) (d.table .user)
  pure (decide (0 < result.rows))

/-- The insert query of `make_new_user`. -/
def userInsert (nextId : Bytes) (payload : CreateUserDTO) (pwdHash createdAt : Bytes) :
    InsertQuery :=
  (((((((((InsertQuery.newInto .user).set (lit "id") nextId).set (lit "name") payload.name).set
    (lit "cpf") payload.cpf).set (lit "email") payload.email).set (lit "password") pwdHash).set
      (lit "is_active") (lit "true")).set (lit "created_at") createdAt).set
        (lit "updated_at") (lit "NULL"))

/-- The query that reads the new user back. -/
def userByIdQuery (id : Bytes) : SelectQuery :=
  qwhere (qselect (newSelectQuery .user)
    (lit "id,name,cpf,password,email,is_active,created_at,updated_at")) (lit "id") (lit "=") id

/-- The user `make_new_user` reads back. -/
def readNewUser (scratch : UserScratch) (nextId : Bytes) (d : Disk) : Option BankUser := do
  let result ← selectExecutor (userByIdQuery nextId) (d.table .user)
  let buf ← fullLine result 0 1024
  mountUserFromLineBuf scratch buf

/-- `make_new_user`, once the email is known to be new. -/
def createUser (crypt : Bytes → Bytes) (env : CallEnv) (payload : CreateUserDTO) :
    Proc Disk FileOp MakeNewUserResponse := do
  let nextId ← getNextIdentity .user
  let _ ← insertQueryExecutor
    (userInsert nextId payload (crypt payload.password) env.userCreatedAt)
  updtNextIdentity .user
  let user ← Proc.read (readNewUser env.userScratch nextId)
  let _ ← makeNewAccount env.accScratch env.accCreatedAt user
  pure ⟨user, true, lit "User created"⟩

/-- `make_new_user`. -/
def makeNewUser (crypt : Bytes → Bytes) (env : CallEnv) (payload : CreateUserDTO) :
    Proc Disk FileOp MakeNewUserResponse := do
  let registered ← Proc.read (emailAlreadyRegistered payload.email)
  if registered then
    pure ⟨BankUser.zero, false, lit "Could not create user. Email already exists"⟩
  else createUser crypt env payload

/-- The row of a new user. -/
def userRow (id : Bytes) (payload : CreateUserDTO) (pwdHash createdAt : Bytes) : Row :=
  [(lit "id", id), (lit "name", payload.name), (lit "cpf", payload.cpf),
    (lit "email", payload.email), (lit "password", pwdHash), (lit "is_active", lit "true"),
    (lit "created_at", createdAt), (lit "updated_at", lit "NULL")]

theorem userInsert_insertPair (nextId : Bytes) (payload : CreateUserDTO)
    (pwdHash createdAt : Bytes) :
    (userInsert nextId payload pwdHash createdAt).insertPair =
      userRow nextId payload pwdHash createdAt := by
  have hfold : userInsert nextId payload pwdHash createdAt =
      (userRow nextId payload pwdHash createdAt).foldl
        (fun q p => q.set p.1 p.2) (InsertQuery.newInto .user) := by
    simp only [userInsert, userRow, List.foldl_cons, List.foldl_nil]
  rw [hfold, InsertQuery.foldl_set_insertPair _ _ (by simp [userRow, maxInsertPairs])]
  rfl

/-- The ids of the rows appended to a store. -/
def insertedIds (s : Store) (ops : List FileOp) : List Bytes :=
  ops.filterMap fun op => match op with
    | .insert s' row => if s' = s then row.lookup (lit "id") else none
    | _ => none

/-- What a call of `make_new_user` performs and returns on a disk that holds `t`. Without a
result it stopped being defined after the last operation. -/
inductive MakeNewUserSteps (crypt : Bytes → Bytes) (env : CallEnv) (payload : CreateUserDTO)
    (t : Tracker) : List FileOp → Option MakeNewUserResponse → Prop
  | rejected {r : MakeNewUserResponse} (hr : r.success = false) :
      MakeNewUserSteps crypt env payload t [] (some r)
  | undefined : MakeNewUserSteps crypt env payload t [] none
  | noAccount {n : ℕ} (hn : t.counter .user = some n) :
      MakeNewUserSteps crypt env payload t
        (recordOps t .user (userRow (printNat n) payload (crypt payload.password)
          env.userCreatedAt)) none
  | halfAccount {n a : ℕ} {user : BankUser} (hn : t.counter .user = some n)
      (ha : t.counter .account = some a) :
      MakeNewUserSteps crypt env payload t
        (recordOps t .user (userRow (printNat n) payload (crypt payload.password)
          env.userCreatedAt) ++
        [.insert .account (accountRow (printNat a) user.id env.accCreatedAt)]) none
  | created {n a : ℕ} {r : MakeNewUserResponse} (hn : t.counter .user = some n)
      (ha : t.counter .account = some a) (hr : r.success = true) :
      MakeNewUserSteps crypt env payload t
        (recordOps t .user (userRow (printNat n) payload (crypt payload.password)
          env.userCreatedAt) ++
        recordOps (t.advance .user) .account
          (accountRow (printNat a) r.user.id env.accCreatedAt)) (some r)

/-- A registration that is rejected performs nothing. -/
theorem MakeNewUserSteps.ops_eq_nil {crypt : Bytes → Bytes} {env : CallEnv}
    {payload : CreateUserDTO} {t : Tracker} {ops : List FileOp} {r : MakeNewUserResponse}
    (h : MakeNewUserSteps crypt env payload t ops (some r)) (hr : ¬ r.success = true) :
    ops = [] := by
  cases h with
  | rejected _ => rfl
  | created _ _ hsuccess => exact absurd hsuccess hr

/-- The operations that give a new user its id. -/
theorem performs_userInsert (id : Bytes) (payload : CreateUserDTO) (pwdHash createdAt : Bytes)
    (d : Disk) :
    (insertQueryExecutor (userInsert id payload pwdHash createdAt)).Performs d
      [.insert .user (userRow id payload pwdHash createdAt)] (some 0) := by
  have h := insertQueryExecutor_performs (q := userInsert id payload pwdHash createdAt)
    (by simp [userInsert_insertPair, userRow]) d
  rw [userInsert_insertPair] at h
  simpa [userInsert] using h

/-- Up to where the new user is read back, every call does the same. -/
theorem createUser_performs {crypt : Bytes → Bytes} {env : CallEnv} {payload : CreateUserDTO}
    {d : Disk} {t : Tracker} (h : d.Holds t) (ht : t.Small)
    (hlt : ∀ s n, t.counter s = some n → (n : ℤ) < intMax) {n : ℕ}
    (hn : t.counter .user = some n) {row : Row}
    (hrow : row = userRow (printNat n) payload (crypt payload.password) env.userCreatedAt)
    {l : List FileOp} {r : Option MakeNewUserResponse}
    (hrest : (Proc.read (readNewUser env.userScratch (printNat n)) >>= fun user =>
      makeNewAccount env.accScratch env.accCreatedAt user >>= fun _ =>
        pure ⟨user, true, lit "User created"⟩).Performs
          (Proc.execAll d (recordOps t .user row)) l r) :
    (createUser crypt env payload).Performs d (recordOps t .user row ++ l) r := by
  subst hrow
  have hinsert := performs_userInsert (printNat n) payload (crypt payload.password)
    env.userCreatedAt d
  have hholds := h.insert (s := .user) (by simp)
    (userRow (printNat n) payload (crypt payload.password) env.userCreatedAt)
  have hupdt := updtNextIdentity_spec (hholds.table hn) ht (hlt .user)
  have hall : (createUser crypt env payload).Performs d ([.insert .user (userRow (printNat n)
      payload (crypt payload.password) env.userCreatedAt)] ++
        ((replaceOps (t.advance .user) ++ [.create .idTracker]) ++ l)) r :=
    Proc.Performs.read_bind (getNextIdentity_of_some h ht hn) <|
      Proc.Performs.bind hinsert <| Proc.Performs.bind hupdt hrest
  exact hall

/-- What a registration performs once its email is known to be new. -/
theorem createUser_steps (crypt : Bytes → Bytes) (env : CallEnv) (payload : CreateUserDTO)
    {d : Disk} {t : Tracker} (h : d.Holds t) (ht : t.Small)
    (hlt : ∀ s n, t.counter s = some n → (n : ℤ) < intMax) :
    ∃ ops r, (createUser crypt env payload).Performs d ops r ∧
      MakeNewUserSteps crypt env payload t ops r := by
  cases hn : t.counter .user with
  | none =>
      exact ⟨_, _, Proc.Performs.read_bind_none (getNextIdentity_of_none h ht hn) _, .undefined⟩
  | some n =>
      set row := userRow (printNat n) payload (crypt payload.password) env.userCreatedAt with hrow
      have hholds : (Proc.execAll d (recordOps t .user row)).Holds (t.advance .user) := by
        rw [recordOps, Proc.execAll_cons, Proc.execAll_append]
        exact (holds_replaceOps _ _).create _
      have hsmall : (t.advance .user).Small := ht.advance (hlt .user)
      cases huser : readNewUser env.userScratch (printNat n)
          (Proc.execAll d (recordOps t .user row)) with
      | none =>
          have hall := createUser_performs h ht hlt hn hrow (Proc.Performs.read_bind_none huser _)
          rw [List.append_nil] at hall
          exact ⟨_, _, hall, .noAccount hn⟩
      | some user =>
          have hcounter : (t.advance .user).counter .account = t.counter .account := by
            rw [Tracker.counter_advance, if_neg (by simp)]
          cases ha : t.counter .account with
          | none =>
              have hnone : (makeNewAccount env.accScratch env.accCreatedAt user).Performs
                  (Proc.execAll d (recordOps t .user row)) [] none :=
                Proc.Performs.read_bind_none
                  (getNextIdentity_of_none hholds hsmall (hcounter.trans ha)) _
              have hall := createUser_performs h ht hlt hn hrow
                (Proc.Performs.read_bind huser (hnone.bind_none _))
              rw [List.append_nil] at hall
              exact ⟨_, _, hall, .noAccount hn⟩
          | some a =>
              rcases makeNewAccount_cases env.accScratch env.accCreatedAt user hholds hsmall
                (hcounter.trans ha) (hcounter ▸ hlt .account) with ⟨account, hacc⟩ | hacc
              · have hrest := Proc.Performs.bind
                  (f := fun _ => pure (⟨user, true, lit "User created"⟩ : MakeNewUserResponse))
                  hacc (Proc.performs_pure _ _)
                rw [List.append_nil] at hrest
                exact ⟨_, _, createUser_performs h ht hlt hn hrow
                  (Proc.Performs.read_bind huser hrest),
                  .created (r := ⟨user, true, lit "User created"⟩) hn ha rfl⟩
              · exact ⟨_, _, createUser_performs h ht hlt hn hrow
                  (Proc.Performs.read_bind huser (hacc.bind_none _)), .halfAccount hn ha⟩

/-- **What a registration performs**: nothing when it is rejected, otherwise the row and the
counter of the user and then those of the account, unless it stops being defined between
them or after the row of the account. -/
theorem makeNewUser_steps (crypt : Bytes → Bytes) (env : CallEnv) (payload : CreateUserDTO)
    {d : Disk} {t : Tracker} (h : d.Holds t) (ht : t.Small)
    (hlt : ∀ s n, t.counter s = some n → (n : ℤ) < intMax) :
    ∃ ops r, (makeNewUser crypt env payload).Performs d ops r ∧
      MakeNewUserSteps crypt env payload t ops r := by
  cases hreg : emailAlreadyRegistered payload.email d with
  | none => exact ⟨_, _, Proc.Performs.read_bind_none hreg _, .undefined⟩
  | some registered =>
      cases registered with
      | true => exact ⟨_, _, Proc.Performs.read_bind hreg (Proc.performs_pure _ _), .rejected rfl⟩
      | false =>
          obtain ⟨ops, r, hops, hsteps⟩ := createUser_steps crypt env payload h ht hlt
          exact ⟨ops, r, Proc.Performs.read_bind hreg hops, hsteps⟩

end CBank
