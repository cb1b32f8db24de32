import CBank.TokenOwners

/-!
# Acknowledged Registrations Are Durable

Who was answered with the redirect stays in the tables. Both rows of a registration are written
before its response is sent, and no later call takes a row away, so this holds wherever the
process is stopped, also within a record, and whatever is sent to it. Each acknowledged
registration has rows of its own, in the order of the answers.

## Main results

* `insertedRows_register`: the rows of a registration that is acknowledged.
* `acknowledged_durable`: the rows of a run.
-/

namespace CBank

open CLib

/-! ### The rows of a registration -/

variable {s : Store} {d : Disk}

/-- The rows of two procedures, one after the other. -/
theorem insertedRows_bind {α β : Type} {p : Proc Disk FileOp α} {a : α} (h : p.result d = some a)
    (f : α → Proc Disk FileOp β) : insertedRows s ((p >>= f).ops d) =
      insertedRows s (p.ops d) ++ insertedRows s ((f a).ops (p.after d)) := by
  rw [Proc.ops_bind_of_some h, insertedRows_append]

/-- An account that is made has its row. -/
theorem insertedRows_makeNewAccount {scratch : AccScratch} {createdAt : Bytes} {user : BankUser}
    {account : Account} (h : (makeNewAccount scratch createdAt user).result d = some account) :
    ∃ id, insertedRows .account ((makeNewAccount scratch createdAt user).ops d) =
      [accountRow id user.id createdAt] := by
  obtain ⟨id, hid, h⟩ := Proc.result_bind_eq_some.mp h
  obtain ⟨n, hinsert, -⟩ := Proc.result_bind_eq_some.mp h
  -- after its row an account is only read back, and its counter moved on
  have hnone : ∀ d', insertedRows .account ((Proc.read (readNewAccount scratch id) >>=
      fun account => updtNextIdentity .account >>= fun _ => pure account).ops d') = [] := by
    intro d'
    refine insertedRows_of_not_target (Proc.Within.bind (Proc.within_read _) (fun _ => ?_) d')
    exact (within_updtNextIdentity (by decide) _).bind fun _ => Proc.within_pure _
  refine ⟨id, ?_⟩
  rw [makeNewAccount, insertedRows_bind hid, insertedRows_bind hinsert, hnone,
    (performs_accountInsert _ _ _ _).1]
  rfl

variable {crypt : Bytes → Bytes} {env : CallEnv} {payload : CreateUserDTO}

/-- A user that is created has the row of the account. -/
theorem insertedRows_createUser_account {r : MakeNewUserResponse}
    (h : (createUser crypt env payload).result d = some r) : ∃ id userId,
      insertedRows .account ((createUser crypt env payload).ops d) =
        [accountRow id userId env.accCreatedAt] := by
  rw [createUser_eq] at h ⊢
  obtain ⟨id, hid, h⟩ := Proc.result_bind_eq_some.mp h
  obtain ⟨n, hinsert, h⟩ := Proc.result_bind_eq_some.mp h
  have huser : (insertQueryExecutor (userInsert id payload (crypt payload.password)
      env.userCreatedAt)).Within fun op => op.target ≠ some .account :=
    within_insertQueryExecutor (by simp [userInsert])
  rw [insertedRows_bind hid, insertedRows_bind hinsert, insertedRows_of_not_target (huser _)]
  obtain ⟨_, hupdt, h⟩ := Proc.result_bind_eq_some.mp h
  obtain ⟨user, huser, h⟩ := Proc.result_bind_eq_some.mp h
  obtain ⟨account, haccount, -⟩ := Proc.result_bind_eq_some.mp h
  obtain ⟨accountId, hrow⟩ := insertedRows_makeNewAccount haccount
  refine ⟨accountId, user.id, ?_⟩
  rw [finishUser, insertedRows_bind hupdt, insertedRows_bind huser, insertedRows_bind haccount,
    hrow, insertedRows_of_not_target (within_updtNextIdentity (by decide) _ _)]
  rfl

/-- **The rows of a registration that is acknowledged**: one in each table. -/
theorem insertedRows_register {e : Event} {response : Option MakeNewUserResponse}
    (hr : (e.proc crypt).result d = some response) {ops : List FileOp}
    (haccepted : (⟨e, ops, response⟩ : Outcome).accepted = true) :
    ∃ env payload id accountId userId, e = .register env payload ∧
      insertedRows .user ((e.proc crypt).ops d) =
        [userRow id payload (crypt payload.password) env.userCreatedAt] ∧
      insertedRows .account ((e.proc crypt).ops d) =
        [accountRow accountId userId env.accCreatedAt] := by
  cases e with
  | setup =>
      obtain ⟨_, -, hnone⟩ := Proc.result_bind_eq_some.mp hr
      obtain rfl := Option.some.inj hnone
      simp [Outcome.accepted] at haccepted
  | register env payload =>
      obtain ⟨r, hmade, hreturn⟩ := Proc.result_bind_eq_some.mp hr
      obtain rfl := Option.some.inj hreturn
      have hsuccess : r.success = true := haccepted
      have hops : ((Event.register env payload).proc crypt).ops d =
          (makeNewUser crypt env payload).ops d := by
        rw [Event.proc, Proc.ops_bind_pure]
      rcases makeNewUser_cases hmade with ⟨-, hfail⟩ | ⟨hnew, hcreate⟩
      · rw [hsuccess] at hfail
        exact Bool.noConfusion hfail
      · have hnew : (Proc.read (emailAlreadyRegistered payload.email) :
            Proc Disk FileOp Bool).result d = some false := hnew
        have hcreated : (makeNewUser crypt env payload).ops d =
            (createUser crypt env payload).ops d := by
          rw [makeNewUser, Proc.ops_read_bind hnew]
          rfl
        obtain ⟨-, id, hid⟩ := createUser_finished hcreate
        obtain ⟨accountId, userId, haccount⟩ := insertedRows_createUser_account hcreate
        rw [hops, hcreated]
        exact ⟨env, payload, id, accountId, userId, rfl, insertedRows_createUser hid, haccount⟩

/-! ### Sessions -/

/-- A row of a customer in the user table. -/
def Customer.IsRow (c : Customer) (row : Row) : Prop :=
  ∃ id, row = userRow id ⟨c.name, c.email, c.cpf, []⟩ c.pwdHash c.createdAt

/-- A row of a customer in the account table. -/
def Customer.IsAccountRow (c : Customer) (row : Row) : Prop :=
  ∃ id userId, row = CBank.accountRow id userId c.accountCreatedAt

/-- Related lists are put together. -/
theorem sublistForall₂_append {α β : Type} {R : α → β → Prop} {xs xs' : List α} {ys ys' : List β}
    (h : List.SublistForall₂ R xs ys) (h' : List.SublistForall₂ R xs' ys') :
    List.SublistForall₂ R (xs ++ xs') (ys ++ ys') := by
  obtain ⟨zs, hall, hsub⟩ := List.sublistForall₂_iff.mp h
  obtain ⟨zs', hall', hsub'⟩ := List.sublistForall₂_iff.mp h'
  exact List.sublistForall₂_iff.mpr ⟨zs ++ zs', List.rel_append hall hall', hsub.append hsub'⟩

/-- The customers whose registrations a session accepted. -/
def acknowledged (crypt : Bytes → Bytes) (log : List Outcome) : List Customer :=
  ((attempts crypt log).filter Prod.snd).map Prod.fst

theorem acknowledged_append (log : List Outcome) (o : Outcome) :
    acknowledged crypt (log ++ [o]) = acknowledged crypt log ++
      if o.accepted then (o.event.customer crypt).toList else [] := by
  rw [acknowledged, attempts_append, List.filter_append, List.map_append, acknowledged]
  cases o.event.customer crypt with
  | none => simp
  | some c => cases o.accepted <;> rfl

/-- **The rows of a session**, whatever its calls and stops are. Induction along the session: only
a registration that is accepted adds to the customers, and it adds both rows. -/
theorem Session.acknowledgedRows {canRun : Disk → Event → Prop} {canStop : List FileOp → Prop}
    {log : List Outcome} (h : Session crypt canRun canStop log d) :
    List.SublistForall₂ Customer.IsRow (acknowledged crypt log)
        (insertedRows .user (performed log)) ∧
      List.SublistForall₂ Customer.IsAccountRow (acknowledged crypt log)
        (insertedRows .account (performed log)) := by
  induction h with
  | start => exact ⟨.nil, .nil⟩
  | @finish log d e response h he hr ih =>
      rw [acknowledged_append, performed_append, insertedRows_append, insertedRows_append]
      by_cases haccepted : (⟨e, (e.proc crypt).ops d, response⟩ : Outcome).accepted = true
      · obtain ⟨env, payload, id, accountId, userId, rfl, huser, haccount⟩ :=
          insertedRows_register hr haccepted
        rw [if_pos haccepted, huser, haccount]
        exact ⟨sublistForall₂_append ih.1 (.cons ⟨id, rfl⟩ .nil),
          sublistForall₂_append ih.2 (.cons ⟨accountId, userId, rfl⟩ .nil)⟩
      · rw [if_neg haccepted]
        exact ⟨sublistForall₂_append ih.1 .nil, sublistForall₂_append ih.2 .nil⟩
  | @stop log d e h he n hn ih =>
      have hnone : (⟨e, ((e.proc crypt).ops d).take n, none⟩ : Outcome).accepted = false := rfl
      rw [acknowledged_append, performed_append, insertedRows_append, insertedRows_append, hnone]
      exact ⟨sublistForall₂_append ih.1 .nil, sublistForall₂_append ih.2 .nil⟩

/-! ### Runs -/

/-- **Acknowledged registrations are durable.** In any run of the server, whatever is sent and
wherever it is stopped, the two tables hold a row for every registration that was answered with the
redirect, in the order of the answers and each its own. -/
theorem acknowledged_durable {canStop : List FileOp → Prop} {log : List Served}
    (h : ServerRun crypt anyRequest canStop log d) :
    ∃ users accounts : List Row,
      (d.table .user).getD [] = linesText (users.map rowText) ∧
      (d.table .account).getD [] = linesText (accounts.map rowText) ∧
      List.SublistForall₂ Customer.IsRow (enrolled crypt log) users ∧
      List.SublistForall₂ Customer.IsAccountRow (enrolled crypt log) accounts := by
  obtain ⟨slog, hsession, hall, -⟩ := h.session fun _ _ _ _ _ => trivial
  have henrolled : enrolled crypt log = acknowledged crypt slog := by
    rw [enrolled, requests_eq hall]
    rfl
  rw [henrolled]
  exact ⟨_, _, hsession.table_of (by decide), hsession.table_of (by decide),
    hsession.acknowledgedRows.1, hsession.acknowledgedRows.2⟩

/-- The registration of Carl, as it is sent. -/
def carlPost : Received :=
  ⟨lit "POST /register HTTP/1.1" ++ crlf ++
    lit "Content-Type: application/x-www-form-urlencoded" ++ crlf ++
    lit "Content-Length: 44" ++ crlf ++ crlf ++
    lit "name=carl&email=carl@x&cpf=3&password=secret", by decide +kernel⟩

/-- Ann and Bob register, and Carl's registration is stopped right after his row was written. -/
def carlStopped : List Served :=
  servedAll Disk.empty annEvents ++ [bobServed] ++
    [⟨.serve annEnv carlPost, ((ServerEvent.serve annEnv carlPost).proc.ops bobDisk).take 1, none⟩]

/-- The rows of that run. -/
theorem acknowledged_durable_stopped :
    ∃ users accounts : List Row,
      (((ServerEvent.serve annEnv carlPost).proc.stopped bobDisk 1).table .user).getD [] =
        linesText (users.map rowText) ∧
      (((ServerEvent.serve annEnv carlPost).proc.stopped bobDisk 1).table .account).getD [] =
        linesText (accounts.map rowText) ∧
      List.SublistForall₂ Customer.IsRow (enrolled id carlStopped) users ∧
      List.SublistForall₂ Customer.IsAccountRow (enrolled id carlStopped) accounts := by
  have hrun : ServerRun id anyRequest (fun _ => True) (servedAll Disk.empty annEvents ++
      [bobServed]) bobDisk := serverRun_two (serverRun_ann trivial trivial trivial) trivial
  exact acknowledged_durable (Runs.stop hrun (e := ServerEvent.serve annEnv carlPost)
    ⟨trivial, rfl⟩ 1 trivial)

end CBank
