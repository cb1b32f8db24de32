import CBank.Session

/-!
# The User Table

What a session leaves in the user table: the file holds the rows of the registrations that
wrote one, in order, and no other text, whatever the rows hold (`Session.userTable`). In a
session without stops each of these rows is the row of a registration that succeeded
(`Session.registered`).

## Main results

* `Session.userTable`: the text of the user table.
* `ops_createUser`, `Event.finished`: what a call does to the user table.
* `Session.wrote`, `Session.registered`: the rows of the registrations that succeeded, and
  where a row of the user table comes from.
-/

namespace CBank

open CLib

/-! ### The rows appended to a store -/

/-- The rows appended to a store. -/
def insertedRows (s : Store) (ops : List FileOp) : List Row :=
  ops.filterMap fun op => match op with
    | .insert s' row => if s' = s then some row else none
    | _ => none

theorem insertedRows_append (s : Store) (ops ops' : List FileOp) :
    insertedRows s (ops ++ ops') = insertedRows s ops ++ insertedRows s ops' :=
  List.filterMap_append

/-- The ids appended to a store are those of the rows. -/
theorem insertedIds_eq (s : Store) (ops : List FileOp) :
    insertedIds s ops = (insertedRows s ops).filterMap fun row => row.lookup (lit "id") := by
  rw [insertedIds, insertedRows, List.filterMap_filterMap]
  refine List.filterMap_congr ?_
  intro op _
  cases op with
  | insert s' row =>
      by_cases hs : s' = s
      · simp [hs]
      · simp [hs]
  | _ => rfl

/-- An operation that can only add rows to a store. -/
def FileOp.OnlyRows (s : Store) (op : FileOp) : Prop :=
  op.target = some s → op = .create s ∨ ∃ row, op = .insert s row

theorem FileOp.onlyRows_of_not_target {s : Store} {op : FileOp} (h : op.target ≠ some s) :
    op.OnlyRows s := fun h' => absurd h' h

theorem insertedRows_of_not_target {s : Store} {ops : List FileOp}
    (h : ∀ op ∈ ops, op.target ≠ some s) : insertedRows s ops = [] := by
  rw [insertedRows, List.filterMap_eq_nil_iff]
  intro op hop
  have hne := h op hop
  cases op with
  | insert s' row =>
      have hs : s' ≠ s := fun hs => hne (congrArg some hs)
      simp [hs]
  | _ => rfl

/-- **A store is the text of the rows appended to it.** -/
theorem table_execAll {s : Store} {ops : List FileOp} (h : ∀ op ∈ ops, op.OnlyRows s)
    (d : Disk) : ((Proc.execAll d ops).table s).getD [] =
      (d.table s).getD [] ++ linesText ((insertedRows s ops).map rowText) := by
  induction ops generalizing d with
  | nil => simp [insertedRows, linesText]
  | cons op ops ih =>
      have hcons : insertedRows s (op :: ops) = insertedRows s [op] ++ insertedRows s ops :=
        insertedRows_append s [op] ops
      rw [Proc.execAll_cons, ih fun op' hop' => h op' (List.mem_cons_of_mem _ hop'), exec_eq,
        hcons, List.map_append, linesText_append, ← List.append_assoc]
      congr 1
      by_cases htarget : op.target = some s
      · rcases h op List.mem_cons_self htarget with rfl | ⟨row, rfl⟩
        · simp [FileOp.exec, insertedRows, linesText]
        · simp [FileOp.exec, insertedRows, linesText]
      · rw [FileOp.exec_table_of_not_target d htarget, insertedRows_of_not_target (by
          simpa using htarget)]
        simp [linesText]

/-! ### The operations of the calls -/

theorem within_updtNextIdentity {s : Store} (hs : s ≠ .idTracker) (s' : Store) :
    (updtNextIdentity s').Within fun op => op.target ≠ some s := by
  have htracker : some Store.idTracker ≠ some s := fun h => hs (Option.some.inj h).symm
  refine Proc.Within.bind (Proc.within_read _) fun text => ?_
  refine Proc.Within.bind (Proc.within_perform (by simp [FileOp.target])) fun _ => ?_
  refine Proc.Within.bind (Proc.within_perform htracker) fun _ => ?_
  refine Proc.Within.bind (Proc.within_perform htracker) fun _ => ?_
  exact Proc.within_perform htracker

theorem within_initializeIdTracker {s : Store} (hs : s ≠ .idTracker) (s' : Store) :
    (initializeIdTrackerIfNeeded s').Within fun op => op.target ≠ some s := by
  have htracker : some Store.idTracker ≠ some s := fun h => hs (Option.some.inj h).symm
  refine Proc.Within.bind (Proc.within_read _) fun hasStore => ?_
  cases hasStore with
  | true => exact Proc.within_pure _
  | false => exact Proc.within_perform htracker

theorem within_insertQueryExecutor {s : Store} {q : InsertQuery} (hq : q.table ≠ s) :
    (insertQueryExecutor q).Within fun op => op.target ≠ some s := by
  rw [insertQueryExecutor]
  split
  · exact Proc.within_pure _
  · exact Proc.Within.bind (Proc.within_perform (by simpa [FileOp.target] using hq)) fun _ =>
      Proc.within_pure _

/-- A new account leaves the user table alone. -/
theorem within_makeNewAccount (scratch : AccScratch) (createdAt : Bytes) (user : BankUser) :
    (makeNewAccount scratch createdAt user).Within fun op => op.target ≠ some .user := by
  refine Proc.Within.bind (Proc.within_read _) fun nextId => ?_
  refine (within_insertQueryExecutor (by simp [accountInsert])).bind fun _ => ?_
  refine Proc.Within.bind (Proc.within_read _) fun account => ?_
  exact (within_updtNextIdentity (by simp) _).bind fun _ => Proc.within_pure _

/-- Start-up writes no row. -/
theorem within_setupStores : setupStores.Within fun op =>
    op.target ≠ some .user ∨ op = .create .user := by
  have hinit : ∀ s, (initializeIdTrackerIfNeeded s).Within fun op =>
      op.target ≠ some .user ∨ op = .create .user := fun s =>
    (within_initializeIdTracker (by simp) s).imp fun op h => Or.inl h
  refine Proc.Within.bind (Proc.within_perform (Or.inl (by simp [FileOp.target]))) fun _ => ?_
  refine Proc.Within.bind (Proc.within_perform (Or.inr rfl)) fun _ => ?_
  refine Proc.Within.bind (Proc.within_perform (Or.inl (by simp [FileOp.target]))) fun _ => ?_
  refine Proc.Within.bind (Proc.within_perform (Or.inl (by simp [FileOp.target]))) fun _ => ?_
  exact (hinit _).bind fun _ => (hinit _).bind fun _ => hinit _

/-- What a registration that succeeds on `d` did: its email was new, and the one row it wrote
to the user table carries the id `get_next_identity` gave. -/
structure WroteUser (crypt : Bytes → Bytes) (env : CallEnv) (payload : CreateUserDTO) (d : Disk)
    (ops : List FileOp) (id : Bytes) : Prop where
  isNew : emailAlreadyRegistered payload.email d = some false
  nextId : (getNextIdentity .user).result d = some id
  rows : insertedRows .user ops = [userRow id payload (crypt payload.password) env.userCreatedAt]

/-- What a new user takes after its row was written. -/
def finishUser (env : CallEnv) (id : Bytes) : Proc Disk FileOp MakeNewUserResponse := do
  updtNextIdentity .user
  let user ← Proc.read (readNewUser env.userScratch id)
  let _ ← makeNewAccount env.accScratch env.accCreatedAt user
  pure ⟨user, true, lit "User created"⟩

theorem within_finishUser (env : CallEnv) (id : Bytes) :
    (finishUser env id).Within fun op => op.target ≠ some .user := by
  refine Proc.Within.bind (within_updtNextIdentity (by simp) _) fun _ => ?_
  refine Proc.Within.bind (Proc.within_read _) fun user => ?_
  exact (within_makeNewAccount _ _ _).bind fun _ => Proc.within_pure _

theorem success_of_finishUser {env : CallEnv} {id : Bytes} {d : Disk} {r : MakeNewUserResponse}
    (h : (finishUser env id).result d = some r) : r.success = true := by
  obtain ⟨_, -, h⟩ := Proc.result_bind_eq_some.mp h
  obtain ⟨user, -, h⟩ := Proc.result_bind_eq_some.mp h
  obtain ⟨_, -, h⟩ := Proc.result_bind_eq_some.mp h
  rw [Proc.result_pure, Option.some.injEq] at h
  rw [← h]

theorem createUser_eq (crypt : Bytes → Bytes) (env : CallEnv) (payload : CreateUserDTO) :
    createUser crypt env payload = getNextIdentity .user >>= fun id =>
      insertQueryExecutor (userInsert id payload (crypt payload.password) env.userCreatedAt) >>=
        fun _ => finishUser env id := rfl

/-- The operations of a new user: its row, and then none on the user table. -/
theorem ops_createUser {crypt : Bytes → Bytes} {env : CallEnv} {payload : CreateUserDTO} {d : Disk}
    {id : Bytes} (hid : (getNextIdentity .user).result d = some id) :
    ∃ rest, (createUser crypt env payload).ops d =
        .insert .user (userRow id payload (crypt payload.password) env.userCreatedAt) :: rest ∧
      ∀ op ∈ rest, op.target ≠ some .user := by
  obtain ⟨hrow, hdone⟩ := performs_userInsert id payload (crypt payload.password)
    env.userCreatedAt ((getNextIdentity .user).after d)
  refine ⟨(finishUser env id).ops ((insertQueryExecutor
    (userInsert id payload (crypt payload.password) env.userCreatedAt)).after
      ((getNextIdentity .user).after d)), ?_, within_finishUser env id _⟩
  rw [createUser_eq, Proc.ops_bind_of_some hid, Proc.ops_bind_of_some hdone, hrow]
  rfl

/-- So it writes one row to the user table. -/
theorem insertedRows_createUser {crypt : Bytes → Bytes} {env : CallEnv} {payload : CreateUserDTO}
    {d : Disk} {id : Bytes} (hid : (getNextIdentity .user).result d = some id) :
    insertedRows .user ((createUser crypt env payload).ops d) =
      [userRow id payload (crypt payload.password) env.userCreatedAt] := by
  obtain ⟨rest, hops, hrest⟩ := @ops_createUser crypt env payload d id hid
  rw [hops, ← List.singleton_append, insertedRows_append, insertedRows_of_not_target hrest]
  rfl

/-- A registration that finishes has an id for its user. -/
theorem createUser_finished {crypt : Bytes → Bytes} {env : CallEnv} {payload : CreateUserDTO}
    {d : Disk} {r : MakeNewUserResponse} (h : (createUser crypt env payload).result d = some r) :
    r.success = true ∧ ∃ id, (getNextIdentity .user).result d = some id := by
  rw [createUser_eq] at h
  obtain ⟨id, hid, h⟩ := Proc.result_bind_eq_some.mp h
  obtain ⟨_, -, hfinish⟩ := Proc.result_bind_eq_some.mp h
  exact ⟨success_of_finishUser hfinish, id, hid⟩

/-- **What a registration that finishes did**: nothing, or it wrote a user. -/
theorem makeNewUser_finished {crypt : Bytes → Bytes} {env : CallEnv} {payload : CreateUserDTO}
    {d : Disk} {r : MakeNewUserResponse} (h : (makeNewUser crypt env payload).result d = some r) :
    (∀ op ∈ (makeNewUser crypt env payload).ops d, op.OnlyRows .user) ∧
      (r.success = false ∧ (makeNewUser crypt env payload).ops d = [] ∨
        r.success = true ∧
          ∃ id, WroteUser crypt env payload d ((makeNewUser crypt env payload).ops d) id) := by
  rw [makeNewUser] at h ⊢
  obtain ⟨registered, hreg, h⟩ := Proc.result_bind_eq_some.mp h
  rw [Proc.ops_bind_of_some hreg, Proc.ops_read, List.nil_append, Proc.after_read]
  rw [Proc.after_read] at h
  cases registered with
  | true =>
      simp only [if_true, Proc.result_pure, Option.some.injEq] at h ⊢
      subst h
      exact ⟨fun op hop => absurd hop List.not_mem_nil, Or.inl ⟨rfl, rfl⟩⟩
  | false =>
      simp only [Bool.false_eq_true, if_false] at h ⊢
      obtain ⟨hsuccess, id, hid⟩ := createUser_finished h
      obtain ⟨rest, hops, hrest⟩ := @ops_createUser crypt env payload d id hid
      refine ⟨?_, Or.inr ⟨hsuccess, id, hreg, hid, insertedRows_createUser hid⟩⟩
      intro op hop
      change op ∈ (createUser crypt env payload).ops d at hop
      rw [hops] at hop
      rcases List.mem_cons.mp hop with rfl | hop
      · exact fun _ => Or.inr ⟨_, rfl⟩
      · exact FileOp.onlyRows_of_not_target (hrest op hop)

/-- **What a call that finishes did to the user table**: it wrote no row and is no
registration that succeeded, or it is one and wrote its row. -/
theorem Event.finished {crypt : Bytes → Bytes} {e : Event} {d : Disk}
    {r : Option MakeNewUserResponse} (h : (e.proc crypt).result d = some r) :
    (∀ op ∈ (e.proc crypt).ops d, op.OnlyRows .user) ∧
      (insertedRows .user ((e.proc crypt).ops d) = [] ∧
          (⟨e, (e.proc crypt).ops d, r⟩ : Outcome).accepted = false ∨
        (⟨e, (e.proc crypt).ops d, r⟩ : Outcome).accepted = true ∧
          ∃ env payload id, e = .register env payload ∧
            WroteUser crypt env payload d ((e.proc crypt).ops d) id) := by
  cases e with
  | setup =>
      have hsetup : ((Event.setup.proc crypt).Within fun op =>
          op.target ≠ some .user ∨ op = .create .user) :=
        within_setupStores.bind fun _ => Proc.within_pure _
      obtain ⟨_, -, hr⟩ := Proc.result_bind_eq_some.mp h
      rw [Proc.result_pure, Option.some.injEq] at hr
      refine ⟨fun op hop => ?_, Or.inl ⟨?_, by rw [← hr]; rfl⟩⟩
      · rcases hsetup d op hop with hne | rfl
        · exact FileOp.onlyRows_of_not_target hne
        · exact fun _ => Or.inl rfl
      · rw [insertedRows, List.filterMap_eq_nil_iff]
        intro op hop
        rcases hsetup d op hop with hne | rfl
        · have hnil : insertedRows .user [op] = [] :=
            insertedRows_of_not_target (by simpa using hne)
          exact List.filterMap_eq_nil_iff.mp hnil op List.mem_cons_self
        · rfl
  | register env payload =>
      obtain ⟨r', hr', hr⟩ := Proc.result_bind_eq_some.mp h
      rw [Proc.result_pure, Option.some.injEq] at hr
      subst hr
      have hops : ((Event.register env payload).proc crypt).ops d =
          (makeNewUser crypt env payload).ops d := by
        rw [Event.proc, Proc.ops_bind_of_some hr', Proc.ops_pure, List.append_nil]
      obtain ⟨honly, ⟨hfail, hnil⟩ | ⟨hsuccess, id, hwrote⟩⟩ := makeNewUser_finished hr'
      · rw [hops]
        exact ⟨honly, Or.inl ⟨by rw [hnil]; rfl, hfail⟩⟩
      · rw [hops]
        exact ⟨honly, Or.inr ⟨hsuccess, env, payload, id, rfl, hwrote⟩⟩

/-! ### The rows of a session -/

variable {crypt : Bytes → Bytes} {canRun : Disk → Event → Prop} {log : List Outcome} {d : Disk}

/-- **The user table of a session without stops** is the text of its rows. -/
theorem Session.userTable (h : Session crypt canRun neverStopped log d) :
    (d.table .user).getD [] = linesText ((insertedRows .user (performed log)).map rowText) := by
  have honly : ∀ op ∈ performed log, op.OnlyRows .user := by
    induction h with
    | start => exact fun op hop => absurd hop List.not_mem_nil
    | stop h he n hn => exact absurd hn id
    | finish h he hr ih =>
        intro op hop
        rw [performed_append] at hop
        rcases List.mem_append.mp hop with hop | hop
        · exact ih op hop
        · exact (Event.finished hr).1 op hop
  rw [h.disk_eq, table_execAll honly]
  rfl

/-- The user table of a session, as `select_executor` reads it. -/
theorem Session.table_eq (h : Session crypt canRun neverStopped log d) {text : Bytes}
    (htext : d.table .user = some text) :
    d.table .user = some (linesText ((insertedRows .user (performed log)).map rowText)) := by
  have hrows := h.userTable
  rw [htext, Option.getD_some] at hrows
  rw [htext, hrows]

/-- **What every call of a session did to the user table**, from a state the session has been
in. -/
theorem Session.finished (h : Session crypt canRun neverStopped log d) {o : Outcome}
    (ho : o ∈ log) :
    insertedRows .user o.ops = [] ∧ o.accepted = false ∨
      o.accepted = true ∧ ∃ env payload id d', o.event = .register env payload ∧
        canRun d' o.event ∧ WroteUser crypt env payload d' o.ops id := by
  induction h with
  | start => exact absurd ho List.not_mem_nil
  | stop h he n hn => exact absurd hn id
  | @finish log d e r h he hr ih =>
      rcases List.mem_append.mp ho with ho | ho
      · exact ih ho
      · obtain rfl := List.mem_singleton.mp ho
        rcases (Event.finished hr).2 with hfail | ⟨hsuccess, env, payload, id, rfl, hwrote⟩
        · exact Or.inl hfail
        · exact Or.inr ⟨hsuccess, env, payload, id, d, rfl, he, hwrote⟩

/-- What a registration that succeeded wrote. -/
theorem Session.wrote (h : Session crypt canRun neverStopped log d) {o : Outcome}
    (ho : o ∈ accepted log) : ∃ env payload id d', o.event = .register env payload ∧
      canRun d' o.event ∧ WroteUser crypt env payload d' o.ops id := by
  obtain ⟨hmem, hsuccess⟩ := List.mem_filter.mp ho
  rcases h.finished hmem with ⟨-, hfail⟩ | ⟨-, hwrote⟩
  · rw [hfail] at hsuccess
    exact Bool.noConfusion hsuccess
  · exact hwrote

theorem insertedRows_performed (s : Store) (log : List Outcome) :
    insertedRows s (performed log) = log.flatMap fun o => insertedRows s o.ops := by
  induction log with
  | nil => rfl
  | cons o log ih =>
      rw [performed, List.flatMap_cons, insertedRows_append, List.flatMap_cons, ← ih]
      rfl

/-- **Where a row of the user table comes from**: a registration that succeeded. -/
theorem Session.registered (h : Session crypt canRun neverStopped log d) {row : Row}
    (hrow : row ∈ insertedRows .user (performed log)) :
    ∃ o ∈ accepted log, insertedRows .user o.ops = [row] := by
  rw [insertedRows_performed] at hrow
  obtain ⟨o, ho, hrow⟩ := List.mem_flatMap.mp hrow
  rcases h.finished ho with ⟨hnil, -⟩ | ⟨hsuccess, env, payload, id, d', -, -, hwrote⟩
  · exact absurd hrow (hnil ▸ List.not_mem_nil)
  · refine ⟨o, List.mem_filter.mpr ⟨ho, hsuccess⟩, ?_⟩
    rw [hwrote.rows] at hrow ⊢
    rw [List.mem_singleton.mp hrow]

end CBank
