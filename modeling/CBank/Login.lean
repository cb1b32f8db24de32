import CBank.IdSafety
import CBank.UserRow

/-!
# Login

Whom `login` finds in the table registration wrote. Rows are written unescaped, so the run is
asked to make safe registrations only; what a single unsafe name does is `login_forged`.

## Main results

* `Session.safeRow`, `Session.storable`: the user table of a session of safe registrations.
* `login_proves_ownership`: a login that succeeds is one of the user registered with that cpf
  and that password, when every registration wrote a safe row.
* `login_forged`: a name that holds `password=` replaces the password.
-/

namespace CBank

open CLib

/-- A registration whose row is safe, with the id it is given. -/
def safeRegistration (crypt : Bytes → Bytes) (d : Disk) : Event → Prop
  | .setup => True
  | .register env payload => ∀ id, (getNextIdentity .user).result d = some id →
      SafeUser id payload (crypt payload.password) env.userCreatedAt

theorem isUserId_printNat {n : ℕ} (hn : (n : ℤ) < intMax) : IsUserId (printNat n) := by
  refine ⟨printNat_ne_nil n, ?_, fun c hc => isDigit_of_mem_printNat hc⟩
  have hlt : n < 10 ^ 10 := by
    have : (n : ℤ) < 2 ^ 31 - 1 := hn
    omega
  exact (length_printNat_le (by norm_num) hlt).trans (by norm_num)

variable {crypt : Bytes → Bytes} {log : List Outcome} {d : Disk}

/-- A registration that succeeded gave its user a decimal number as id. -/
theorem Session.isUserId {canRun : Disk → Event → Prop}
    (h : Session crypt canRun neverStopped log d) (hcount : ((accepted log).length : ℤ) < intMax)
    {o : Outcome} (ho : o ∈ accepted log) :
    ∃ id, IsUserId id ∧ insertedIds .user o.ops = [id] := by
  obtain ⟨k, hk⟩ := List.mem_iff_getElem?.mp ho
  obtain ⟨hlt, -⟩ := List.getElem?_eq_some_iff.mp hk
  obtain ⟨t, hall⟩ := h.allocation hcount
  exact ⟨printNat k, isUserId_printNat (by omega), (hall.ids k o hk).1⟩

theorem WroteUser.insertedIds_eq {env : CallEnv} {payload : CreateUserDTO} {ops : List FileOp}
    {id : Bytes} (h : WroteUser crypt env payload d ops id) : insertedIds .user ops = [id] := by
  rw [CBank.insertedIds_eq, h.rows, List.filterMap_cons_some (lookup_userRow _ _ _ _),
    List.filterMap_nil]

/-- **The invariant of a session of safe registrations**: every row of the user table is the
safe row of one of them. -/
theorem Session.safeRow (h : Session crypt (safeRegistration crypt) neverStopped log d)
    (hcount : ((accepted log).length : ℤ) < intMax) {row : Row}
    (hrow : row ∈ insertedRows .user (performed log)) :
    ∃ o ∈ accepted log, ∃ env payload id, o.event = .register env payload ∧
      insertedIds .user o.ops = [id] ∧ IsUserId id ∧
      SafeUser id payload (crypt payload.password) env.userCreatedAt ∧
      row = userRow id payload (crypt payload.password) env.userCreatedAt := by
  obtain ⟨o, ho, hone⟩ := h.registered hrow
  obtain ⟨env, payload, id, d', hevent, hsafe, hwrote⟩ := h.wrote ho
  rw [hevent] at hsafe
  obtain ⟨id', hid', hids⟩ := h.isUserId hcount ho
  have hsame : id = id' := by
    rw [hwrote.insertedIds_eq, List.singleton_inj] at hids
    exact hids
  rw [hwrote.rows, List.singleton_inj] at hone
  exact ⟨o, ho, env, payload, id, hevent, hwrote.insertedIds_eq, hsame ▸ hid',
    hsafe id hwrote.nextId, hone.symm⟩

/-- The user table of such a session as a relation. -/
theorem Session.storable (h : Session crypt (safeRegistration crypt) neverStopped log d)
    (hcount : ((accepted log).length : ℤ) < intMax) :
    (∀ row ∈ insertedRows .user (performed log), row.map Prod.fst = userColumns) ∧
      Storable (userRelation (insertedRows .user (performed log))) := by
  have hcols : ∀ row ∈ insertedRows .user (performed log),
      row.map Prod.fst = userColumns := by
    intro row hrow
    obtain ⟨_, _, _, _, _, _, _, _, _, rfl⟩ := h.safeRow hcount hrow
    exact userRow_columns _ _ _ _
  refine ⟨hcols, storable_userRelation hcols ?_ ?_⟩
  · intro row hrow
    obtain ⟨_, _, _, _, _, _, _, hid, hsafe, rfl⟩ := h.safeRow hcount hrow
    exact hsafe.valueOk hid
  · intro row hrow
    obtain ⟨_, _, _, _, _, _, _, _, hsafe, rfl⟩ := h.safeRow hcount hrow
    exact hsafe.length

theorem login_eq_some_iff {scratch : UserScratch} {cpf pwd : Bytes} {user : BankUser} :
    login crypt scratch cpf pwd d = some (some user) ↔
      getUserByField scratch (lit "cpf") cpf d = some (some user) ∧
        crypt pwd = user.password := by
  rw [login, Option.bind_eq_bind, Option.bind_eq_some_iff]
  constructor
  · rintro ⟨found, hfound, h⟩
    cases found with
    | none => simp at h
    | some user' =>
        by_cases hpwd : crypt pwd = user'.password
        · simp only [hpwd, if_true, Option.some.injEq] at h
          rw [hfound, h]
          exact ⟨rfl, h ▸ hpwd⟩
        · simp [hpwd] at h
  · rintro ⟨hfound, hpwd⟩
    exact ⟨some user, hfound, by simp [hpwd]⟩

/-- **Login proves ownership.** In a session of safe registrations, fewer than 2^31 - 1 of
which succeed, a login that succeeds returns the id that an earlier registration with the same
cpf, and a password with the same hash, was given. -/
theorem login_proves_ownership
    (h : Session crypt (safeRegistration crypt) neverStopped log d)
    (hcount : ((accepted log).length : ℤ) < intMax) {scratch : UserScratch} {cpf pwd : Bytes}
    {user : BankUser} (hlogin : login crypt scratch cpf pwd d = some (some user)) :
    ∃ o ∈ log, ∃ env payload, o.event = .register env payload ∧ payload.cpf = cpf ∧
      crypt payload.password = crypt pwd ∧ insertedIds .user o.ops = [user.id] := by
  obtain ⟨hfound, hpwd⟩ := login_eq_some_iff.mp hlogin
  obtain ⟨hcols, hR⟩ := h.storable hcount
  cases htable : d.table .user with
  | none =>
      rw [getUserByField, htable] at hfound
      simp [selectExecutor] at hfound
  | some text =>
      rw [getUserByField_eq hcols hR (by decide) cpf scratch (h.table_eq htable)] at hfound
      split at hfound
      · split at hfound
        · simp at hfound
        · rename_i row hhead
          obtain ⟨mounted, hmount, huser⟩ := Option.map_eq_some_iff.mp hfound
          obtain rfl := Option.some.inj huser
          obtain ⟨hrow, hcpf⟩ := List.mem_filter.mp (List.mem_of_mem_head? hhead)
          obtain ⟨o, ho, env, payload, id, hevent, hids, hid, hsafe, rfl⟩ :=
            h.safeRow hcount hrow
          obtain ⟨hmountId, hmountPwd⟩ := mountUserFromLineBuf_userRow hid hsafe hmount
          refine ⟨o, List.mem_of_mem_filter ho, env, payload, hevent, ?_, ?_, ?_⟩
          · rw [← rowValue_cpf id payload (crypt payload.password) env.userCreatedAt]
            exact of_decide_eq_true hcpf
          · rw [hpwd, hmountPwd]
          · rw [hids, hmountId]
      · simp at hfound

/-- The registration of the runs above is safe. -/
theorem safeRegistration_sample : safeRegistration id startedDisk sampleRegister := by
  intro next hnext
  obtain rfl := eq_zero_of_getNextIdentity hnext
  exact ⟨by decide +kernel, by decide +kernel, by decide +kernel, by decide +kernel⟩

/-- Ann logs in. -/
theorem login_proves_ownership_ann :
    ∃ o ∈ [Event.setup.outcome id Disk.empty, sampleRegister.outcome id startedDisk],
      ∃ env payload, o.event = .register env payload ∧ payload.cpf = lit "1" ∧
        id payload.password = id (lit "secret") ∧ insertedIds .user o.ops = [lit "0"] := by
  have hrun : Session id (safeRegistration id) neverStopped _ _ :=
    session_sample trivial safeRegistration_sample
  have hlogin : login id ⟨[], [], [], [], [], []⟩ (lit "1") (lit "secret")
      ((sampleRegister.proc id).after startedDisk) = some (some ⟨lit "0", lit "ann", lit "1", [],
        lit "secret", false, lit "2024-01-01 00:00:00", lit "NULL"⟩) := by decide +kernel
  exact login_proves_ownership hrun (by rw [accepted_sample]; decide) hlogin

/-- A registration whose name holds the key of the password. -/
def forgedRegister : Event :=
  .register sampleEnv ⟨lit "password=evil", lit "eve@x", lit "1", lit "secret"⟩

/-- **A name that replaces the password**: after a registration with the password `secret`,
a login with `evil` succeeds. -/
theorem login_forged : ∃ log d user, Session id fittingCall neverStopped log d ∧
    login id ⟨[], [], [], [], [], []⟩ (lit "1") (lit "evil") d = some (some user) ∧
    ¬ ∃ o ∈ log, ∃ env payload, o.event = .register env payload ∧ payload.cpf = lit "1" ∧
      id payload.password = id (lit "evil") ∧ insertedIds .user o.ops = [user.id] := by
  have hstart : Session id fittingCall neverStopped [Event.setup.outcome id Disk.empty]
      startedDisk := session_started trivial
  have hfits : fittingCall startedDisk forgedRegister :=
    ⟨by decide, by decide, by decide, by decide⟩
  have hrun := hstart.finish_outcome hfits (by decide +kernel)
  refine ⟨_, _, ⟨lit "0", lit "password=evil", lit "1", [], lit "evil", false,
    lit "2024-01-01 00:00:00", lit "NULL"⟩, hrun, by decide +kernel, ?_⟩
  rintro ⟨o, ho, env, payload, hevent, -, hpwd, -⟩
  rw [List.singleton_append, List.mem_cons, List.mem_singleton] at ho
  rcases ho with rfl | rfl
  · exact Event.noConfusion hevent
  · obtain ⟨-, rfl⟩ := Event.register.inj hevent
    exact absurd hpwd (by decide)

end CBank
