import CBank.AccountCreation
import CBank.CustomerSessions
import CBank.Releases

/-!
# Registrations Are Answered

What a request to register needs to be answered at all. The lookups of `make_new_user` find at
most one row, so none of them runs out of room however many customers there are: once a start-up
finished, every registration whose customer fits the table format is answered, and as the bank
answers it.

## Main results

* `Disk.Serves.makeNewUser_result`: `make_new_user` on the tables of a bank.
* `registrations_answered`: any list of registrations after a run.
-/

namespace CBank

open CLib

/-! ### Lookups of one row -/

/-- At most one row has a value in a column without repetitions. -/
theorem length_rowsWith_le_one {rows : List Row} {field : Bytes}
    (h : (rows.map fun row => rowValue row field).Nodup) (value : Bytes) :
    (rowsWith rows field value).length ≤ 1 := by
  have hcount := List.nodup_iff_count_le_one.mp h value
  rw [List.count, List.countP_map, List.countP_eq_length_filter] at hcount
  refine (le_of_eq (congrArg List.length (List.filter_congr fun row _ => ?_))).trans hcount
  exact (beq_eq_decide _ _).symm

namespace Bank

variable {b : Bank} {d : Disk} {c : Customer} {n : ℕ}

/-- No two rows have the same number. -/
theorem nodup_ids (b : Bank) : (b.userRows.map fun row => rowValue row (lit "id")).Nodup := by
  have hids : (b.userRows.map fun row => rowValue row (lit "id")) =
      (b.customers.zipIdx.map Prod.snd).map printNat := by
    rw [userRows, List.mapIdx_eq_zipIdx_map, List.map_map, List.map_map]
    exact List.map_congr_left fun p _ => (p.1.rowValue_row p.2).1
  rw [hids, List.zipIdx_map_snd]
  exact (List.nodup_range' _).map printNat_injective

/-- No two rows have the same email. -/
theorem nodup_rowEmails (b : Bank) :
    (b.userRows.map fun row => rowValue row (lit "email")).Nodup := by
  have hemails : (b.userRows.map fun row => rowValue row (lit "email")) =
      (b.customers.zipIdx.map Prod.fst).map Customer.email := by
    rw [userRows, List.mapIdx_eq_zipIdx_map, List.map_map, List.map_map]
    exact List.map_congr_left fun p _ => (p.1.rowValue_row p.2).2.2
  rw [hemails, List.zipIdx_map_fst]
  exact b.emails

/-- **Whether an email is registered is always found out.** -/
theorem emailAlreadyRegistered_eq_some (hb : b.Safe) (hcount : (b.customers.length : ℤ) ≤ intMax)
    (hd : d.table .user = some b.usersText) (email : Bytes) :
    emailAlreadyRegistered email d = some (decide (b.Knows email)) := by
  obtain ⟨hcols, hR⟩ := hb.storable hcount
  have hsel : (emailQuery email).columns.Nodup := by
    change (qselect (newSelectQuery .user) (lit "email")).columns.Nodup
    decide +kernel
  have hrows := matchedRows_oneCondition hcols hR
    (rfl : (emailQuery email).conditions = [⟨lit "email", lit "=", email⟩]) (by decide) hsel
  have hwidth : ((userRelation b.userRows).project (emailQuery email).columns).columns.length ≤
      rsMaxCols := (List.length_filter_le _ _).trans (by decide : userColumns.length ≤ rsMaxCols)
  have hselect : selectExecutor (emailQuery email) (d.table .user) =
      some (ResultSet.ofRows (matchedRows (emailQuery email) b.usersText)) := by
    rw [hd]
    refine selectExecutor_eq_ofRows rfl ?_ ?_
    · rw [hrows, List.length_map]
      exact (length_rowsWith_le_one b.nodup_rowEmails email).trans (by decide)
    · rw [hrows]
      intro row hrow
      obtain ⟨_, -, rfl⟩ := List.mem_map.mp hrow
      rw [tableRow, List.length_map]
      exact hwidth
  have hfound : emailAlreadyRegistered email d =
      some (decide (0 < (ResultSet.ofRows (matchedRows (emailQuery email) b.usersText)).rows)) := by
    rw [emailAlreadyRegistered, hselect]
    rfl
  rw [hfound, emailAlreadyRegistered_eq hb hcount (by rw [hd, Option.getD_some]) hfound]

/-- **The user read back after a registration** is the customer with the number. -/
theorem readNewUser_eq_some (hb : b.Safe) (hcount : (b.customers.length : ℤ) ≤ intMax)
    (hd : d.table .user = some b.usersText) (hn : b.customers[n]? = some c) (hc : c.Readable n)
    (scratch : UserScratch) : readNewUser scratch (printNat n) d = some (c.user n) := by
  obtain ⟨hcols, hR⟩ := hb.storable hcount
  have hsel : (userByIdQuery (printNat n)).columns.Nodup ∧
      userColumns ⊆ (userByIdQuery (printNat n)).columns := by
    change (qselect (newSelectQuery .user)
      (lit "id,name,cpf,password,email,is_active,created_at,updated_at")).columns.Nodup ∧
        ∀ col ∈ userColumns, col ∈ (qselect (newSelectQuery .user)
          (lit "id,name,cpf,password,email,is_active,created_at,updated_at")).columns
    decide +kernel
  have hrows := matchedRows_allColumns hcols hR
    (rfl : (userByIdQuery (printNat n)).conditions = [⟨lit "id", lit "=", printNat n⟩]) (by decide)
    hsel.1 hsel.2
  have hwidth : ∀ row ∈ rowsWith b.userRows (lit "id") (printNat n), row.length = 8 :=
    length_of_mem_rowsWith hcols
  have hselect : selectExecutor (userByIdQuery (printNat n)) (d.table .user) =
      some (ResultSet.ofRows (rowsWith b.userRows (lit "id") (printNat n))) := by
    rw [hd]
    refine selectExecutor_eq_ofRows hrows ?_ fun row hrow => ?_
    · exact (length_rowsWith_le_one b.nodup_ids _).trans (by decide)
    · rw [hwidth row hrow]
      decide
  have hshort : (rowText (c.row n)).length < 1024 := hc.length.trans_lt (by decide)
  obtain ⟨hlt, -⟩ := List.getElem?_eq_some_iff.mp hn
  have hid : IsUserId (printNat n) := isUserId_printNat (by omega)
  rw [readNewUser, hselect, Option.bind_eq_bind, Option.bind_some,
    fullLine_of_width (rowsWith_id hn) hwidth hshort, Option.bind_eq_bind, Option.bind_some]
  exact mountUserFromLineBuf_readable hid hc scratch

/-- The account of the next customer is opened: none has its number yet. -/
theorem makeNewAccount_performs {t : Tracker} (hholds : d.Holds t) (ht : t.Small)
    (hcounter : t.counter .account = some b.customers.length)
    (hlt : (b.customers.length : ℤ) < intMax) (hd : d.table .account = some b.accountsText)
    (hdates : ∀ c ∈ b.customers, c.DateFits) (hdate : c.DateFits)
    (scratch : AccScratch) :
    (makeNewAccount scratch c.accountCreatedAt (c.user b.customers.length)).Performs d
      (recordOps t .account (c.accountRow b.customers.length)) (some Account.zero) := by
  have hdated : DatedCustomers b.customers := ⟨hlt.le, hdates⟩
  have hunused : ∀ a ∈ b.records hdated, a.id ≠ printNat b.customers.length := by
    intro a ha
    obtain ⟨p, hp, rfl⟩ := List.mem_pmap.mp ha
    obtain ⟨hp', -⟩ := List.getElem?_eq_some_iff.mp (List.mk_mem_zipIdx_iff_getElem?.mp hp)
    exact fun heq => hp'.ne (printNat_injective heq)
  have hrow : (c.record b.customers.length hlt hdate).row =
      accountRow (printNat b.customers.length) (c.user b.customers.length).id
        c.accountCreatedAt := rfl
  exact CBank.makeNewAccount_performs hholds ht hcounter hlt
    (hd.trans (congrArg some (Bank.recordTable_records hdated).symm)) hunused hrow

end Bank

/-! ### Customers that fit -/

/-- A customer whose row fits the table under any number: there is room for the ten digits of the
longest. -/
structure Customer.Registrable (c : Customer) : Prop where
  readable : c.Readable 0
  room : (rowText (c.row 0)).length ≤ 1013
  date : c.DateFits

/-- The length of a row, but for the number. -/
theorem Customer.length_rowText_row (c : Customer) (n : ℕ) :
    (rowText (c.row n)).length + 1 = (rowText (c.row 0)).length + (printNat n).length := by
  have hzero : (printNat 0).length = 1 := rfl
  simp only [Customer.row, userRow, rowText, List.length_append, List.length_cons, hzero]
  omega

/-- Such a customer is read back under any number. -/
theorem Customer.Registrable.readableAt {c : Customer} (h : c.Registrable) {n : ℕ}
    (hn : (n : ℤ) < intMax) : c.Readable n := by
  obtain ⟨⟨⟨hvalue, -, hhash, hpassword⟩, hname, hcpf, hdated, hkeys⟩, hroom, -⟩ := h
  refine ⟨⟨hvalue, ?_, hhash, hpassword⟩, hname, hcpf, hdated, ?_⟩
  · have hdigits : (printNat n).length ≤ 10 := by
      refine length_printNat_le (by decide) ?_
      have hmax : (n : ℤ) < 2 ^ 31 - 1 := hn
      omega
    have hlength := c.length_rowText_row n
    rw [Customer.row] at hlength
    omega
  · -- no key of a column can be in a number, and the other values are those of the number zero
    refine List.pairwise_cons.mpr ⟨fun p _ hinfix => ?_, (List.pairwise_cons.mp hkeys).2⟩
    have heq : ch '=' ∈ printNat n := hinfix.subset (by simp)
    exact not_mem_of_isDigit (fun _ => isDigit_of_mem_printNat) (by decide) heq

/-- The registration of such a customer is safe. -/
theorem Customer.Readable.safeUser {crypt : Bytes → Bytes} {env : CallEnv}
    {payload : CreateUserDTO} {n : ℕ} (h : (customerOf crypt env payload).Readable n) :
    SafeUser (printNat n) payload (crypt payload.password) env.userCreatedAt :=
  ⟨h.value, h.length, h.hash, h.noPassword⟩

/-! ### A registration on the tables of a bank -/

/-- What the operations of a record do to a table: the row is appended to its own. -/
theorem table_recordOps {s' : Store} (hs' : s' ≠ .idTracker) (d : Disk) (t : Tracker) (s : Store)
    (row : Row) : (Proc.execAll d (recordOps t s row)).table s' =
      if s = s' then some ((d.table s').getD [] ++ (rowText row ++ [newline]))
      else d.table s' := by
  have hreplace : ∀ d' : Disk, (Proc.execAll d' (replaceOps (t.advance s) ++
      [.create .idTracker])).table s' = d'.table s' := by
    intro d'
    simp [replaceOps, FileOp.exec, Disk.put_table_of_ne _ hs']
  rw [recordOps, Proc.execAll_cons, hreplace, exec_eq, FileOp.exec]
  split
  · rename_i heq
    rw [heq, Disk.put_table_self]
  · rename_i hne
    exact Disk.put_table_of_ne _ (Ne.symm hne) _

/-- The disk of a server that started up and keeps a bank: both counters are at the number of its
customers. -/
structure Disk.Serves (d : Disk) (b : Bank) (t : Tracker) : Prop where
  holds : d.Holds t
  small : t.Small
  bounded : ∀ s n, t.counter s = some n → (n : ℤ) < intMax
  user : t.counter .user = some b.customers.length
  account : t.counter .account = some b.customers.length
  users : d.table .user = some b.usersText
  accounts : d.table .account = some b.accountsText

namespace Disk.Serves

variable {d : Disk} {b : Bank} {t : Tracker} {crypt : Bytes → Bytes} {env : CallEnv}
  {payload : CreateUserDTO}

/-- The next customer has a number that fits. -/
theorem length_lt (h : d.Serves b t) : (b.customers.length : ℤ) < intMax := h.bounded _ _ h.user

/-- The id a registration gets. -/
theorem getNextIdentity_eq (h : d.Serves b t) :
    (getNextIdentity .user).result d = some (printNat b.customers.length) :=
  getNextIdentity_of_some h.holds h.small h.user

/-- The disk behind the record of a new user: its row is in the user table, and the accounts are as
they were. -/
theorem after_user (h : d.Serves b t) {c : Customer} (hnew : ¬ b.Knows c.email) :
    (Proc.execAll d (recordOps t .user (c.row b.customers.length))).Holds (t.advance .user) ∧
      (Proc.execAll d (recordOps t .user (c.row b.customers.length))).table .user =
        some (b.add c hnew).usersText ∧
      (Proc.execAll d (recordOps t .user (c.row b.customers.length))).table .account =
        some b.accountsText := by
  have hline : ∀ row : Row, linesText [rowText row] = rowText row ++ [newline] :=
    fun _ => List.append_nil _
  refine ⟨?_, ?_, ?_⟩
  · rw [recordOps, Proc.execAll_cons, Proc.execAll_append]
    exact (holds_replaceOps _ _).create _
  · rw [table_recordOps (by decide), if_pos rfl, h.users, Option.getD_some, Bank.usersText,
      Bank.usersText, Bank.userRows_add, List.map_append, linesText_append, List.map_singleton,
      hline]
  · rw [table_recordOps (by decide), if_neg (by decide), h.accounts]

/-- **A new customer is created**: the user with the next number is read back, and the account is
opened. -/
theorem createUser_result (h : d.Serves b t) (hb : b.Safe) (hdates : ∀ c ∈ b.customers, c.DateFits)
    {c : Customer} (hc : c = customerOf crypt env payload) (hnew : ¬ b.Knows c.email)
    (hfits : c.Registrable) : (createUser crypt env payload).result d =
      some ⟨c.user b.customers.length, true, lit "User created"⟩ := by
  have hlt := h.length_lt
  have hreadable : c.Readable b.customers.length := hfits.readableAt hlt
  have hrow : c.row b.customers.length = userRow (printNat b.customers.length) payload
      (crypt payload.password) env.userCreatedAt := hc ▸ rfl
  have hdate : c.accountCreatedAt = env.accCreatedAt := hc ▸ rfl
  obtain ⟨hholds, husers, haccounts⟩ := h.after_user hnew
  have hread := Bank.readNewUser_eq_some (hb.add hnew hreadable.toSafeUser)
    (by rw [Bank.add, List.length_append, List.length_singleton]; push_cast; omega) husers
    List.getElem?_concat_length hreadable env.userScratch
  have hcounter : (t.advance .user).counter .account = some b.customers.length := by
    rw [Tracker.counter_advance, if_neg (by decide), h.account]
  have haccount := Bank.makeNewAccount_performs hholds (h.small.advance (h.bounded _)) hcounter hlt
    haccounts hdates hfits.date env.accScratch
  rw [hdate] at haccount
  exact (createUser_performs h.holds h.small h.bounded h.user hrow
    (Proc.Performs.read_bind hread (haccount.bind (Proc.performs_pure _ _)))).2

/-- **A registration is answered**: whether the email is new is found out, and if it is, the user
is created. -/
theorem makeNewUser_result (h : d.Serves b t) (hb : b.Safe)
    (hdates : ∀ c ∈ b.customers, c.DateFits) {c : Customer} (hc : c = customerOf crypt env payload)
    (hfits : c.Registrable) : (makeNewUser crypt env payload).result d =
      some (if b.Knows c.email then
        ⟨BankUser.zero, false, lit "Could not create user. Email already exists"⟩
      else ⟨c.user b.customers.length, true, lit "User created"⟩) := by
  have hemail : payload.email = c.email := hc ▸ rfl
  have hfound : (Proc.read (emailAlreadyRegistered c.email) : Proc Disk FileOp _).result d =
      some (decide (b.Knows c.email)) :=
    Bank.emailAlreadyRegistered_eq_some hb h.length_lt.le h.users c.email
  rw [makeNewUser, hemail, Proc.result_read_bind hfound]
  by_cases hknows : b.Knows c.email
  · rw [if_pos (decide_eq_true hknows), if_pos hknows, Proc.result_pure]
  · rw [if_neg (by simp [hknows]), if_neg hknows]
    exact h.createUser_result hb hdates hc hknows hfits

end Disk.Serves

/-! ### A registration after a run -/

variable {crypt : Bytes → Bytes} {log : List Served} {d : Disk}

/-- **What a run that started up leaves**: the tables and the counters of its bank. -/
theorem ServerRun.serves (h : ServerRun crypt (safeRequest crypt) neverStopped log d)
    (hcount : (registered log : ℤ) < intMax) (hstarted : Started log) :
    ∃ b t, b.customers = enrolled crypt log ∧ b.Safe ∧ d.Serves b t := by
  obtain ⟨slog, hsession, hall, -⟩ := h.session safeRequest_call
  have hle := hsession.length_accepted_le
  rw [registrations_eq hall] at hle
  obtain ⟨b, hb⟩ := hsession.bank (by omega)
  obtain ⟨t', hallocated⟩ := hsession.allocation (by omega)
  have hanswers := hb.answers
  rw [← requests_eq hall] at hanswers
  have hcustomers : b.customers = enrolled crypt log := customers_eq_enrolled hanswers
  have hkeeps : d.Keeps b := by
    constructor
    · rw [hsession.table_of (by decide), hb.users]
    · rw [hsession.table_of (by decide), hb.accounts]
  obtain ⟨husers, haccounts⟩ := h.tables hcount hstarted hkeeps
  have hsettled : ServerRun crypt (safeRequest crypt) settled log d :=
    Runs.imp h (fun _ _ he => he) fun _ hstop => hstop.elim
  obtain ⟨t, ht⟩ := hsettled.startedUp hcount hstarted
  have hholds' : d.Holds t' := hsession.disk_eq ▸ hallocated.ledger.holds
  have hsame : ∀ s, t.counter s = t'.counter s := by
    intro s
    have hread := counterOf_eq ht.holds ht.small s
    rw [counterOf_eq hholds' hallocated.ledger.small s] at hread
    exact (Option.map_injective Nat.cast_injective hread).symm
  have hcounter : ∀ s ≠ .idTracker, t'.counterD s = (accepted slog).length →
      t.counter s = some b.customers.length := by
    intro s hs hcounterD
    rw [Tracker.counterD, ← hsame s, ← hb.count] at hcounterD
    cases hn : t.counter s with
    | none => exact absurd (ht.counters s hs) (Tracker.counter_eq_none_iff.mp hn)
    | some n =>
        rw [hn, Option.getD_some] at hcounterD
        exact congrArg some (Int.ofNat_inj.mp hcounterD)
  refine ⟨b, t, hcustomers, hb.safe, ht.holds, ht.small, ?_, hcounter _ (by decide)
    hallocated.user, hcounter _ (by decide) hallocated.account, husers, haccounts⟩
  intro s n hn
  rw [hsame s] at hn
  exact counter_lt_of_counterD_le hallocated.bound (by omega) s n hn

/-- The answer to a registration, by what the bank says. -/
def registrationAnswer (accepted : Bool) : HttpResponse :=
  sentResponse (if accepted then (true, makeResFirstLine .zero .noContent)
    else (false, addBody (makeResFirstLine .zero .badRequest)
      (lit "Could not create user. Email already exists")))

/-- What is answered to the registrations of a log, by their customers. -/
def registrationAnswers (crypt : Bytes → Bytes) (log : List Served) :
    List (Customer × Option (List HttpResponse)) :=
  log.filterMap fun served => (served.event.customer crypt).map fun c => (c, served.result)

/-- Behind an event that is answered there is a clean-up that releases nothing twice, whatever the
disk holds. -/
def ServerEvent.CleansUp (event : ServerEvent) : Prop :=
  ∀ e received, event = .serve e received → ∀ d, ((passResponses e received).result d).isSome →
    ∃ c, (passCleanup e (some received)).result d = some c ∧ c.released.Nodup

/-- An event the server is sure to be done with: a registration whose customer fits, a start-up, or
a request that is answered and cleaned up behind whatever the disk holds. -/
def ServerEvent.Answerable (crypt : Bytes → Bytes) (event : ServerEvent) : Prop :=
  match event.customer crypt with
  | some c => c.Registrable
  | none => event = .startUp ∨ (∀ d, (event.proc.result d).isSome) ∧ event.CleansUp

variable {b : Bank} {event : ServerEvent} {c : Customer}

/-- A pass is cleaned up behind as the outcomes of its clean-up are. -/
theorem ServerEvent.cleansUp_of_released {e : PassEnv} {received : Received}
    (h : ∀ d c, (passCleanup e (some received)).result d = some c → c.released.Nodup) :
    (ServerEvent.serve e received).CleansUp := by
  rintro e received ⟨rfl, rfl⟩ d hanswered
  have hdefined := isSome_passCleanup_iff.mpr (isSome_passResponses_iff.mp hanswered)
  obtain ⟨cleanup, hcleanup⟩ := Option.isSome_iff_exists.mp hdefined
  exact ⟨cleanup, hcleanup, h d cleanup hcleanup⟩

/-- A pass that registers calls `end_client_conn` once. -/
theorem ServerEvent.cleansUp_of_customer (h : event.customer crypt = some c) :
    event.CleansUp := by
  cases event with
  | startUp => exact fun e received hserve => ServerEvent.noConfusion hserve
  | serve e received =>
      refine ServerEvent.cleansUp_of_released fun d cleanup hcleanup => ?_
      obtain ⟨payload, hregistration, -⟩ := Option.map_eq_some_iff.mp h
      obtain ⟨⟨handler, req⟩, hcalled, -⟩ := Option.bind_eq_some_iff.mp hregistration
      obtain rfl := passCleanup_of_called hcalled hcleanup
      have hreleased : (Cleanup.calls 1 req).released = endClientConn req := by
        simp [Cleanup.calls]
      exact hreleased ▸ nodup_endClientConn req

theorem ServerEvent.Answerable.cleansUp (h : event.Answerable crypt) : event.CleansUp := by
  cases hc : event.customer crypt with
  | some c => exact ServerEvent.cleansUp_of_customer hc
  | none =>
      rw [ServerEvent.Answerable, hc] at h
      rcases h with rfl | ⟨-, hcleans⟩
      · intro e received hserve
        exact ServerEvent.noConfusion hserve
      · exact hcleans

theorem Bank.eq_of_customers {b b' : Bank} (h : b.customers = b'.customers) : b = b' := by
  cases b
  cases b'
  subst h
  rfl

theorem Bank.register_customers (b : Bank) (c : Customer) : (b.register c).1.customers =
    b.customers ++ if (b.register c).2 then [c] else [] := by
  by_cases hknows : b.Knows c.email
  · simp [Bank.register_of_knows hknows]
  · simp [Bank.register_of_new hknows, Bank.add]

/-- The dates of the customers fit after a registration whose date does. -/
theorem Bank.dates_register (hdates : ∀ c ∈ b.customers, c.DateFits) (hc : c.DateFits) :
    ∀ c' ∈ (b.register c).1.customers, c'.DateFits := by
  rw [Bank.register_customers]
  intro c' hc'
  rcases List.mem_append.mp hc' with hold | hnew
  · exact hdates c' hold
  · split at hnew
    · exact List.mem_singleton.mp hnew ▸ hc
    · exact absurd hnew List.not_mem_nil

/-- **A registration after a run** is safe, and answered as the bank of the run answers it. -/
theorem ServerRun.answers (h : ServerRun crypt (safeRequest crypt) neverStopped log d)
    (hcount : (registered log : ℤ) < intMax) (hstarted : Started log)
    (hb : b.customers = enrolled crypt log) (hdates : ∀ c ∈ enrolled crypt log, c.DateFits)
    (hcrypt : event.HashesWith crypt) (hc : event.customer crypt = some c)
    (hfits : c.Registrable) : safeRequest crypt d event ∧
      event.proc.result d = some [registrationAnswer (b.register c).2] := by
  obtain ⟨b', t, hb', hsafe, hserves⟩ := h.serves hcount hstarted
  obtain rfl : b = b' := Bank.eq_of_customers (hb.trans hb'.symm)
  cases event with
  | startUp => simp [ServerEvent.customer] at hc
  | serve e received =>
      obtain ⟨payload, hregistration, rfl⟩ := Option.map_eq_some_iff.mp hc
      have hcrypt : e.handlerEnv.crypt = crypt := hcrypt
      constructor
      · intro call hcall
        rw [ServerEvent.call, hregistration, Option.map_some, Option.some.injEq] at hcall
        subst hcall
        intro id hid
        obtain rfl := Option.some.inj (hserves.getNextIdentity_eq.symm.trans hid)
        exact (hfits.readableAt hserves.length_lt).safeUser
      · rw [ServerEvent.proc, (passResponses_registers hregistration).2, hcrypt,
          hserves.makeNewUser_result hsafe (hb ▸ hdates) rfl hfits, Option.map_some,
          registerAnswer, registrationAnswer]
        by_cases hknows : b.Knows (customerOf crypt e.handlerEnv.callEnv payload).email
        · rw [if_pos hknows, Bank.register_of_knows hknows]
        · rw [if_neg hknows, Bank.register_of_new hknows]
          rfl

/-- What an answer does to the customers of a run. -/
theorem enrolled_served (hc : event.customer crypt = some c) {accepted : Bool}
    (hresult : event.proc.result d = some [registrationAnswer accepted]) :
    enrolled crypt [event.served d] = if accepted then [c] else [] := by
  have hredirected : redirected (event.served d) = accepted := by
    have hserved : (event.served d).result = some [registrationAnswer accepted] := hresult
    rw [redirected, hserved]
    cases accepted <;> decide +kernel
  have hrequests : requests crypt [event.served d] = [(c, accepted)] := by
    rw [requests, List.filterMap_cons_some (b := (c, accepted)), List.filterMap_nil]
    have hevent : (event.served d).event.customer crypt = some c := hc
    rw [hevent, Option.map_some, hredirected]
  rw [enrolled, hrequests]
  cases accepted <;> rfl

/-- One more event, in the logs of a run. -/
theorem servedAll_cons (d : Disk) (events : List ServerEvent) (log : List Served) :
    log ++ servedAll d (event :: events) =
      (log ++ [event.served d]) ++ servedAll (event.proc.after d) events := by
  rw [servedAll, List.append_assoc, List.singleton_append]

theorem registered_served_le (event : ServerEvent) (d : Disk) :
    registered [event.served d] ≤ 1 := List.countP_le_length

/-- A start-up after a run is done. -/
theorem ServerRun.isSome_startUp {canServe : Disk → ServerEvent → Prop}
    (h : ServerRun crypt canServe settled log d) (hcount : (registered log : ℤ) < intMax) :
    (ServerEvent.startUp.proc.result d).isSome := by
  obtain ⟨t, hled, -⟩ := h.ledger hcount
  have hholds : d.Holds t := h.state_eq ▸ hled.holds
  have hdone := (setupStores_spec hholds hled.small).bind (f := fun _ => pure [])
    (Proc.performs_pure ([] : List HttpResponse) _)
  rw [ServerEvent.proc, hdone.2, Option.isSome_some]

/-- An event that registers nobody is safe, and leaves the customers as they are. -/
theorem safeRequest_of_no_customer (h : event.customer crypt = none) (d : Disk) :
    safeRequest crypt d event ∧ enrolled crypt [event.served d] = [] := by
  constructor
  · intro call hcall
    rw [ServerEvent.customer_eq, hcall, Option.bind_some] at h
    cases call with
    | setup => trivial
    | register env payload => simp [Event.customer] at h
  · have hevent : (event.served d).event.customer crypt = none := h
    rw [enrolled, requests, List.filterMap_cons_none (by rw [hevent, Option.map_none]),
      List.filterMap_nil]
    rfl

/-- A run goes on with an event that registers nobody, and has the same customers. -/
theorem ServerRun.goOn_silent (h : ServerRun crypt (safeRequest crypt) neverStopped log d)
    (hcount : (registered log : ℤ) < intMax) (hcrypt : event.HashesWith crypt)
    (hc : event.customer crypt = none) (hanswerable : event.Answerable crypt) :
    ServerRun crypt (safeRequest crypt) neverStopped (log ++ [event.served d])
        (event.proc.after d) ∧
      enrolled crypt (log ++ [event.served d]) = enrolled crypt log := by
  rw [ServerEvent.Answerable, hc] at hanswerable
  have hsettled : ServerRun crypt (safeRequest crypt) settled log d :=
    Runs.imp h (fun _ _ he => he) fun _ hstop => hstop.elim
  have hdone : (event.proc.result d).isSome := by
    rcases hanswerable with rfl | ⟨hall, -⟩
    · exact hsettled.isSome_startUp hcount
    · exact hall d
  obtain ⟨hsafe, hnobody⟩ := safeRequest_of_no_customer hc d
  refine ⟨h.finish_of_isSome ⟨hsafe, hcrypt⟩ hdone, ?_⟩
  rw [enrolled_append, hnobody, List.append_nil]

/-- A run goes on with a registration, and has the customers of its bank. -/
theorem ServerRun.goOn_registers (h : ServerRun crypt (safeRequest crypt) neverStopped log d)
    (hcount : (registered log : ℤ) < intMax) (hstarted : Started log)
    (hb : b.customers = enrolled crypt log) (hdates : ∀ c ∈ enrolled crypt log, c.DateFits)
    (hcrypt : event.HashesWith crypt) (hc : event.customer crypt = some c)
    (hfits : c.Registrable) :
    ServerRun crypt (safeRequest crypt) neverStopped (log ++ [event.served d])
        (event.proc.after d) ∧
      (b.register c).1.customers = enrolled crypt (log ++ [event.served d]) ∧
      event.proc.result d = some [registrationAnswer (b.register c).2] := by
  obtain ⟨hsafe, hresult⟩ := h.answers hcount hstarted hb hdates hcrypt hc hfits
  refine ⟨h.finish_of_isSome ⟨hsafe, hcrypt⟩ (by rw [hresult, Option.isSome_some]), ?_, hresult⟩
  rw [enrolled_append, ← hb, enrolled_served hc hresult, Bank.register_customers]

/-- A run goes on with any list of events that are sure to be done. Induction along the list. -/
theorem ServerRun.goOn_all (h : ServerRun crypt (safeRequest crypt) neverStopped log d)
    (hstarted : Started log) (hb : b.customers = enrolled crypt log)
    (hdates : ∀ c ∈ enrolled crypt log, c.DateFits) {events : List ServerEvent}
    (hcount : (registered log + events.length : ℤ) < intMax)
    (hevents : ∀ event ∈ events, event.HashesWith crypt ∧ event.Answerable crypt) :
    ServerRun crypt (safeRequest crypt) neverStopped (log ++ servedAll d events)
        (diskAfter d events) ∧
      (diskAfter d events).Keeps (b.serve (events.filterMap (ServerEvent.customer crypt))).1 ∧
      registrationAnswers crypt (servedAll d events) =
        (events.filterMap (ServerEvent.customer crypt)).zip
          ((b.serve (events.filterMap (ServerEvent.customer crypt))).2.map fun accepted =>
            some [registrationAnswer accepted]) := by
  induction events generalizing log d b with
  | nil =>
      obtain ⟨b', hb', hkeeps⟩ := h.exists_bank (by simpa using hcount)
      obtain rfl : b = b' := Bank.eq_of_customers (hb.trans hb'.symm)
      exact ⟨by rwa [servedAll, List.append_nil], hkeeps, rfl⟩
  | cons event events ih =>
      obtain ⟨⟨hcrypt, hanswerable⟩, hrest⟩ := List.forall_mem_cons.mp hevents
      rw [List.length_cons] at hcount
      push_cast at hcount
      have hcount' : (registered (log ++ [event.served d]) + events.length : ℤ) < intMax := by
        have hle := registered_served_le event d
        rw [registered_append]
        push_cast
        omega
      have hstarted' : Started (log ++ [event.served d]) := by
        obtain ⟨served, hserved, hstart⟩ := hstarted
        exact ⟨served, List.mem_append_left _ hserved, hstart⟩
      rw [servedAll_cons, diskAfter, servedAll]
      cases hc : event.customer crypt with
      | none =>
          obtain ⟨hrun, hcustomers⟩ := h.goOn_silent (by omega) hcrypt hc hanswerable
          have hevent : (event.served d).event.customer crypt = none := hc
          rw [List.filterMap_cons_none hc, registrationAnswers,
            List.filterMap_cons_none (by rw [hevent, Option.map_none])]
          exact ih hrun hstarted' (hb.trans hcustomers.symm) (hcustomers ▸ hdates) hcount' hrest
      | some c =>
          rw [ServerEvent.Answerable, hc] at hanswerable
          obtain ⟨hrun, hcustomers, hresult⟩ :=
            h.goOn_registers (by omega) hstarted hb hdates hcrypt hc hanswerable
          have hdates' : ∀ c ∈ enrolled crypt (log ++ [event.served d]), c.DateFits :=
            hcustomers ▸ Bank.dates_register (hb ▸ hdates) hanswerable.date
          obtain ⟨hrun', hkeeps, hanswers⟩ := ih hrun hstarted' hcustomers hdates' hcount' hrest
          have hevent : (event.served d).event.customer crypt = some c := hc
          have hserved : (event.served d).result = some [registrationAnswer (b.register c).2] :=
            hresult
          rw [List.filterMap_cons_some hc, registrationAnswers,
            List.filterMap_cons_some (by rw [hevent, Option.map_some, hserved])]
          exact ⟨hrun', hkeeps, congrArg (List.cons _) hanswers⟩

/-- **Registrations are answered.** However many customers a run that started up has, any list of
events that are sure to be done, one after the other, goes on with the run: the clean-up behind
each of them releases nothing twice, every registration among them is answered as the bank of the
run answers it, and the tables are those of that bank. -/
theorem registrations_answered (h : ServerRun crypt (safeRequest crypt) neverStopped log d)
    (hstarted : Started log) (hb : b.customers = enrolled crypt log)
    (hdates : ∀ c ∈ enrolled crypt log, c.DateFits) {events : List ServerEvent}
    (hcount : (registered log + events.length : ℤ) < intMax)
    (hevents : ∀ event ∈ events, event.HashesWith crypt ∧ event.Answerable crypt) :
    ServerRun crypt (safeRequest crypt) neverStopped (log ++ servedAll d events)
        (diskAfter d events) ∧
      (∀ event ∈ events, event.CleansUp) ∧
      (diskAfter d events).Keeps (b.serve (events.filterMap (ServerEvent.customer crypt))).1 ∧
      registrationAnswers crypt (servedAll d events) =
        (events.filterMap (ServerEvent.customer crypt)).zip
          ((b.serve (events.filterMap (ServerEvent.customer crypt))).2.map fun accepted =>
            some [registrationAnswer accepted]) := by
  obtain ⟨hrun, hrest⟩ := h.goOn_all hstarted hb hdates hcount hevents
  exact ⟨hrun, fun event hevent => (hevents event hevent).2.cleansUp, hrest⟩

/-- Bob registers, somebody asks for a page that does not exist, the server is started again, and
Ann registers once more. -/
def bobEvents : List ServerEvent :=
  [.serve annEnv bobPost, .serve annEnv strayRequest, .startUp, .serve annEnv annPost]

theorem customer_bobPost : (ServerEvent.serve annEnv bobPost).customer id = some bobCustomer := by
  decide +kernel

theorem customer_annPost : (ServerEvent.serve annEnv annPost).customer id = some annCustomer := by
  decide +kernel

theorem registrable_ann : annCustomer.Registrable where
  readable := readableCustomers_ann.users 0 annCustomer rfl
  room := by decide +kernel
  date := readableCustomers_ann.dates annCustomer List.mem_cons_self

theorem registrable_bob : bobCustomer.Registrable where
  readable := ⟨⟨by decide +kernel, by decide +kernel, by decide +kernel, by decide +kernel⟩,
    by decide, by decide, by decide, by decide +kernel⟩
  room := by decide +kernel
  date := ⟨by decide +kernel, by decide⟩

/-- The page that does not exist. -/
def strayParsed : HttpRequest :=
  { HttpRequest.zero with
    method := lit "GET"
    path := lit "/x"
    version := lit "HTTP/1.1" }

/-- What comes of the request for it. -/
theorem startPass_strayRequest : parseRequest annEnv.lineScratch strayRequest =
      some (some strayParsed) ∧
    (startPass routeRegistry annEnv.middlewareEnv (some strayParsed)).outcome = .notFound := by
  constructor
  · decide +kernel
  · have hroute : getRoute routeRegistry strayParsed = .notFound := rfl
    rw [startPass, hroute]

/-- It is answered with 404, and cleaned up behind once. -/
theorem answerable_stray : (ServerEvent.serve annEnv strayRequest).Answerable id := by
  obtain ⟨hparse, hpass⟩ := startPass_strayRequest
  have hnone : (ServerEvent.serve annEnv strayRequest).customer id = none := by decide +kernel
  rw [ServerEvent.Answerable, hnone]
  refine Or.inr ⟨fun d => ?_, ServerEvent.cleansUp_of_released fun d c hc => ?_⟩
  · have hread : (Proc.read fun _ => parseRequest annEnv.lineScratch strayRequest :
        Proc Disk FileOp _).result d = some (some strayParsed) := hparse
    rw [ServerEvent.proc, passResponses, Proc.result_read_bind hread, hpass]
    rfl
  · obtain ⟨parsed, hread, hc⟩ := Proc.result_bind_eq_some.mp hc
    obtain rfl := Option.some.inj (hparse.symm.trans hread)
    simp only [hpass] at hc
    obtain rfl := Option.some.inj hc
    decide +kernel

/-- The events are sure to be done. -/
theorem answerable_bob : ∀ event ∈ bobEvents, event.HashesWith id ∧ event.Answerable id := by
  simp only [bobEvents, List.mem_cons, List.not_mem_nil, or_false, forall_eq_or_imp, forall_eq]
  refine ⟨⟨rfl, ?_⟩, ⟨rfl, answerable_stray⟩, ⟨trivial, Or.inl rfl⟩, rfl, ?_⟩
  · rw [ServerEvent.Answerable, customer_bobPost]
    exact registrable_bob
  · rw [ServerEvent.Answerable, customer_annPost]
    exact registrable_ann

/-- The bank of Ann's run. -/
def annBank : Bank := ⟨[annCustomer], List.nodup_singleton _⟩

/-- Bob is accepted, and Ann is not accepted again. -/
theorem registrations_answered_bob :
    ServerRun id (safeRequest id) neverStopped (servedAll Disk.empty annEvents ++
        servedAll (diskAfter Disk.empty annEvents) bobEvents)
        (diskAfter (diskAfter Disk.empty annEvents) bobEvents) ∧
      (∀ event ∈ bobEvents, event.CleansUp) ∧
      (diskAfter (diskAfter Disk.empty annEvents) bobEvents).Keeps
        (annBank.serve (bobEvents.filterMap (ServerEvent.customer id))).1 ∧
      registrationAnswers id (servedAll (diskAfter Disk.empty annEvents) bobEvents) =
        (bobEvents.filterMap (ServerEvent.customer id)).zip
          ((annBank.serve (bobEvents.filterMap (ServerEvent.customer id))).2.map fun accepted =>
            some [registrationAnswer accepted]) := by
  refine registrations_answered serverRun_ann_safe started_ann enrolled_ann.symm ?_ ?_
    answerable_bob
  · rw [enrolled_ann]
    exact readableCustomers_ann.dates
  · have hle : registered (servedAll Disk.empty annEvents) ≤ 3 := List.countP_le_length
    have hfour : bobEvents.length = 4 := rfl
    rw [hfour]
    have hmax : (7 : ℤ) < intMax := by decide
    omega

end CBank
