import CBank.Bank

/-!
# The Server Keeps a Bank

A run of the server that is never stopped, and whose registrations are safe, keeps a bank on its
disk: the one that serves the same registrations, in order, from the start. It accepts exactly the
registrations the bank accepts.

## Main results

* `Session.bank`: the bank of a session.
* `server_keeps_bank`: the bank of a run of the server, and what it accepts.
-/

namespace CBank

open CLib

/-! ### A registration on a disk that keeps a bank -/

variable {crypt : Bytes → Bytes} {env : CallEnv} {payload : CreateUserDTO} {d : Disk}
  {r : MakeNewUserResponse}

/-- A registration that finishes was rejected for its email, or created a user. -/
theorem makeNewUser_cases (h : (makeNewUser crypt env payload).result d = some r) :
    (emailAlreadyRegistered payload.email d = some true ∧ r.success = false) ∨
      (emailAlreadyRegistered payload.email d = some false ∧
        (createUser crypt env payload).result d = some r) := by
  obtain ⟨registered, hreg, h⟩ := Proc.result_bind_eq_some.mp h
  cases registered with
  | true =>
      left
      rw [if_pos rfl, Proc.result_pure, Option.some.injEq] at h
      exact ⟨hreg, by rw [← h]⟩
  | false =>
      right
      rw [if_neg Bool.false_ne_true] at h
      exact ⟨hreg, h⟩

/-- A table after a procedure that only adds rows to it. -/
theorem table_after {α : Type} {p : Proc Disk FileOp α} {s : Store}
    (hp : p.Within (FileOp.OnlyRows s)) (d : Disk) : ((p.after d).table s).getD [] =
      (d.table s).getD [] ++ linesText ((insertedRows s (p.ops d)).map rowText) :=
  table_execAll (hp d) d

/-- The user a registration reads back, from the table with its row. -/
theorem createUser_reads (h : (createUser crypt env payload).result d = some r) :
    ∃ id m, (getNextIdentity .user).result d = some id ∧
      (m.table .user).getD [] = (d.table .user).getD [] ++
        linesText [rowText (userRow id payload (crypt payload.password) env.userCreatedAt)] ∧
      readNewUser env.userScratch id m = some r.user := by
  rw [createUser_eq] at h
  obtain ⟨id, hid, h⟩ := Proc.result_bind_eq_some.mp h
  obtain ⟨_, -, h⟩ := Proc.result_bind_eq_some.mp h
  obtain ⟨_, -, h⟩ := Proc.result_bind_eq_some.mp h
  obtain ⟨user, huser, h⟩ := Proc.result_bind_eq_some.mp h
  obtain ⟨_, -, h⟩ := Proc.result_bind_eq_some.mp h
  rw [Proc.result_pure, Option.some.injEq] at h
  have hread : (getNextIdentity .user).after d = d := rfl
  rw [hread] at huser
  subst h
  obtain ⟨hrow, -⟩ := performs_userInsert id payload (crypt payload.password) env.userCreatedAt d
  refine ⟨id, _, hid, ?_, huser⟩
  have hkept : insertedRows .user ((updtNextIdentity .user).ops ((insertQueryExecutor (userInsert id
      payload (crypt payload.password) env.userCreatedAt)).after d)) = [] :=
    insertedRows_of_not_target (within_updtNextIdentity (by decide) _ _)
  rw [table_after (onlyRows_updtNextIdentity (by decide) _), hkept,
    table_after (onlyRows_insertQueryExecutor _ _), hrow]
  exact List.append_nil _

/-! ### The bank of a session -/

/-- The customer a call is about. -/
def Event.customer (crypt : Bytes → Bytes) : Event → Option Customer
  | .setup => none
  | .register env payload => some (customerOf crypt env payload)

/-- The registrations of a session, and whether they were accepted. -/
def attempts (crypt : Bytes → Bytes) (log : List Outcome) : List (Customer × Bool) :=
  log.filterMap fun o => (o.event.customer crypt).map fun c => (c, o.accepted)

theorem attempts_append (log : List Outcome) (o : Outcome) : attempts crypt (log ++ [o]) =
    attempts crypt log ++ ((o.event.customer crypt).map fun c => (c, o.accepted)).toList := by
  rw [attempts, List.filterMap_append, attempts]
  cases hc : o.event.customer crypt with
  | none => simp [hc]
  | some c => simp [hc]

/-- **The invariant of a session**: the bank that served the same registrations gave the same
answers, and the rows written are those of its customers. -/
structure ServedAs (crypt : Bytes → Bytes) (log : List Outcome) (b : Bank) : Prop where
  answers : Bank.empty.serve ((attempts crypt log).map Prod.fst) =
    (b, (attempts crypt log).map Prod.snd)
  users : insertedRows .user (performed log) = b.userRows
  accounts : insertedRows .account (performed log) = b.accountRows
  count : b.customers.length = (accepted log).length
  safe : b.Safe

variable {log : List Outcome} {b : Bank}

theorem servedAs_start : ServedAs crypt [] Bank.empty where
  answers := rfl
  users := rfl
  accounts := rfl
  count := rfl
  safe := Bank.safe_empty

/-- One more answer of the bank. -/
theorem ServedAs.answers_concat (h : ServedAs crypt log b) {e : Event} {c : Customer}
    (he : e.customer crypt = some c) {ops : List FileOp} {response : Option MakeNewUserResponse}
    {b' : Bank} (hb : b.register c = (b', (⟨e, ops, response⟩ : Outcome).accepted)) :
    Bank.empty.serve ((attempts crypt (log ++ [⟨e, ops, response⟩])).map Prod.fst) =
      (b', (attempts crypt (log ++ [⟨e, ops, response⟩])).map Prod.snd) := by
  rw [attempts_append, he, Option.map_some, Option.toList_some, List.map_append, List.map_append,
    List.map_singleton, List.map_singleton, Bank.serve_concat, h.answers, hb]

/-- A start-up and a rejected registration write no row. -/
theorem ServedAs.silent (h : ServedAs crypt log b) {o : Outcome}
    (hops : ∀ s, insertedRows s o.ops = []) (hfail : o.accepted = false)
    (hanswers : Bank.empty.serve ((attempts crypt (log ++ [o])).map Prod.fst) =
      (b, (attempts crypt (log ++ [o])).map Prod.snd)) : ServedAs crypt (log ++ [o]) b := by
  refine ⟨hanswers, ?_, ?_, ?_, h.safe⟩
  · rw [performed_append, insertedRows_append, hops, List.append_nil, h.users]
  · rw [performed_append, insertedRows_append, hops, List.append_nil, h.accounts]
  · rw [accepted_append, hfail, if_neg Bool.false_ne_true, List.append_nil, h.count]

/-- The number of a customer fits. -/
theorem ServedAs.le_intMax (h : ServedAs crypt log b)
    (hcount : ((accepted log).length : ℤ) < intMax) : (b.customers.length : ℤ) ≤ intMax := by
  rw [h.count]
  exact hcount.le

/-- The rows of a created user and its account. -/
theorem insertedRows_recordOps (t : Tracker) (s s' : Store) (row : Row) :
    insertedRows s (recordOps t s' row) = if s' = s then [row] else [] := by
  by_cases hs : s' = s
  · simp [insertedRows, recordOps, replaceOps, hs]
  · simp [insertedRows, recordOps, replaceOps, hs]

/-- **A registration that is accepted** adds its customer. -/
theorem ServedAs.created (h : ServedAs crypt log b) {d : Disk}
    (husers : (d.table .user).getD [] = b.usersText)
    (hcount : ((accepted log).length : ℤ) < intMax)
    (hsafe : safeRegistration crypt d (.register env payload))
    (hnew : emailAlreadyRegistered payload.email d = some false)
    (hcreate : (createUser crypt env payload).result d = some r) {t : Tracker}
    (ht : t.counterD .user = (accepted log).length)
    (ht' : t.counterD .account = (accepted log).length) {l : List FileOp}
    (hsteps : MakeNewUserSteps crypt env payload t l (some r)) (hr : r.success = true)
    (hid : ∀ n, t.counter .user = some n → (getNextIdentity .user).result d = some (printNat n)) :
    ∃ b, ServedAs crypt (log ++ [⟨.register env payload, l, some r⟩]) b := by
  have hout : (⟨.register env payload, l, some r⟩ : Outcome).accepted = true := hr
  have hnumber : ∀ {s : Store} {n : ℕ}, t.counterD s = (accepted log).length →
      t.counter s = some n → n = b.customers.length := by
    intro s n hs hn
    rw [Tracker.counterD, hn, Option.getD_some, ← h.count] at hs
    exact_mod_cast hs
  cases hsteps with
  | rejected hr' => rw [hr] at hr'; exact Bool.noConfusion hr'
  | @created n a r hn ha hr =>
      obtain rfl := hnumber ht hn
      obtain rfl := hnumber ht' ha
      set c := customerOf crypt env payload with hc
      have hknows : ¬ b.Knows c.email := by
        have hdecide := Bank.emailAlreadyRegistered_eq h.safe (h.le_intMax hcount) husers hnew
        exact of_decide_eq_false hdecide.symm
      have hsafe : c.Safe b.customers.length := customerOf_safe (hsafe _ (hid _ hn))
      obtain ⟨id, m, hid', hm, hread⟩ := createUser_reads hcreate
      obtain rfl : id = printNat b.customers.length :=
        Option.some.inj (hid'.symm.trans (hid _ hn))
      have huser : r.user.id = printNat b.customers.length := by
        refine Bank.readNewUser_eq (h.safe.add hknows hsafe) ?_ ?_ (c := c) ?_ hread
        · rw [Bank.add, List.length_append, List.length_singleton, h.count]
          push_cast
          omega
        · rw [hm, husers, Bank.usersText, Bank.usersText, Bank.userRows_add, List.map_append,
            linesText_append]
          rfl
        · exact List.getElem?_concat_length
      refine ⟨b.add c hknows, h.answers_concat rfl ?_, ?_, ?_, ?_, h.safe.add hknows hsafe⟩
      · rw [Bank.register_of_new hknows, hout]
      · rw [performed_append, insertedRows_append, h.users, Bank.userRows_add, insertedRows_append,
          insertedRows_recordOps, insertedRows_recordOps]
        rfl
      · rw [performed_append, insertedRows_append, h.accounts, Bank.accountRows_add,
          insertedRows_append, insertedRows_recordOps, insertedRows_recordOps, huser]
        rfl
      · rw [accepted_append, if_pos hout, List.length_append, ← h.count]
        exact List.length_append

/-- What the calls of a session do to a table. -/
theorem Event.onlyRows {s : Store} (hs : s ≠ .idTracker) (e : Event) :
    (e.proc crypt).Within (FileOp.OnlyRows s) := by
  cases e with
  | setup => exact (onlyRows_setupStores hs).bind fun _ => Proc.within_pure _
  | register env payload => exact (onlyRows_makeNewUser hs _ _ _).bind fun _ => Proc.within_pure _

/-- Every table of a session is the text of the rows written to it. -/
theorem Session.table_of {canRun : Disk → Event → Prop} {canStop : List FileOp → Prop}
    (h : Session crypt canRun canStop log d) {s : Store} (hs : s ≠ .idTracker) :
    (d.table s).getD [] = linesText ((insertedRows s (performed log)).map rowText) := by
  have honly : ∀ op ∈ performed log, op.OnlyRows s := by
    induction h with
    | start => exact fun op hop => absurd hop List.not_mem_nil
    | @finish log d e r h he hr ih =>
        intro op hop
        rw [performed_append] at hop
        exact (List.mem_append.mp hop).elim (ih op) (Event.onlyRows hs e d op)
    | @stop log d e h he n hn ih =>
        intro op hop
        rw [performed_append] at hop
        exact (List.mem_append.mp hop).elim (ih op) fun hop =>
          Event.onlyRows hs e d op (List.mem_of_mem_take hop)
  rw [h.disk_eq, table_execAll honly]
  rfl

theorem insertedRows_setupOps (t : Tracker) (s : Store) : insertedRows s (setupOps t) = [] := by
  have hensure : ∀ (t : Tracker) (s' : Store), insertedRows s (ensureOps t s') = [] := by
    intro t s'
    rw [ensureOps]
    split
    · rfl
    · rfl
  have hcreates : insertedRows s (setupOps t) = insertedRows s (ensureOps t .user ++
      (ensureOps (t.ensure .user) .transaction ++
        ensureOps ((t.ensure .user).ensure .transaction) .account)) := rfl
  rw [hcreates, insertedRows_append, insertedRows_append, hensure, hensure, hensure]
  rfl

/-- **The bank of a session** of safe registrations without stops. Induction along the session. -/
theorem Session.bank (h : Session crypt (safeRegistration crypt) neverStopped log d)
    (hcount : ((accepted log).length : ℤ) < intMax) : ∃ b, ServedAs crypt log b := by
  induction h with
  | start => exact ⟨_, servedAs_start⟩
  | stop h he n hn => exact absurd hn id
  | @finish log d e r h he hr ih =>
      have hle : (accepted log).length ≤
          (accepted (log ++ [⟨e, (e.proc crypt).ops d, r⟩])).length := by
        rw [accepted_append, List.length_append]
        omega
      have hcount' : ((accepted log).length : ℤ) < intMax := by omega
      obtain ⟨b, hb⟩ := ih hcount'
      obtain ⟨t, hall⟩ := h.allocation hcount'
      have hholds : d.Holds t := h.disk_eq ▸ hall.ledger.holds
      have husers : (d.table .user).getD [] = b.usersText := by
        rw [h.table_of (by decide), hb.users]
      rcases e.proc_cases crypt hholds hall.ledger.small
        (counter_lt_of_counterD_le hall.bound hcount') with
          ⟨rfl, hperf⟩ | ⟨env, payload, l, r', rfl, hperf, hsteps⟩
      · rw [hperf.2, Option.some.injEq] at hr
        subst hr
        refine ⟨b, hb.silent (fun s => ?_) rfl ?_⟩
        · rw [hperf.1, insertedRows_setupOps]
        · rw [attempts_append]
          simpa [Event.customer] using hb.answers
      · obtain ⟨r₁, hmade, hreturn⟩ := Proc.result_bind_eq_some.mp hr
        obtain rfl := Option.some.inj hreturn
        rw [hperf.2] at hr
        obtain ⟨r', rfl, hsame⟩ := Option.map_eq_some_iff.mp hr
        obtain rfl := Option.some.inj hsame
        rw [hperf.1]
        rcases makeNewUser_cases hmade with ⟨hknown, hfail⟩ | ⟨hnew, hcreate⟩
        · have hdecide :=
            Bank.emailAlreadyRegistered_eq hb.safe (hb.le_intMax hcount') husers hknown
          have hknows : b.Knows (customerOf crypt env payload).email :=
            of_decide_eq_true hdecide.symm
          refine ⟨b, hb.silent (fun s => ?_) hfail (hb.answers_concat rfl ?_)⟩
          · rw [hsteps.ops_eq_nil (by rw [hfail]; exact Bool.false_ne_true)]
            rfl
          · rw [Bank.register_of_knows hknows]
            exact congrArg (Prod.mk b) hfail.symm
        · exact hb.created husers hcount' he hnew hcreate hall.user hall.account hsteps
            (createUser_finished hcreate).1 fun n hn =>
              getNextIdentity_of_some hholds hall.ledger.small hn

/-! ### The bank of a run -/

/-- The customer a request registers. -/
def ServerEvent.customer (crypt : Bytes → Bytes) : ServerEvent → Option Customer
  | .startUp => none
  | .serve e received => (registration e received).map (customerOf crypt e.handlerEnv.callEnv)

/-- The one response was the redirect. -/
def redirected (served : Served) : Bool := match served.result with
  | some [res] => res.statusCode = 302
  | _ => false

/-- The requests of a run that register, and whether they were answered with the redirect. -/
def requests (crypt : Bytes → Bytes) (log : List Served) : List (Customer × Bool) :=
  log.filterMap fun served => (served.event.customer crypt).map fun c => (c, redirected served)

/-- A request whose registration is safe. -/
def safeRequest (crypt : Bytes → Bytes) (d : Disk) (event : ServerEvent) : Prop :=
  ∀ c, event.call = some c → safeRegistration crypt d c

theorem safeRequest_call (d : Disk) (event : ServerEvent) (c : Event)
    (h : safeRequest crypt d event) (hc : event.call = some c) : safeRegistration crypt d c :=
  h c hc

theorem ServerEvent.customer_eq (event : ServerEvent) :
    event.customer crypt = event.call.bind fun c => c.customer crypt := by
  cases event with
  | startUp => rfl
  | serve e received =>
      rw [ServerEvent.customer, ServerEvent.call, Option.bind_map]
      cases registration e received <;> rfl

theorem Performed.redirected_eq {served : Served} {o : Outcome} (h : Performed served o) :
    redirected served = o.accepted := by
  rw [Bool.eq_iff_iff, h.accepted_iff, redirected]
  cases served.result with
  | none => simp
  | some rs =>
      match rs with
      | [] => simp
      | [r] => simp
      | _ :: _ :: _ => simp

/-- The registrations of a run are those of its session. -/
theorem requests_eq {log : List Served} {slog : List Outcome}
    (h : List.Forall₂ Performed (log.filter fun served => served.event.writes) slog) :
    requests crypt log = attempts crypt slog := by
  have hwrites : requests crypt (log.filter fun served => served.event.writes) =
      requests crypt log := by
    rw [requests, List.filterMap_filter, requests]
    refine List.filterMap_congr fun served _ => ?_
    split
    · rfl
    · rename_i hidle
      rw [served.event.writes_eq, Bool.not_eq_true, Option.isSome_eq_false_iff,
        Option.isNone_iff_eq_none] at hidle
      rw [ServerEvent.customer_eq, hidle]
      rfl
  rw [← hwrites]
  generalize log.filter (fun served => served.event.writes) = calls at h
  induction h with
  | nil => rfl
  | @cons served o calls slog hperformed _ ih =>
      rw [requests, attempts] at ih ⊢
      rw [List.filterMap_cons, List.filterMap_cons, ih, ServerEvent.customer_eq, hperformed.call,
        Option.bind_some, hperformed.redirected_eq]

/-- A registration that was accepted is a registration. -/
theorem Session.length_accepted_le {canRun : Disk → Event → Prop} {slog : List Outcome}
    (h : Session crypt canRun neverStopped slog d) :
    (accepted slog).length ≤ registrations slog := by
  rw [accepted, ← List.countP_eq_length_filter, registrations]
  refine List.countP_mono_left fun o ho haccepted => ?_
  obtain ⟨env, payload, id, d', hevent, -⟩ := h.wrote (List.mem_filter.mpr ⟨ho, haccepted⟩)
  rw [Outcome.isRegister, hevent]

/-- The bank of a run is that of its session. -/
theorem ServerRun.bank {log : List Served} {d : Disk}
    (h : ServerRun crypt (safeRequest crypt) neverStopped log d)
    (hcount : (registered log : ℤ) < intMax) :
    ∃ b, d.Keeps b ∧ b.Safe ∧ (b.customers.length : ℤ) ≤ registered log ∧
      Bank.empty.serve ((requests crypt log).map Prod.fst) =
        (b, (requests crypt log).map Prod.snd) := by
  obtain ⟨slog, hsession, hall, -⟩ := h.session safeRequest_call
  have hle := hsession.length_accepted_le
  rw [registrations_eq hall] at hle
  obtain ⟨b, hb⟩ := hsession.bank (by omega)
  refine ⟨b, ⟨?_, ?_⟩, hb.safe, by rw [hb.count]; omega, ?_⟩
  · rw [hsession.table_of (by decide), hb.users]
  · rw [hsession.table_of (by decide), hb.accounts]
  · rw [requests_eq hall]
    exact hb.answers

theorem requests_append (log log' : List Served) :
    requests crypt (log ++ log') = requests crypt log ++ requests crypt log' :=
  List.filterMap_append

theorem registered_append (log log' : List Served) :
    registered (log ++ log') = registered log + registered log' := List.countP_append

/-- **The server keeps a bank.** A run of the server that is never stopped, and whose requests to
register are safe, leaves the tables of a bank: the one that serves the same registrations from
the start. The requests that were answered with the redirect are those the bank accepts, and these
are the ones whose email no earlier request of the run wanted to register. -/
theorem server_keeps_bank {log : List Served} {d : Disk}
    (h : ServerRun crypt (safeRequest crypt) neverStopped log d)
    (hcount : (registered log : ℤ) < intMax) :
    (∃ b, d.Keeps b ∧ Bank.empty.serve ((requests crypt log).map Prod.fst) =
      (b, (requests crypt log).map Prod.snd)) ∧
    ∀ before served after c, log = before ++ served :: after →
      served.event.customer crypt = some c →
        (redirected served = true ↔ c.email ∉ (requests crypt before).map fun p => p.1.email) := by
  constructor
  · obtain ⟨b, hkeeps, -, -, hserve⟩ := h.bank hcount
    exact ⟨b, hkeeps, hserve⟩
  · rintro before served after c rfl hc
    rw [List.append_cons] at h hcount
    obtain ⟨m, hbefore, -⟩ := h.split
    rw [registered_append] at hcount
    obtain ⟨b, -, -, -, hserve⟩ := ServerRun.bank hbefore (by push_cast at hcount; omega)
    have hone : requests crypt [served] = [(c, redirected served)] := by
      rw [requests, List.filterMap_cons_some (by rw [hc]; rfl), List.filterMap_nil]
    rw [requests_append, hone, List.map_append, List.map_append, List.map_singleton,
      List.map_singleton, Bank.serve_concat] at hserve
    obtain ⟨-, hlast⟩ := List.append_inj' (Prod.mk.inj hserve).2 rfl
    have hanswer := Bank.serve_answers ((requests crypt before).map Prod.fst) c
    rw [List.singleton_inj.mp hlast, List.map_map] at hanswer
    exact hanswer

/-- Ann's request is safe. -/
theorem safeRequest_ann : safeRequest id startedDisk (.serve annEnv annPost) := by
  intro c hc
  rw [ServerEvent.call, registration_annPost, Option.map_some, Option.some.injEq] at hc
  subst hc
  exact safeRegistration_sample

theorem safeRequest_startUp (d : Disk) : safeRequest id d .startUp := by
  intro c hc
  obtain rfl := Option.some.inj hc
  trivial

theorem serverRun_ann_safe : ServerRun id (safeRequest id) neverStopped
    (servedAll Disk.empty annEvents) (diskAfter Disk.empty annEvents) := by
  refine serverRun_ann (safeRequest_startUp _) (fun c hc => ?_) safeRequest_ann
  have hnone : (ServerEvent.serve annEnv strayRequest).call = none := by
    rw [ServerEvent.call, Option.map_eq_none_iff]
    decide +kernel
  rw [hnone] at hc
  simp at hc

theorem registered_ann_lt : (registered (servedAll Disk.empty annEvents) : ℤ) < intMax := by
  have hle : registered (servedAll Disk.empty annEvents) ≤ 3 := List.countP_le_length
  exact (Int.ofNat_le.mpr hle).trans_lt (by decide)

/-- So is Bob's. -/
theorem safeRequest_bob : safeRequest id annDisk (.serve annEnv bobPost) := by
  intro c hc
  rw [ServerEvent.call, registration_bobPost, Option.map_some, Option.some.injEq] at hc
  subst hc
  intro next hnext
  obtain rfl := Option.some.inj (nextIds_two.1.symm.trans hnext)
  exact ⟨by decide +kernel, by decide +kernel, by decide +kernel, by decide +kernel⟩

theorem registered_two_lt :
    (registered (servedAll Disk.empty annEvents ++ [bobServed]) : ℤ) < intMax := by
  have hle : registered (servedAll Disk.empty annEvents ++ [bobServed]) ≤ 4 :=
    List.countP_le_length
  exact (Int.ofNat_le.mpr hle).trans_lt (by decide)

/-- The bank of Ann and Bob. -/
theorem server_keeps_bank_two :
    (∃ b, bobDisk.Keeps b ∧
      Bank.empty.serve ((requests id (servedAll Disk.empty annEvents ++ [bobServed])).map
        Prod.fst) =
        (b, (requests id (servedAll Disk.empty annEvents ++ [bobServed])).map Prod.snd)) ∧
    ∀ before served after c,
      servedAll Disk.empty annEvents ++ [bobServed] = before ++ served :: after →
      served.event.customer id = some c →
        (redirected served = true ↔ c.email ∉ (requests id before).map fun p => p.1.email) :=
  server_keeps_bank (serverRun_two serverRun_ann_safe safeRequest_bob) registered_two_lt

end CBank
