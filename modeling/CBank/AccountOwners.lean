import CBank.BankRuns

/-!
# The Owners of the Accounts

What the two tables say about each other when the process may be stopped. A stop between the user
of a registration and the account leaves a customer without an account; as long as no stop falls
within a record, that is all that can happen: every account belongs to a customer, and no customer
has two. Nothing makes up for the stop either: an account is only opened for a customer who is
enrolled with it.

## Main results

* `MakeNewUserSteps.take_rows`: the rows of a registration that is stopped.
* `accounts_owned`: the two tables of a run with stops.
* `accounts_never_made_up`: who has no account in a run never gets one.
-/

namespace CBank

open CLib

/-! ### Customers and accounts -/

/-- An account: the number of its owner, and its date. -/
structure OpenAccount where
  owner : ℕ
  createdAt : Bytes

/-- A bank where not every customer has an account. The accounts are in the order of their owners,
so no customer has two. -/
structure Branch extends Bank where
  accounts : List OpenAccount
  increasing : (accounts.map OpenAccount.owner).Pairwise (· < ·)
  owned : ∀ a ∈ accounts, a.owner < customers.length

namespace Branch

/-- A branch without customers. -/
def empty : Branch where
  toBank := Bank.empty
  accounts := []
  increasing := .nil
  owned := fun _ ha => absurd ha List.not_mem_nil

/-- The rows of the accounts. -/
def openRows (br : Branch) : List Row :=
  br.accounts.mapIdx fun k a => accountRow (printNat k) (printNat a.owner) a.createdAt

/-- A customer who gets no account. -/
def enroll (br : Branch) (c : Customer) (h : ¬ br.Knows c.email) : Branch where
  toBank := br.toBank.add c h
  accounts := br.accounts
  increasing := br.increasing
  owned := fun a ha => (br.owned a ha).trans (by simp [Bank.add])

/-- A customer with an account. -/
def enrollOpen (br : Branch) (c : Customer) (h : ¬ br.Knows c.email) : Branch where
  toBank := br.toBank.add c h
  accounts := br.accounts ++ [⟨br.customers.length, c.accountCreatedAt⟩]
  increasing := by
    rw [List.map_append, List.map_singleton, List.pairwise_append]
    refine ⟨br.increasing, List.pairwise_singleton _ _, fun n hn m hm => ?_⟩
    obtain ⟨a, ha, rfl⟩ := List.mem_map.mp hn
    rw [List.mem_singleton.mp hm]
    exact br.owned a ha
  owned := fun a ha => by
    rcases List.mem_append.mp ha with ha | ha
    · exact (br.owned a ha).trans (by simp [Bank.add])
    · rw [List.mem_singleton.mp ha]
      simp [Bank.add]

theorem openRows_enrollOpen (br : Branch) (c : Customer) (h : ¬ br.Knows c.email) :
    (br.enrollOpen c h).openRows = br.openRows ++
      [accountRow (printNat br.accounts.length) (printNat br.customers.length)
        c.accountCreatedAt] :=
  List.mapIdx_concat

/-- A later branch: more customers, and more accounts, all of them for customers who came later. -/
structure Extends (br br' : Branch) : Prop where
  customers : br.customers <+: br'.customers
  accounts : ∃ more, br'.accounts = br.accounts ++ more ∧
    ∀ a ∈ more, br.customers.length ≤ a.owner

namespace Extends

theorem refl (br : Branch) : br.Extends br where
  customers := List.prefix_refl _
  accounts := ⟨[], (List.append_nil _).symm, fun _ ha => absurd ha List.not_mem_nil⟩

theorem trans {br br' br'' : Branch} (h : br.Extends br') (h' : br'.Extends br'') :
    br.Extends br'' := by
  obtain ⟨more, hmore, howners⟩ := h.accounts
  obtain ⟨more', hmore', howners'⟩ := h'.accounts
  refine ⟨h.customers.trans h'.customers, more ++ more', ?_, fun a ha => ?_⟩
  · rw [hmore', hmore, List.append_assoc]
  · rcases List.mem_append.mp ha with ha | ha
    · exact howners a ha
    · exact h.customers.length_le.trans (howners' a ha)

theorem enroll (br : Branch) (c : Customer) (h : ¬ br.Knows c.email) :
    br.Extends (br.enroll c h) where
  customers := List.prefix_append _ _
  accounts := ⟨[], (List.append_nil _).symm, fun _ ha => absurd ha List.not_mem_nil⟩

theorem enrollOpen (br : Branch) (c : Customer) (h : ¬ br.Knows c.email) :
    br.Extends (br.enrollOpen c h) where
  customers := List.prefix_append _ _
  accounts := ⟨_, rfl, fun _ ha => by rw [List.mem_singleton.mp ha]⟩

/-- **A customer stays who it is, and keeps the accounts it has**: there are no others. -/
theorem same_customer {br br' : Branch} (h : br.Extends br') {n : ℕ} {c : Customer}
    (hn : br.customers[n]? = some c) : br'.customers[n]? = some c ∧
      ∀ a : OpenAccount, a.owner = n → (a ∈ br'.accounts ↔ a ∈ br.accounts) := by
  obtain ⟨hlt, -⟩ := List.getElem?_eq_some_iff.mp hn
  obtain ⟨more, hmore, howners⟩ := h.accounts
  constructor
  · obtain ⟨later, hlater⟩ := h.customers
    rw [← hlater, List.getElem?_append_left hlt, hn]
  · rintro a rfl
    rw [hmore, List.mem_append, or_iff_left fun ha => (howners a ha).not_gt hlt]

end Extends

end Branch

/-! ### A registration that is stopped -/

variable {crypt : Bytes → Bytes} {env : CallEnv} {payload : CreateUserDTO} {d : Disk} {t : Tracker}
  {l : List FileOp} {r : Option MakeNewUserResponse}

/-- A record stopped outside of it has its row, or has not begun. -/
theorem take_recordOps_rows {s : Store} {row : Row} {k : ℕ}
    (hk : settled ((recordOps t s row).take k)) :
    (∀ s', insertedRows s' ((recordOps t s row).take k) = []) ∨
      ∀ s', insertedRows s' ((recordOps t s row).take k) = if s = s' then [row] else [] := by
  match k with
  | 0 => exact Or.inl fun _ => rfl
  | 1 => exact absurd hk (by simp [settled, recordOps, pendingAfter])
  | 2 => exact absurd hk (by simp [settled, recordOps, replaceOps, pendingAfter])
  | 3 => exact absurd hk (by simp [settled, recordOps, replaceOps, pendingAfter])
  | 4 =>
      right
      intro s'
      by_cases h : s = s'
      · simp [insertedRows, recordOps, replaceOps, h]
      · simp [insertedRows, recordOps, replaceOps, h]
  | k + 5 =>
      have hall : (recordOps t s row).take (k + 5) = recordOps t s row :=
        List.take_of_length_le (by simp [recordOps, replaceOps])
      exact Or.inr fun s' => by rw [hall, insertedRows_recordOps]

/-- The rows of the user's record and the operations behind it, stopped outside of a record. -/
theorem take_user_append_rows {more : List FileOp} {row : Row} {k : ℕ}
    (hmore : ∀ j, settled (more.take j) → insertedRows .user (more.take j) = [])
    (hk : settled ((recordOps t .user row ++ more).take k)) :
    (∀ s, insertedRows s ((recordOps t .user row ++ more).take k) = []) ∨
      insertedRows .user ((recordOps t .user row ++ more).take k) = [row] ∧
        (insertedRows .account ((recordOps t .user row ++ more).take k) = [] ∨
          ∃ j, settled (more.take j) ∧
            insertedRows .account ((recordOps t .user row ++ more).take k) =
              insertedRows .account (more.take j)) := by
  rcases take_append_cases (recordOps t .user row) more k with htake | ⟨j, htake⟩
  · rw [htake] at hk ⊢
    rcases take_recordOps_rows hk with hnil | hrows
    · exact Or.inl hnil
    · exact Or.inr ⟨hrows .user, Or.inl (hrows .account)⟩
  · rw [htake, settled_append (settled_recordOps _ _ _)] at hk
    rw [htake, insertedRows_append, insertedRows_append, insertedRows_recordOps,
      insertedRows_recordOps, if_pos rfl, if_neg (by decide), hmore j hk, List.append_nil,
      List.nil_append]
    exact Or.inr ⟨rfl, Or.inr ⟨j, hk, rfl⟩⟩

/-- **The rows of a registration that is stopped** outside of a record: none, that of the user, or
both. -/
theorem MakeNewUserSteps.take_rows (h : MakeNewUserSteps crypt env payload t l r) {k : ℕ}
    (hk : CBank.settled (l.take k)) :
    (∀ s, insertedRows s (l.take k) = []) ∨ ∃ n, t.counter .user = some n ∧
      insertedRows .user (l.take k) =
        [userRow (printNat n) payload (crypt payload.password) env.userCreatedAt] ∧
      (insertedRows .account (l.take k) = [] ∨ ∃ a r', r = some r' ∧ t.counter .account = some a ∧
        r'.success = true ∧ insertedRows .account (l.take k) =
          [accountRow (printNat a) r'.user.id env.accCreatedAt]) := by
  cases h with
  | rejected hr => exact Or.inl fun s => by rw [List.take_nil]; rfl
  | undefined => exact Or.inl fun s => by rw [List.take_nil]; rfl
  | @noAccount n hn =>
      rw [← List.append_nil (recordOps _ _ _)] at hk ⊢
      rcases take_user_append_rows (fun j _ => by rw [List.take_nil]; rfl) hk with
        hnone | ⟨huser, hacc | ⟨j, -, hacc⟩⟩
      · exact Or.inl hnone
      · exact Or.inr ⟨n, hn, huser, Or.inl hacc⟩
      · exact Or.inr ⟨n, hn, huser, Or.inl (by rw [hacc, List.take_nil]; rfl)⟩
  | @halfAccount n a user hn ha =>
      -- a stop behind the row of the account falls within its record
      have hzero : ∀ j, CBank.settled (([.insert .account (accountRow (printNat a) user.id
          env.accCreatedAt)] : List FileOp).take j) → j = 0 := by
        intro j hj
        cases j with
        | zero => rfl
        | succ j => exact absurd hj (by simp [CBank.settled, pendingAfter])
      rcases take_user_append_rows (fun j hj => by rw [hzero j hj]; rfl) hk with
        hnone | ⟨huser, hacc | ⟨j, hj, hacc⟩⟩
      · exact Or.inl hnone
      · exact Or.inr ⟨n, hn, huser, Or.inl hacc⟩
      · exact Or.inr ⟨n, hn, huser, Or.inl (by rw [hacc, hzero j hj]; rfl)⟩
  | @created n a r hn ha hr =>
      have huserless : ∀ j, CBank.settled ((recordOps (t.advance .user) .account
          (accountRow (printNat a) r.user.id env.accCreatedAt)).take j) →
          insertedRows .user ((recordOps (t.advance .user) .account (accountRow (printNat a)
            r.user.id env.accCreatedAt)).take j) = [] := fun j hj =>
        (take_recordOps_rows hj).elim (fun hnil => hnil .user) fun hrows => hrows .user
      rcases take_user_append_rows huserless hk with hnone | ⟨huser, hacc | ⟨j, hj, hacc⟩⟩
      · exact Or.inl hnone
      · exact Or.inr ⟨n, hn, huser, Or.inl hacc⟩
      · refine Or.inr ⟨n, hn, huser, ?_⟩
        rcases take_recordOps_rows hj with hnil | hrows
        · exact Or.inl (hacc.trans (hnil .account))
        · exact Or.inr ⟨a, r, rfl, ha, hr, hacc.trans (hrows .account)⟩

/-! ### Runs with stops -/

/-- A registration that performs something knew that its email is new. -/
theorem emailAlreadyRegistered_of_ops (h : (makeNewUser crypt env payload).ops d ≠ []) :
    emailAlreadyRegistered payload.email d = some false := by
  have hread : (Proc.read (emailAlreadyRegistered payload.email) : Proc Disk FileOp Bool).result d =
      emailAlreadyRegistered payload.email d := rfl
  cases hreg : emailAlreadyRegistered payload.email d with
  | none => exact absurd (Proc.ops_read_bind_none (hread.trans hreg) _) h
  | some registered =>
      cases registered with
      | false => rfl
      | true =>
          have hops : (makeNewUser crypt env payload).ops d = [] := by
            rw [makeNewUser, Proc.ops_read_bind (hread.trans hreg)]
            rfl
          exact absurd hops h

/-- How many ids the rows of a bank have. -/
theorem Bank.length_ids (b : Bank) :
    (b.userRows.filterMap fun row => row.lookup (lit "id")).length = b.customers.length := by
  have hall : ∀ row ∈ b.userRows, (row.lookup (lit "id")).isSome := by
    intro row hrow
    obtain ⟨n, c, -, rfl⟩ := Bank.mem_userRows.mp hrow
    rw [Customer.row, lookup_userRow, Option.isSome_some]
  rw [List.length_filterMap_eq_countP, List.countP_eq_length.mpr hall, Bank.userRows,
    List.length_mapIdx]

theorem Branch.length_ids (br : Branch) :
    (br.openRows.filterMap fun row => row.lookup (lit "id")).length = br.accounts.length := by
  have hall : ∀ row ∈ br.openRows, (row.lookup (lit "id")).isSome := by
    intro row hrow
    obtain ⟨k, hk, rfl⟩ := List.mem_mapIdx.mp hrow
    rw [lookup_accountRow, Option.isSome_some]
  rw [List.length_filterMap_eq_countP, List.countP_eq_length.mpr hall, Branch.openRows,
    List.length_mapIdx]

/-- The next id of a table is the number of its rows. -/
theorem Ledger.counter_eq_length {ops : List FileOp} (h : Ledger ops t) {s : Store} {n : ℕ}
    (hn : t.counter s = some n) :
    n = ((insertedRows s ops).filterMap fun row => row.lookup (lit "id")).length := by
  rw [← insertedIds_eq, h.insertedIds, hn, List.length_map, List.length_range, Option.getD_some]

/-- **The invariant of a session with stops**: the rows written are those of a branch. -/
structure KeptAs (log : List Outcome) (br : Branch) : Prop where
  users : insertedRows .user (performed log) = br.userRows
  accounts : insertedRows .account (performed log) = br.openRows
  safe : br.Safe

theorem keptAs_start : KeptAs [] Branch.empty := ⟨rfl, rfl, Bank.safe_empty⟩

variable {log : List Outcome} {br : Branch}

/-- One more call that writes no row. -/
theorem KeptAs.silent (h : KeptAs log br) {o : Outcome} (ho : ∀ s, insertedRows s o.ops = []) :
    KeptAs (log ++ [o]) br := by
  refine ⟨?_, ?_, h.safe⟩
  · rw [performed_append, insertedRows_append, ho, List.append_nil, h.users]
  · rw [performed_append, insertedRows_append, ho, List.append_nil, h.accounts]

theorem insertedRows_take_eq_nil {s : Store} {ops : List FileOp} (h : insertedRows s ops = [])
    (n : ℕ) : insertedRows s (ops.take n) = [] := by
  rw [insertedRows, List.filterMap_eq_nil_iff] at h ⊢
  exact fun op hop => h op (List.mem_of_mem_take hop)

/-- The user a registration reads back has the id that was given, also in a branch. -/
theorem KeptAs.user_id {r : MakeNewUserResponse} (h : KeptAs log br)
    (husers : (d.table .user).getD [] = br.usersText)
    (hle : (br.customers.length : ℤ) < intMax)
    (hknows : ¬ br.Knows (customerOf crypt env payload).email)
    (hsafe : (customerOf crypt env payload).Safe br.customers.length)
    (hid : (getNextIdentity .user).result d = some (printNat br.customers.length))
    (hcreate : (createUser crypt env payload).result d = some r) :
    r.user.id = printNat br.customers.length := by
  obtain ⟨id, m, hid', hm, hread⟩ := createUser_reads hcreate
  obtain rfl : id = printNat br.customers.length := Option.some.inj (hid'.symm.trans hid)
  refine Bank.readNewUser_eq (h.safe.add hknows hsafe) ?_ ?_ (c := customerOf crypt env payload) ?_
    hread
  · rw [Bank.add, List.length_append, List.length_singleton]
    push_cast
    omega
  · rw [hm, husers, Bank.usersText, Bank.usersText, Bank.userRows_add, List.map_append,
      linesText_append]
    rfl
  · exact List.getElem?_concat_length

/-- **One more registration**, stopped or not, outside of a record. -/
theorem KeptAs.register (h : KeptAs log br) (hled : Ledger (performed log) t)
    (hcount : ∀ s n, t.counter s = some n → (n : ℤ) < intMax) (hholds : d.Holds t)
    (husers : (d.table .user).getD [] = br.usersText)
    (hsafe : safeRegistration crypt d (.register env payload))
    (hmade : (makeNewUser crypt env payload).Performs d l r)
    (hsteps : MakeNewUserSteps crypt env payload t l r) {k : ℕ} (hk : settled (l.take k))
    (response : Option MakeNewUserResponse) :
    ∃ br', KeptAs (log ++ [⟨.register env payload, l.take k, response⟩]) br' ∧
      br.Extends br' := by
  rcases hsteps.take_rows hk with hnone | ⟨n, hn, huser, haccount⟩
  · exact ⟨br, h.silent hnone, .refl br⟩
  · have hlt := hcount _ _ hn
    obtain rfl : n = br.customers.length := by
      rw [hled.counter_eq_length hn, h.users, Bank.length_ids]
    have hid := getNextIdentity_of_some hholds hled.small hn
    have hsafe : (customerOf crypt env payload).Safe br.customers.length :=
      customerOf_safe (hsafe _ hid)
    have hknows : ¬ br.Knows (customerOf crypt env payload).email := by
      have hne : (makeNewUser crypt env payload).ops d ≠ [] := by
        rw [hmade.1]
        rintro rfl
        rw [List.take_nil] at huser
        exact absurd huser (List.cons_ne_nil _ _).symm
      have hdecide := Bank.emailAlreadyRegistered_eq h.safe hlt.le husers
        (emailAlreadyRegistered_of_ops hne)
      exact of_decide_eq_false hdecide.symm
    have hrows : insertedRows .user (performed log ++ l.take k) =
        (br.toBank.add (customerOf crypt env payload) hknows).userRows := by
      rw [insertedRows_append, h.users, huser, Bank.userRows_add]
      rfl
    rcases haccount with hnil | ⟨a, r', rfl, ha, hsuccess, haccount⟩
    · refine ⟨br.enroll _ hknows, ⟨?_, ?_, h.safe.add hknows hsafe⟩, .enroll br _ hknows⟩
      · rw [performed_append]
        exact hrows
      · rw [performed_append, insertedRows_append, h.accounts, hnil, List.append_nil]
        rfl
    · obtain rfl : a = br.accounts.length := by
        rw [hled.counter_eq_length ha, h.accounts, Branch.length_ids]
      have hcreate : (createUser crypt env payload).result d = some r' := by
        rcases makeNewUser_cases hmade.2 with ⟨-, hfail⟩ | ⟨-, hcreate⟩
        · rw [hsuccess] at hfail
          exact Bool.noConfusion hfail
        · exact hcreate
      refine ⟨br.enrollOpen _ hknows, ⟨?_, ?_, h.safe.add hknows hsafe⟩, .enrollOpen br _ hknows⟩
      · rw [performed_append]
        exact hrows
      · rw [performed_append, insertedRows_append, h.accounts, haccount,
          h.user_id husers hlt hknows hsafe hid hcreate, Branch.openRows_enrollOpen]
        rfl

/-- One more call, stopped or not, outside of a record. -/
theorem KeptAs.step (h : KeptAs log br)
    (hsession : Session crypt (safeRegistration crypt) settled log d)
    (hcount : (registrations log : ℤ) < intMax) {e : Event} (he : safeRegistration crypt d e)
    (n : ℕ) (response : Option MakeNewUserResponse)
    (hset : settled (((e.proc crypt).ops d).take n)) :
    ∃ br', KeptAs (log ++ [⟨e, ((e.proc crypt).ops d).take n, response⟩]) br' ∧
      br.Extends br' := by
  obtain ⟨t, hled, hbound⟩ := hsession.ledger hcount
  have hholds : d.Holds t := hsession.disk_eq ▸ hled.holds
  have hlt := counter_lt_of_counterD_le hbound hcount
  have husers : (d.table .user).getD [] = br.usersText := by
    rw [hsession.table_of (by decide), h.users]
  rcases e.proc_cases crypt hholds hled.small hlt with
    ⟨rfl, hperf⟩ | ⟨env, payload, l, r, rfl, hperf, hsteps⟩
  · refine ⟨br, h.silent fun s => ?_, .refl br⟩
    rw [hperf.1]
    exact insertedRows_take_eq_nil (insertedRows_setupOps t s) n
  · obtain ⟨ops, r', hmade, hsteps'⟩ := makeNewUser_steps crypt env payload hholds hled.small hlt
    have hops : ((Event.register env payload).proc crypt).ops d = ops := by
      rw [Event.proc, Proc.ops_bind_pure, hmade.1]
    rw [hops] at hset ⊢
    exact h.register hled hlt hholds husers he hmade hsteps' hset response

/-- A call that finishes is not stopped within a record. -/
theorem Event.settled_of_result {e : Event} (hled : Ledger (performed log) t) (hholds : d.Holds t)
    (hlt : ∀ s n, t.counter s = some n → (n : ℤ) < intMax) {response : Option MakeNewUserResponse}
    (hr : (e.proc crypt).result d = some response) : settled ((e.proc crypt).ops d) := by
  rcases e.proc_cases crypt hholds hled.small hlt with
    ⟨-, hperf⟩ | ⟨env, payload, l, r, -, hperf, hsteps⟩
  · rw [hperf.1]
    exact settled_setupOps t
  · rw [hperf.2] at hr
    obtain ⟨r, rfl, -⟩ := Option.map_eq_some_iff.mp hr
    rw [hperf.1]
    exact hsteps.settled

/-- The branch of a session, and of every session it began with: each extends the ones before. -/
structure KeptSince (log : List Outcome) (br : Branch) : Prop where
  kept : KeptAs log br
  earlier : ∀ before after, log = before ++ after → ∃ br₀, KeptAs before br₀ ∧ br₀.Extends br

/-- The sessions a longer one began with. -/
theorem KeptSince.concat {br' : Branch} (h : KeptSince log br) {o : Outcome}
    (hkept : KeptAs (log ++ [o]) br') (hextends : br.Extends br') :
    KeptSince (log ++ [o]) br' := by
  refine ⟨hkept, fun before after hlog => ?_⟩
  rcases List.eq_nil_or_concat after with rfl | ⟨after, o', rfl⟩
  · rw [List.append_nil] at hlog
    exact ⟨br', hlog ▸ hkept, .refl br'⟩
  · rw [List.concat_eq_append, ← List.append_assoc] at hlog
    obtain ⟨hinit, -⟩ := List.append_inj' hlog rfl
    obtain ⟨br₀, hbr₀, hearlier⟩ := h.earlier before after hinit
    exact ⟨br₀, hbr₀, hearlier.trans hextends⟩

/-- **The branch of a session** of safe registrations that is never stopped within a record.
Induction along the session. -/
theorem Session.branch (h : Session crypt (safeRegistration crypt) settled log d)
    (hcount : (registrations log : ℤ) < intMax) : ∃ br, KeptSince log br := by
  induction h with
  | start =>
      refine ⟨_, keptAs_start, fun before after hlog => ?_⟩
      obtain ⟨rfl, -⟩ := List.append_eq_nil_iff.mp hlog.symm
      exact ⟨_, keptAs_start, .refl _⟩
  | @finish log d e response h he hr ih =>
      have hlt : (registrations log : ℤ) < intMax := by
        rw [registrations_append] at hcount
        push_cast at hcount
        omega
      obtain ⟨br, hbr⟩ := ih hlt
      obtain ⟨t, hled, hbound⟩ := h.ledger hlt
      have hset := Event.settled_of_result hled (h.disk_eq ▸ hled.holds)
        (counter_lt_of_counterD_le hbound hlt) hr
      obtain ⟨br', hkept, hextends⟩ := hbr.kept.step h hlt he ((e.proc crypt).ops d).length response
        (by rwa [List.take_length])
      rw [List.take_length] at hkept
      exact ⟨br', hbr.concat hkept hextends⟩
  | @stop log d e h he n hn ih =>
      have hlt : (registrations log : ℤ) < intMax := by
        rw [registrations_append] at hcount
        push_cast at hcount
        omega
      obtain ⟨br, hbr⟩ := ih hlt
      obtain ⟨br', hkept, hextends⟩ := hbr.kept.step h hlt he n none hn
      exact ⟨br', hbr.concat hkept hextends⟩

/-- The rows a run wrote, which are all its tables hold, are those of a branch whose customers have
safe rows. -/
structure StoredAs (log : List Served) (d : Disk) (br : Branch) : Prop where
  users : insertedRows .user (operations log) = br.userRows
  accounts : insertedRows .account (operations log) = br.openRows
  usersText : (d.table .user).getD [] = linesText (br.userRows.map rowText)
  accountsText : (d.table .account).getD [] = linesText (br.openRows.map rowText)
  safe : br.Safe

/-- The tables of a run hold the rows it wrote. -/
theorem KeptAs.storedAs {served : List Served} {d : Disk} (h : KeptAs log br)
    (hrun : ServerRun crypt (safeRequest crypt) settled served d)
    (hperformed : performed log = operations served) : StoredAs served d br := by
  have husers := hperformed ▸ h.users
  have haccounts := hperformed ▸ h.accounts
  refine ⟨husers, haccounts, ?_, ?_, h.safe⟩
  · rw [table_of_run (by decide) hrun, husers]
    rfl
  · rw [table_of_run (by decide) hrun, haccounts]
    rfl

/-- **Every account has its owner.** A run of the server whose requests to register are safe, with
any stops outside of records, writes the rows of a branch: users with different emails, and
accounts each of which belongs to one of them and no two to the same. -/
theorem accounts_owned {log : List Served} {d : Disk}
    (h : ServerRun crypt (safeRequest crypt) settled log d)
    (hcount : (registered log : ℤ) < intMax) : ∃ br, StoredAs log d br := by
  obtain ⟨slog, hsession, hall, -⟩ := h.session safeRequest_call
  obtain ⟨br, hbr⟩ := hsession.branch (by rwa [registrations_eq hall])
  exact ⟨br, hbr.kept.storedAs h (performed_eq_operations (ServerRun.silent h) hall)⟩

/-- A start-up, and Ann's registration stopped between her user and her account. -/
def stoppedAnn : List Served :=
  [ServerEvent.startUp.served Disk.empty,
    ⟨.serve annEnv annPost, ((ServerEvent.serve annEnv annPost).proc.ops startedDisk).take 5, none⟩]

theorem serverRun_stoppedAnn : ServerRun id (safeRequest id) settled stoppedAnn
    ((ServerEvent.serve annEnv annPost).proc.stopped startedDisk 5) := by
  have hempty : ServerRun id (safeRequest id) settled [] Disk.empty := .start
  have hstarted : ServerRun id (safeRequest id) settled [ServerEvent.startUp.served Disk.empty]
      startedDisk := hempty.finish_of_isSome (e := ServerEvent.startUp)
    ⟨safeRequest_startUp _, trivial⟩ (by decide +kernel)
  refine Runs.stop hstarted (e := ServerEvent.serve annEnv annPost) ⟨safeRequest_ann, rfl⟩ 5 ?_
  rw [ServerEvent.proc, (passResponses_registers registration_annPost).1]
  have hset : settled (((sampleRegister.proc id).ops startedDisk).take 5) := by decide +kernel
  rw [sampleRegister, Event.proc, Proc.ops_bind_pure] at hset
  exact hset

/-- The tables after the stop. -/
theorem accounts_owned_ann : ∃ br, StoredAs stoppedAnn
    ((ServerEvent.serve annEnv annPost).proc.stopped startedDisk 5) br := by
  have hcount : (registered stoppedAnn : ℤ) < intMax := by
    have hle : registered stoppedAnn ≤ 2 := List.countP_le_length
    exact (Int.ofNat_le.mpr hle).trans_lt (by decide)
  exact accounts_owned serverRun_stoppedAnn hcount

/-- **Nothing makes up for a stop.** In such a run, cut anywhere, the rows written up to the end are
those of a branch that extends the branch of the rows up to the cut: a customer keeps the number,
and has no other accounts than at the cut. Who was left without an account never gets one. -/
theorem accounts_never_made_up {before after : List Served} {d : Disk}
    (h : ServerRun crypt (safeRequest crypt) settled (before ++ after) d)
    (hcount : (registered (before ++ after) : ℤ) < intMax) :
    ∃ (m : Disk) (br br' : Branch), ServerRun crypt (safeRequest crypt) settled before m ∧
      StoredAs before m br ∧ StoredAs (before ++ after) d br' ∧
      ∀ (n : ℕ) (c : Customer), br.customers[n]? = some c → br'.customers[n]? = some c ∧
        ∀ a : OpenAccount, a.owner = n → (a ∈ br'.accounts ↔ a ∈ br.accounts) := by
  obtain ⟨slog, hsession, hall, -⟩ := h.session safeRequest_call
  obtain ⟨br', hbr'⟩ := hsession.branch (by rwa [registrations_eq hall])
  obtain ⟨m, hbefore, -⟩ := h.split
  -- the part of the session that the run up to the cut performed
  set count := (before.filter fun served => served.event.writes).length with hlength
  have hfirst := List.forall₂_take count hall
  rw [List.filter_append, hlength, List.take_left, ← hlength] at hfirst
  have hperformed : performed (slog.take count) = operations before :=
    performed_eq_operations (ServerRun.silent hbefore) hfirst
  obtain ⟨br, hbr, hextends⟩ := hbr'.earlier _ _ (List.take_append_drop count slog).symm
  exact ⟨m, br, br', hbefore, hbr.storedAs hbefore hperformed,
    hbr'.kept.storedAs h (performed_eq_operations (ServerRun.silent h) hall),
    fun n c hn => hextends.same_customer hn⟩

/-- The disk after the stop. -/
def stoppedAnnDisk : Disk := (makeNewUser id sampleEnv samplePayload).stopped startedDisk 5

theorem stopped_annPost :
    (ServerEvent.serve annEnv annPost).proc.stopped startedDisk 5 = stoppedAnnDisk := by
  rw [Proc.stopped, ServerEvent.proc, (passResponses_registers registration_annPost).1]
  rfl

/-- Ann registers again: her email is known. -/
theorem isSome_annPost_again :
    ((ServerEvent.serve annEnv annPost).proc.result stoppedAnnDisk).isSome := by
  have hmade : ((sampleRegister.proc id).result stoppedAnnDisk).isSome := by decide +kernel
  exact isSome_result_of_registration registration_annPost hmade

theorem safeRequest_annPost_again :
    safeRequest id stoppedAnnDisk (.serve annEnv annPost) := by
  intro call hcall
  rw [ServerEvent.call, registration_annPost, Option.map_some, Option.some.injEq] at hcall
  subst hcall
  intro id hid
  have hnext : (getNextIdentity .user).result stoppedAnnDisk = some (lit "1") := by decide +kernel
  rw [hnext, Option.some.injEq] at hid
  subst hid
  exact ⟨by decide +kernel, by decide +kernel, by decide +kernel, by decide +kernel⟩

/-- Ann was stopped before she had an account, and does not get one by registering again. -/
theorem accounts_never_made_up_ann :
    ∃ (m : Disk) (br br' : Branch), ServerRun id (safeRequest id) settled stoppedAnn m ∧
      StoredAs stoppedAnn m br ∧
      StoredAs (stoppedAnn ++ [(ServerEvent.serve annEnv annPost).served stoppedAnnDisk])
        ((ServerEvent.serve annEnv annPost).proc.after stoppedAnnDisk) br' ∧
      ∀ (n : ℕ) (c : Customer), br.customers[n]? = some c → br'.customers[n]? = some c ∧
        ∀ a : OpenAccount, a.owner = n → (a ∈ br'.accounts ↔ a ∈ br.accounts) := by
  have hstopped := serverRun_stoppedAnn
  rw [stopped_annPost] at hstopped
  have hrun := hstopped.finish_of_isSome ⟨safeRequest_annPost_again, rfl⟩ isSome_annPost_again
  refine accounts_never_made_up hrun ?_
  exact (Int.ofNat_le.mpr List.countP_le_length).trans_lt (by decide)

end CBank
