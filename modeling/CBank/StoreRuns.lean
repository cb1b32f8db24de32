import CBank.ServerRuns
import CBank.UserTable

/-!
# The Stores Along a Run

What a run of the server does to its tables, and what in it leaves no trace. A table other than the
tracker only gets rows at its end, so a query that returned some rows returns them again, in the
same order, before any others. Requests that register nobody change nothing, and neither does a
start-up after the first one, as long as no stop falls within a record.

## Main results

* `tables_only_grow`: what a later query returns.
* `idle_unobservable`: dropping a request that registers nobody, or a restart, from a run.
-/

namespace CBank

open CLib

/-! ### What is added to a table -/

variable {s : Store}

/-- An insert only adds a row. -/
theorem onlyRows_insertQueryExecutor (s : Store) (q : InsertQuery) :
    (insertQueryExecutor q).Within (FileOp.OnlyRows s) := by
  have hinsert : (FileOp.insert q.table q.insertPair).OnlyRows s := fun htarget =>
    Or.inr ⟨q.insertPair, congrArg (FileOp.insert · q.insertPair) (Option.some.inj htarget)⟩
  rw [insertQueryExecutor]
  split
  · exact Proc.within_pure _
  · exact (Proc.within_perform hinsert).bind fun _ => Proc.within_pure _

theorem onlyRows_updtNextIdentity (hs : s ≠ .idTracker) (s' : Store) :
    (updtNextIdentity s').Within (FileOp.OnlyRows s) :=
  (within_updtNextIdentity hs s').imp fun _ h => FileOp.onlyRows_of_not_target h

theorem onlyRows_makeNewAccount (hs : s ≠ .idTracker) (scratch : AccScratch) (createdAt : Bytes)
    (user : BankUser) : (makeNewAccount scratch createdAt user).Within (FileOp.OnlyRows s) := by
  refine Proc.Within.bind (Proc.within_read _) fun nextId => ?_
  refine (onlyRows_insertQueryExecutor s _).bind fun _ => ?_
  refine Proc.Within.bind (Proc.within_read _) fun account => ?_
  exact (onlyRows_updtNextIdentity hs _).bind fun _ => Proc.within_pure _

/-- A registration only adds rows to a table. -/
theorem onlyRows_makeNewUser (hs : s ≠ .idTracker) (crypt : Bytes → Bytes) (env : CallEnv)
    (payload : CreateUserDTO) : (makeNewUser crypt env payload).Within (FileOp.OnlyRows s) := by
  refine Proc.Within.bind (Proc.within_read _) fun registered => ?_
  split
  · exact Proc.within_pure _
  · refine Proc.Within.bind (Proc.within_read _) fun nextId => ?_
    refine (onlyRows_insertQueryExecutor s _).bind fun _ => ?_
    refine (onlyRows_updtNextIdentity hs _).bind fun _ => ?_
    refine Proc.Within.bind (Proc.within_read _) fun user => ?_
    exact (onlyRows_makeNewAccount hs _ _ _).bind fun _ => Proc.within_pure _

/-- A start-up only creates a table. -/
theorem onlyRows_setupStores (hs : s ≠ .idTracker) :
    setupStores.Within (FileOp.OnlyRows s) := by
  have hcreate : ∀ s', (FileOp.create s').OnlyRows s := fun s' htarget =>
    Or.inl (congrArg FileOp.create (Option.some.inj htarget))
  have hinit : ∀ s', (initializeIdTrackerIfNeeded s').Within (FileOp.OnlyRows s) := fun s' =>
    (within_initializeIdTracker hs s').imp fun _ h => FileOp.onlyRows_of_not_target h
  refine (Proc.within_perform (hcreate _)).bind fun _ => ?_
  refine (Proc.within_perform (hcreate _)).bind fun _ => ?_
  refine (Proc.within_perform (hcreate _)).bind fun _ => ?_
  refine (Proc.within_perform (hcreate _)).bind fun _ => ?_
  exact (hinit _).bind fun _ => (hinit _).bind fun _ => hinit _

/-- **What the server does to a table**: it only adds rows. -/
theorem ServerEvent.onlyRows (hs : s ≠ .idTracker) (event : ServerEvent) :
    event.proc.Within (FileOp.OnlyRows s) := by
  cases event with
  | startUp => exact (onlyRows_setupStores hs).bind fun _ => Proc.within_pure _
  | serve e received =>
      intro d op hop
      cases hreg : registration e received with
      | none =>
          rw [ServerEvent.proc, passResponses_silent hreg] at hop
          exact absurd hop List.not_mem_nil
      | some payload =>
          rw [ServerEvent.proc, (passResponses_registers hreg).1] at hop
          exact onlyRows_makeNewUser hs _ _ _ d op hop

/-- Nothing is inserted into the table of transactions. -/
theorem no_transactions_makeNewUser (crypt : Bytes → Bytes) (env : CallEnv)
    (payload : CreateUserDTO) :
    (makeNewUser crypt env payload).Within fun op => op.target ≠ some .transaction := by
  have hupdt := within_updtNextIdentity (s := .transaction) (by decide)
  refine Proc.Within.bind (Proc.within_read _) fun registered => ?_
  split
  · exact Proc.within_pure _
  · refine Proc.Within.bind (Proc.within_read _) fun nextId => ?_
    refine Proc.Within.bind (within_insertQueryExecutor (by simp [userInsert])) fun _ => ?_
    refine (hupdt _).bind fun _ => Proc.Within.bind (Proc.within_read _) fun user => ?_
    refine Proc.Within.bind ?_ fun _ => Proc.within_pure _
    refine Proc.Within.bind (Proc.within_read _) fun nextId => ?_
    refine Proc.Within.bind (within_insertQueryExecutor (by simp [accountInsert])) fun _ => ?_
    exact Proc.Within.bind (Proc.within_read _) fun account =>
      (hupdt _).bind fun _ => Proc.within_pure _

theorem no_transactions_setupStores : setupStores.Within fun op =>
    op.target ≠ some .transaction ∨ op = .create .transaction := by
  have hinit : ∀ s', (initializeIdTrackerIfNeeded s').Within fun op =>
      op.target ≠ some .transaction ∨ op = .create .transaction := fun s' =>
    (within_initializeIdTracker (by decide) s').imp fun _ h => Or.inl h
  have hcreate : ∀ s', (Proc.perform (.create s') : Proc Disk FileOp Unit).Within fun op =>
      op.target ≠ some .transaction ∨ op = .create .transaction := by
    intro s'
    refine Proc.within_perform ?_
    cases s' <;> simp [FileOp.target]
  refine (hcreate _).bind fun _ => (hcreate _).bind fun _ => (hcreate _).bind fun _ => ?_
  exact (hcreate _).bind fun _ => (hinit _).bind fun _ => (hinit _).bind fun _ => hinit _

theorem ServerEvent.no_transactions (event : ServerEvent) : event.proc.Within fun op =>
    op.target ≠ some .transaction ∨ op = .create .transaction := by
  cases event with
  | startUp => exact no_transactions_setupStores.bind fun _ => Proc.within_pure _
  | serve e received =>
      intro d op hop
      cases hreg : registration e received with
      | none =>
          rw [ServerEvent.proc, passResponses_silent hreg] at hop
          exact absurd hop List.not_mem_nil
      | some payload =>
          rw [ServerEvent.proc, (passResponses_registers hreg).1] at hop
          exact Or.inl (no_transactions_makeNewUser _ _ _ d op hop)

variable {crypt : Bytes → Bytes} {canServe : Disk → ServerEvent → Prop}
  {canStop : List FileOp → Prop} {d : Disk}

/-- What every event only performs, a run from any state only performs. -/
theorem operations_of_within {P : FileOp → Prop} (hP : ∀ event : ServerEvent, event.proc.Within P)
    {start : Disk} {canRun : Disk → ServerEvent → Prop} {log : List Served}
    (h : Runs ServerEvent.proc canRun canStop start log d) : ∀ op ∈ operations log, P op := by
  intro op hop
  obtain ⟨served, hserved, hop⟩ := List.mem_flatMap.mp hop
  obtain ⟨before, after, m, -, hcalled⟩ := h.exists_called hserved
  obtain ⟨n, hops⟩ := hcalled.ops
  rw [hops] at hop
  exact hP served.event m op (List.mem_of_mem_take hop)

/-- **A table over a part of a run**: what it held, and the rows of that part. -/
theorem table_of_run (hs : s ≠ .idTracker) {start : Disk} {canRun : Disk → ServerEvent → Prop}
    {log : List Served} (h : Runs ServerEvent.proc canRun canStop start log d) :
    (d.table s).getD [] = (start.table s).getD [] ++
      linesText ((insertedRows s (operations log)).map rowText) := by
  rw [h.state_eq]
  exact table_execAll (operations_of_within (ServerEvent.onlyRows hs) h) start

/-- Nothing is ever in the table of transactions. -/
theorem transactions_of_run {log : List Served} (h : ServerRun crypt canServe canStop log d) :
    (d.table .transaction).getD [] = [] := by
  have hnone : insertedRows .transaction (operations log) = [] := by
    rw [insertedRows, List.filterMap_eq_nil_iff]
    intro op hop
    rcases operations_of_within ServerEvent.no_transactions h op hop with hne | rfl
    · have hnil : insertedRows .transaction [op] = [] :=
        insertedRows_of_not_target (by simpa using hne)
      exact List.filterMap_eq_nil_iff.mp hnil op List.mem_cons_self
    · rfl
  rw [table_of_run (by decide) h, hnone]
  rfl

/-- What a query keeps of a text of whole lines, and of the rows behind it. -/
theorem matchedRows_append {text : Bytes} (hend : EndsInNewline newline text) (more : Bytes)
    (q : SelectQuery) :
    matchedRows q (text ++ more) = matchedRows q text ++ matchedRows q more := by
  rw [matchedRows, tableLines, fileLines_append hend, List.filter_append, List.map_append]
  rfl

/-- **What has once been returned is returned again.** In a run cut anywhere, with any requests
and any stops, a table other than the tracker holds what it held and the rows written since. A
query that is answered before and after returns the rows it returned, under the same names, and
then those it finds among the new ones. -/
theorem tables_only_grow {before after : List Served}
    (h : ServerRun crypt anyRequest canStop (before ++ after) d) :
    ∃ m, ServerRun crypt anyRequest canStop before m ∧ (d.table .transaction).getD [] = [] ∧
      ∀ s ≠ .idTracker,
        (d.table s).getD [] = (m.table s).getD [] ++
          linesText ((insertedRows s (operations after)).map rowText) ∧
        ∀ q rs rs', selectExecutor q (m.table s) = some rs →
          selectExecutor q (d.table s) = some rs' →
            rs.data <+: rs'.data ∧ (rs.data ≠ [] → rs'.columnOrder = rs.columnOrder) := by
  obtain ⟨m, hbefore, hafter⟩ := h.split
  refine ⟨m, hbefore, transactions_of_run h, fun s hs => ⟨table_of_run hs hafter, ?_⟩⟩
  intro q rs rs' hrs hrs'
  obtain ⟨text, htext, hselect⟩ := Option.bind_eq_some_iff.mp hrs
  obtain ⟨text', htext', hselect'⟩ := Option.bind_eq_some_iff.mp hrs'
  have hrs : selectExecutor q (some text) = some rs := hselect
  have hrs' : selectExecutor q (some text') = some rs' := hselect'
  obtain ⟨rfl, -, -⟩ := selectExecutor_eq_some_iff.mp hrs
  obtain ⟨rfl, -, -⟩ := selectExecutor_eq_some_iff.mp hrs'
  have hold : text = linesText ((insertedRows s (operations before)).map rowText) := by
    have hm := table_of_run hs hbefore
    rw [htext] at hm
    exact hm
  have hnew : text' = text ++ linesText ((insertedRows s (operations after)).map rowText) := by
    have hd := table_of_run hs hafter
    rw [htext, htext'] at hd
    exact hd
  have hrows : matchedRows q text' = matchedRows q text ++
      matchedRows q (linesText ((insertedRows s (operations after)).map rowText)) := by
    rw [hnew]
    exact matchedRows_append (hold ▸ endsInNewline_linesText _) _ q
  rw [hrows]
  constructor
  · rw [ResultSet.ofRows, ResultSet.ofRows, List.map_append]
    exact List.prefix_append _ _
  · intro hne
    have hrowsNe : matchedRows q text ≠ [] := fun hnil => hne (by rw [hnil]; rfl)
    rw [ResultSet.ofRows, ResultSet.ofRows, List.head?_append_of_ne_nil _ hrowsNe]

/-- Ann's run, cut after the start-up. -/
theorem tables_only_grow_ann :
    ∃ m, ServerRun id anyRequest neverStopped [ServerEvent.startUp.served Disk.empty] m ∧
      ((diskAfter Disk.empty annEvents).table .transaction).getD [] = [] ∧
      ∀ s ≠ .idTracker,
        ((diskAfter Disk.empty annEvents).table s).getD [] = (m.table s).getD [] ++
          linesText ((insertedRows s (operations (servedAll startedDisk
            [.serve annEnv strayRequest, .serve annEnv annPost]))).map rowText) ∧
        ∀ q rs rs', selectExecutor q (m.table s) = some rs →
          selectExecutor q ((diskAfter Disk.empty annEvents).table s) = some rs' →
            rs.data <+: rs'.data ∧ (rs.data ≠ [] → rs'.columnOrder = rs.columnOrder) :=
  tables_only_grow (serverRun_ann trivial trivial trivial)

/-! ### What start-up has made -/

theorem addOp_injective {s s' : Store} (h : addOp s = addOp s') : s = s' := by
  cases s <;> cases s' <;> first | rfl | exact absurd h (by decide)

/-- **A counter exists once it was added.** -/
theorem Ledger.counter_ne_none_iff {ops : List FileOp} {t : Tracker} (h : Ledger ops t)
    {s : Store} : t.counter s ≠ none ↔ addOp s ∈ ops := by
  induction h with
  | start => simp [Tracker.counter, Tracker.empty]
  | create h s' ih => simp [ih, addOp]
  | @add ops t s' h hs ih =>
      rw [Tracker.counter_add, List.mem_append, List.mem_singleton]
      by_cases heq : s = s'
      · simp [heq]
      · rw [if_neg heq, ih, or_iff_left fun hop => heq (addOp_injective hop)]
  | @record ops t s' n row h hs hn hlt hrow ih =>
      have hadvance : (t.advance s').counter s ≠ none ↔ t.counter s ≠ none := by
        rw [Tracker.counter_advance]
        split <;> simp
      rw [hadvance, ih]
      simp [addOp, replaceOps]

/-- A file exists once it was created. -/
theorem Ledger.isSome_table {ops : List FileOp} {t : Tracker} (h : Ledger ops t) {s : Store}
    (hs : .create s ∈ ops) : ((Proc.execAll Disk.empty ops).table s).isSome := by
  induction h with
  | start => exact absurd hs List.not_mem_nil
  | @create ops t h s' ih =>
      rw [Proc.execAll_append]
      by_cases heq : s = s'
      · simp [FileOp.exec, heq]
      · have hold : FileOp.create s ∈ ops := by simpa [heq] using hs
        simpa [FileOp.exec, Disk.put_table_of_ne _ heq] using ih hold
  | @add ops t s' h hs' ih =>
      have hold : FileOp.create s ∈ ops := by simpa [addOp] using hs
      rw [Proc.execAll_append]
      by_cases heq : s = .idTracker
      · simp [addOp, FileOp.exec, heq]
      · simpa [addOp, FileOp.exec, Disk.put_table_of_ne _ heq] using ih hold
  | @record ops t s' n row h hs' hn hlt hrow ih =>
      have hold : FileOp.create s ∈ ops := by simpa [replaceOps] using hs
      rw [Proc.execAll_append]
      by_cases heq : s = .idTracker
      · simp [replaceOps, FileOp.exec, heq]
      · have hrest : ∀ d : Disk, (Proc.execAll d (replaceOps (t.advance s'))).table s =
            d.table s := by
          intro d
          simp [replaceOps, FileOp.exec, Disk.put_table_of_ne _ heq]
        rw [Proc.execAll_cons, hrest, exec_eq]
        by_cases hrow : s = s'
        · simp [FileOp.exec, hrow]
        · simpa [FileOp.exec, Disk.put_table_of_ne _ hrow] using ih hold

/-- Creating a file that exists changes nothing. -/
theorem exec_create_of_isSome {d : Disk} {s : Store} (h : (d.table s).isSome) :
    (FileOp.create s).exec d = d := by
  obtain ⟨text, htext⟩ := Option.isSome_iff_exists.mp h
  have hsame : some ((d.table s).getD []) = d.table s := by rw [htext, Option.getD_some]
  rw [FileOp.exec, Disk.put, hsame, Function.update_eq_self]

/-- The stores start-up makes sure of: every file, and the three counters. -/
structure StartedUp (d : Disk) (t : Tracker) : Prop where
  holds : d.Holds t
  small : t.Small
  files : ∀ s, (d.table s).isSome
  counters : ∀ s ≠ .idTracker, s ∈ t.entries.map TrackerEntry.store

/-- **A start-up on them changes nothing**, up to any of its operations. -/
theorem StartedUp.stopped_setup {t : Tracker} (h : StartedUp d t) (n : ℕ) :
    setupStores.stopped d n = d := by
  have hensure : ∀ s ≠ .idTracker, ensureOps t s = [] ∧ t.ensure s = t := fun s hs =>
    ⟨if_pos (h.counters s hs), dif_pos (h.counters s hs)⟩
  have hops : setupStores.ops d = [.create .idTracker, .create .user, .create .account,
      .create .transaction] := by
    rw [(setupStores_spec h.holds h.small).1, setupOps, (hensure .user (by decide)).2,
      (hensure .user (by decide)).1, (hensure .transaction (by decide)).2,
      (hensure .transaction (by decide)).1, (hensure .account (by decide)).1]
    rfl
  have hcreate : ∀ ops : List FileOp, (∀ op ∈ ops, ∃ s, op = .create s) →
      Proc.execAll d ops = d := by
    intro ops hall
    induction ops with
    | nil => rfl
    | cons op ops ih =>
        obtain ⟨s, rfl⟩ := hall op List.mem_cons_self
        rw [Proc.execAll_cons, exec_eq, exec_create_of_isSome (h.files s)]
        exact ih fun op hop => hall op (List.mem_cons_of_mem _ hop)
  rw [Proc.stopped, hops]
  refine hcreate _ fun op hop => ?_
  have hmem := List.mem_of_mem_take hop
  simp only [List.mem_cons, List.not_mem_nil, or_false] at hmem
  rcases hmem with rfl | rfl | rfl | rfl <;> exact ⟨_, rfl⟩

/-! ### What leaves no trace -/

/-- The number of requests that register somebody. -/
def registered (log : List Served) : ℕ :=
  log.countP fun served => served.event.registers.isSome

/-- A registration of the session is a request that registers. -/
theorem Performed.isRegister_eq {served : Served} {o : Outcome} (h : Performed served o) :
    o.isRegister = served.event.registers.isSome := by
  have hcall := h.call
  cases hevent : served.event with
  | startUp =>
      rw [hevent, ServerEvent.call, Option.some.injEq] at hcall
      rw [Outcome.isRegister, ← hcall]
      rfl
  | serve e received =>
      rw [hevent, ServerEvent.call] at hcall
      obtain ⟨payload, hreg, hregister⟩ := Option.map_eq_some_iff.mp hcall
      rw [Outcome.isRegister, ← hregister, ServerEvent.registers, hreg]
      rfl

/-- The registrations of the session are those of the run. -/
theorem registrations_eq {log : List Served} {slog : List Outcome}
    (h : List.Forall₂ Performed (log.filter fun served => served.event.writes) slog) :
    registrations slog = registered log := by
  have hwrites : registered (log.filter fun served => served.event.writes) = registered log := by
    rw [registered, registered, List.countP_filter]
    refine List.countP_congr fun served _ => ?_
    cases served.event with
    | startUp => simp [ServerEvent.registers]
    | serve e received => simp [ServerEvent.registers, ServerEvent.writes]
  rw [← hwrites]
  generalize log.filter (fun served => served.event.writes) = calls at h
  induction h with
  | nil => rfl
  | @cons served o calls slog hperformed _ ih =>
      have hhead := hperformed.isRegister_eq
      rw [registrations, registered] at ih ⊢
      rw [List.countP_cons, List.countP_cons, hhead, ih]

/-- **A run whose stops are settled is a ledger**, and no counter is above the number of requests
that register. -/
theorem ServerRun.ledger {log : List Served} (h : ServerRun crypt canServe settled log d)
    (hcount : (registered log : ℤ) < intMax) :
    ∃ t, Ledger (operations log) t ∧ ∀ s, t.counterD s ≤ registered log := by
  have hcan : ∀ d event c, canServe d event → event.call = some c → anyCall d c :=
    fun _ _ _ _ _ => trivial
  obtain ⟨slog, hsession, hall, hops⟩ := h.session hcan
  have hreg := registrations_eq hall
  rw [hops, ← hreg]
  exact hsession.ledger (hreg ▸ hcount)

/-- A start-up finished. -/
def Started (log : List Served) : Prop :=
  ∃ served ∈ log, served.event = .startUp ∧ served.result.isSome

/-- Start-up creates every file, and makes sure of every counter. -/
theorem mem_setupOps (t : Tracker) {s : Store} : FileOp.create s ∈ setupOps t := by
  cases s <;> simp [setupOps]

theorem mem_entries_ensure (t : Tracker) {s s' : Store}
    (h : s = s' ∨ s ∈ t.entries.map TrackerEntry.store) :
    s ∈ (t.ensure s').entries.map TrackerEntry.store := by
  rw [Tracker.ensure]
  split
  · rename_i hmem
    rcases h with rfl | h
    · exact hmem
    · exact h
  · rcases h with rfl | h
    · simp [Tracker.add]
    · simpa [Tracker.add] using Or.inl h

theorem mem_entries_setup (t : Tracker) {s : Store} (hs : s ≠ .idTracker) :
    s ∈ (((t.ensure .user).ensure .transaction).ensure .account).entries.map
      TrackerEntry.store := by
  have huser := mem_entries_ensure t (s := .user) (.inl rfl)
  have htransaction := mem_entries_ensure (t.ensure .user) (s := .transaction) (.inl rfl)
  cases s with
  | user => exact mem_entries_ensure _ (.inr (mem_entries_ensure _ (.inr huser)))
  | transaction => exact mem_entries_ensure _ (.inr htransaction)
  | account => exact mem_entries_ensure _ (.inl rfl)
  | idTracker => exact absurd rfl hs

/-- **After a start-up that finished, the stores are there for good.** -/
theorem ServerRun.startedUp {log : List Served} (h : ServerRun crypt canServe settled log d)
    (hcount : (registered log : ℤ) < intMax) (hstarted : Started log) : ∃ t, StartedUp d t := by
  obtain ⟨t, hled, -⟩ := h.ledger hcount
  obtain ⟨served, hserved, hevent, hresult⟩ := hstarted
  obtain ⟨before, after, m, rfl, hcalled⟩ := h.exists_called hserved
  obtain ⟨r, hr⟩ := Option.isSome_iff_exists.mp hresult
  have hle : registered before ≤ registered (before ++ served :: after) := by
    rw [registered, registered, List.countP_append]
    exact Nat.le_add_right _ _
  have hrun : ServerRun crypt canServe settled before m := hcalled.run
  obtain ⟨t₀, hled₀, -⟩ := hrun.ledger (by omega)
  have hm : m = Proc.execAll Disk.empty (operations before) := hcalled.run.state_eq
  have hd : d = Proc.execAll Disk.empty (operations (before ++ served :: after)) := h.state_eq
  have hops : served.ops = setupOps t₀ := by
    have hspec := setupStores_spec (hm ▸ hled₀.holds) hled₀.small
    rw [(hcalled.finished r hr).2, hevent, ServerEvent.proc, Proc.ops_bind_pure]
    exact hspec.1
  have hsub : ∀ op ∈ operations before ++ setupOps t₀,
      op ∈ operations (before ++ served :: after) := by
    intro op hop
    rw [← hops] at hop
    rw [operations_append]
    exact List.mem_append.mpr ((List.mem_append.mp hop).imp_right fun h =>
      List.mem_append_left (operations after) h)
  have hfiles : ∀ s, (d.table s).isSome := fun s =>
    hd ▸ hled.isSome_table (hsub _ (List.mem_append_right _ (mem_setupOps t₀)))
  refine ⟨t, hd ▸ hled.holds, hled.small, hfiles, fun s hs => ?_⟩
  have hadded : addOp s ∈ operations before ++ setupOps t₀ := by
    refine hled₀.setup.2.1.counter_ne_none_iff.mp fun hnone => ?_
    exact Tracker.counter_eq_none_iff.mp hnone (mem_entries_setup t₀ hs)
  by_contra hmem
  exact hled.counter_ne_none_iff.mpr (hsub _ hadded) (Tracker.counter_eq_none_iff.mpr hmem)

/-- **What leaves no trace.** A request that registers nobody can be dropped from a run, and so can
a start-up after one that finished, whether it finishes itself or is stopped: what is left is a run
with the same stores, in which all other requests do and answer what they did. -/
theorem idle_unobservable {before after : List Served} {entry : Served}
    (h : ServerRun crypt anyRequest settled (before ++ entry :: after) d)
    (hcount : (registered before : ℤ) < intMax)
    (hidle : entry.event.writes = false ∨ (entry.event = .startUp ∧ Started before)) :
    ServerRun crypt anyRequest settled (before ++ after) d := by
  obtain ⟨m, hcalled, hafter⟩ := h.called
  have hbefore : ServerRun crypt anyRequest settled before m := hcalled.run
  have hsame : Proc.execAll m entry.ops = m := by
    obtain ⟨n, hops⟩ := hcalled.ops
    have hstopped : Proc.execAll m entry.ops = entry.event.proc.stopped m n := by
      rw [hops]
      rfl
    rw [hstopped]
    rcases hidle with hsilent | ⟨hstart, hstarted⟩
    · rw [entry.event.writes_eq, Option.isSome_eq_false_iff, Option.isNone_iff_eq_none] at hsilent
      rw [Proc.stopped, ServerEvent.ops_of_no_call hsilent, List.take_nil]
      rfl
    · obtain ⟨t, ht⟩ := hbefore.startedUp hcount hstarted
      rw [hstart, Proc.stopped, ServerEvent.proc, Proc.ops_bind_pure]
      exact ht.stopped_setup n
  exact hcalled.run.append (hsame ▸ hafter)

/-- Ann's run without the stray request. -/
theorem idle_unobservable_ann :
    ServerRun id anyRequest settled ([ServerEvent.startUp.served Disk.empty] ++
      servedAll startedDisk [.serve annEnv annPost]) (diskAfter Disk.empty annEvents) := by
  have hrun : ServerRun id anyRequest settled ([ServerEvent.startUp.served Disk.empty] ++
      (ServerEvent.serve annEnv strayRequest).served startedDisk ::
        servedAll startedDisk [.serve annEnv annPost]) (diskAfter Disk.empty annEvents) := by
    have hall : ServerRun id anyRequest settled (servedAll Disk.empty annEvents)
      (diskAfter Disk.empty annEvents) := serverRun_ann trivial trivial trivial
    have hafter : (ServerEvent.serve annEnv strayRequest).proc.after startedDisk = startedDisk :=
      after_strayRequest startedDisk
    have hlog : servedAll Disk.empty annEvents = [ServerEvent.startUp.served Disk.empty] ++
        (ServerEvent.serve annEnv strayRequest).served startedDisk ::
          servedAll ((ServerEvent.serve annEnv strayRequest).proc.after startedDisk)
            [.serve annEnv annPost] := rfl
    rw [hlog, hafter] at hall
    exact hall
  exact idle_unobservable hrun (by decide) (Or.inl (by decide +kernel))

end CBank
