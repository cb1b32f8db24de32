import CBank.Session

/-!
# The Ids of Users and Accounts

Which ids a session gives out. Without stops, the k-th registration that succeeds gets the
number k for its user and for its account, and every other call leaves the counters alone.
With stops, ids stay distinct and counters never decrease as long as no stop falls between
the row of a record and the rename of the tracker; a stop there gives one id out twice.

## Main results

* `identity_allocation`: the ids of a session without stops.
* `crash_safe_ids`: the ids of a session with stops outside of records.
* `crash_unsafe_ids`: a stop within a record.
-/

namespace CBank

open CLib

theorem printNat_injective : Function.Injective printNat := by
  intro m n h
  rw [← digitsValue_printNat m, h, digitsValue_printNat]

/-! ### Sessions without stops -/

/-- The user and the account of a call got the id `n`. -/
def Outcome.GaveId (o : Outcome) (n : ℕ) : Prop :=
  insertedIds .user o.ops = [printNat n] ∧ insertedIds .account o.ops = [printNat n]

/-- A registration that finishes gives out the present counters, and raises both. -/
theorem created_spec {crypt : Bytes → Bytes} {env : CallEnv} {payload : CreateUserDTO}
    {ops l : List FileOp} {t : Tracker} {r : MakeNewUserResponse} (h : Ledger ops t)
    (hlt : ∀ s n, t.counter s = some n → (n : ℤ) < intMax)
    (hl : MakeNewUserSteps crypt env payload t l (some r)) (hr : r.success = true) :
    ∃ n a, t.counter .user = some n ∧ t.counter .account = some a ∧
      Ledger (ops ++ l) ((t.advance .user).advance .account) ∧
      insertedIds .user l = [printNat n] ∧ insertedIds .account l = [printNat a] := by
  cases hl with
  | rejected hr' => rw [hr] at hr'; exact Bool.noConfusion hr'
  | @created n a r hn ha hr =>
      refine ⟨n, a, hn, ha, ?_, ?_, ?_⟩
      · have hacc : (t.advance .user).counter .account = some a := by
          rw [Tracker.counter_advance, if_neg (by simp), ha]
        rw [← List.append_assoc]
        exact (h.record_whole (by simp) hn (hlt _ _ hn) (lookup_userRow _ _ _ _)).record_whole
          (by simp) hacc (hlt _ _ ha) (lookup_accountRow _ _ _)
      · rw [insertedIds_append, insertedIds_recordOps, insertedIds_recordOps, lookup_userRow]
        rfl
      · rw [insertedIds_append, insertedIds_recordOps, insertedIds_recordOps, lookup_accountRow]
        rfl

/-- A registration that finishes raises the counters of users and accounts. -/
theorem Tracker.counterD_created {t : Tracker} {n a : ℕ} (hn : t.counter .user = some n)
    (ha : t.counter .account = some a) (s : Store) :
    ((t.advance .user).advance .account).counterD s =
      t.counterD s + if s = .user ∨ s = .account then 1 else 0 := by
  simp only [Tracker.counterD, Tracker.counter_advance]
  cases s with
  | user => simp [hn]
  | account => simp [ha]
  | idTracker => simp
  | transaction => simp

/-- One more registration, with the next id. -/
theorem gaveId_concat {log : List Outcome} {o : Outcome}
    (h : ∀ (k : ℕ) (o : Outcome), log[k]? = some o → o.GaveId k) (ho : o.GaveId log.length) (k : ℕ)
    (o' : Outcome) (ho' : (log ++ [o])[k]? = some o') : o'.GaveId k := by
  rcases lt_trichotomy k log.length with hk | rfl | hk
  · rw [List.getElem?_append_left hk] at ho'
    exact h k o' ho'
  · rw [List.getElem?_append_right le_rfl, Nat.sub_self] at ho'
    obtain rfl := Option.some.inj ho'
    exact ho
  · rw [List.getElem?_eq_none (by simp; omega)] at ho'
    simp at ho'

/-- **The invariant of a session without stops**: it is a ledger whose user and account
counters are the number of successful registrations, and the k-th of these got the id k. -/
structure Allocated (log : List Outcome) (t : Tracker) : Prop where
  ledger : Ledger (performed log) t
  bound : ∀ s, t.counterD s ≤ (accepted log).length
  user : t.counterD .user = (accepted log).length
  account : t.counterD .account = (accepted log).length
  ids : ∀ (k : ℕ) (o : Outcome), (accepted log)[k]? = some o → o.GaveId k

variable {log : List Outcome} {t : Tracker} {crypt : Bytes → Bytes} {env : CallEnv}
  {payload : CreateUserDTO} {l : List FileOp} {r : MakeNewUserResponse}

theorem allocated_start : Allocated [] Tracker.empty where
  ledger := .start
  bound s := by simp [Tracker.counterD, Tracker.counter, Tracker.empty, accepted]
  user := rfl
  account := rfl
  ids k o ho := by simp [accepted] at ho

/-- A start-up keeps the counters. -/
theorem Allocated.setup (h : Allocated log t) : Allocated (log ++ [⟨.setup, setupOps t, none⟩])
    (((t.ensure .user).ensure .transaction).ensure .account) := by
  obtain ⟨-, hled, hext⟩ := h.ledger.setup
  have haccepted : accepted (log ++ [⟨.setup, setupOps t, none⟩]) = accepted log := by
    rw [accepted_append]
    exact List.append_nil _
  refine ⟨by rw [performed_append]; exact hled, fun s => ?_, ?_, ?_, haccepted ▸ h.ids⟩
  · rw [hext.counterD_eq, haccepted]
    exact h.bound s
  · rw [hext.counterD_eq, haccepted, h.user]
  · rw [hext.counterD_eq, haccepted, h.account]

/-- A registration that succeeds gets the next id, and raises both counters. -/
theorem Allocated.created (h : Allocated log t)
    (hlt : ∀ s n, t.counter s = some n → (n : ℤ) < intMax)
    (hsteps : MakeNewUserSteps crypt env payload t l (some r)) (hr : r.success = true) :
    Allocated (log ++ [⟨.register env payload, l, some r⟩])
      ((t.advance .user).advance .account) := by
  obtain ⟨n, a, hn, ha, hled, hidu, hida⟩ := created_spec h.ledger hlt hsteps hr
  have hout : (⟨.register env payload, l, some r⟩ : Outcome).accepted = true := hr
  have hnu : n = (accepted log).length := by
    have huser := h.user
    rw [Tracker.counterD, hn] at huser
    exact_mod_cast huser
  have hna : a = (accepted log).length := by
    have hacc := h.account
    rw [Tracker.counterD, ha] at hacc
    exact_mod_cast hacc
  have hraised := Tracker.counterD_created hn ha
  have haccepted : accepted (log ++ [⟨.register env payload, l, some r⟩]) =
      accepted log ++ [⟨.register env payload, l, some r⟩] := by
    rw [accepted_append, if_pos hout]
  have hlen : (accepted (log ++ [⟨.register env payload, l, some r⟩])).length =
      (accepted log).length + 1 := by
    rw [haccepted, List.length_append, List.length_singleton]
  refine ⟨by rw [performed_append]; exact hled, fun s => ?_, ?_, ?_, ?_⟩
  · have hs := h.bound s
    rw [hraised, hlen]
    push_cast
    split <;> omega
  · rw [hraised, hlen, h.user]
    simp
  · rw [hraised, hlen, h.account]
    simp
  · rw [haccepted]
    exact gaveId_concat h.ids ⟨hnu ▸ hidu, hna ▸ hida⟩

/-- A registration that is rejected changes nothing. -/
theorem Allocated.rejected (h : Allocated log t)
    (hsteps : MakeNewUserSteps crypt env payload t l (some r)) (hr : ¬ r.success = true) :
    Allocated (log ++ [⟨.register env payload, l, some r⟩]) t := by
  have hout : ¬ (⟨.register env payload, l, some r⟩ : Outcome).accepted = true := hr
  have haccepted : accepted (log ++ [⟨.register env payload, l, some r⟩]) = accepted log := by
    rw [accepted_append, if_neg hout, List.append_nil]
  have hperformed : performed (log ++ [⟨.register env payload, l, some r⟩]) = performed log := by
    rw [performed_append, hsteps.ops_eq_nil hr, List.append_nil]
  exact ⟨hperformed ▸ h.ledger, haccepted ▸ h.bound, haccepted ▸ h.user, haccepted ▸ h.account,
    haccepted ▸ h.ids⟩

/-- **Every session without stops keeps it.** Induction along the session. -/
theorem Session.allocation {canRun : Disk → Event → Prop} {d : Disk}
    (h : Session crypt canRun neverStopped log d)
    (hcount : ((accepted log).length : ℤ) < intMax) : ∃ t, Allocated log t := by
  induction h with
  | start => exact ⟨_, allocated_start⟩
  | stop h he n hn => exact absurd hn id
  | @finish log d e r h he hr ih =>
      have hle : (accepted log).length ≤
          (accepted (log ++ [⟨e, (e.proc crypt).ops d, r⟩])).length := by
        rw [accepted_append, List.length_append]
        omega
      obtain ⟨t, hall⟩ := ih (by omega)
      have hholds : d.Holds t := h.disk_eq ▸ hall.ledger.holds
      have hlt := counter_lt_of_counterD_le hall.bound (by omega)
      rcases e.proc_cases crypt hholds hall.ledger.small hlt with
        ⟨rfl, hperf⟩ | ⟨env, payload, l, r', rfl, hperf, hsteps⟩
      · rw [hperf.2, Option.some.injEq] at hr
        subst hr
        rw [hperf.1]
        exact ⟨_, hall.setup⟩
      · rw [hperf.2] at hr
        obtain ⟨r', rfl, rfl⟩ := Option.map_eq_some_iff.mp hr
        rw [hperf.1]
        by_cases hsuccess : r'.success = true
        · exact ⟨_, hall.created hlt hsteps hsuccess⟩
        · exact ⟨_, hall.rejected hsteps hsuccess⟩

/-- **Identity allocation.** In a session without stops in which fewer than 2^31 - 1 users are
created, the k-th registration that succeeds gets the user id k and the account id k; a
rejected registration or a restart, in any state reached, leaves every counter as it was; and
advancing one counter leaves all others as they were. -/
theorem identity_allocation {crypt : Bytes → Bytes} {log : List Outcome} {d : Disk}
    (h : Session crypt anyCall neverStopped log d)
    (hcount : ((accepted log).length : ℤ) < intMax) :
    (∀ (k : ℕ) (o : Outcome), (accepted log)[k]? = some o → o.GaveId k) ∧
    (∀ (e : Event) (r : Option MakeNewUserResponse), (e.proc crypt).result d = some r →
      (∀ resp, r = some resp → resp.success = false) →
        ∀ s n, counterOf s d = some n → counterOf s ((e.proc crypt).after d) = some n) ∧
    ∀ s s', s' ≠ s → counterOf s' ((updtNextIdentity s).after d) = counterOf s' d := by
  obtain ⟨t, hled, hbound, -, -, hids⟩ := h.allocation hcount
  have hholds : d.Holds t := h.disk_eq ▸ hled.holds
  have hlt := counter_lt_of_counterD_le hbound hcount
  refine ⟨hids, ?_, ?_⟩
  · intro e r hr hreject s n hn
    rcases e.proc_cases crypt hholds hled.small hlt with
      ⟨rfl, hperf⟩ | ⟨env, payload, l, r', rfl, hperf, hsteps⟩
    · obtain ⟨-, hled', hext⟩ := hled.setup
      have hafter : ((Event.setup.proc crypt).after d).Holds
          (((t.ensure .user).ensure .transaction).ensure .account) := by
        have hall := hled'.holds
        rwa [Proc.execAll_append, ← h.disk_eq, ← hperf.after_eq] at hall
      rw [counterOf_eq hholds hled.small] at hn
      rw [counterOf_eq hafter hled'.small]
      rcases hext s with heq | ⟨hnone, -⟩
      · rw [heq, hn]
      · rw [hnone] at hn
        simp at hn
    · rw [hperf.2] at hr
      obtain ⟨r', rfl, rfl⟩ := Option.map_eq_some_iff.mp hr
      rw [hperf.after_eq, hsteps.ops_eq_nil (by simp [hreject _ rfl])]
      exact hn
  · intro s s' hne
    cases hfile : d.table .idTracker with
    | none =>
        have hperf : (updtNextIdentity s).Performs d [] none :=
          Proc.Performs.read_bind_none (by rw [hfile]; rfl) _
        rw [hperf.after_eq]
        rfl
    | some text =>
        have htext : d.table .idTracker = some t.text := by
          have h' := hholds
          rw [Disk.Holds, hfile, Option.getD_some] at h'
          rw [hfile, h']
        have hperf := updtNextIdentity_spec htext hled.small (hlt s)
        have hafter : ((updtNextIdentity s).after d).Holds (t.advance s) := by
          rw [hperf.after_eq, Proc.execAll_append]
          exact (holds_replaceOps _ _).create _
        rw [counterOf_eq hafter (hled.small.advance (hlt s)), counterOf_eq hholds hled.small,
          Tracker.counter_advance, if_neg hne]

/-- What a call finds on the stack, in the runs below. -/
def sampleEnv : CallEnv where
  userCreatedAt := lit "2024-01-01 00:00:00"
  accCreatedAt := lit "2024-01-01 00:00:00"
  userScratch := ⟨[], [], [], [], [], []⟩
  accScratch := ⟨[], [], [], []⟩

/-- A payload, in the runs below. -/
def samplePayload : CreateUserDTO := ⟨lit "ann", lit "ann@x", lit "1", lit "secret"⟩

/-- The registration of the runs below. -/
def sampleRegister : Event := .register sampleEnv samplePayload

/-- The disk after the first start-up. -/
def startedDisk : Disk := (Event.setup.proc id).after Disk.empty

theorem session_started {canRun : Disk → Event → Prop} {canStop : List FileOp → Prop}
    (h : canRun Disk.empty .setup) :
    Session id canRun canStop [Event.setup.outcome id Disk.empty] startedDisk :=
  Session.start.finish_outcome h (by decide +kernel)

/-- The registration after it succeeds. -/
theorem accepted_sampleRegister : (sampleRegister.outcome id startedDisk).accepted = true := by
  decide +kernel

/-- A call that succeeds finishes. -/
theorem isSome_result_of_accepted {crypt : Bytes → Bytes} {e : Event} {d : Disk}
    (h : (e.outcome crypt d).accepted = true) : ((e.proc crypt).result d).isSome := by
  cases hresult : (e.proc crypt).result d with
  | none => simp [Event.outcome, Outcome.accepted, hresult] at h
  | some r => rfl

/-- A call that is not accepted answers so. -/
theorem success_of_not_accepted {crypt : Bytes → Bytes} {e : Event} {d : Disk}
    {response : MakeNewUserResponse} (h : (e.outcome crypt d).accepted = false)
    (hr : (e.proc crypt).result d = some (some response)) : response.success = false := by
  rw [Event.outcome, hr] at h
  exact h

/-- The start-up and the registration. -/
theorem session_sample {canRun : Disk → Event → Prop} {canStop : List FileOp → Prop}
    (hstart : canRun Disk.empty .setup) (h : canRun startedDisk sampleRegister) :
    Session id canRun canStop
      [Event.setup.outcome id Disk.empty, sampleRegister.outcome id startedDisk]
      ((sampleRegister.proc id).after startedDisk) :=
  (session_started hstart).finish_outcome h (isSome_result_of_accepted accepted_sampleRegister)

/-- The id the registration is given. -/
theorem eq_zero_of_getNextIdentity {next : Bytes}
    (h : (getNextIdentity .user).result startedDisk = some next) : next = lit "0" := by
  have hzero : (getNextIdentity .user).result startedDisk = some (lit "0") := by decide +kernel
  exact Option.some.inj (h.symm.trans hzero)

/-- The start-up is not a registration that succeeds, and the registration after it is one. -/
theorem accepted_sample :
    accepted [Event.setup.outcome id Disk.empty, sampleRegister.outcome id startedDisk] =
      [sampleRegister.outcome id startedDisk] := by
  have hsetup : (Event.setup.outcome id Disk.empty).accepted = false := by decide +kernel
  rw [accepted, List.filter_cons_of_neg (by rw [hsetup]; exact Bool.false_ne_true),
    List.filter_cons_of_pos accepted_sampleRegister, List.filter_nil]

/-- A second payload. -/
def secondRegister : Event :=
  .register sampleEnv ⟨lit "bob", lit "bob@x", lit "2", lit "secret"⟩

/-- The disk after Ann, after Bob, and after Ann tried again. -/
def annDisk : Disk := (sampleRegister.proc id).after startedDisk
def bobDisk : Disk := (secondRegister.proc id).after annDisk
def againDisk : Disk := (sampleRegister.proc id).after bobDisk

/-- Ann and Bob register, Ann registers again, and the program is restarted. -/
def twoLog : List Outcome :=
  [Event.setup.outcome id Disk.empty, sampleRegister.outcome id startedDisk,
    secondRegister.outcome id annDisk, sampleRegister.outcome id bobDisk,
    Event.setup.outcome id againDisk]

/-- The next ids of the registrations after Ann's. -/
theorem nextIds_two : (getNextIdentity .user).result annDisk = some (lit "1") ∧
    (getNextIdentity .user).result bobDisk = some (lit "2") := by
  decide +kernel

/-- How the calls after Ann's end: Bob is accepted, Ann is rejected twice. -/
theorem outcomes_two :
    (Event.setup.outcome id Disk.empty).accepted = false ∧
      (secondRegister.outcome id annDisk).accepted = true ∧
      (sampleRegister.outcome id bobDisk).accepted = false ∧
      ((sampleRegister.proc id).result bobDisk).isSome ∧
      (Event.setup.outcome id againDisk).accepted = false ∧
      ((Event.setup.proc id).result againDisk).isSome ∧
      (sampleRegister.outcome id ((Event.setup.proc id).after againDisk)).accepted = false ∧
      ((sampleRegister.proc id).result ((Event.setup.proc id).after againDisk)).isSome := by
  decide +kernel

/-- Their session. -/
theorem session_two {canRun : Disk → Event → Prop} {canStop : List FileOp → Prop}
    (hsetup : ∀ d, canRun d .setup) (hann : canRun startedDisk sampleRegister)
    (hbob : canRun annDisk secondRegister) (hagain : canRun bobDisk sampleRegister) :
    Session id canRun canStop twoLog ((Event.setup.proc id).after againDisk) := by
  have hfirst : Session id canRun canStop _ annDisk := session_sample (hsetup _) hann
  obtain ⟨-, haccepted, -, hrejected, -, hrestarted, -⟩ := outcomes_two
  have hsecond : Session id canRun canStop _ bobDisk :=
    hfirst.finish_outcome hbob (isSome_result_of_accepted haccepted)
  have hthird : Session id canRun canStop _ againDisk := hsecond.finish_outcome hagain hrejected
  exact hthird.finish_outcome (hsetup _) hrestarted

/-- Ann is accepted once, and so is Bob. -/
theorem accepted_two : accepted twoLog =
    [sampleRegister.outcome id startedDisk, secondRegister.outcome id annDisk] := by
  obtain ⟨hsetup, hbob, hagain, -, hrestart, -⟩ := outcomes_two
  simp [accepted, twoLog, hsetup, accepted_sampleRegister, hbob, hagain, hrestart]

/-- Ann gets the ids 0 and Bob the ids 1, and a third try of Ann leaves every counter as it is. -/
theorem identity_allocation_two :
    (sampleRegister.outcome id startedDisk).GaveId 0 ∧
      (secondRegister.outcome id annDisk).GaveId 1 ∧
      ∀ s n, counterOf s ((Event.setup.proc id).after againDisk) = some n →
        counterOf s ((sampleRegister.proc id).after ((Event.setup.proc id).after againDisk)) =
          some n := by
  obtain ⟨hids, hkeeps, -⟩ :=
    identity_allocation (session_two (fun _ => trivial) trivial trivial trivial)
      (by rw [accepted_two]; decide)
  refine ⟨hids 0 _ (by rw [accepted_two]; rfl), hids 1 _ (by rw [accepted_two]; rfl), ?_⟩
  obtain ⟨-, -, -, -, -, -, hrejected, hfinished⟩ := outcomes_two
  obtain ⟨r, hr⟩ := Option.isSome_iff_exists.mp hfinished
  refine hkeeps sampleRegister r hr ?_
  rintro resp rfl
  exact success_of_not_accepted hrejected hr

/-! ### Sessions with stops -/

/-- **Crash safety of ids.** In a session that is never stopped between the row of a record
and the rename of the tracker, with fewer than 2^31 - 1 registrations, no user id and no
account id is given out twice, and no counter ever decreases. -/
theorem crash_safe_ids {crypt : Bytes → Bytes} {log : List Outcome} {d : Disk}
    (h : Session crypt anyCall settled log d) (hcount : (registrations log : ℤ) < intMax) :
    (insertedIds .user (performed log)).Nodup ∧ (insertedIds .account (performed log)).Nodup ∧
      ∀ s, ((states Disk.empty (performed log)).filterMap (counterOf s)).Pairwise (· ≤ ·) := by
  obtain ⟨t, hled, -⟩ := h.ledger hcount
  have hnodup : ∀ s, (insertedIds s (performed log)).Nodup := by
    intro s
    rw [hled.insertedIds]
    exact List.Nodup.map printNat_injective List.nodup_range
  exact ⟨hnodup .user, hnodup .account, hled.sorted⟩

/-- A third payload. -/
def thirdRegister : Event :=
  .register sampleEnv ⟨lit "carl", lit "carl@x", lit "3", lit "secret"⟩

/-- The disk when Bob is stopped between his user and his account, and after the restart. -/
def betweenDisk : Disk := (secondRegister.proc id).stopped annDisk 5
def resumedDisk : Disk := (Event.setup.proc id).after betweenDisk

/-- Ann registers, Bob is stopped outside of a record, the program is restarted, and Carl
registers. -/
def resumedLog : List Outcome :=
  [Event.setup.outcome id Disk.empty, sampleRegister.outcome id startedDisk,
    ⟨secondRegister, ((secondRegister.proc id).ops annDisk).take 5, none⟩,
    Event.setup.outcome id betweenDisk, thirdRegister.outcome id resumedDisk]

/-- How its calls end, and the ids that are inserted. -/
theorem outcomes_resumed :
    settled (((secondRegister.proc id).ops annDisk).take 5) ∧
      ((Event.setup.proc id).result betweenDisk).isSome ∧
      ((thirdRegister.proc id).result resumedDisk).isSome ∧
      insertedIds .user (performed resumedLog) = [lit "0", lit "1", lit "2"] ∧
      insertedIds .account (performed resumedLog) = [lit "0", lit "1"] := by
  decide +kernel

theorem session_resumed :
    Session id anyCall settled resumedLog ((thirdRegister.proc id).after resumedDisk) := by
  obtain ⟨hsettled, hsetup, hcarl, -⟩ := outcomes_resumed
  have hann : Session id anyCall settled _ annDisk := session_sample trivial trivial
  have hstop : Session id anyCall settled _ betweenDisk :=
    hann.stop (e := secondRegister) trivial 5 hsettled
  have hrestart : Session id anyCall settled _ resumedDisk :=
    hstop.finish_outcome (e := .setup) trivial hsetup
  exact hrestart.finish_outcome (e := thirdRegister) trivial hcarl

/-- Their ids: Bob has a user and no account. -/
theorem crash_safe_ids_resumed :
    (insertedIds .user (performed resumedLog)).Nodup ∧
      (insertedIds .account (performed resumedLog)).Nodup ∧
      (∀ s, ((states Disk.empty (performed resumedLog)).filterMap (counterOf s)).Pairwise
        (· ≤ ·)) ∧
      insertedIds .user (performed resumedLog) = [lit "0", lit "1", lit "2"] ∧
      insertedIds .account (performed resumedLog) = [lit "0", lit "1"] := by
  have hcount : (registrations resumedLog : ℤ) < intMax := by decide
  obtain ⟨husers, haccounts, hcounters⟩ := crash_safe_ids session_resumed hcount
  obtain ⟨-, -, -, hids⟩ := outcomes_resumed
  exact ⟨husers, haccounts, hcounters, hids⟩

/-- The disk when the registration is stopped right after the row of the user. -/
def stoppedDisk : Disk := (sampleRegister.proc id).stopped startedDisk 1

/-- The disk after the restart. -/
def restartedDisk : Disk := (Event.setup.proc id).after stoppedDisk

/-- The calls of a session that is stopped after the row of the user and restarted. -/
def restartedLog : List Outcome :=
  [Event.setup.outcome id Disk.empty,
    ⟨sampleRegister, ((sampleRegister.proc id).ops startedDisk).take 1, none⟩,
    Event.setup.outcome id stoppedDisk, secondRegister.outcome id restartedDisk]

/-- **A stop within a record**: the registration is stopped after its row, the program is
restarted, and the next registration gets the same id. -/
theorem crash_unsafe_ids :
    ∃ log d, Session id anyCall (fun _ => True) log d ∧
      ¬ (insertedIds .user (performed log)).Nodup := by
  have hstart : Session id anyCall (fun _ => True) [Event.setup.outcome id Disk.empty]
      startedDisk := session_started trivial
  obtain ⟨hsetup, hbob, hids⟩ : ((Event.setup.proc id).result stoppedDisk).isSome ∧
      ((secondRegister.proc id).result restartedDisk).isSome ∧
      insertedIds .user (performed restartedLog) = [lit "0", lit "0"] := by
    decide +kernel
  have hstop := hstart.stop (e := sampleRegister) trivial 1 trivial
  have hrestart := hstop.finish_outcome (e := .setup) trivial hsetup
  have hagain := hrestart.finish_outcome (e := secondRegister) trivial hbob
  have htwice : ¬ (insertedIds .user (performed restartedLog)).Nodup := by
    rw [hids]
    decide
  exact ⟨restartedLog, _, hagain, htwice⟩

end CBank
