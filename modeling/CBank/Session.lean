import CBank.Ledger

/-!
# Sessions

A session is a run of the program from an empty directory: start-ups and registrations, one
after the other, any of which may be stopped between two file operations. A start-up is also
what a restart does. `Session` is parameterised by the calls a run may contain and by the
operations after which a call may be stopped, so that a theorem names exactly the runs it is
about; each call leaves an `Outcome` in the log.

A call that stops being defined (a result set or a structure overrun) has no response. It is
not a call that finishes, but the process may have stopped at any of its operations.

## Main results

* `Session.disk_eq`: the disk is what the logged operations made of an empty directory.
* `Session.ledger`: a session that is never stopped within a record is a ledger.
-/

namespace CBank

open CLib

/-- A call of the program: a start-up, or a registration with what it finds on the stack. -/
inductive Event
  | setup
  | register (env : CallEnv) (payload : CreateUserDTO)

/-- What a call does; a start-up has no response. -/
def Event.proc (crypt : Bytes → Bytes) : Event → Proc Disk FileOp (Option MakeNewUserResponse)
  | .setup => do
      setupStores
      pure none
  | .register env payload => do
      let r ← makeNewUser crypt env payload
      pure (some r)

/-- What a call left in the log: its operations, and its response if it finished. -/
structure Outcome where
  event : Event
  ops : List FileOp
  response : Option MakeNewUserResponse

/-- The call registered a user. -/
def Outcome.accepted (o : Outcome) : Bool := (o.response.map MakeNewUserResponse.success).getD false

/-- The call was a registration. -/
def Outcome.isRegister (o : Outcome) : Bool := match o.event with
  | .setup => false
  | .register _ _ => true

/-- The registrations that succeeded. -/
def accepted (log : List Outcome) : List Outcome := log.filter Outcome.accepted

/-- The number of registrations. -/
def registrations (log : List Outcome) : ℕ := log.countP Outcome.isRegister

/-- The file operations of a log. -/
def performed (log : List Outcome) : List FileOp := log.flatMap Outcome.ops

/-- A run from an empty directory, with the calls `canRun` allows and the stops `canStop`
allows; the calls so far and the disk they lead to. -/
inductive Session (crypt : Bytes → Bytes) (canRun : Disk → Event → Prop)
    (canStop : List FileOp → Prop) : List Outcome → Disk → Prop
  | start : Session crypt canRun canStop [] Disk.empty
  | finish {log : List Outcome} {d : Disk} {e : Event} {r : Option MakeNewUserResponse}
      (h : Session crypt canRun canStop log d) (he : canRun d e)
      (hr : (e.proc crypt).result d = some r) :
      Session crypt canRun canStop (log ++ [⟨e, (e.proc crypt).ops d, r⟩])
        ((e.proc crypt).after d)
  | stop {log : List Outcome} {d : Disk} {e : Event} (h : Session crypt canRun canStop log d)
      (he : canRun d e) (n : ℕ) (hn : canStop (((e.proc crypt).ops d).take n)) :
      Session crypt canRun canStop (log ++ [⟨e, ((e.proc crypt).ops d).take n, none⟩])
        ((e.proc crypt).stopped d n)

/-- What a call that finishes leaves in the log. -/
def Event.outcome (crypt : Bytes → Bytes) (e : Event) (d : Disk) : Outcome :=
  ⟨e, (e.proc crypt).ops d, ((e.proc crypt).result d).getD none⟩

/-- Every call may run. -/
def anyCall (_ : Disk) (_ : Event) : Prop := True

/-- The strings of a registration fit the arrays of its payload. -/
def fittingCall (_ : Disk) : Event → Prop
  | .setup => True
  | .register _ payload => payload.Fits

/-- No call is stopped. -/
def neverStopped (_ : List FileOp) : Prop := False

variable {crypt : Bytes → Bytes} {canRun : Disk → Event → Prop} {canStop : List FileOp → Prop}
  {log : List Outcome} {d : Disk}

theorem performed_append (log : List Outcome) (o : Outcome) :
    performed (log ++ [o]) = performed log ++ o.ops := by
  simp [performed]

theorem accepted_append (log : List Outcome) (o : Outcome) :
    accepted (log ++ [o]) = accepted log ++ if o.accepted then [o] else [] := by
  rw [accepted, List.filter_append, accepted, List.filter_singleton, Bool.cond_eq_ite]

theorem registrations_append (log : List Outcome) (o : Outcome) :
    registrations (log ++ [o]) = registrations log + if o.isRegister then 1 else 0 := by
  rw [registrations, List.countP_append, registrations, List.countP_singleton]

/-- The disk is what the logged operations made of an empty directory. -/
theorem Session.disk_eq (h : Session crypt canRun canStop log d) :
    d = Proc.execAll Disk.empty (performed log) := by
  induction h with
  | start => rfl
  | finish h he hr ih =>
      rw [performed_append, Proc.execAll_append, ← ih]
      rfl
  | stop h he n hn ih =>
      rw [performed_append, Proc.execAll_append, ← ih]
      rfl

theorem Session.finish_outcome {e : Event} (h : Session crypt canRun canStop log d)
    (he : canRun d e) (hr : ((e.proc crypt).result d).isSome) :
    Session crypt canRun canStop (log ++ [e.outcome crypt d]) ((e.proc crypt).after d) := by
  obtain ⟨r, hr⟩ := Option.isSome_iff_exists.mp hr
  have hout : e.outcome crypt d = ⟨e, (e.proc crypt).ops d, r⟩ := by
    rw [Event.outcome, hr, Option.getD_some]
  rw [hout]
  exact h.finish he hr

/-- What a call performs on a disk that holds a tracker. -/
theorem Event.proc_cases (crypt : Bytes → Bytes) (e : Event) {d : Disk} {t : Tracker}
    (h : d.Holds t) (ht : t.Small) (hlt : ∀ s n, t.counter s = some n → (n : ℤ) < intMax) :
    (e = .setup ∧ (e.proc crypt).Performs d (setupOps t) (some none)) ∨
      ∃ env payload l r, e = .register env payload ∧
        (e.proc crypt).Performs d l (r.map some) ∧ MakeNewUserSteps crypt env payload t l r := by
  cases e with
  | setup =>
      left
      have hsetup := Proc.Performs.bind
        (f := fun _ => pure (none : Option MakeNewUserResponse)) (setupStores_spec h ht)
        (Proc.performs_pure _ _)
      rw [List.append_nil] at hsetup
      exact ⟨rfl, hsetup⟩
  | register env payload =>
      right
      obtain ⟨l, r, hperf, hsteps⟩ := makeNewUser_steps crypt env payload h ht hlt
      refine ⟨env, payload, l, r, rfl, ?_, hsteps⟩
      cases r with
      | none => exact hperf.bind_none _
      | some r =>
          have hall := Proc.Performs.bind (f := fun r => pure (some r)) hperf
            (Proc.performs_pure _ _)
          rwa [List.append_nil] at hall

/-- Counters below a bound fit. -/
theorem counter_lt_of_counterD_le {t : Tracker} {m : ℤ} (h : ∀ s, t.counterD s ≤ m)
    (hm : m < intMax) : ∀ s n, t.counter s = some n → (n : ℤ) < intMax := by
  intro s n hn
  have hle := h s
  rw [Tracker.counterD, hn, Option.getD_some] at hle
  omega

/-- An extended tracker has the same counters, where a missing one counts as zero. -/
theorem Tracker.Extends.counterD_eq {t t' : Tracker} (h : t.Extends t') (s : Store) :
    t'.counterD s = t.counterD s := by
  rw [Tracker.counterD, Tracker.counterD]
  rcases h s with heq | ⟨hnone, hzero⟩
  · rw [heq]
  · rw [hnone, hzero]
    rfl

/-- A finished call is not stopped within a record. -/
theorem MakeNewUserSteps.settled {env : CallEnv} {payload : CreateUserDTO} {t : Tracker}
    {l : List FileOp} {r : MakeNewUserResponse}
    (h : MakeNewUserSteps crypt env payload t l (some r)) : settled l := by
  cases h with
  | rejected hr => rfl
  | created hn ha hr =>
      rw [settled_append (settled_recordOps _ _ _)]
      exact settled_recordOps _ _ _

/-- Start-up writes no record. -/
theorem settled_setupOps (t : Tracker) : settled (setupOps t) := by
  have hensure : ∀ (t : Tracker) (s : Store), settled (ensureOps t s) := by
    intro t s
    rw [ensureOps]
    split
    · rfl
    · rfl
  have hcreate : settled [.create .idTracker, .create .user, .create .account,
      .create .transaction] := rfl
  have hrest := (settled_append (hensure t .user)).mpr ((settled_append
    (hensure (t.ensure .user) .transaction)).mpr
      (hensure ((t.ensure .user).ensure .transaction) .account))
  exact (settled_append hcreate).mpr hrest

/-- One more call, stopped after `n` operations or finished. -/
theorem Session.ledger_step (h : Session crypt canRun settled log d) {t : Tracker}
    (hled : Ledger (performed log) t) (hbound : ∀ s, t.counterD s ≤ registrations log)
    (hlt : (registrations log : ℤ) < intMax) (e : Event) (n : ℕ) (r : Option MakeNewUserResponse)
    (hset : settled (((e.proc crypt).ops d).take n)) :
    ∃ t, Ledger (performed (log ++ [⟨e, ((e.proc crypt).ops d).take n, r⟩])) t ∧
      ∀ s, t.counterD s ≤ registrations (log ++ [⟨e, ((e.proc crypt).ops d).take n, r⟩]) := by
  have hholds : d.Holds t := h.disk_eq ▸ hled.holds
  have hsmall := counter_lt_of_counterD_le hbound hlt
  rw [performed_append, registrations_append]
  rcases e.proc_cases crypt hholds hled.small hsmall with
    ⟨rfl, hperf⟩ | ⟨env, payload, l, r', rfl, hperf, hsteps⟩
  · rw [hperf.1]
    obtain ⟨t₁, hled₁, hext⟩ := hled.setup.1 n
    refine ⟨t₁, hled₁, fun s => ?_⟩
    rw [hext.counterD_eq s]
    simpa [Outcome.isRegister] using hbound s
  · rw [hperf.1] at hset ⊢
    obtain ⟨t₁, hled₁, hle⟩ := hled.register_take hsmall hsteps hset
    refine ⟨t₁, hled₁, fun s => ?_⟩
    have h1 := hle s
    have h2 := hbound s
    simp only [Outcome.isRegister, if_true]
    push_cast
    omega

/-- **A session never stopped within a record is a ledger**, and no counter is above the
number of registrations. Induction along the session. -/
theorem Session.ledger (h : Session crypt canRun settled log d)
    (hcount : (registrations log : ℤ) < intMax) :
    ∃ t, Ledger (performed log) t ∧ ∀ s, t.counterD s ≤ registrations log := by
  induction h with
  | start => exact ⟨Tracker.empty, .start, fun s => by simp [Tracker.counterD, Tracker.counter,
      Tracker.empty, registrations]⟩
  | @finish log d e r h he hr ih =>
      rw [registrations_append] at hcount
      have hlt : (registrations log : ℤ) < intMax := by
        split at hcount <;> push_cast at hcount <;> omega
      obtain ⟨t, hled, hbound⟩ := ih hlt
      have hset : CBank.settled ((e.proc crypt).ops d) := by
        have hholds : d.Holds t := h.disk_eq ▸ hled.holds
        rcases e.proc_cases crypt hholds hled.small (counter_lt_of_counterD_le hbound hlt) with
          ⟨-, hperf⟩ | ⟨env, payload, l, r', -, hperf, hsteps⟩
        · rw [hperf.1]
          exact settled_setupOps t
        · rw [hperf.2] at hr
          obtain ⟨r', rfl, -⟩ := Option.map_eq_some_iff.mp hr
          rw [hperf.1]
          exact hsteps.settled
      have hall := h.ledger_step hled hbound hlt e ((e.proc crypt).ops d).length r
        (by rwa [List.take_length])
      rwa [List.take_length] at hall
  | @stop log d e h he n hn ih =>
      rw [registrations_append] at hcount
      have hlt : (registrations log : ℤ) < intMax := by
        split at hcount <;> push_cast at hcount <;> omega
      obtain ⟨t, hled, hbound⟩ := ih hlt
      exact h.ledger_step hled hbound hlt e n none hn

end CBank
