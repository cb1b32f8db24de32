import CBank.CLib.Proc

/-!
# Runs of Stoppable Procedures

A run calls procedures one after the other, each from the state the one before it left. A call
finishes, or the run is stopped between two of its operations and goes on with the next call.
`Runs` is parameterised by the calls a state allows and by the operations after which a call may
be stopped, and logs what each call performed.

## Main results

* `Runs.logInvariant`: what every call keeps holds along a run.
* `Runs.split`, `Runs.append`: a run is a run to a state and one from it.
-/

namespace CLib

/-- What a call left in the log: its operations, and its result if it finished. -/
structure Entry (E Op α : Type*) where
  event : E
  ops : List Op
  result : Option α

variable {σ Op E : Type*} {α : Type}

/-- The operations of a log. -/
def operations (log : List (Entry E Op α)) : List Op := log.flatMap Entry.ops

@[simp] theorem operations_append (log log' : List (Entry E Op α)) :
    operations (log ++ log') = operations log ++ operations log' := List.flatMap_append

@[simp] theorem operations_singleton (entry : Entry E Op α) : operations [entry] = entry.ops :=
  List.append_nil _

variable [Exec σ Op]

/-- A run from a state, with the calls `canRun` allows and the stops `canStop` allows; the calls
so far and the state they lead to. -/
inductive Runs (proc : E → Proc σ Op α) (canRun : σ → E → Prop) (canStop : List Op → Prop)
    (start : σ) : List (Entry E Op α) → σ → Prop
  | start : Runs proc canRun canStop start [] start
  | finish {log : List (Entry E Op α)} {s : σ} {e : E} {r : α}
      (h : Runs proc canRun canStop start log s) (he : canRun s e)
      (hr : (proc e).result s = some r) :
      Runs proc canRun canStop start (log ++ [⟨e, (proc e).ops s, some r⟩]) ((proc e).after s)
  | stop {log : List (Entry E Op α)} {s : σ} {e : E} (h : Runs proc canRun canStop start log s)
      (he : canRun s e) (n : ℕ) (hn : canStop (((proc e).ops s).take n)) :
      Runs proc canRun canStop start (log ++ [⟨e, ((proc e).ops s).take n, none⟩])
        ((proc e).stopped s n)

namespace Runs

variable {proc : E → Proc σ Op α} {canRun : σ → E → Prop} {canStop : List Op → Prop} {start s : σ}
  {log : List (Entry E Op α)}

/-- A procedure that is stopped after its last operation is done. -/
theorem stopped_length (p : Proc σ Op α) (s : σ) : p.stopped s (p.ops s).length = p.after s := by
  rw [Proc.stopped, List.take_length, Proc.after]

/-- **The invariant rule**: what holds at the start, and is kept by a call up to any
of its operations, holds along a run. -/
theorem logInvariant {P : List (Entry E Op α) → σ → Prop}
    (h : Runs proc canRun canStop start log s) (hstart : P [] start)
    (hstep : ∀ log s e n r, Runs proc canRun canStop start log s → P log s → canRun s e →
      (r = none → canStop (((proc e).ops s).take n)) →
        (∀ a, r = some a → (proc e).result s = some a ∧ n = ((proc e).ops s).length) →
          P (log ++ [⟨e, ((proc e).ops s).take n, r⟩]) ((proc e).stopped s n)) : P log s := by
  induction h with
  | start => exact hstart
  | @finish log s e r h he hr ih =>
      have hwhole := hstep log s e ((proc e).ops s).length (some r) h ih he (by simp)
        fun a ha => ⟨Option.some.inj ha ▸ hr, rfl⟩
      rwa [List.take_length, stopped_length] at hwhole
  | @stop log s e h he n hn ih =>
      exact hstep log s e n none h ih he (fun _ => hn) fun a ha => absurd ha (by simp)

/-- The state is what the logged operations made of the first one. -/
theorem state_eq (h : Runs proc canRun canStop start log s) :
    s = Proc.execAll start (operations log) := by
  refine h.logInvariant (P := fun log s => s = Proc.execAll start (operations log)) rfl ?_
  intro log s e n r _ hs _ _ _
  rw [operations_append, operations_singleton, Proc.execAll_append, ← hs]
  rfl

/-- A run with fewer calls and stops is one with more. -/
theorem imp {canRun' : σ → E → Prop} {canStop' : List Op → Prop}
    (h : Runs proc canRun canStop start log s) (hrun : ∀ s e, canRun s e → canRun' s e)
    (hstop : ∀ ops, canStop ops → canStop' ops) : Runs proc canRun' canStop' start log s := by
  induction h with
  | start => exact .start
  | finish h he hr ih => exact ih.finish (hrun _ _ he) hr
  | stop h he n hn ih => exact ih.stop (hrun _ _ he) n (hstop _ hn)

/-- A call that returns is logged with what it performed and returned. -/
theorem finish_of_isSome {e : E} (h : Runs proc canRun canStop start log s) (he : canRun s e)
    (hr : ((proc e).result s).isSome) : Runs proc canRun canStop start
      (log ++ [⟨e, (proc e).ops s, (proc e).result s⟩]) ((proc e).after s) := by
  obtain ⟨r, hr⟩ := Option.isSome_iff_exists.mp hr
  rw [hr]
  exact h.finish he hr

/-- A run goes on with a run from the state it led to. -/
theorem append {log' : List (Entry E Op α)} {s' : σ} (h : Runs proc canRun canStop start log s)
    (h' : Runs proc canRun canStop s log' s') :
    Runs proc canRun canStop start (log ++ log') s' := by
  induction h' with
  | start => rwa [List.append_nil]
  | finish h' he hr ih =>
      rw [← List.append_assoc]
      exact ih.finish he hr
  | stop h' he n hn ih =>
      rw [← List.append_assoc]
      exact ih.stop he n hn

/-- **A run in two parts**, wherever its log is cut. -/
theorem split {before after : List (Entry E Op α)}
    (h : Runs proc canRun canStop start (before ++ after) s) :
    ∃ m, Runs proc canRun canStop start before m ∧ Runs proc canRun canStop m after s := by
  generalize hlog : before ++ after = log at h
  induction h generalizing before after with
  | start =>
      obtain ⟨rfl, rfl⟩ := List.append_eq_nil_iff.mp hlog
      exact ⟨_, .start, .start⟩
  | finish h he hr ih =>
      rcases List.eq_nil_or_concat after with rfl | ⟨after, entry, rfl⟩
      · rw [List.append_nil] at hlog
        exact ⟨_, hlog ▸ h.finish he hr, .start⟩
      · rw [List.concat_eq_append, ← List.append_assoc] at hlog
        obtain ⟨hinit, hlast⟩ := List.append_inj' hlog rfl
        obtain ⟨m, hbefore, hafter⟩ := ih hinit
        rw [List.concat_eq_append, hlast]
        exact ⟨m, hbefore, hafter.finish he hr⟩
  | stop h he n hn ih =>
      rcases List.eq_nil_or_concat after with rfl | ⟨after, entry, rfl⟩
      · rw [List.append_nil] at hlog
        exact ⟨_, hlog ▸ h.stop he n hn, .start⟩
      · rw [List.concat_eq_append, ← List.append_assoc] at hlog
        obtain ⟨hinit, hlast⟩ := List.append_inj' hlog rfl
        obtain ⟨m, hbefore, hafter⟩ := ih hinit
        rw [List.concat_eq_append, hlast]
        exact ⟨m, hbefore, hafter.stop he n hn⟩

/-- A logged call, with what the run did before it: from a state that allowed it, it performed its
operations up to one of them, or all of them when it finished. -/
structure Called (proc : E → Proc σ Op α) (canRun : σ → E → Prop) (canStop : List Op → Prop)
    (start : σ) (before : List (Entry E Op α)) (entry : Entry E Op α) (m : σ) : Prop where
  run : Runs proc canRun canStop start before m
  allowed : canRun m entry.event
  ops : ∃ n, entry.ops = ((proc entry.event).ops m).take n
  finished : ∀ a, entry.result = some a →
    (proc entry.event).result m = some a ∧ entry.ops = (proc entry.event).ops m

/-- A run of one call. -/
theorem called_of_singleton {entry : Entry E Op α}
    (h : Runs proc canRun canStop start [entry] s) :
    Called proc canRun canStop start [] entry start ∧ s = Proc.execAll start entry.ops := by
  have hstate := h.state_eq
  rw [operations_singleton] at hstate
  refine ⟨?_, hstate⟩
  generalize hlog : [entry] = log at h
  cases h with
  | start => simp at hlog
  | @finish log m e r h he hr =>
      obtain ⟨rfl, hentry⟩ := List.append_inj' ((List.nil_append _).trans hlog) rfl
      obtain rfl := List.singleton_inj.mp hentry
      obtain rfl : m = start := h.state_eq
      exact ⟨.start, he, ⟨_, List.take_length.symm⟩, fun a ha => ⟨ha ▸ hr, rfl⟩⟩
  | @stop log m e h he n hn =>
      obtain ⟨rfl, hentry⟩ := List.append_inj' ((List.nil_append _).trans hlog) rfl
      obtain rfl := List.singleton_inj.mp hentry
      obtain rfl : m = start := h.state_eq
      exact ⟨.start, he, ⟨n, rfl⟩, fun a ha => absurd ha (by simp)⟩

/-- **A call of a run**, wherever it is logged, and the rest of the run behind it. -/
theorem called {before after : List (Entry E Op α)} {entry : Entry E Op α}
    (h : Runs proc canRun canStop start (before ++ entry :: after) s) :
    ∃ m, Called proc canRun canStop start before entry m ∧
      Runs proc canRun canStop (Proc.execAll m entry.ops) after s := by
  obtain ⟨m, hbefore, hrest⟩ := h.split
  rw [← List.singleton_append] at hrest
  obtain ⟨m', hentry, hafter⟩ := hrest.split
  obtain ⟨hcalled, rfl⟩ := hentry.called_of_singleton
  exact ⟨m, ⟨hbefore, hcalled.allowed, hcalled.ops, hcalled.finished⟩, hafter⟩

/-- Where a logged call comes from. -/
theorem exists_called {entry : Entry E Op α} (h : Runs proc canRun canStop start log s)
    (hentry : entry ∈ log) : ∃ before after m, log = before ++ entry :: after ∧
      Called proc canRun canStop start before entry m := by
  obtain ⟨before, after, rfl⟩ := List.append_of_mem hentry
  obtain ⟨m, hcalled, -⟩ := h.called
  exact ⟨before, after, m, rfl, hcalled⟩

end Runs

end CLib
