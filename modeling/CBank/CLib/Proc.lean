import Mathlib.Data.List.Basic

/-!
# Stoppable Procedures

A procedure reads a state and changes it through operations that are atomic, one after the
other. `Proc σ Op α` is such a procedure: from the state it starts in, the operations it
performs, in order, and what it returns; it returns `none` when it has no defined behaviour
after the last of them. What an operation does to the state is given by the class `Exec`.

The state after a run that was stopped is the one its first operations lead to
(`Proc.stopped`); a stop after all of them is the state at the end (`Proc.after`).

## Main results

* `Performs.bind`: what a sequence of two procedures performs and returns.
* `Within.bind`: a sequence performs operations of a kind when its procedures do.
-/

namespace CLib

/-- What the atomic operations do to a state. -/
class Exec (σ Op : Type*) where
  exec : σ → Op → σ

variable {σ Op : Type*} {α β : Type}

/-- A procedure on states `σ` with atomic operations `Op`: the operations performed and the
value returned. -/
def Proc (σ Op α : Type*) := σ → List Op × Option α

namespace Proc

/-- The operations performed from a state. -/
def ops (p : Proc σ Op α) (s : σ) : List Op := (p s).1

/-- The value returned from a state. -/
def result (p : Proc σ Op α) (s : σ) : Option α := (p s).2

/-- Return a value read off the state, or stop being defined. -/
def read (f : σ → Option α) : Proc σ Op α := fun s => ([], f s)

/-- Perform one operation. -/
def perform (op : Op) : Proc σ Op Unit := fun _ => ([op], some ())

@[simp] theorem ops_read (f : σ → Option α) (s : σ) : (read f : Proc σ Op α).ops s = [] := rfl

@[simp] theorem result_read (f : σ → Option α) (s : σ) :
    (read f : Proc σ Op α).result s = f s := rfl

@[simp] theorem ops_perform (op : Op) (s : σ) : (perform op : Proc σ Op Unit).ops s = [op] := rfl

/-- From `s`, the procedure performs the operations `l` and returns `r`. -/
def Performs (p : Proc σ Op α) (s : σ) (l : List Op) (r : Option α) : Prop :=
  p.ops s = l ∧ p.result s = r

theorem performs_read (g : σ → Option α) (s : σ) : (read g : Proc σ Op α).Performs s [] (g s) :=
  ⟨rfl, rfl⟩

theorem performs_perform (op : Op) (s : σ) : (perform op).Performs s [op] (some ()) := ⟨rfl, rfl⟩

/-- Every operation the procedure can perform satisfies `P`. -/
def Within (P : Op → Prop) (p : Proc σ Op α) : Prop := ∀ s, ∀ op ∈ p.ops s, P op

variable {P : Op → Prop}

theorem within_read (g : σ → Option α) : Within P (read g : Proc σ Op α) := by
  intro s op hop
  simp at hop

theorem within_perform {op : Op} (h : P op) : Within P (perform op : Proc σ Op Unit) := by
  intro s op' hop
  rw [ops_perform, List.mem_singleton] at hop
  exact hop ▸ h

/-- A procedure that performs the same operations from every state. -/
theorem within_of_performs {p : Proc σ Op α} {l : List Op} {r : Option α}
    (hp : ∀ s, p.Performs s l r) (hl : ∀ op ∈ l, P op) : Within P p := by
  intro s op hop
  rw [(hp s).1] at hop
  exact hl op hop

theorem Within.imp {Q : Op → Prop} {p : Proc σ Op α} (hp : p.Within P)
    (h : ∀ op, P op → Q op) : p.Within Q := fun s op hop => h op (hp s op hop)

variable [Exec σ Op]

/-- The state after a list of operations. -/
def execAll (s : σ) (l : List Op) : σ := l.foldl Exec.exec s

/-- The state after all operations of a procedure. -/
def after (p : Proc σ Op α) (s : σ) : σ := execAll s (p.ops s)

/-- The state after the first `n` operations of a procedure. -/
def stopped (p : Proc σ Op α) (s : σ) (n : ℕ) : σ := execAll s ((p.ops s).take n)

/-- One procedure after the other. -/
def bind (p : Proc σ Op α) (f : α → Proc σ Op β) : Proc σ Op β := fun s =>
  match p.result s with
  | none => (p.ops s, none)
  | some a => (p.ops s ++ (f a).ops (p.after s), (f a).result (p.after s))

instance : Monad (Proc σ Op) where
  pure a := fun _ => ([], some a)
  bind := bind

@[simp] theorem execAll_nil (s : σ) : execAll s ([] : List Op) = s := rfl

@[simp] theorem execAll_cons (s : σ) (op : Op) (l : List Op) :
    execAll s (op :: l) = execAll (Exec.exec s op) l := rfl

@[simp] theorem execAll_append (s : σ) (l l' : List Op) :
    execAll s (l ++ l') = execAll (execAll s l) l' := List.foldl_append

@[simp] theorem ops_pure (a : α) (s : σ) : (pure a : Proc σ Op α).ops s = [] := rfl

@[simp] theorem result_pure (a : α) (s : σ) : (pure a : Proc σ Op α).result s = some a := rfl

@[simp] theorem after_read (g : σ → Option α) (s : σ) : (read g : Proc σ Op α).after s = s := rfl

/-- What a sequence performs when its first procedure returns. -/
theorem ops_bind_of_some {p : Proc σ Op α} {s : σ} {a : α} (h : p.result s = some a)
    (f : α → Proc σ Op β) : (p >>= f).ops s = p.ops s ++ (f a).ops (p.after s) := by
  change (bind p f s).1 = _
  rw [bind, h]

/-- A sequence performs nothing more when its first procedure stops being defined. -/
theorem ops_bind_of_none {p : Proc σ Op α} {s : σ} (h : p.result s = none)
    (f : α → Proc σ Op β) : (p >>= f).ops s = p.ops s := by
  change (bind p f s).1 = _
  rw [bind, h]

/-- A sequence returns what its second procedure returns. -/
theorem result_bind (p : Proc σ Op α) (f : α → Proc σ Op β) (s : σ) :
    (p >>= f).result s = (p.result s).bind fun a => (f a).result (p.after s) := by
  change (bind p f s).2 = _
  cases h : p.result s with
  | none => rw [bind, h, Option.bind_none]
  | some a => rw [bind, h, Option.bind_some]

/-- A sequence returns when both procedures do. -/
theorem result_bind_eq_some {p : Proc σ Op α} {f : α → Proc σ Op β} {s : σ} {b : β} :
    (p >>= f).result s = some b ↔
      ∃ a, p.result s = some a ∧ (f a).result (p.after s) = some b := by
  rw [result_bind, Option.bind_eq_some_iff]

/-- A sequence returns something when both procedures do. -/
theorem isSome_result_bind_iff {p : Proc σ Op α} {f : α → Proc σ Op β} {s : σ} :
    ((p >>= f).result s).isSome ↔
      ∃ a, p.result s = some a ∧ ((f a).result (p.after s)).isSome := by
  rw [result_bind]
  cases p.result s <;> simp

/-! ### What procedures perform -/

theorem Performs.after_eq {p : Proc σ Op α} {s : σ} {l : List Op} {r : Option α}
    (h : p.Performs s l r) : p.after s = execAll s l := by
  rw [after, h.1]

/-- **The rule for sequences**: the second procedure starts where the first one ends. -/
theorem Performs.bind {p : Proc σ Op α} {f : α → Proc σ Op β} {s : σ} {l l' : List Op} {a : α}
    {r : Option β} (hp : p.Performs s l (some a)) (hf : (f a).Performs (execAll s l) l' r) :
    (p >>= f).Performs s (l ++ l') r := by
  constructor
  · rw [ops_bind_of_some hp.2, hp.1, hp.after_eq, hf.1]
  · rw [result_bind, hp.2, Option.bind_some, hp.after_eq, hf.2]

/-- A sequence goes no further than its first procedure. -/
theorem Performs.bind_none {p : Proc σ Op α} {s : σ} {l : List Op}
    (hp : p.Performs s l none) (f : α → Proc σ Op β) : (p >>= f).Performs s l none := by
  constructor
  · rw [ops_bind_of_none hp.2, hp.1]
  · rw [result_bind, hp.2, Option.bind_none]

theorem performs_pure (a : α) (s : σ) : (pure a : Proc σ Op α).Performs s [] (some a) := ⟨rfl, rfl⟩

theorem Performs.read_bind {g : σ → Option α} {f : α → Proc σ Op β} {s : σ} {l : List Op}
    {a : α} {r : Option β} (hg : g s = some a) (hf : (f a).Performs s l r) :
    (read g >>= f).Performs s l r :=
  Performs.bind (l := []) (hg ▸ performs_read g s) hf

theorem Performs.read_bind_none {g : σ → Option α} {s : σ} (hg : g s = none)
    (f : α → Proc σ Op β) : (read g >>= f).Performs s [] none :=
  Performs.bind_none (hg ▸ performs_read g s) f

/-- One operation, then the rest. -/
theorem Performs.perform_bind {op : Op} {f : Unit → Proc σ Op β} {s : σ} {l : List Op}
    {r : Option β} (hf : (f ()).Performs (Exec.exec s op) l r) :
    (perform op >>= f).Performs s (op :: l) r :=
  Performs.bind (l := [op]) ⟨rfl, rfl⟩ hf

/-! ### A procedure that starts by reading -/

theorem ops_read_bind {g : σ → Option α} {s : σ} {a : α}
    (h : (read g : Proc σ Op α).result s = some a) (f : α → Proc σ Op β) :
    (read g >>= f).ops s = (f a).ops s :=
  ops_bind_of_some h f

theorem result_read_bind {g : σ → Option α} {s : σ} {a : α}
    (h : (read g : Proc σ Op α).result s = some a) (f : α → Proc σ Op β) :
    (read g >>= f).result s = (f a).result s := by
  rw [result_bind, h, Option.bind_some, after_read]

theorem ops_read_bind_none {g : σ → Option α} {s : σ}
    (h : (read g : Proc σ Op α).result s = none) (f : α → Proc σ Op β) :
    (read g >>= f).ops s = [] :=
  ops_bind_of_none h f

/-- A sequence performs what its first procedure does when the second one performs nothing. -/
theorem ops_bind_of_silent (p : Proc σ Op α) {f : α → Proc σ Op β}
    (hf : ∀ a s, (f a).ops s = []) (s : σ) : (p >>= f).ops s = p.ops s := by
  cases h : p.result s with
  | none => rw [ops_bind_of_none h]
  | some a => rw [ops_bind_of_some h, hf, List.append_nil]

/-- Returning something else performs the same. -/
theorem ops_bind_pure (p : Proc σ Op α) (f : α → β) (s : σ) :
    (p >>= fun a => pure (f a)).ops s = p.ops s :=
  ops_bind_of_silent p (fun _ _ => rfl) s

theorem result_bind_pure (p : Proc σ Op α) (f : α → β) (s : σ) :
    (p >>= fun a => pure (f a)).result s = (p.result s).map f := by
  rw [result_bind]
  cases p.result s with
  | none => rfl
  | some a => rfl

/-! ### Operations of one kind -/

theorem within_pure (a : α) : Within P (pure a : Proc σ Op α) := by
  intro s op hop
  simp at hop

/-- **A sequence performs what its procedures perform.** -/
theorem Within.bind {p : Proc σ Op α} {f : α → Proc σ Op β} (hp : p.Within P)
    (hf : ∀ a, (f a).Within P) : (p >>= f).Within P := by
  intro s op hop
  cases hr : p.result s with
  | none =>
      rw [ops_bind_of_none hr] at hop
      exact hp s op hop
  | some a =>
      rw [ops_bind_of_some hr, List.mem_append] at hop
      rcases hop with hop | hop
      · exact hp s op hop
      · exact hf a _ op hop

end Proc

end CLib
