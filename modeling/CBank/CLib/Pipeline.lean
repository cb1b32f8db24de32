import Mathlib.Data.List.Basic

/-!
# Pipelines

Stages that change a state one after the other, until one of them leaves a state that stops
the pipeline, or has no defined result. `runStages stop fs s` are the states the stages that
ran left, in order, and how the run ended.

## Main results

* `runStages_append_passed`: a pipeline in two parts.
* `runStages_stop`: nothing runs after a state that stops.
* `inv_of_passed`, `exists_stage_of_stopped`: an invariant of the stages, where a pipeline passes
  and where it stops.
-/

namespace CLib

/-- How a pipeline ended: it passed, or stopped, with a state, or a stage was undefined. -/
inductive Verdict (σ : Type*)
  | passed (s : σ)
  | stopped (s : σ)
  | undefined

variable {σ α : Type*}

/-- The states left by the stages that ran, and how the run ended. -/
def runStages (stop : σ → Bool) : List (σ → Option σ) → σ → List σ × Verdict σ
  | [], s => ([], .passed s)
  | f :: fs, s => match f s with
    | none => ([], .undefined)
    | some s' =>
        if stop s' then ([s'], .stopped s')
        else (s' :: (runStages stop fs s').1, (runStages stop fs s').2)

variable {stop : σ → Bool} {fs gs : List (σ → Option σ)} {s b : σ}

/-- A first stage that passes is followed by the others. -/
theorem runStages_cons_of_passes {f : σ → Option σ} (hf : f s = some b) (hb : stop b = false) :
    runStages stop (f :: fs) s = (b :: (runStages stop fs b).1, (runStages stop fs b).2) := by
  simp [runStages, hf, hb]

/-- **A pipeline that passes passes its first stage.** -/
theorem runStages_cons_passed {f : σ → Option σ} {c : σ}
    (h : (runStages stop (f :: fs) s).2 = .passed c) :
    ∃ b, f s = some b ∧ stop b = false ∧ (runStages stop fs b).2 = .passed c := by
  cases hf : f s with
  | none => simp [runStages, hf] at h
  | some b =>
      cases hb : stop b with
      | true => simp [runStages, hf, hb] at h
      | false =>
          rw [runStages_cons_of_passes hf hb] at h
          exact ⟨b, rfl, hb, h⟩

/-- **A pipeline in two parts**: the second one runs when the first one passes, from the
state it left. -/
theorem runStages_append_passed {c : σ} (h : (runStages stop (fs ++ gs) s).2 = .passed c) :
    ∃ b, (runStages stop fs s).2 = .passed b ∧ (runStages stop gs b).2 = .passed c ∧
      (runStages stop (fs ++ gs) s).1 = (runStages stop fs s).1 ++ (runStages stop gs b).1 := by
  induction fs generalizing s with
  | nil => exact ⟨s, rfl, h, rfl⟩
  | cons f fs ih =>
      obtain ⟨b, hf, hb, hrest⟩ := runStages_cons_passed h
      obtain ⟨b', hpassed, hgs, hleft⟩ := ih hrest
      refine ⟨b', ?_, hgs, ?_⟩
      · rw [runStages_cons_of_passes hf hb, hpassed]
      · rw [List.cons_append, runStages_cons_of_passes hf hb, runStages_cons_of_passes hf hb,
          hleft]
        rfl

/-- The state a pipeline passes with is the last one left. -/
theorem getElem?_of_passed (h : (runStages stop fs s).2 = .passed b) :
    (s :: (runStages stop fs s).1)[fs.length]? = some b := by
  induction fs generalizing s with
  | nil =>
      obtain rfl : s = b := by simpa [runStages] using h
      rfl
  | cons f fs ih =>
      obtain ⟨a, hf, ha, hrest⟩ := runStages_cons_passed h
      rw [runStages_cons_of_passes hf ha, List.length_cons, List.getElem?_cons_succ]
      exact ih hrest

/-- **Nothing runs after a state that stops.** -/
theorem runStages_stop {i : ℕ} (hi : (runStages stop fs s).1[i]? = some b)
    (hb : stop b = true) :
    (runStages stop fs s).1.length = i + 1 ∧ (runStages stop fs s).2 = .stopped b := by
  induction fs generalizing s i with
  | nil => simp [runStages] at hi
  | cons f fs ih =>
      cases hf : f s with
      | none => simp [runStages, hf] at hi
      | some a =>
          cases ha : stop a with
          | true =>
              simp only [runStages, hf, ha, if_true] at hi ⊢
              cases i with
              | zero =>
                  obtain rfl := Option.some.inj hi
                  exact ⟨rfl, rfl⟩
              | succ i => simp at hi
          | false =>
              rw [runStages_cons_of_passes hf ha] at hi ⊢
              cases i with
              | zero =>
                  obtain rfl : a = b := by simpa using hi
                  rw [hb] at ha
                  exact Bool.noConfusion ha
              | succ i =>
                  obtain ⟨hlen, hverdict⟩ := ih hi
                  exact ⟨by rw [List.length_cons, hlen], hverdict⟩

/-- **An invariant of the stages that pass** holds where a pipeline passes. Induction along the
stages. -/
theorem inv_of_passed {P : σ → Prop}
    (hstep : ∀ f ∈ fs, ∀ a b, P a → f a = some b → stop b = false → P b) (hs : P s)
    (h : (runStages stop fs s).2 = .passed b) : P b := by
  induction fs generalizing s with
  | nil =>
      obtain rfl : s = b := by simpa [runStages] using h
      exact hs
  | cons f fs ih =>
      obtain ⟨a, hf, ha, hrest⟩ := runStages_cons_passed h
      exact ih (fun f' hf' => hstep f' (List.mem_cons_of_mem _ hf'))
        (hstep f List.mem_cons_self s a hs hf ha) hrest

/-- **Where a pipeline stops**: a stage left the state it stops with, from one the invariant
holds of; that state is the last one left. -/
theorem exists_stage_of_stopped {P : σ → Prop}
    (hstep : ∀ f ∈ fs, ∀ a b, P a → f a = some b → stop b = false → P b) (hs : P s)
    (h : (runStages stop fs s).2 = .stopped b) :
    (∃ f ∈ fs, ∃ a, P a ∧ f a = some b ∧ stop b = true) ∧
      (runStages stop fs s).1.getLast? = some b := by
  induction fs generalizing s with
  | nil => simp [runStages] at h
  | cons f fs ih =>
      cases hf : f s with
      | none => simp [runStages, hf] at h
      | some a =>
          cases ha : stop a with
          | true =>
              simp only [runStages, hf, ha, if_true, Verdict.stopped.injEq] at h ⊢
              subst h
              exact ⟨⟨f, List.mem_cons_self, s, hs, hf, ha⟩, rfl⟩
          | false =>
              rw [runStages_cons_of_passes hf ha] at h ⊢
              obtain ⟨⟨f', hf', c, hc, hstage⟩, hlast⟩ :=
                ih (fun f' hf' => hstep f' (List.mem_cons_of_mem _ hf'))
                  (hstep f List.mem_cons_self s a hs hf ha) h
              refine ⟨⟨f', List.mem_cons_of_mem _ hf', c, hc, hstage⟩, ?_⟩
              rw [List.getLast?_cons, hlast]
              rfl

/-- **What every stage keeps is kept** by a pipeline that passes. -/
theorem eq_of_passed {g : σ → α} (hkeeps : ∀ f ∈ fs, ∀ a b, f a = some b → g b = g a)
    (h : (runStages stop fs s).2 = .passed b) : g b = g s :=
  inv_of_passed (P := fun a => g a = g s)
    (fun f hf a b ha hab _ => (hkeeps f hf a b hab).trans ha) rfl h

end CLib
