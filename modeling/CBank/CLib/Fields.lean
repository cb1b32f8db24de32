import CBank.CLib.Memory
import Mathlib.Data.List.Nodup
import Mathlib.Data.List.Perm.Basic

/-!
# Strings Written into a Structure

What a function does to a structure of character arrays, as the list of the strings it copies and
the arrays it copies them to. A write is within its array when the string and its NUL fit it.
Writes within different arrays do not touch each other, so their order does not matter.

## Main results

* `strcpy_comm`: two copies to separate places commute.
* `Layout.storeAll_perm`: writes within different arrays can be done in any order.
-/

namespace CLib

/-- A string copied to an array of a structure. -/
structure FieldWrite (ι : Type*) where
  field : ι
  text : Bytes
  deriving DecidableEq

/-- The bytes a write stores: the string and its NUL. -/
def FieldWrite.size {ι : Type*} (w : FieldWrite ι) : ℕ := w.text.length + 1

/-- Two copies to separate places commute. -/
theorem strcpy_comm {mem s t : Bytes} {a b : ℕ}
    (hsep : a + s.length < b ∨ b + t.length < a) :
    (strcpy mem a s).bind (fun mem => strcpy mem b t) =
      (strcpy mem b t).bind fun mem => strcpy mem a s := by
  have hnone : ∀ {mem' s t : Bytes} {a b : ℕ}, strcpy mem a s = some mem' →
      strcpy mem b t = none → strcpy mem' b t = none := by
    intro mem' s t a b hs ht
    rw [strcpy_eq_none_iff] at ht ⊢
    rwa [length_strcpy hs]
  have hthen : ∀ {mem' mem'' s t : Bytes} {a b : ℕ}, strcpy mem a s = some mem' →
      strcpy mem b t = some mem'' → ∃ out, strcpy mem' b t = some out := by
    intro mem' mem'' s t a b hs ht
    refine strcpy_of_fits ?_
    rw [length_strcpy hs]
    exact fits_of_strcpy ht
  cases hs : strcpy mem a s with
  | none =>
      cases ht : strcpy mem b t with
      | none => rfl
      | some mem' => exact (hnone ht hs).symm
  | some mem₁ =>
      cases ht : strcpy mem b t with
      | none => exact hnone hs ht
      | some mem₂ =>
          obtain ⟨mem₁₂, h₁₂⟩ := hthen hs ht
          obtain ⟨mem₂₁, h₂₁⟩ := hthen ht hs
          rw [Option.bind_some, Option.bind_some, h₁₂, h₂₁, Option.some.injEq]
          refine List.ext_getElem? fun j => ?_
          rw [getElem?_strcpy h₁₂, getElem?_strcpy h₂₁, getElem?_strcpy hs, getElem?_strcpy ht]
          by_cases hja : a ≤ j ∧ j ≤ a + s.length
          · rw [if_pos hja, if_neg (by omega), if_pos hja]
          · rw [if_neg hja, if_neg hja]

namespace Layout

variable {ι : Type*} {L : Layout ι} {mem : Bytes} {ws : List (FieldWrite ι)}

/-- The string of a write fits its array. -/
def Within (L : Layout ι) (w : FieldWrite ι) : Prop := w.size ≤ (L.field w.field).size

instance (L : Layout ι) (w : FieldWrite ι) : Decidable (L.Within w) :=
  inferInstanceAs (Decidable (w.size ≤ (L.field w.field).size))

/-- A write. -/
def store (L : Layout ι) (mem : Bytes) (w : FieldWrite ι) : Option Bytes :=
  strcpy mem (L.field w.field).offset w.text

/-- Writes in order. -/
def storeAll (L : Layout ι) (mem : Bytes) (ws : List (FieldWrite ι)) : Option Bytes :=
  ws.foldlM L.store mem

/-- The string of a write, with its NUL, ends inside the structure, whatever arrays it runs
over. -/
def Inside (L : Layout ι) (w : FieldWrite ι) : Prop :=
  (L.field w.field).offset + w.text.length < L.size

/-- **Writes are defined exactly when each of them ends inside the structure.** Induction along
the writes. -/
theorem isSome_storeAll_iff (hlen : mem.length = L.size) :
    (L.storeAll mem ws).isSome ↔ ∀ w ∈ ws, L.Inside w := by
  induction ws generalizing mem with
  | nil => simp [storeAll]
  | cons w ws ih =>
      rw [storeAll, List.foldlM_cons, List.forall_mem_cons]
      by_cases hin : L.Inside w
      · obtain ⟨mem', hstore⟩ : ∃ mem', L.store mem w = some mem' :=
          strcpy_of_fits (by rw [hlen]; exact hin)
        rw [hstore, Option.bind_eq_bind, Option.bind_some]
        exact (ih ((length_strcpy hstore).trans hlen)).trans (and_iff_right hin).symm
      · have hnone : L.store mem w = none :=
          strcpy_eq_none_iff.mpr (by rw [hlen]; exact not_lt.mp hin)
        rw [hnone, Option.bind_eq_bind, Option.bind_none]
        exact iff_of_false (by simp) fun h => hin h.1

theorem storeAll_eq_foldl (L : Layout ι) (mem : Bytes) (ws : List (FieldWrite ι)) :
    L.storeAll mem ws = ws.foldl (fun out w => out.bind fun mem => L.store mem w) (some mem) := by
  have hfold : ∀ (ws : List (FieldWrite ι)) (out : Option Bytes),
      out.bind (fun mem => ws.foldlM L.store mem) =
        ws.foldl (fun out w => out.bind fun mem => L.store mem w) out := by
    intro ws
    induction ws with
    | nil =>
        intro out
        cases out with
        | none => rfl
        | some mem => rfl
    | cons w ws ih =>
        intro out
        rw [List.foldl_cons, ← ih]
        cases out with
        | none => rfl
        | some mem => rfl
  rw [← hfold]
  rfl

/-- **The order of writes within different arrays does not matter.** -/
theorem storeAll_perm {ws' : List (FieldWrite ι)} (hperm : ws.Perm ws')
    (hwithin : ∀ w ∈ ws, L.Within w) (hnodup : (ws.map FieldWrite.field).Nodup) :
    L.storeAll mem ws = L.storeAll mem ws' := by
  rw [storeAll_eq_foldl, storeAll_eq_foldl]
  refine hperm.foldl_eq' ?_ (some mem)
  intro v hv w hw out
  by_cases hvw : v.field = w.field
  · rw [List.inj_on_of_nodup_map hnodup hv hw hvw]
  · cases out with
    | none => rfl
    | some mem =>
        have h₁ := hwithin v hv
        have h₂ := hwithin w hw
        simp only [Within, FieldWrite.size] at h₁ h₂
        refine strcpy_comm ?_
        rcases L.disjoint v.field w.field hvw with h | h
        · exact Or.inl (by omega)
        · exact Or.inr (by omega)

end Layout

end CLib
