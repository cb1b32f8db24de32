import Mathlib.Data.List.Basic
import Mathlib.Data.List.Nodup

/-!
# Relations

A relation with named columns and rows in order, a row giving a value to each column.
`restrict` keeps the rows with a property and `project` the columns of a selection, in the
order the relation has them; `values` are the rows as lists of values.

## Main results

* `values_getElem?`: a value of a projected row, found through the position of its column.
-/

namespace CLib

/-- Rows over a list of distinct columns. -/
structure Relation (Col Val : Type*) where
  columns : List Col
  nodup : columns.Nodup
  rows : List (Col → Val)

namespace Relation

variable {Col Val : Type*}

/-- The rows with a property, in order. -/
def restrict (R : Relation Col Val) (p : (Col → Val) → Bool) : Relation Col Val :=
  { R with rows := R.rows.filter p }

/-- The rows as lists of values, in column order. -/
def values (R : Relation Col Val) : List (List Val) := R.rows.map fun r => R.columns.map r

/-- **A value is found through the position of its column.** -/
theorem values_getElem? [BEq Col] [LawfulBEq Col] {R : Relation Col Val} {i : ℕ}
    {r : Col → Val} (hrow : R.rows[i]? = some r) {c : Col} (hc : c ∈ R.columns) :
    ∃ cells, R.values[i]? = some cells ∧ ∃ j, R.columns.idxOf? c = some j ∧
      cells[j]? = some (r c) := by
  refine ⟨R.columns.map r, by rw [values, List.getElem?_map, hrow, Option.map_some], ?_⟩
  obtain ⟨j, hj⟩ := Option.isSome_iff_exists.mp (List.isSome_idxOf?.mpr hc)
  refine ⟨j, hj, ?_⟩
  have hget : R.columns[j]? = some c := by
    obtain ⟨hlt, heq, -⟩ := List.idxOf?_eq_some_iff.mp hj
    rw [List.getElem?_eq_getElem hlt, heq]
  rw [List.getElem?_map, hget, Option.map_some]

variable [DecidableEq Col]

/-- The columns of a selection, in the order of the relation. -/
def project (R : Relation Col Val) (sel : List Col) : Relation Col Val :=
  { columns := R.columns.filter (· ∈ sel), nodup := R.nodup.filter _, rows := R.rows }

end Relation

end CLib
