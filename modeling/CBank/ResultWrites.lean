import CBank.AccountStore
import CBank.ResultAlignment

/-!
# Where a Select Writes

The arrays `select_executor` fills, and the indices it fills them at. `result_data` has room for
100 rows, the values of a row and `column_order` for 20 each, and the two loops count without
looking: a row is written for every matching line, and a value for every pair of the line and every
selected column of its name. The siblings check before they write (`qwhere` against
`CONDITION_COUNT`, `set_for_insert` against `MAX_INSERT_PAIRS`).

## Main results

* `isSome_selectExecutor_iff`: a select has a defined result when its writes stay inside.
* `selectWrites_inside_iff`: they do for tables with few matching lines of few selected pairs.
-/

namespace CBank

open CLib

/-! ### The writes -/

/-- The arrays `select_executor` fills. -/
inductive ResultArray
  | resultData
  | columns
  | columnOrder
  deriving DecidableEq

/-- The room in an array. -/
def ResultArray.capacity : ResultArray → ℕ
  | .resultData => rsMaxRows
  | .columns => rsMaxCols
  | .columnOrder => rsMaxCols

/-- A write of `select_executor`. -/
structure ResultWrite where
  array : ResultArray
  index : ℕ
  deriving DecidableEq

/-- The write stays inside its array. -/
def ResultWrite.Inside (w : ResultWrite) : Prop := w.index < w.array.capacity

instance (w : ResultWrite) : Decidable w.Inside :=
  inferInstanceAs (Decidable (w.index < w.array.capacity))

/-- The writes of one value: its column name with the first line, and the value. -/
def valueWrites (lineCount colCount : ℕ) : List ResultWrite :=
  (if lineCount = 0 then [⟨.columnOrder, colCount⟩] else []) ++ [⟨.columns, colCount⟩]

/-- The writes for the pairs of a line, when `colCount` values are there: one for each selected
column of the name of a pair. -/
def pairWrites (columns : List Bytes) (lineCount : ℕ) : ℕ → Row → List ResultWrite
  | _, [] => []
  | colCount, pair :: pairs =>
      (List.range' colCount (columns.count pair.1)).flatMap (valueWrites lineCount) ++
        pairWrites columns lineCount (colCount + columns.count pair.1) pairs

/-- The writes of the loop over the lines, when `lineCount` rows are there. -/
def selectLineWrites (q : SelectQuery) : ℕ → List Bytes → List ResultWrite
  | _, [] => []
  | lineCount, line :: lines =>
      if applySelectWhere q line then
        pairWrites q.columns lineCount 0 (linePairs line) ++
          ⟨.resultData, lineCount⟩ :: selectLineWrites q (lineCount + 1) lines
      else selectLineWrites q lineCount lines

/-- The writes of `select_executor` on the contents of a table. -/
def selectWrites (q : SelectQuery) (text : Bytes) : List ResultWrite :=
  selectLineWrites q 0 (tableLines text)

/-! ### Where they go -/

/-- How many values the pairs of a line have for the selected columns. -/
def valueCount (columns : List Bytes) (pairs : Row) : ℕ :=
  (pairs.map fun pair => columns.count pair.1).sum

theorem valueCount_cons (columns : List Bytes) (pair : Bytes × Bytes) (pairs : Row) :
    valueCount columns (pair :: pairs) = columns.count pair.1 + valueCount columns pairs :=
  List.sum_cons

/-- As many as the executor selects. -/
theorem length_selectPairs (columns : List Bytes) (line : Bytes) :
    (selectPairs columns line).length = valueCount columns (linePairs line) := by
  have hcount : ∀ pair : Bytes × Bytes,
      ((columns.filter (· = pair.1)).map fun _ => pair).length = columns.count pair.1 := by
    intro pair
    rw [List.length_map, List.filter_eq, List.length_replicate]
  rw [selectPairs, List.length_flatMap, valueCount]
  simp only [hcount]

theorem valueWrites_inside_iff {lineCount colCount : ℕ} :
    (∀ w ∈ valueWrites lineCount colCount, w.Inside) ↔ colCount < rsMaxCols := by
  have hcolumns : (⟨.columns, colCount⟩ : ResultWrite).Inside ↔ colCount < rsMaxCols := Iff.rfl
  have horder : (⟨.columnOrder, colCount⟩ : ResultWrite).Inside ↔ colCount < rsMaxCols := Iff.rfl
  rw [valueWrites]
  split
  · simp [hcolumns, horder]
  · simp [hcolumns]

/-- The values of a line are written to consecutive places. Induction along the pairs. -/
theorem pairWrites_inside_iff {columns : List Bytes} {lineCount colCount : ℕ} {pairs : Row}
    (hcount : colCount ≤ rsMaxCols) :
    (∀ w ∈ pairWrites columns lineCount colCount pairs, w.Inside) ↔
      colCount + valueCount columns pairs ≤ rsMaxCols := by
  induction pairs generalizing colCount with
  | nil => simpa [pairWrites, valueCount] using hcount
  | cons pair pairs ih =>
      have hplaces : (∀ w ∈ (List.range' colCount (columns.count pair.1)).flatMap
          (valueWrites lineCount), w.Inside) ↔ colCount + columns.count pair.1 ≤ rsMaxCols := by
        simp only [List.mem_flatMap, List.mem_range'_1]
        constructor
        · intro h
          by_contra hlong
          have hlast := valueWrites_inside_iff.mp fun w hw =>
            h w ⟨rsMaxCols, ⟨hcount, not_le.mp hlong⟩, hw⟩
          omega
        · rintro hle w ⟨i, ⟨-, hi⟩, hw⟩
          exact valueWrites_inside_iff.mpr (by omega) w hw
      rw [pairWrites, List.forall_mem_append, hplaces, valueCount_cons, ← Nat.add_assoc]
      constructor
      · rintro ⟨hle, h⟩
        exact (ih hle).mp h
      · intro h
        have hle : colCount + columns.count pair.1 ≤ rsMaxCols := by omega
        exact ⟨hle, (ih hle).mpr h⟩

/-- The rows are written to consecutive places. Induction along the lines. -/
theorem selectLineWrites_inside_iff {q : SelectQuery} {lineCount : ℕ} {lines : List Bytes}
    (hcount : lineCount ≤ rsMaxRows) :
    (∀ w ∈ selectLineWrites q lineCount lines, w.Inside) ↔
      lineCount + (matchingLines q lines).length ≤ rsMaxRows ∧
        ∀ line ∈ matchingLines q lines, valueCount q.columns (linePairs line) ≤ rsMaxCols := by
  induction lines generalizing lineCount with
  | nil => simpa [selectLineWrites, matchingLines] using hcount
  | cons line lines ih =>
      by_cases hkept : applySelectWhere q line = true
      · have hmatching : matchingLines q (line :: lines) = line :: matchingLines q lines := by
          simp [matchingLines, hkept]
        have hrow : (⟨.resultData, lineCount⟩ : ResultWrite).Inside ↔ lineCount < rsMaxRows :=
          Iff.rfl
        have hpairs := @pairWrites_inside_iff q.columns lineCount 0 (linePairs line)
          (Nat.zero_le _)
        rw [Nat.zero_add] at hpairs
        rw [selectLineWrites, if_pos hkept, List.forall_mem_append, List.forall_mem_cons, hpairs,
          hrow, hmatching, List.forall_mem_cons, List.length_cons]
        constructor
        · rintro ⟨hvalues, hlt, hrest⟩
          obtain ⟨hlen, hall⟩ := (ih hlt).mp hrest
          exact ⟨by omega, hvalues, hall⟩
        · rintro ⟨hlen, hvalues, hall⟩
          exact ⟨hvalues, by omega, (ih (by omega)).mpr ⟨by omega, hall⟩⟩
      · have hmatching : matchingLines q (line :: lines) = matchingLines q lines := by
          simp [matchingLines, hkept]
        rw [selectLineWrites, if_neg hkept, hmatching, ih hcount]

/-- **A select has a defined result** exactly when its writes stay inside the arrays. -/
theorem isSome_selectExecutor_iff (q : SelectQuery) (text : Bytes) :
    (selectExecutor q (some text)).isSome ↔ ∀ w ∈ selectWrites q text, w.Inside := by
  rw [selectWrites, selectLineWrites_inside_iff (Nat.zero_le _), Nat.zero_add,
    Option.isSome_iff_exists]
  simp only [selectExecutor_eq_some_iff, exists_eq_left, matchedRows, List.length_map,
    List.forall_mem_map, length_selectPairs]
  rfl

/-- **Where a select writes.** For every query and every table, each index is below the capacity of
its array exactly when at most 100 lines match and the pairs of each of them have at most 20 values
for the selected columns. -/
theorem selectWrites_inside_iff (q : SelectQuery) (text : Bytes) :
    (∀ w ∈ selectWrites q text, w.index < w.array.capacity) ↔
      (matchingLines q (tableLines text)).length ≤ rsMaxRows ∧
        ∀ line ∈ matchingLines q (tableLines text),
          valueCount q.columns (linePairs line) ≤ rsMaxCols := by
  have h := @selectLineWrites_inside_iff q 0 (tableLines text) (Nat.zero_le _)
  rwa [Nat.zero_add] at h

/-- The rows of the matching lines are written one after the other. Induction along the lines. -/
theorem mem_selectLineWrites {q : SelectQuery} {lineCount i : ℕ} {lines : List Bytes}
    (h : i < (matchingLines q lines).length) :
    ⟨.resultData, lineCount + i⟩ ∈ selectLineWrites q lineCount lines := by
  induction lines generalizing lineCount i with
  | nil => exact absurd h (Nat.not_lt_zero _)
  | cons line lines ih =>
      rw [selectLineWrites]
      split
      · rename_i hkept
        rw [matchingLines, List.filter_cons_of_pos hkept, List.length_cons] at h
        cases i with
        | zero => exact List.mem_append_right _ List.mem_cons_self
        | succ i =>
            have hrest := @ih (lineCount + 1) i (Nat.lt_of_succ_lt_succ h)
            rw [Nat.add_right_comm] at hrest
            exact List.mem_append_right _ (List.mem_cons_of_mem _ hrest)
      · rename_i hkept
        rw [matchingLines, List.filter_cons_of_neg hkept] at h
        exact ih h

/-- The account table after `n` registrations. -/
def accountsAfter (n : ℕ) : List Bytes :=
  (List.range n).map fun i => rowText (accountRow (printNat i) (printNat i)
    (lit "2024-01-01 00:00:00"))

/-- **The hundred and first account.** Listing the accounts writes a row behind `result_data`. -/
theorem selectWrites_many_accounts :
    ⟨.resultData, 100⟩ ∈ selectWrites (qselectAllFrom .account) (linesText (accountsAfter 101)) ∧
      ¬ ∀ w ∈ selectWrites (qselectAllFrom .account) (linesText (accountsAfter 101)),
        w.index < w.array.capacity := by
  have hok : ∀ line ∈ accountsAfter 101, NulFree line ∧ newline ∉ line ∧
      line.length + 1 < 1024 := by decide +kernel
  have hlines : tableLines (linesText (accountsAfter 101)) = accountsAfter 101 :=
    fileLines_linesText hok
  have hall : matchingLines (qselectAllFrom .account) (accountsAfter 101) = accountsAfter 101 :=
    List.filter_eq_self.mpr fun _ _ => rfl
  have hwrite : ⟨.resultData, 100⟩ ∈
      selectWrites (qselectAllFrom .account) (linesText (accountsAfter 101)) := by
    have hmem := @mem_selectLineWrites (qselectAllFrom .account) 0 100 (accountsAfter 101) (by
      rw [hall, accountsAfter, List.length_map, List.length_range]
      norm_num)
    rw [selectWrites, hlines]
    simpa using hmem
  exact ⟨hwrite, fun h => absurd (h _ hwrite) (by decide)⟩

end CBank
