import CBank.CLib.Double
import CBank.CLib.Memory
import CBank.CLib.Relation
import CBank.TableFile

/-!
# Select Queries

`orm/select_query.c` and `orm/filtering.c`. The executor goes through the lines of a table,
keeps those `apply_select_where` accepts, and stores the selected pairs of each; the column
names are recorded at the first line kept. A line satisfies a condition unless it has a pair
with that column that fails it, so a line without the column satisfies it.

A result set holds at most 100 rows of at most 20 pairs; storing more runs past its arrays,
and has no defined result (`none`), like reading a table that does not exist.

## Main results

* `selectExecutor_eq_some_iff`: what a select returns, from the lines of the file.
* `Storable.applySelectWhere`, `Storable.selectPairs`: a well-formed row is filtered and
  projected like the row of a relation.
* `select_refines_relation`: on the text of a relation, select is restrict and project.
-/

namespace CBank

open CLib

/-- `WhereCondition`. -/
structure WhereCondition where
  column : Bytes
  operator : Bytes
  value : Bytes
  deriving DecidableEq, Repr

/-- `SelectQuery`. -/
structure SelectQuery where
  table : Store
  columns : List Bytes
  conditions : List WhereCondition
  deriving DecidableEq, Repr

/-- `CONDITION_COUNT`, `RS_MAX_COLS` and `RS_MAX_ROWS`. -/
abbrev conditionCount : ℕ := 10
abbrev rsMaxCols : ℕ := 20
abbrev rsMaxRows : ℕ := 100

/-- `new_select_query` followed by `qfrom`. -/
def newSelectQuery (table : Store) : SelectQuery := ⟨table, [], []⟩

/-- `qselect`, on a query that selects nothing yet: the names between the commas of the
first 1023 bytes. -/
def qselect (q : SelectQuery) (columns : Bytes) : SelectQuery :=
  { q with columns := tokens (· == ch ',') (columns.take 1023) }

/-- `qselect_all_from`. -/
def qselectAllFrom (table : Store) : SelectQuery :=
  match table with
  | .user => qselect (newSelectQuery .user)
      (lit "id,name,cpf,email,password,created_at,updated_at,is_active")
  | .account => qselect (newSelectQuery .account)
      (lit "id,balance,user_id_fk,created_at,updated_at")
  | table => newSelectQuery table

/-- `qwhere`: a condition past the last slot is dropped. -/
def qwhere (q : SelectQuery) (column operator value : Bytes) : SelectQuery :=
  if q.conditions.length < conditionCount then
    { q with conditions := q.conditions ++ [⟨column, operator, value⟩] }
  else q

/-- `compare`. -/
def compare (left op right : Bytes) : Bool :=
  if op = lit "=" then left = right
  else if op = lit "!=" then left ≠ right
  else if op = lit ">" then atof left > atof right
  else if op = lit "<" then atof left < atof right
  else if op = lit ">=" then atof left ≥ atof right
  else if op = lit "<=" then atof left ≤ atof right
  else false

/-- `apply_select_where`. -/
def applySelectWhere (q : SelectQuery) (line : Bytes) : Bool :=
  if q.conditions = [] then true
  else (linePairs (line.take 1023)).all fun pair =>
    q.conditions.all fun clause =>
      clause.column ≠ pair.1 || compare pair.2 clause.operator clause.value

/-- `ResultSet`: the values of the rows kept, how many the last one has, and the column
names of the first one. -/
structure ResultSet where
  data : List (List Bytes)
  cols : ℕ
  columnOrder : List Bytes
  deriving DecidableEq, Repr

/-- `rs->rows`. -/
def ResultSet.rows (rs : ResultSet) : ℕ := rs.data.length

/-- The pairs of a line the loop over the selected columns stores. -/
def selectPairs (columns : List Bytes) (line : Bytes) : Row :=
  (linePairs line).flatMap fun pair => (columns.filter (· = pair.1)).map fun _ => pair

/-- What one line does to the result set. -/
def selectLine (q : SelectQuery) (rs : ResultSet) (line : Bytes) : Option ResultSet :=
  if applySelectWhere q line then
    let columns := selectPairs q.columns line
    if columns.length ≤ rsMaxCols ∧ rs.rows < rsMaxRows then
      some {
        data := rs.data ++ [columns.map Prod.snd]
        cols := columns.length
        columnOrder := if rs.rows = 0 then columns.map Prod.fst else rs.columnOrder }
    else none
  else some rs

/-- `select_executor` on the contents of the table. -/
def selectExecutor (q : SelectQuery) (file : Option Bytes) : Option ResultSet := do
  let text ← file
  (tableLines text).foldlM (selectLine q) ⟨[], 0, []⟩

/-- `get_row_col_value`; `none` when no column has the name. -/
def getRowColValue (rs : ResultSet) (row : ℕ) (column : Bytes) : Option Bytes := do
  let cells ← rs.data[row]?
  let i ← (rs.columnOrder.take rs.cols).idxOf? column
  cells[i]?

/-- What `%s` prints for a pointer, NULL included. -/
def printStr (s : Option Bytes) : Bytes := s.getD (lit "(null)")

/-- `full_line` into a buffer of `size` bytes. -/
def fullLine (rs : ResultSet) (line size : ℕ) : Option Bytes :=
  let values := rs.data.getD line []
  snprintfs size ((List.range rs.cols).flatMap fun i =>
    [printStr rs.columnOrder[i]?, [ch '='], printStr values[i]?] ++
      if i + 1 < rs.cols then [[ch ';']] else [])

/-- `get_line_from_resultset`, of a row the result set has. A column without a name or a value is
NULL, and the text of no columns does not end within its block. -/
def getLineFromResultset (rs : ResultSet) (line : ℕ) : Option Bytes := do
  let values := rs.data.getD line []
  let cells ← (List.range rs.cols).mapM fun i => do
    let column ← rs.columnOrder[i]?
    let value ← values[i]?
    some (column ++ ch '=' :: value)
  if rs.cols = 0 then none else some ([ch ';'].intercalate cells)

/-! ### What a select returns -/

/-- The result set of the rows kept. -/
def ResultSet.ofRows (rows : List Row) : ResultSet where
  data := rows.map fun row => row.map Prod.snd
  cols := (rows.getLast?.map List.length).getD 0
  columnOrder := (rows.head?.map fun row => row.map Prod.fst).getD []

@[simp] theorem rows_ofRows (rows : List Row) : (ResultSet.ofRows rows).rows = rows.length := by
  simp [ResultSet.rows, ResultSet.ofRows]

/-- The rows a query keeps of a text. -/
def matchedRows (q : SelectQuery) (text : Bytes) : List Row :=
  ((tableLines text).filter fun line => applySelectWhere q line).map (selectPairs q.columns)

theorem selectLine_ofRows (q : SelectQuery) (rows : List Row) (line : Bytes)
    (h : applySelectWhere q line = true) :
    selectLine q (ResultSet.ofRows rows) line =
      if (selectPairs q.columns line).length ≤ rsMaxCols ∧ rows.length < rsMaxRows then
        some (ResultSet.ofRows (rows ++ [selectPairs q.columns line]))
      else none := by
  rw [selectLine, if_pos h, rows_ofRows]
  cases rows with
  | nil => simp [ResultSet.ofRows]
  | cons row rows =>
      have hlast : (row :: (rows ++ [selectPairs q.columns line])).getLast? =
          some (selectPairs q.columns line) := by
        rw [← List.cons_append, List.getLast?_concat]
      simp [ResultSet.ofRows, hlast]

/-- **What a select returns**: the rows it keeps, as long as there are at most 100 of at
most 20 pairs. Induction along the lines, from the rows kept so far. -/
theorem selectExecutor_eq_some_iff {q : SelectQuery} {text : Bytes} {rs : ResultSet} :
    selectExecutor q (some text) = some rs ↔
      rs = ResultSet.ofRows (matchedRows q text) ∧
        (matchedRows q text).length ≤ rsMaxRows ∧
        ∀ row ∈ matchedRows q text, row.length ≤ rsMaxCols := by
  have hfold : ∀ (lines : List Bytes) (rows : List Row), rows.length ≤ rsMaxRows →
      (lines.foldlM (selectLine q) (ResultSet.ofRows rows) = some rs ↔
        rs = ResultSet.ofRows (rows ++ (lines.filter fun line => applySelectWhere q line).map
          (selectPairs q.columns)) ∧
        (rows ++ (lines.filter fun line => applySelectWhere q line).map
          (selectPairs q.columns)).length ≤ rsMaxRows ∧
        ∀ row ∈ (lines.filter fun line => applySelectWhere q line).map
          (selectPairs q.columns), row.length ≤ rsMaxCols) := by
    intro lines
    induction lines with
    | nil =>
        intro rows hrows
        simp [hrows, eq_comm]
    | cons line lines ih =>
        intro rows hrows
        by_cases hline : applySelectWhere q line = true
        · rw [List.foldlM_cons, selectLine_ofRows q rows line hline, List.filter_cons,
            if_pos hline, List.map_cons]
          by_cases hfit : (selectPairs q.columns line).length ≤ rsMaxCols ∧
              rows.length < rsMaxRows
          · rw [if_pos hfit, Option.bind_eq_bind, Option.bind_some, ih _ (by
              rw [List.length_append, List.length_singleton]
              exact hfit.2)]
            simp [hfit.1]
          · rw [if_neg hfit, Option.bind_eq_bind, Option.bind_none]
            simp only [reduceCtorEq, false_iff, not_and, List.mem_cons, forall_eq_or_imp]
            intro _ hlen h
            refine absurd ⟨h, ?_⟩ hfit
            simp only [List.length_append, List.length_cons] at hlen
            omega
        · have hstay : selectLine q (ResultSet.ofRows rows) line =
              some (ResultSet.ofRows rows) := by
            rw [selectLine, if_neg hline]
          rw [List.foldlM_cons, hstay, Option.bind_eq_bind, Option.bind_some, ih rows hrows,
            List.filter_cons, if_neg hline]
  have h := hfold (tableLines text) [] (Nat.zero_le _)
  simpa [selectExecutor, matchedRows, ResultSet.ofRows] using h

/-- A select that keeps few rows of few pairs. -/
theorem selectExecutor_eq_ofRows {q : SelectQuery} {text : Bytes} {rows : List Row}
    (hrows : matchedRows q text = rows) (hcount : rows.length ≤ rsMaxRows)
    (hcols : ∀ row ∈ rows, row.length ≤ rsMaxCols) :
    selectExecutor q (some text) = some (ResultSet.ofRows rows) := by
  subst hrows
  exact selectExecutor_eq_some_iff.mpr ⟨rfl, hcount, hcols⟩

/-- The pieces `full_line` prints for a row, joined. -/
theorem flatten_linePieces (row : Row) :
    ((List.range row.length).flatMap fun i =>
      [printStr (row.map Prod.fst)[i]?, [ch '='], printStr (row.map Prod.snd)[i]?] ++
        if i + 1 < row.length then [[ch ';']] else []).flatten = rowText row := by
  induction row using rowText.induct with
  | case1 => rfl
  | case2 col value => simp [rowText, printStr, List.range_succ]
  | case3 col value row hne ih =>
      rw [List.length_cons, List.range_succ_eq_map, List.flatMap_cons, List.flatMap_map,
        List.flatten_append]
      have hpos : 0 < row.length := List.length_pos_of_ne_nil hne
      simp only [List.map_cons, List.getElem?_cons_succ, Nat.add_lt_add_iff_right]
      rw [ih, rowText]
      · simp [printStr, hpos]
      · exact fun h => absurd h hne

/-- **`full_line` prints a row as an insert does**, when all rows kept have its length. -/
theorem fullLine_ofRows {rows : List Row} {row : Row} {size : ℕ}
    (hrow : rows.head? = some row) (hcols : (rows.getLast?.map List.length) = some row.length)
    (hlen : (rowText row).length < size) :
    fullLine (ResultSet.ofRows rows) 0 size = some (rowText row) := by
  obtain ⟨rest, rfl⟩ : ∃ rest, rows = row :: rest := List.head?_eq_some_iff.mp hrow
  have hpieces := flatten_linePieces row
  rw [fullLine]
  simp only [ResultSet.ofRows, List.map_cons, List.head?_cons, Option.map_some, Option.getD_some,
    List.getD_cons_zero, hcols]
  rw [snprintfs_eq_some (by rw [hpieces]; exact hlen), hpieces]

/-- The first of some rows of one length, as `full_line` prints it. -/
theorem fullLine_of_width {rows : List Row} {row : Row} {width size : ℕ}
    (hrow : rows.head? = some row) (hwidth : ∀ row ∈ rows, row.length = width)
    (hlen : (rowText row).length < size) :
    fullLine (ResultSet.ofRows rows) 0 size = some (rowText row) := by
  have hmem := List.mem_of_mem_head? hrow
  have hne := List.ne_nil_of_mem hmem
  refine fullLine_ofRows hrow ?_ hlen
  rw [List.getLast?_eq_some_getLast hne, Option.map_some, hwidth _ (List.getLast_mem hne),
    hwidth row hmem]

/-- A line is made only from a row that has a value for each column of the set. -/
theorem cols_of_getLineFromResultset {rows : List Row} {i : ℕ} {row : Row} {line : Bytes}
    (hrow : rows[i]? = some row)
    (h : getLineFromResultset (ResultSet.ofRows rows) i = some line) :
    0 < (ResultSet.ofRows rows).cols ∧ (ResultSet.ofRows rows).cols ≤ row.length := by
  have hvalues : (ResultSet.ofRows rows).data.getD i [] = row.map Prod.snd := by
    simp [ResultSet.ofRows, hrow]
  obtain ⟨cells, hcells, h⟩ := Option.bind_eq_some_iff.mp h
  obtain ⟨hlen, hcell⟩ := mapM_range_eq_some_iff.mp hcells
  have hpos : (ResultSet.ofRows rows).cols ≠ 0 := by
    intro hzero
    simp [hzero] at h
  refine ⟨Nat.pos_of_ne_zero hpos, ?_⟩
  by_contra hlong
  have hmissing := hcell row.length (not_le.mp hlong)
  rw [hvalues, List.getElem?_eq_getElem (by omega : row.length < cells.length)] at hmissing
  obtain ⟨column, -, hvalue⟩ := Option.bind_eq_some_iff.mp hmissing
  simp at hvalue

/-- **A line of a result set**, when its row has the names of the first one. -/
theorem getLineFromResultset_ofRows {rows : List Row} {i : ℕ} {first row : Row}
    (hfirst : rows.head? = some first) (hrow : rows[i]? = some row)
    (hnames : row.map Prod.fst = first.map Prod.fst) (hpos : 0 < (ResultSet.ofRows rows).cols)
    (hcols : (ResultSet.ofRows rows).cols ≤ row.length) :
    getLineFromResultset (ResultSet.ofRows rows) i =
      some (rowText (row.take (ResultSet.ofRows rows).cols)) := by
  have hvalues : (ResultSet.ofRows rows).data.getD i [] = row.map Prod.snd := by
    simp [ResultSet.ofRows, hrow]
  have horder : (ResultSet.ofRows rows).columnOrder = row.map Prod.fst := by
    simp [ResultSet.ofRows, hfirst, hnames]
  rw [getLineFromResultset, hvalues, horder]
  set n := (ResultSet.ofRows rows).cols with hn
  have hcells : ((List.range n).mapM fun j => (row.map Prod.fst)[j]?.bind fun column =>
      (row.map Prod.snd)[j]?.bind fun value => some (column ++ ch '=' :: value)) =
        some ((row.take n).map pairText) := by
    refine mapM_range_eq_some_iff.mpr ⟨by simp [hcols], fun j hj => ?_⟩
    have hin : j < row.length := by omega
    simp [hin, hj, pairText]
  simp only [Option.bind_eq_bind, hcells, Option.bind_some, if_neg hpos.ne',
    rowText_eq_intercalate]

/-! ### The text of a relation -/

/-- A row of a relation as the pairs an insert writes. -/
def tableRow (columns : List Bytes) (row : Bytes → Bytes) : Row :=
  columns.map fun col => (col, row col)

/-- The text `insert_query_executor` writes for the rows of a relation, one after the
other. -/
def tableText (R : Relation Bytes Bytes) : Bytes :=
  linesText (R.rows.map fun row => rowText (tableRow R.columns row))

/-- The relation can be written to a table: its columns and values suit the format and its
rows the line buffer. -/
structure Storable (R : Relation Bytes Bytes) : Prop where
  column : ∀ col ∈ R.columns, ColumnOk col
  value : ∀ row ∈ R.rows, ∀ col ∈ R.columns, NulFree (row col) ∧ ValueOk (row col)
  length : ∀ row ∈ R.rows, (rowText (tableRow R.columns row)).length ≤ 1022

/-- What a condition with `=` or `!=` asks of a row. -/
def WhereCondition.holds (clause : WhereCondition) (row : Bytes → Bytes) : Bool :=
  if clause.operator = lit "=" then row clause.column = clause.value
  else row clause.column ≠ clause.value

theorem mem_tableRow {columns : List Bytes} {row : Bytes → Bytes} {p : Bytes × Bytes} :
    p ∈ tableRow columns row ↔ p.1 ∈ columns ∧ p.2 = row p.1 := by
  rw [tableRow, List.mem_map]
  constructor
  · rintro ⟨col, hcol, rfl⟩
    exact ⟨hcol, rfl⟩
  · rintro ⟨hcol, hval⟩
    exact ⟨p.1, hcol, by rw [← hval]⟩

theorem Storable.linePairs {R : Relation Bytes Bytes} (hR : Storable R) {row : Bytes → Bytes}
    (hrow : row ∈ R.rows) :
    linePairs (rowText (tableRow R.columns row)) = tableRow R.columns row := by
  refine linePairs_rowText ?_ ?_
  · intro p hp
    exact hR.column _ (mem_tableRow.mp hp).1
  · intro p hp
    obtain ⟨hcol, hval⟩ := mem_tableRow.mp hp
    exact hval ▸ (hR.value row hrow _ hcol).2.1

/-- The lines of the text of a relation are its rows. -/
theorem Storable.tableLines {R : Relation Bytes Bytes} (hR : Storable R) :
    tableLines (tableText R) = R.rows.map fun row => rowText (tableRow R.columns row) := by
  refine fileLines_linesText ?_
  intro line hline
  obtain ⟨row, hrow, rfl⟩ := List.mem_map.mp hline
  have hcol : ∀ p ∈ tableRow R.columns row, ColumnOk p.1 := fun p hp =>
    hR.column _ (mem_tableRow.mp hp).1
  have hval : ∀ p ∈ tableRow R.columns row, NulFree p.2 ∧ ValueOk p.2 := by
    intro p hp
    obtain ⟨hmem, heq⟩ := mem_tableRow.mp hp
    exact heq ▸ hR.value row hrow _ hmem
  exact ⟨nulFree_rowText hcol fun p hp => (hval p hp).1,
    newline_not_mem_rowText hcol fun p hp => (hval p hp).2.2,
    Nat.lt_of_le_of_lt (Nat.succ_le_succ (hR.length row hrow)) (by norm_num)⟩

theorem compare_eq_holds {clause : WhereCondition} {row : Bytes → Bytes}
    (hop : clause.operator = lit "=" ∨ clause.operator = lit "!=") :
    compare (row clause.column) clause.operator clause.value = clause.holds row := by
  have hne : lit "!=" ≠ lit "=" := by decide
  rcases hop with hop | hop
  · rw [compare, WhereCondition.holds, hop, if_pos rfl, if_pos rfl]
  · rw [compare, WhereCondition.holds, hop, if_neg hne, if_neg hne, if_pos rfl]

/-- **A row passes the filter when it satisfies the conditions.** -/
theorem Storable.applySelectWhere {R : Relation Bytes Bytes} (hR : Storable R)
    {row : Bytes → Bytes} (hrow : row ∈ R.rows) {q : SelectQuery}
    (hconds : ∀ clause ∈ q.conditions, clause.column ∈ R.columns ∧
      (clause.operator = lit "=" ∨ clause.operator = lit "!=")) :
    applySelectWhere q (rowText (tableRow R.columns row)) =
      q.conditions.all fun clause => clause.holds row := by
  have hlen : (rowText (tableRow R.columns row)).length ≤ 1023 :=
    (hR.length row hrow).trans (by norm_num)
  rw [CBank.applySelectWhere, List.take_of_length_le hlen, hR.linePairs hrow, Bool.eq_iff_iff]
  split
  · rename_i hnil
    simp [hnil]
  · simp only [List.all_eq_true, Bool.or_eq_true, decide_eq_true_eq]
    constructor
    · intro h clause hclause
      obtain ⟨hcol, hop⟩ := hconds clause hclause
      have hpair : (clause.column, row clause.column) ∈ tableRow R.columns row :=
        mem_tableRow.mpr ⟨hcol, rfl⟩
      rcases h _ hpair clause hclause with h | h
      · exact absurd rfl h
      · rwa [compare_eq_holds hop] at h
    · intro h p hp clause hclause
      obtain ⟨-, hval⟩ := mem_tableRow.mp hp
      rcases ne_or_eq clause.column p.1 with hne | heq
      · exact Or.inl hne
      · refine Or.inr ?_
        rw [hval, ← heq, compare_eq_holds (hconds clause hclause).2]
        exact h clause hclause

/-- A name is selected once by columns without repetition. -/
theorem filter_eq_of_nodup {columns : List Bytes} (h : columns.Nodup) (name : Bytes) :
    columns.filter (· = name) = if name ∈ columns then [name] else [] := by
  rw [List.filter_eq, h.count]
  split
  · rfl
  · rfl

/-- Selecting keeps a pair at most once. -/
theorem length_selectPairs_le {columns : List Bytes} (h : columns.Nodup) (line : Bytes) :
    (selectPairs columns line).length ≤ (linePairs line).length := by
  rw [CBank.selectPairs]
  induction CBank.linePairs line with
  | nil => exact le_rfl
  | cons pair pairs ih =>
      have hone : (columns.filter (· = pair.1)).length ≤ 1 := by
        rw [filter_eq_of_nodup h]
        split
        · exact le_rfl
        · exact Nat.zero_le _
      rw [List.flatMap_cons, List.length_append, List.length_map, List.length_cons]
      omega

/-- Selecting keeps the pairs of the columns selected. -/
theorem selectPairs_eq_linePairs {columns : List Bytes} (h : columns.Nodup) {line : Bytes}
    (hnames : ∀ pair ∈ CBank.linePairs line, pair.1 ∈ columns) :
    selectPairs columns line = CBank.linePairs line := by
  rw [CBank.selectPairs]
  generalize CBank.linePairs line = pairs at hnames ⊢
  induction pairs with
  | nil => rfl
  | cons pair pairs ih =>
      rw [List.flatMap_cons, filter_eq_of_nodup h, if_pos (hnames pair List.mem_cons_self),
        ih fun p hp => hnames p (List.mem_cons_of_mem _ hp)]
      rfl

/-- **A row is projected to the selected columns**, in table order. -/
theorem Storable.selectPairs {R : Relation Bytes Bytes} (hR : Storable R)
    {row : Bytes → Bytes} (hrow : row ∈ R.rows) {sel : List Bytes} (hsel : sel.Nodup) :
    selectPairs sel (rowText (tableRow R.columns row)) =
      tableRow (R.project sel).columns row := by
  rw [CBank.selectPairs, hR.linePairs hrow, Relation.project]
  simp only [tableRow]
  induction R.columns with
  | nil => rfl
  | cons col cols ih =>
      rw [List.map_cons, List.flatMap_cons, ih, List.filter_cons, filter_eq_of_nodup hsel]
      by_cases hmem : col ∈ sel
      · simp [hmem]
      · simp [hmem]

/-- What a query keeps of the text of a relation. -/
theorem Storable.matchedRows {R : Relation Bytes Bytes} (hR : Storable R) {q : SelectQuery}
    (hconds : ∀ clause ∈ q.conditions, clause.column ∈ R.columns ∧
      (clause.operator = lit "=" ∨ clause.operator = lit "!="))
    (hsel : q.columns.Nodup) :
    matchedRows q (tableText R) =
      (R.restrict fun row => q.conditions.all fun clause => clause.holds row).rows.map
        (tableRow (R.project q.columns).columns) := by
  rw [CBank.matchedRows, hR.tableLines, List.filter_map, List.map_map, Relation.restrict]
  have hfilter : R.rows.filter ((fun line => CBank.applySelectWhere q line) ∘ fun row =>
      rowText (tableRow R.columns row)) =
        R.rows.filter fun row => q.conditions.all fun clause => clause.holds row :=
    List.filter_congr fun row hrow => hR.applySelectWhere hrow hconds
  rw [hfilter]
  refine List.map_congr_left ?_
  intro row hrow
  exact hR.selectPairs (List.mem_of_mem_filter hrow) hsel

/-! ### Select is restrict and project -/

/-- A query as the program builds one: `qselect` of the columns joined by commas, `qfrom`,
then `qwhere` for each condition. -/
def buildQuery (table : Store) (sel : List Bytes) (conds : List WhereCondition) : SelectQuery :=
  conds.foldl (fun q clause => qwhere q clause.column clause.operator clause.value)
    (qselect (newSelectQuery table) ([ch ','].intercalate sel))

/-- A query with at most ten conditions holds them all, and its selection is what was
joined. -/
theorem buildQuery_eq (table : Store) {sel : List Bytes} (hne : ∀ col ∈ sel, col ≠ [])
    (hcomma : ∀ col ∈ sel, ch ',' ∉ col) (hjoin : ([ch ','].intercalate sel).length < 1024)
    {conds : List WhereCondition} (hten : conds.length ≤ conditionCount) :
    buildQuery table sel conds = ⟨table, sel, conds⟩ := by
  have hfold : ∀ (conds : List WhereCondition) (q : SelectQuery),
      q.conditions.length + conds.length ≤ conditionCount →
        conds.foldl (fun q clause => qwhere q clause.column clause.operator clause.value) q =
          { q with conditions := q.conditions ++ conds } := by
    intro conds
    induction conds with
    | nil => simp
    | cons clause conds ih =>
        intro q hlen
        rw [List.length_cons] at hlen
        have hroom : q.conditions.length < conditionCount := by omega
        rw [List.foldl_cons, qwhere, if_pos hroom, ih]
        · simp
        · simp only [List.length_append, List.length_singleton]
          omega
  rw [buildQuery, hfold conds _ (by simpa [qselect, newSelectQuery] using hten), qselect,
    List.take_of_length_le (by omega), tokens_intercalate hne hcomma]
  rfl

/-- The column names of the rows of a relation. -/
theorem map_fst_tableRow (columns : List Bytes) (row : Bytes → Bytes) :
    (tableRow columns row).map Prod.fst = columns := by
  rw [tableRow, List.map_map]
  exact List.map_id columns

/-- The values of the rows of a relation. -/
theorem map_snd_tableRow (columns : List Bytes) (row : Bytes → Bytes) :
    (tableRow columns row).map Prod.snd = columns.map row := by
  simp [tableRow]

/-- The result set of the rows of a relation holds its values, under its columns. -/
theorem ofRows_relation (P : Relation Bytes Bytes) :
    (ResultSet.ofRows (P.rows.map (tableRow P.columns))).data = P.values ∧
      (P.rows ≠ [] →
        (ResultSet.ofRows (P.rows.map (tableRow P.columns))).columnOrder = P.columns ∧
        (ResultSet.ofRows (P.rows.map (tableRow P.columns))).cols = P.columns.length) := by
  constructor
  · simp [ResultSet.ofRows, Relation.values, map_snd_tableRow]
  · intro hne
    obtain ⟨row, rows, hrows⟩ := List.exists_cons_of_ne_nil hne
    have hlast := List.getLast?_eq_some_getLast hne
    refine ⟨by simp [ResultSet.ofRows, hrows, map_fst_tableRow], ?_⟩
    simp [ResultSet.ofRows, List.getLast?_map, hlast, tableRow]

/-- **Select is restrict and project.** On the text of a relation, a query on its columns
with `=` and `!=` returns the rows that satisfy all the conditions, in file order, each
reduced to the selected columns in table order; the column order and `get_row_col_value`
name those columns. -/
theorem select_refines_relation {R : Relation Bytes Bytes} (hR : Storable R)
    (hcomma : ∀ col ∈ R.columns, ch ',' ∉ col) (table : Store) (sel : List Bytes)
    (hsub : sel ⊆ R.columns) (hnodup : sel.Nodup) (hcols : sel.length ≤ rsMaxCols)
    (hjoin : ([ch ','].intercalate sel).length < 1024) (conds : List WhereCondition)
    (hten : conds.length ≤ conditionCount)
    (hconds : ∀ clause ∈ conds, clause.column ∈ R.columns ∧
      (clause.operator = lit "=" ∨ clause.operator = lit "!="))
    (hmatch : (R.restrict fun row => conds.all fun clause => clause.holds row).rows.length ≤
      rsMaxRows) :
    ∃ rs, selectExecutor (buildQuery table sel conds) (some (tableText R)) = some rs ∧
      rs.data = ((R.restrict fun row => conds.all fun clause => clause.holds row).project
        sel).values ∧
      ((R.restrict fun row => conds.all fun clause => clause.holds row).rows ≠ [] →
        rs.columnOrder = (R.project sel).columns) ∧
      ∀ i row,
        (R.restrict fun row => conds.all fun clause => clause.holds row).rows[i]? = some row →
          ∀ col ∈ sel, getRowColValue rs i col = some (row col) := by
  have hquery := buildQuery_eq table (fun col hcol => (hR.column col (hsub hcol)).1)
    (fun col hcol => hcomma col (hsub hcol)) hjoin hten
  set P := (R.restrict fun row => conds.all fun clause => clause.holds row).project sel with hP
  have hrows : matchedRows (buildQuery table sel conds) (tableText R) =
      P.rows.map (tableRow P.columns) := by
    rw [hquery]
    exact hR.matchedRows hconds hnodup
  have hwidth : P.columns.length ≤ rsMaxCols := by
    have hperm : P.columns.length ≤ sel.length :=
      List.Subperm.length_le (List.subperm_of_subset P.nodup fun col hcol => by
        simpa using (List.mem_filter.mp hcol).2)
    exact hperm.trans hcols
  have hselect : selectExecutor (buildQuery table sel conds) (some (tableText R)) =
      some (ResultSet.ofRows (P.rows.map (tableRow P.columns))) := by
    refine selectExecutor_eq_ofRows hrows (by rwa [List.length_map]) ?_
    rw [List.forall_mem_map]
    intro row _
    rw [tableRow, List.length_map]
    exact hwidth
  obtain ⟨hdata, horder⟩ := ofRows_relation P
  refine ⟨_, hselect, hdata, fun hne => (horder hne).1, ?_⟩
  intro i row hrow col hcol
  have hne : P.rows ≠ [] := List.ne_nil_of_mem (List.mem_of_getElem? hrow)
  have hmem : col ∈ P.columns := List.mem_filter.mpr ⟨hsub hcol, by simpa using hcol⟩
  obtain ⟨line, hline, j, hj, hval⟩ := Relation.values_getElem? (R := P) hrow hmem
  obtain ⟨hord, hlen⟩ := horder hne
  rw [getRowColValue, hdata, hline, hord, hlen, List.take_length, hj]
  exact hval

/-- A relation with the columns `id` and `name` and two rows. -/
def sampleRelation : Relation Bytes Bytes where
  columns := [lit "id", lit "name"]
  nodup := by decide
  rows := [fun col => if col = lit "id" then lit "0" else lit "ann",
    fun col => if col = lit "id" then lit "1" else lit "bob"]

/-- Selecting the name of the row with id 1. -/
theorem select_refines_relation_bob :
    ∃ rs, selectExecutor (buildQuery .user [lit "name"] [⟨lit "id", lit "=", lit "1"⟩])
        (some (tableText sampleRelation)) = some rs ∧ rs.data = [[lit "bob"]] ∧
      getRowColValue rs 0 (lit "name") = some (lit "bob") := by
  obtain ⟨rs, hrs, hdata, -, hval⟩ := select_refines_relation (R := sampleRelation)
    ⟨by decide, by decide, by decide⟩ (by decide) .user [lit "name"] (by decide)
    (by decide) (by decide) (by decide) [⟨lit "id", lit "=", lit "1"⟩] (by decide)
    (by decide) (by decide)
  exact ⟨rs, hrs, hdata, hval 0 _ rfl _ (by decide)⟩

end CBank
