import CBank.CLib.Printing
import CBank.SelectQuery

/-!
# The Row Joiners

`get_line_from_resultset` and `full_line` of `orm/select_query.c` on the bytes they write. The
first adds up the length of the text, allocates a block, and prints into it with what is left of
that length; the second prints piece by piece into the buffer of its caller. Both keep their place
in an `int`.

A row is read through the pointers of the result set, and a place that `select_executor` left empty
is NULL. `strlen` of NULL has no result.

## Main results

* `fillLine_eq`, `getElem?_of_fillLine`: what the block holds, and which of its bytes were written.
* `fullLineBuffer_eq`: what the buffer holds.
* `joinersAgree_iff`: when both leave the text of the row.
-/

namespace CBank

open CLib

/-! ### The two functions -/

/-- The names and the values of a row; `none` when one of the pointers is NULL. -/
def rowCells (rs : ResultSet) (lineIdx : ℕ) : Option Row :=
  (List.range rs.cols).mapM fun i => do
    let column ← rs.columnOrder[i]?
    let value ← (rs.data.getD lineIdx [])[i]?
    some (column, value)

/-- `line_len`, a `size_t`. -/
def lineLen (cells : Row) : ℕ :=
  (cells.map fun cell => (cell.1.length + 1) + cell.2.length + 1).sum % 2 ^ 64

/-- What the loop of `get_line_from_resultset` prints. -/
def joinPieces : Row → List Bytes
  | [] => []
  | [cell] => [pairText cell]
  | cell :: cells => pairText cell :: [ch ';'] :: joinPieces cells

/-- Printing with an `int offset`, which has to count all that is printed. -/
def printCounted (pieces : List Bytes) (p : Printer) : Option Printer :=
  if ∀ offset ∈ (snprintfAll pieces p).1, (offset : ℤ) ≤ intMax then (snprintfAll pieces p).2
  else none

/-- What `get_line_from_resultset` makes of its block: the indices it stores at, and the block it
returns. The size it hands to `snprintf` is what is left of `len`, its `line_len`. -/
def fillLine (cells : Row) (len : ℕ) (buf : Bytes) : Option (List ℕ × Bytes) := do
  let start : Printer := ⟨buf.take len, 0⟩
  let printed ← printCounted (joinPieces cells) start
  if (printed.offset : ℤ) + 1 ≤ intMax then
    let block ← storeAt (printed.buf ++ buf.drop len) (printed.offset + 1) 0
    some (storedAll (joinPieces cells) start ++ [printed.offset + 1], block)
  else none

/-- `get_line_from_resultset`: `none` when it has no defined result, `some none` when it returns
NULL. -/
def getLineBlock (A : Allocator) (rs : ResultSet) (lineIdx : ℕ) :
    Option (Option (List ℕ × Bytes)) :=
  if rs.rows ≤ lineIdx then some none
  else do
    let cells ← rowCells rs lineIdx
    match A.alloc ((lineLen cells + 1) % 2 ^ 64) with
    | none => some none
    | some buf => (fillLine cells (lineLen cells) buf).map some

/-- What `full_line` prints. -/
def fullLinePieces (rs : ResultSet) (lineIdx : ℕ) : List Bytes :=
  (List.range rs.cols).flatMap fun i =>
    [printStr rs.columnOrder[i]?, [ch '='], printStr (rs.data.getD lineIdx [])[i]?] ++
      if i + 1 < rs.cols then [[ch ';']] else []

/-- `full_line`: the buffer it leaves. -/
def fullLineBuffer (rs : ResultSet) (lineIdx : ℕ) (buf : Bytes) : Option Bytes :=
  (printCounted (fullLinePieces rs lineIdx) ⟨buf, 0⟩).map Printer.buf

/-- `get_line_from_resultset` returns the text of the row and writes at most to `line_len`, and
`full_line` leaves the same text in every larger buffer. -/
structure JoinsRow (rs : ResultSet) (lineIdx : ℕ) (cells : Row) : Prop where
  cells_eq : rowCells rs lineIdx = some cells
  line : ∀ (A : Allocator) (buf : Bytes), A.alloc (lineLen cells + 1) = some buf →
    ∃ indices block, getLineBlock A rs lineIdx = some (some (indices, block)) ∧
      (∀ i ∈ indices, i ≤ lineLen cells) ∧ rowText cells ++ [0] <+: block
  full : ∀ buf : Bytes, (rowText cells).length < buf.length →
    ∃ after, fullLineBuffer rs lineIdx buf = some after ∧ rowText cells ++ [0] <+: after

/-- The two joiners agree on a row: both leave the text of its names and values. -/
def JoinersAgree (rs : ResultSet) (lineIdx : ℕ) : Prop := ∃ cells, JoinsRow rs lineIdx cells

/-! ### The cells of a row -/

variable {rs : ResultSet} {lineIdx : ℕ} {cells : Row}

/-- A row has a cell for every column. -/
theorem length_of_rowCells (h : rowCells rs lineIdx = some cells) : cells.length = rs.cols :=
  (mapM_range_eq_some_iff.mp h).1

/-- The pointers of a row and its cells. -/
theorem cell_of_rowCells (h : rowCells rs lineIdx = some cells) {i : ℕ} (hi : i < rs.cols) :
    rs.columnOrder[i]? = (cells.map Prod.fst)[i]? ∧
      (rs.data.getD lineIdx [])[i]? = (cells.map Prod.snd)[i]? := by
  have hin : i < cells.length := by rwa [length_of_rowCells h]
  have hcell := (mapM_range_eq_some_iff.mp h).2 i hi
  rw [List.getElem?_eq_getElem hin] at hcell
  obtain ⟨column, hcolumn, hcell⟩ := Option.bind_eq_some_iff.mp hcell
  obtain ⟨value, hvalue, hcell⟩ := Option.bind_eq_some_iff.mp hcell
  rw [hcolumn, hvalue, List.getElem?_map, List.getElem?_map, List.getElem?_eq_getElem hin,
    ← Option.some.inj hcell]
  exact ⟨rfl, rfl⟩

/-- **The line of a result set** is the text of its cells. -/
theorem getLineFromResultset_eq (hcols : 0 < rs.cols) :
    getLineFromResultset rs lineIdx = (rowCells rs lineIdx).map rowText := by
  have hcells : ((List.range rs.cols).mapM fun i => rs.columnOrder[i]?.bind fun column =>
      (rs.data.getD lineIdx [])[i]?.bind fun value => some (column ++ ch '=' :: value)) =
        (rowCells rs lineIdx).map (List.map pairText) := by
    rw [rowCells, ← mapM_map_right]
    refine congrArg (List.mapM · _) (funext fun i => ?_)
    cases rs.columnOrder[i]? with
    | none => rfl
    | some column =>
        cases (rs.data.getD lineIdx [])[i]? with
        | none => rfl
        | some value => rfl
  rw [getLineFromResultset]
  simp only [Option.bind_eq_bind, hcells, if_neg hcols.ne']
  cases rowCells rs lineIdx with
  | none => rfl
  | some cells => rw [Option.map_some, Option.bind_some, Option.map_some, rowText_eq_intercalate]

/-! ### What they print -/

theorem flatten_joinPieces (cells : Row) : (joinPieces cells).flatten = rowText cells := by
  induction cells using joinPieces.induct with
  | case1 => rfl
  | case2 cell => simp [joinPieces, rowText, pairText]
  | case3 cell cells hne ih =>
      rw [joinPieces, rowText, List.flatten_cons, List.flatten_cons, ih]
      · simp [pairText]
      · exact fun h => absurd h hne
      · exact fun h => absurd h hne

theorem joinPieces_ne_nil (hne : cells ≠ []) : joinPieces cells ≠ [] := by
  obtain ⟨cell, cells, rfl⟩ := List.exists_cons_of_ne_nil hne
  cases cells <;> simp [joinPieces]

theorem rowText_ne_nil (hne : cells ≠ []) : rowText cells ≠ [] := by
  obtain ⟨cell, cells, rfl⟩ := List.exists_cons_of_ne_nil hne
  simp [rowText_cons, pairText]

/-- Pieces and separators of `full_line` make the same text. -/
theorem flatten_fullLinePieces (h : rowCells rs lineIdx = some cells) :
    (fullLinePieces rs lineIdx).flatten = rowText cells := by
  rw [← flatten_linePieces, fullLinePieces, length_of_rowCells h]
  refine congrArg List.flatten (List.flatMap_congr fun i hi => ?_)
  obtain ⟨hcolumn, hvalue⟩ := cell_of_rowCells h (List.mem_range.mp hi)
  rw [hcolumn, hvalue]

/-- `line_len` counts the text and one more. -/
theorem lineLen_eq (hne : cells ≠ []) (hsize : (rowText cells).length + 1 < 2 ^ 64) :
    lineLen cells = (rowText cells).length + 1 := by
  have hsum : (cells.map fun cell => (cell.1.length + 1) + cell.2.length + 1).sum =
      (rowText cells).length + 1 := by
    clear hsize
    induction cells using rowText.induct with
    | case1 => exact absurd rfl hne
    | case2 col value =>
        simp [rowText]
        omega
    | case3 col value row hrow ih =>
        have hrow' : row ≠ [] := fun h => hrow h
        rw [List.map_cons, List.sum_cons, ih hrow', rowText]
        · simp only [List.length_append, List.length_cons]
          omega
        · exact hrow
  rw [lineLen, hsum, Nat.mod_eq_of_lt hsize]

/-! ### What they leave -/

/-- An `int` can count what is printed when it can count all of it. -/
theorem printCounted_eq_some_iff {pieces : List Bytes} (hne : pieces ≠ []) {p p' : Printer} :
    printCounted pieces p = some p' ↔ (snprintfAll pieces p).2 = some p' ∧
      ((p.offset + pieces.flatten.length : ℕ) : ℤ) ≤ intMax := by
  rw [printCounted]
  constructor
  · intro h
    split at h
    · rename_i hcount
      rw [← (offset_of_snprintfAll h).1]
      exact ⟨h, hcount _ (offset_mem_snprintfAll hne h)⟩
    · simp at h
  · rintro ⟨hrun, hcount⟩
    rw [if_pos ?_, hrun]
    intro offset hoffset
    exact (Int.ofNat_le.mpr (le_of_mem_snprintfAll hoffset)).trans hcount

/-- Text that fits the buffer and an `int` is printed whole. -/
theorem printCounted_of_fits {pieces : List Bytes} (hne : pieces ≠ []) (buf : Bytes)
    (hfits : pieces.flatten.length < buf.length) (hcount : (pieces.flatten.length : ℤ) ≤ intMax) :
    ∃ p, printCounted pieces ⟨buf, 0⟩ = some p ∧ p.offset = pieces.flatten.length ∧
      p.buf.length = buf.length ∧ pieces.flatten ++ [0] <+: p.buf := by
  obtain ⟨p, hp⟩ : ∃ p, (snprintfAll pieces ⟨buf, 0⟩).2 = some p :=
    isSome_snprintfAll (by rw [Nat.zero_add]; exact hfits.le)
  have hlen := (offset_of_snprintfAll hp).2
  obtain ⟨hoffset, hstarts⟩ := prefix_of_snprintfAll (by omega) hne hp
  refine ⟨p, (printCounted_eq_some_iff hne).mpr ⟨hp, by rwa [Nat.zero_add]⟩, hoffset, hlen, ?_⟩
  have hcut : pieces.flatten.length ≤ buf.length - 1 := by omega
  rwa [hlen, List.take_of_length_le hcut] at hstarts

/-- **What the block holds**: the text and two NULs, and no byte behind `line_len` is written. -/
theorem fillLine_eq (hne : cells ≠ []) (hshort : ((rowText cells).length : ℤ) < intMax) {len : ℕ}
    (hlen : len = (rowText cells).length + 1) {buf : Bytes} (hbuf : buf.length = len + 1) :
    ∃ indices, fillLine cells len buf = some (indices, rowText cells ++ [0, 0]) ∧
      ∀ i ∈ indices, i ≤ len := by
  have hstart : (buf.take len).length = len := by
    rw [List.length_take]
    omega
  obtain ⟨last, hlast⟩ : ∃ last, buf.drop len = [last] := by
    rw [← List.length_eq_one_iff, List.length_drop]
    omega
  obtain ⟨p, hp, hoffset, hsize, hstarts⟩ := printCounted_of_fits (joinPieces_ne_nil hne)
    (buf.take len) (by rw [flatten_joinPieces]; omega)
    (by rw [flatten_joinPieces]; exact hshort.le)
  rw [flatten_joinPieces] at hoffset hstarts
  have hprinted : p.buf = rowText cells ++ [0] := by
    refine (hstarts.eq_of_length ?_).symm
    rw [hsize, hstart, List.length_append, List.length_singleton, hlen]
  have hstore : storeAt (p.buf ++ buf.drop len) (p.offset + 1) 0 =
      some (rowText cells ++ [0, 0]) := by
    have h := storeAt_append_cons (rowText cells ++ [0]) last 0 []
    rw [List.length_append, List.length_singleton] at h
    rw [hprinted, hlast, hoffset, h, List.append_assoc]
    rfl
  refine ⟨storedAll (joinPieces cells) ⟨buf.take len, 0⟩ ++ [p.offset + 1], ?_, ?_⟩
  · have hcount : (p.offset : ℤ) + 1 ≤ intMax := by omega
    refine Option.bind_eq_some_iff.mpr ⟨p, hp, (if_pos hcount).trans ?_⟩
    exact Option.bind_eq_some_iff.mpr ⟨_, hstore, rfl⟩
  · intro i hi
    rcases List.mem_append.mp hi with hi | hi
    · have hlt := lt_of_mem_storedAll hi
      rw [hstart] at hlt
      exact hlt.le
    · rw [List.mem_singleton.mp hi, hoffset, hlen]

/-- **The rest of the block** stays as it was: no other byte is written. -/
theorem getElem?_of_fillLine {len : ℕ} {buf block : Bytes} {indices : List ℕ}
    (h : fillLine cells len buf = some (indices, block)) {i : ℕ} (hi : i ∉ indices) :
    block[i]? = buf[i]? := by
  obtain ⟨p, hp, h⟩ := Option.bind_eq_some_iff.mp h
  have hrun : (snprintfAll (joinPieces cells) ⟨buf.take len, 0⟩).2 = some p := by
    rw [printCounted] at hp
    split at hp
    · exact hp
    · simp at hp
  split at h
  · obtain ⟨block', hstore, heq⟩ := Option.bind_eq_some_iff.mp h
    obtain ⟨rfl, rfl⟩ := Prod.mk.inj (Option.some.inj heq)
    rw [List.mem_append, List.mem_singleton, not_or] at hi
    have hprinted : p.buf[i]? = (buf.take len)[i]? := getElem?_of_not_mem_storedAll hrun hi.1
    have hsize : p.buf.length = (buf.take len).length := (offset_of_snprintfAll hrun).2
    rw [storeAt] at hstore
    split at hstore
    · rw [← Option.some.inj hstore, List.getElem?_set_ne (Ne.symm hi.2), List.getElem?_append,
        hprinted, hsize, ← List.getElem?_append, List.take_append_drop]
    · simp at hstore
  · simp at h

/-- A line that was made is counted by an `int`, with the place behind it. -/
theorem length_lt_of_fillLine (hne : cells ≠ []) {len : ℕ} {buf : Bytes}
    {line : List ℕ × Bytes} (h : fillLine cells len buf = some line) :
    ((rowText cells).length : ℤ) < intMax := by
  obtain ⟨p, hp, h⟩ := Option.bind_eq_some_iff.mp h
  have hcount : (p.offset : ℤ) + 1 ≤ intMax := by
    by_contra hlong
    simp only [if_neg hlong, reduceCtorEq] at h
  obtain ⟨hrun, -⟩ := (printCounted_eq_some_iff (joinPieces_ne_nil hne)).mp hp
  have hoffset := (offset_of_snprintfAll hrun).1
  rw [flatten_joinPieces] at hoffset
  omega

/-- **What the buffer holds** that `full_line` prints into. -/
theorem fullLineBuffer_eq (hcells : rowCells rs lineIdx = some cells) (hne : cells ≠ [])
    (hcount : ((rowText cells).length : ℤ) ≤ intMax) {buf : Bytes}
    (hroom : (rowText cells).length < buf.length) :
    ∃ after, fullLineBuffer rs lineIdx buf = some after ∧ rowText cells ++ [0] <+: after := by
  have hflat := flatten_fullLinePieces hcells
  have hpieces : fullLinePieces rs lineIdx ≠ [] := by
    intro hnil
    rw [hnil] at hflat
    exact rowText_ne_nil hne hflat.symm
  obtain ⟨p, hp, -, -, hstarts⟩ := printCounted_of_fits hpieces buf
    (by rwa [hflat]) (by rwa [hflat])
  rw [hflat] at hstarts
  exact ⟨p.buf, by rw [fullLineBuffer, hp, Option.map_some], hstarts⟩

/-! ### Agreement -/

/-- **A row with all its cells**: both joiners leave its text. -/
theorem joinsRow_of_cells (hcols : 0 < rs.cols) (hrow : lineIdx < rs.rows)
    (hcells : rowCells rs lineIdx = some cells)
    (hshort : ((rowText cells).length : ℤ) < intMax) : JoinsRow rs lineIdx cells := by
  have hne : cells ≠ [] := List.ne_nil_of_length_pos (by rwa [length_of_rowCells hcells])
  have hsize : (rowText cells).length + 2 < 2 ^ 64 := by
    simp only [intMax] at hshort
    omega
  have hlen : lineLen cells = (rowText cells).length + 1 := lineLen_eq hne (by omega)
  refine ⟨hcells, fun A buf halloc => ?_, fun buf => fullLineBuffer_eq hcells hne hshort.le⟩
  obtain ⟨indices, hfill, hinside⟩ := fillLine_eq hne hshort hlen (A.length_alloc halloc)
  have hrequest : (lineLen cells + 1) % 2 ^ 64 = lineLen cells + 1 :=
    Nat.mod_eq_of_lt (by rwa [hlen])
  refine ⟨indices, rowText cells ++ [0, 0], ?_, hinside, [0], ?_⟩
  · rw [getLineBlock, if_neg (not_le.mpr hrow), hcells, Option.bind_eq_bind, Option.bind_some,
      hrequest, halloc]
    exact congrArg (Option.map some) hfill
  · rw [List.append_assoc, List.singleton_append]

/-- **The text functions agree as well**, for every larger buffer. -/
theorem fullLine_eq_getLineFromResultset (hcols : 0 < rs.cols)
    (hcells : rowCells rs lineIdx = some cells) {size : ℕ}
    (hroom : (rowText cells).length < size) :
    fullLine rs lineIdx size = getLineFromResultset rs lineIdx := by
  have hflat := flatten_fullLinePieces hcells
  rw [getLineFromResultset_eq hcols, hcells, Option.map_some]
  change snprintfs size (fullLinePieces rs lineIdx) = _
  rw [snprintfs_eq_some (by rwa [hflat]), hflat]

/-- A line that is returned was made. -/
theorem fillLine_of_getLineBlock {A : Allocator} {line : List ℕ × Bytes}
    (hcells : rowCells rs lineIdx = some cells)
    (h : getLineBlock A rs lineIdx = some (some line)) :
    ∃ buf, fillLine cells (lineLen cells) buf = some line := by
  rw [getLineBlock, hcells, Option.bind_eq_bind, Option.bind_some] at h
  split at h
  · simp at h
  · split at h
    · simp at h
    · rename_i buf _
      obtain ⟨line', hline, heq⟩ := Option.map_eq_some_iff.mp h
      obtain rfl := Option.some.inj heq
      exact ⟨buf, hline⟩

/-- **When the two joiners agree**: when every column has a name and the row a value for it, and an
`int` can count the text and one more. -/
theorem joinersAgree_iff (hcols : 0 < rs.cols) (hrow : lineIdx < rs.rows) :
    JoinersAgree rs lineIdx ↔ ∃ cells, rowCells rs lineIdx = some cells ∧
      ((rowText cells).length : ℤ) < intMax := by
  constructor
  · rintro ⟨cells, hjoins⟩
    have hne : cells ≠ [] :=
      List.ne_nil_of_length_pos (by rwa [length_of_rowCells hjoins.cells_eq])
    obtain ⟨indices, block, hline, -⟩ := hjoins.line (.filled 0) _ rfl
    obtain ⟨buf, hfill⟩ := fillLine_of_getLineBlock hjoins.cells_eq hline
    exact ⟨cells, hjoins.cells_eq, length_lt_of_fillLine hne hfill⟩
  · rintro ⟨cells, hcells, hshort⟩
    exact ⟨cells, joinsRow_of_cells hcols hrow hcells hshort⟩

/-- Two columns and a row of their values. -/
def sampleResult : ResultSet := ⟨[[lit "7", lit "ann"]], 2, [lit "id", lit "name"]⟩

theorem joinersAgree_sample : JoinersAgree sampleResult 0 :=
  (joinersAgree_iff (by decide) (by decide)).mpr
    ⟨[(lit "id", lit "7"), (lit "name", lit "ann")], by decide, by decide⟩

/-- An account behind a blank line. -/
def blankLineTable : Bytes :=
  linesText [[], lit "id=0;balance=0.000;user_id_fk=0;created_at=NULL;updated_at=NULL"]

/-- The result set of that table: the columns are counted on its last line, and named on its
first. -/
def blankLineResult : ResultSet :=
  ⟨[[], [lit "0", lit "0.000", lit "0", lit "NULL", lit "NULL"]], 5, []⟩

/-- **A blank line in the table**: the first row of the result set has five columns and no cells,
and `get_line_from_resultset` takes the length of NULL. -/
theorem not_joinersAgree_blankLine :
    selectExecutor (qselectAllFrom .account) (some blankLineTable) = some blankLineResult ∧
      1 ≤ blankLineResult.cols ∧ blankLineResult.cols ≤ rsMaxCols ∧ 0 < blankLineResult.rows ∧
      (∀ A, getLineBlock A blankLineResult 0 = none) ∧ ¬ JoinersAgree blankLineResult 0 := by
  have hcells : rowCells blankLineResult 0 = none := by decide
  refine ⟨by decide +kernel, by decide, by decide, by decide, fun A => ?_, ?_⟩
  · rw [getLineBlock, if_neg (by decide), hcells, Option.bind_eq_bind, Option.bind_none]
  · rintro ⟨cells, hjoins⟩
    rw [hjoins.cells_eq] at hcells
    simp at hcells

end CBank
