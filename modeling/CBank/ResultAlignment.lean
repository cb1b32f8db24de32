import CBank.WhereClauses

/-!
# Aligned Result Sets

`full_line`, `get_line_from_resultset` and `get_row_col_value` read a result set as a matrix: the
value in place `j` of a row belongs to the name in place `j` of `column_order`. `select_executor`
keeps three things that have to fit for that and come from different lines. The names are those of
the first matching line, the number of columns is that of the last one, and each row holds the
values of its own line in the order they stand there.

## Main results

* `returnsAligned_iff`: when the value in each place is the value of its column on its line.
* `returnsAligned_of_columns`: it is when every matching line has the same columns in one order.
-/

namespace CBank

open CLib

variable {q : SelectQuery} {lines : List Bytes}

/-! ### What a result set should say -/

/-- The lines a query matches. -/
def matchingLines (q : SelectQuery) (lines : List Bytes) : List Bytes :=
  lines.filter fun line => applySelectWhere q line

/-- In every place of the result set there is a value, and it is the value of the column of that
place on the line of its row. -/
def Aligned (q : SelectQuery) (lines : List Bytes) (rs : ResultSet) : Prop :=
  ∀ r < rs.rows, ∀ j < rs.cols, ∃ line column value,
    (matchingLines q lines)[r]? = some line ∧ rs.columnOrder[j]? = some column ∧
    (rs.data[r]?.bind fun cells => cells[j]?) = some value ∧ HasPair line column value

/-- The query returns an aligned result set from the table with these lines. -/
def ReturnsAligned (q : SelectQuery) (lines : List Bytes) : Prop :=
  ∃ rs, selectExecutor q (some (linesText lines)) = some rs ∧ Aligned q lines rs

/-- The matching lines agree on the places of the result set. Each has at most 20 selected pairs,
and, in each of the places the last one fills, a selected pair with the column that is in this
place on the first one, or with the value this column has. -/
structure SameShape (q : SelectQuery) (lines : List Bytes) : Prop where
  narrow : ∀ line ∈ matchingLines q lines, (selectPairs q.columns line).length ≤ rsMaxCols
  inStep : ∀ first ∈ (matchingLines q lines).head?, ∀ last ∈ (matchingLines q lines).getLast?,
    ∀ line ∈ matchingLines q lines, ∀ j < (selectPairs q.columns last).length, ∃ column pair,
      ((selectPairs q.columns first).map Prod.fst)[j]? = some column ∧
      (selectPairs q.columns line)[j]? = some pair ∧
      (pair.1 = column ∨ HasPair line column pair.2)

/-! ### When it does -/

/-- What is selected of a line are pairs of the line. -/
theorem hasPair_of_mem_selectPairs {columns : List Bytes} {line : Bytes} {pair : Bytes × Bytes}
    (h : pair ∈ selectPairs columns line) : HasPair line pair.1 pair.2 := by
  rw [selectPairs, List.mem_flatMap] at h
  obtain ⟨found, hfound, hmem⟩ := h
  obtain ⟨-, -, rfl⟩ := List.mem_map.mp hmem
  exact mem_linePairs_iff.mp hfound

/-- A table of short lines is read line by line. -/
theorem matchedRows_linesText
    (hlines : ∀ line ∈ lines, NulFree line ∧ newline ∉ line ∧ line.length < 1023) :
    matchedRows q (linesText lines) = (matchingLines q lines).map (selectPairs q.columns) := by
  rw [matchedRows, tableLines, fileLines_linesText fun line hline => ?_, matchingLines]
  obtain ⟨hnul, hnl, hlen⟩ := hlines line hline
  exact ⟨hnul, hnl, by omega⟩

/-- What a query returns from such a table. -/
theorem selectExecutor_linesText_iff
    (hlines : ∀ line ∈ lines, NulFree line ∧ newline ∉ line ∧ line.length < 1023)
    (hcount : (matchingLines q lines).length ≤ rsMaxRows) {rs : ResultSet} :
    selectExecutor q (some (linesText lines)) = some rs ↔
      rs = ResultSet.ofRows ((matchingLines q lines).map (selectPairs q.columns)) ∧
        ∀ line ∈ matchingLines q lines, (selectPairs q.columns line).length ≤ rsMaxCols := by
  rw [selectExecutor_eq_some_iff, matchedRows_linesText hlines, List.length_map,
    List.forall_mem_map]
  exact and_congr_right fun _ => and_iff_right hcount

/-- The places of a result set, in terms of the matching lines. -/
theorem ofRows_places {first last : Bytes} (hfirst : (matchingLines q lines).head? = some first)
    (hlast : (matchingLines q lines).getLast? = some last) :
    (ResultSet.ofRows ((matchingLines q lines).map (selectPairs q.columns))).columnOrder =
        (selectPairs q.columns first).map Prod.fst ∧
      (ResultSet.ofRows ((matchingLines q lines).map (selectPairs q.columns))).cols =
        (selectPairs q.columns last).length := by
  simp [ResultSet.ofRows, List.head?_map, List.getLast?_map, hfirst, hlast]

theorem ofRows_cell {r : ℕ} {line : Bytes} (hline : (matchingLines q lines)[r]? = some line)
    (j : ℕ) :
    ((ResultSet.ofRows ((matchingLines q lines).map (selectPairs q.columns))).data[r]?.bind
      fun cells => cells[j]?) = (selectPairs q.columns line)[j]?.map Prod.snd := by
  simp [ResultSet.ofRows, hline]

/-- Lines that agree on the places give an aligned result set. -/
theorem returnsAligned_of_sameShape
    (hlines : ∀ line ∈ lines, NulFree line ∧ newline ∉ line ∧ line.length < 1023)
    (hcount : (matchingLines q lines).length ≤ rsMaxRows) (h : SameShape q lines) :
    ReturnsAligned q lines := by
  refine ⟨_, (selectExecutor_linesText_iff hlines hcount).mpr ⟨rfl, h.narrow⟩,
    fun r hr j hj => ?_⟩
  rw [rows_ofRows, List.length_map] at hr
  have hne : matchingLines q lines ≠ [] := List.ne_nil_of_length_pos (by omega)
  have hfirst := List.head?_eq_some_head hne
  have hlast := List.getLast?_eq_some_getLast hne
  obtain ⟨horder, hcols⟩ := ofRows_places hfirst hlast
  obtain ⟨column, pair, hcolumn, hplace, hsame⟩ := h.inStep _ hfirst _ hlast _
    (List.getElem_mem hr) j (hcols ▸ hj)
  have hline := List.getElem?_eq_getElem hr
  refine ⟨_, column, pair.2, hline, horder ▸ hcolumn, ?_, ?_⟩
  · rw [ofRows_cell hline, hplace, Option.map_some]
  · rcases hsame with rfl | hpair
    · exact hasPair_of_mem_selectPairs (List.mem_of_getElem? hplace)
    · exact hpair

/-- **Matching lines with the same columns in one order** give an aligned result set. -/
theorem returnsAligned_of_columns
    (hlines : ∀ line ∈ lines, NulFree line ∧ newline ∉ line ∧ line.length < 1023)
    (hcount : (matchingLines q lines).length ≤ rsMaxRows) {columns : List Bytes}
    (hcolumns : ∀ line ∈ matchingLines q lines,
      (selectPairs q.columns line).map Prod.fst = columns)
    (hnarrow : columns.length ≤ rsMaxCols) : ReturnsAligned q lines := by
  have hlength : ∀ line ∈ matchingLines q lines,
      (selectPairs q.columns line).length = columns.length := fun line hline => by
    rw [← hcolumns line hline, List.length_map]
  refine returnsAligned_of_sameShape hlines hcount
    ⟨fun line hline => (hlength line hline).trans_le hnarrow, ?_⟩
  intro first hfirst last hlast line hline j hj
  rw [hlength last (List.mem_of_getLast? hlast), ← hlength line hline] at hj
  refine ⟨_, _, ?_, List.getElem?_eq_getElem hj, Or.inl rfl⟩
  rw [hcolumns first (List.mem_of_mem_head? hfirst), ← hcolumns line hline, List.getElem?_map,
    List.getElem?_eq_getElem hj, Option.map_some]

/-- **Aligned result sets.** For a table of lines of any shape that fit the buffer, and a query
that matches at most 100 of them, the value in each place of the result set is the value of its
column on its line exactly when the matching lines agree on the places. -/
theorem returnsAligned_iff
    (hlines : ∀ line ∈ lines, NulFree line ∧ newline ∉ line ∧ line.length < 1023)
    (hcount : (matchingLines q lines).length ≤ rsMaxRows) :
    ReturnsAligned q lines ↔ SameShape q lines := by
  refine ⟨?_, returnsAligned_of_sameShape hlines hcount⟩
  rintro ⟨rs, hselect, haligned⟩
  obtain ⟨rfl, hnarrow⟩ := (selectExecutor_linesText_iff hlines hcount).mp hselect
  refine ⟨hnarrow, fun first hfirst last hlast line hline j hj => ?_⟩
  obtain ⟨horder, hcols⟩ := @ofRows_places q lines first last hfirst hlast
  obtain ⟨r, hr, rfl⟩ := List.mem_iff_getElem.mp hline
  obtain ⟨line', column, value, hline', hcolumn, hvalue, hpair⟩ := haligned r
    (by rw [rows_ofRows, List.length_map]; exact hr) j (by rw [hcols]; exact hj)
  obtain rfl : (matchingLines q lines)[r] = line' := by
    rw [List.getElem?_eq_getElem hr] at hline'
    exact Option.some.inj hline'
  rw [ofRows_cell hline', Option.map_eq_some_iff] at hvalue
  obtain ⟨pair, hplace, rfl⟩ := hvalue
  exact ⟨column, pair, horder ▸ hcolumn, hplace, Or.inr hpair⟩

/-- The columns `a` and `b` of every line. -/
def sampleQuery : SelectQuery := ⟨.user, [lit "a", lit "b"], []⟩

/-- Two lines with the columns in one order come back aligned. -/
theorem returnsAligned_sample :
    ReturnsAligned sampleQuery [lit "a=1;b=2", lit "a=3;b=4"] := by
  have hmatching : matchingLines sampleQuery [lit "a=1;b=2", lit "a=3;b=4"] =
      [lit "a=1;b=2", lit "a=3;b=4"] := by decide +kernel
  have hpairs : ∀ line ∈ [lit "a=1;b=2", lit "a=3;b=4"],
      (selectPairs sampleQuery.columns line).map Prod.fst = [lit "a", lit "b"] := by
    decide +kernel
  refine (returnsAligned_iff (by decide) (by decide)).mpr ⟨?_, ?_⟩
  · rw [hmatching]
    decide +kernel
  · rw [hmatching]
    intro first hfirst last hlast line hline j hj
    have hcolumns := hpairs line hline
    have hfirst' := hpairs first (List.mem_of_mem_head? hfirst)
    have hlast' := congrArg List.length (hpairs last (List.mem_of_mem_getLast? hlast))
    have hline' := congrArg List.length hcolumns
    rw [List.length_map] at hlast' hline'
    have hj' : j < (selectPairs sampleQuery.columns line).length := by
      rw [hline', ← hlast']
      exact hj
    refine ⟨_, _, ?_, List.getElem?_eq_getElem hj', .inl rfl⟩
    rw [hfirst', ← hcolumns, List.getElem?_map, List.getElem?_eq_getElem hj', Option.map_some]

/-- **Columns in another order.** The second line has `b` before `a`, and its values come back
under the wrong names. -/
theorem returnsAligned_swapped :
    ¬ ReturnsAligned sampleQuery [lit "a=1;b=2", lit "b=4;a=3"] := by
  rintro ⟨rs, hselect, haligned⟩
  have hrun : selectExecutor sampleQuery (some (linesText [lit "a=1;b=2", lit "b=4;a=3"])) =
      some ⟨[[lit "1", lit "2"], [lit "4", lit "3"]], 2, [lit "a", lit "b"]⟩ := by
    decide +kernel
  obtain rfl := Option.some.inj (hrun.symm.trans hselect)
  obtain ⟨line, column, value, hline, hcolumn, hvalue, hpair⟩ := haligned 1 (by decide) 0
    (by decide)
  have hlines : matchingLines sampleQuery [lit "a=1;b=2", lit "b=4;a=3"] =
      [lit "a=1;b=2", lit "b=4;a=3"] := rfl
  rw [hlines] at hline
  obtain rfl : lit "b=4;a=3" = line := Option.some.inj hline
  obtain rfl : lit "a" = column := Option.some.inj hcolumn
  obtain rfl : lit "4" = value := Option.some.inj hvalue
  exact absurd hpair (by decide)

end CBank
