import CBank.CLib.Lines
import CBank.Disk

/-!
# The Table Format

A table is a text file with one row a line, `column=value` pairs joined by `;`. Nothing is
escaped. `tableLines` are the lines the readers go through, each cut at its newline, and
`linePairs` the pairs they find in one: pieces between semicolons, each cut at its first
equals sign, pieces without one skipped.

## Main results

* `linePairs_rowText`: a row whose values hold no semicolon is read back pair by pair.
* `fileLines_append_row`: a row without newlines that fits the line buffer adds one line.
* `fileLines_linesText`: a text of such rows is read back row by row.
* `tableLines_append_iff`: only such a row does.
* `linePairs_of_prefix`: what is found in a row that was cut.
-/

namespace CBank

open CLib

/-- `terminate_str_by_newline`, and reading the buffer as a string. -/
def terminateByNewline (buf : Bytes) : Bytes := (cstr buf).takeWhile (· ≠ newline)

/-- The lines `while (fgets(line_buf, size, f))` goes through, each cut at its newline. -/
def fileLines (size : ℕ) (text : Bytes) : List Bytes :=
  (fgetsLines newline size text).map terminateByNewline

/-- The lines of a table, read through a buffer of 1024 bytes. -/
abbrev tableLines (text : Bytes) : List Bytes := fileLines 1024 text

/-- The pairs of a line, as the `strtok_r` loop of `select_executor` finds them. -/
def linePairs (line : Bytes) : Row := (tokens (· == ch ';') line).filterMap (cutAt (ch '='))

/-- A column name the format can carry. -/
def ColumnOk (col : Bytes) : Prop :=
  col ≠ [] ∧ NulFree col ∧ ch '=' ∉ col ∧ ch ';' ∉ col ∧ newline ∉ col

instance (col : Bytes) : Decidable (ColumnOk col) :=
  inferInstanceAs (Decidable (_ ∧ _))

/-- A value the format can carry. -/
def ValueOk (value : Bytes) : Prop := ch ';' ∉ value ∧ newline ∉ value

instance (value : Bytes) : Decidable (ValueOk value) :=
  inferInstanceAs (Decidable (_ ∧ _))

/-- The text of one pair. -/
def pairText (pair : Bytes × Bytes) : Bytes := pair.1 ++ ch '=' :: pair.2

theorem rowText_eq_intercalate (row : Row) :
    rowText row = [ch ';'].intercalate (row.map pairText) := by
  induction row using rowText.induct with
  | case1 => rfl
  | case2 col value => simp [rowText, pairText]
  | case3 col value row hne ih =>
      obtain ⟨p, row, rfl⟩ := List.exists_cons_of_ne_nil hne
      rw [rowText, ih, List.map_cons, List.map_cons, List.map_cons, List.intercalate_cons_cons]
      · simp [pairText]
      · exact fun h => absurd h hne

/-! ### The pairs of a row -/

theorem cutAt_pairText {pair : Bytes × Bytes} (h : ch '=' ∉ pair.1) :
    cutAt (ch '=') (pairText pair) = some pair :=
  cutAt_append_cons h pair.2

/-- **A row is read back pair by pair**, when no value holds a semicolon. -/
theorem linePairs_rowText {row : Row} (hcol : ∀ p ∈ row, ColumnOk p.1)
    (hval : ∀ p ∈ row, ch ';' ∉ p.2) : linePairs (rowText row) = row := by
  have hne : ∀ l ∈ row.map pairText, l ≠ [] := by
    intro l hl
    obtain ⟨p, -, rfl⟩ := List.mem_map.mp hl
    simp [pairText]
  have hfree : ∀ l ∈ row.map pairText, ch ';' ∉ l := by
    intro l hl
    obtain ⟨p, hp, rfl⟩ := List.mem_map.mp hl
    have heq : ch ';' ≠ ch '=' := by decide
    obtain ⟨-, -, -, hsemi, -⟩ := hcol p hp
    simp [pairText, hsemi, hval p hp, heq]
  have hcut : ∀ row : Row, (∀ p ∈ row, ColumnOk p.1) →
      (row.map pairText).filterMap (cutAt (ch '=')) = row := by
    intro row
    induction row with
    | nil => simp
    | cons p row ih =>
        intro h
        obtain ⟨-, -, heq, -⟩ := h p List.mem_cons_self
        rw [List.map_cons, List.filterMap_cons_some (cutAt_pairText heq),
          ih fun q hq => h q (List.mem_cons_of_mem _ hq)]
  rw [linePairs, rowText_eq_intercalate, tokens_intercalate hne hfree, hcut row hcol]

/-- No value that was read holds a semicolon. -/
theorem not_mem_of_mem_linePairs {line : Bytes} {p : Bytes × Bytes} (h : p ∈ linePairs line) :
    ch ';' ∉ p.2 := by
  obtain ⟨t, ht, hcut⟩ := List.mem_filterMap.mp h
  obtain ⟨-, hfree, -⟩ := of_mem_tokens ht
  obtain ⟨rfl, -⟩ := cutAt_eq_some_iff.mp hcut
  intro hsemi
  have := hfree _ (List.mem_append_right _ (List.mem_cons_of_mem _ hsemi))
  simp at this

/-! ### The line of a row -/

theorem terminateByNewline_append {s : Bytes} (hs : NulFree s) (hnl : newline ∉ s) :
    terminateByNewline (s ++ [newline]) = s := by
  have hnul : NulFree (s ++ [newline]) := hs.append (by decide)
  rw [terminateByNewline, cstr_of_nulFree hnul, takeWhile_ne_append hnl]
  simp

/-- A line is read as a string. -/
theorem terminateByNewline_line {s : Bytes} (hnl : newline ∉ s) :
    terminateByNewline (s ++ [newline]) = cstr s := by
  by_cases hs : NulFree s
  · rw [terminateByNewline_append hs hnl, cstr_of_nulFree hs]
  · obtain ⟨a, b, rfl, ha⟩ := List.eq_append_cons_of_mem (not_not.mp hs)
    rw [terminateByNewline, List.append_assoc, List.cons_append, cstr_append_nul ha,
      cstr_append_nul ha, List.takeWhile_eq_self_iff]
    intro x hx
    simpa using ne_of_mem_of_not_mem (List.mem_append_left _ hx) hnl

/-- A line fits the buffer. -/
theorem length_lt_of_mem_fileLines {size : ℕ} (hsize : 1 < size) {text line : Bytes}
    (h : line ∈ fileLines size text) : line.length < size := by
  obtain ⟨chunk, hchunk, rfl⟩ := List.mem_map.mp h
  have hlen := length_lt_of_mem_fgetsLines hsize hchunk
  have hle : (terminateByNewline chunk).length ≤ chunk.length :=
    ((List.takeWhile_prefix _).trans (List.takeWhile_prefix _)).length_le
  omega

/-- The lines of a text that is empty or ends in a newline are not touched by what
follows it. -/
theorem fileLines_append {text : Bytes} (hend : EndsInNewline newline text) (size : ℕ)
    (more : Bytes) :
    fileLines size (text ++ more) = fileLines size text ++ fileLines size more := by
  rw [fileLines, fgetsLines_append hend, List.map_append, fileLines, fileLines]

/-- **A short row without newlines adds one line.** -/
theorem fileLines_append_row {text row : Bytes} {size : ℕ} (hend : EndsInNewline newline text)
    (hnul : NulFree row) (hnl : newline ∉ row) (hlen : row.length + 1 < size) :
    fileLines size (text ++ (row ++ [newline])) = fileLines size text ++ [row] := by
  rw [fileLines_append hend, fileLines, fileLines, fgetsLines_line hnl hlen,
    List.map_singleton, terminateByNewline_append hnul hnl]

/-- A text of lines: each of them with its newline. -/
def linesText (lines : List Bytes) : Bytes := lines.flatMap fun line => line ++ [newline]

theorem linesText_append (lines lines' : List Bytes) :
    linesText (lines ++ lines') = linesText lines ++ linesText lines' :=
  List.flatMap_append

theorem endsInNewline_linesText (lines : List Bytes) :
    EndsInNewline newline (linesText lines) := by
  rcases List.eq_nil_or_concat lines with rfl | ⟨lines, line, rfl⟩
  · exact Or.inl rfl
  · refine Or.inr ⟨linesText lines ++ line, ?_⟩
    rw [List.concat_eq_append, linesText_append]
    simp [linesText]

/-- **The lines of a text of short rows are the rows.** Induction along the rows. -/
theorem fileLines_linesText {rows : List Bytes} {size : ℕ}
    (hrows : ∀ row ∈ rows, NulFree row ∧ newline ∉ row ∧ row.length + 1 < size) :
    fileLines size (linesText rows) = rows := by
  induction rows with
  | nil => rfl
  | cons row rows ih =>
      obtain ⟨hnul, hnl, hlen⟩ := hrows row List.mem_cons_self
      have hfirst := fileLines_append_row (Or.inl rfl : EndsInNewline newline []) hnul hnl hlen
      rw [List.nil_append] at hfirst
      rw [linesText, List.flatMap_cons, fileLines_append (Or.inr ⟨row, rfl⟩), hfirst]
      exact congrArg (row :: ·) (ih fun r hr => hrows r (List.mem_cons_of_mem _ hr))

/-- The lines of a text of rows are those its rows are read back as, whatever they hold. -/
theorem fileLines_linesText_flatMap (rows : List Bytes) (size : ℕ) :
    fileLines size (linesText rows) =
      rows.flatMap fun row => fileLines size (row ++ [newline]) := by
  induction rows with
  | nil => rfl
  | cons row rows ih =>
      rw [linesText, List.flatMap_cons, fileLines_append (Or.inr ⟨row, rfl⟩), List.flatMap_cons,
        ← ih]
      rfl

/-- The lines a row is read back as stay in the text, whatever the row holds. -/
theorem fileLines_subset_linesText {rows : List Bytes} {row : Bytes} (hrow : row ∈ rows)
    (size : ℕ) : fileLines size (row ++ [newline]) ⊆ fileLines size (linesText rows) := by
  rw [fileLines_linesText_flatMap]
  exact fun line hline => List.mem_flatMap.mpr ⟨row, hrow, hline⟩

/-- **Only a short row without newlines adds one line.** -/
theorem tableLines_append_iff {text row line : Bytes} (hend : EndsInNewline newline text)
    (hnul : NulFree row) :
    tableLines (text ++ (row ++ [newline])) = tableLines text ++ [line] ↔
      newline ∉ row ∧ row.length ≤ 1022 ∧ line = row := by
  constructor
  · intro h
    rw [tableLines, fileLines_append hend, List.append_cancel_left_eq] at h
    have hone : (fgetsLines newline 1024 (row ++ [newline])).length = 1 := by
      rw [← List.length_map (f := terminateByNewline), ← fileLines, h, List.length_singleton]
    have hnl : newline ∉ row := by
      intro hmem
      obtain ⟨a, b, rfl⟩ := List.append_of_mem hmem
      have hsplit : a ++ newline :: b ++ [newline] = (a ++ [newline]) ++ (b ++ [newline]) := by
        simp
      rw [hsplit, fgetsLines_append (Or.inr ⟨a, rfl⟩), List.length_append] at hone
      have ha := List.length_pos_of_ne_nil
        (chunks_ne_nil newline 1023 1023 (List.concat_ne_nil newline a))
      have hb := List.length_pos_of_ne_nil
        (chunks_ne_nil newline 1023 1023 (List.concat_ne_nil newline b))
      change (chunks newline 1023 1023 _).length + (chunks newline 1023 1023 _).length = 1 at hone
      omega
    have hlen : row.length ≤ 1022 := by
      by_contra hlong
      have := one_lt_length_fgetsLines hnl (by omega : 1 < 1024) (by omega)
      omega
    refine ⟨hnl, hlen, ?_⟩
    rw [fileLines, fgetsLines_line hnl (by omega), List.map_singleton,
      terminateByNewline_append hnul hnl, List.singleton_inj] at h
    exact h.symm
  · rintro ⟨hnl, hlen, rfl⟩
    exact fileLines_append_row hend hnul hnl (by omega)

/-! ### The bytes of a row -/

/-- A byte that is in no column and no value, and separates nothing, is not in the row. -/
theorem not_mem_rowText {row : Row} {c : UInt8} (heq : c ≠ ch '=') (hsemi : c ≠ ch ';')
    (hcol : ∀ p ∈ row, c ∉ p.1) (hval : ∀ p ∈ row, c ∉ p.2) : c ∉ rowText row := by
  induction row using rowText.induct with
  | case1 => simp [rowText]
  | case2 col value =>
      have h1 := hcol (col, value) List.mem_cons_self
      have h2 := hval (col, value) List.mem_cons_self
      simp [rowText, heq, h1, h2]
  | case3 col value row hne ih =>
      have h1 := hcol (col, value) List.mem_cons_self
      have h2 := hval (col, value) List.mem_cons_self
      have h3 := ih (fun p hp => hcol p (List.mem_cons_of_mem _ hp))
        (fun p hp => hval p (List.mem_cons_of_mem _ hp))
      rw [rowText]
      · simp [heq, hsemi, h1, h2, h3]
      · exact fun h => absurd h hne

theorem nulFree_rowText {row : Row} (hcol : ∀ p ∈ row, ColumnOk p.1)
    (hval : ∀ p ∈ row, NulFree p.2) : NulFree (rowText row) :=
  not_mem_rowText (by decide) (by decide) (fun p hp => (hcol p hp).2.1) hval

theorem newline_not_mem_rowText {row : Row} (hcol : ∀ p ∈ row, ColumnOk p.1)
    (hval : ∀ p ∈ row, newline ∉ p.2) : newline ∉ rowText row :=
  not_mem_rowText (by decide) (by decide) (fun p hp => (hcol p hp).2.2.2.2) hval

/-- Every byte of a value is in the row. -/
theorem mem_rowText_of_mem {row : Row} {p : Bytes × Bytes} (hp : p ∈ row) :
    p.2 ⊆ rowText row := by
  induction row using rowText.induct with
  | case1 => simp at hp
  | case2 col value =>
      rw [List.mem_singleton] at hp
      subst hp
      intro c hc
      simp [rowText, hc]
  | case3 col value row hne ih =>
      rw [rowText]
      · intro c hc
        rcases List.mem_cons.mp hp with rfl | hp
        · simp [hc]
        · simp [ih hp hc]
      · exact fun h => absurd h hne

/-! ### Finding a column in a row -/

/-- The text of the pairs that follow a pair in a row. -/
def rowTail (row : Row) : Bytes := row.flatMap fun pair => ch ';' :: pairText pair

theorem rowText_cons (pair : Bytes × Bytes) (row : Row) :
    rowText (pair :: row) = pairText pair ++ rowTail row := by
  rw [rowText_eq_intercalate, List.map_cons, intercalate_cons_eq, rowTail, List.flatMap_map]

theorem rowText_append_cons (row row' : Row) (pair : Bytes × Bytes) :
    rowText (row ++ pair :: row') =
      (row.flatMap fun p => pairText p ++ [ch ';']) ++ (pairText pair ++ rowTail row') := by
  induction row with
  | nil => rw [List.nil_append, List.flatMap_nil, List.nil_append, rowText_cons]
  | cons p row ih =>
      obtain ⟨p', rest, hrest⟩ := List.exists_cons_of_ne_nil
        (List.append_ne_nil_of_right_ne_nil row (List.cons_ne_nil pair row'))
      rw [List.cons_append, hrest, rowText, ← hrest, ih]
      · simp [pairText]
      · exact List.cons_ne_nil p' rest

/-- A key of a column occurs in a row only in one of its values, or at the end of one of its
column names. -/
theorem infix_of_infix_pairs {row : Row} {col : Bytes} (heq : ch '=' ∉ col)
    (hsemi : ch ';' ∉ col) (hcol : ∀ p ∈ row, ch '=' ∉ p.1)
    (h : col ++ [ch '='] <:+: row.flatMap fun p => pairText p ++ [ch ';']) :
    ∃ p ∈ row, col <:+ p.1 ∨ col ++ [ch '='] <:+: p.2 := by
  induction row with
  | nil => simp at h
  | cons p row ih =>
      have hkey : ch ';' ∉ col ++ [ch '='] := by
        have hne : ch ';' ≠ ch '=' := by decide
        simp [hsemi, hne]
      have hsplit : (p :: row).flatMap (fun p => pairText p ++ [ch ';']) =
          pairText p ++ ch ';' :: row.flatMap fun p => pairText p ++ [ch ';'] := by
        simp
      rw [hsplit] at h
      rcases infix_append_cons hkey h with h | h
      · exact ⟨p, List.mem_cons_self, infix_key_value heq (hcol p List.mem_cons_self) h⟩
      · obtain ⟨q, hq, hfound⟩ := ih (fun q hq => hcol q (List.mem_cons_of_mem _ hq)) h
        exact ⟨q, List.mem_cons_of_mem _ hq, hfound⟩

/-- **A column is found at its own pair**, when no earlier column name ends in it and no
earlier value contains its key. -/
theorem strstr_rowText (row row' : Row) {col value : Bytes} (heq : ch '=' ∉ col)
    (hsemi : ch ';' ∉ col) (hcol : ∀ p ∈ row, ch '=' ∉ p.1)
    (hfree : ∀ p ∈ row, ¬ col <:+ p.1 ∧ ¬ col ++ [ch '='] <:+: p.2) :
    strstr (col ++ [ch '=']) (rowText (row ++ (col, value) :: row')) =
      some (col ++ [ch '='] ++ (value ++ rowTail row')) := by
  have habsent : ¬ col ++ [ch '='] <:+: row.flatMap fun p => pairText p ++ [ch ';'] := by
    intro h
    obtain ⟨p, hp, hsuffix | hinfix⟩ := infix_of_infix_pairs heq hsemi hcol h
    · exact (hfree p hp).1 hsuffix
    · exact (hfree p hp).2 hinfix
  have hfirst := firstOccurrence_of_absent heq habsent (value ++ rowTail row')
  have htext : rowText (row ++ (col, value) :: row') =
      (row.flatMap fun p => pairText p ++ [ch ';']) ++ (col ++ [ch '=']) ++
        (value ++ rowTail row') := by
    rw [rowText_append_cons]
    simp [pairText]
  rw [htext]
  exact hfirst.strstr_eq

/-- Every column of a row is found at its own pair, when no column name ends in a later one and no
value holds the key of a later one. -/
theorem strstr_of_mem_row {row : Row} (hok : ∀ p ∈ row, ColumnOk p.1)
    (hsuffix : row.Pairwise fun p q => ¬ q.1 <:+ p.1)
    (hkeys : row.Pairwise fun p q => ¬ q.1 ++ [ch '='] <:+: p.2) {col value : Bytes}
    (hmem : (col, value) ∈ row) : ∃ row', strstr (col ++ [ch '=']) (rowText row) =
      some (col ++ [ch '='] ++ (value ++ rowTail row')) := by
  obtain ⟨before, after, rfl⟩ := List.append_of_mem hmem
  obtain ⟨-, -, hkeys⟩ := List.pairwise_append.mp hkeys
  obtain ⟨-, -, hsuffix⟩ := List.pairwise_append.mp hsuffix
  obtain ⟨-, -, heq, hsemi, -⟩ := hok (col, value) (by simp)
  refine ⟨after, strstr_rowText before after heq hsemi ?_ ?_⟩
  · exact fun p hp => (hok p (List.mem_append_left _ hp)).2.2.1
  · exact fun p hp => ⟨hsuffix p hp _ List.mem_cons_self, hkeys p hp _ List.mem_cons_self⟩

/-- A column that is in the row is found, here or earlier. -/
theorem exists_strstr_rowText {row : Row} {col : Bytes} (hcol : col ∈ row.map Prod.fst) :
    ∃ token, strstr (col ++ [ch '=']) (rowText row) = some token := by
  obtain ⟨p, hp, rfl⟩ := List.mem_map.mp hcol
  obtain ⟨row₁, row₂, rfl⟩ := List.append_of_mem hp
  have hinfix : p.1 ++ [ch '='] <:+: rowText (row₁ ++ p :: row₂) := by
    rw [rowText_append_cons]
    exact ⟨row₁.flatMap fun p => pairText p ++ [ch ';'], p.2 ++ rowTail row₂, by
      simp [pairText]⟩
  cases hfound : strstr (p.1 ++ [ch '=']) (rowText (row₁ ++ p :: row₂)) with
  | none => exact absurd hinfix (strstr_eq_none_iff.mp hfound)
  | some token => exact ⟨token, rfl⟩

/-! ### Rows that were cut -/

/-- A line has an equals sign for each of its pairs. -/
theorem length_linePairs_le (line : Bytes) : (linePairs line).length ≤ line.count (ch '=') := by
  have hcut : ∀ ts : List Bytes, (ts.filterMap (cutAt (ch '='))).length ≤
      ts.flatten.count (ch '=') := by
    intro ts
    induction ts with
    | nil => simp
    | cons t ts ih =>
        rw [List.flatten_cons, List.count_append]
        cases hpair : cutAt (ch '=') t with
        | none =>
            rw [List.filterMap_cons_none hpair]
            omega
        | some pair =>
            obtain ⟨rfl, -⟩ := cutAt_eq_some_iff.mp hpair
            rw [List.filterMap_cons_some hpair, List.length_cons, List.count_append,
              List.count_cons_self]
            omega
  refine (hcut _).trans ?_
  rw [flatten_tokens]
  exact List.filter_sublist.count_le _

/-- A byte occurs in a line of a text at most as often as in the text. -/
theorem count_le_of_mem_fileLines {text line : Bytes} {size : ℕ}
    (h : line ∈ fileLines size text) (c : UInt8) : line.count c ≤ text.count c := by
  obtain ⟨chunk, hchunk, rfl⟩ := List.mem_map.mp h
  have hsub : (terminateByNewline chunk).Sublist chunk :=
    (List.takeWhile_sublist _).trans (List.takeWhile_sublist _)
  have hin : chunk.Sublist (fgetsLines newline size text).flatten :=
    List.sublist_flatten_of_mem hchunk
  rw [flatten_fgetsLines] at hin
  exact (hsub.trans hin).count_le c

/-- **A row that does not fit the buffer** is read back as a first line of 1023 bytes, and more
lines. -/
theorem tableLines_of_long {row : Bytes} (hnul : NulFree row) (hnl : newline ∉ row)
    (hlong : 1022 < row.length) : tableLines (row ++ [newline]) =
      row.take 1023 :: tableLines (row.drop 1023 ++ [newline]) := by
  have hfree : ∀ {c : UInt8}, c ∉ row → c ∉ row.take 1023 := fun h hmem =>
    h (List.mem_of_mem_take hmem)
  have hclosed : terminateByNewline (row.take 1023) = row.take 1023 := by
    rw [terminateByNewline, cstr_of_nulFree (hfree hnul), List.takeWhile_eq_self_iff]
    exact fun c hc => by simpa using ne_of_mem_of_not_mem hc (hfree hnl)
  rw [tableLines, fileLines, fgetsLines_of_long hnl (by decide) (by omega), List.map_cons,
    hclosed]
  rfl

theorem linePairs_of_free {line : Bytes} (h : ch ';' ∉ line) :
    linePairs line = (cutAt (ch '=') line).toList := by
  rcases eq_or_ne line [] with rfl | hne
  · simp [linePairs, cutAt]
  · rw [linePairs, tokens_of_free hne fun y hy => by simpa using ne_of_mem_of_not_mem hy h]
    cases hcut : cutAt (ch '=') line with
    | none => simp [hcut]
    | some pair => simp [hcut]

theorem linePairs_append {piece : Bytes} (h : ch ';' ∉ piece) (rest : Bytes) :
    linePairs (piece ++ ch ';' :: rest) = (cutAt (ch '=') piece).toList ++ linePairs rest := by
  rw [← linePairs_of_free h, linePairs, tokens_append_cons (by simp), List.filterMap_append]
  rfl

theorem rowTail_cons (pair : Bytes × Bytes) (row : Row) :
    rowTail (pair :: row) = ch ';' :: rowText (pair :: row) := by
  rw [rowText_cons]
  rfl

/-- The pair of a text that was cut in its first pair. -/
theorem linePairs_of_prefix_pairText {pair : Bytes × Bytes} (heq : ch '=' ∉ pair.1)
    (hfree : ch ';' ∉ pairText pair) {line : Bytes} (h : line <+: pairText pair) :
    (linePairs line).map Prod.fst <+: [pair.1] ∧ ∀ q ∈ linePairs line, q.2 <+: pair.2 := by
  rw [linePairs_of_free fun hmem => hfree (h.subset hmem)]
  cases hcut : cutAt (ch '=') line with
  | none => simp
  | some found =>
      obtain ⟨rfl, hkey⟩ := cutAt_eq_some_iff.mp hcut
      obtain ⟨hname, hvalue⟩ := (append_cons_starts_iff hkey heq).mp h
      simp [hname, hvalue]

/-- **The pairs of a row that was cut**: those of the row, up to a last one whose value may be
cut. Induction along the row. -/
theorem linePairs_of_prefix {row : Row} (hcol : ∀ p ∈ row, ColumnOk p.1)
    (hval : ∀ p ∈ row, ch ';' ∉ p.2) {line : Bytes} (h : line <+: rowText row) :
    (linePairs line).map Prod.fst <+: row.map Prod.fst ∧
      ∀ q ∈ linePairs line, ∃ p ∈ row, q.2 <+: p.2 := by
  induction row generalizing line with
  | nil =>
      obtain rfl := List.prefix_nil.mp h
      simp [linePairs]
  | cons pair row ih =>
      obtain ⟨-, -, heq, hsemi, -⟩ := hcol pair List.mem_cons_self
      have hfree : ch ';' ∉ pairText pair := by
        have hsep : ch ';' ≠ ch '=' := by decide
        simp [pairText, hsemi, hsep, hval pair List.mem_cons_self]
      rw [rowText_cons] at h
      rcases List.prefix_or_prefix_of_prefix h (List.prefix_append _ _) with hin | ⟨rest, rfl⟩
      · -- the cut is in this pair
        obtain ⟨hnames, hvalues⟩ := linePairs_of_prefix_pairText heq hfree hin
        exact ⟨hnames.trans (List.prefix_append [pair.1] _),
          fun q hq => ⟨pair, List.mem_cons_self, hvalues q hq⟩⟩
      · have hrest := (List.prefix_append_right_inj _).mp h
        cases row with
        | nil =>
            obtain rfl := List.prefix_nil.mp hrest
            rw [List.append_nil, linePairs_of_free hfree, cutAt_pairText heq]
            simp
        | cons next row =>
            rw [rowTail_cons] at hrest
            cases rest with
            | nil =>
                rw [List.append_nil, linePairs_of_free hfree, cutAt_pairText heq]
                simp
            | cons c rest =>
                obtain ⟨rfl, hnext⟩ := List.cons_prefix_cons.mp hrest
                obtain ⟨hnames, hvalues⟩ := ih (fun p hp => hcol p (List.mem_cons_of_mem _ hp))
                  (fun p hp => hval p (List.mem_cons_of_mem _ hp)) hnext
                rw [linePairs_append hfree, cutAt_pairText heq]
                refine ⟨List.cons_prefix_cons.mpr ⟨rfl, hnames⟩, ?_⟩
                rintro q (_ | ⟨_, hq⟩)
                · exact ⟨pair, List.mem_cons_self, List.prefix_rfl⟩
                · obtain ⟨p, hp, hq⟩ := hvalues q hq
                  exact ⟨p, List.mem_cons_of_mem _ hp, hq⟩

/-- A key is not in a row whose column names do not end in its column, when the values have no
equals sign. -/
theorem key_not_infix_rowText {row : Row} {col : Bytes} (heq : ch '=' ∉ col)
    (hsemi : ch ';' ∉ col) (hrow : ∀ p ∈ row, ch '=' ∉ p.1 ∧ ch '=' ∉ p.2 ∧ ¬ col <:+ p.1) :
    ¬ col ++ [ch '='] <:+: rowText row := by
  have hclosed : ∀ row : Row, rowText row <+: row.flatMap fun p => pairText p ++ [ch ';'] := by
    intro row
    induction row with
    | nil => exact List.prefix_rfl
    | cons pair row ih =>
        rw [rowText_cons, List.flatMap_cons, List.append_assoc, List.prefix_append_right_inj]
        cases row with
        | nil => exact List.nil_prefix
        | cons next row =>
            rw [rowTail_cons]
            exact List.cons_prefix_cons.mpr ⟨rfl, ih⟩
  intro hkey
  obtain ⟨p, hp, hsuffix | hvalue⟩ := infix_of_infix_pairs heq hsemi (fun p hp => (hrow p hp).1)
    (hkey.trans (hclosed row).isInfix)
  · exact (hrow p hp).2.2 hsuffix
  · exact (hrow p hp).2.1 (hvalue.subset (by simp))

/-- A row has an equals sign for each of its pairs, when the values have none. -/
theorem count_rowText {row : Row} (h : ∀ p ∈ row, ch '=' ∉ p.1 ∧ ch '=' ∉ p.2) :
    (rowText row).count (ch '=') = row.length := by
  induction row with
  | nil => rfl
  | cons pair row ih =>
      have hrest := ih fun p hp => h p (List.mem_cons_of_mem _ hp)
      have hpair : (pairText pair).count (ch '=') = 1 := by
        obtain ⟨hkey, hvalue⟩ := h pair List.mem_cons_self
        rw [pairText, List.count_append, List.count_cons_self, List.count_eq_zero_of_not_mem hkey,
          List.count_eq_zero_of_not_mem hvalue]
      have hsep : ch ';' ≠ ch '=' := by decide
      cases row with
      | nil => rw [rowText_cons, rowTail, List.flatMap_nil, List.append_nil, hpair]; rfl
      | cons next row =>
          rw [rowText_cons, rowTail_cons, List.count_append, hpair,
            List.count_cons_of_ne hsep, hrest]
          simp only [List.length_cons]
          omega

end CBank
