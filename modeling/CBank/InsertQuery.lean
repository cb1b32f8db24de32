import CBank.TableFile

/-!
# Insert Queries

`orm/insert_query.c`: a query collects at most 50 pairs, and its executor appends one row
to the table, creating the file when it is missing.

## Main results

* `insert_row_isolated_iff`: the exact condition under which an insert adds one line with
  the inserted pairs and nothing else.
-/

namespace CBank

open CLib

/-- `MAX_INSERT_PAIRS`. -/
abbrev maxInsertPairs : ℕ := 50

/-- `InsertQuery`: the table and the pairs set so far, which fit `insert_pair`. -/
structure InsertQuery where
  table : Store
  insertPair : Row
  length_le : insertPair.length ≤ maxInsertPairs

/-- `new_insert_query` and `insert_query_into`. -/
def InsertQuery.newInto (table : Store) : InsertQuery := ⟨table, [], Nat.zero_le _⟩

/-- `set_for_insert`: a pair past the last slot is dropped. -/
def InsertQuery.set (q : InsertQuery) (column value : Bytes) : InsertQuery :=
  if h : q.insertPair.length < maxInsertPairs then
    { q with
      insertPair := q.insertPair ++ [(column, value)]
      length_le := by
        rw [List.length_append, List.length_singleton]
        exact h }
  else q

theorem InsertQuery.set_insertPair {q : InsertQuery} (h : q.insertPair.length < maxInsertPairs)
    (column value : Bytes) :
    (q.set column value).insertPair = q.insertPair ++ [(column, value)] := by
  rw [InsertQuery.set, dif_pos h]

/-- Setting pairs one after the other, as long as they fit. -/
theorem InsertQuery.foldl_set_insertPair (row : Row) (q : InsertQuery)
    (h : q.insertPair.length + row.length ≤ maxInsertPairs) :
    (row.foldl (fun q p => q.set p.1 p.2) q).insertPair = q.insertPair ++ row := by
  induction row generalizing q with
  | nil => simp
  | cons p row ih =>
      rw [List.length_cons] at h
      have hroom : q.insertPair.length < maxInsertPairs := by omega
      have hset := InsertQuery.set_insertPair hroom p.1 p.2
      rw [List.foldl_cons, ih, hset]
      · simp
      · rw [hset, List.length_append, List.length_singleton]
        omega

@[simp] theorem InsertQuery.set_table (q : InsertQuery) (column value : Bytes) :
    (q.set column value).table = q.table := by
  rw [InsertQuery.set]
  split
  · rfl
  · rfl

@[simp] theorem InsertQuery.newInto_table (table : Store) :
    (InsertQuery.newInto table).table = table := rfl

@[simp] theorem InsertQuery.newInto_insertPair (table : Store) :
    (InsertQuery.newInto table).insertPair = [] := rfl

/-- `insert_query_executor`. -/
def insertQueryExecutor (q : InsertQuery) : Proc Disk FileOp ℤ :=
  if q.insertPair = [] then pure 1
  else do
    Proc.perform (.insert q.table q.insertPair)
    pure 0

/-- An insert performs one operation. -/
theorem insertQueryExecutor_performs {q : InsertQuery} (h : q.insertPair ≠ []) (d : Disk) :
    (insertQueryExecutor q).Performs d [.insert q.table q.insertPair] (some 0) := by
  rw [insertQueryExecutor, if_neg h]
  exact Proc.Performs.perform_bind (Proc.performs_pure _ _)

/-- The file after an insert. -/
theorem insertQueryExecutor_table {q : InsertQuery} (h : q.insertPair ≠ []) (d : Disk) :
    ((insertQueryExecutor q).after d).table q.table =
      some ((d.table q.table).getD [] ++ (rowText q.insertPair ++ [newline])) := by
  rw [(insertQueryExecutor_performs h d).after_eq]
  simp [FileOp.exec]

/-- **Row isolation.** For a table that is empty or ends in a newline, an insert leaves the
lines that were there and adds exactly one, with the inserted pairs, when and only when no
value holds a semicolon or a newline and the row has at most 1022 bytes. -/
theorem insert_row_isolated_iff (d : Disk) (q : InsertQuery) {text : Bytes}
    (hfile : d.table q.table = some text) (hend : EndsInNewline newline text)
    (hne : q.insertPair ≠ []) (hcol : ∀ p ∈ q.insertPair, ColumnOk p.1)
    (hnul : ∀ p ∈ q.insertPair, NulFree p.2) :
    (∃ text' line, ((insertQueryExecutor q).after d).table q.table = some text' ∧
        tableLines text' = tableLines text ++ [line] ∧ linePairs line = q.insertPair) ↔
      (∀ p ∈ q.insertPair, ValueOk p.2) ∧ (rowText q.insertPair).length ≤ 1022 := by
  have hafter := insertQueryExecutor_table hne d
  rw [hfile, Option.getD_some] at hafter
  have hrow := nulFree_rowText hcol hnul
  constructor
  · rintro ⟨text', line, htext, hlines, hpairs⟩
    obtain rfl := Option.some.inj (htext.symm.trans hafter)
    obtain ⟨hnl, hlen, rfl⟩ := (tableLines_append_iff hend hrow).mp hlines
    refine ⟨?_, hlen⟩
    intro p hp
    exact ⟨not_mem_of_mem_linePairs (hpairs.symm ▸ hp), fun h => hnl (mem_rowText_of_mem hp h)⟩
  · rintro ⟨hval, hlen⟩
    have hnl := newline_not_mem_rowText hcol fun p hp => (hval p hp).2
    exact ⟨_, _, hafter, fileLines_append_row hend hrow hnl (by omega),
      linePairs_rowText hcol fun p hp => (hval p hp).1⟩

/-- A user table of two rows. -/
def twoUsers : Bytes := linesText [lit "name=bob;cpf=2", lit "name=carl;cpf=3"]

/-- Behind them the row `name=ann;cpf=1` comes back as one line with its two pairs. -/
theorem insert_row_isolated_ann :
    ∃ text' line, ((insertQueryExecutor (((InsertQuery.newInto .user).set (lit "name")
        (lit "ann")).set (lit "cpf") (lit "1"))).after
          (Disk.empty.put .user (some twoUsers))).table .user = some text' ∧
      tableLines text' = tableLines twoUsers ++ [line] ∧
      linePairs line = [(lit "name", lit "ann"), (lit "cpf", lit "1")] :=
  (insert_row_isolated_iff (Disk.empty.put .user (some twoUsers)) (((InsertQuery.newInto .user).set
    (lit "name") (lit "ann")).set (lit "cpf") (lit "1")) rfl
      (Or.inr ⟨lit "name=bob;cpf=2" ++ newline :: lit "name=carl;cpf=3", by decide⟩)
      (by decide) (by decide) (by decide)).mpr ⟨by decide, by decide⟩

/-- A directory whose user table is empty. -/
def emptyUserTable : Disk := Disk.empty.put .user (some [])

/-- **A value that forges a column**: the value `a;b=c` comes back as two pairs. -/
theorem insert_row_forged :
    ¬ ∃ text' line, ((insertQueryExecutor ((InsertQuery.newInto .user).set (lit "name")
        (lit "a;b=c"))).after emptyUserTable).table .user = some text' ∧
      tableLines text' = tableLines [] ++ [line] ∧
      linePairs line = [(lit "name", lit "a;b=c")] := by
  rintro ⟨text', line, htext, hlines, hpairs⟩
  have hrow : ((insertQueryExecutor ((InsertQuery.newInto .user).set (lit "name")
      (lit "a;b=c"))).after emptyUserTable).table .user = some (lit "name=a;b=c\n") := by
    decide +kernel
  obtain rfl := Option.some.inj (htext.symm.trans hrow)
  have hline : tableLines (lit "name=a;b=c\n") = [lit "name=a;b=c"] := by decide +kernel
  rw [hline, tableLines, fileLines, fgetsLines_nil, List.map_nil, List.nil_append,
    List.singleton_inj] at hlines
  subst hlines
  exact absurd hpairs (by decide +kernel)

end CBank
