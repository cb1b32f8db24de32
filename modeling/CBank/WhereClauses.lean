import CBank.UserRow

/-!
# Conditions on Lines of Any Shape

What `apply_select_where` decides about a line that need not have the columns of a table. The loop
goes through the pairs of the line and rejects it at the first one that fails a condition, so a
condition whose column the line does not have is never looked at. A line therefore satisfies a
query too many exactly when it lacks a column and no pair it has fails.

## Main results

* `mem_linePairs_iff`: the pairs of a line are its pieces between semicolons, cut at the first
  equals sign.
* `applySelectWhere_iff`: what the loop decides.
* `applySelectWhere_correct_iff`: when that is what the conditions say.
-/

namespace CBank

open CLib

/-! ### The pairs of a line -/

/-- The line has the pair `column=value` between its semicolons. -/
def HasPair (line column value : Bytes) : Prop :=
  ch '=' ∉ column ∧ column ++ ch '=' :: value ∈ line.splitOn (ch ';')

instance (line column value : Bytes) : Decidable (HasPair line column value) :=
  inferInstanceAs (Decidable (_ ∧ _))

/-- **The pairs of a line** are those the loops find. -/
theorem mem_linePairs_iff {line column value : Bytes} :
    (column, value) ∈ linePairs line ↔ HasPair line column value := by
  rw [linePairs, HasPair, List.mem_filterMap, List.splitOn_eq_splitOnP]
  constructor
  · rintro ⟨piece, hpiece, hcut⟩
    obtain ⟨rfl, hfree⟩ := cutAt_eq_some_iff.mp hcut
    exact ⟨hfree, (List.mem_filter.mp hpiece).1⟩
  · rintro ⟨hfree, hpiece⟩
    exact ⟨_, List.mem_filter.mpr ⟨hpiece, by simp⟩, cutAt_append_cons hfree value⟩

/-! ### The conditions -/

/-- The comparison of a condition with `=` or `!=`. -/
def WhereCondition.Accepts (clause : WhereCondition) (value : Bytes) : Prop :=
  if clause.operator = lit "=" then value = clause.value else value ≠ clause.value

/-- The line has the column of every condition, and every pair with that column passes. -/
def SatisfiesAll (conditions : List WhereCondition) (line : Bytes) : Prop :=
  ∀ clause ∈ conditions, (∃ value, HasPair line clause.column value) ∧
    ∀ value, HasPair line clause.column value → clause.Accepts value

variable {q : SelectQuery} {line : Bytes}

theorem compare_eq_true_iff {clause : WhereCondition}
    (hop : clause.operator = lit "=" ∨ clause.operator = lit "!=") (value : Bytes) :
    compare value clause.operator clause.value = true ↔ clause.Accepts value := by
  have hne : lit "!=" ≠ lit "=" := by decide
  rcases hop with hop | hop
  · simp [compare, WhereCondition.Accepts, hop]
  · simp [compare, WhereCondition.Accepts, hop, hne]

/-- **What the loop decides**: no pair of the line fails a condition on its column. -/
theorem applySelectWhere_iff (hlen : line.length < 1024) (hsome : q.conditions ≠ [])
    (hop : ∀ clause ∈ q.conditions, clause.operator = lit "=" ∨ clause.operator = lit "!=") :
    applySelectWhere q line = true ↔
      ∀ clause ∈ q.conditions, ∀ value, HasPair line clause.column value →
        clause.Accepts value := by
  rw [applySelectWhere, if_neg hsome, List.take_of_length_le (by omega)]
  simp only [List.all_eq_true, Bool.or_eq_true, decide_eq_true_eq]
  constructor
  · intro h clause hclause value hpair
    rcases h _ (mem_linePairs_iff.mpr hpair) clause hclause with hne | hcompare
    · exact absurd rfl hne
    · exact (compare_eq_true_iff (hop clause hclause) value).mp hcompare
  · rintro h ⟨column, value⟩ hpair clause hclause
    by_cases hcol : clause.column = column
    · refine Or.inr ((compare_eq_true_iff (hop clause hclause) value).mpr ?_)
      exact h clause hclause value (hcol ▸ mem_linePairs_iff.mp hpair)
    · exact Or.inl hcol

/-- **Conditions and missing columns.** A line satisfies a query exactly when it has the column of
each condition and all its pairs pass, provided that the line has all these columns or some pair
fails anyway; otherwise it is kept all the same. -/
theorem applySelectWhere_correct_iff (hlen : line.length < 1024) (hsome : q.conditions ≠ [])
    (hop : ∀ clause ∈ q.conditions, clause.operator = lit "=" ∨ clause.operator = lit "!=") :
    (applySelectWhere q line = true ↔ SatisfiesAll q.conditions line) ↔
      (∀ clause ∈ q.conditions, ∃ value, HasPair line clause.column value) ∨
        ∃ clause ∈ q.conditions, ∃ value, HasPair line clause.column value ∧
          ¬ clause.Accepts value := by
  rw [applySelectWhere_iff hlen hsome hop]
  constructor
  · intro h
    by_cases hall : ∀ clause ∈ q.conditions, ∀ value, HasPair line clause.column value →
        clause.Accepts value
    · exact Or.inl fun clause hclause => ((h.mp hall) clause hclause).1
    · simp only [not_forall] at hall
      obtain ⟨clause, hclause, value, hpair, hfails⟩ := hall
      exact Or.inr ⟨clause, hclause, value, hpair, hfails⟩
  · rintro (hcols | ⟨clause, hclause, value, hpair, hfails⟩)
    · exact ⟨fun h clause hclause => ⟨hcols clause hclause, h clause hclause⟩,
        fun h clause hclause => (h clause hclause).2⟩
    · exact iff_of_false (fun h => hfails (h clause hclause value hpair))
        fun h => hfails ((h clause hclause).2 value hpair)

theorem fieldQuery_conditions (field value : Bytes) :
    (fieldQuery field value).conditions = [⟨field, lit "=", value⟩] := rfl

/-- The lookup of a cpf on a line with that cpf. -/
theorem applySelectWhere_correct_cpf :
    applySelectWhere (fieldQuery (lit "cpf") (lit "1")) (lit "id=0;cpf=1") = true ↔
      SatisfiesAll (fieldQuery (lit "cpf") (lit "1")).conditions (lit "id=0;cpf=1") := by
  refine (applySelectWhere_correct_iff (by decide) (by simp [fieldQuery_conditions])
    (by simp [fieldQuery_conditions])).mpr (Or.inl ?_)
  simp only [fieldQuery_conditions, List.mem_singleton, forall_eq]
  exact ⟨lit "1", by decide⟩

/-- **A line without a cpf** is kept by the lookup of every cpf. -/
theorem applySelectWhere_missing_cpf :
    applySelectWhere (fieldQuery (lit "cpf") (lit "1")) (lit "id=0") = true ∧
      ¬ SatisfiesAll (fieldQuery (lit "cpf") (lit "1")).conditions (lit "id=0") := by
  refine ⟨by decide +kernel, fun h => ?_⟩
  obtain ⟨⟨value, -, hpiece⟩, -⟩ := h ⟨lit "cpf", lit "=", lit "1"⟩ (by
    simp [fieldQuery_conditions])
  have hline : (lit "id=0").splitOn (ch ';') = [lit "id=0"] := by decide
  rw [hline, List.mem_singleton] at hpiece
  exact absurd (congrArg List.head? hpiece) (by simp [lit])

/-- **A line without the column is found by every lookup.** `get_user_by_field`, on a table with
such a line, never reports that there is no user. -/
theorem matchedRows_of_missing_column {text line : Bytes} (hline : line ∈ tableLines text)
    {field : Bytes} (hmissing : ∀ value, ¬ HasPair line field value) (value : Bytes) :
    selectPairs (fieldQuery field value).columns line ∈
      matchedRows (fieldQuery field value) text := by
  have hlen : line.length < 1024 := length_lt_of_mem_fileLines (by norm_num) hline
  have hkept : applySelectWhere (fieldQuery field value) line = true := by
    refine (applySelectWhere_iff hlen (by simp [fieldQuery_conditions])
      (by simp [fieldQuery_conditions])).mpr ?_
    simp only [fieldQuery_conditions, List.mem_singleton, forall_eq]
    exact fun found hpair => absurd hpair (hmissing found)
  exact List.mem_map_of_mem (List.mem_filter.mpr ⟨hline, hkept⟩)

end CBank
