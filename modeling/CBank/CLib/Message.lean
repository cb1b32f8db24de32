import Mathlib.Data.List.Basic

/-!
# Messages with a Head and a Body

A text format of lines: a start line, fields with a name and a value, an empty line, and a body
that reaches to the end of the text. A `Message` carries the proof that its parts hold none of the
characters the format gives a meaning, so what is printed is read back as it was.

## Main results

* `readMessage_print`: the message that is read from its text.
-/

namespace CLib

/-- The two characters that end a line, and the two between the name and the value of a field. -/
structure Marks (α : Type*) where
  cr : α
  lf : α
  colon : α
  space : α
  colon_ne : colon ≠ cr
  space_ne : space ≠ cr

variable {α : Type*} [DecidableEq α] {M : Marks α}

namespace Marks

/-- A line. -/
def line (M : Marks α) (text : List α) : List α := text ++ [M.cr, M.lf]

/-- The text of a field. -/
def fieldText (M : Marks α) (field : List α × List α) : List α :=
  field.1 ++ M.colon :: M.space :: field.2

end Marks

/-- A message whose parts can be told apart in its text. -/
structure Message (M : Marks α) where
  start : List α
  fields : List (List α × List α)
  body : List α
  startLine : M.cr ∉ start
  names : ∀ field ∈ fields, M.cr ∉ field.1 ∧ M.colon ∉ field.1
  values : ∀ field ∈ fields, M.cr ∉ field.2

/-- The text of a message. -/
def Message.print (m : Message M) : List α :=
  M.line m.start ++ (m.fields.flatMap fun field => M.line (M.fieldText field)) ++ M.line [] ++
    m.body

/-- The first line of a text, and what follows it. -/
def takeLine (M : Marks α) : List α → Option (List α × List α)
  | [] => none
  | c :: text =>
      if c = M.cr ∧ text.head? = some M.lf then some ([], text.tail)
      else (takeLine M text).map fun p => (c :: p.1, p.2)

/-- The name and the value of a field. -/
def takeField (M : Marks α) (text : List α) : Option (List α × List α) :=
  match text.dropWhile (· ≠ M.colon) with
  | _ :: c :: value => if c = M.space then some (text.takeWhile (· ≠ M.colon), value) else none
  | _ => none

/-- The fields up to the empty line, and what follows it; the number bounds the lines. -/
def takeFields (M : Marks α) : ℕ → List α → Option (List (List α × List α) × List α)
  | 0, _ => none
  | n + 1, text => do
      let p ← takeLine M text
      if p.1 = [] then some ([], p.2)
      else do
        let field ← takeField M p.1
        let q ← takeFields M n p.2
        some (field :: q.1, q.2)

/-- The start line, the fields and the body of a text. -/
def readMessage (M : Marks α) (text : List α) :
    Option (List α × List (List α × List α) × List α) := do
  let p ← takeLine M text
  let q ← takeFields M text.length p.2
  some (p.1, q.1, q.2)

/-- A line is taken as it was printed. -/
theorem takeLine_line {text : List α} (h : M.cr ∉ text) (rest : List α) :
    takeLine M (M.line text ++ rest) = some (text, rest) := by
  induction text with
  | nil => simp [Marks.line, takeLine]
  | cons c text ih =>
      rw [List.mem_cons, not_or] at h
      have hstep := ih h.2
      rw [Marks.line] at hstep ⊢
      rw [List.cons_append, List.cons_append, takeLine, if_neg fun hc => h.1 hc.1.symm, hstep]
      rfl

/-- A field is taken as it was printed. -/
theorem takeField_fieldText {field : List α × List α} (h : M.colon ∉ field.1) :
    takeField M (M.fieldText field) = some field := by
  have hall : ∀ c ∈ field.1, decide (c ≠ M.colon) = true := fun c hc =>
    decide_eq_true fun heq => h (heq ▸ hc)
  rw [takeField, Marks.fieldText, List.dropWhile_append_of_pos hall,
    List.takeWhile_append_of_pos hall]
  simp

/-- The fields are taken as they were printed. Induction along the fields. -/
theorem takeFields_lines {fields : List (List α × List α)}
    (hnames : ∀ field ∈ fields, M.cr ∉ field.1 ∧ M.colon ∉ field.1)
    (hvalues : ∀ field ∈ fields, M.cr ∉ field.2) {n : ℕ} (hn : fields.length < n)
    (body : List α) :
    takeFields M n ((fields.flatMap fun field => M.line (M.fieldText field)) ++
      (M.line [] ++ body)) = some (fields, body) := by
  induction fields generalizing n with
  | nil =>
      obtain ⟨n, rfl⟩ := Nat.exists_eq_succ_of_ne_zero (Nat.ne_of_gt hn)
      rw [takeFields, List.flatMap_nil, List.nil_append, takeLine_line List.not_mem_nil]
      rfl
  | cons field fields ih =>
      obtain ⟨n, rfl⟩ := Nat.exists_eq_succ_of_ne_zero (Nat.ne_of_gt (Nat.zero_lt_of_lt hn))
      have hname := hnames field List.mem_cons_self
      have hline : M.cr ∉ M.fieldText field := by
        simp only [Marks.fieldText, List.mem_append, List.mem_cons, not_or]
        exact ⟨hname.1, M.colon_ne.symm, M.space_ne.symm, hvalues field List.mem_cons_self⟩
      have hne : M.fieldText field ≠ [] :=
        List.append_ne_nil_of_right_ne_nil _ (List.cons_ne_nil _ _)
      have hrest := ih (fun f hf => hnames f (List.mem_cons_of_mem _ hf))
        (fun f hf => hvalues f (List.mem_cons_of_mem _ hf)) (Nat.lt_of_succ_lt_succ hn)
      rw [takeFields, List.flatMap_cons, List.append_assoc, takeLine_line hline]
      simp only [Option.bind_eq_bind, Option.bind_some, if_neg hne, takeField_fieldText hname.2,
        hrest]

/-- **A message is read from its text as it was printed.** -/
theorem readMessage_print (m : Message M) :
    readMessage M m.print = some (m.start, m.fields, m.body) := by
  have hlength : ∀ fields : List (List α × List α),
      fields.length ≤ (fields.flatMap fun field => M.line (M.fieldText field)).length := by
    intro fields
    induction fields with
    | nil => exact Nat.le_refl _
    | cons field fields ih =>
        rw [List.flatMap_cons, List.length_append, List.length_cons, Marks.line,
          List.length_append]
        simp only [List.length_cons, List.length_nil]
        omega
  have hfuel : m.fields.length < m.print.length := by
    have hle := hlength m.fields
    simp only [Message.print, Marks.line, List.length_append, List.length_cons, List.length_nil]
      at hle ⊢
    omega
  have htext : m.print = M.line m.start ++ ((m.fields.flatMap fun field =>
      M.line (M.fieldText field)) ++ (M.line [] ++ m.body)) := by
    simp only [Message.print, List.append_assoc]
  rw [readMessage]
  nth_rewrite 1 [htext]
  rw [takeLine_line m.startLine, Option.bind_eq_bind, Option.bind_some,
    takeFields_lines m.names m.values hfuel]
  rfl

end CLib
