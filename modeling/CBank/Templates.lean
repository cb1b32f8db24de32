import CBank.Render

/-!
# What Templates Render To

A template is scanned from left to right: a pair of opening braces with a pair of closing braces
somewhere after it encloses a name, up to the first such pair, and every other byte stands for
itself. `Scanned` says which pieces a template has, and `rendered` puts the values of the variables
in place of the names. `render_template` writes this text and does not terminate it, so the string
it returns goes on with what the block held.

## Main results

* `exists_scanned`, `Scanned.unique`: every template has its pieces.
* `renderLoop_eq`: the loop writes the rendered text.
* `renderTemplate_eq`: the string that is returned, with the bytes of the block behind the text.
* `renderTemplate_eq_rendered_iff`: when it is the rendered text.
-/

namespace CBank

open CLib

/-! ### The pieces of a template -/

/-- The marks around the name of a variable. -/
def openMark : Bytes := lit "\x7b\x7b"
def closeMark : Bytes := lit "\x7d\x7d"

/-- A piece of a template. -/
inductive TemplatePiece
  | byte (c : UInt8)
  | var (name : Bytes)
  deriving DecidableEq

/-- The pieces of a template that is scanned from left to right. -/
inductive Scanned : Bytes → List TemplatePiece → Prop
  | done : Scanned [] []
  | var {text name after : Bytes} {pieces : List TemplatePiece}
      (hname : FirstOccurrence closeMark text name after) (hafter : Scanned after pieces) :
      Scanned (openMark ++ text) (.var name :: pieces)
  | byte {c : UInt8} {rest : Bytes} {pieces : List TemplatePiece}
      (hbyte : ¬ (openMark <+: c :: rest ∧ closeMark <:+: (c :: rest).drop openMark.length))
      (hrest : Scanned rest pieces) : Scanned (c :: rest) (.byte c :: pieces)

/-- The text a piece stands for. -/
def TemplatePiece.value (vars : List TemplateVar) : TemplatePiece → Bytes
  | .byte c => [c]
  | .var name => templateValue vars name

/-- The rendered text of a template with these pieces. -/
def rendered (vars : List TemplateVar) (pieces : List TemplatePiece) : Bytes :=
  pieces.flatMap (TemplatePiece.value vars)

variable {vars : List TemplateVar} {pieces : List TemplatePiece} {outSize : ℕ}
  {template text name after out : Bytes}

theorem rendered_cons (piece : TemplatePiece) :
    rendered vars (piece :: pieces) = piece.value vars ++ rendered vars pieces := rfl

/-! ### The scan of the loop -/

/-- The loop finds a name that is enclosed. -/
theorem variableAt_openMark (h : FirstOccurrence closeMark text name after) :
    variableAt (openMark ++ text) = some (name, after) := by
  change variableAt (ch '{' :: ch '{' :: text) = some (name, after)
  rw [variableAt, if_pos ⟨rfl, rfl⟩]
  exact h.cutAtStr_eq

/-- What the loop finds is enclosed. -/
theorem exists_of_variableAt (h : variableAt template = some (name, after)) :
    ∃ text, template = openMark ++ text ∧ FirstOccurrence closeMark text name after := by
  match template with
  | [] => simp [variableAt] at h
  | [a] => simp [variableAt] at h
  | a :: b :: text =>
      simp only [variableAt, Option.ite_none_right_eq_some] at h
      obtain ⟨⟨rfl, rfl⟩, hcut⟩ := h
      exact ⟨text, rfl, firstOccurrence_of_cutAtStr hcut⟩

/-- It finds none where none is enclosed. -/
theorem variableAt_cons_eq_none_iff {c : UInt8} {rest : Bytes} : variableAt (c :: rest) = none ↔
    ¬ (openMark <+: c :: rest ∧ closeMark <:+: (c :: rest).drop openMark.length) := by
  cases rest with
  | nil =>
      have hshort : ¬ openMark <+: [c] := by
        intro h
        have hlen := h.length_le
        simp [openMark, lit] at hlen
      simp [variableAt, hshort]
  | cons b text =>
      have hopen : openMark <+: c :: b :: text ↔ c = ch '{' ∧ b = ch '{' := by
        change [ch '{', ch '{'] <+: _ ↔ _
        rw [List.cons_prefix_cons, List.cons_prefix_cons]
        simp [eq_comm]
      have hdrop : (c :: b :: text).drop openMark.length = text := rfl
      rw [variableAt, hopen, hdrop]
      by_cases hmark : c = ch '{' ∧ b = ch '{'
      · rw [if_pos hmark, cutAtStr_eq_none_iff, strstr_eq_none_iff]
        simp only [hmark, true_and, and_self]
        rfl
      · simp [hmark]

/-- The first piece of a template. -/
theorem Scanned.first (h : Scanned template pieces) :
    (template = [] ∧ pieces = []) ∨
    (∃ name after rest, variableAt template = some (name, after) ∧
      pieces = .var name :: rest ∧ Scanned after rest) ∨
    ∃ c more rest, template = c :: more ∧ variableAt template = none ∧
      pieces = .byte c :: rest ∧ Scanned more rest := by
  cases h with
  | done => exact Or.inl ⟨rfl, rfl⟩
  | var hname hafter =>
      exact Or.inr (Or.inl ⟨_, _, _, variableAt_openMark hname, rfl, hafter⟩)
  | byte hbyte hrest =>
      exact Or.inr (Or.inr ⟨_, _, _, rfl, variableAt_cons_eq_none_iff.mpr hbyte, rfl, hrest⟩)

/-- **Every template has its pieces.** Induction on its length: the scan goes on behind a piece. -/
theorem exists_scanned (template : Bytes) : ∃ pieces, Scanned template pieces := by
  induction hlen : template.length using Nat.strong_induction_on generalizing template with
  | _ n ih =>
      cases template with
      | nil => exact ⟨[], .done⟩
      | cons c rest =>
          cases hfound : variableAt (c :: rest) with
          | none =>
              obtain ⟨pieces, hpieces⟩ := ih rest.length (by rw [← hlen]; simp) rest rfl
              exact ⟨_, .byte (variableAt_cons_eq_none_iff.mp hfound) hpieces⟩
          | some found =>
              obtain ⟨name, after⟩ := found
              obtain ⟨text, htext, hname⟩ := exists_of_variableAt hfound
              obtain ⟨pieces, hpieces⟩ :=
                ih after.length (by rw [← hlen]; exact length_variableAt hfound) after rfl
              exact ⟨_, htext ▸ Scanned.var hname hpieces⟩

/-- **A template has no other pieces.** -/
theorem Scanned.unique {pieces' : List TemplatePiece} (h : Scanned template pieces)
    (h' : Scanned template pieces') : pieces = pieces' := by
  induction h generalizing pieces' with
  | done =>
      rcases h'.first with ⟨-, rfl⟩ | ⟨name, after, rest, hfound, -⟩ | ⟨c, more, rest, hnil, -⟩
      · rfl
      · simp [variableAt] at hfound
      · simp at hnil
  | var hname hafter ih =>
      have hopen := variableAt_openMark hname
      rcases h'.first with ⟨hnil, -⟩ | ⟨name, after, rest, hfound, rfl, hrest⟩ |
        ⟨c, more, rest, -, hnone, -⟩
      · simp [openMark, lit] at hnil
      · rw [hopen, Option.some.injEq, Prod.mk.injEq] at hfound
        obtain ⟨rfl, rfl⟩ := hfound
        rw [ih hrest]
      · simp [hopen] at hnone
  | byte hbyte hrest ih =>
      have hnone := variableAt_cons_eq_none_iff.mpr hbyte
      rcases h'.first with ⟨hnil, -⟩ | ⟨name, after, rest, hfound, -⟩ |
        ⟨c, more, rest, hcons, -, rfl, hmore⟩
      · simp at hnil
      · simp [hnone] at hfound
      · obtain ⟨rfl, rfl⟩ := List.cons.inj hcons
        rw [ih hmore]

/-! ### The loop -/

theorem renderLoop_variable (h : variableAt template = some (name, after))
    (hname : name.length < 128)
    (hroom : (templateValue vars name).length + out.length < outSize - 1) :
    renderLoop vars outSize template out =
      renderLoop vars outSize after (out ++ templateValue vars name) := by
  cases template with
  | nil => simp [variableAt] at h
  | cons c rest =>
      rw [renderLoop]
      split
      · rename_i key after' hfound
        rw [h, Option.some.injEq, Prod.mk.injEq] at hfound
        obtain ⟨rfl, rfl⟩ := hfound
        rw [if_pos (Or.inl hname)]
        exact if_neg (by omega)
      · rename_i hnone
        simp [h] at hnone

theorem renderLoop_byte {c : UInt8} {rest : Bytes} (h : variableAt (c :: rest) = none)
    (hroom : out.length < outSize - 1) :
    renderLoop vars outSize (c :: rest) out = renderLoop vars outSize rest (out ++ [c]) := by
  rw [renderLoop]
  split
  · rename_i hfound
    simp [h] at hfound
  · exact if_pos hroom

/-- **The loop writes the rendered text**, while there is room. -/
theorem renderLoop_eq (h : Scanned template pieces)
    (hnames : ∀ name, .var name ∈ pieces → name.length ≤ 127)
    (hroom : out.length + (rendered vars pieces).length < outSize - 1) :
    renderLoop vars outSize template out = some (out ++ rendered vars pieces) := by
  induction h generalizing out with
  | done => rw [renderLoop, rendered, List.flatMap_nil, List.append_nil]
  | @var text name after pieces hname hafter ih =>
      have hlen := hnames name List.mem_cons_self
      rw [rendered_cons, TemplatePiece.value, List.length_append] at hroom
      rw [renderLoop_variable (variableAt_openMark hname) (by omega) (by omega),
        ih (fun name hname => hnames name (List.mem_cons_of_mem _ hname))
          (by rw [List.length_append]; omega), rendered_cons, TemplatePiece.value,
        List.append_assoc]
  | @byte c rest pieces hbyte hrest ih =>
      rw [rendered_cons, TemplatePiece.value, List.length_append, List.length_singleton] at hroom
      rw [renderLoop_byte (variableAt_cons_eq_none_iff.mpr hbyte) (by omega),
        ih (fun name hname => hnames name (List.mem_cons_of_mem _ hname))
          (by rw [List.length_append, List.length_singleton]; omega), rendered_cons,
        TemplatePiece.value, List.append_assoc]

/-! ### The string that is returned -/

/-- Names and values that are C strings give one. -/
theorem nulFree_rendered (h : Scanned template pieces) (htemplate : NulFree template)
    (hvars : ∀ var ∈ vars, NulFree var.value) : NulFree (rendered vars pieces) := by
  have hvalue : ∀ name, NulFree (templateValue vars name) := by
    intro name
    rw [templateValue]
    cases hfind : vars.find? fun var => name = var.key with
    | none => exact List.not_mem_nil
    | some var => exact hvars var (List.mem_of_find?_eq_some hfind)
  induction h with
  | done => exact List.not_mem_nil
  | @var text name after pieces hname hafter ih =>
      have hsplit := hname.1
      refine NulFree.append (hvalue name) (ih fun h0 => htemplate ?_)
      rw [hsplit]
      exact List.mem_append_right _ (List.mem_append_right _ h0)
  | byte hbyte hrest ih =>
      rw [NulFree, List.mem_cons, not_or] at htemplate
      refine NulFree.append (s := [_]) ?_ (ih htemplate.2)
      simpa [NulFree] using htemplate.1

/-- **The string that is returned**: the rendered text and what the block held behind it. -/
theorem renderTemplate_eq (heap : ℕ → UInt8) (h : Scanned template pieces)
    (htemplate : NulFree template) (hvars : ∀ var ∈ vars, NulFree var.value)
    (hnames : ∀ name, .var name ∈ pieces → name.length ≤ 127)
    (hroom : (rendered vars pieces).length ≤ template.length + 1022) :
    renderTemplate heap template vars = some (rendered vars pieces ++
      cstr ((List.range' (rendered vars pieces).length
        (template.length + 1023 - (rendered vars pieces).length)).map heap)) := by
  have hloop : renderLoop vars (template.length + 1024) template [] =
      some ([] ++ rendered vars pieces) :=
    renderLoop_eq h hnames (by rw [List.length_nil]; omega)
  rw [renderTemplate, hloop, List.nil_append, Option.map_some,
    cstr_append (nulFree_rendered h htemplate hvars)]
  rfl

/-- **When the rendered text is returned**: when the block held a NUL behind it. -/
theorem renderTemplate_eq_rendered_iff (heap : ℕ → UInt8) (h : Scanned template pieces)
    (htemplate : NulFree template) (hvars : ∀ var ∈ vars, NulFree var.value)
    (hnames : ∀ name, .var name ∈ pieces → name.length ≤ 127)
    (hroom : (rendered vars pieces).length ≤ template.length + 1022) :
    renderTemplate heap template vars = some (rendered vars pieces) ↔
      heap (rendered vars pieces).length = 0 := by
  rw [renderTemplate_eq heap h htemplate hvars hnames hroom]
  obtain ⟨n, hn⟩ : ∃ n, template.length + 1023 - (rendered vars pieces).length = n + 1 :=
    ⟨template.length + 1022 - (rendered vars pieces).length, by omega⟩
  rw [hn, List.range'_succ, List.map_cons, Option.some.injEq, List.append_right_eq_self, cstr]
  by_cases hzero : heap (rendered vars pieces).length = 0
  · simp [hzero]
  · simp [hzero]

/-- A greeting, the pieces it has, and a name for it. -/
def greeting : Bytes := lit "Hi \x7b\x7bname\x7d\x7d"
def greetingPieces : List TemplatePiece :=
  [.byte (ch 'H'), .byte (ch 'i'), .byte (ch ' '), .var (lit "name")]
def greetingVars : List TemplateVar := [⟨lit "name", lit "ann"⟩]

theorem scanned_greeting : Scanned greeting greetingPieces := by
  have hcut : cutAtStr closeMark (lit "name\x7d\x7d") = some (lit "name", []) := by decide
  exact .byte (by decide) <| .byte (by decide) <| .byte (by decide) <|
    .var (firstOccurrence_of_cutAtStr hcut) .done

theorem length_greeting_names :
    ∀ name, TemplatePiece.var name ∈ greetingPieces → name.length ≤ 127 := by
  intro name hname
  obtain rfl : name = lit "name" := by simpa [greetingPieces] using hname
  decide

theorem renderTemplate_eq_rendered_greeting :
    renderTemplate (fun _ => 0) greeting greetingVars =
      some (rendered greetingVars greetingPieces) :=
  (renderTemplate_eq_rendered_iff (fun _ => 0) scanned_greeting (by decide) (by decide)
    length_greeting_names (by decide)).mpr rfl

/-- **A greeting in a block that is not empty**: the text goes on with what the block held. -/
theorem renderTemplate_greeting_leftover :
    rendered greetingVars greetingPieces = lit "Hi ann" ∧
    renderTemplate (fun _ => ch 'x') greeting greetingVars =
      some (lit "Hi ann" ++ List.replicate 1028 (ch 'x')) ∧
    renderTemplate (fun _ => ch 'x') greeting greetingVars ≠
      some (rendered greetingVars greetingPieces) := by
  have htext : rendered greetingVars greetingPieces = lit "Hi ann" := by decide
  have hrun : renderTemplate (fun _ => ch 'x') greeting greetingVars =
      some (lit "Hi ann" ++ List.replicate 1028 (ch 'x')) := by
    have hleft : NulFree (List.replicate 1028 (ch 'x')) := fun h =>
      absurd (List.eq_of_mem_replicate h) (by decide)
    rw [renderTemplate_eq _ scanned_greeting (by decide) (by decide) length_greeting_names
      (by decide), htext, List.map_const', List.length_range']
    exact congrArg (fun left => some (lit "Hi ann" ++ left)) (cstr_of_nulFree hleft)
  refine ⟨htext, hrun, ?_⟩
  rw [hrun, htext, ne_eq, Option.some.injEq, List.append_right_eq_self,
    List.replicate_eq_nil_iff]
  decide

end CBank
