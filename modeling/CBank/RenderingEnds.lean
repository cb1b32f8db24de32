import CBank.Templates
import Mathlib.Computability.StateTransition

/-!
# When Rendering Ends

The loop of `render_template` as a transition system: a state is the text the pointer `p` points
at and the text copied so far. A byte of the template is copied while there is room, and without
room nothing changes: the pointer stays, and the loop never ends. A variable without room leaves
the loop.

The block is 1024 bytes longer than the template, so values alone can fill it, and only up to its
last byte but one. That one is written by a byte of the template, and the loop is stuck when
another byte follows.

## Main results

* `eval_renderPass`: one pass does not change how the loop ends.
* `mem_eval_renderPass_iff`: the loop, where it ends, is `renderLoop`.
* `renderEnds_iff`: when the loop ends.
-/

namespace CBank

open CLib StateTransition

/-- A state of the loop: running, with the text at `p` and the text copied; left, with the text
copied; or a name was copied over the end of its array. -/
inductive RenderState
  | running (p out : Bytes)
  | left (out : Bytes)
  | undefined
  deriving DecidableEq

/-- One pass of the loop of `render_template`, from `while (*p)` to its end. -/
def renderPass (vars : List TemplateVar) (outSize : ℕ) : RenderState → Option RenderState
  | .left _ | .undefined => none
  | .running [] out => some (.left out)
  | .running (c :: rest) out =>
      match variableAt (c :: rest) with
      | some (key, after) =>
          if key.length < 128 ∨ (key.length = 128 ∧ vars = []) then
            let value := templateValue vars key
            if outSize - 1 ≤ value.length + out.length then some (.left out)
            else some (.running after (out ++ value))
          else some .undefined
      | none =>
          if out.length < outSize - 1 then some (.running rest (out ++ [c]))
          -- the pointer is moved with the byte it points at only
          else some (.running (c :: rest) out)

/-- The loop of `render_template` ends. -/
def RenderEnds (vars : List TemplateVar) (template : Bytes) : Prop :=
  ∃ out, .left out ∈ eval (renderPass vars (template.length + 1024)) (.running template [])

variable {vars : List TemplateVar} {pieces : List TemplatePiece} {outSize : ℕ}
  {template text name after out : Bytes}

/-! ### One pass -/

/-- **One pass does not change how the loop ends.** -/
theorem eval_renderPass {s s' : RenderState} (h : renderPass vars outSize s = some s') :
    eval (renderPass vars outSize) s = eval (renderPass vars outSize) s' :=
  reaches_eval (Relation.ReflTransGen.single h)

/-- A loop that was left has ended. -/
theorem eval_renderPass_left : RenderState.left out ∈ eval (renderPass vars outSize) (.left out) :=
  mem_eval.mpr ⟨Relation.ReflTransGen.refl, rfl⟩

/-- A pass that leaves the loop decides what is rendered. -/
theorem left_mem_eval_iff {s : RenderState} {res : Bytes}
    (h : renderPass vars outSize s = some (.left out)) :
    .left res ∈ eval (renderPass vars outSize) s ↔ some out = some res := by
  rw [eval_renderPass h]
  constructor
  · intro hmem
    have := Part.mem_unique hmem eval_renderPass_left
    simpa [eq_comm] using this
  · intro heq
    rw [Option.some.inj heq]
    exact eval_renderPass_left

/-- A pass with no defined result renders nothing. -/
theorem left_not_mem_eval_of_undefined {s : RenderState} {res : Bytes}
    (h : renderPass vars outSize s = some .undefined) :
    .left res ∉ eval (renderPass vars outSize) s := by
  have hend : RenderState.undefined ∈ eval (renderPass vars outSize) .undefined :=
    mem_eval.mpr ⟨Relation.ReflTransGen.refl, rfl⟩
  rw [eval_renderPass h]
  intro hmem
  have := Part.mem_unique hmem hend
  simp at this

theorem renderPass_variable (h : variableAt template = some (name, after))
    (hname : name.length < 128) : renderPass vars outSize (.running template out) =
      if outSize - 1 ≤ (templateValue vars name).length + out.length then some (.left out)
      else some (.running after (out ++ templateValue vars name)) := by
  cases template with
  | nil => simp [variableAt] at h
  | cons c rest =>
      rw [renderPass, h]
      exact if_pos (Or.inl hname)

theorem renderPass_byte {c : UInt8} {rest : Bytes} (h : variableAt (c :: rest) = none) :
    renderPass vars outSize (.running (c :: rest) out) =
      if out.length < outSize - 1 then some (.running rest (out ++ [c]))
      else some (.running (c :: rest) out) := by
  rw [renderPass, h]

/-- A pass that changes nothing is made forever. -/
theorem not_mem_eval_of_self {σ : Type*} {f : σ → Option σ} {s : σ} (h : f s = some s) (b : σ) :
    b ∉ eval f s := by
  intro hb
  obtain ⟨hreach, hend⟩ := mem_eval.mp hb
  have hself : b = s := by
    clear hb hend
    induction hreach with
    | refl => rfl
    | tail _ hstep ih =>
        rw [ih, Option.mem_def, h] at hstep
        exact (Option.some.inj hstep).symm
  rw [hself, h] at hend
  simp at hend

/-- **The loop, where it ends, is `renderLoop`.** Induction along the passes of `renderLoop`. -/
theorem mem_eval_renderPass_iff {res : Bytes} :
    .left res ∈ eval (renderPass vars outSize) (.running template out) ↔
      renderLoop vars outSize template out = some res := by
  fun_induction renderLoop vars outSize template out with
  | case1 out => exact left_mem_eval_iff rfl
  | case2 out c rest key after hfound hname value hfull =>
      exact left_mem_eval_iff (by rw [renderPass, hfound]; simp [hname, value, hfull])
  | case3 out c rest key after hfound hname value hroom ih =>
      have hstep : renderPass vars outSize (.running (c :: rest) out) =
          some (.running after (out ++ value)) := by
        rw [renderPass, hfound]
        simp [hname, value, hroom]
      rw [eval_renderPass hstep]
      exact ih
  | case4 out c rest key after hfound hname =>
      have hstep : renderPass vars outSize (.running (c :: rest) out) = some .undefined := by
        rw [renderPass, hfound]
        exact if_neg hname
      exact iff_of_false (left_not_mem_eval_of_undefined hstep) (by simp)
  | case5 out c rest hnone hroom ih =>
      rw [eval_renderPass ((renderPass_byte hnone).trans (if_pos hroom))]
      exact ih
  | case6 out c rest hnone hroom =>
      have hstuck : renderPass vars outSize (.running (c :: rest) out) =
          some (.running (c :: rest) out) := (renderPass_byte hnone).trans (if_neg hroom)
      have hself := not_mem_eval_of_self hstuck (.left res)
      simp [hself]

/-! ### When the loop ends -/

/-- Two bytes of the template stand next to each other, and what is rendered before them has
`room` bytes. -/
def BytesAt (vars : List TemplateVar) (pieces : List TemplatePiece) (room : ℕ) : Prop :=
  ∃ before c d after, pieces = before ++ .byte c :: .byte d :: after ∧
    (rendered vars before).length = room

theorem not_bytesAt_nil {room : ℕ} : ¬ BytesAt vars [] room := by
  rintro ⟨before, c, d, after, hpieces, -⟩
  simp at hpieces

/-- Two bytes behind a first piece. -/
theorem bytesAt_cons {piece : TemplatePiece} {room : ℕ} :
    BytesAt vars (piece :: pieces) ((piece.value vars).length + room) ↔
      BytesAt vars pieces room := by
  constructor
  · rintro ⟨before, c, d, after, hpieces, hlen⟩
    cases before with
    | nil =>
        obtain ⟨rfl, -⟩ := List.cons.inj hpieces
        rw [rendered, List.flatMap_nil, List.length_nil, TemplatePiece.value,
          List.length_singleton] at hlen
        omega
    | cons p before =>
        obtain ⟨rfl, hmore⟩ := List.cons.inj hpieces
        rw [rendered_cons, List.length_append, Nat.add_left_cancel_iff] at hlen
        exact ⟨before, c, d, after, hmore, hlen⟩
  · rintro ⟨before, c, d, after, rfl, hlen⟩
    refine ⟨piece :: before, c, d, after, rfl, ?_⟩
    rw [rendered_cons, List.length_append, hlen]

/-- No two bytes behind a piece that is too long. -/
theorem not_bytesAt_var {name : Bytes} {room : ℕ}
    (hroom : room < (templateValue vars name).length) :
    ¬ BytesAt vars (.var name :: pieces) room := by
  rintro ⟨before, c, d, after, hpieces, hlen⟩
  cases before with
  | nil => simp at hpieces
  | cons piece before =>
      obtain ⟨rfl, -⟩ := List.cons.inj hpieces
      rw [rendered_cons, List.length_append, TemplatePiece.value] at hlen
      omega

/-- Two bytes with nothing before them are the first two. -/
theorem bytesAt_byte_zero {c : UInt8} :
    BytesAt vars (.byte c :: pieces) 0 ↔ ∃ d more, pieces = .byte d :: more := by
  constructor
  · rintro ⟨before, c', d, after, hpieces, hlen⟩
    cases before with
    | nil => exact ⟨d, after, (List.cons.inj hpieces).2⟩
    | cons piece before =>
        obtain ⟨rfl, -⟩ := List.cons.inj hpieces
        simp [rendered_cons, TemplatePiece.value] at hlen
  · rintro ⟨d, more, rfl⟩
    exact ⟨[], c, d, more, rfl, rfl⟩

/-- What a loop that was left leaves. -/
theorem exists_left_of_left {s : RenderState} (h : renderPass vars outSize s = some (.left out)) :
    ∃ res, .left res ∈ eval (renderPass vars outSize) s :=
  ⟨out, by rw [eval_renderPass h]; exact eval_renderPass_left⟩

/-- **A block filled by a byte of the template**: the loop is stuck when another one follows. -/
theorem exists_left_full_iff (h : Scanned template pieces)
    (hnames : ∀ name, .var name ∈ pieces → name.length ≤ 127) (hfull : outSize ≤ out.length + 1) :
    (∃ res, .left res ∈ eval (renderPass vars outSize) (.running template out)) ↔
      ¬ ∃ d more, pieces = .byte d :: more := by
  cases h with
  | done => exact iff_of_true (exists_left_of_left rfl) (by simp)
  | @var text name after pieces hname hafter =>
      have hlen := hnames name List.mem_cons_self
      have hpass : renderPass vars outSize (.running _ out) = _ :=
        renderPass_variable (variableAt_openMark hname) (by omega)
      exact iff_of_true (exists_left_of_left (hpass.trans (if_pos (by omega)))) (by simp)
  | @byte d rest pieces hbyte hrest =>
      have hpass : renderPass vars outSize (.running _ out) = _ :=
        renderPass_byte (variableAt_cons_eq_none_iff.mpr hbyte)
      refine iff_of_false ?_ (by simp)
      rintro ⟨res, hres⟩
      exact not_mem_eval_of_self (hpass.trans (if_neg (by omega))) _ hres

/-- **Where the loop ends**, with room for more than one byte. Induction along the pieces: the
loop is stuck at the byte behind the one that takes the last room. -/
theorem exists_left_iff (h : Scanned template pieces)
    (hnames : ∀ name, .var name ∈ pieces → name.length ≤ 127) {room : ℕ}
    (hroom : outSize = out.length + room + 2) :
    (∃ res, .left res ∈ eval (renderPass vars outSize) (.running template out)) ↔
      ¬ BytesAt vars pieces room := by
  induction h generalizing out room with
  | done => exact iff_of_true (exists_left_of_left rfl) not_bytesAt_nil
  | @var text name after pieces hname hafter ih =>
      have hlen := hnames name List.mem_cons_self
      have hnames' : ∀ name, .var name ∈ pieces → name.length ≤ 127 :=
        fun name hname => hnames name (List.mem_cons_of_mem _ hname)
      have hpass : renderPass vars outSize (.running _ out) = _ :=
        renderPass_variable (variableAt_openMark hname) (by omega)
      rcases lt_or_ge room (templateValue vars name).length with hlong | hfits
      · exact iff_of_true (exists_left_of_left (hpass.trans (if_pos (by omega))))
          (not_bytesAt_var hlong)
      · obtain ⟨more, rfl⟩ := Nat.exists_eq_add_of_le hfits
        have hcons : BytesAt vars (.var name :: pieces)
            ((TemplatePiece.value vars (.var name)).length + more) ↔ BytesAt vars pieces more :=
          bytesAt_cons
        rw [TemplatePiece.value] at hcons
        rw [eval_renderPass (hpass.trans (if_neg (by omega))), hcons]
        exact ih hnames' (by rw [List.length_append]; omega)
  | @byte c rest pieces hbyte hrest ih =>
      have hnames' : ∀ name, .var name ∈ pieces → name.length ≤ 127 :=
        fun name hname => hnames name (List.mem_cons_of_mem _ hname)
      have hpass : renderPass vars outSize (.running _ out) = _ :=
        renderPass_byte (variableAt_cons_eq_none_iff.mpr hbyte)
      rw [eval_renderPass (hpass.trans (if_pos (by omega)))]
      cases room with
      | zero =>
          rw [bytesAt_byte_zero]
          exact exists_left_full_iff hrest hnames' (by
            rw [List.length_append, List.length_singleton]; omega)
      | succ more =>
          have hcons : BytesAt vars (.byte c :: pieces)
              ((TemplatePiece.value vars (.byte c)).length + more) ↔ BytesAt vars pieces more :=
            bytesAt_cons
          rw [TemplatePiece.value, List.length_singleton, Nat.add_comm] at hcons
          rw [hcons]
          exact ih hnames' (by rw [List.length_append, List.length_singleton]; omega)

/-- **When rendering ends**: unless two bytes of the template stand next to each other and what is
rendered before them is exactly 1022 bytes longer than the template. -/
theorem renderEnds_iff (h : Scanned template pieces)
    (hnames : ∀ name, .var name ∈ pieces → name.length ≤ 127) :
    RenderEnds vars template ↔ ¬ BytesAt vars pieces (template.length + 1022) :=
  exists_left_iff h hnames (by rw [List.length_nil]; omega)

/-- The greeting ends: its bytes come before a block is filled. -/
theorem renderEnds_greeting : RenderEnds greetingVars greeting := by
  refine (renderEnds_iff scanned_greeting length_greeting_names).mpr ?_
  rintro ⟨before, c, d, after, hpieces, hlen⟩
  have hshort : (rendered greetingVars before).length ≤
      (rendered greetingVars greetingPieces).length := by
    simp only [hpieces, rendered, List.flatMap_append, List.length_append]
    exact Nat.le_add_right _ _
  have hsize : (rendered greetingVars greetingPieces).length = 6 := by decide
  omega

/-- A name with a mark behind it. -/
def signed : Bytes := lit "\x7b\x7bx\x7d\x7d--"
def signedPieces : List TemplatePiece := [.var (lit "x"), .byte (ch '-'), .byte (ch '-')]

theorem scanned_signed : Scanned signed signedPieces := by
  have hcut : cutAtStr closeMark (lit "x\x7d\x7d--") = some (lit "x", lit "--") := by decide
  exact .var (firstOccurrence_of_cutAtStr hcut) (.byte (by decide) (.byte (by decide) .done))

theorem length_signed_names :
    ∀ name, TemplatePiece.var name ∈ signedPieces → name.length ≤ 127 := by
  intro name hname
  obtain rfl : name = lit "x" := by simpa [signedPieces] using hname
  decide

/-- **A value of 1029 bytes before two marks**: the loop never ends. -/
theorem not_renderEnds_signed :
    (Scanned signed signedPieces ∧
      ∀ name, TemplatePiece.var name ∈ signedPieces → name.length ≤ 127) ∧
    ¬ RenderEnds [⟨lit "x", List.replicate 1029 (ch 'v')⟩] signed := by
  have hvalue : ∀ value, templateValue [⟨lit "x", value⟩] (lit "x") = value := by
    simp [templateValue]
  have hbytes : BytesAt [⟨lit "x", List.replicate 1029 (ch 'v')⟩] signedPieces 1029 := by
    refine ⟨[.var (lit "x")], ch '-', ch '-', [], rfl, ?_⟩
    rw [rendered_cons, TemplatePiece.value, hvalue, rendered, List.flatMap_nil, List.append_nil,
      List.length_replicate]
  have hsize : signed.length + 1024 = ([] : Bytes).length + 1029 + 2 := by decide
  refine ⟨⟨scanned_signed, length_signed_names⟩, ?_⟩
  rw [RenderEnds, exists_left_iff scanned_signed length_signed_names hsize]
  exact not_not.mpr hbytes

end CBank
