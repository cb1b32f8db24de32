import CBank.CLib.Text

/-!
# Templates

`render/engine.c`. A template is a file; `render_template` copies it and puts the value of a
variable where its name stands between double braces. The text it returns is not terminated:
after it the block holds what `malloc` left, up to a NUL at its end.

## Main results

* `length_variableAt`: the loop goes on behind a variable.
-/

namespace CBank

open CLib

/-- `TemplateVar`. -/
structure TemplateVar where
  key : Bytes
  value : Bytes
  deriving DecidableEq, Repr

/-- `load_template_to_string`, from the files there are; `none` is NULL. -/
def loadTemplateToString (templates : Bytes → Option Bytes) (path : Bytes) : Option Bytes :=
  (templates path).map cstr

/-- The value of a variable; the empty string when there is none of the name. -/
def templateValue (vars : List TemplateVar) (key : Bytes) : Bytes :=
  ((vars.find? fun var => key = var.key).map TemplateVar.value).getD []

/-- The name of the variable a text starts with, and the text after it. -/
def variableAt : Bytes → Option (Bytes × Bytes)
  | a :: b :: text => if a = ch '{' ∧ b = ch '{' then cutAtStr [ch '}', ch '}'] text else none
  | _ => none

/-- The text after a variable is shorter. -/
theorem length_variableAt {text key rest : Bytes} (h : variableAt text = some (key, rest)) :
    rest.length < text.length := by
  match text with
  | [] => simp [variableAt] at h
  | [a] => simp [variableAt] at h
  | a :: b :: text =>
      simp only [variableAt, Option.ite_none_right_eq_some] at h
      rw [(cutAtStr_eq_some h.2).1]
      simp only [List.length_cons, List.length_append]
      omega

/-- The loop of `render_template`. A name is copied to an array of 128 bytes, and compared when
there are variables. A full block is not left: the pointer into the template stays. -/
def renderLoop (vars : List TemplateVar) (outSize : ℕ) (template out : Bytes) : Option Bytes :=
  match template with
  | [] => some out
  | c :: rest =>
      match _h : variableAt (c :: rest) with
      | some (key, after) =>
          if key.length < 128 ∨ (key.length = 128 ∧ vars = []) then
            let value := templateValue vars key
            if outSize - 1 ≤ value.length + out.length then some out
            else renderLoop vars outSize after (out ++ value)
          else none
      | none =>
          if out.length < outSize - 1 then renderLoop vars outSize rest (out ++ [c]) else none
termination_by template.length
decreasing_by
  · exact length_variableAt _h
  · exact Nat.lt_succ_self _

/-- `render_template`, in a block that held `heap`. -/
def renderTemplate (heap : ℕ → UInt8) (template : Bytes) (vars : List TemplateVar) :
    Option Bytes :=
  let outSize := template.length + 1024
  (renderLoop vars outSize template []).map fun out =>
    cstr (out ++ (List.range' out.length (outSize - 1 - out.length)).map heap)

end CBank
