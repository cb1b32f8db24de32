import CBank.CLib.Printing
import CBank.Pages

/-!
# Printing a JSON Tree

`core/json_builder.c`, called along a tree of objects and arrays of objects the way
`handle_GET_api_accounts` calls it: `json_add_comma_if_needed` and `json_start_object` for an
element, `json_start_array` or one of `json_add_*` for a member, and the matching ends.

One flag holds over all levels whether a comma is due. `json_start_object` clears it and
`json_end_object` leaves it, so behind an empty object none is due, and the element that follows
one is printed without a comma.

## Main results

* `pieces_buildMembers`, `pieces_buildElements`: what the calls print, by the flag they start with.
* `writtenMembers_sublist`: this is the text of the tree with some commas left out.
* `length_writtenMembers`: how many.
* `jsonBuild_eq_buffer`: what `json_build` returns, by the buffer the calls print into.
* `jsonBuild_buildTree_eq_iff`: when the buffer holds the text of the tree.
-/

namespace CBank

open CLib

/-! ### Trees -/

/-- A value that is no object and no array. -/
inductive JsonScalar
  | string (s : Bytes)
  | int (n : ℤ)
  | bool (b : Bool)
  | null
  deriving DecidableEq, Repr

mutual

/-- An object, by its members. -/
inductive JsonMembers
  | nil
  | scalar (key : Bytes) (value : JsonScalar) (rest : JsonMembers)
  | array (key : Bytes) (elements : JsonElements) (rest : JsonMembers)

/-- An array, by its elements. -/
inductive JsonElements
  | nil
  | object (members : JsonMembers) (rest : JsonElements)

end

def JsonMembers.isNil : JsonMembers → Bool
  | .nil => true
  | _ => false

def JsonElements.isNil : JsonElements → Bool
  | .nil => true
  | _ => false

/-! ### The text of a tree -/

/-- A hexadecimal digit. -/
def hexDigit (n : ℕ) : UInt8 := if n < 10 then ch '0' + n.toUInt8 else ch 'a' + (n - 10).toUInt8

/-- A byte inside a JSON string. -/
def jsonByte (c : UInt8) : Bytes :=
  if c = ch '"' then lit "\\\""
  else if c = ch '\\' then lit "\\\\"
  else if c < 32 then lit "\\u00" ++ [hexDigit (c.toNat / 16), hexDigit (c.toNat % 16)]
  else [c]

/-- A JSON string. -/
def jsonString (s : Bytes) : Bytes := ch '"' :: (s.flatMap jsonByte ++ [ch '"'])

/-- The text of a scalar. -/
def JsonScalar.text : JsonScalar → Bytes
  | .string s => jsonString s
  | .int n => printInt n
  | .bool b => if b then lit "true" else lit "false"
  | .null => lit "null"

mutual

/-- The texts of the members. -/
def JsonMembers.texts : JsonMembers → List Bytes
  | .nil => []
  | .scalar key value rest => (jsonString key ++ ch ':' :: value.text) :: rest.texts
  | .array key elements rest =>
      (jsonString key ++ ch ':' :: ch '[' ::
        ([ch ','].intercalate elements.texts ++ [ch ']'])) :: rest.texts

/-- The texts of the elements. -/
def JsonElements.texts : JsonElements → List Bytes
  | .nil => []
  | .object members rest =>
      (ch '{' :: ([ch ','].intercalate members.texts ++ [ch '}'])) :: rest.texts

end

/-- The text of an object. -/
def jsonText (members : JsonMembers) : Bytes :=
  ch '{' :: ([ch ','].intercalate members.texts ++ [ch '}'])

/-! ### The calls -/

/-- `json_add_int`. -/
def jsonAddInt (jb : JsonBuilder) (key : Bytes) (value : ℤ) : JsonBuilder :=
  jsonAddText jb key (printInt value)

/-- `json_add_bool`. -/
def jsonAddBool (jb : JsonBuilder) (key : Bytes) (value : Bool) : JsonBuilder :=
  jsonAddText jb key (if value then lit "true" else lit "false")

/-- `json_add_null`. -/
def jsonAddNull (jb : JsonBuilder) (key : Bytes) : JsonBuilder := jsonAddText jb key (lit "null")

/-- The call for a scalar member. -/
def jsonAddScalar (jb : JsonBuilder) (key : Bytes) : JsonScalar → JsonBuilder
  | .string s => jsonAddString jb key s
  | .int n => jsonAddInt jb key n
  | .bool b => jsonAddBool jb key b
  | .null => jsonAddNull jb key

mutual

/-- The calls for the members of an object. -/
def buildMembers (jb : JsonBuilder) : JsonMembers → JsonBuilder
  | .nil => jb
  | .scalar key value rest => buildMembers (jsonAddScalar jb key value) rest
  | .array key elements rest =>
      buildMembers (jsonEndArray (buildElements (jsonStartArray jb key) elements)) rest

/-- The calls for the elements of an array. -/
def buildElements (jb : JsonBuilder) : JsonElements → JsonBuilder
  | .nil => jb
  | .object members rest =>
      buildElements (jsonEndObject (buildMembers (jsonStartObject (jsonAddCommaIfNeeded jb))
        members)) rest

end

/-- The calls for a tree. -/
def buildTree (members : JsonMembers) : JsonBuilder :=
  jsonEndObject (buildMembers (jsonStartObject jsonInit) members)

/-! ### Plain trees -/

/-- Free of `"`, the backslash and control characters. -/
def PlainText (s : Bytes) : Prop := ∀ c ∈ s, c ≠ ch '"' ∧ c ≠ ch '\\' ∧ 32 ≤ c

instance (s : Bytes) : Decidable (PlainText s) := List.decidableBAll _ s

def JsonScalar.Plain : JsonScalar → Prop
  | .string s => PlainText s
  | _ => True

mutual

/-- The keys and the strings of an object are plain. -/
def JsonMembers.Plain : JsonMembers → Prop
  | .nil => True
  | .scalar key value rest => PlainText key ∧ value.Plain ∧ rest.Plain
  | .array key elements rest => PlainText key ∧ elements.Plain ∧ rest.Plain

/-- The keys and the strings of the elements are plain. -/
def JsonElements.Plain : JsonElements → Prop
  | .nil => True
  | .object members rest => members.Plain ∧ rest.Plain

end

theorem jsonString_of_plain {s : Bytes} (h : PlainText s) :
    jsonString s = lit "\"" ++ s ++ lit "\"" := by
  have hbytes : s.flatMap jsonByte = s.flatMap fun c => [c] := by
    refine List.flatMap_congr fun c hc => ?_
    obtain ⟨hquote, hslash, hcontrol⟩ := h c hc
    rw [jsonByte, if_neg hquote, if_neg hslash, if_neg (UInt8.not_lt.mpr hcontrol)]
  rw [jsonString, hbytes, List.flatMap_singleton']
  rfl

/-! ### What the calls print -/

/-- A comma, when it is not the first. -/
def commaIfNeeded (first : Bool) : Bytes := if first then [] else [ch ',']

mutual

/-- What is printed for members, by the flag before them. -/
def writtenMembers (first : Bool) : JsonMembers → Bytes
  | .nil => []
  | .scalar key value rest =>
      commaIfNeeded first ++ (jsonString key ++ ch ':' :: value.text) ++ writtenMembers false rest
  | .array key elements rest =>
      commaIfNeeded first ++ (jsonString key ++ ch ':' :: ch '[' ::
        (writtenElements true elements ++ [ch ']'])) ++ writtenMembers false rest

/-- What is printed for elements: behind an empty object the flag is that of its start. -/
def writtenElements (first : Bool) : JsonElements → Bytes
  | .nil => []
  | .object members rest =>
      commaIfNeeded first ++ (ch '{' :: (writtenMembers true members ++ [ch '}'])) ++
        writtenElements members.isNil rest

end

theorem pieces_jsonAddCommaIfNeeded (jb : JsonBuilder) :
    (jsonAddCommaIfNeeded jb).pieces.flatten = jb.pieces.flatten ++ commaIfNeeded jb.isFirst := by
  rw [jsonAddCommaIfNeeded, commaIfNeeded]
  split
  · exact (List.append_nil _).symm
  · rw [List.flatten_append, List.flatten_singleton]

theorem pieces_jsonAddText (jb : JsonBuilder) {key : Bytes} (hkey : PlainText key) (text : Bytes) :
    (jsonAddText jb key text).pieces.flatten = jb.pieces.flatten ++
      (commaIfNeeded jb.isFirst ++ (jsonString key ++ ch ':' :: text)) := by
  have hcolon : lit "\":" = lit "\"" ++ [ch ':'] := by decide
  rw [jsonAddText, List.flatten_append, List.flatten_singleton, pieces_jsonAddCommaIfNeeded,
    jsonString_of_plain hkey, hcolon]
  simp only [List.append_assoc, List.singleton_append]

/-- A scalar member. -/
theorem pieces_jsonAddScalar (jb : JsonBuilder) {key : Bytes} {value : JsonScalar}
    (hkey : PlainText key) (hvalue : value.Plain) :
    (jsonAddScalar jb key value).pieces.flatten = jb.pieces.flatten ++
        (commaIfNeeded jb.isFirst ++ (jsonString key ++ ch ':' :: value.text)) ∧
      (jsonAddScalar jb key value).isFirst = false := by
  cases value with
  | string s =>
      have hquoted : jsonAddString jb key s = jsonAddText jb key (jsonString s) := by
        have hcolon : lit "\":\"" = lit "\":" ++ lit "\"" := by decide
        rw [jsonAddString, jsonAddText, jsonString_of_plain hvalue, hcolon]
        simp only [List.append_assoc]
      refine ⟨?_, rfl⟩
      rw [jsonAddScalar, hquoted]
      exact pieces_jsonAddText jb hkey _
  | int n => exact ⟨pieces_jsonAddText jb hkey _, rfl⟩
  | bool b => exact ⟨pieces_jsonAddText jb hkey _, rfl⟩
  | null => exact ⟨pieces_jsonAddText jb hkey _, rfl⟩

/-- The start of an array. -/
theorem pieces_jsonStartArray (jb : JsonBuilder) {key : Bytes} (hkey : PlainText key) :
    (jsonStartArray jb key).pieces.flatten = jb.pieces.flatten ++
      (commaIfNeeded jb.isFirst ++ (jsonString key ++ [ch ':', ch '['])) := by
  have hopen : lit "\":[" = lit "\"" ++ [ch ':', ch '['] := by decide
  rw [jsonStartArray, List.flatten_append, List.flatten_singleton, pieces_jsonAddCommaIfNeeded,
    jsonString_of_plain hkey, hopen]
  simp only [List.append_assoc]

mutual

/-- **What the calls for members print**, and the flag they leave. -/
theorem pieces_buildMembers (jb : JsonBuilder) (members : JsonMembers) (h : members.Plain) :
    (buildMembers jb members).pieces.flatten =
        jb.pieces.flatten ++ writtenMembers jb.isFirst members ∧
      (buildMembers jb members).isFirst = (jb.isFirst && members.isNil) := by
  cases members with
  | nil => simp [buildMembers, writtenMembers, JsonMembers.isNil]
  | scalar key value rest =>
      obtain ⟨hkey, hvalue, hrest⟩ := h
      obtain ⟨hpieces, hfirst⟩ := pieces_jsonAddScalar jb hkey hvalue
      obtain ⟨hmore, hflag⟩ := pieces_buildMembers (jsonAddScalar jb key value) rest hrest
      rw [buildMembers, writtenMembers, hmore, hpieces, hflag, hfirst]
      exact ⟨by simp only [List.append_assoc], by simp [JsonMembers.isNil]⟩
  | array key elements rest =>
      obtain ⟨hkey, helements, hrest⟩ := h
      have hinner := pieces_buildElements (jsonStartArray jb key) elements helements
      obtain ⟨hmore, hflag⟩ := pieces_buildMembers
        (jsonEndArray (buildElements (jsonStartArray jb key) elements)) rest hrest
      rw [buildMembers, writtenMembers, hmore, hflag, jsonEndArray, List.flatten_append,
        List.flatten_singleton, hinner, pieces_jsonStartArray jb hkey]
      exact ⟨by simp [jsonStartArray], by simp [JsonMembers.isNil]⟩

/-- **What the calls for elements print.** -/
theorem pieces_buildElements (jb : JsonBuilder) (elements : JsonElements) (h : elements.Plain) :
    (buildElements jb elements).pieces.flatten =
      jb.pieces.flatten ++ writtenElements jb.isFirst elements := by
  cases elements with
  | nil => simp [buildElements, writtenElements]
  | object members rest =>
      obtain ⟨hmembers, hrest⟩ := h
      obtain ⟨hinner, hflag⟩ := pieces_buildMembers (jsonStartObject (jsonAddCommaIfNeeded jb))
        members hmembers
      have hmore := pieces_buildElements (jsonEndObject (buildMembers (jsonStartObject
        (jsonAddCommaIfNeeded jb)) members)) rest hrest
      rw [buildElements, writtenElements, hmore, jsonEndObject, List.flatten_append,
        List.flatten_singleton, hinner, hflag, jsonStartObject, List.flatten_append,
        List.flatten_singleton, pieces_jsonAddCommaIfNeeded]
      simp

end

/-- What the calls for a tree print. -/
theorem pieces_buildTree {members : JsonMembers} (h : members.Plain) :
    (buildTree members).pieces.flatten = ch '{' :: (writtenMembers true members ++ [ch '}']) := by
  rw [buildTree, jsonEndObject, List.flatten_append, List.flatten_singleton,
    (pieces_buildMembers (jsonStartObject jsonInit) members h).1]
  rfl

/-! ### The commas left out -/

mutual

/-- How many empty objects stand before another element, in the arrays of an object. -/
def JsonMembers.emptyBeforeMore : JsonMembers → ℕ
  | .nil => 0
  | .scalar _ _ rest => rest.emptyBeforeMore
  | .array _ elements rest => elements.emptyBeforeMore + rest.emptyBeforeMore

/-- How many empty objects stand before another element, here and in the elements. -/
def JsonElements.emptyBeforeMore : JsonElements → ℕ
  | .nil => 0
  | .object members rest =>
      members.emptyBeforeMore + (if members.isNil && !rest.isNil then 1 else 0) +
        rest.emptyBeforeMore

end

/-- Texts with single commas between them, and one before the first unless it is the first. -/
def separated (first : Bool) (texts : List Bytes) : Bytes :=
  if first then [ch ','].intercalate texts else texts.flatMap (ch ',' :: ·)

theorem separated_cons (first : Bool) (text : Bytes) (texts : List Bytes) :
    separated first (text :: texts) = commaIfNeeded first ++ text ++ separated false texts := by
  cases first with
  | true =>
      rw [separated, if_pos rfl, intercalate_cons_eq]
      rfl
  | false => rfl

/-- A first comma. -/
theorem separated_false_cons (text : Bytes) (texts : List Bytes) :
    separated false (text :: texts) = ch ',' :: separated true (text :: texts) := by
  rw [separated_cons, separated_cons]
  rfl

/-- Texts without the first comma. -/
theorem separated_sublist (first : Bool) (texts : List Bytes) :
    (separated first texts).Sublist (separated false texts) := by
  cases first with
  | false => exact List.Sublist.refl _
  | true =>
      cases texts with
      | nil => exact List.nil_sublist _
      | cons text texts =>
          rw [separated_false_cons]
          exact List.sublist_cons_self _ _

mutual

/-- **The members are printed with some commas left out.** -/
theorem writtenMembers_sublist (first : Bool) (members : JsonMembers) :
    (writtenMembers first members).Sublist (separated first members.texts) := by
  cases members with
  | nil => exact List.nil_sublist _
  | scalar key value rest =>
      rw [writtenMembers, JsonMembers.texts, separated_cons]
      exact (List.Sublist.refl _).append (writtenMembers_sublist false rest)
  | array key elements rest =>
      have hinner := writtenElements_sublist true elements
      rw [writtenMembers, JsonMembers.texts, separated_cons]
      refine List.Sublist.append ?_ (writtenMembers_sublist false rest)
      refine (List.Sublist.refl _).append ((List.Sublist.refl _).append ?_)
      exact (hinner.append_right _).cons_cons _ |>.cons_cons _

/-- **So are the elements.** -/
theorem writtenElements_sublist (first : Bool) (elements : JsonElements) :
    (writtenElements first elements).Sublist (separated first elements.texts) := by
  cases elements with
  | nil => exact List.nil_sublist _
  | object members rest =>
      have hinner := writtenMembers_sublist true members
      have hmore := writtenElements_sublist members.isNil rest
      rw [writtenElements, JsonElements.texts, separated_cons]
      refine List.Sublist.append ?_ (hmore.trans (separated_sublist _ _))
      exact (List.Sublist.refl _).append ((hinner.append_right _).cons_cons _)

end

theorem length_separated_isNil (elements : JsonElements) :
    (separated false elements.texts).length =
      (separated true elements.texts).length + if elements.isNil then 0 else 1 := by
  cases elements with
  | nil => rfl
  | object members rest =>
      rw [JsonElements.texts, separated_false_cons, List.length_cons]
      rfl

mutual

/-- **How many commas the members lack.** -/
theorem length_writtenMembers (first : Bool) (members : JsonMembers) :
    (writtenMembers first members).length + members.emptyBeforeMore =
      (separated first members.texts).length := by
  cases members with
  | nil => cases first <;> rfl
  | scalar key value rest =>
      have hmore := length_writtenMembers false rest
      rw [writtenMembers, JsonMembers.texts, separated_cons, JsonMembers.emptyBeforeMore]
      simp only [List.length_append, ← hmore]
      omega
  | array key elements rest =>
      have hinner := length_writtenElements true elements
      have hmore := length_writtenMembers false rest
      rw [separated, if_pos rfl] at hinner
      rw [writtenMembers, JsonMembers.texts, separated_cons, JsonMembers.emptyBeforeMore]
      simp only [List.length_append, List.length_cons, ← hinner, ← hmore]
      omega

/-- **How many commas the elements lack.** -/
theorem length_writtenElements (first : Bool) (elements : JsonElements) :
    (writtenElements first elements).length + elements.emptyBeforeMore =
      (separated first elements.texts).length := by
  cases elements with
  | nil => cases first <;> rfl
  | object members rest =>
      have hinner := length_writtenMembers true members
      have hmore := length_writtenElements members.isNil rest
      have hcomma := length_separated_isNil rest
      rw [separated, if_pos rfl] at hinner
      rw [writtenElements, JsonElements.texts, separated_cons, JsonElements.emptyBeforeMore]
      simp only [List.length_append, List.length_cons, ← hinner]
      cases hnil : members.isNil with
      | true =>
          rw [hnil] at hmore
          cases hrest : rest.isNil with
          | true => simp [hrest] at hcomma ⊢; omega
          | false => simp [hrest] at hcomma ⊢; omega
      | false =>
          rw [hnil] at hmore
          simp only [Bool.false_and, Bool.false_eq_true, if_false]
          omega

end

/-! ### The buffer -/

/-- What `json_build` returns is the string at the start of the buffer the calls printed into,
whatever that held before. -/
theorem jsonBuild_eq_buffer {buf : Bytes} (hsize : buf.length = jsonBufSize) (jb : JsonBuilder) :
    jsonBuild jb = (snprintfAll jb.pieces ⟨buf, 0⟩).2.map fun p =>
      p.buf.take (min p.offset (jsonBufSize - 1)) := by
  have hpos : 0 < buf.length := by
    rw [hsize]
    decide
  rw [jsonBuild, ← hsize]
  exact snprintfs_eq_snprintfAll hpos jb.pieces

/-- **When the buffer holds the text of the tree**: when no empty object stands before another
element of its array. -/
theorem jsonBuild_buildTree_eq_iff {members : JsonMembers} (hplain : members.Plain)
    (hroom : (jsonText members).length < jsonBufSize) :
    jsonBuild (buildTree members) = some (jsonText members) ↔ members.emptyBeforeMore = 0 := by
  have hlength := length_writtenMembers true members
  rw [separated, if_pos rfl] at hlength
  have hprinted := pieces_buildTree hplain
  have hfits : (buildTree members).pieces.flatten.length < jsonBufSize := by
    rw [jsonText, List.length_cons, List.length_append] at hroom
    rw [hprinted, List.length_cons, List.length_append]
    omega
  rw [jsonBuild, snprintfs_eq_some hfits, hprinted, jsonText, Option.some.injEq,
    List.cons_inj_right, List.append_left_inj]
  constructor
  · intro heq
    rw [heq] at hlength
    omega
  · intro hnone
    exact (writtenMembers_sublist true members).eq_of_length (by
      rw [separated, if_pos rfl]
      omega)

/-- The object of two accounts. -/
def sampleTree : JsonMembers :=
  .array (lit "data") (.object (.scalar (lit "id") (.string (lit "7")) .nil)
    (.object (.scalar (lit "open") (.bool true) .nil) .nil)) .nil

theorem plain_sampleTree : sampleTree.Plain := by
  have hobjects : PlainText (lit "id") ∧ PlainText (lit "7") ∧ PlainText (lit "open") := by decide
  exact ⟨by decide, ⟨⟨hobjects.1, hobjects.2.1, trivial⟩,
    ⟨hobjects.2.2, trivial, trivial⟩, trivial⟩, trivial⟩

theorem jsonBuild_sampleTree :
    jsonBuild (buildTree sampleTree) = some (jsonText sampleTree) :=
  (jsonBuild_buildTree_eq_iff plain_sampleTree (by decide)).mpr rfl

/-- An array of two empty objects. -/
def emptyObjects : JsonMembers := .array (lit "data") (.object .nil (.object .nil .nil)) .nil

/-- **Two empty objects** are printed without the comma between them. -/
theorem jsonBuild_emptyObjects :
    jsonText emptyObjects = lit "\x7b\"data\":[\x7b\x7d,\x7b\x7d]\x7d" ∧
      (emptyObjects.Plain ∧ (jsonText emptyObjects).length < jsonBufSize) ∧
      jsonBuild (buildTree emptyObjects) = some (lit "\x7b\"data\":[\x7b\x7d\x7b\x7d]\x7d") ∧
      jsonBuild (buildTree emptyObjects) ≠ some (jsonText emptyObjects) := by
  refine ⟨by decide, ⟨?_, by decide⟩, by decide, by decide⟩
  exact ⟨by decide, ⟨trivial, trivial, trivial⟩, trivial⟩

end CBank
