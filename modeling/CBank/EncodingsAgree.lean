import CBank.FieldWrites
import CBank.FormData
import CBank.Handlers

/-!
# The Two Encodings of a Registration

A registration can be submitted as a JSON text or as a form. `decode_url_middleware` treats both
as a form: it cuts the body at the first `&`, `;` or `=`, and the JSON parser reads what is left.
That parser takes the first quoted text that starts like a field for its name, be it a name or a
value, and wants the colon right after it.

So the form always gives the values that were encoded, and the JSON text gives them exactly when
no value has one of the three characters, no value starts like a field named after it, and no
white space stands before a colon.

## Main results

* `formParams_formBody`: the parameters of a form are the fields with their values.
* `jsonField_jsonBody`: what the JSON parser finds for a field.
* `encodings_agree_iff`: when both encodings give the same schema.
-/

namespace CBank

open CLib

/-! ### Percent-encoding -/

/-- The bytes that mean something else in a form. -/
def isReserved (c : UInt8) : Bool :=
  c == ch '%' || c == ch '+' || c == ch '&' || c == ch ';' || c == ch '='

/-- `text` is a percent-encoding of `value`: a byte that is not reserved may stand for itself, a
plus sign for a blank, and any byte may be given by two hexadecimal digits. -/
inductive PercentEncoded : Bytes → Bytes → Prop
  | nil : PercentEncoded [] []
  | plain {c : UInt8} {value text : Bytes} (hc : isReserved c = false)
      (h : PercentEncoded value text) : PercentEncoded (c :: value) (c :: text)
  | blank {value text : Bytes} (h : PercentEncoded value text) :
      PercentEncoded (ch ' ' :: value) (ch '+' :: text)
  | hex {a b : UInt8} {value text : Bytes} (ha : isXdigit a = true) (hb : isXdigit b = true)
      (h : PercentEncoded value text) :
      PercentEncoded ((16 * xdigitValue a + xdigitValue b) :: value) (ch '%' :: a :: b :: text)

/-- A percent-encoding keeps the characters that separate pairs out of the text. -/
theorem PercentEncoded.urlEncoded {value text : Bytes} (h : PercentEncoded value text) :
    UrlEncoded [ch '&', ch ';'] value text := by
  induction h with
  | nil => exact .nil
  | plain hc h ih =>
      refine .plain ?_ ih
      simp only [isReserved, Bool.or_eq_false_iff, beq_eq_false_iff_ne] at hc
      simp [hc]
  | blank h ih => exact .blank ih
  | hex ha hb h ih => exact .hex ha hb ih

/-! ### The two bodies -/

/-- White space of a JSON text. -/
abbrev JsonSpace := {s : Bytes // ∀ c ∈ s, c = ch ' ' ∨ c = 9 ∨ c = newline ∨ c = 13}

/-- The white space around the members of a JSON text. -/
structure JsonSpacing where
  start : JsonSpace
  beforeName : RegisterField → JsonSpace
  beforeColon : RegisterField → JsonSpace
  beforeValue : RegisterField → JsonSpace
  afterValue : RegisterField → JsonSpace
  finish : JsonSpace

variable (spacing : JsonSpacing) (values : RegisterField → Bytes)

/-- The member of a field, from the quote of its name to the quote after its value. -/
def jsonMember (i : RegisterField) : Bytes :=
  ch '"' :: (i.key ++ ch '"' :: (spacing.beforeColon i ++ ch ':' :: (spacing.beforeValue i ++
    ch '"' :: (values i ++ [ch '"']))))

/-- The members of a JSON text, the first one after `c` and the others after a comma, and the
closing brace. -/
def jsonMembers : UInt8 → List RegisterField → Bytes
  | _, [] => ch '}' :: spacing.finish
  | c, i :: order => c :: (spacing.beforeName i ++ (jsonMember spacing values i ++
      (spacing.afterValue i ++ jsonMembers (ch ',') order)))

/-- The JSON text of a registration, its members in the given order. -/
def jsonBody : List RegisterField → Bytes
  | [] => spacing.start ++ ch '{' :: jsonMembers spacing values (ch '{') []
  | i :: order => spacing.start ++ jsonMembers spacing values (ch '{') (i :: order)

/-- The form of a registration, from the encoded values, its parameters in the given order. -/
def formBody (encoded : RegisterField → Bytes) (order : List RegisterField) : Bytes :=
  [ch '&'].intercalate (order.map fun i => i.key ++ ch '=' :: encoded i)

/-- The fields of a registration. -/
def registerFields : List RegisterField := [.name, .email, .cpf, .password]

/-- Values as a client may submit them: printable texts without quotes and backslashes, with
room in the payload of a registration. -/
structure Submittable (values : RegisterField → Bytes) : Prop where
  nonempty : ∀ i, values i ≠ []
  printable : ∀ i, ∀ c ∈ values i, ch ' ' ≤ c ∧ c ≤ ch '~' ∧ c ≠ ch '"' ∧ c ≠ ch '\\'
  short : ∀ i, (values i).length < (createUserLayout.field i).size

/-! ### What the JSON parser finds -/

variable {spacing values}

/-- White space holds no quote. -/
theorem quote_not_mem_space (s : JsonSpace) : ch '"' ∉ (s : Bytes) := by
  intro h
  rcases s.2 _ h with h | h | h | h <;> exact absurd h (by decide)

/-- What white space before a character starts with. -/
theorem exists_head_space (s : JsonSpace) (c : UInt8) (rest : Bytes) :
    ∃ y t, (s : Bytes) ++ c :: rest = y :: t ∧
      (y = c ∨ y = ch ' ' ∨ y = 9 ∨ y = newline ∨ y = 13) := by
  obtain ⟨s, hs⟩ := s
  cases s with
  | nil => exact ⟨c, rest, rfl, Or.inl rfl⟩
  | cons x s => exact ⟨x, s ++ c :: rest, rfl, Or.inr (hs x List.mem_cons_self)⟩

/-- The name of a field starts with none of the characters around names and values. -/
theorem key_not_prefix (i : RegisterField) {c y : UInt8} {t : Bytes}
    (hc : c = ch ':' ∨ c = ch ',' ∨ c = ch '}')
    (hy : y = c ∨ y = ch ' ' ∨ y = 9 ∨ y = newline ∨ y = 13) : ¬ i.key <+: y :: t := by
  have hhead : ∀ y ∈ [ch ':', ch ',', ch '}', ch ' ', 9, newline, 13], i.key.head? ≠ some y := by
    cases i <;> decide +kernel
  intro h
  obtain ⟨x, xs, hkey⟩ : ∃ x xs, i.key = x :: xs := by
    cases i
    · exact ⟨_, _, rfl⟩
    · exact ⟨_, _, rfl⟩
    · exact ⟨_, _, rfl⟩
    · exact ⟨_, _, rfl⟩
  rw [hkey, List.cons_prefix_cons] at h
  refine hhead y ?_ (by rw [hkey, h.1]; rfl)
  rcases hy with rfl | hy
  · rcases hc with rfl | rfl | rfl <;> simp
  · rcases hy with rfl | rfl | rfl | rfl <;> simp

/-- No name of a field starts with another one. -/
theorem key_not_prefix_key {i j : RegisterField} (h : i ≠ j) : ¬ i.key <+: j.key := by
  cases i <;> cases j <;> first | exact absurd rfl h | decide

theorem quote_not_mem_key (i : RegisterField) : ch '"' ∉ i.key := by
  cases i <;> decide

/-- What follows a member starts with no name, and not with a colon. -/
theorem afterValue_starts (i : RegisterField) (order : List RegisterField) :
    ∃ c y t, (c = ch ',' ∨ c = ch '}') ∧
      (y = c ∨ y = ch ' ' ∨ y = 9 ∨ y = newline ∨ y = 13) ∧
      spacing.afterValue i ++ jsonMembers spacing values (ch ',') order = y :: t := by
  cases order with
  | nil =>
      obtain ⟨y, t, ht, hy⟩ := exists_head_space (spacing.afterValue i) (ch '}') spacing.finish
      exact ⟨_, y, t, Or.inr rfl, hy, ht⟩
  | cons j order =>
      obtain ⟨y, t, ht, hy⟩ := exists_head_space (spacing.afterValue i) (ch ',') _
      exact ⟨_, y, t, Or.inl rfl, hy, ht⟩

/-- The search for a field skips the name of another one. -/
theorem strstr_skip_name {i j : RegisterField} (hij : i ≠ j) {lead : Bytes}
    (hlead : ch '"' ∉ lead) (rest : Bytes) :
    strstr (ch '"' :: i.key) (lead ++ (jsonMember spacing values j ++ rest)) =
      strstr (ch '"' :: i.key) (ch '"' :: (values j ++ ch '"' :: rest)) := by
  have htext : lead ++ (jsonMember spacing values j ++ rest) =
      lead ++ ch '"' :: (j.key ++ ch '"' :: (spacing.beforeColon j ++ ch ':' ::
        (spacing.beforeValue j ++ ch '"' :: (values j ++ ch '"' :: rest)))) := by
    simp [jsonMember]
  have hcolon : ¬ i.key <+: spacing.beforeColon j ++ ch ':' ::
      (spacing.beforeValue j ++ ch '"' :: (values j ++ ch '"' :: rest)) := by
    obtain ⟨y, t, ht, hy⟩ := exists_head_space (spacing.beforeColon j) (ch ':')
      (spacing.beforeValue j ++ ch '"' :: (values j ++ ch '"' :: rest))
    rw [ht]
    exact key_not_prefix i (Or.inl rfl) hy
  have hname : ¬ i.key <+: j.key ++ ch '"' :: (spacing.beforeColon j ++ ch ':' ::
      (spacing.beforeValue j ++ ch '"' :: (values j ++ ch '"' :: rest))) := by
    rw [prefix_append_cons_iff (quote_not_mem_key i)]
    exact key_not_prefix_key hij
  rw [htext, strstr_append_cons hlead hname, strstr_append_cons (quote_not_mem_key j) hcolon,
    strstr_append_of_not_mem (quote_not_mem_space _),
    ← List.singleton_append (x := ch ':'), strstr_append_of_not_mem (by decide),
    strstr_append_of_not_mem (quote_not_mem_space _)]

/-- It skips a value that does not start like the field. -/
theorem strstr_skip_value {i : RegisterField} {value rest : Bytes} (hquote : ch '"' ∉ value)
    (hvalue : ¬ i.key <+: value) (hrest : ¬ i.key <+: rest) :
    strstr (ch '"' :: i.key) (ch '"' :: (value ++ ch '"' :: rest)) =
      strstr (ch '"' :: i.key) rest := by
  rw [strstr_cons_of_not_starts, strstr_append_cons hquote hrest]
  rw [List.cons_prefix_cons, prefix_append_cons_iff (quote_not_mem_key i)]
  exact fun h => hvalue h.2

/-- A value is not taken for a member. -/
theorem parseJsonField_value {i : RegisterField} {value rest : Bytes} (hquote : ch '"' ∉ value)
    (hrest : ¬ [ch ':'] <+: rest) :
    parseJsonField (ch '"' :: (value ++ ch '"' :: rest)) i.key = none := by
  have hmatch : ¬ lit "\"" ++ i.key ++ lit "\":" <+: ch '"' :: (value ++ ch '"' :: rest) := by
    have htext : lit "\"" ++ i.key ++ lit "\":" = ch '"' :: (i.key ++ ch '"' :: [ch ':']) := by
      simp [lit, ch]
    rw [htext, List.cons_prefix_cons, append_cons_starts_iff (quote_not_mem_key i) hquote]
    exact fun h => hrest h.2.2
  rw [parseJsonField]
  simp only [if_neg hmatch]

/-- The member of a field is read when no white space stands before its colon. -/
theorem parseJsonField_jsonMember {i : RegisterField} (hquote : ch '"' ∉ values i)
    (hne : values i ≠ []) (rest m : Bytes) :
    parseJsonField (jsonMember spacing values i ++ rest) i.key = some m ↔
      (spacing.beforeColon i : Bytes) = [] ∧ m = values i := by
  have htext : jsonMember spacing values i ++ rest = lit "\"" ++ i.key ++ ch '"' ::
      (spacing.beforeColon i ++ ch ':' :: (spacing.beforeValue i ++
        ch '"' :: (values i ++ ch '"' :: rest))) := by
    simp [jsonMember, lit, ch]
  have hlit : lit "\":" = [ch '"', ch ':'] := by decide
  have hmatch : lit "\"" ++ i.key ++ lit "\":" <+: jsonMember spacing values i ++ rest ↔
      (spacing.beforeColon i : Bytes) = [] := by
    rw [htext, hlit, List.prefix_append_right_inj, List.cons_prefix_cons]
    obtain ⟨s, hs⟩ := spacing.beforeColon i
    cases s with
    | nil => simp
    | cons x s =>
        have hx : ch ':' ≠ x := by
          rcases hs x List.mem_cons_self with rfl | rfl | rfl | rfl <;> decide
        simp [hx]
  rw [parseJsonField]
  by_cases hcolon : (spacing.beforeColon i : Bytes) = []
  · have hdrop : (jsonMember spacing values i ++ rest).drop
        (lit "\"" ++ i.key ++ lit "\":").length =
        spacing.beforeValue i ++ ch '"' :: (values i ++ ch '"' :: rest) := by
      have happend : jsonMember spacing values i ++ rest = lit "\"" ++ i.key ++ lit "\":" ++
          (spacing.beforeValue i ++ ch '"' :: (values i ++ ch '"' :: rest)) := by
        rw [htext, hcolon, hlit]
        simp
      rw [happend, List.drop_left]
    have hskip : (spacing.beforeValue i ++ ch '"' :: (values i ++ ch '"' :: rest)).dropWhile
        isSpace = ch '"' :: (values i ++ ch '"' :: rest) := by
      rw [List.dropWhile_append_of_pos]
      · rfl
      · intro c hc
        rcases (spacing.beforeValue i).2 c hc with rfl | rfl | rfl | rfl <;> decide
    simp only [hmatch.mpr hcolon, if_true, hdrop, hskip,
      takeWhile_value hquote (Or.inr ⟨rest, rfl⟩), ne_eq, hne, not_false_eq_true, and_self,
      Option.some.injEq, hcolon, true_and]
    exact eq_comm
  · rw [if_neg (hmatch.not.mpr hcolon)]
    simp [hcolon]

/-- The search stops at a value that starts like the field, and nothing is read. -/
theorem find_at_value {i : RegisterField} {value rest : Bytes} (hquote : ch '"' ∉ value)
    (hstarts : i.key <+: value) (hrest : ¬ [ch ':'] <+: rest) :
    ((strstr (ch '"' :: i.key) (ch '"' :: (value ++ ch '"' :: rest))).bind
      fun token => parseJsonField token i.key) = none := by
  have hfound : ch '"' :: i.key <+: ch '"' :: (value ++ ch '"' :: rest) := by
    rw [List.cons_prefix_cons]
    exact ⟨rfl, hstarts.trans (List.prefix_append _ _)⟩
  rw [strstr_of_starts hfound, Option.bind_some, parseJsonField_value hquote hrest]

/-- The search finds the member of the field when it comes that far. -/
theorem find_at_member {i : RegisterField} (hquote : ch '"' ∉ values i) (hne : values i ≠ [])
    {lead : Bytes} (hlead : ch '"' ∉ lead) (rest m : Bytes) :
    ((strstr (ch '"' :: i.key) (lead ++ (jsonMember spacing values i ++ rest))).bind
      fun token => parseJsonField token i.key) = some m ↔
        (spacing.beforeColon i : Bytes) = [] ∧ m = values i := by
  have hfound : ch '"' :: i.key <+: jsonMember spacing values i ++ rest := by
    rw [jsonMember, List.cons_append, List.append_assoc, List.cons_prefix_cons]
    exact ⟨rfl, List.prefix_append _ _⟩
  rw [strstr_append_of_not_mem hlead, strstr_of_starts hfound, Option.bind_some,
    parseJsonField_jsonMember hquote hne]

/-- The first of the members, behind what stands before it. -/
theorem append_jsonMembers_cons (lead : Bytes) (c : UInt8) (j : RegisterField)
    (order : List RegisterField) : lead ++ jsonMembers spacing values c (j :: order) =
      lead ++ c :: (spacing.beforeName j : Bytes) ++ (jsonMember spacing values j ++
        (spacing.afterValue j ++ jsonMembers spacing values (ch ',') order)) := by
  simp [jsonMembers]

/-- The search for a field among the members. Induction along the members before its own. -/
theorem find_jsonMembers (hquote : ∀ j, ch '"' ∉ values j) {i : RegisterField}
    (hne : values i ≠ []) {before after : List RegisterField} (hi : i ∉ before) {lead : Bytes}
    {c : UInt8} (hlead : ch '"' ∉ lead) (hc : c ≠ ch '"') (m : Bytes) :
    ((strstr (ch '"' :: i.key)
        (lead ++ jsonMembers spacing values c (before ++ i :: after))).bind
          fun token => parseJsonField token i.key) = some m ↔
      (∀ j ∈ before, ¬ i.key <+: values j) ∧ (spacing.beforeColon i : Bytes) = [] ∧
        m = values i := by
  have hnext : ∀ j, ch '"' ∉ lead ++ c :: (spacing.beforeName j : Bytes) := by
    intro j
    simp only [List.mem_append, List.mem_cons, not_or]
    exact ⟨hlead, Ne.symm hc, quote_not_mem_space _⟩
  induction before generalizing lead c with
  | nil =>
      rw [List.nil_append, append_jsonMembers_cons, find_at_member (hquote i) hne (hnext i)]
      simp
  | cons j before ih =>
      simp only [List.mem_cons, not_or] at hi
      obtain ⟨sep, y, t, hsep, hy, hafter⟩ :=
        @afterValue_starts spacing values j (before ++ i :: after)
      rw [List.cons_append, append_jsonMembers_cons, strstr_skip_name hi.1 (hnext j),
        List.forall_mem_cons]
      by_cases hstarts : i.key <+: values j
      · have hcolon : ¬ [ch ':'] <+: (spacing.afterValue j : Bytes) ++
            jsonMembers spacing values (ch ',') (before ++ i :: after) := by
          rw [hafter, List.cons_prefix_cons]
          rintro ⟨rfl, -⟩
          rcases hsep with rfl | rfl <;> exact absurd hy (by decide)
        rw [find_at_value (hquote j) hstarts hcolon]
        simp [hstarts]
      · have hrest : ¬ i.key <+: (spacing.afterValue j : Bytes) ++
            jsonMembers spacing values (ch ',') (before ++ i :: after) := by
          rw [hafter]
          exact key_not_prefix i (Or.inr hsep) hy
        have hcomma : ch ',' ≠ ch '"' := by decide
        have hnextLead : ∀ k, ch '"' ∉ (spacing.afterValue j : Bytes) ++
            ch ',' :: (spacing.beforeName k : Bytes) := by
          intro k
          simp only [List.mem_append, List.mem_cons, not_or]
          exact ⟨quote_not_mem_space _, hcomma.symm, quote_not_mem_space _⟩
        have hfurther := ih hi.2 (quote_not_mem_space (spacing.afterValue j)) hcomma hnextLead
        rw [strstr_skip_value (hquote j) hstarts hrest]
        exact hfurther.trans (by simp [hstarts])

/-- **What the JSON parser finds for a field** in the text of a registration: its value, unless
an earlier value starts like it, or white space stands before its colon. -/
theorem jsonField_jsonBody (hquote : ∀ j, ch '"' ∉ values j) {i : RegisterField}
    (hne : values i ≠ []) {order before after : List RegisterField}
    (horder : order = before ++ i :: after) (hi : i ∉ before) (m : Bytes) :
    jsonField (jsonBody spacing values order) i.key = some m ↔
      (∀ j ∈ before, ¬ i.key <+: values j) ∧ (spacing.beforeColon i : Bytes) = [] ∧
        m = values i := by
  have hbody : jsonBody spacing values order =
      spacing.start ++ jsonMembers spacing values (ch '{') (before ++ i :: after) := by
    subst horder
    cases before with
    | nil => rfl
    | cons j before => rfl
  rw [hbody]
  exact find_jsonMembers hquote hne hi (quote_not_mem_space _) (by decide) m

/-! ### What is left of a body -/

/-- A body that starts with no delimiter is cut at the first character to cut at. -/
theorem clean_of_mem_cutByTokens {x c : UInt8} {text : Bytes} (hx : isBodyDelim x = false)
    (h : c ∈ cutByTokens isBodyDelim (x :: text)) : isBodyDelim c = false ∧ c ≠ ch '=' := by
  have hlead : (x :: text).takeWhile isBodyDelim = [] := by
    rw [List.takeWhile_cons_of_neg (by rw [hx]; exact Bool.false_ne_true)]
  have htoken : ∀ c ∈ (x :: text).takeWhile fun c => !isBodyDelim c, isBodyDelim c = false :=
    fun c hc => by simpa using List.all_eq_true.mp List.all_takeWhile c hc
  simp only [cutByTokens, hlead, List.length_nil, List.drop_zero, List.nil_append] at h
  cases hcut : cutAt (ch '=') ((x :: text).takeWhile fun c => !isBodyDelim c) with
  | none =>
      rw [hcut] at h
      exact ⟨htoken c h, fun heq => cutAt_eq_none_iff.mp hcut (heq ▸ h)⟩
  | some pair =>
      rw [hcut] at h
      obtain ⟨htext, hkey⟩ := cutAt_eq_some_iff.mp hcut
      refine ⟨htoken c ?_, ne_of_mem_of_not_mem h hkey⟩
      rw [htext]
      exact List.mem_append_left _ h

/-- What is found in the start of a body is the start of what is found in the body. -/
theorem jsonField_of_prefix {text body field m : Bytes} (hstart : text <+: body)
    (h : jsonField text field = some m) : ∃ m', jsonField body field = some m' ∧ m <+: m' := by
  obtain ⟨tail, rfl⟩ := hstart
  obtain ⟨pre, space, post, hfirst, hspace, hne, hquote, hpost⟩ := jsonField_eq_some_iff.mp h
  have hfirst' := hfirst.append_right tail
  rcases hpost with rfl | ⟨rest, rfl⟩
  · -- the text was cut within the value, which goes on up to the next quote
    have hsplit := List.takeWhile_append_dropWhile (p := (· ≠ ch '"')) (l := tail)
    refine ⟨m ++ tail.takeWhile (· ≠ ch '"'), ?_, List.prefix_append _ _⟩
    refine jsonField_eq_some_iff.mpr ⟨pre, space, tail.dropWhile (· ≠ ch '"'), ?_, hspace,
      by simp [hne], ?_, dropWhile_ne_eq (ch '"') tail⟩
    · rw [List.append_assoc m, hsplit]
      simpa using hfirst'
    · rw [List.mem_append, not_or]
      refine ⟨hquote, fun hmem => ?_⟩
      simpa using List.all_eq_true.mp List.all_takeWhile _ hmem
  · refine ⟨m, jsonField_eq_some_iff.mpr ⟨pre, space, ch '"' :: (rest ++ tail), ?_, hspace, hne,
      hquote, Or.inr ⟨_, rfl⟩⟩, List.prefix_rfl⟩
    simpa using hfirst'

/-! ### What the parsers get -/

/-- The members found in a JSON text are the writes of its parser. -/
theorem jsonSchemaWrites_of_found {ι : Type} {key : ι → Bytes} {members : ι → Bytes}
    {body : Bytes} (h : ∀ i, jsonField body (key i) = some (members i)) (order : List ι) :
    jsonSchemaWrites key order body = order.map fun i => ⟨i, members i⟩ := by
  have hnamed : ∀ i, (strstr (lit "\"" ++ key i) body).isNone = false := by
    intro i
    obtain ⟨token, htoken, -⟩ := Option.bind_eq_some_iff.mp (h i)
    rw [htoken]
    rfl
  have hmembers : ∀ order : List ι,
      jsonMemberWrites key body order = order.map fun i => ⟨i, members i⟩ := by
    intro order
    induction order with
    | nil => rfl
    | cons i order ih => simp only [jsonMemberWrites, h i, ih, List.map_cons]
  rw [jsonSchemaWrites, if_neg, hmembers]
  simp [hnamed]

/-- The parameters of a form are the fields with their values. -/
theorem formParams_formBody {encoded : RegisterField → Bytes}
    (hencoded : ∀ i, PercentEncoded (values i) (encoded i)) (hnul : ∀ i, NulFree (values i))
    (order : List RegisterField) :
    formParams (formBody encoded order) = order.map fun i => ⟨i.key, values i⟩ := by
  have hkey : ∀ i : RegisterField, i.key ≠ [] ∧
      ∀ c ∈ i.key, c ≠ ch '=' ∧ c ≠ 0 ∧ c ∉ [ch '&', ch ';'] := by
    rintro (_ | _ | _ | _) <;> decide +kernel
  have hpairs : ∀ pair ∈ order.map fun i => (⟨i.key, values i⟩ : QueryParam),
      FormPair [ch '&', ch ';'] pair := by
    intro pair hmem
    obtain ⟨i, -, rfl⟩ := List.mem_map.mp hmem
    exact ⟨(hkey i).1, (hkey i).2, hnul i⟩
  have htexts : List.Forall₂ (EncodedPair [ch '&', ch ';'])
      (order.map fun i => ⟨i.key, values i⟩) (order.map fun i => i.key ++ ch '=' :: encoded i) := by
    rw [List.forall₂_map_left_iff, List.forall₂_map_right_iff, List.forall₂_same]
    exact fun i _ => ⟨encoded i, (hencoded i).urlEncoded, rfl⟩
  rw [formParams, formBody, tokens_joined delimiters_body hpairs htexts,
    filterMap_formParam hpairs htexts]

/-- Each parameter of a form is one write of its parser. -/
theorem registerWrites_map (hshort : ∀ i, (values i).length < (registerAccountSchema.field i).size)
    (order : List RegisterField) :
    xwfUrlencodedSchemaWrites registerAccountSchema RegisterField.key
        [.cpf, .name, .email, .password] (order.map fun i => ⟨i.key, values i⟩) =
      order.map fun i => ⟨i, values i⟩ := by
  have hone : ∀ i : RegisterField, paramWrites registerAccountSchema RegisterField.key
      [.cpf, .name, .email, .password] ⟨i.key, values i⟩ = [⟨i, values i⟩] := by
    intro i
    have hfilter : ([.cpf, .name, .email, .password] : List RegisterField).filter
        (fun j => decide (i.key = j.key)) = [i] := by
      cases i <;> decide
    have hlen := hshort i
    rw [paramWrites]
    simp only [hfilter, List.map_cons, List.map_nil,
      List.take_of_length_le (show (values i).length ≤ (registerAccountSchema.field i).size - 1
        by omega)]
  rw [xwfUrlencodedSchemaWrites, List.flatMap_map]
  simp only [hone]
  exact List.map_eq_flatMap.symm

/-- A JSON text starts with no delimiter. -/
theorem exists_head_jsonBody (order : List RegisterField) :
    ∃ x t, jsonBody spacing values order = x :: t ∧ isBodyDelim x = false := by
  obtain ⟨rest, hrest⟩ : ∃ rest, jsonBody spacing values order =
      (spacing.start : Bytes) ++ ch '{' :: rest := by
    cases order with
    | nil => exact ⟨_, rfl⟩
    | cons i order => exact ⟨_, rfl⟩
  obtain ⟨x, t, ht, hx⟩ := exists_head_space spacing.start (ch '{') rest
  refine ⟨x, t, hrest.trans ht, ?_⟩
  rcases hx with rfl | rfl | rfl | rfl | rfl <;> decide

/-- A JSON text has a character to cut at in a value only. -/
theorem intact_jsonBody
    (hvalues : ∀ i, ∀ c ∈ values i, c ≠ 0 ∧ isBodyDelim c = false ∧ c ≠ ch '=')
    (order : List RegisterField) :
    BodyEncoding.json.Intact (jsonBody spacing values order) := by
  have hspace : ∀ s : JsonSpace, BodyEncoding.json.Intact (s : Bytes) := by
    intro s c hc
    rcases s.2 c hc with rfl | rfl | rfl | rfl <;> decide
  have hkey : ∀ i : RegisterField, BodyEncoding.json.Intact i.key := by
    rintro (_ | _ | _ | _) <;> decide +kernel
  have happend : ∀ {s t : Bytes}, BodyEncoding.json.Intact s → BodyEncoding.json.Intact t →
      BodyEncoding.json.Intact (s ++ t) := fun hs ht c hc =>
    (List.mem_append.mp hc).elim (hs c) (ht c)
  have hcons : ∀ {c : UInt8} {t : Bytes}, c ∈ [ch '"', ch ':', ch ',', ch '{', ch '}'] →
      BodyEncoding.json.Intact t → BodyEncoding.json.Intact (c :: t) := by
    intro c t hc ht
    refine List.forall_mem_cons.mpr ⟨?_, ht⟩
    have hall : ∀ c ∈ [ch '"', ch ':', ch ',', ch '{', ch '}'],
        c ≠ 0 ∧ isBodyDelim c = false ∧ c ≠ ch '=' := by decide +kernel
    exact hall c hc
  have hmember : ∀ i, BodyEncoding.json.Intact (jsonMember spacing values i) := fun i =>
    hcons (by simp) <| happend (hkey i) <| hcons (by simp) <| happend (hspace _) <|
      hcons (by simp) <| happend (hspace _) <| hcons (by simp) <|
        happend (hvalues i) (hcons (by simp) (by simp [BodyEncoding.Intact]))
  have hmembers : ∀ (order : List RegisterField) (c : UInt8), c ∈ [ch ',', ch '{'] →
      BodyEncoding.json.Intact (jsonMembers spacing values c order) := by
    intro order
    induction order with
    | nil => exact fun c _ => hcons (by simp) (hspace _)
    | cons i order ih =>
        intro c hc
        refine hcons ?_ (happend (hspace _) (happend (hmember i) (happend (hspace _)
          (ih (ch ',') (by simp)))))
        rcases List.mem_cons.mp hc with rfl | hc
        · simp
        · rw [List.mem_singleton.mp hc]
          simp
  cases order with
  | nil => exact happend (hspace _) (hcons (by simp) (hmembers [] (ch '{') (by simp)))
  | cons i order => exact happend (hspace _) (hmembers (i :: order) (ch '{') (by simp))

/-- The value of a field in the parameters of a form. -/
theorem lastParam_map {order : List RegisterField} {i : RegisterField} (hi : i ∈ order) :
    lastParam (order.map fun i => ⟨i.key, values i⟩) i.key = values i := by
  have hinj : ∀ {i j : RegisterField}, i.key = j.key → i = j := by
    intro i j h
    by_contra hij
    exact key_not_prefix_key hij (h ▸ List.prefix_rfl)
  cases hfind : (order.map fun i => (⟨i.key, values i⟩ : QueryParam)).reverse.find?
      fun param => decide (param.key = i.key) with
  | none =>
      rw [List.find?_eq_none] at hfind
      refine absurd (hfind ⟨i.key, values i⟩ ?_) (by simp)
      rw [List.mem_reverse]
      exact List.mem_map_of_mem hi
  | some param =>
      have hkey := List.find?_some hfind
      obtain ⟨j, -, rfl⟩ := List.mem_map.mp (List.mem_reverse.mp (List.mem_of_find?_eq_some hfind))
      rw [lastParam, hfind, Option.map_some, Option.getD_some,
        hinj (of_decide_eq_true hkey)]

/-! ### The schemas obtained -/

/-- The schema `POST /register` obtains from a request; the inner `none` is a body its parser
rejects. -/
def obtainedSchema (env : ℕ → Env) (received : HttpRequest) : Option (Option Bytes) :=
  match (startPass routeRegistry env (some received)).outcome with
  | .handled .handleRegisterAccount req _ => parseRegisterBody req
  | _ => none

theorem obtainedSchema_eq (env : ℕ → Env) {enc : BodyEncoding} {req : HttpRequest}
    (h : PostRequest (lit "/register") enc req) : obtainedSchema env req =
      enc.parse registerAccountSchema RegisterField.key [.cpf, .password, .name, .email]
        [.cpf, .name, .email, .password] (decodedBody req) := by
  rw [obtainedSchema, h.startPass_register]
  exact h.parseRegisterBody_eq

theorem Submittable.nulFree (h : Submittable values) (i : RegisterField) : NulFree (values i) :=
  fun hmem => absurd (h.printable i 0 hmem).1 (by decide)

theorem Submittable.fits (h : Submittable values) (i : RegisterField) :
    (values i).length < (registerAccountSchema.field i).size := by
  refine (h.short i).trans_le ?_
  cases i <;> decide

/-- The fields in any order. -/
theorem mem_of_perm_registerFields {order : List RegisterField}
    (h : order.Perm registerFields) (i : RegisterField) : i ∈ order := by
  rw [h.mem_iff]
  cases i <;> decide

theorem nodup_of_perm_registerFields {order : List RegisterField}
    (h : order.Perm registerFields) : order.Nodup :=
  h.nodup_iff.mpr (by decide)

/-- **What a form gives**: the values, whatever the order of its parameters. -/
theorem obtainedSchema_formBody (env : ℕ → Env) {req : HttpRequest}
    {encoded : RegisterField → Bytes} {order : List RegisterField}
    (hpost : PostRequest (lit "/register") .form req) (hvalues : Submittable values)
    (horder : order.Perm registerFields)
    (hencoded : ∀ i, PercentEncoded (values i) (encoded i))
    (hbody : req.body = formBody encoded order) :
    ∃ schema, obtainedSchema env req = some (some schema) ∧
      registerAccountSchema.Holds schema values ∧
      registerAccountSchema.storeAll (List.replicate registerAccountSchema.size 0)
        (registerFields.map fun i => ⟨i, values i⟩) = some schema := by
  have hparams : (decodedBody req).bodyQueryParams = order.map fun i => ⟨i.key, values i⟩ := by
    have hform := formParams_formBody hencoded hvalues.nulFree order
    rw [bodyQueryParams_decodedBody hpost.fresh, hbody, hform, List.take_of_length_le]
    rw [List.length_map, horder.length_eq]
    decide
  have hobtained := obtainedSchema_eq env hpost
  have hall : ∀ i, i ∈ [RegisterField.cpf, .name, .email, .password] := by
    rintro (_ | _ | _ | _) <;> decide
  have hnul : ∀ param ∈ (decodedBody req).bodyQueryParams, NulFree param.value := by
    rw [hparams]
    intro param hparam
    obtain ⟨i, -, rfl⟩ := List.mem_map.mp hparam
    exact hvalues.nulFree i
  obtain ⟨schema, hparse, hholds⟩ := parseXwfUrlencodedSchema_holds registerAccountSchema
    RegisterField.key hall (decodedBody req) hnul
  refine ⟨schema, hobtained.trans hparse, ?_, ?_⟩
  · convert hholds using 2 with i
    have hfits := hvalues.fits i
    rw [hparams, lastParam_map (mem_of_perm_registerFields horder i),
      List.take_of_length_le (by omega)]
  · rw [parseXwfUrlencodedSchema_eq_storeAll, hparams,
      registerWrites_map hvalues.fits] at hparse
    obtain ⟨stored, hstored, heq⟩ := Option.map_eq_some_iff.mp hparse
    obtain rfl := Option.some.inj heq
    rw [← hstored]
    refine Layout.storeAll_perm (horder.symm.map _) ?_ ?_
    · intro w hw
      obtain ⟨i, -, rfl⟩ := List.mem_map.mp hw
      exact hvalues.fits i
    · rw [List.map_map]
      exact (List.map_id registerFields).symm ▸ nodup_of_perm_registerFields .rfl

/-- The pairs of a list are its elements with those before them. -/
theorem pairwise_iff_split {α : Type*} {R : α → α → Prop} {l : List α} :
    l.Pairwise R ↔ ∀ before a after, l = before ++ a :: after → ∀ b ∈ before, R b a := by
  constructor
  · rintro h before a after rfl b hb
    exact (List.pairwise_append.mp h).2.2 b hb a List.mem_cons_self
  · intro h
    rw [List.pairwise_iff_getElem]
    intro i j hi hj hij
    have hsplit : l = l.take j ++ l[j] :: l.drop (j + 1) := by
      rw [List.getElem_cons_drop, List.take_append_drop]
    refine h _ _ _ hsplit _ ?_
    rw [List.mem_take_iff_getElem]
    exact ⟨i, by omega, rfl⟩

/-- **What a JSON text gives**, when it is taken apart as it was meant: the writes of a form. -/
theorem obtainedSchema_jsonBody (env : ℕ → Env) {req : HttpRequest}
    {order : List RegisterField} (hpost : PostRequest (lit "/register") .json req)
    (hvalues : Submittable values) (horder : order.Perm registerFields)
    (hbody : req.body = jsonBody spacing values order)
    (hclean : ∀ i, ∀ c ∈ values i, c ≠ ch '&' ∧ c ≠ ch ';' ∧ c ≠ ch '=')
    (hstarts : order.Pairwise fun j i => ¬ i.key <+: values j)
    (hcolon : ∀ i, (spacing.beforeColon i : Bytes) = []) :
    obtainedSchema env req =
      (registerAccountSchema.storeAll (List.replicate registerAccountSchema.size 0)
        (registerFields.map fun i => ⟨i, values i⟩)).map some := by
  have hquote : ∀ j, ch '"' ∉ values j := fun j hmem => (hvalues.printable j _ hmem).2.2.1 rfl
  have hintact : BodyEncoding.json.Intact (jsonBody spacing values order) := by
    refine intact_jsonBody (fun i c hc => ⟨?_, ?_, (hclean i c hc).2.2⟩) order
    · exact ne_of_mem_of_not_mem hc (hvalues.nulFree i)
    · rw [Bool.or_eq_false_iff, beq_eq_false_iff_ne, beq_eq_false_iff_ne]
      exact ⟨(hclean i c hc).1, (hclean i c hc).2.1⟩
  have hdecoded : (decodedBody req).body = jsonBody spacing values order := by
    change cutByTokens isBodyDelim req.body = _
    rw [hbody, cutByTokens_of_intact hintact]
  have hfound : ∀ i, jsonField (jsonBody spacing values order) (RegisterField.key i) =
      some (values i) := by
    intro i
    obtain ⟨before, after, hsplit, hnot⟩ :=
      List.eq_append_cons_of_mem (mem_of_perm_registerFields horder i)
    exact (jsonField_jsonBody hquote (hvalues.nonempty i) hsplit hnot _).mpr
      ⟨pairwise_iff_split.mp hstarts _ _ _ hsplit, hcolon i, rfl⟩
  have hnamed : ∀ i, (strstr (lit "\"" ++ RegisterField.key i)
      (jsonBody spacing values order)).isSome = true := by
    intro i
    obtain ⟨token, htoken, -⟩ := Option.bind_eq_some_iff.mp (hfound i)
    rw [htoken]
    rfl
  have hparse := parseJsonSchema_eq_storeAll registerAccountSchema RegisterField.key
    [.cpf, .password, .name, .email] (decodedBody req)
    (List.replicate registerAccountSchema.size 0)
  rw [hdecoded, jsonSchemaWrites_of_found hfound] at hparse
  simp only [hnamed, hfound, Option.isSome_some, and_self, decide_true, List.all_cons,
    List.all_nil] at hparse
  rw [obtainedSchema_eq env hpost]
  refine hparse.trans (congrArg _ (Layout.storeAll_perm ?_ ?_ ?_))
  · exact List.Perm.map _ (by decide)
  · intro w hw
    obtain ⟨i, -, rfl⟩ := List.mem_map.mp hw
    exact hvalues.fits i
  · rw [List.map_map]
    exact (by decide : [RegisterField.cpf, .password, .name, .email].Nodup)

/-- **What a JSON text gave** when a schema was obtained from it: every member was found, so it is
the start of the value it was meant to be. -/
theorem exists_members_of_obtainedSchema {env : ℕ → Env} {req : HttpRequest}
    {order : List RegisterField} {schema : Bytes}
    (hpost : PostRequest (lit "/register") .json req) (hvalues : Submittable values)
    (horder : order.Perm registerFields) (hbody : req.body = jsonBody spacing values order)
    (hobtained : obtainedSchema env req = some (some schema)) :
    ∃ members : RegisterField → Bytes, registerAccountSchema.Holds schema members ∧
      ∀ i : RegisterField, jsonField (decodedBody req).body i.key = some (members i) ∧
        (spacing.beforeColon i : Bytes) = [] ∧
        ∀ before after, order = before ++ i :: after → i ∉ before →
          ∀ j ∈ before, ¬ i.key <+: values j := by
  have hquote : ∀ j, ch '"' ∉ values j := fun j hmem => (hvalues.printable j _ hmem).2.2.1 rfl
  have hcut : (decodedBody req).body <+: jsonBody spacing values order := by
    change cutByTokens isBodyDelim req.body <+: _
    rw [hbody]
    exact cutByTokens_starts _ _
  rw [obtainedSchema_eq env hpost] at hobtained
  have hsome := isSome_of_parseJsonSchema hobtained
  have hmember : ∀ i : RegisterField, ∃ m, jsonField (decodedBody req).body i.key = some m ∧
      m <+: values i ∧ (spacing.beforeColon i : Bytes) = [] ∧
      ∀ before after, order = before ++ i :: after → i ∉ before →
        ∀ j ∈ before, ¬ i.key <+: values j := by
    intro i
    obtain ⟨m, hm⟩ := Option.isSome_iff_exists.mp (hsome i (by cases i <;> decide))
    obtain ⟨m', hm', hstart⟩ := jsonField_of_prefix hcut hm
    obtain ⟨before, after, hsplit, hnot⟩ :=
      List.eq_append_cons_of_mem (mem_of_perm_registerFields horder i)
    obtain ⟨-, hcolon, rfl⟩ :=
      (jsonField_jsonBody hquote (hvalues.nonempty i) hsplit hnot m').mp hm'
    refine ⟨m, hm, hstart, hcolon, fun before after hsplit hnot => ?_⟩
    exact ((jsonField_jsonBody hquote (hvalues.nonempty i) hsplit hnot _).mp hm').1
  choose members hmembers using hmember
  have hstores : ∀ i, jsonField (decodedBody req).body (RegisterField.key i) =
      some (members i) ∧ NulFree (members i) ∧
      (members i).length < (registerAccountSchema.field i).size := by
    intro i
    obtain ⟨hfound, hstart, -⟩ := hmembers i
    exact ⟨hfound, fun hnul => hvalues.nulFree i (hstart.subset hnul),
      hstart.length_le.trans_lt (hvalues.fits i)⟩
  obtain ⟨stored, hparse, hholds⟩ := parseJsonSchema_holds
    (show ∀ i, i ∈ [RegisterField.cpf, .password, .name, .email] by
      rintro (_ | _ | _ | _) <;> decide) registerAccountSchema.holds_zero hstores
  obtain rfl : stored = schema :=
    Option.some.inj (Option.some.inj (hparse.symm.trans hobtained))
  exact ⟨members, hholds, fun i => ⟨(hmembers i).1, (hmembers i).2.2⟩⟩

/-- **The two encodings agree** on values a client may submit exactly when no value has a
character that `decode_url_middleware` cuts the JSON text at, no value starts with the name of a
field whose member comes after it, and no white space stands before a colon. -/
theorem encodings_agree_iff {jsonEnv formEnv : ℕ → Env} {jsonReq formReq : HttpRequest}
    {encoded : RegisterField → Bytes} {jsonOrder formOrder : List RegisterField}
    (hjson : PostRequest (lit "/register") .json jsonReq)
    (hform : PostRequest (lit "/register") .form formReq) (hvalues : Submittable values)
    (hjsonOrder : jsonOrder.Perm registerFields) (hformOrder : formOrder.Perm registerFields)
    (hencoded : ∀ i, PercentEncoded (values i) (encoded i))
    (hjsonBody : jsonReq.body = jsonBody spacing values jsonOrder)
    (hformBody : formReq.body = formBody encoded formOrder) :
    obtainedSchema jsonEnv jsonReq = obtainedSchema formEnv formReq ↔
      (∀ i, ∀ c ∈ values i, c ≠ ch '&' ∧ c ≠ ch ';' ∧ c ≠ ch '=') ∧
        jsonOrder.Pairwise (fun j i => ¬ i.key <+: values j) ∧
        ∀ i, (spacing.beforeColon i : Bytes) = [] := by
  obtain ⟨schema, hobtained, hholds, hstored⟩ :=
    obtainedSchema_formBody formEnv hform hvalues hformOrder hencoded hformBody
  rw [hobtained]
  constructor
  · intro hagree
    obtain ⟨members, hholds', hmembers⟩ :=
      exists_members_of_obtainedSchema hjson hvalues hjsonOrder hjsonBody hagree
    have hsame : ∀ i, members i = values i := fun i =>
      (hholds'.cstrAt i).symm.trans (hholds.cstrAt i)
    refine ⟨?_, ?_, fun i => (hmembers i).2.1⟩
    · intro i c hc
      obtain ⟨x, t, hhead, hx⟩ :=
        @exists_head_jsonBody spacing values jsonOrder
      have hkept : c ∈ cutByTokens isBodyDelim (x :: t) := by
        rw [← hhead, ← hjsonBody]
        exact (of_jsonField_eq_some (hmembers i).1).2 (hsame i ▸ hc)
      obtain ⟨hdelim, hequals⟩ := clean_of_mem_cutByTokens hx hkept
      rw [Bool.or_eq_false_iff, beq_eq_false_iff_ne, beq_eq_false_iff_ne] at hdelim
      exact ⟨hdelim.1, hdelim.2, hequals⟩
    · rw [pairwise_iff_split]
      intro before i after hsplit
      refine (hmembers i).2.2 before after hsplit ?_
      have hnodup := nodup_of_perm_registerFields hjsonOrder
      rw [hsplit] at hnodup
      exact fun hmem => (List.nodup_append.mp hnodup).2.2 i hmem i List.mem_cons_self rfl
  · rintro ⟨hclean, hstarts, hcolon⟩
    rw [obtainedSchema_jsonBody jsonEnv hjson hvalues hjsonOrder hjsonBody hclean hstarts hcolon,
      hstored, Option.map_some]

/-- A registration request. -/
def registrationRequest (contentType body : Bytes) : HttpRequest where
  method := lit "POST"
  path := lit "/register"
  version := lit "HTTP/1.1"
  headers := [⟨lit "Content-Type", contentType⟩]
  body := body
  authenticatedJwt := JwtData.zero
  bodyQueryParams := []
  urlQueryParams := []
  cookies := []

/-- A JSON text without white space. -/
def compact : JsonSpacing :=
  let none : JsonSpace := ⟨[], by simp⟩
  ⟨none, fun _ => none, fun _ => none, fun _ => none, fun _ => none, none⟩

/-- The values of a registration with a given password. -/
def annValues (password : Bytes) : RegisterField → Bytes
  | .name => lit "ann"
  | .email => lit "ann@b.c"
  | .cpf => lit "12345678901"
  | .password => password

/-- What a pass runs in. -/
def registerEnv (_ : ℕ) : Env := ⟨zeroHmac, [], 0⟩

/-- A value without reserved bytes is its own encoding. -/
theorem percentEncoded_self {value : Bytes} (h : ∀ c ∈ value, isReserved c = false) :
    PercentEncoded value value := by
  induction value with
  | nil => exact .nil
  | cons c value ih =>
      exact .plain (h c List.mem_cons_self) (ih fun c hc => h c (List.mem_cons_of_mem _ hc))

/-- The values are ones a client may submit, if the password is. -/
theorem submittable_annValues {password : Bytes} (h : password ≠ [] ∧
    (∀ c ∈ password, ch ' ' ≤ c ∧ c ≤ ch '~' ∧ c ≠ ch '"' ∧ c ≠ ch '\\') ∧
    password.length < 35) : Submittable (annValues password) := by
  refine ⟨?_, ?_, ?_⟩
  · rintro (_ | _ | _ | _)
    · exact (by decide : lit "ann" ≠ [])
    · exact (by decide : lit "ann@b.c" ≠ [])
    · exact (by decide : lit "12345678901" ≠ [])
    · exact h.1
  · have hfixed : ∀ text ∈ [lit "ann", lit "ann@b.c", lit "12345678901"], ∀ c ∈ text,
        ch ' ' ≤ c ∧ c ≤ ch '~' ∧ c ≠ ch '"' ∧ c ≠ ch '\\' := by decide +kernel
    rintro (_ | _ | _ | _)
    · exact hfixed _ List.mem_cons_self
    · exact hfixed _ (List.mem_cons_of_mem _ List.mem_cons_self)
    · exact hfixed _ (List.mem_cons_of_mem _ (List.mem_cons_of_mem _ List.mem_cons_self))
    · exact h.2.1
  · rintro (_ | _ | _ | _)
    · exact (by decide : (lit "ann").length < 50)
    · exact (by decide : (lit "ann@b.c").length < 50)
    · exact (by decide : (lit "12345678901").length < 12)
    · exact h.2.2

/-- The two encodings of a plain registration agree. -/
theorem encodings_agree_ann :
    obtainedSchema registerEnv (registrationRequest (lit "application/json")
        (jsonBody compact (annValues (lit "secret")) registerFields)) =
      obtainedSchema registerEnv (registrationRequest (lit "application/x-www-form-urlencoded")
        (formBody (annValues (lit "secret")) registerFields)) := by
  have hvalues : Submittable (annValues (lit "secret")) :=
    submittable_annValues (by decide +kernel)
  have hplain : ∀ i, PercentEncoded (annValues (lit "secret") i) (annValues (lit "secret") i) :=
    fun i => percentEncoded_self (by cases i <;> decide +kernel)
  refine (encodings_agree_iff ⟨rfl, rfl, by decide, rfl⟩ ⟨rfl, rfl, by decide, rfl⟩ hvalues .rfl
    .rfl hplain rfl rfl).mpr ⟨?_, by decide, fun _ => rfl⟩
  rintro (_ | _ | _ | _) <;> decide +kernel

/-- **A password that is cut**: the JSON text registers `a` where the form registers `a&b`. -/
theorem encodings_agree_ampersand :
    Submittable (annValues (lit "a&b")) ∧
    (∀ i, PercentEncoded (annValues (lit "a&b") i) (annValues (lit "a%26b") i)) ∧
    obtainedSchema registerEnv (registrationRequest (lit "application/json")
        (jsonBody compact (annValues (lit "a&b")) registerFields)) ≠
      obtainedSchema registerEnv (registrationRequest (lit "application/x-www-form-urlencoded")
        (formBody (annValues (lit "a%26b")) registerFields)) := by
  refine ⟨submittable_annValues (by decide +kernel), ?_, by decide +kernel⟩
  rintro (_ | _ | _ | _)
  · exact percentEncoded_self (by decide +kernel)
  · exact percentEncoded_self (by decide +kernel)
  · exact percentEncoded_self (by decide +kernel)
  · exact .plain (by decide) (@PercentEncoded.hex (ch '2') (ch '6') _ _ (by decide) (by decide)
      (.plain (by decide) .nil))

end CBank
