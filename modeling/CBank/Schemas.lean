import CBank.Middlewares
import CBank.Registration
import Mathlib.Data.List.TakeWhile

/-!
# Body Schemas

`api/schemas`, and the payload `user_dto_from_register_acc_schema` of `core/user.c`. A schema
is a structure of character arrays (a `Layout`) that one of two parsers fills: from the members
of a JSON body, which `sscanf` copies without a bound, or from the decoded parameters of a
form, which `snprintf` cuts to the array. The two schemas differ in their fields only, so each
parser is one definition with the fields and their order as parameters. What a body submits
(`BodyEncoding.submitted`) is said of the body as it was received; `decode_url_middleware` has
cut it in place before a parser reads it.

## Main results

* `parseJsonSchema_holds`, `parseXwfUrlencodedSchema_holds`: what a schema holds after a parse.
* `userDtoFromRegisterAccSchema_eq`: the payload of a schema whose fields fit it.
* `BodyEncoding.parse_holds`: in either encoding, a schema holds the strings submitted.
-/

namespace CBank

open CLib

/-! ### The structures -/

/-- The arrays of a `LoginSchema`. -/
inductive LoginField
  | cpf
  | password
  deriving DecidableEq

/-- The arrays of a `RegisterAccountSchema`, and of a `CreateUserDTO`. -/
inductive RegisterField
  | name
  | email
  | cpf
  | password
  deriving DecidableEq

/-- The name of a field in a body. -/
def LoginField.key : LoginField → Bytes
  | .cpf => lit "cpf"
  | .password => lit "password"

/-- The name of a field in a body. -/
def RegisterField.key : RegisterField → Bytes
  | .name => lit "name"
  | .email => lit "email"
  | .cpf => lit "cpf"
  | .password => lit "password"

/-- `LoginSchema`. -/
def loginSchema : Layout LoginField where
  field
    | .cpf => ⟨0, 12⟩
    | .password => ⟨12, 35⟩
  size := 47
  positive := by rintro (_ | _) <;> decide
  within := by rintro (_ | _) <;> decide
  disjoint := by rintro (_ | _) (_ | _) <;> decide

/-- `RegisterAccountSchema`. -/
def registerAccountSchema : Layout RegisterField where
  field
    | .name => ⟨0, 100⟩
    | .email => ⟨100, 100⟩
    | .cpf => ⟨200, 12⟩
    | .password => ⟨212, 35⟩
  size := 247
  positive := by rintro (_ | _) <;> decide
  within := by rintro (_ | _) <;> decide
  disjoint := by rintro (_ | _) (_ | _) <;> decide

/-- `CreateUserDTO`. -/
def createUserLayout : Layout RegisterField where
  field
    | .name => ⟨0, 50⟩
    | .email => ⟨50, 50⟩
    | .cpf => ⟨100, 12⟩
    | .password => ⟨112, 35⟩
  size := 147
  positive := by rintro (_ | _) <;> decide
  within := by rintro (_ | _) <;> decide
  disjoint := by rintro (_ | _) (_ | _) <;> decide

/-! ### The parsers -/

/-- `parse_json_field`: the string `sscanf` assigns with the format `"<field>": "%[^"]"`;
`none` for false. -/
def parseJsonField (jsonHaystack field : Bytes) : Option Bytes :=
  let matcher := lit "\"" ++ field ++ lit "\":"
  if matcher <+: jsonHaystack then
    match (jsonHaystack.drop matcher.length).dropWhile isSpace with
    | [] => none
    | c :: rest =>
        let value := rest.takeWhile (· ≠ ch '"')
        if c = ch '"' ∧ value ≠ [] then some value else none
  else none

/-- What `parse_json_field` assigns at the first quoted text in a body that starts like the
field. -/
def jsonField (body field : Bytes) : Option Bytes :=
  (strstr (lit "\"" ++ field) body).bind fun token => parseJsonField token field

variable {ι : Type} {L : Layout ι} {key : ι → Bytes}

/-- The call of `parse_json_field` on one array of a schema. The inner `none` is the parser
that returned false. -/
def storeJsonField (L : Layout ι) (key : ι → Bytes) (body : Bytes) (schema : Option Bytes)
    (i : ι) : Option (Option Bytes) :=
  match schema, jsonField body (key i) with
  | some schema, some value => (strcpy schema (L.field i).offset value).map some
  | _, _ => some none

/-- A JSON parser: every field must be in the body before the first one is copied. -/
def parseJsonSchema (L : Layout ι) (key : ι → Bytes) (order : List ι) (req : HttpRequest)
    (schema : Bytes) : Option (Option Bytes) :=
  if order.any fun i => (strstr (lit "\"" ++ key i) req.body).isNone then some none
  else order.foldlM (storeJsonField L key req.body) (some schema)

/-- What one parameter of a form does to one array of a schema. -/
def storeParam (L : Layout ι) (key : ι → Bytes) (param : QueryParam) (schema : Bytes) (i : ι) :
    Option Bytes :=
  if param.key = key i then
    strcpy schema (L.field i).offset (param.value.take ((L.field i).size - 1))
  else some schema

/-- A form parser. -/
def parseXwfUrlencodedSchema (L : Layout ι) (key : ι → Bytes) (order : List ι)
    (req : HttpRequest) (schema : Bytes) : Option (Option Bytes) :=
  if req.bodyQueryParams.length = 0 then some (some schema)
  else (req.bodyQueryParams.foldlM
    (fun schema param => order.foldlM (storeParam L key param) schema) schema).map some

/-- `parse_login_json_schema`. -/
def parseLoginJsonSchema : HttpRequest → Bytes → Option (Option Bytes) :=
  parseJsonSchema loginSchema LoginField.key [.cpf, .password]

/-- `parse_login_xwf_urlencoded_schema`. -/
def parseLoginXwfUrlencodedSchema : HttpRequest → Bytes → Option (Option Bytes) :=
  parseXwfUrlencodedSchema loginSchema LoginField.key [.cpf, .password]

/-- `parse_register_acc_json_schema`. -/
def parseRegisterAccJsonSchema : HttpRequest → Bytes → Option (Option Bytes) :=
  parseJsonSchema registerAccountSchema RegisterField.key [.cpf, .password, .name, .email]

/-- `parse_register_acc_xwf_urlencoded_schema`. -/
def parseRegisterAccXwfUrlencodedSchema : HttpRequest → Bytes → Option (Option Bytes) :=
  parseXwfUrlencodedSchema registerAccountSchema RegisterField.key
    [.cpf, .name, .email, .password]

/-- `validate_login_schema`. -/
def validateLoginSchema (schema : Bytes) : Bool :=
  (cstrAt schema (loginSchema.field .cpf).offset).length ≤ 11 ∧
    (cstrAt schema (loginSchema.field .password).offset).length ≤ 6

/-- The strings of a `CreateUserDTO`. -/
def readCreateUserDTO (dto : Bytes) : CreateUserDTO where
  name := cstrAt dto (createUserLayout.field .name).offset
  email := cstrAt dto (createUserLayout.field .email).offset
  cpf := cstrAt dto (createUserLayout.field .cpf).offset
  password := cstrAt dto (createUserLayout.field .password).offset

/-- `user_dto_from_register_acc_schema`. -/
def userDtoFromRegisterAccSchema (schema : Bytes) : Option CreateUserDTO := do
  let copyField (dto : Bytes) (i : RegisterField) : Option Bytes :=
    strcpy dto (createUserLayout.field i).offset
      (cstrAt schema (registerAccountSchema.field i).offset)
  let dto ← [.cpf, .name, .password, .email].foldlM copyField
    (List.replicate createUserLayout.size 0)
  some (readCreateUserDTO dto)

/-! ### What the parsers store -/

/-- The value of the last parameter of a name; the empty string when there is none. -/
def lastParam (params : List QueryParam) (field : Bytes) : Bytes :=
  ((params.reverse.find? fun param => param.key = field).map QueryParam.value).getD []

theorem lastParam_append_singleton (params : List QueryParam) (param : QueryParam)
    (field : Bytes) : lastParam (params ++ [param]) field =
      if param.key = field then param.value else lastParam params field := by
  rw [lastParam, List.reverse_append, List.reverse_singleton, List.singleton_append,
    List.find?_cons]
  by_cases hkey : param.key = field
  · simp [hkey]
  · simp [hkey, lastParam]

/-- A JSON parser that returns true found every member. Induction along the calls of
`parse_json_field`. -/
theorem isSome_of_parseJsonSchema {order : List ι} {req : HttpRequest}
    {mem schema : Bytes} (h : parseJsonSchema L key order req mem = some (some schema)) :
    ∀ i ∈ order, (jsonField req.body (key i)).isSome := by
  have hfailed : ∀ order : List ι,
      order.foldlM (storeJsonField L key req.body) none = some none := by
    intro order
    induction order with
    | nil => rfl
    | cons i order ih => exact ih
  have hfold : ∀ (order : List ι) (mem : Bytes),
      order.foldlM (storeJsonField L key req.body) (some mem) = some (some schema) →
        ∀ i ∈ order, (jsonField req.body (key i)).isSome := by
    intro order
    induction order with
    | nil => exact fun _ _ i hi => absurd hi List.not_mem_nil
    | cons i order ih =>
        intro mem hrun
        rw [List.foldlM_cons] at hrun
        obtain ⟨out, hstep, hrest⟩ := Option.bind_eq_some_iff.mp hrun
        cases hfield : jsonField req.body (key i) with
        | none =>
            simp only [storeJsonField, hfield] at hstep
            obtain rfl : none = out := Option.some.inj hstep
            rw [hfailed] at hrest
            simp at hrest
        | some value =>
            simp only [storeJsonField, hfield] at hstep
            obtain ⟨mem', -, rfl⟩ := Option.map_eq_some_iff.mp hstep
            intro j hj
            rcases List.mem_cons.mp hj with rfl | hj
            · rw [hfield]
              rfl
            · exact ih mem' hrest j hj
  rw [parseJsonSchema] at h
  split at h
  · simp at h
  · exact hfold order mem h

variable [DecidableEq ι] {mem : Bytes} {values : ι → Bytes}

/-- **What a JSON parser stores**, when every member it reads fits its array. Induction along
the calls of `parse_json_field`. -/
theorem parseJsonSchema_holds {order : List ι} (horder : ∀ i, i ∈ order)
    (h : L.Holds mem values) {req : HttpRequest} {members : ι → Bytes}
    (hmembers : ∀ i, jsonField req.body (key i) = some (members i) ∧ NulFree (members i) ∧
      (members i).length < (L.field i).size) :
    ∃ schema, parseJsonSchema L key order req mem = some (some schema) ∧
      L.Holds schema members := by
  have hfound : ¬ (order.any fun i => (strstr (lit "\"" ++ key i) req.body).isNone) = true := by
    rw [List.any_eq_true]
    rintro ⟨i, -, hnone⟩
    have hfield := (hmembers i).1
    rw [jsonField, Option.isNone_iff_eq_none.mp hnone] at hfield
    simp at hfield
  have hfold : ∀ (order : List ι) (mem : Bytes) (values : ι → Bytes), L.Holds mem values →
      ∃ schema, order.foldlM (storeJsonField L key req.body) (some mem) = some (some schema) ∧
        L.Holds schema fun i => if i ∈ order then members i else values i := by
    intro order
    induction order with
    | nil => exact fun mem values h => ⟨mem, rfl, by simpa using h⟩
    | cons i order ih =>
        intro mem values h
        obtain ⟨hfield, hnul, hlen⟩ := hmembers i
        obtain ⟨mem', hcopy, h'⟩ := h.strcpy hnul hlen
        have hstep : storeJsonField L key req.body (some mem) i = some (some mem') := by
          simp [storeJsonField, hfield, hcopy]
        obtain ⟨schema, hrest, hschema⟩ := ih mem' _ h'
        refine ⟨schema, ?_, ?_⟩
        · rw [List.foldlM_cons, hstep, Option.bind_eq_bind, Option.bind_some, hrest]
        · convert hschema using 2 with j
          by_cases hj : j = i
          · subst hj
            simp
          · simp [hj]
  obtain ⟨schema, hrun, hschema⟩ := hfold order mem values h
  refine ⟨schema, ?_, by simpa [horder] using hschema⟩
  rw [parseJsonSchema, if_neg hfound, hrun]

/-- One parameter of a form is stored in the array of its name. Induction along the arrays. -/
theorem storeParam_holds (key : ι → Bytes) (order : List ι) (h : L.Holds mem values)
    {param : QueryParam} (hnul : NulFree param.value) :
    ∃ schema, order.foldlM (storeParam L key param) mem = some schema ∧
      L.Holds schema fun i => if i ∈ order ∧ param.key = key i then
        param.value.take ((L.field i).size - 1) else values i := by
  induction order generalizing mem values with
  | nil => exact ⟨mem, rfl, by simpa using h⟩
  | cons i order ih =>
      by_cases hkey : param.key = key i
      · have hpos := L.positive i
        obtain ⟨mem', hcopy, h'⟩ := h.strcpy (i := i)
          (s := param.value.take ((L.field i).size - 1))
          (fun hmem => hnul (List.mem_of_mem_take hmem)) (by rw [List.length_take]; omega)
        obtain ⟨schema, hrest, hschema⟩ := ih h'
        refine ⟨schema, ?_, ?_⟩
        · rw [List.foldlM_cons, storeParam, if_pos hkey, hcopy, Option.bind_eq_bind,
            Option.bind_some, hrest]
        · convert hschema using 2 with j
          by_cases hj : j = i
          · subst hj
            simp [hkey]
          · simp [hj]
      · obtain ⟨schema, hrest, hschema⟩ := ih h
        refine ⟨schema, ?_, ?_⟩
        · rw [List.foldlM_cons, storeParam, if_neg hkey, Option.bind_eq_bind, Option.bind_some,
            hrest]
        · convert hschema using 2 with j
          by_cases hj : j = i
          · subst hj
            simp [hkey]
          · simp [hj]

/-- **What a form parser stores** in a zeroed schema: the last parameter of each name, cut to
its array. Induction along the parameters. -/
theorem parseXwfUrlencodedSchema_holds (L : Layout ι) (key : ι → Bytes) {order : List ι}
    (horder : ∀ i, i ∈ order) (req : HttpRequest)
    (hnul : ∀ param ∈ req.bodyQueryParams, NulFree param.value) :
    ∃ schema, parseXwfUrlencodedSchema L key order req (List.replicate L.size 0) =
        some (some schema) ∧
      L.Holds schema fun i => (lastParam req.bodyQueryParams (key i)).take
        ((L.field i).size - 1) := by
  have hfold : ∀ params : List QueryParam, (∀ param ∈ params, NulFree param.value) →
      ∃ schema, params.foldlM (fun schema param => order.foldlM (storeParam L key param) schema)
          (List.replicate L.size 0) = some schema ∧
        L.Holds schema fun i => (lastParam params (key i)).take ((L.field i).size - 1) := by
    intro params
    induction params using List.reverseRecOn with
    | nil => exact fun _ => ⟨_, rfl, by simpa [lastParam] using L.holds_zero⟩
    | append_singleton params param ih =>
        intro hnul
        obtain ⟨mem, hmem, h⟩ := ih fun p hp => hnul p (List.mem_append_left _ hp)
        obtain ⟨schema, hstep, hschema⟩ := storeParam_holds key order h
          (hnul param (List.mem_append_right _ List.mem_cons_self))
        refine ⟨schema, ?_, ?_⟩
        · rw [List.foldlM_append, hmem, Option.bind_eq_bind, Option.bind_some, List.foldlM_cons,
            hstep]
          rfl
        · convert hschema using 2 with i
          rw [lastParam_append_singleton]
          by_cases hkey : param.key = key i
          · simp [hkey, horder]
          · simp [hkey]
  obtain ⟨schema, hrun, hschema⟩ := hfold req.bodyQueryParams hnul
  refine ⟨schema, ?_, hschema⟩
  rw [parseXwfUrlencodedSchema]
  split
  · rename_i hnone
    rw [List.length_eq_zero_iff.mp hnone] at hrun
    exact congrArg some hrun
  · rw [hrun, Option.map_some]

/-- **The payload of a schema** whose strings fit the arrays of the payload. -/
theorem userDtoFromRegisterAccSchema_eq {schema : Bytes} {values : RegisterField → Bytes}
    (h : registerAccountSchema.Holds schema values)
    (hfits : ∀ i, (values i).length < (createUserLayout.field i).size) :
    userDtoFromRegisterAccSchema schema =
      some ⟨values .name, values .email, values .cpf, values .password⟩ := by
  have hvalue := h.cstrAt
  have hcopy : ∀ {dto : Bytes} {vs : RegisterField → Bytes} (i : RegisterField),
      createUserLayout.Holds dto vs → ∃ dto', strcpy dto (createUserLayout.field i).offset
          (cstrAt schema (registerAccountSchema.field i).offset) = some dto' ∧
        createUserLayout.Holds dto' (Function.update vs i (values i)) := by
    intro dto vs i hdto
    rw [hvalue i]
    exact hdto.strcpy (h.value i).1.1 (hfits i)
  obtain ⟨d₁, h₁, hd₁⟩ := hcopy .cpf createUserLayout.holds_zero
  obtain ⟨d₂, h₂, hd₂⟩ := hcopy .name hd₁
  obtain ⟨d₃, h₃, hd₃⟩ := hcopy .password hd₂
  obtain ⟨d₄, h₄, hd₄⟩ := hcopy .email hd₃
  have hread : readCreateUserDTO d₄ =
      ⟨values .name, values .email, values .cpf, values .password⟩ := by
    have hstr := hd₄.cstrAt
    rw [readCreateUserDTO, CreateUserDTO.mk.injEq]
    exact ⟨hstr .name, hstr .email, hstr .cpf, hstr .password⟩
  simp only [userDtoFromRegisterAccSchema, List.foldlM_cons, List.foldlM_nil, h₁, h₂, h₃, h₄,
    Option.bind_eq_bind, Option.bind_some, Option.pure_def, hread]

/-! ### What a body submits -/

/-- The encodings of a body. -/
inductive BodyEncoding
  | json
  | form
  deriving DecidableEq

/-- The encoding a `Content-Type` announces: `strcmp` with the text of JSON. -/
def bodyEncoding (contentType : Bytes) : BodyEncoding :=
  if contentType = lit "application/json" then .json else .form

/-- The parameter one token of a form is. -/
def formParam (token : Bytes) : Option QueryParam :=
  (cutAt (ch '=') token).map fun pair => ⟨pair.1, cstr (urldecode pair.2)⟩

/-- The parameters of a form. -/
def formParams (body : Bytes) : List QueryParam := (tokens isBodyDelim body).filterMap formParam

/-- The string a body submits for a field: the member of a JSON text, or the last parameter of
a form; the empty string when there is none. -/
def BodyEncoding.submitted (enc : BodyEncoding) (body field : Bytes) : Bytes :=
  match enc with
  | .json => (jsonField body field).getD []
  | .form => lastParam (formParams body) field

/-- A body that its parser gets whole: a JSON text without the characters
`decode_url_middleware` cuts a body at, or a form whose parameters find a slot. -/
def BodyEncoding.Intact (enc : BodyEncoding) (body : Bytes) : Prop :=
  match enc with
  | .json => ∀ c ∈ body, c ≠ 0 ∧ isBodyDelim c = false ∧ c ≠ ch '='
  | .form => (formParams body).length ≤ maxParams

instance (enc : BodyEncoding) (body : Bytes) : Decidable (enc.Intact body) :=
  match enc with
  | .json => inferInstanceAs
      (Decidable (∀ c ∈ body, c ≠ 0 ∧ isBodyDelim c = false ∧ c ≠ ch '='))
  | .form => inferInstanceAs (Decidable ((formParams body).length ≤ maxParams))

/-- A request after its body was decoded. -/
def decodedBody (req : HttpRequest) : HttpRequest :=
  { req with
    bodyQueryParams := (tokens isBodyDelim req.body).foldl decodeParam req.bodyQueryParams
    body := cutByTokens isBodyDelim req.body }

/-- What `decode_url_middleware` does to a request without a query. -/
theorem decodeUrlMiddleware_eq {req : HttpRequest} (hpath : ch '?' ∉ req.path) (env : Env)
    (res : HttpResponse) : decodeUrlMiddleware env req res = some (decodedBody req, res) := by
  rw [decodeUrlMiddleware]
  split
  · rename_i hbody
    have hsame : decodedBody req = req := by
      rw [decodedBody, hbody, tokens_nil]
      cases req
      cases hbody
      rfl
    rw [hsame]
  · rw [cutAt_eq_none_iff.mpr hpath]
    rfl

/-- A body that was cut starts as it did before. -/
theorem cutByTokens_starts (d : UInt8 → Bool) (text : Bytes) : cutByTokens d text <+: text := by
  have hlead : text.takeWhile d ++ text.drop (text.takeWhile d).length = text :=
    List.prefix_iff_eq_append.mp (List.takeWhile_prefix d)
  have hkept : ∀ token, token <+: (text.drop (text.takeWhile d).length).takeWhile (fun c => !d c) →
      text.takeWhile d ++ token <+: text := by
    intro token htoken
    have hall := (List.prefix_append_right_inj (text.takeWhile d)).mpr
      (htoken.trans (List.takeWhile_prefix _))
    rwa [hlead] at hall
  simp only [cutByTokens]
  cases hcut : cutAt (ch '=')
      ((text.drop (text.takeWhile d).length).takeWhile fun c => !d c) with
  | none => exact hkept _ List.prefix_rfl
  | some pair =>
      obtain ⟨htext, -⟩ := cutAt_eq_some_iff.mp hcut
      exact hkept _ ⟨_, htext.symm⟩

/-- A text without delimiters and equals signs is not cut. -/
theorem cutByTokens_of_intact {body : Bytes} (h : BodyEncoding.json.Intact body) :
    cutByTokens isBodyDelim body = body := by
  have hlead : body.takeWhile isBodyDelim = [] := by
    cases body with
    | nil => rfl
    | cons c body => simp [(h c List.mem_cons_self).2.1]
  have htoken : body.takeWhile (fun c => !isBodyDelim c) = body :=
    List.takeWhile_eq_self_iff.mpr fun c hc => by rw [(h c hc).2.1]; rfl
  have hequals : cutAt (ch '=') body = none :=
    cutAt_eq_none_iff.mpr fun hmem => (h _ hmem).2.2 rfl
  simp only [cutByTokens, hlead, List.length_nil, List.drop_zero, htoken, hequals,
    List.nil_append]

/-- **What the tokens leave in a list**: its parameters and theirs, as far as there are slots.
Induction along the tokens. -/
theorem foldl_decodeParam_take {ts : List Bytes} {params : List QueryParam}
    (h : params.length ≤ maxParams) :
    ts.foldl decodeParam params = (params ++ ts.filterMap formParam).take maxParams := by
  induction ts generalizing params with
  | nil => simp [List.take_of_length_le h]
  | cons token ts ih =>
      rw [List.foldl_cons, decodeParam]
      cases hcut : cutAt (ch '=') token with
      | none =>
          have hnone : formParam token = none := by rw [formParam, hcut, Option.map_none]
          rw [List.filterMap_cons_none hnone]
          exact ih h
      | some pair =>
          have hsome : formParam token = some ⟨pair.1, cstr (urldecode pair.2)⟩ := by
            rw [formParam, hcut, Option.map_some]
          rw [List.filterMap_cons_some hsome]
          change ts.foldl decodeParam (appendQueryParam params pair.1 _) = _
          rw [appendQueryParam]
          split
          · -- the list is full, and stays as it is
            rw [ih h, List.take_append_of_le_length (by omega),
              List.take_append_of_le_length (by omega)]
          · rw [ih (by rw [List.length_append, List.length_singleton]; omega),
              List.append_assoc, List.singleton_append]

/-- The parameters of the body of a fresh request. -/
theorem bodyQueryParams_decodedBody {req : HttpRequest} (hfresh : req.bodyQueryParams = []) :
    (decodedBody req).bodyQueryParams = (formParams req.body).take maxParams := by
  change (tokens isBodyDelim req.body).foldl decodeParam req.bodyQueryParams = _
  rw [hfresh, foldl_decodeParam_take (Nat.zero_le _), List.nil_append]
  rfl

/-- A decoded value holds no NUL. -/
theorem nulFree_of_mem_formParams {body : Bytes} {param : QueryParam}
    (h : param ∈ formParams body) : NulFree param.value := by
  obtain ⟨token, -, htoken⟩ := List.mem_filterMap.mp h
  obtain ⟨pair, -, rfl⟩ := Option.map_eq_some_iff.mp htoken
  exact nulFree_cstr _

/-- What is assigned is not empty, and comes from the text. -/
theorem of_jsonField_eq_some {body field value : Bytes} (h : jsonField body field = some value) :
    value ≠ [] ∧ value ⊆ body := by
  obtain ⟨token, htoken, hvalue⟩ := Option.bind_eq_some_iff.mp h
  obtain ⟨pre, post, ⟨hbody, -⟩, rfl⟩ := strstr_eq_some_iff.mp htoken
  have hsuffix : lit "\"" ++ field ++ post ⊆ body := by
    rw [hbody, List.append_assoc pre]
    exact List.subset_append_right _ _
  simp only [parseJsonField] at hvalue
  split at hvalue
  · split at hvalue
    · simp at hvalue
    · rename_i c rest hrest
      simp only [Option.ite_none_right_eq_some, Option.some.injEq] at hvalue
      obtain ⟨⟨-, hne⟩, rfl⟩ := hvalue
      have hrestSub : rest ⊆ lit "\"" ++ field ++ post := by
        intro x hx
        have hmem : x ∈ c :: rest := List.mem_cons_of_mem _ hx
        rw [← hrest] at hmem
        exact List.mem_of_mem_drop ((List.dropWhile_suffix _).subset hmem)
      exact ⟨hne, fun x hx => hsuffix (hrestSub ((List.takeWhile_prefix _).subset hx))⟩
  · simp at hvalue

/-- The parser of an encoding. -/
def BodyEncoding.parse (enc : BodyEncoding) (L : Layout ι) (key : ι → Bytes)
    (jsonOrder formOrder : List ι) (req : HttpRequest) : Option (Option Bytes) :=
  match enc with
  | .json => parseJsonSchema L key jsonOrder req (List.replicate L.size 0)
  | .form => parseXwfUrlencodedSchema L key formOrder req (List.replicate L.size 0)

/-- **What a schema holds**, in either encoding: the strings submitted, cut to their arrays.
JSON members must be there and fit. -/
theorem BodyEncoding.parse_holds (enc : BodyEncoding) (L : Layout ι) (key : ι → Bytes)
    (jsonOrder formOrder : List ι) (hjsonOrder : ∀ i, i ∈ jsonOrder)
    (hformOrder : ∀ i, i ∈ formOrder) {req : HttpRequest}
    (hfresh : req.bodyQueryParams = []) (hintact : enc.Intact req.body)
    (hjson : enc = .json → ∀ i, enc.submitted req.body (key i) ≠ [] ∧
      (enc.submitted req.body (key i)).length < (L.field i).size) :
    ∃ schema, enc.parse L key jsonOrder formOrder (decodedBody req) = some (some schema) ∧
      L.Holds schema fun i =>
        (enc.submitted req.body (key i)).take ((L.field i).size - 1) := by
  cases enc with
  | json =>
      have hbody : (decodedBody req).body = req.body := cutByTokens_of_intact hintact
      have hmembers : ∀ i, jsonField (decodedBody req).body (key i) =
          some ((BodyEncoding.json.submitted req.body (key i)).take ((L.field i).size - 1)) ∧
          NulFree ((BodyEncoding.json.submitted req.body (key i)).take ((L.field i).size - 1)) ∧
          ((BodyEncoding.json.submitted req.body (key i)).take
            ((L.field i).size - 1)).length < (L.field i).size := by
        intro i
        obtain ⟨hne, hlen⟩ := hjson rfl i
        rw [hbody, List.take_of_length_le (by omega)]
        cases hfield : jsonField req.body (key i) with
        | none => exact absurd (by rw [BodyEncoding.submitted, hfield]; rfl) hne
        | some value =>
            have hvalue : BodyEncoding.json.submitted req.body (key i) = value := by
              rw [BodyEncoding.submitted, hfield, Option.getD_some]
            rw [hvalue] at hlen ⊢
            exact ⟨rfl, fun hnul => (hintact 0 ((of_jsonField_eq_some hfield).2 hnul)).1 rfl,
              hlen⟩
      exact parseJsonSchema_holds hjsonOrder L.holds_zero hmembers
  | form =>
      have hparams : (decodedBody req).bodyQueryParams = formParams req.body :=
        (bodyQueryParams_decodedBody hfresh).trans (List.take_of_length_le hintact)
      have hrun := parseXwfUrlencodedSchema_holds L key hformOrder (decodedBody req) (by
        rw [hparams]
        exact fun param hparam => nulFree_of_mem_formParams hparam)
      rwa [hparams] at hrun

end CBank
