import CBank.CLib.Fields
import CBank.Schemas

/-!
# What the Body Parsers Write

The strings the four parsers of `api/schemas` copy into a schema, in order, as writes into its
arrays. A form parser cuts each value to the array it names. A JSON parser copies the member it
finds as it is, one after the other, until one cannot be read; that every field is named in the
body is all it checks before. So the arrays are respected exactly when the members that are copied
(`JsonCopies`) fit them.

## Main results

* `parseJsonSchema_eq_storeAll`, `parseXwfUrlencodedSchema_eq_storeAll`: a parser performs its
  writes and nothing else.
* `jsonField_eq_some_iff`: what a member of a JSON text is.
* `field_writes_within_iff`: the arrays are respected exactly when the members copied fit.
-/

namespace CBank

open CLib

variable {ι : Type} {L : Layout ι} {key : ι → Bytes} {order : List ι}

/-! ### The writes -/

/-- The calls of `parse_json_field` up to the first one that fails. -/
def jsonMemberWrites (key : ι → Bytes) (body : Bytes) : List ι → List (FieldWrite ι)
  | [] => []
  | i :: order => match jsonField body (key i) with
    | none => []
    | some value => ⟨i, value⟩ :: jsonMemberWrites key body order

/-- The writes of a JSON parser. -/
def jsonSchemaWrites (key : ι → Bytes) (order : List ι) (body : Bytes) : List (FieldWrite ι) :=
  if order.any fun i => (strstr (lit "\"" ++ key i) body).isNone then []
  else jsonMemberWrites key body order

/-- The writes one parameter of a form causes. -/
def paramWrites (L : Layout ι) (key : ι → Bytes) (order : List ι) (param : QueryParam) :
    List (FieldWrite ι) :=
  (order.filter fun i => param.key = key i).map fun i =>
    ⟨i, param.value.take ((L.field i).size - 1)⟩

/-- The writes of a form parser. -/
def xwfUrlencodedSchemaWrites (L : Layout ι) (key : ι → Bytes) (order : List ι)
    (params : List QueryParam) : List (FieldWrite ι) :=
  params.flatMap (paramWrites L key order)

/-- The writes of `parse_login_json_schema`. -/
def loginJsonWrites (req : HttpRequest) : List (FieldWrite LoginField) :=
  jsonSchemaWrites LoginField.key [.cpf, .password] req.body

/-- The writes of `parse_login_xwf_urlencoded_schema`. -/
def loginXwfUrlencodedWrites (req : HttpRequest) : List (FieldWrite LoginField) :=
  xwfUrlencodedSchemaWrites loginSchema LoginField.key [.cpf, .password] req.bodyQueryParams

/-- The writes of `parse_register_acc_json_schema`. -/
def registerAccJsonWrites (req : HttpRequest) : List (FieldWrite RegisterField) :=
  jsonSchemaWrites RegisterField.key [.cpf, .password, .name, .email] req.body

/-- The writes of `parse_register_acc_xwf_urlencoded_schema`. -/
def registerAccXwfUrlencodedWrites (req : HttpRequest) : List (FieldWrite RegisterField) :=
  xwfUrlencodedSchemaWrites registerAccountSchema RegisterField.key
    [.cpf, .name, .email, .password] req.bodyQueryParams

/-! ### The parsers perform them -/

/-- A JSON parser that has failed writes nothing more. -/
theorem foldlM_storeJsonField_none (body : Bytes) (order : List ι) :
    order.foldlM (storeJsonField L key body) none = some none := by
  induction order with
  | nil => rfl
  | cons i order ih => exact ih

/-- The calls of `parse_json_field` perform their writes. Induction along them. -/
theorem foldlM_storeJsonField_eq (body : Bytes) (order : List ι) (schema : Bytes) :
    order.foldlM (storeJsonField L key body) (some schema) =
      (L.storeAll schema (jsonMemberWrites key body order)).map fun schema =>
        if order.all fun i => (jsonField body (key i)).isSome then some schema else none := by
  induction order generalizing schema with
  | nil => rfl
  | cons i order ih =>
      cases hfield : jsonField body (key i) with
      | none =>
          have hstep : storeJsonField L key body (some schema) i = some none := by
            simp only [storeJsonField, hfield]
          rw [List.foldlM_cons, hstep, Option.bind_eq_bind, Option.bind_some,
            foldlM_storeJsonField_none]
          simp [jsonMemberWrites, Layout.storeAll, hfield]
      | some value =>
          have hstep : storeJsonField L key body (some schema) i =
              (L.store schema ⟨i, value⟩).map some := by
            simp only [storeJsonField, hfield, Layout.store]
          have hwrites : jsonMemberWrites key body (i :: order) =
              ⟨i, value⟩ :: jsonMemberWrites key body order := by
            simp only [jsonMemberWrites, hfield]
          rw [List.foldlM_cons, hstep, hwrites, Layout.storeAll, List.foldlM_cons]
          cases L.store schema ⟨i, value⟩ with
          | none => rfl
          | some schema =>
              simp only [Option.map_some, Option.bind_eq_bind, Option.bind_some, List.all_cons,
                hfield, Option.isSome_some, Bool.true_and]
              exact ih schema

/-- **A JSON parser performs its writes**, and returns true when every member was read. -/
theorem parseJsonSchema_eq_storeAll (L : Layout ι) (key : ι → Bytes) (order : List ι)
    (req : HttpRequest) (schema : Bytes) :
    parseJsonSchema L key order req schema =
      (L.storeAll schema (jsonSchemaWrites key order req.body)).map fun schema =>
        if order.all fun i => (strstr (lit "\"" ++ key i) req.body).isSome ∧
          (jsonField req.body (key i)).isSome then some schema else none := by
  rw [parseJsonSchema, jsonSchemaWrites]
  split
  · rename_i hany
    obtain ⟨i, hi, hnone⟩ := List.any_eq_true.mp hany
    have hnot : ¬ (order.all fun i => (strstr (lit "\"" ++ key i) req.body).isSome ∧
        (jsonField req.body (key i)).isSome) = true := by
      rw [List.all_eq_true]
      intro hall
      have := hall i hi
      rw [Option.isNone_iff_eq_none.mp hnone] at this
      simp at this
    simp only [Layout.storeAll, List.foldlM_nil, Option.pure_def, Option.map_some, if_neg hnot]
  · rename_i hany
    have hfound : ∀ i ∈ order, (strstr (lit "\"" ++ key i) req.body).isSome = true := by
      intro i hi
      by_contra hnone
      exact hany (List.any_eq_true.mpr ⟨i, hi, by simpa using hnone⟩)
    have hall : (order.all fun i => (strstr (lit "\"" ++ key i) req.body).isSome ∧
        (jsonField req.body (key i)).isSome) =
        order.all fun i => (jsonField req.body (key i)).isSome := by
      rw [Bool.eq_iff_iff, List.all_eq_true, List.all_eq_true]
      refine forall₂_congr fun i hi => ?_
      simp [hfound i hi]
    rw [foldlM_storeJsonField_eq, hall]

/-- The loop over the fields performs the writes of a parameter. Induction along the fields. -/
theorem foldlM_storeParam_eq (param : QueryParam) (order : List ι) (schema : Bytes) :
    order.foldlM (storeParam L key param) schema =
      L.storeAll schema (paramWrites L key order param) := by
  induction order generalizing schema with
  | nil => rfl
  | cons i order ih =>
      rw [List.foldlM_cons, storeParam]
      by_cases hkey : param.key = key i
      · rw [if_pos hkey, paramWrites, List.filter_cons_of_pos (by simpa using hkey),
          List.map_cons, Layout.storeAll, List.foldlM_cons]
        exact congrArg _ (funext fun schema => ih schema)
      · rw [if_neg hkey, paramWrites, List.filter_cons_of_neg (by simpa using hkey)]
        exact ih schema

/-- **A form parser performs its writes.** Induction along the parameters. -/
theorem parseXwfUrlencodedSchema_eq_storeAll (L : Layout ι) (key : ι → Bytes) (order : List ι)
    (req : HttpRequest) (schema : Bytes) :
    parseXwfUrlencodedSchema L key order req schema =
      (L.storeAll schema (xwfUrlencodedSchemaWrites L key order req.bodyQueryParams)).map some := by
  have hfold : ∀ (params : List QueryParam) (schema : Bytes),
      params.foldlM (fun schema param => order.foldlM (storeParam L key param) schema) schema =
        L.storeAll schema (xwfUrlencodedSchemaWrites L key order params) := by
    intro params
    induction params with
    | nil => exact fun schema => rfl
    | cons param params ih =>
        intro schema
        rw [List.foldlM_cons, foldlM_storeParam_eq, xwfUrlencodedSchemaWrites, List.flatMap_cons,
          Layout.storeAll, Layout.storeAll, List.foldlM_append]
        exact congrArg _ (funext fun schema => ih schema)
  rw [parseXwfUrlencodedSchema]
  split
  · rename_i hnone
    rw [List.length_eq_zero_iff.mp hnone]
    rfl
  · rw [hfold]

/-! ### The members of a JSON text -/

/-- The first quoted text of `body` that starts like the field is its name, and `value` is the
string after it: what follows the colon, white space and a quote, up to the next quote or to the
end of the body. -/
def MemberText (body field value : Bytes) : Prop :=
  ∃ pre space post, FirstOccurrence (lit "\"" ++ field) body pre
      (lit "\":" ++ (space ++ ch '"' :: (value ++ post))) ∧
    (∀ c ∈ space, isSpace c = true) ∧ value ≠ [] ∧ ch '"' ∉ value ∧
    (post = [] ∨ ∃ rest, post = ch '"' :: rest)

/-- A quoted value is scanned up to its closing quote. -/
theorem takeWhile_value {value post : Bytes} (hvalue : ch '"' ∉ value)
    (hpost : post = [] ∨ ∃ rest, post = ch '"' :: rest) :
    (value ++ post).takeWhile (· ≠ ch '"') = value := by
  rw [takeWhile_ne_append hvalue]
  rcases hpost with rfl | ⟨rest, rfl⟩
  · simp
  · simp

/-- **What a member of a JSON text is** to the parsers. -/
theorem jsonField_eq_some_iff {body field value : Bytes} :
    jsonField body field = some value ↔ MemberText body field value := by
  constructor
  · intro h
    obtain ⟨token, htoken, h⟩ := Option.bind_eq_some_iff.mp h
    obtain ⟨pre, post, hfirst, rfl⟩ := strstr_eq_some_iff.mp htoken
    simp only [parseJsonField] at h
    split at h
    · rename_i hmatch
      rw [List.prefix_append_right_inj] at hmatch
      obtain ⟨text, rfl⟩ := hmatch
      have hdrop : (lit "\"" ++ field ++ (lit "\":" ++ text)).drop
          (lit "\"" ++ field ++ lit "\":").length = text := by
        rw [← List.append_assoc, List.drop_left]
      rw [hdrop] at h
      split at h
      · simp at h
      · rename_i c rest hrest
        simp only [Option.ite_none_right_eq_some, Option.some.injEq] at h
        obtain ⟨⟨rfl, hne⟩, rfl⟩ := h
        have hspace := List.takeWhile_append_dropWhile (p := isSpace) (l := text)
        have hquoted := List.takeWhile_append_dropWhile (p := (· ≠ ch '"')) (l := rest)
        refine ⟨pre, text.takeWhile isSpace, rest.dropWhile (· ≠ ch '"'), ?_, ?_, hne, ?_, ?_⟩
        · rw [hquoted, ← hrest, hspace]
          exact hfirst
        · exact fun c hc => List.all_eq_true.mp List.all_takeWhile c hc
        · intro hmem
          simpa using List.all_eq_true.mp List.all_takeWhile _ hmem
        · exact dropWhile_ne_eq (ch '"') rest
    · simp at h
  · rintro ⟨pre, space, post, hfirst, hspace, hne, hquote, hpost⟩
    have hmatch : lit "\"" ++ field ++ lit "\":" <+: lit "\"" ++ field ++
        (lit "\":" ++ (space ++ ch '"' :: (value ++ post))) := by
      rw [List.prefix_append_right_inj]
      exact List.prefix_append _ _
    have hdrop : (lit "\"" ++ field ++ (lit "\":" ++ (space ++ ch '"' :: (value ++ post)))).drop
        (lit "\"" ++ field ++ lit "\":").length = space ++ ch '"' :: (value ++ post) := by
      rw [← List.append_assoc, List.drop_left]
    have hskip : (space ++ ch '"' :: (value ++ post)).dropWhile isSpace =
        ch '"' :: (value ++ post) := by
      rw [List.dropWhile_append_of_pos hspace]
      rfl
    rw [jsonField, hfirst.strstr_eq, Option.bind_some, parseJsonField]
    simp only [hmatch, if_true, hdrop, hskip, takeWhile_value hquote hpost]
    rw [if_pos ⟨trivial, hne⟩]

/-- The member of a field is copied: every field is named in the body, and the members read
before it are there. -/
def JsonCopies (key : ι → Bytes) (order : List ι) (body : Bytes) (i : ι) (value : Bytes) : Prop :=
  (∀ j ∈ order, lit "\"" ++ key j <:+: body) ∧
    (∃ before after, order = before ++ i :: after ∧
      ∀ j ∈ before, ∃ earlier, MemberText body (key j) earlier) ∧
    MemberText body (key i) value

/-- Which members a JSON parser copies. Induction along the calls of `parse_json_field`. -/
theorem mem_jsonMemberWrites {body : Bytes} {w : FieldWrite ι} :
    w ∈ jsonMemberWrites key body order ↔
      (∃ before after, order = before ++ w.field :: after ∧
        ∀ j ∈ before, ∃ earlier, MemberText body (key j) earlier) ∧
      MemberText body (key w.field) w.text := by
  simp only [← jsonField_eq_some_iff, ← Option.isSome_iff_exists]
  induction order with
  | nil => simp [jsonMemberWrites]
  | cons i order ih =>
      rw [jsonMemberWrites]
      constructor
      · intro h
        cases hfield : jsonField body (key i) with
        | none => simp [hfield] at h
        | some value =>
            simp only [hfield] at h
            rcases List.mem_cons.mp h with rfl | h
            · exact ⟨⟨[], order, rfl, by simp⟩, hfield⟩
            · obtain ⟨⟨before, after, rfl, hbefore⟩, hw⟩ := ih.mp h
              refine ⟨⟨i :: before, after, rfl, ?_⟩, hw⟩
              rintro j (_ | ⟨_, hj⟩)
              · rw [hfield]
                rfl
              · exact hbefore j hj
      · rintro ⟨⟨before, after, horder, hbefore⟩, hw⟩
        cases before with
        | nil =>
            obtain ⟨rfl, rfl⟩ := List.cons.inj horder
            simp only [hw]
            exact List.mem_cons_self
        | cons j before =>
            obtain ⟨rfl, rfl⟩ := List.cons.inj horder
            obtain ⟨value, hvalue⟩ := Option.isSome_iff_exists.mp (hbefore i List.mem_cons_self)
            simp only [hvalue]
            refine List.mem_cons_of_mem _ (ih.mpr ⟨⟨before, after, rfl, ?_⟩, hw⟩)
            exact fun j hj => hbefore j (List.mem_cons_of_mem _ hj)

/-- **What a JSON parser writes.** -/
theorem mem_jsonSchemaWrites {body : Bytes} {w : FieldWrite ι} :
    w ∈ jsonSchemaWrites key order body ↔ JsonCopies key order body w.field w.text := by
  rw [jsonSchemaWrites, JsonCopies, ← mem_jsonMemberWrites]
  have hnamed : (order.any fun i => (strstr (lit "\"" ++ key i) body).isNone) = true ↔
      ¬ ∀ j ∈ order, lit "\"" ++ key j <:+: body := by
    simp [List.any_eq_true, strstr_eq_none_iff]
  split
  · rename_i hany
    simp [hnamed.mp hany]
  · rename_i hany
    rw [hnamed, not_not] at hany
    exact ⟨fun h => ⟨hany, h⟩, And.right⟩

/-! ### The capacities -/

/-- **A form parser respects the arrays**: every value is cut. -/
theorem within_of_mem_xwfUrlencodedSchemaWrites {params : List QueryParam} {w : FieldWrite ι}
    (h : w ∈ xwfUrlencodedSchemaWrites L key order params) : L.Within w := by
  obtain ⟨param, -, h⟩ := List.mem_flatMap.mp h
  obtain ⟨i, -, rfl⟩ := List.mem_map.mp h
  have hpos := L.positive i
  simp only [Layout.Within, FieldWrite.size, List.length_take]
  omega

/-- A JSON parser respects the arrays exactly when the members it copies fit them. -/
theorem within_jsonSchemaWrites_iff {body : Bytes} :
    (∀ w ∈ jsonSchemaWrites key order body, L.Within w) ↔
      ∀ i value, JsonCopies key order body i value → value.length < (L.field i).size := by
  simp only [mem_jsonSchemaWrites]
  exact ⟨fun h i value hcopies => h ⟨i, value⟩ hcopies, fun h w hcopies => h _ _ hcopies⟩

/-- **Field sizes.** The four parsers write into each array of their schema at most its capacity,
for a request as they get it, exactly when each member that a JSON parser copies from the body is
shorter than its array. -/
theorem field_writes_within_iff (req : HttpRequest) :
    ((∀ w ∈ loginJsonWrites req, loginSchema.Within w) ∧
      (∀ w ∈ loginXwfUrlencodedWrites req, loginSchema.Within w) ∧
      (∀ w ∈ registerAccJsonWrites req, registerAccountSchema.Within w) ∧
      ∀ w ∈ registerAccXwfUrlencodedWrites req, registerAccountSchema.Within w) ↔
    (∀ i value, JsonCopies LoginField.key [.cpf, .password] req.body i value →
      value.length < (loginSchema.field i).size) ∧
    ∀ i value, JsonCopies RegisterField.key [.cpf, .password, .name, .email] req.body i value →
      value.length < (registerAccountSchema.field i).size := by
  constructor
  · rintro ⟨hlogin, -, hregister, -⟩
    exact ⟨within_jsonSchemaWrites_iff.mp hlogin, within_jsonSchemaWrites_iff.mp hregister⟩
  · rintro ⟨hlogin, hregister⟩
    exact ⟨within_jsonSchemaWrites_iff.mpr hlogin,
      fun w hw => within_of_mem_xwfUrlencodedSchemaWrites hw,
      within_jsonSchemaWrites_iff.mpr hregister,
      fun w hw => within_of_mem_xwfUrlencodedSchemaWrites hw⟩

/-- A login request with a cpf of twelve digits. -/
def longCpfRequest : HttpRequest where
  method := lit "POST"
  path := lit "/login"
  version := lit "HTTP/1.1"
  headers := [⟨lit "Content-Type", lit "application/json"⟩]
  body := lit "\x7b\"cpf\":\"123456789012\",\"password\":\"secret\"\x7d"
  authenticatedJwt := JwtData.zero
  bodyQueryParams := []
  urlQueryParams := []
  cookies := []

/-- **A cpf that runs into the password**: thirteen bytes are written into an array of twelve. -/
theorem field_writes_long_cpf :
    ¬ ((∀ w ∈ loginJsonWrites longCpfRequest, loginSchema.Within w) ∧
      (∀ w ∈ loginXwfUrlencodedWrites longCpfRequest, loginSchema.Within w) ∧
      (∀ w ∈ registerAccJsonWrites longCpfRequest, registerAccountSchema.Within w) ∧
      ∀ w ∈ registerAccXwfUrlencodedWrites longCpfRequest, registerAccountSchema.Within w) := by
  rintro ⟨hlogin, -⟩
  have hwrite : (⟨.cpf, lit "123456789012"⟩ : FieldWrite LoginField) ∈
      loginJsonWrites longCpfRequest := by decide +kernel
  exact absurd (hlogin _ hwrite) (by decide)

end CBank
