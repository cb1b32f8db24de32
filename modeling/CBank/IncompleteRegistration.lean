import CBank.FieldWrites
import CBank.RegisterLogin

/-!
# Incomplete Registrations

What becomes of a registration whose body lacks a member. The two parsers mean different things
by success: the JSON parser returns false when it does not find a member, and the form parser
always returns true and leaves the arrays of the missing parameters empty; `validate_schema` is
not called, and would accept everything. So a form without an email registers a user with the
empty email, once.

A request is refused without effect exactly when it is a JSON body whose members are not all
found, or when the email that reaches `make_new_user` is one the user table knows. Both need the
copies on the way to stay inside their structures: a schema of 247 bytes, and a payload of 147.

## Main results

* `parseRegisterBody_eq_some_none_iff`: when a body is rejected by its parser.
* `exists_registerPayload_iff`: when a body has a payload, and the email it carries.
* `incomplete_registration_refused_iff`: when a registration is refused without effect.
-/

namespace CBank

open CLib

/-! ### What the handler refuses -/

/-- The request is answered with 400, and the user table, the account table and the id tracker
stay as they were. -/
def Refused (crypt : Bytes → Bytes) (callEnv : CallEnv) (env : ℕ → Env) (req : HttpRequest)
    (d : Disk) : Prop :=
  (∃ res, (serveRegister crypt callEnv env req).result d = some (some res) ∧
    res.statusCode = 400) ∧
  ∀ s ∈ [Store.user, .account, .idTracker],
    ((serveRegister crypt callEnv env req).after d).table s = d.table s

variable {crypt : Bytes → Bytes} {callEnv : CallEnv} {env : ℕ → Env} {enc : BodyEncoding}
  {req : HttpRequest} {d : Disk}

/-- A handler that returned something else than a success is answered with its own status. -/
theorem refused_of_performs (hpost : PostRequest (lit "/register") enc req) {res : HttpResponse}
    (hres : res.statusCode = 400)
    (h : (handlePOSTRegisterAccount crypt callEnv (decodedBody req) .zero).Performs d []
      (some (false, res))) : Refused crypt callEnv env req d := by
  have hserve : (serveRegister crypt callEnv env req).Performs d [] (some (some res)) := by
    rw [hpost.serveRegister_eq]
    exact Proc.Performs.bind h (Proc.performs_pure _ _)
  refine ⟨⟨res, hserve.2, hres⟩, fun s _ => ?_⟩
  rw [hserve.after_eq, Proc.execAll_nil]

/-- **When a registration is refused**: its parser rejects the body, or its email is known. -/
theorem refused_iff (hpost : PostRequest (lit "/register") enc req) :
    Refused crypt callEnv env req d ↔
      parseRegisterBody (decodedBody req) = some none ∨
      ∃ payload, registerPayload (decodedBody req) = some payload ∧
        emailAlreadyRegistered payload.email d = some true := by
  constructor
  · rintro ⟨⟨res, hres, hstatus⟩, -⟩
    rw [hpost.serveRegister_eq] at hres
    obtain ⟨handled, hhandled, hsent⟩ := Proc.result_bind_eq_some.mp hres
    rw [Proc.result_pure, Option.some.injEq, Option.some.injEq] at hsent
    rw [handlePOSTRegisterAccount] at hhandled
    obtain ⟨parsed, hparsed, hhandled⟩ := Proc.result_bind_eq_some.mp hhandled
    rw [Proc.result_read] at hparsed
    cases parsed with
    | none => exact Or.inl hparsed
    | some schema =>
        obtain ⟨payload, hpayload, hhandled⟩ := Proc.result_bind_eq_some.mp hhandled
        obtain ⟨result, hresult, hhandled⟩ := Proc.result_bind_eq_some.mp hhandled
        rw [Proc.after_read, Proc.after_read, makeNewUser] at hresult
        obtain ⟨registered, hregistered, hresult⟩ := Proc.result_bind_eq_some.mp hresult
        refine Or.inr ⟨payload, ?_, ?_⟩
        · rw [registerPayload, hparsed, Option.bind_eq_bind, Option.bind_some]
          exact hpayload
        · rw [Proc.result_read] at hregistered
          cases registered with
          | true => exact hregistered
          | false =>
              -- a new user is answered with the redirect
              have hsuccess : result.success = true := (createUser_finished hresult).1
              simp only [hsuccess, if_true, Proc.result_pure, Option.some.injEq] at hhandled
              rw [← hsent, ← hhandled] at hstatus
              exact absurd hstatus (by decide)
  · rintro (hparsed | ⟨payload, hpayload, hregistered⟩)
    · exact refused_of_performs hpost rfl
        (Proc.Performs.read_bind hparsed (Proc.performs_pure _ _))
    · rw [registerPayload, Option.bind_eq_bind, Option.bind_eq_some_iff] at hpayload
      obtain ⟨parsed, hparsed, hpayload⟩ := hpayload
      cases parsed with
      | none => simp at hpayload
      | some schema =>
          have hcall : (makeNewUser crypt callEnv payload).Performs d []
              (some ⟨BankUser.zero, false, lit "Could not create user. Email already exists"⟩) :=
            Proc.Performs.read_bind hregistered (Proc.performs_pure _ _)
          exact refused_of_performs hpost rfl <| Proc.Performs.read_bind hparsed <|
            Proc.Performs.read_bind hpayload <|
              Proc.Performs.bind hcall (Proc.performs_pure _ _)

/-! ### From the schema to the payload -/

/-- **The payload of a schema**, whatever its arrays hold: the copy of the name and the copy of
the email have to stay inside the payload, and the email, copied last, is what it reads. -/
theorem exists_userDto_iff {schema : Bytes} (hcpf : (cstrAt schema 200).length ≤ 46)
    (hpwd : (cstrAt schema 212).length ≤ 34) {P : Bytes → Prop} :
    (∃ payload, userDtoFromRegisterAccSchema schema = some payload ∧ P payload.email) ↔
      (cstrAt schema 0).length ≤ 146 ∧ (cstrAt schema 100).length ≤ 96 ∧
        P (cstrAt schema 100) := by
  have hread : ∀ {dto dto' : Bytes}, strcpy dto 50 (cstrAt schema 100) = some dto' →
      (readCreateUserDTO dto').email = cstrAt schema 100 := fun h =>
    (strcpy_hasStr (nulFree_cstr _) h).cstrAt_eq
  have hcopies : userDtoFromRegisterAccSchema schema =
      (strcpy (List.replicate createUserLayout.size 0) 100 (cstrAt schema 200)).bind fun dto =>
        (strcpy dto 0 (cstrAt schema 0)).bind fun dto =>
          (strcpy dto 112 (cstrAt schema 212)).bind fun dto =>
            (strcpy dto 50 (cstrAt schema 100)).bind fun dto => some (readCreateUserDTO dto) := by
    simp only [userDtoFromRegisterAccSchema, List.foldlM_cons, List.foldlM_nil,
      Option.bind_eq_bind, Option.pure_def, Option.bind_assoc, Option.bind_some]
    rfl
  have hzero : (List.replicate createUserLayout.size (0 : UInt8)).length = 147 :=
    List.length_replicate
  rw [hcopies]
  constructor
  · rintro ⟨payload, h, hP⟩
    obtain ⟨d₁, h₁, h⟩ := Option.bind_eq_some_iff.mp h
    obtain ⟨d₂, h₂, h⟩ := Option.bind_eq_some_iff.mp h
    obtain ⟨d₃, h₃, h⟩ := Option.bind_eq_some_iff.mp h
    obtain ⟨d₄, h₄, h⟩ := Option.bind_eq_some_iff.mp h
    obtain rfl := Option.some.inj h
    have hname := fits_of_strcpy h₂
    have hemail := fits_of_strcpy h₄
    rw [length_strcpy h₁, hzero] at hname
    rw [length_strcpy h₃, length_strcpy h₂, length_strcpy h₁, hzero] at hemail
    exact ⟨by omega, by omega, hread h₄ ▸ hP⟩
  · rintro ⟨hname, hemail, hP⟩
    have hcopy : ∀ (dto : Bytes) (off off' : ℕ), dto.length = 147 →
        off + (cstrAt schema off').length < 147 →
          ∃ dto', strcpy dto off (cstrAt schema off') = some dto' ∧ dto'.length = 147 := by
      intro dto off off' hdto hfits
      obtain ⟨dto', h⟩ := strcpy_of_fits (hdto ▸ hfits)
      exact ⟨dto', h, (length_strcpy h).trans hdto⟩
    obtain ⟨d₁, h₁, hlen₁⟩ := hcopy _ 100 200 hzero (by omega)
    obtain ⟨d₂, h₂, hlen₂⟩ := hcopy _ 0 0 hlen₁ (by omega)
    obtain ⟨d₃, h₃, hlen₃⟩ := hcopy _ 112 212 hlen₂ (by omega)
    obtain ⟨d₄, h₄, -⟩ := hcopy _ 50 100 hlen₃ (by omega)
    refine ⟨readCreateUserDTO d₄, ?_, ?_⟩
    · rw [h₁, Option.bind_some, h₂, Option.bind_some, h₃, Option.bind_some, h₄, Option.bind_some]
    · rw [hread h₄]
      exact hP

/-! ### From the body to the schema -/

/-- The schema a parser returns: the email is read as `values` has it, and so is the name, up to
the array of the email if it is longer than its own. -/
structure SchemaOf (schema : Bytes) (values : RegisterField → Bytes) : Prop where
  cpf : (cstrAt schema 200).length ≤ 46
  password : (cstrAt schema 212).length ≤ 34
  email : cstrAt schema 100 = values .email
  name : cstrAt schema 0 = if (values .name).length < 100 then values .name
    else (values .name).take 100 ++ values .email

variable {values : RegisterField → Bytes}

/-- The payload of such a schema. -/
theorem SchemaOf.exists_userDto_iff {schema : Bytes} (h : SchemaOf schema values)
    {P : Bytes → Prop} :
    (∃ payload, userDtoFromRegisterAccSchema schema = some payload ∧ P payload.email) ↔
      ((values .name).length < 100 ∨ (values .email).length ≤ 46) ∧
        (values .email).length ≤ 96 ∧ P (values .email) := by
  rw [CBank.exists_userDto_iff h.cpf h.password, h.email, h.name]
  refine and_congr_left fun _ => ?_
  split
  · rename_i hname
    exact iff_of_true (by omega) (Or.inl hname)
  · rename_i hname
    rw [List.length_append, List.length_take]
    omega

/-- The copies of a JSON parser: the name is copied before the email, over its array. -/
theorem schemaOf_storeAll (hnul : ∀ i, NulFree (values i)) {mem schema : Bytes}
    (hlen : mem.length = 247) (hzero : mem[246]? = some 0)
    (h : registerAccountSchema.storeAll mem
      ([RegisterField.cpf, .password, .name, .email].map fun i => ⟨i, values i⟩) = some schema) :
    SchemaOf schema values := by
  obtain ⟨s₁, h₁, h⟩ := Option.bind_eq_some_iff.mp h
  obtain ⟨s₂, h₂, h⟩ := Option.bind_eq_some_iff.mp h
  obtain ⟨s₃, h₃, h⟩ := Option.bind_eq_some_iff.mp h
  obtain ⟨s₄, h₄, h⟩ := Option.bind_eq_some_iff.mp h
  obtain rfl : s₄ = schema := Option.some.inj h
  have hlen₁ := (length_strcpy h₁).trans hlen
  have hlen₂ := (length_strcpy h₂).trans hlen₁
  have hlen₃ := (length_strcpy h₃).trans hlen₂
  have hlast : s₄[246]? = some 0 :=
    getElem?_last_strcpy h₄ hlen₃ <| getElem?_last_strcpy h₃ hlen₂ <|
      getElem?_last_strcpy h₂ hlen₁ <| getElem?_last_strcpy h₁ hlen hzero
  have hname : HasStr s₃ 0 (values .name) := strcpy_hasStr (hnul .name) h₃
  have hbound : ∀ off ≤ 246, (cstrAt s₄ off).length ≤ 246 - off :=
    fun off hoff => length_cstrAt_le hoff hlast
  refine ⟨hbound 200 (by norm_num), hbound 212 (by norm_num),
    (strcpy_hasStr (hnul .email) h₄).cstrAt_eq, ?_⟩
  split
  · rename_i hshort
    exact (hname.strcpy h₄ (Or.inl (by rw [zero_add]; exact hshort))).cstrAt_eq
  · rename_i hlong
    exact (hname.strcpy_over (hnul .email) h₄ (Nat.zero_le _)
      (by rw [zero_add]; exact not_lt.mp hlong)).cstrAt_eq

/-- The strings the schema of a registration gets: the members of a JSON body, or the last
parameter of each name, cut to its array and empty where there is none. -/
def SchemaStrings (enc : BodyEncoding) (req : HttpRequest) (values : RegisterField → Bytes) :
    Prop :=
  match enc with
  | .json => ∀ i, MemberText req.body i.key (values i)
  | .form => ∀ i, values i = (lastParam req.bodyQueryParams i.key).take
      ((registerAccountSchema.field i).size - 1)

/-- The strings stay inside the structures they are copied to. A name that has run into the email
is copied to the payload together with it. -/
structure PayloadFits (values : RegisterField → Bytes) : Prop where
  schema : ∀ i, (registerAccountSchema.field i).offset + (values i).length <
    registerAccountSchema.size
  email : (values .email).length ≤ 96
  name : (values .name).length < 100 ∨ (values .email).length ≤ 46

/-- Some member of a JSON body is not found. -/
def LacksMember (body : Bytes) : Prop := ∃ i : RegisterField, ∀ value, ¬ MemberText body i.key value

/-- The members that are copied from a JSON body end inside the schema. -/
def CopiesInside (body : Bytes) : Prop :=
  ∀ i value, JsonCopies RegisterField.key [.cpf, .password, .name, .email] body i value →
    (registerAccountSchema.field i).offset + value.length < registerAccountSchema.size

/-- The order of a JSON parser names every field. -/
theorem mem_jsonOrder (i : RegisterField) :
    i ∈ [RegisterField.cpf, .password, .name, .email] := by cases i <;> decide

/-- The check of a JSON parser at its end: every member was found. -/
theorem allFound_iff {body : Bytes} :
    ([RegisterField.cpf, .password, .name, .email].all fun i =>
      (strstr (lit "\"" ++ i.key) body).isSome ∧ (jsonField body i.key).isSome) = true ↔
    ¬ LacksMember body := by
  have hfound : ∀ i : RegisterField, (jsonField body i.key).isSome ↔
      ∃ value, MemberText body i.key value := fun i => by
    simp only [Option.isSome_iff_exists, jsonField_eq_some_iff]
  simp only [LacksMember, not_exists, not_forall, not_not, List.all_eq_true, decide_eq_true_eq,
    hfound]
  constructor
  · exact fun h i => (h i (mem_jsonOrder i)).2
  · intro h i _
    refine ⟨?_, h i⟩
    obtain ⟨value, hvalue⟩ := h i
    obtain ⟨token, htoken, -⟩ := Option.bind_eq_some_iff.mp (jsonField_eq_some_iff.mpr hvalue)
    rw [htoken]
    rfl

theorem copiesInside_iff {mem body : Bytes} (hlen : mem.length = registerAccountSchema.size) :
    (registerAccountSchema.storeAll mem (jsonSchemaWrites RegisterField.key
      [.cpf, .password, .name, .email] body)).isSome ↔ CopiesInside body := by
  rw [Layout.isSome_storeAll_iff hlen]
  simp only [mem_jsonSchemaWrites]
  exact ⟨fun h i value hcopies => h ⟨i, value⟩ hcopies, fun h w hcopies => h _ _ hcopies⟩

/-- The writes of a JSON body that has every member. -/
theorem jsonSchemaWrites_eq_map {body : Bytes} (h : ∀ i, MemberText body i.key (values i)) :
    jsonSchemaWrites RegisterField.key [.cpf, .password, .name, .email] body =
      [RegisterField.cpf, .password, .name, .email].map fun i => ⟨i, values i⟩ := by
  have hfield : ∀ i : RegisterField, jsonField body i.key = some (values i) :=
    fun i => jsonField_eq_some_iff.mpr (h i)
  have hnamed : ∀ i : RegisterField, (strstr (lit "\"" ++ i.key) body).isNone = false := by
    intro i
    obtain ⟨token, htoken, -⟩ := Option.bind_eq_some_iff.mp (hfield i)
    rw [htoken]
    rfl
  rw [jsonSchemaWrites, if_neg (by simp [hnamed])]
  simp only [jsonMemberWrites, hfield, List.map_cons, List.map_nil]

/-- The JSON parser of a registration returns false for a body that lacks a member. -/
theorem parse_json_of_lacks {req : HttpRequest} (h : LacksMember req.body) :
    BodyEncoding.json.parse registerAccountSchema RegisterField.key
        [.cpf, .password, .name, .email] [.cpf, .name, .email, .password] req =
      (registerAccountSchema.storeAll (List.replicate registerAccountSchema.size 0)
        (jsonSchemaWrites RegisterField.key [.cpf, .password, .name, .email] req.body)).map
          fun _ => none := by
  rw [BodyEncoding.parse, parseJsonSchema_eq_storeAll]
  simp only [if_neg fun hall => allFound_iff.mp hall h]

/-- It stores the members of one that has all of them. -/
theorem parse_json_of_members {req : HttpRequest}
    (h : ∀ i, MemberText req.body i.key (values i)) :
    BodyEncoding.json.parse registerAccountSchema RegisterField.key
        [.cpf, .password, .name, .email] [.cpf, .name, .email, .password] req =
      (registerAccountSchema.storeAll (List.replicate registerAccountSchema.size 0)
        ([RegisterField.cpf, .password, .name, .email].map fun i => ⟨i, values i⟩)).map some := by
  have hfound : ¬ LacksMember req.body := fun ⟨i, hlacks⟩ => hlacks _ (h i)
  rw [BodyEncoding.parse, parseJsonSchema_eq_storeAll, jsonSchemaWrites_eq_map h]
  simp only [if_pos (allFound_iff.mpr hfound)]

/-- A JSON body lacks a member, or has all of them. -/
theorem exists_members {body : Bytes} (h : ¬ LacksMember body) :
    ∃ values : RegisterField → Bytes, ∀ i, MemberText body i.key (values i) := by
  simp only [LacksMember, not_exists, not_forall, not_not] at h
  exact ⟨fun i => (h i).choose, fun i => (h i).choose_spec⟩

/-- **When a body is rejected by its parser**: a JSON body lacks a member, and the copies before
it end inside the schema. A form is never rejected. -/
theorem parseRegisterBody_eq_some_none_iff {path : Bytes} (hpost : PostRequest path enc req) :
    parseRegisterBody (decodedBody req) = some none ↔ enc = .json ∧
      LacksMember (decodedBody req).body ∧ CopiesInside (decodedBody req).body := by
  rw [hpost.parseRegisterBody_eq]
  cases enc with
  | form =>
      rw [BodyEncoding.parse, parseXwfUrlencodedSchema_eq_storeAll, Option.map_eq_some_iff]
      simp
  | json =>
      by_cases hlacks : LacksMember (decodedBody req).body
      · rw [parse_json_of_lacks hlacks, Option.map_eq_some_iff,
          ← @copiesInside_iff (List.replicate registerAccountSchema.size 0) _
            List.length_replicate, Option.isSome_iff_exists]
        simp [hlacks]
      · obtain ⟨values, hvalues⟩ := exists_members hlacks
        rw [parse_json_of_members hvalues, Option.map_eq_some_iff]
        simp [hlacks]

/-- A body whose strings are known has a payload when they stay inside the structures. -/
theorem exists_registerPayload_iff_of_parsed {parsed : Option Bytes}
    (hstrings : ∀ values', SchemaStrings enc (decodedBody req) values' ↔ values' = values)
    (hparsed : parseRegisterBody (decodedBody req) = parsed.map some)
    (hfits : parsed.isSome ↔ ∀ i, (registerAccountSchema.field i).offset + (values i).length <
      registerAccountSchema.size)
    (hschema : ∀ schema, parsed = some schema → SchemaOf schema values) {P : Bytes → Prop} :
    (∃ payload, registerPayload (decodedBody req) = some payload ∧ P payload.email) ↔
      ∃ values, SchemaStrings enc (decodedBody req) values ∧ PayloadFits values ∧
        P (values .email) := by
  simp only [hstrings, exists_eq_left]
  rw [registerPayload, hparsed]
  cases parsed with
  | none =>
      simp only [Option.isSome_none, Bool.false_eq_true, false_iff] at hfits
      exact iff_of_false (by simp) fun h => hfits h.1.schema
  | some schema =>
      rw [Option.map_some, Option.bind_eq_bind, Option.bind_some,
        (hschema schema rfl).exists_userDto_iff]
      constructor
      · exact fun h => ⟨⟨hfits.mp rfl, h.2.1, h.1⟩, h.2.2⟩
      · exact fun h => ⟨h.1.name, h.1.email, h.2⟩

/-- When a JSON body has a payload. -/
theorem exists_registerPayload_iff_json {path : Bytes} (hpost : PostRequest path .json req)
    (hbody : NulFree req.body) {P : Bytes → Prop} :
    (∃ payload, registerPayload (decodedBody req) = some payload ∧ P payload.email) ↔
      ∃ values, SchemaStrings .json (decodedBody req) values ∧ PayloadFits values ∧
        P (values .email) := by
  by_cases hlacks : LacksMember (decodedBody req).body
  · -- neither side: the parser returns false, and a member is missing
    refine iff_of_false ?_ ?_
    · rintro ⟨payload, hpayload, -⟩
      obtain ⟨parsed, hparsed, hpayload⟩ := Option.bind_eq_some_iff.mp hpayload
      rw [hpost.parseRegisterBody_eq, parse_json_of_lacks hlacks] at hparsed
      obtain ⟨-, -, rfl⟩ := Option.map_eq_some_iff.mp hparsed
      simp at hpayload
    · rintro ⟨values, hvalues, -⟩
      obtain ⟨i, hlacks⟩ := hlacks
      exact hlacks _ (hvalues i)
  · obtain ⟨values, hvalues⟩ := exists_members hlacks
    have hfield : ∀ i, jsonField (decodedBody req).body i.key = some (values i) :=
      fun i => jsonField_eq_some_iff.mpr (hvalues i)
    have hnul : ∀ i, NulFree (values i) := fun i hmem =>
      hbody ((cutByTokens_starts _ _).subset ((of_jsonField_eq_some (hfield i)).2 hmem))
    refine exists_registerPayload_iff_of_parsed (fun values' => ?_)
      (hpost.parseRegisterBody_eq.trans (parse_json_of_members hvalues)) ?_ fun schema h =>
        schemaOf_storeAll hnul List.length_replicate (by decide) h
    · constructor
      · intro h
        funext i
        exact Option.some.inj ((jsonField_eq_some_iff.mpr (h i)).symm.trans (hfield i))
      · rintro rfl
        exact hvalues
    · rw [Layout.isSome_storeAll_iff List.length_replicate, List.forall_mem_map]
      exact ⟨fun h i => h i (mem_jsonOrder i), fun h i _ => h i⟩

/-- When a form has a payload: its strings are cut to the arrays of the schema. -/
theorem exists_registerPayload_iff_form {path : Bytes} (hpost : PostRequest path .form req)
    {P : Bytes → Prop} :
    (∃ payload, registerPayload (decodedBody req) = some payload ∧ P payload.email) ↔
      ∃ values, SchemaStrings .form (decodedBody req) values ∧ PayloadFits values ∧
        P (values .email) := by
  have hparams : ∀ param ∈ (decodedBody req).bodyQueryParams, NulFree param.value := by
    intro param hparam
    rw [bodyQueryParams_decodedBody hpost.fresh] at hparam
    exact nulFree_of_mem_formParams (List.mem_of_mem_take hparam)
  have horder : ∀ i, i ∈ [RegisterField.cpf, .name, .email, .password] := fun i => by
    cases i <;> decide
  obtain ⟨schema, hparse, hholds⟩ := parseXwfUrlencodedSchema_holds registerAccountSchema
    RegisterField.key horder (decodedBody req) hparams
  have hstrings : ∀ values', SchemaStrings .form (decodedBody req) values' ↔ values' =
      fun i => (lastParam (decodedBody req).bodyQueryParams i.key).take
        ((registerAccountSchema.field i).size - 1) := fun values' => funext_iff.symm
  have hparsed : parseRegisterBody (decodedBody req) = (some schema).map some :=
    hpost.parseRegisterBody_eq.trans hparse
  refine exists_registerPayload_iff_of_parsed hstrings hparsed ?_ ?_
  · refine iff_of_true rfl fun i => ?_
    have hin := registerAccountSchema.within i
    have hlen := (hholds.value i).2
    omega
  · rintro _ ⟨⟩
    have hlen : ∀ i, (cstrAt schema (registerAccountSchema.field i).offset).length <
        (registerAccountSchema.field i).size := fun i => by
      rw [hholds.cstrAt i]
      exact (hholds.value i).2
    refine ⟨(hlen .cpf).le.trans (by decide), Nat.lt_succ_iff.mp (hlen .password),
      hholds.cstrAt .email, ?_⟩
    exact (hholds.cstrAt .name).trans (if_pos (hholds.value .name).2).symm

/-- **When a body has a payload**, and the email it carries. -/
theorem exists_registerPayload_iff {path : Bytes} (hpost : PostRequest path enc req)
    (hbody : NulFree req.body) {P : Bytes → Prop} :
    (∃ payload, registerPayload (decodedBody req) = some payload ∧ P payload.email) ↔
      ∃ values, SchemaStrings enc (decodedBody req) values ∧ PayloadFits values ∧
        P (values .email) := by
  cases enc with
  | json => exact exists_registerPayload_iff_json hpost hbody
  | form => exact exists_registerPayload_iff_form hpost

/-! ### When a registration is refused -/

/-- A JSON body that does not name a field is refused, whatever else it holds. -/
theorem refused_of_not_named (hpost : PostRequest (lit "/register") .json req)
    {i : RegisterField} (h : ¬ lit "\"" ++ i.key <:+: req.body) :
    Refused crypt callEnv env req d := by
  have hkept : ¬ lit "\"" ++ i.key <:+: (decodedBody req).body := fun hnamed =>
    h (hnamed.trans (cutByTokens_starts _ _).isInfix)
  refine (refused_iff hpost).mpr (Or.inl ?_)
  refine (parseRegisterBody_eq_some_none_iff hpost).mpr ⟨rfl, ⟨i, ?_⟩, ?_⟩
  · rintro value ⟨pre, space, post, ⟨hsplit, -⟩, -⟩
    exact hkept ⟨pre, _, hsplit.symm⟩
  · exact fun j value hcopies => absurd (hcopies.1 i (mem_jsonOrder i)) hkept

/-- **Incomplete registrations.** A POST to `/register`, whatever its body, is answered with 400
and leaves the stores as they are exactly when its body is a JSON text that lacks a member, and
the members copied before it end inside the schema, or when its strings, empty ones included,
stay inside the structures and their email is in the user table. -/
theorem incomplete_registration_refused_iff (hpost : PostRequest (lit "/register") enc req)
    (hbody : NulFree req.body) : Refused crypt callEnv env req d ↔
      (enc = .json ∧ LacksMember (decodedBody req).body ∧ CopiesInside (decodedBody req).body) ∨
      ∃ values, SchemaStrings enc (decodedBody req) values ∧ PayloadFits values ∧
        emailAlreadyRegistered (values .email) d = some true := by
  rw [refused_iff hpost, parseRegisterBody_eq_some_none_iff hpost,
    exists_registerPayload_iff (P := fun email => emailAlreadyRegistered email d = some true)
      hpost hbody]

/-- A registration with a name only. -/
def nameOnlyRegister : HttpRequest := formRequest (lit "/register") (lit "name=ann")

/-- The form with a name only, on a directory without users, is not refused. -/
theorem incomplete_registration_refused_nameOnly :
    ¬ Refused id sampleEnv (fun _ => sampleServer) nameOnlyRegister startedDisk := by
  intro hrefused
  rcases (incomplete_registration_refused_iff (postRequest_formRequest _ _) (by decide)).mp
    hrefused with ⟨hjson, -⟩ | ⟨values, -, -, hknown⟩
  · exact BodyEncoding.noConfusion hjson
  · have hnew : emailAlreadyRegistered (values .email) startedDisk = some false := rfl
    rw [hnew] at hknown
    exact Bool.noConfusion (Option.some.inj hknown)

/-- **A user without an email, a cpf and a password**: the form with a name only is answered with
the redirect, and the three stores change. -/
theorem name_only_registered :
    PostRequest (lit "/register") .form nameOnlyRegister ∧
    (∀ param ∈ formParams nameOnlyRegister.body, param.key = lit "name") ∧
    (∃ res, (serveRegister id sampleEnv (fun _ => sampleServer) nameOnlyRegister).result
      startedDisk = some (some res) ∧ res.statusCode = 302) ∧
    ∀ s ∈ [Store.user, .account, .idTracker],
      ((serveRegister id sampleEnv (fun _ => sampleServer) nameOnlyRegister).after
        startedDisk).table s ≠ startedDisk.table s := by
  refine ⟨postRequest_formRequest _ _, by decide +kernel, ?_, by decide +kernel⟩
  have hcode : ((serveRegister id sampleEnv (fun _ => sampleServer) nameOnlyRegister).result
      startedDisk).map (Option.map HttpResponse.statusCode) = some (some 302) := by
    decide +kernel
  obtain ⟨_, hres, hstatus⟩ := Option.map_eq_some_iff.mp hcode
  obtain ⟨res, rfl, hcode⟩ := Option.map_eq_some_iff.mp hstatus
  exact ⟨res, hres, hcode⟩

end CBank
