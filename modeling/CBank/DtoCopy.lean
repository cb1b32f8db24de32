import CBank.FieldWrites

/-!
# The Copy into the Payload

`user_dto_from_register_acc_schema` of `core/user.c` copies the four strings of a schema into a
`CreateUserDTO` with `strcpy`, in the order cpf, name, password, email. The name and the email have
100 bytes in the schema and 50 in the payload, so a longer one runs over its neighbour: a long
name is read on into the email, and a long email replaces the cpf that was copied before it.

## Main results

* `userDtoFromRegisterAccSchema_eq_storeAll`: the payload is its four copies and nothing else.
* `cpf_of_long_email`, `name_of_long_name`: what the payload holds after a copy ran over.
* `fieldsApart_iff`: for the schemas a form fills, when the copies keep the fields apart.
-/

namespace CBank

open CLib

/-! ### The copies -/

/-- The string of a field of a payload. -/
def CreateUserDTO.value (payload : CreateUserDTO) : RegisterField → Bytes
  | .name => payload.name
  | .email => payload.email
  | .cpf => payload.cpf
  | .password => payload.password

/-- The string of a field of a schema. -/
def schemaValue (schema : Bytes) (i : RegisterField) : Bytes :=
  cstrAt schema (registerAccountSchema.field i).offset

/-- The copies of `user_dto_from_register_acc_schema`, in order. -/
def dtoWrites (schema : Bytes) : List (FieldWrite RegisterField) :=
  [.cpf, .name, .password, .email].map fun i => ⟨i, schemaValue schema i⟩

/-- **The payload is its four copies** into a zeroed structure. -/
theorem userDtoFromRegisterAccSchema_eq_storeAll (schema : Bytes) :
    userDtoFromRegisterAccSchema schema =
      (createUserLayout.storeAll (List.replicate createUserLayout.size 0)
        (dtoWrites schema)).map readCreateUserDTO := by
  rw [userDtoFromRegisterAccSchema, Layout.storeAll, dtoWrites, List.foldlM_map,
    Option.bind_eq_bind]
  exact (Option.map_eq_bind ..).symm

/-- The payload has the strings of the schema, and every copy stays in its own array. -/
def FieldsApart (schema : Bytes) : Prop :=
  (∃ payload, userDtoFromRegisterAccSchema schema = some payload ∧
    ∀ i, payload.value i = schemaValue schema i) ∧
  ∀ w ∈ dtoWrites schema, createUserLayout.Within w

/-! ### Copies that run over -/

variable {schema : Bytes} {payload : CreateUserDTO}

/-- The last copies of a payload: the password, then the email. -/
theorem exists_last_copies (h : userDtoFromRegisterAccSchema schema = some payload) :
    ∃ named dto dto', HasStr named 0 (schemaValue schema .name) ∧
      strcpy named 112 (schemaValue schema .password) = some dto ∧
      strcpy dto 50 (schemaValue schema .email) = some dto' ∧ payload = readCreateUserDTO dto' := by
  rw [userDtoFromRegisterAccSchema_eq_storeAll] at h
  obtain ⟨dto', hcopies, rfl⟩ := Option.map_eq_some_iff.mp h
  generalize List.replicate createUserLayout.size (0 : UInt8) = zeroed at hcopies
  obtain ⟨dto₁, -, hcopies⟩ := Option.bind_eq_some_iff.mp hcopies
  obtain ⟨dto₂, hname, hcopies⟩ := Option.bind_eq_some_iff.mp hcopies
  obtain ⟨dto₃, hpassword, hcopies⟩ := Option.bind_eq_some_iff.mp hcopies
  obtain ⟨dto₄, hemail, hcopies⟩ := Option.bind_eq_some_iff.mp hcopies
  obtain rfl := Option.some.inj hcopies
  exact ⟨dto₂, dto₃, dto₄, strcpy_hasStr (nulFree_cstr _) hname, hpassword, hemail, rfl⟩

/-- **A long email replaces the cpf**: what is left of it after 50 bytes is the login identity of
the payload. -/
theorem cpf_of_long_email (h : userDtoFromRegisterAccSchema schema = some payload)
    (hlong : 50 ≤ (schemaValue schema .email).length) :
    payload.cpf = (schemaValue schema .email).drop 50 := by
  obtain ⟨-, dto, dto', -, -, hemail, rfl⟩ := exists_last_copies h
  exact ((strcpy_hasStr (nulFree_cstr _) hemail).drop hlong).cstrAt_eq

/-- **A long name is read on into the email.** -/
theorem name_of_long_name (h : userDtoFromRegisterAccSchema schema = some payload)
    (hlong : 50 ≤ (schemaValue schema .name).length)
    (hfits : (schemaValue schema .name).length < 112) :
    payload.name = (schemaValue schema .name).take 50 ++ schemaValue schema .email := by
  obtain ⟨named, dto, dto', hname, hpassword, hemail, rfl⟩ := exists_last_copies h
  have hkept := hname.strcpy hpassword (Or.inl (by omega))
  exact (hkept.strcpy_over (nulFree_cstr _) hemail (Nat.zero_le _) (by omega)).cstrAt_eq

/-! ### The schemas of a form -/

/-- The order of the form parser names every field. -/
theorem mem_formOrder (i : RegisterField) :
    i ∈ [RegisterField.cpf, .name, .email, .password] := by cases i <;> decide

/-- **Fields kept apart.** For every form, its schema is copied into a payload with the same four
strings, each copy within its own array, exactly when the name and the email it submits have at
most 49 bytes. The cpf and the password were cut to arrays of the same size. -/
theorem fieldsApart_iff {req : HttpRequest}
    (hnul : ∀ param ∈ req.bodyQueryParams, NulFree param.value)
    (h : parseRegisterAccXwfUrlencodedSchema req (List.replicate registerAccountSchema.size 0) =
      some (some schema)) :
    FieldsApart schema ↔ (lastParam req.bodyQueryParams (lit "name")).length ≤ 49 ∧
      (lastParam req.bodyQueryParams (lit "email")).length ≤ 49 := by
  obtain ⟨schema', hparse, hholds⟩ := parseXwfUrlencodedSchema_holds registerAccountSchema
    RegisterField.key mem_formOrder req hnul
  obtain rfl : schema' = schema :=
    Option.some.inj (Option.some.inj (hparse.symm.trans h))
  have hvalue : ∀ i, schemaValue schema' i =
      (lastParam req.bodyQueryParams i.key).take ((registerAccountSchema.field i).size - 1) :=
    hholds.cstrAt
  have hname := congrArg List.length (hvalue .name)
  have hemail := congrArg List.length (hvalue .email)
  have hcpf := congrArg List.length (hvalue .cpf)
  have hpassword := congrArg List.length (hvalue .password)
  simp only [List.length_take, registerAccountSchema, RegisterField.key]
    at hname hemail hcpf hpassword
  constructor
  · rintro ⟨-, hwithin⟩
    have hname' := hwithin ⟨.name, schemaValue schema' .name⟩ (by simp [dtoWrites])
    have hemail' := hwithin ⟨.email, schemaValue schema' .email⟩ (by simp [dtoWrites])
    simp only [Layout.Within, FieldWrite.size, createUserLayout] at hname' hemail'
    omega
  · rintro ⟨hshort, hshort'⟩
    have hfits : ∀ i, (schemaValue schema' i).length < (createUserLayout.field i).size := by
      intro i
      cases i with
      | name => exact lt_of_eq_of_lt hname (by simp only [createUserLayout]; omega)
      | email => exact lt_of_eq_of_lt hemail (by simp only [createUserLayout]; omega)
      | cpf => exact lt_of_eq_of_lt hcpf (by simp only [createUserLayout]; omega)
      | password => exact lt_of_eq_of_lt hpassword (by simp only [createUserLayout]; omega)
    refine ⟨⟨_, userDtoFromRegisterAccSchema_eq hholds fun i => hvalue i ▸ hfits i, ?_⟩, ?_⟩
    · intro i
      rw [hvalue i]
      cases i <;> rfl
    · intro w hw
      obtain ⟨i, -, rfl⟩ := List.mem_map.mp hw
      exact hfits i

/-- A form with a name, an email, a cpf and a password. -/
def registerForm (name email cpf password : Bytes) : HttpRequest where
  method := lit "POST"
  path := lit "/register"
  version := lit "HTTP/1.1"
  headers := [⟨lit "Content-Type", lit "application/x-www-form-urlencoded"⟩]
  body := []
  authenticatedJwt := JwtData.zero
  bodyQueryParams := [⟨lit "name", name⟩, ⟨lit "email", email⟩, ⟨lit "cpf", cpf⟩,
    ⟨lit "password", password⟩]
  urlQueryParams := []
  cookies := []

/-- The schema of Ann's form. -/
theorem fieldsApart_ann :
    ∃ schema, parseRegisterAccXwfUrlencodedSchema
        (registerForm (lit "ann") (lit "ann@x") (lit "1") (lit "secret"))
        (List.replicate registerAccountSchema.size 0) = some (some schema) ∧
      (FieldsApart schema ↔ (lit "ann").length ≤ 49 ∧ (lit "ann@x").length ≤ 49) := by
  obtain ⟨schema, hparse, -⟩ := parseXwfUrlencodedSchema_holds registerAccountSchema
    RegisterField.key mem_formOrder
    (registerForm (lit "ann") (lit "ann@x") (lit "1") (lit "secret")) (by decide)
  exact ⟨schema, hparse, fieldsApart_iff (by decide) hparse⟩

/-- The form of a user whose email ends in the cpf of somebody else. -/
def longEmailForm : HttpRequest :=
  registerForm (lit "eve") (List.replicate 50 (ch 'e') ++ lit "11122233344") (lit "00000000000")
    (lit "secret")

/-- **An email that replaces the cpf**: the schema has the cpf that was submitted, and the payload
the one the email ends in. -/
theorem fieldsApart_long_email :
    ∃ schema payload, parseRegisterAccXwfUrlencodedSchema longEmailForm
        (List.replicate registerAccountSchema.size 0) = some (some schema) ∧
      userDtoFromRegisterAccSchema schema = some payload ∧
      schemaValue schema .cpf = lit "00000000000" ∧ payload.cpf = lit "11122233344" ∧
      ¬ FieldsApart schema := by
  have hrun : ((parseRegisterAccXwfUrlencodedSchema longEmailForm
      (List.replicate registerAccountSchema.size 0)).bind fun parsed => parsed.bind fun schema =>
        (userDtoFromRegisterAccSchema schema).map fun payload =>
          (schemaValue schema .cpf, payload.cpf)) =
      some (lit "00000000000", lit "11122233344") := by decide +kernel
  obtain ⟨_, hparse, hfilled⟩ := Option.bind_eq_some_iff.mp hrun
  obtain ⟨schema, rfl, hcopied⟩ := Option.bind_eq_some_iff.mp hfilled
  obtain ⟨payload, hpayload, hcpf⟩ := Option.map_eq_some_iff.mp hcopied
  obtain ⟨hsubmitted, hreplaced⟩ := Prod.mk.inj hcpf
  refine ⟨schema, payload, hparse, hpayload, hsubmitted, hreplaced, ?_⟩
  rintro ⟨⟨payload', hpayload', hvalue⟩, -⟩
  obtain rfl : payload = payload' := Option.some.inj (hpayload.symm.trans hpayload')
  have hsame : payload.cpf = schemaValue schema .cpf := hvalue .cpf
  rw [hsubmitted, hreplaced] at hsame
  exact absurd hsame (by decide)

end CBank
