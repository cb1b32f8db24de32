import CBank.ClientRequests
import CBank.CustomerSessions
import CBank.EncodingsAgree

/-!
# Registering and Logging In from Outside

What the server makes of the forms clients send it, from the bytes on: the fields of a form come
back from its request, a form of a registration makes a customer, and a form with the cpf and the
password of the customer logs in, whoever else registers in between. The parameters of a form may
stand in any order, under any encoding, and among others.

## Main results

* `FormPost.submitted_eq`: the fields the server finds in a form.
* `registered_client_logs_in`: a registration and a login of one run.
-/

namespace CBank

open CLib

/-! ### Forms -/

/-- A request that posts a form with some parameters. -/
structure FormPost (r : ClientRequest) (path : Bytes) (params : List QueryParam) : Prop where
  method : r.method = lit "POST"
  path : r.path = path
  typed : (sentHeader r.headers .contentType).map bodyEncoding = some .form
  pairs : ∀ param ∈ params, FormPair [ch '&', ch ';'] param
  few : params.length ≤ maxParams
  body : ∃ texts, List.Forall₂ (EncodedPair [ch '&', ch ';']) params texts ∧
    r.body = [ch '&'].intercalate texts

variable {r : ClientRequest} {path : Bytes} {params : List QueryParam} {scratch : LineScratch}

/-- The parameters are found in the body. -/
theorem FormPost.formParams_eq (h : FormPost r path params) : formParams r.body = params := by
  obtain ⟨texts, htexts, hbody⟩ := h.body
  rw [formParams, hbody, tokens_joined delimiters_body h.pairs htexts,
    filterMap_formParam h.pairs htexts]

/-- The request as its handler knows it. -/
theorem FormPost.postRequest (h : FormPost r path params) (scratch : LineScratch) :
    PostRequest path .form (r.parsed scratch) where
  method := h.method
  path := h.path
  encoding := by
    have hheader : getHeader (r.parsed scratch) .contentType = sentHeader r.headers .contentType :=
      sentHeader_cutCookieHeader (by decide) r.headers
    rw [hheader, h.typed]
  fresh := rfl

theorem FormPost.intact (h : FormPost r path params) : BodyEncoding.form.Intact r.body := by
  rw [BodyEncoding.Intact, h.formParams_eq]
  exact h.few

/-- **The fields of a form**: each by its last parameter. -/
theorem FormPost.submitted_eq (h : FormPost r path params) (field : Bytes) :
    BodyEncoding.form.submitted r.body field = lastParam params field := by
  rw [BodyEncoding.submitted, h.formParams_eq]

/-- The payload of a form of a registration: the cpf is cut to its array. -/
def formPayload (params : List QueryParam) : CreateUserDTO :=
  ⟨lastParam params (lit "name"), lastParam params (lit "email"),
    (lastParam params (lit "cpf")).take 11, lastParam params (lit "password")⟩

/-- The fields fit their arrays, and the limit of the login on passwords. -/
structure FormFits (params : List QueryParam) : Prop where
  name : (lastParam params (lit "name")).length < 50
  email : (lastParam params (lit "email")).length < 50
  password : (lastParam params (lit "password")).length ≤ 6

theorem FormPost.fieldsFit (h : FormPost r path params) (hfits : FormFits params) :
    FieldsFit .form r.body where
  name := h.submitted_eq _ ▸ hfits.name
  email := h.submitted_eq _ ▸ hfits.email
  cpf := nofun
  password := h.submitted_eq _ ▸ hfits.password

/-- A form always makes a payload, when its fields fit. -/
theorem isSome_registerPayload {req : HttpRequest} (hpost : PostRequest path .form req)
    (hintact : BodyEncoding.form.Intact req.body) (hfits : FieldsFit .form req.body) :
    (registerPayload (decodedBody req)).isSome := by
  obtain ⟨schema, hparse, hholds⟩ := BodyEncoding.form.parse_holds registerAccountSchema
    RegisterField.key [.cpf, .password, .name, .email] [.cpf, .name, .email, .password]
    (by rintro (_ | _) <;> decide) (by rintro (_ | _) <;> decide) hpost.fresh hintact nofun
  have hdto := userDtoFromRegisterAccSchema_eq hholds (by
    intro i
    cases i with
    | name => exact (List.length_take_le' _ _).trans_lt hfits.name
    | email => exact (List.length_take_le' _ _).trans_lt hfits.email
    | cpf => exact (List.length_take_le _ _).trans_lt (by decide)
    | password => exact (List.length_take_le _ _).trans_lt (by decide))
  rw [registerPayload, hpost.parseRegisterBody_eq, hparse, Option.bind_eq_bind, Option.bind_some]
  simp only [hdto, Option.isSome_some]

/-- The payload is that of the form. -/
theorem FormPost.payload_eq (h : FormPost r path params) (hfits : FormFits params)
    {payload : CreateUserDTO}
    (hpayload : registerPayload (decodedBody (r.parsed scratch)) = some payload) :
    payload = formPayload params := by
  rw [registerPayload_eq (h.postRequest scratch) h.intact (h.fieldsFit hfits) hpayload]
  have hsubmitted : ∀ field, BodyEncoding.form.submitted (r.parsed scratch).body field =
      lastParam params field := h.submitted_eq
  simp only [hsubmitted, formPayload]

/-- **The payload a pass registers** for the form of a client. -/
theorem FormPost.registration_eq {e : PassEnv} (h : FormPost r (lit "/register") params)
    (hfits : FormFits params)
    (hends : ScanEnds isBlank 4 (r.line ++ staleBytes e.lineScratch r.line)) :
    registration e r.received = some (formPayload params) := by
  have hpost := h.postRequest e.lineScratch
  obtain ⟨payload, hpayload⟩ := Option.isSome_iff_exists.mp
    (isSome_registerPayload hpost h.intact (h.fieldsFit hfits))
  have hcalled : calledHandler e r.received =
      some (.handleRegisterAccount, decodedBody (r.parsed e.lineScratch)) := by
    rw [calledHandler, ClientRequest.parseRequest_eq hends, Option.bind_eq_bind, Option.bind_some,
      hpost.startPass_register]
  have hmethod : (decodedBody (r.parsed e.lineScratch)).method = lit "POST" := h.method
  rw [registration, hcalled, Option.bind_eq_bind, Option.bind_some]
  simp only [hmethod, and_self, if_true, hpayload, h.payload_eq hfits hpayload]

/-! ### Ann's forms -/

/-- The headers of a form of some length. -/
def formHeaders (length : ℕ) : List HttpHeader :=
  [⟨lit "Content-Type", lit "application/x-www-form-urlencoded"⟩,
    ⟨lit "Content-Length", printNat length⟩]

theorem wellFormed_formHeaders {length : ℕ} (h : length < 16000) :
    ∀ header ∈ formHeaders length, WellFormedHeader header := by
  have hdigits : ∀ c, isDigit c = false → c ∉ printNat length := fun _ =>
    not_mem_of_isDigit fun _ => isDigit_of_mem_printNat
  have hshort : (printNat length).length ≤ 5 := length_printNat_le (by decide) (by omega)
  have hkey : lit "Content-Length" ≠ [] ∧ (lit "Content-Length").length ≤ 127 ∧
      ∀ c ∈ lit "Content-Length", c ≠ ch ':' ∧ c ≠ 13 ∧ c ≠ newline := by decide +kernel
  simp only [formHeaders, List.mem_cons, List.not_mem_nil, or_false, forall_eq_or_imp, forall_eq]
  refine ⟨by constructor <;> decide +kernel,
    ⟨hkey.1, hkey.2.1, hkey.2.2, hshort.trans (by decide), fun c hc => ⟨?_, ?_⟩, fun hhead => ?_⟩⟩
  · exact ne_of_mem_of_not_mem hc (hdigits _ (by decide))
  · exact ne_of_mem_of_not_mem hc (hdigits _ (by decide))
  · exact hdigits _ (by decide) (List.mem_of_head? hhead)

/-- The form of a registration, as Ann sends it. -/
def annRegisterClient : ClientRequest where
  method := lit "POST"
  path := lit "/register"
  version := lit "HTTP/1.1"
  headers := formHeaders 42
  cookies := []
  body := lit "name=ann&email=ann@x&cpf=1&password=secret"
  words := by decide +kernel
  short := by decide +kernel
  wellFormed := wellFormed_formHeaders (by decide)
  nulFree := by decide +kernel
  count := by decide
  cookiesWellFormed := by simp
  fewCookies := by decide
  cookieHeader := by decide +kernel
  contentLength := by decide +kernel
  room := by decide +kernel

/-- The form of a login. -/
def annLoginClient : ClientRequest where
  method := lit "POST"
  path := lit "/login"
  version := lit "HTTP/1.1"
  headers := formHeaders 21
  cookies := []
  body := lit "cpf=1&password=secret"
  words := by decide +kernel
  short := by decide +kernel
  wellFormed := wellFormed_formHeaders (by decide)
  nulFree := by decide +kernel
  count := by decide
  cookiesWellFormed := by simp
  fewCookies := by decide
  cookieHeader := by decide +kernel
  contentLength := by decide +kernel
  room := by decide +kernel

/-- The parameters of a login. -/
def annLoginParams : List QueryParam :=
  [⟨lit "cpf", lit "1"⟩, ⟨lit "password", lit "secret"⟩]

/-- The parameters of a registration. -/
def annRegisterParams : List QueryParam :=
  [⟨lit "name", lit "ann"⟩, ⟨lit "email", lit "ann@x"⟩] ++ annLoginParams

/-- A plain pair stands for itself. -/
theorem encodedPair_self {param : QueryParam} (h : ∀ c ∈ param.value, isReserved c = false) :
    EncodedPair [ch '&', ch ';'] param (param.key ++ ch '=' :: param.value) :=
  ⟨_, (percentEncoded_self h).urlEncoded, rfl⟩

/-- Plain pairs make a form. -/
theorem formPost_of_plain {r : ClientRequest} {path : Bytes} {params : List QueryParam}
    (hmethod : r.method = lit "POST") (hpath : r.path = path)
    (htyped : (sentHeader r.headers .contentType).map bodyEncoding = some .form)
    (hparams : ∀ param ∈ params, param.key ≠ [] ∧
      (∀ c ∈ param.key, c ≠ ch '=' ∧ c ≠ 0 ∧ c ∉ [ch '&', ch ';']) ∧ NulFree param.value ∧
        ∀ c ∈ param.value, isReserved c = false) (hfew : params.length ≤ maxParams)
    (hbody : r.body = [ch '&'].intercalate (params.map fun param =>
      param.key ++ ch '=' :: param.value)) : FormPost r path params where
  method := hmethod
  path := hpath
  typed := htyped
  pairs := fun param hparam => ⟨(hparams param hparam).1, (hparams param hparam).2.1,
    (hparams param hparam).2.2.1⟩
  few := hfew
  body := by
    refine ⟨_, ?_, hbody⟩
    rw [List.forall₂_map_right_iff, List.forall₂_same]
    exact fun param hparam => encodedPair_self (hparams param hparam).2.2.2

theorem formPost_annRegister : FormPost annRegisterClient (lit "/register") annRegisterParams :=
  formPost_of_plain rfl rfl (by decide +kernel) (by decide +kernel) (by decide) (by decide +kernel)

theorem formPost_annLogin : FormPost annLoginClient (lit "/login") annLoginParams :=
  formPost_of_plain rfl rfl (by decide +kernel) (by decide +kernel) (by decide) (by decide +kernel)

/-- What was called before her registration. -/
def beforeAnn : List Served := (servedAll Disk.empty annEvents).take 2

/-- Her registration. -/
def annServed : Served := (ServerEvent.serve annEnv annPost).served startedDisk

theorem servedAll_ann : servedAll Disk.empty annEvents = beforeAnn ++ annServed :: [] := by
  have hafter : (ServerEvent.serve annEnv strayRequest).proc.after startedDisk = startedDisk :=
    after_strayRequest startedDisk
  have hlast : (ServerEvent.serve annEnv annPost).served
      ((ServerEvent.serve annEnv strayRequest).proc.after startedDisk) = annServed := by
    rw [hafter, annServed]
  rw [← hlast]
  rfl

theorem received_annRegister : annRegisterClient.received = annPost :=
  Subtype.ext (by decide +kernel)

/-- Nobody is a customer before her. -/
theorem enrolled_beforeAnn : enrolled id beforeAnn = [] := by
  have hnone : requests id beforeAnn = [] := by decide +kernel
  rw [enrolled, hnone]
  rfl

/-! ### A registration and a login -/

variable {crypt : Bytes → Bytes} {d : Disk}

/-- The customers of a run with an accepted registration in it. -/
theorem enrolled_of_redirected {before after : List Served} {served : Served} {c : Customer}
    (hc : served.event.customer crypt = some c) (hnew : redirected served = true) :
    enrolled crypt (before ++ served :: after) =
      enrolled crypt before ++ c :: enrolled crypt after := by
  have hone : enrolled crypt [served] = [c] := by
    rw [enrolled, requests, List.filterMap_cons_some (by rw [hc]; rfl), List.filterMap_nil, hnew]
    rfl
  rw [List.append_cons, enrolled_append, enrolled_append, hone, List.append_assoc,
    List.singleton_append]

/-- A login for a customer whose cpf no customer before has. -/
theorem Bank.login_of_first {b : Bank} {before after : List Customer} {c : Customer}
    (hb : b.customers = before ++ c :: after) (hfirst : ∀ c' ∈ before, c'.cpf ≠ c.cpf) :
    b.login c.cpf c.pwdHash = some (before.length, c) := by
  refine Bank.login_eq_some.mpr ⟨?_, rfl⟩
  rw [hb, List.zipIdx_append, List.zipIdx_cons, Nat.zero_add, List.find?_append,
    List.find?_eq_none.mpr, Option.none_or, List.find?_cons_of_pos (by simp)]
  rintro ⟨c', n⟩ hmem
  simpa using hfirst c' (List.fst_mem_of_mem_zipIdx hmem)

/-- **Who registers can log in.** In a run of safe requests that is never stopped, a client posts
the form of a registration and gets the redirect. Nobody before has the cpf. After any further
requests, a form with the same cpf and password is answered with the redirect and the token of that
customer: the number of those who registered before, and the name of the form. -/
theorem registered_client_logs_in {before after : List Served} {served : Served}
    (h : ServerRun crypt (safeRequest crypt) neverStopped (before ++ served :: after) d)
    (hcount : (registered (before ++ served :: after) : ℤ) < intMax)
    (hreadable : ReadableCustomers (enrolled crypt (before ++ served :: after)))
    {e : PassEnv} (hregister : FormPost r (lit "/register") params) (hfits : FormFits params)
    (hends : ScanEnds isBlank 4 (r.line ++ staleBytes e.lineScratch r.line))
    (hevent : served.event = .serve e r.received) (hnew : redirected served = true)
    (hfirst : ∀ c ∈ enrolled crypt before, c.cpf ≠ (formPayload params).cpf)
    {e' : PassEnv} {r' : ClientRequest} {params' : List QueryParam} {secret : Bytes}
    (hlogin : FormPost r' (lit "/login") params')
    (hcpf : lastParam params' (lit "cpf") = lastParam params (lit "cpf"))
    (hpassword : lastParam params' (lit "password") = lastParam params (lit "password"))
    (hends' : ScanEnds isBlank 4 (r'.line ++ staleBytes e'.lineScratch r'.line))
    (hcrypt : e'.handlerEnv.crypt = crypt)
    (hsecret : getEnv e'.handlerEnv.env (lit "JWT_SECRET") = some secret) :
    (passResponses e' r'.received).result d = some [loginAnswer e'.handlerEnv.env secret
      (some ((enrolled crypt before).length,
        customerOf crypt e.handlerEnv.callEnv (formPayload params)))] := by
  have hcustomer : served.event.customer crypt =
      some (customerOf crypt e.handlerEnv.callEnv (formPayload params)) := by
    rw [hevent, ServerEvent.customer, hregister.registration_eq hfits hends, Option.map_some]
  have henrolled : enrolled crypt (before ++ served :: after) = enrolled crypt before ++
      customerOf crypt e.handlerEnv.callEnv (formPayload params) :: enrolled crypt after :=
    enrolled_of_redirected hcustomer hnew
  obtain ⟨b, hcustomers, hkeeps⟩ := h.exists_bank hcount
  rw [henrolled] at hcustomers hreadable
  have hne : b.customers ≠ [] := by rw [hcustomers]; simp
  -- the schema of the login holds what the registration stored
  obtain ⟨payload, hpayload⟩ := Option.isSome_iff_exists.mp (isSome_registerPayload
    (hregister.postRequest e.lineScratch) hregister.intact (hregister.fieldsFit hfits))
  obtain ⟨schema, hbody, hvalid, hcpfAt, hpasswordAt⟩ := loginSchema_eq
    (hregister.postRequest e.lineScratch) hregister.intact (hregister.fieldsFit hfits) hpayload
    (hlogin.postRequest e'.lineScratch) hlogin.intact
    ((hlogin.submitted_eq _).trans (hcpf.trans (hregister.submitted_eq _).symm))
    ((hlogin.submitted_eq _).trans (hpassword.trans (hregister.submitted_eq _).symm))
  rw [hregister.payload_eq hfits hpayload] at hcpfAt hpasswordAt
  have hbank : b.login (formPayload params).cpf (crypt (formPayload params).password) =
      some ((enrolled crypt before).length,
        customerOf crypt e.handlerEnv.callEnv (formPayload params)) :=
    Bank.login_of_first hcustomers hfirst
  rw [result_passResponses_login (ClientRequest.parseRequest_eq hends') hlogin.method hlogin.path,
    hcrypt, handlePOSTLogin_eq (hcustomers ▸ hreadable) (hkeeps.tables hne).1 hbody hvalid hsecret,
    hcpfAt, hpasswordAt, hbank]

/-- She logs in with the form she sends. -/
theorem registered_client_logs_in_ann :
    (passResponses loginEnv annLoginClient.received).result (diskAfter Disk.empty annEvents) =
      some [loginAnswer loginEnv.handlerEnv.env (lit "k") (some ((enrolled id beforeAnn).length,
        customerOf id annEnv.handlerEnv.callEnv (formPayload annRegisterParams)))] := by
  have hrun := serverRun_ann_safe
  have hcount := registered_ann_lt
  have henrolled := enrolled_ann
  rw [servedAll_ann] at hrun hcount henrolled
  exact registered_client_logs_in hrun hcount (henrolled.symm ▸ readableCustomers_ann)
    formPost_annRegister ⟨by decide, by decide, by decide⟩ (Or.inl (by decide +kernel))
    (congrArg (ServerEvent.serve annEnv) received_annRegister.symm) (by decide +kernel)
    (by rw [enrolled_beforeAnn]; simp) formPost_annLogin rfl rfl (Or.inl (by decide +kernel)) rfl
    (by decide +kernel)

end CBank
