import CBank.Handlers
import CBank.Login

/-!
# Registration and Login

A user who was told that the account was created logs in with the same cpf and password, when
the strings submitted pass both pipelines unchanged: the two body parsers, the copy to the
payload, the row of the user table and its scanner, and the limits of the login.

## Main results

* `registerPayload_eq`, `loginSchema_eq`: what the two handlers make of the same strings.
* `Session.login_eq`: what `login` returns for a cpf that only one registration has.
* `login_after_register`: a login after an accepted registration is answered with a token for
  the user it created.
* `login_locked_out`: a password of seven bytes registers, and never logs in.
-/

namespace CBank

open CLib

/-! ### The two bodies -/

/-- The strings of a registration fit the arrays of its payload, and the limit of the login on
passwords. -/
structure FieldsFit (enc : BodyEncoding) (body : Bytes) : Prop where
  name : (enc.submitted body (lit "name")).length < 50
  email : (enc.submitted body (lit "email")).length < 50
  cpf : enc = .json → (enc.submitted body (lit "cpf")).length < 12
  password : (enc.submitted body (lit "password")).length ≤ 6

variable {enc : BodyEncoding} {req : HttpRequest} {path : Bytes}

/-- A JSON registration that is parsed submits every string. -/
theorem submitted_ne_nil (hpost : PostRequest path enc req) (hintact : enc.Intact req.body)
    {payload : CreateUserDTO} (h : registerPayload (decodedBody req) = some payload)
    (henc : enc = .json) (i : RegisterField) : enc.submitted req.body i.key ≠ [] := by
  subst henc
  obtain ⟨parsed, hparsed, h⟩ := Option.bind_eq_some_iff.mp h
  cases parsed with
  | none => simp at h
  | some schema =>
      rw [hpost.parseRegisterBody_eq] at hparsed
      have hbody : (decodedBody req).body = req.body := cutByTokens_of_intact hintact
      have hmem : i ∈ [RegisterField.cpf, .password, .name, .email] := by cases i <;> decide
      have hfield := isSome_of_parseJsonSchema hparsed i hmem
      rw [hbody] at hfield
      obtain ⟨value, hvalue⟩ := Option.isSome_iff_exists.mp hfield
      rw [BodyEncoding.submitted, hvalue]
      exact (of_jsonField_eq_some hvalue).1

/-- **The payload of a registration**: the strings submitted, the cpf cut to its array. -/
theorem registerPayload_eq (hpost : PostRequest path enc req) (hintact : enc.Intact req.body)
    (hfits : FieldsFit enc req.body) {payload : CreateUserDTO}
    (h : registerPayload (decodedBody req) = some payload) :
    payload = ⟨enc.submitted req.body (lit "name"), enc.submitted req.body (lit "email"),
      (enc.submitted req.body (lit "cpf")).take 11, enc.submitted req.body (lit "password")⟩ := by
  have hjson : enc = .json → ∀ i : RegisterField, enc.submitted req.body i.key ≠ [] ∧
      (enc.submitted req.body i.key).length < (registerAccountSchema.field i).size := by
    intro henc i
    refine ⟨submitted_ne_nil hpost hintact h henc i, ?_⟩
    cases i with
    | name => exact hfits.name.trans (by decide)
    | email => exact hfits.email.trans (by decide)
    | cpf => exact hfits.cpf henc
    | password => exact hfits.password.trans_lt (by decide)
  obtain ⟨schema, hparse, hholds⟩ := enc.parse_holds registerAccountSchema RegisterField.key
    [.cpf, .password, .name, .email] [.cpf, .name, .email, .password]
    (by rintro (_ | _) <;> decide) (by rintro (_ | _) <;> decide) hpost.fresh hintact hjson
  rw [registerPayload, hpost.parseRegisterBody_eq, hparse, Option.bind_eq_bind,
    Option.bind_some] at h
  have hwhole : ∀ {s : Bytes} {n : ℕ}, s.length ≤ n → s.take n = s := List.take_of_length_le
  have hname := hwhole (hfits.name.le.trans (by norm_num : 50 ≤ 99))
  have hemail := hwhole (hfits.email.le.trans (by norm_num : 50 ≤ 99))
  have hpwd := hwhole (hfits.password.trans (by norm_num : 6 ≤ 34))
  have hdto := userDtoFromRegisterAccSchema_eq hholds (by
    intro i
    cases i with
    | name => exact (List.length_take_le' _ _).trans_lt hfits.name
    | email => exact (List.length_take_le' _ _).trans_lt hfits.email
    | cpf => exact (List.length_take_le _ _).trans_lt (by decide)
    | password => exact (List.length_take_le _ _).trans_lt (by decide))
  rw [Option.some.inj (h.symm.trans hdto)]
  exact congr (congr (congr (congrArg CreateUserDTO.mk hname) hemail) rfl) hpwd

/-- **The schema of a login** with the cpf and the password of such a registration is valid,
and holds the cpf and the password of its payload. -/
theorem loginSchema_eq {path' : Bytes} {req' : HttpRequest} (hpost : PostRequest path enc req)
    (hintact : enc.Intact req.body) (hfits : FieldsFit enc req.body) {payload : CreateUserDTO}
    (h : registerPayload (decodedBody req) = some payload) (hpost' : PostRequest path' enc req')
    (hintact' : enc.Intact req'.body)
    (hcpf : enc.submitted req'.body (lit "cpf") = enc.submitted req.body (lit "cpf"))
    (hpwd : enc.submitted req'.body (lit "password") = enc.submitted req.body (lit "password")) :
    ∃ schema, parseLoginBody (decodedBody req') = some (some schema) ∧
      validateLoginSchema schema = true ∧
      cstrAt schema (loginSchema.field .cpf).offset = payload.cpf ∧
      cstrAt schema (loginSchema.field .password).offset = payload.password := by
  have hjson : enc = .json → ∀ i : LoginField, enc.submitted req'.body i.key ≠ [] ∧
      (enc.submitted req'.body i.key).length < (loginSchema.field i).size := by
    intro henc i
    cases i with
    | cpf =>
        rw [LoginField.key, hcpf]
        exact ⟨submitted_ne_nil hpost hintact h henc .cpf, hfits.cpf henc⟩
    | password =>
        rw [LoginField.key, hpwd]
        exact ⟨submitted_ne_nil hpost hintact h henc .password,
          hfits.password.trans_lt (by decide)⟩
  obtain ⟨schema, hparse, hholds⟩ := enc.parse_holds loginSchema LoginField.key [.cpf, .password]
    [.cpf, .password] (by rintro (_ | _) <;> decide) (by rintro (_ | _) <;> decide) hpost'.fresh
    hintact' hjson
  rw [registerPayload_eq hpost hintact hfits h]
  have hcpfAt : cstrAt schema (loginSchema.field .cpf).offset =
      (enc.submitted req.body (lit "cpf")).take 11 := by
    rw [hholds.cstrAt, LoginField.key, hcpf]
    rfl
  have hpwdAt : cstrAt schema (loginSchema.field .password).offset =
      enc.submitted req.body (lit "password") := by
    rw [hholds.cstrAt, LoginField.key, hpwd]
    exact List.take_of_length_le (hfits.password.trans (by decide))
  refine ⟨schema, by rw [hpost'.parseLoginBody_eq, hparse], ?_, hcpfAt, hpwdAt⟩
  rw [validateLoginSchema, hcpfAt, hpwdAt]
  exact decide_eq_true ⟨List.length_take_le _ _, hfits.password⟩

/-! ### The user found by its cpf -/

/-- The cpf of a registration. -/
def Outcome.cpf (o : Outcome) : Option Bytes := match o.event with
  | .setup => none
  | .register _ payload => some payload.cpf

variable {crypt : Bytes → Bytes} {canRun : Disk → Event → Prop} {log₁ log₂ : List Outcome}
  {o : Outcome} {d : Disk}

/-- The rows with a cpf, when no other registration that succeeded has it. -/
theorem Session.rowsWith_cpf (h : Session crypt canRun neverStopped (log₁ ++ o :: log₂) d)
    {cpf : Bytes} (hothers : ∀ o' ∈ accepted (log₁ ++ log₂), o'.cpf ≠ some cpf) {row : Row}
    (hrows : insertedRows .user o.ops = [row]) (hrow : rowValue row (lit "cpf") = cpf) :
    rowsWith (insertedRows .user (performed (log₁ ++ o :: log₂))) (lit "cpf") cpf = [row] := by
  -- the rows of the other calls have another cpf
  have hnone : ∀ o' ∈ log₁ ++ log₂, rowsWith (insertedRows .user o'.ops) (lit "cpf") cpf = [] := by
    intro o' ho'
    have hmem : o' ∈ log₁ ++ o :: log₂ := by
      rcases List.mem_append.mp ho' with ho' | ho'
      · exact List.mem_append_left _ ho'
      · exact List.mem_append_right _ (List.mem_cons_of_mem _ ho')
    rcases h.finished hmem with ⟨hnil, -⟩ | ⟨hsuccess, env, payload, id, d', hevent, -, hwrote⟩
    · rw [hnil]
      rfl
    · have hother := hothers o' (List.mem_filter.mpr ⟨ho', hsuccess⟩)
      rw [Outcome.cpf, hevent] at hother
      have hne : payload.cpf ≠ cpf := fun heq => hother (congrArg some heq)
      rw [hwrote.rows, rowsWith, List.filter_singleton, rowValue_cpf, decide_eq_false hne]
      rfl
  have hflat : ∀ log : List Outcome, (∀ o' ∈ log, o' ∈ log₁ ++ log₂) →
      rowsWith (insertedRows .user (performed log)) (lit "cpf") cpf = [] := by
    intro log hlog
    rw [insertedRows_performed, rowsWith, List.filter_flatMap, List.flatMap_eq_nil_iff]
    exact fun o' ho' => hnone o' (hlog o' ho')
  have hone : rowsWith [row] (lit "cpf") cpf = [row] := by
    simp [rowsWith, hrow]
  have hsplit : insertedRows .user (performed (log₁ ++ o :: log₂)) =
      insertedRows .user (performed log₁) ++
        (insertedRows .user o.ops ++ insertedRows .user (performed log₂)) := by
    simp only [performed, List.flatMap_append, List.flatMap_cons, insertedRows_append]
  rw [hsplit, hrows, rowsWith, List.filter_append, List.filter_append]
  change rowsWith _ _ _ ++ (rowsWith _ _ _ ++ rowsWith _ _ _) = _
  rw [hflat log₁ fun o' ho' => List.mem_append_left _ ho', hone,
    hflat log₂ fun o' ho' => List.mem_append_right _ ho']
  rfl

/-- **What `login` returns for a cpf that only one registration has**, one with a readable row:
its user, in every state the session reaches after it. -/
theorem Session.login_eq
    (h : Session crypt (safeRegistration crypt) neverStopped (log₁ ++ o :: log₂) d)
    (hcount : ((accepted (log₁ ++ o :: log₂)).length : ℤ) < intMax) {env : CallEnv}
    {payload : CreateUserDTO} {id : Bytes} {d₁ : Disk}
    (hwrote : WroteUser crypt env payload d₁ o.ops id) (hid : IsUserId id)
    (hreadable : ReadableUser id payload (crypt payload.password) env.userCreatedAt)
    (hothers : ∀ o' ∈ accepted (log₁ ++ log₂), o'.cpf ≠ some payload.cpf)
    (scratch : UserScratch) : login crypt scratch payload.cpf payload.password d =
      some (some ⟨id, payload.name, payload.cpf, [], crypt payload.password, false,
        env.userCreatedAt.take 19, lit "NULL"⟩) := by
  set row := userRow id payload (crypt payload.password) env.userCreatedAt with hrow
  have hfound := h.rowsWith_cpf hothers hwrote.rows (rowValue_cpf _ _ _ _)
  obtain ⟨hcols, hR⟩ := h.storable hcount
  obtain ⟨text, htext⟩ : ∃ text, d.table .user = some text := by
    refine Option.ne_none_iff_exists'.mp fun hnone => ?_
    have htable := h.userTable
    have hmem : row ∈ rowsWith (insertedRows .user (performed (log₁ ++ o :: log₂))) (lit "cpf")
        payload.cpf := hfound ▸ List.mem_cons_self
    rw [hnone, Option.getD_none, linesText, eq_comm, List.flatMap_eq_nil_iff] at htable
    have hline := htable _ (List.mem_map_of_mem (List.mem_of_mem_filter hmem))
    exact List.append_ne_nil_of_right_ne_nil _ (List.cons_ne_nil _ _) hline
  refine login_eq_some_iff.mpr ⟨?_, rfl⟩
  rw [getUserByField_eq hcols hR (by decide) payload.cpf scratch (h.table_eq htext), hfound,
    if_pos (by norm_num [rsMaxRows]), List.head?_cons]
  simp only [mountUserFromLineBuf_readable hid hreadable scratch, Option.map_some]

/-! ### From the registration to the token -/

/-- After the run `log`, which ends in `d`, a POST to `/register` is accepted; `payload` is
what `make_new_user` gets. -/
structure AcceptedRegistration (crypt : Bytes → Bytes) (callEnv : CallEnv) (env : ℕ → Env)
    (enc : BodyEncoding) (req : HttpRequest) (payload : CreateUserDTO) (log : List Outcome)
    (d : Disk) : Prop where
  before : Session crypt (safeRegistration crypt) neverStopped log d
  post : PostRequest (lit "/register") enc req
  payload_eq : registerPayload (decodedBody req) = some payload
  accepted : ∃ res, (serveRegister crypt callEnv env req).result d = some (some res) ∧
    res.statusCode = 302

/-- A registration whose row, with the id it is given, is read back whole. -/
def readableRegistration (crypt : Bytes → Bytes) (d : Disk) (env : CallEnv)
    (payload : CreateUserDTO) : Prop :=
  ∀ id, (getNextIdentity .user).result d = some id →
    ReadableUser id payload (crypt payload.password) env.userCreatedAt

/-- The header that hands out a token. -/
def tokenCookie (token : Bytes) : HttpHeader :=
  ⟨lit "Set-Cookie",
    lit "token=" ++ token ++ lit "; Path=/; HttpOnly; SameSite=Strict; Max-Age=3600"⟩

/-- The call an accepted registration makes writes a user. -/
theorem AcceptedRegistration.wrote {callEnv : CallEnv} {env : ℕ → Env} {payload : CreateUserDTO}
    {log : List Outcome} (h : AcceptedRegistration crypt callEnv env enc req payload log d) :
    ((Event.register callEnv payload).outcome crypt d).accepted = true ∧
      ((Event.register callEnv payload).outcome crypt d).ops =
        (serveRegister crypt callEnv env req).ops d ∧
      ∃ id, WroteUser crypt callEnv payload d
        ((Event.register callEnv payload).outcome crypt d).ops id := by
  obtain ⟨res, hres, hstatus⟩ := h.accepted
  obtain ⟨payload', result, hpayload, hresult, hsuccess, hops⟩ :=
    serveRegister_accepted h.post hres hstatus
  obtain rfl := Option.some.inj (h.payload_eq.symm.trans hpayload)
  have hcall : ((Event.register callEnv payload).proc crypt).ops d =
      (makeNewUser crypt callEnv payload).ops d := by
    rw [Event.proc, Proc.ops_bind_of_some hresult, Proc.ops_pure, List.append_nil]
  have hreturn : ((Event.register callEnv payload).proc crypt).result d = some (some result) := by
    rw [Event.proc, Proc.result_bind, hresult, Option.bind_some, Proc.result_pure]
  have haccepted : ((Event.register callEnv payload).outcome crypt d).accepted = true := by
    rw [Event.outcome, Outcome.accepted, hreturn]
    exact hsuccess
  refine ⟨haccepted, hcall.trans hops.symm, ?_⟩
  obtain ⟨-, ⟨hfail, -⟩ | ⟨-, id, hwrote⟩⟩ := makeNewUser_finished hresult
  · rw [hsuccess] at hfail
    exact Bool.noConfusion hfail
  · exact ⟨id, by rw [Event.outcome, hcall]; exact hwrote⟩

/-- A token that fits the header is handed out whole. -/
theorem addResTokenCookie_headers {res : HttpResponse} {token : Bytes}
    (hslot : res.headers.length < maxHeaders) (htoken : token.length ≤ 766) :
    (addResTokenCookie res token).headers = res.headers ++ [tokenCookie token] := by
  have htexts : (lit "token=").length = 6 ∧
      (lit "; Path=/; HttpOnly; SameSite=Strict; Max-Age=3600").length = 49 := by decide
  have hvalue : (tokenCookie token).value.length ≤ 1023 := by
    simp only [tokenCookie, List.length_append, htexts]
    omega
  have hcut : addResTokenCookie res token =
      addResHeader res (lit "Set-Cookie") ((tokenCookie token).value.take 1023) := rfl
  rw [hcut, List.take_of_length_le hvalue, addResHeader_headers hslot (by decide) hvalue]
  rfl

/-- **A login after a registration.** In a run of safe registrations, a login in the encoding of
an accepted registration, with its cpf and its password, is answered with a token for the id of
the row that registration wrote, when no other registration that succeeded has the cpf. The
strings registered must fit, and their row must be read back whole. -/
theorem login_after_register {callEnv : CallEnv} {envR envL : ℕ → Env} {reqL : HttpRequest}
    {payload : CreateUserDTO} {d₁ : Disk}
    (hregistered : AcceptedRegistration crypt callEnv envR enc req payload log₁ d₁)
    (hrun : Session crypt (safeRegistration crypt) neverStopped
      (log₁ ++ (Event.register callEnv payload).outcome crypt d₁ :: log₂) d)
    (hcount : ((accepted (log₁ ++ (Event.register callEnv payload).outcome crypt d₁ ::
      log₂)).length : ℤ) < intMax)
    (hothers : ∀ o ∈ accepted (log₁ ++ log₂), o.cpf ≠ some payload.cpf)
    (hreadable : readableRegistration crypt d₁ callEnv payload)
    (hintact : enc.Intact req.body) (hfits : FieldsFit enc req.body)
    (hlogin : PostRequest (lit "/login") enc reqL) (hintactL : enc.Intact reqL.body)
    (hcpf : enc.submitted reqL.body (lit "cpf") = enc.submitted req.body (lit "cpf"))
    (hpwd : enc.submitted reqL.body (lit "password") = enc.submitted req.body (lit "password"))
    {env : Env} {secret : Bytes} (hsecret : getEnv env (lit "JWT_SECRET") = some secret)
    (scratch : UserScratch) :
    ∃ id res, insertedIds .user ((serveRegister crypt callEnv envR req).ops d₁) = [id] ∧
      serveLogin crypt scratch envL env reqL d = some (some res) ∧ res.statusCode = 302 ∧
      tokenCookie (createJwtForUser env.hmac env.now (getEnv env (lit "JWT_EXP")) secret id
        payload.name) ∈ res.headers := by
  obtain ⟨hsuccess, hops, id, hwrote⟩ := hregistered.wrote
  have hmem : (Event.register callEnv payload).outcome crypt d₁ ∈
      accepted (log₁ ++ (Event.register callEnv payload).outcome crypt d₁ :: log₂) :=
    List.mem_filter.mpr ⟨List.mem_append_right _ List.mem_cons_self, hsuccess⟩
  obtain ⟨id', hid, hids⟩ := hrun.isUserId hcount hmem
  obtain rfl : id = id' := by
    rw [hwrote.insertedIds_eq, List.singleton_inj] at hids
    exact hids
  have hfound := hrun.login_eq hcount hwrote hid (hreadable id hwrote.nextId) hothers scratch
  obtain ⟨schema, hparse, hvalid, hcpfAt, hpwdAt⟩ := loginSchema_eq hregistered.post hintact hfits
    hregistered.payload_eq hlogin hintactL hcpf hpwd
  rw [← hcpfAt, ← hpwdAt] at hfound
  refine ⟨id, _, hops ▸ hids, serveLogin_eq hlogin hparse hvalid hfound hsecret, rfl,
    headers_subset_addResHeader _ _ _ ?_⟩
  change _ ∈ (addResTokenCookie _ _).headers
  rw [addResTokenCookie_headers (by decide) (length_createJwtForUser_le _ _ _ _ _ _)]
  exact List.mem_append_right _ List.mem_cons_self

/-- A POST of a form. -/
def formRequest (path body : Bytes) : HttpRequest where
  method := lit "POST"
  path := path
  version := lit "HTTP/1.1"
  headers := [⟨lit "Content-Type", lit "application/x-www-form-urlencoded"⟩]
  body := body
  authenticatedJwt := JwtData.zero
  bodyQueryParams := []
  urlQueryParams := []
  cookies := []

theorem postRequest_formRequest (path body : Bytes) :
    PostRequest path .form (formRequest path body) := ⟨rfl, rfl, rfl, rfl⟩

/-- A server with a secret. -/
def sampleServer : Env := ⟨zeroHmac, [(lit "JWT_SECRET", lit "k")], 0⟩

/-- The registration of Ann with some password. -/
def annRegister (password : Bytes) : HttpRequest :=
  formRequest (lit "/register") (lit "name=ann&email=ann@x&cpf=1&password=" ++ password)

/-- Her login. -/
def annLogin (password : Bytes) : HttpRequest :=
  formRequest (lit "/login") (lit "cpf=1&password=" ++ password)

/-- The payload of Ann. -/
def annPayload (password : Bytes) : CreateUserDTO := ⟨lit "ann", lit "ann@x", lit "1", password⟩

/-- The registration of Ann is accepted, when its answer is the redirect. -/
theorem annRegistration (password : Bytes)
    (hpayload : registerPayload (decodedBody (annRegister password)) =
      some (annPayload password))
    (hres : ((serveRegister id sampleEnv (fun _ => sampleServer) (annRegister password)).result
      startedDisk).map (Option.map HttpResponse.statusCode) = some (some 302)) :
    AcceptedRegistration id sampleEnv (fun _ => sampleServer) .form (annRegister password)
      (annPayload password) [Event.setup.outcome id Disk.empty] startedDisk := by
  refine ⟨session_started trivial, postRequest_formRequest _ _, hpayload, ?_⟩
  obtain ⟨res, hres, hstatus⟩ := Option.map_eq_some_iff.mp hres
  obtain ⟨response, rfl, hcode⟩ := Option.map_eq_some_iff.mp hstatus
  exact ⟨response, hres, hcode⟩

/-- A registration is safe whose row suits the table format with its id. -/
theorem safeRegistration_of_next {d : Disk} {payload : CreateUserDTO} (next : Bytes)
    (hnext : (getNextIdentity .user).result d = some next)
    (hsafe : SafeUser next payload payload.password sampleEnv.userCreatedAt) :
    safeRegistration id d (.register sampleEnv payload) := by
  intro id hid
  obtain rfl := Option.some.inj (hnext.symm.trans hid)
  exact hsafe

/-- The session of Ann and Bob is safe. -/
theorem session_two_safe : Session id (safeRegistration id) neverStopped twoLog
    ((Event.setup.proc id).after againDisk) := by
  refine session_two (fun _ => trivial) safeRegistration_sample ?_ ?_
  · exact safeRegistration_of_next (lit "1") nextIds_two.1
      ⟨by decide +kernel, by decide +kernel, by decide +kernel, by decide +kernel⟩
  · exact safeRegistration_of_next (lit "2") nextIds_two.2
      ⟨by decide +kernel, by decide +kernel, by decide +kernel, by decide +kernel⟩

/-- Ann logs in after Bob registered, she tried again and the program was restarted. -/
theorem login_after_register_ann :
    ∃ userId res, insertedIds .user ((serveRegister id sampleEnv (fun _ => sampleServer)
        (annRegister (lit "secret"))).ops startedDisk) = [userId] ∧
      serveLogin id ⟨[], [], [], [], [], []⟩ (fun _ => sampleServer) sampleServer
        (annLogin (lit "secret")) ((Event.setup.proc id).after againDisk) =
          some (some res) ∧ res.statusCode = 302 ∧
      tokenCookie (createJwtForUser zeroHmac 0 (getEnv sampleServer (lit "JWT_EXP")) (lit "k")
        userId (lit "ann")) ∈ res.headers := by
  have hregistered := annRegistration (lit "secret") (by decide +kernel)
    (by decide +kernel)
  have hrun : Session id (safeRegistration id) neverStopped
      ([Event.setup.outcome id Disk.empty] ++ sampleRegister.outcome id startedDisk ::
        [secondRegister.outcome id annDisk, sampleRegister.outcome id bobDisk,
          Event.setup.outcome id againDisk]) _ := session_two_safe
  have hreadable : readableRegistration id startedDisk sampleEnv (annPayload (lit "secret")) := by
    intro next hnext
    have hsafe := safeRegistration_sample next hnext
    obtain rfl := eq_zero_of_getNextIdentity hnext
    exact ⟨hsafe, by decide, by decide, by decide, by decide +kernel⟩
  have hcount : ((accepted twoLog).length : ℤ) < intMax := by
    rw [accepted_two]
    decide
  exact login_after_register hregistered hrun hcount (by decide +kernel) hreadable
    (by decide +kernel) ⟨by decide +kernel, by decide +kernel, by decide, by decide +kernel⟩
    (postRequest_formRequest _ _) (by decide +kernel) (by decide +kernel) (by decide +kernel)
    rfl _

/-- **A user who cannot log in.** A registration with the password `secret7` is accepted, and
the login with the same cpf and the same password is answered with 400. -/
theorem login_locked_out : ∃ d res,
    AcceptedRegistration id sampleEnv (fun _ => sampleServer) .form
      (annRegister (lit "secret7")) (annPayload (lit "secret7"))
      [Event.setup.outcome id Disk.empty] startedDisk ∧
    Session id (safeRegistration id) neverStopped [Event.setup.outcome id Disk.empty,
      (Event.register sampleEnv (annPayload (lit "secret7"))).outcome id startedDisk] d ∧
    PostRequest (lit "/login") .form (annLogin (lit "secret7")) ∧
    (∀ field ∈ [lit "cpf", lit "password"],
      BodyEncoding.form.submitted (annLogin (lit "secret7")).body field =
        BodyEncoding.form.submitted (annRegister (lit "secret7")).body field) ∧
    serveLogin id ⟨[], [], [], [], [], []⟩ (fun _ => sampleServer) sampleServer
      (annLogin (lit "secret7")) d = some (some res) ∧ res.statusCode = 400 := by
  have hregistered := annRegistration (lit "secret7") (by decide +kernel) (by decide +kernel)
  have hstart : Session id (safeRegistration id) neverStopped
      [Event.setup.outcome id Disk.empty] startedDisk := session_started trivial
  have hsafe : safeRegistration id startedDisk
      (Event.register sampleEnv (annPayload (lit "secret7"))) := by
    intro next hnext
    obtain rfl := eq_zero_of_getNextIdentity hnext
    exact ⟨by decide +kernel, by decide +kernel, by decide +kernel, by decide +kernel⟩
  have hrun := hstart.finish_outcome hsafe (by decide +kernel)
  refine ⟨_, _, hregistered, hrun, postRequest_formRequest _ _, by decide +kernel,
    (?_ : _ = some (some (addBody (makeResFirstLine (addContentType .zero .plain) .badRequest)
      (lit "Invalid fields")))), rfl⟩
  decide +kernel

end CBank
