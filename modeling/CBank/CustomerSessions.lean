import CBank.BankPages
import CBank.TokenOwners

/-!
# The Sessions of Customers

What customers get who log in to a server after a run: the answer to a login, and the two views of
the accounts behind a token. The token a login hands out opens the page of the customer it was
made for, however many others registered in between.

A result set has room for 100 rows, so these hold up to 100 customers; they ask of the customers
that their rows are read back whole.

## Main results

* `startPass_authenticated`: what a protected handler gets.
* `login_answered`: the answer to a login.
* `session_shows_owner`: the page behind a token.
* `accounts_listed`: all accounts, as JSON.
-/

namespace CBank

open CLib

/-! ### Passes -/

variable {e : PassEnv} {received : Received} {req : HttpRequest} {d : Disk}

/-- A pass whose middlewares pass runs its handler. -/
theorem result_passResponses {handler : Handler} {req' : HttpRequest} {res : HttpResponse}
    (hparse : parseRequest e.lineScratch received = some (some req))
    (hpass : (startPass routeRegistry e.middlewareEnv (some req)).outcome =
      .handled handler req' res) :
    (passResponses e received).result d = (runHandler e.handlerEnv req' res handler).result d := by
  have hread : (Proc.read fun _ => parseRequest e.lineScratch received :
      Proc Disk FileOp _).result d = some (some req) := hparse
  rw [passResponses, Proc.result_read_bind hread, hpass]

/-- `auth_middleware` passes an authenticated request. -/
theorem authMiddleware_of_authenticated {env : Env} {data : JwtData} (res : HttpResponse)
    (h : Authenticated env req data) :
    authMiddleware env req res = some ({ req with authenticatedJwt := data }, res) := by
  obtain ⟨token, secret, payload, hcookie, hsecret, hpayload, hparsed, hexp, hsub, hname⟩ := h
  have hvalid : jwtValidateEnv env token = some (some payload) := by
    rw [jwtValidateEnv, hsecret]
    exact congrArg some hpayload
  have hfields : ¬ (data.exp = 0 ∨ data.name = none ∨ data.sub = none) := by
    rw [not_or, not_or]
    exact ⟨hexp, hname, hsub⟩
  rw [authMiddleware, hcookie]
  simp only [hvalid, Option.bind_eq_bind, Option.bind_some, hparsed, if_neg hfields]

/-- **What a protected handler gets**: the request with its body decoded and the payload of its
token. -/
theorem startPass_authenticated {env : ℕ → Env} {route : Route Handler} {data : JwtData}
    (hroute : getRoute routeRegistry req = .valid route)
    (hlist : route.middlewareList = [decodeUrlMiddleware, authMiddleware])
    (hpath : ch '?' ∉ req.path) (hauth : Authenticated (env 1) req data) :
    (startPass routeRegistry env (some req)).outcome =
      .handled route.handler { decodedBody req with authenticatedJwt := data } .zero := by
  refine (startPass_handled_iff hroute).mpr ⟨rfl, ?_⟩
  have hstages : middlewareStages env route = [fun s => decodeUrlMiddleware (env 0) s.1 s.2,
      fun s => authMiddleware (env 1) s.1 s.2] := by
    rw [(getRoute_counted hroute).middlewareStages_eq, hlist]
    rfl
  have hdecode : decodeUrlMiddleware (env 0) req .zero = some (decodedBody req, .zero) :=
    decodeUrlMiddleware_eq hpath _ _
  have hpasses : authMiddleware (env 1) (decodedBody req) .zero =
      some ({ decodedBody req with authenticatedJwt := data }, .zero) :=
    authMiddleware_of_authenticated .zero (hauth.of_cookies rfl)
  rw [middlewareRun, hstages, runStages_cons_of_passes hdecode rfl,
    runStages_cons_of_passes hpasses rfl]
  rfl

/-- A `POST` to the login, as its handler answers it. -/
theorem result_passResponses_login
    (hparse : parseRequest e.lineScratch received = some (some req))
    (hmethod : req.method = lit "POST") (hpath : req.path = lit "/login") :
    (passResponses e received).result d = (handlePOSTLogin e.handlerEnv.crypt
      e.handlerEnv.userScratch e.handlerEnv.env (decodedBody req) .zero d).map
        fun handled => [sentResponse handled] := by
  rw [result_passResponses hparse (startPass_login hmethod hpath)]
  have hpost : (decodedBody req).method = lit "POST" := hmethod
  have hrun : (runHandler e.handlerEnv (decodedBody req) .zero .handleLogin).result d =
      handleLogin e.handlerEnv (decodedBody req) .zero d := rfl
  rw [hrun, handleLogin, if_neg (by rw [hpost]; decide), if_pos hpost]
  cases handlePOSTLogin e.handlerEnv.crypt e.handlerEnv.userScratch e.handlerEnv.env
      (decodedBody req) .zero d with
  | none => rfl
  | some handled => rfl

/-! ### The bank behind a run -/

variable {crypt : Bytes → Bytes} {log : List Served}

/-- A table with a row in it is there. -/
theorem table_eq_some {s : Store} {rows : List Row} (hne : rows ≠ [])
    (h : (d.table s).getD [] = linesText (rows.map rowText)) :
    d.table s = some (linesText (rows.map rowText)) := by
  cases htable : d.table s with
  | none =>
      rw [htable, Option.getD_none] at h
      obtain ⟨row, rest, rfl⟩ := List.exists_cons_of_ne_nil hne
      simp [linesText] at h
  | some text => rw [← h, htable, Option.getD_some]

/-- The tables a bank with customers is kept in are there. -/
theorem Disk.Keeps.tables {b : Bank} (h : d.Keeps b) (hne : b.customers ≠ []) :
    d.table .user = some b.usersText ∧ d.table .account = some b.accountsText := by
  refine ⟨table_eq_some (fun hnil => hne ?_) h.users, table_eq_some (fun hnil => hne ?_) h.accounts⟩
  · exact List.mapIdx_eq_nil_iff.mp hnil
  · exact List.mapIdx_eq_nil_iff.mp hnil

/-- The tables a bank is kept in, after a start-up. -/
theorem ServerRun.tables {b : Bank}
    (h : ServerRun crypt (safeRequest crypt) neverStopped log d)
    (hcount : (registered log : ℤ) < intMax) (hstarted : Started log) (hkeeps : d.Keeps b) :
    d.table .user = some b.usersText ∧ d.table .account = some b.accountsText := by
  have hsettled : ServerRun crypt (safeRequest crypt) settled log d :=
    Runs.imp h (fun _ _ he => he) fun _ hstop => hstop.elim
  obtain ⟨t, ht⟩ := hsettled.startedUp hcount hstarted
  have htable : ∀ {s : Store} {text : Bytes}, (d.table s).getD [] = text →
      d.table s = some text := by
    rintro s text rfl
    obtain ⟨text, htext⟩ := Option.isSome_iff_exists.mp (ht.files s)
    rw [htext, Option.getD_some]
  exact ⟨htable hkeeps.users, htable hkeeps.accounts⟩

/-- The bank of a run. -/
theorem ServerRun.exists_bank (h : ServerRun crypt (safeRequest crypt) neverStopped log d)
    (hcount : (registered log : ℤ) < intMax) :
    ∃ b, b.customers = enrolled crypt log ∧ d.Keeps b := by
  obtain ⟨b, hkeeps, -, -, hserve⟩ := h.bank hcount
  exact ⟨b, customers_eq_enrolled hserve, hkeeps⟩

/-! ### Logins -/

/-- The answer to a login, by the customer it is for. -/
def loginAnswer (env : Env) (secret : Bytes) : Option (ℕ × Customer) → HttpResponse
  | none => addBody (addContentType (makeResFirstLine .zero .unauthorized) .plain)
      (lit "Invalid credentials")
  | some (n, c) => redirect (addResTokenCookie (addContentType (makeResFirstLine .zero .ok) .json)
      (createJwtForUser env.hmac env.now (getEnv env (lit "JWT_EXP")) secret (printNat n) c.name))
      (lit "/accounts")

/-- A login on the table of a bank. -/
theorem handlePOSTLogin_eq {b : Bank} (hb : ReadableCustomers b.customers)
    (hd : d.table .user = some b.usersText) {scratch : UserScratch} {env : Env}
    {schema secret : Bytes} (hbody : parseLoginBody req = some (some schema))
    (hvalid : validateLoginSchema schema = true)
    (hsecret : getEnv env (lit "JWT_SECRET") = some secret) :
    (handlePOSTLogin crypt scratch env req .zero d).map (fun handled => [sentResponse handled]) =
      some [loginAnswer env secret (b.login
        (cstrAt schema (loginSchema.field .cpf).offset)
        (crypt (cstrAt schema (loginSchema.field .password).offset)))] := by
  rw [handlePOSTLogin, hbody]
  simp only [Option.bind_eq_bind, Option.bind_some, hvalid, if_true, Bank.login_eq hb hd]
  cases b.login (cstrAt schema (loginSchema.field .cpf).offset)
      (crypt (cstrAt schema (loginSchema.field .password).offset)) with
  | none => rfl
  | some p =>
      simp only [Option.map_some, hsecret, Option.bind_some]
      rfl

/-- **The answer to a login.** After a run of safe registrations whose customers are read back
whole, a login with valid fields is answered for the first customer with the cpf: with a token for
the number and the name, if the password has the stored hash. All others are refused. -/
theorem login_answered (h : ServerRun crypt (safeRequest crypt) neverStopped log d)
    (hcount : (registered log : ℤ) < intMax) (hstarted : Started log)
    (hreadable : ReadableCustomers (enrolled crypt log)) (hcrypt : e.handlerEnv.crypt = crypt)
    (hparse : parseRequest e.lineScratch received = some (some req))
    (hmethod : req.method = lit "POST") (hpath : req.path = lit "/login") {schema secret : Bytes}
    (hbody : parseLoginBody (decodedBody req) = some (some schema))
    (hvalid : validateLoginSchema schema = true)
    (hsecret : getEnv e.handlerEnv.env (lit "JWT_SECRET") = some secret) :
    ∃ b : Bank, b.customers = enrolled crypt log ∧ (passResponses e received).result d =
      some [loginAnswer e.handlerEnv.env secret (b.login
        (cstrAt schema (loginSchema.field .cpf).offset)
        (crypt (cstrAt schema (loginSchema.field .password).offset)))] := by
  obtain ⟨b, hcustomers, hkeeps⟩ := h.exists_bank hcount
  obtain ⟨huser, -⟩ := h.tables hcount hstarted hkeeps
  refine ⟨b, hcustomers, ?_⟩
  rw [result_passResponses_login hparse hmethod hpath, hcrypt]
  exact handlePOSTLogin_eq (hcustomers ▸ hreadable) huser hbody hvalid hsecret

/-- Ann, as the bank knows her. -/
def annCustomer : Customer := customerOf id sampleEnv samplePayload

theorem enrolled_ann : enrolled id (servedAll Disk.empty annEvents) = [annCustomer] := by
  have hrequests : requests id (servedAll Disk.empty annEvents) = [(annCustomer, true)] := by
    decide +kernel
  rw [enrolled, hrequests]
  rfl

theorem started_ann : Started (servedAll Disk.empty annEvents) :=
  ⟨ServerEvent.startUp.served Disk.empty, List.mem_cons_self, rfl, by decide +kernel⟩

/-- Her row is read back whole. -/
theorem readableCustomers_ann : ReadableCustomers [annCustomer] where
  count := by decide
  users := by
    intro n c hn
    obtain ⟨rfl, rfl⟩ : n = 0 ∧ annCustomer = c := by
      obtain ⟨hlt, rfl⟩ := List.getElem?_eq_some_iff.mp hn
      obtain rfl := Nat.lt_one_iff.mp hlt
      exact ⟨rfl, rfl⟩
    exact ⟨⟨by decide +kernel, by decide +kernel, by decide +kernel, by decide +kernel⟩,
      by decide, by decide, by decide, by decide +kernel⟩
  dates := by
    intro c hc
    obtain rfl := List.mem_singleton.mp hc
    exact ⟨by decide +kernel, by decide⟩

/-- Her login, as it is parsed. -/
def loginRequest : HttpRequest where
  method := lit "POST"
  path := lit "/login"
  version := lit "HTTP/1.1"
  headers := [⟨lit "Content-Type", lit "application/x-www-form-urlencoded"⟩,
    ⟨lit "Content-Length", lit "21"⟩]
  body := lit "cpf=1&password=secret"
  authenticatedJwt := JwtData.zero
  bodyQueryParams := []
  urlQueryParams := []
  cookies := []

/-- Her cpf and password, as the parser of the login stores them. -/
def loginFields : Bytes := ((parseLoginBody (decodedBody loginRequest)).bind id).getD []

/-- The answer to her login. -/
theorem login_answered_ann :
    ∃ b : Bank, b.customers = enrolled id (servedAll Disk.empty annEvents) ∧
      (passResponses loginEnv loginPost).result (diskAfter Disk.empty annEvents) =
        some [loginAnswer loginEnv.handlerEnv.env (lit "k") (b.login
          (cstrAt loginFields (loginSchema.field .cpf).offset)
          (id (cstrAt loginFields (loginSchema.field .password).offset)))] := by
  have hbody : parseLoginBody (decodedBody loginRequest) = some (some loginFields) := by
    decide +kernel
  have hparse : parseRequest loginEnv.lineScratch loginPost = some (some loginRequest) := by
    decide +kernel
  exact login_answered serverRun_ann_safe registered_ann_lt started_ann
    (enrolled_ann.symm ▸ readableCustomers_ann) rfl hparse rfl rfl hbody (by decide +kernel)
    (by decide +kernel)

/-! ### The page behind a token -/

/-- A request carries a token, before its expiry, in an environment with the secret and the hash
of the one it was made in. -/
structure CarriesToken (issuer env : Env) (req : HttpRequest) (token : Bytes) : Prop where
  cookie : getReqCookie req (lit "token") = some token
  secret : getEnv env (lit "JWT_SECRET") = getEnv issuer (lit "JWT_SECRET")
  hmac : env.hmac = issuer.hmac
  fits : FitsLong (expiryAt issuer.now (getEnv issuer (lit "JWT_EXP")))
  set : expiryAt issuer.now (getEnv issuer (lit "JWT_EXP")) ≠ 0
  alive : env.now ≤ expiryAt issuer.now (getEnv issuer (lit "JWT_EXP"))

/-- A request with the token of a customer is authenticated as that customer. -/
theorem CarriesToken.authenticated {issuer env : Env} {secret : Bytes} {n : ℕ} {c : Customer}
    (h : CarriesToken issuer env req (createJwtForUser issuer.hmac issuer.now
      (getEnv issuer (lit "JWT_EXP")) secret (printNat n) c.name))
    (hsecret : getEnv issuer (lit "JWT_SECRET") = some secret) (hid : IsUserId (printNat n))
    (hreadable : c.Readable n) (hplain : NameIsPlain c.name) :
    Authenticated env req ⟨expiryAt issuer.now (getEnv issuer (lit "JWT_EXP")),
      some (printNat n), some c.name⟩ := by
  have hnul : NulFree c.name := (hreadable.value c.name (by simp)).1
  have hvalid := jwtValidate_createJwtForUser issuer.hmac issuer.now env.now
    (getEnv issuer (lit "JWT_EXP")) secret hid hnul (Nat.le_of_lt_succ hreadable.name.2) hplain.1
    h.fits h.alive
  rw [← h.hmac] at hvalid
  exact ⟨_, secret, _, h.cookie, h.secret.trans hsecret, h.hmac ▸ hvalid,
    parseJwtPayload_userPayload hid hplain h.fits, h.set, Option.some_ne_none _,
    Option.some_ne_none _⟩

/-- A token made for a login, on the tables of a bank that is read back whole: it has the name of
its customer. -/
theorem IssuedBy.owner {b : Bank} {env : HandlerEnv} {token : Bytes}
    (h : IssuedBy env req d token) (hb : ReadableCustomers b.customers) (hkeeps : d.Keeps b) :
    ∃ n c secret, IssuedTo b.customers env req n c token ∧
      getEnv env.env (lit "JWT_SECRET") = some secret ∧
      token = createJwtForUser env.env.hmac env.env.now (getEnv env.env (lit "JWT_EXP")) secret
        (printNat n) c.name := by
  obtain ⟨schema, user, secret, hparse, hlogin, hsecret, rfl⟩ := h
  obtain ⟨n, c, hbank, -⟩ := Bank.login_sound (Bank.safe_of_readable hb) hb.count_le hkeeps.users
    hlogin
  have hne : b.customers ≠ [] :=
    List.ne_nil_of_mem (List.mem_of_getElem? (Bank.getElem?_of_login hbank).1)
  rw [Bank.login_eq hb (hkeeps.tables hne).1, hbank] at hlogin
  obtain rfl : c.user n = user := Option.some.inj (Option.some.inj hlogin)
  exact ⟨n, c, secret, Bank.issuedTo_of_login hparse hbank hsecret, hsecret, rfl⟩

/-- The route of a path, for a request with that path and a method. -/
theorem getRoute_accounts (hmethod : req.method = lit "GET") (hpath : req.path = lit "/accounts") :
    getRoute routeRegistry req = .valid accountsRoute := by
  rw [getRoute_eq_valid_iff, hpath, hmethod]
  exact ⟨rfl, by decide +kernel⟩

/-- The accounts page, for an authenticated request. -/
theorem result_passResponses_accounts {data : JwtData}
    (hparse : parseRequest e.lineScratch received = some (some req))
    (hmethod : req.method = lit "GET") (hpath : req.path = lit "/accounts")
    (hauth : Authenticated (e.middlewareEnv 1) req data) :
    (passResponses e received).result d = (handleAccounts e.handlerEnv
      { decodedBody req with authenticatedJwt := data } .zero d).map fun res => [res] :=
  result_passResponses hparse (startPass_authenticated (getRoute_accounts hmethod hpath) rfl
    (by rw [hpath]; decide) hauth)

/-- The accounts page of a customer, on the tables of a bank. -/
theorem result_accounts_of_customer {b : Bank} (hb : ReadableCustomers b.customers)
    (hkeeps : d.Keeps b) {n : ℕ} {c : Customer} (hn : b.customers[n]? = some c) {data : JwtData}
    (hparse : parseRequest e.lineScratch received = some (some req))
    (hmethod : req.method = lit "GET") (hpath : req.path = lit "/accounts")
    (hauth : Authenticated (e.middlewareEnv 1) req data) (hsub : data.sub = some (printNat n)) :
    (passResponses e received).result d =
      (renderPage e.handlerEnv (lit "./src/server/templates/accounts.html")
        [⟨lit "username", c.name⟩, ⟨lit "total_balance", lit "0.0000"⟩]).map fun text =>
          [addPage .zero text] := by
  obtain ⟨huser, haccount⟩ := hkeeps.tables (List.ne_nil_of_mem (List.mem_of_getElem? hn))
  rw [result_passResponses_accounts hparse hmethod hpath hauth,
    Bank.handleAccounts_eq hb huser haccount e.handlerEnv hsub, Bank.find_id hn, Option.map_map]
  rfl

/-- **The page behind a token.** When a response of a run carried a token, a request for the
accounts page with it, after the run, shows the customer whose cpf and password were sent for it,
with a balance of zero, if the name is plain. All customers of the run must be read back whole. -/
theorem session_shows_owner {before after : List Served} {served : Served}
    (h : ServerRun crypt (safeRequest crypt) neverStopped (before ++ served :: after) d)
    (hcount : (registered (before ++ served :: after) : ℤ) < intMax)
    (hreadable : ReadableCustomers (enrolled crypt (before ++ served :: after)))
    {issuer : PassEnv} {login : Received} (hevent : served.event = .serve issuer login)
    {rs : List HttpResponse} (hresult : served.result = some rs) {r : HttpResponse} (hr : r ∈ rs)
    {token : Bytes} (hcookie : tokenCookie token ∈ r.headers)
    (hparse : parseRequest e.lineScratch received = some (some req))
    (hmethod : req.method = lit "GET") (hpath : req.path = lit "/accounts")
    (htoken : CarriesToken issuer.handlerEnv.env (e.middlewareEnv 1) req token) :
    ∃ loginReq n c, calledHandler issuer login = some (.handleLogin, loginReq) ∧
      IssuedTo (enrolled crypt before) issuer.handlerEnv loginReq n c token ∧
      (NameIsPlain c.name → (passResponses e received).result d =
        (renderPage e.handlerEnv (lit "./src/server/templates/accounts.html")
          [⟨lit "username", c.name⟩, ⟨lit "total_balance", lit "0.0000"⟩]).map fun text =>
            [addPage .zero text]) := by
  obtain ⟨m, hcalled, -⟩ := h.called
  obtain ⟨hpass, -⟩ := hcalled.finished rs hresult
  rw [hevent] at hpass
  obtain ⟨loginReq, hlogin, -, hissued⟩ := (passResponses_known hpass r hr _ hcookie).token
  -- the customers at the time of the login are among those at the end
  have hwhole := hreadable
  rw [registered_append] at hcount
  rw [enrolled_append] at hreadable
  obtain ⟨b, hcustomers, hkeeps⟩ :=
    ServerRun.exists_bank hcalled.run (by push_cast at hcount; omega)
  obtain ⟨n, c, secret, hto, hsecret, rfl⟩ :=
    hissued.owner (hcustomers ▸ hreadable.of_append) hkeeps
  rw [hcustomers] at hto
  refine ⟨loginReq, n, c, hlogin, hto, fun hplain => ?_⟩
  obtain ⟨b', hcustomers', hkeeps'⟩ := h.exists_bank (by rw [registered_append]; exact hcount)
  rw [← hcustomers'] at hwhole
  have hn : b'.customers[n]? = some c := by
    obtain ⟨hlt, -⟩ := List.getElem?_eq_some_iff.mp hto.customer
    rw [hcustomers', enrolled_append, List.getElem?_append_left hlt]
    exact hto.customer
  have hid : IsUserId (printNat n) := by
    obtain ⟨hlt, -⟩ := List.getElem?_eq_some_iff.mp hn
    exact isUserId_printNat ((Int.ofNat_lt.mpr hlt).trans_le hwhole.count_le)
  have hauth := htoken.authenticated hsecret hid (hwhole.users n c hn) hplain
  exact result_accounts_of_customer hwhole hkeeps' hn hparse hmethod hpath hauth rfl

/-- Ann's request for a page, with her token. -/
def tokenGet (path : Bytes) : HttpRequest where
  method := lit "GET"
  path := path
  version := lit "HTTP/1.1"
  headers := [⟨lit "Cookie", lit "token"⟩, ⟨lit "Host", lit "bank"⟩]
  body := []
  authenticatedJwt := JwtData.zero
  bodyQueryParams := []
  urlQueryParams := []
  cookies := [⟨lit "token", annToken⟩]

/-- The same, as it is sent to the accounts page. -/
def accountsGet : Received :=
  ⟨lit "GET /accounts HTTP/1.1" ++ crlf ++ lit "Cookie: token=" ++ annToken ++ crlf ++
    lit "Host: bank" ++ crlf ++ crlf, by decide +kernel⟩

theorem carriesToken_ann (path : Bytes) :
    CarriesToken loginEnv.handlerEnv.env (loginEnv.middlewareEnv 1) (tokenGet path) annToken :=
  ⟨rfl, rfl, rfl, ⟨by decide +kernel, by decide +kernel⟩, by decide +kernel, by decide +kernel⟩

/-- She is authenticated by it. -/
theorem authenticated_ann (path : Bytes) : Authenticated (loginEnv.middlewareEnv 1) (tokenGet path)
    ⟨3600, some (lit "0"), some (lit "ann")⟩ := by
  have htoken : annToken = createJwtForUser zeroHmac 0 (getEnv loginEnv.handlerEnv.env
      (lit "JWT_EXP")) (lit "k") (printNat 0) annCustomer.name := by decide +kernel
  have hcarries := carriesToken_ann path
  rw [htoken] at hcarries
  exact hcarries.authenticated
    (by decide +kernel : getEnv loginEnv.handlerEnv.env (lit "JWT_SECRET") = some (lit "k"))
    (isUserId_printNat (by decide) : IsUserId (printNat 0))
    (readableCustomers_ann.users 0 annCustomer rfl) ⟨by decide, by decide, by decide⟩

/-- Nobody registers with a login. -/
theorem enrolled_login :
    enrolled id (servedAll Disk.empty annEvents ++ [loginServed]) = [annCustomer] := by
  have hnone : registration loginEnv loginPost = none := by decide +kernel
  have hlogin : requests id [loginServed] = [] := by
    refine List.filterMap_cons_none ?_
    rw [loginServed, ServerEvent.customer, hnone]
    rfl
  rw [enrolled_append, enrolled_ann, enrolled, hlogin]
  rfl

theorem registered_login :
    (registered (servedAll Disk.empty annEvents ++ [loginServed]) : ℤ) < intMax := by
  have hle : registered (servedAll Disk.empty annEvents ++ [loginServed]) ≤ 4 :=
    List.countP_le_length
  exact (Int.ofNat_le.mpr hle).trans_lt (by decide)

/-- Ann sees her page. -/
theorem session_shows_owner_ann :
    ∃ loginReq n c, calledHandler loginEnv loginPost = some (.handleLogin, loginReq) ∧
      IssuedTo (enrolled id (servedAll Disk.empty annEvents)) loginEnv.handlerEnv loginReq n c
        annToken ∧
      (NameIsPlain c.name → (passResponses loginEnv accountsGet).result loginDisk =
        (renderPage loginEnv.handlerEnv (lit "./src/server/templates/accounts.html")
          [⟨lit "username", c.name⟩, ⟨lit "total_balance", lit "0.0000"⟩]).map fun text =>
            [addPage .zero text]) := by
  have hparse : parseRequest loginEnv.lineScratch accountsGet =
      some (some (tokenGet (lit "/accounts"))) := by decide +kernel
  exact session_shows_owner serverRun_login registered_login
    (enrolled_login.symm ▸ readableCustomers_ann) rfl rfl List.mem_cons_self
    (by decide +kernel : tokenCookie annToken ∈ annAnswer.headers) hparse rfl rfl
    (carriesToken_ann _)

/-! ### All accounts -/

/-- The route of the accounts API. -/
def apiAccountsRoute : Route Handler :=
  (routeOf (lit "/api/accounts") .handleApiAccounts [lit "GET", lit "POST"]
    [decodeUrlMiddleware, authMiddleware]).count

/-- **All accounts, as JSON.** After a run of safe registrations with up to 61 customers, who are
read back whole, a request for the accounts with a token of anybody is answered with one object
for each accepted registration of the run, in order, each with a balance of zero. -/
theorem accounts_listed (h : ServerRun crypt (safeRequest crypt) neverStopped log d)
    (hcount : (registered log : ℤ) < intMax) (hstarted : Started log)
    (hreadable : ReadableCustomers (enrolled crypt log)) (hsize : (enrolled crypt log).length ≤ 61)
    (hparse : parseRequest e.lineScratch received = some (some req))
    (hmethod : req.method = lit "GET") (hpath : req.path = lit "/api/accounts") {data : JwtData}
    (hauth : Authenticated (e.middlewareEnv 1) req data) :
    (passResponses e received).result d =
      some [{ addContentType (makeResFirstLine .zero .ok) .json with
        body := apiDocument ((enrolled crypt log).zipIdx.map fun p =>
          ⟨printNat p.2, p.1.accountCreatedAt, lit "0.000000"⟩) }] := by
  obtain ⟨b, hcustomers, hkeeps⟩ := h.exists_bank hcount
  obtain ⟨-, haccount⟩ := h.tables hcount hstarted hkeeps
  have hroute : getRoute routeRegistry req = .valid apiAccountsRoute := by
    rw [getRoute_eq_valid_iff, hpath, hmethod]
    exact ⟨rfl, by decide +kernel⟩
  have hget : (decodedBody req).method = lit "GET" := hmethod
  rw [result_passResponses hparse
    (startPass_authenticated hroute rfl (by rw [hpath]; decide) hauth)]
  have hrun : ∀ req' : HttpRequest, (runHandler e.handlerEnv req' .zero .handleApiAccounts).result
      d = (handleApiAccounts e.handlerEnv req' .zero d).map fun res => [res] := fun _ => rfl
  rw [← hcustomers] at hreadable hsize ⊢
  rw [apiAccountsRoute, routeOf, Route.count, hrun, handleApiAccounts, if_pos hget,
    handleGETApiAccounts_eq, Bank.apiBody_eq hreadable haccount hsize]
  rfl

/-- Ann's request for all accounts. -/
def apiGet : Received :=
  ⟨lit "GET /api/accounts HTTP/1.1" ++ crlf ++ lit "Cookie: token=" ++ annToken ++ crlf ++
    lit "Host: bank" ++ crlf ++ crlf, by decide +kernel⟩

/-- Bob, as the bank knows him. -/
def bobCustomer : Customer :=
  customerOf id sampleEnv ⟨lit "bob", lit "bob@x", lit "2", lit "secret"⟩

theorem enrolled_two :
    enrolled id (servedAll Disk.empty annEvents ++ [bobServed]) = [annCustomer, bobCustomer] := by
  have hbob : requests id [bobServed] = [(bobCustomer, true)] := by decide +kernel
  rw [enrolled_append, enrolled_ann, enrolled, hbob]
  rfl

/-- Both rows are read back whole. -/
theorem readableCustomers_two : ReadableCustomers [annCustomer, bobCustomer] where
  count := by decide
  users := by
    intro n c hn
    match n, hn with
    | 0, hn => exact readableCustomers_ann.users 0 c hn
    | 1, hn =>
        obtain rfl := Option.some.inj hn
        exact ⟨⟨by decide +kernel, by decide +kernel, by decide +kernel, by decide +kernel⟩,
          by decide, by decide, by decide, by decide +kernel⟩
  dates := by
    intro c hc
    rcases List.mem_cons.mp hc with rfl | hc
    · exact readableCustomers_ann.dates _ List.mem_cons_self
    · obtain rfl := List.mem_singleton.mp hc
      exact ⟨by decide +kernel, by decide⟩

/-- The accounts of Ann and Bob. -/
theorem accounts_listed_two :
    (passResponses loginEnv apiGet).result bobDisk =
      some [{ addContentType (makeResFirstLine .zero .ok) .json with
        body := apiDocument ((enrolled id (servedAll Disk.empty annEvents ++
          [bobServed])).zipIdx.map fun p =>
            ⟨printNat p.2, p.1.accountCreatedAt, lit "0.000000"⟩) }] := by
  have hparse : parseRequest loginEnv.lineScratch apiGet =
      some (some (tokenGet (lit "/api/accounts"))) := by decide +kernel
  have hstarted : Started (servedAll Disk.empty annEvents ++ [bobServed]) := by
    obtain ⟨served, hserved, hevent, hresult⟩ := started_ann
    exact ⟨served, List.mem_append_left _ hserved, hevent, hresult⟩
  exact accounts_listed (serverRun_two serverRun_ann_safe safeRequest_bob) registered_two_lt
    hstarted (enrolled_two.symm ▸ readableCustomers_two) (by rw [enrolled_two]; decide) hparse
    rfl rfl (authenticated_ann _)

end CBank
