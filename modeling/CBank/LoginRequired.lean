import CBank.CustomerSessions

/-!
# Protected Pages Come After a Login

A handler that is not public is only called for a request whose token has the hash of its first
two parts. When no such hash is made without the secret, the server handed out a token with these
parts before, and so a customer logged in: whoever sends the request, the handler gets the number
and the name of that customer.

That no hash is made without the secret is a property of the hash and of the clients, and is
stated about the log of a run (`Unforged`).

## Main results

* `parseJwtPayload_of_issued`: whom a token with the parts of an issued one is for.
* `protected_after_login`: the requests the protected handlers get.
* `pages_show_customers`: the accounts pages of a run.
* `sessions_end`: when the logins of a run are over.
-/

namespace CBank

open CLib

/-! ### What a token signs -/

/-- The header and the payload of a token, when its third part is their hash. -/
def signedParts (H : Hmac) (secret token : Bytes) : Option (Bytes × Bytes) := do
  let header ← strtok isDot token
  let payload ← strtok isDot header.2
  let signature ← strtok isDot payload.2
  let decodedSignature ← base64urlDecode signature.1
  guard (H.run secret (header.1 ++ [ch '.'] ++ payload.1) = decodedSignature)
  some (header.1, payload.1)

variable {H H' : Hmac} {secret secret' token payload : Bytes}

/-- A token that is accepted signs the payload that is returned. -/
theorem exists_signedParts {now : ℤ} (h : jwtValidate H now token secret = some payload) :
    ∃ header body decoded, signedParts H secret token = some (header, body) ∧
      base64urlDecode body = some decoded ∧ payload = cstr decoded := by
  simp only [jwtValidate, jwtValidateFreed, bind, Option.bind_eq_some_iff,
    Option.guard_eq_some', id_eq] at h
  obtain ⟨⟨header, r1⟩, h1, ⟨body, r2⟩, h2, ⟨signature, r3⟩, h3, decoded, hdecoded, -,
    ⟨hlength, hcompare⟩, decodedPayload, hpayload, expToken, -, hexp⟩ := h
  have hhash := (constantTimeCompare_iff hlength).mp hcompare
  refine ⟨header, body, decodedPayload, ?_, hpayload, ?_⟩
  · simp only [signedParts, h1, h2, h3, hdecoded, hhash, bind, Option.bind_some, guard_true,
      Option.pure_def]
  · split at hexp
    · exact absurd hexp (by simp)
    · exact (Option.some.inj hexp).symm

/-- The first two parts of a generated token, whatever it is checked with. -/
theorem signedParts_generateJwt {header body : Bytes} (hne : payload ≠ [])
    (h : signedParts H secret (generateJwt H' payload secret') = some (header, body)) :
    header = base64urlEncode jwtHeader ∧ body = base64urlEncode payload := by
  have hdot : ∀ data, ∀ c ∈ base64urlEncode data, isDot c = false := by
    intro data c hc
    have hnot : ch '.' ∉ base64urlEncode data :=
      not_mem_base64urlEncode (by decide +kernel) (by decide) (by decide) (by decide)
    simpa using ne_of_mem_of_not_mem hc hnot
  have hcut : ∀ {data : Bytes} (rest : Bytes), data ≠ [] →
      strtok isDot (base64urlEncode data ++ ch '.' :: rest) = some (base64urlEncode data, rest) :=
    fun rest hdata => strtok_append_cons (base64urlEncode_ne_nil hdata) (hdot _) (by decide) rest
  simp only [signedParts, bind, Option.bind_eq_some_iff, Option.guard_eq_some'] at h
  obtain ⟨⟨header', r1⟩, h1, ⟨body', r2⟩, h2, -, -, -, -, -, -, hparts⟩ := h
  simp only [generateJwt, List.append_assoc, List.cons_append, List.nil_append] at h1
  rw [hcut _ (by decide)] at h1
  obtain ⟨rfl, rfl⟩ := Prod.mk.inj (Option.some.inj h1)
  rw [hcut _ hne] at h2
  obtain ⟨rfl, rfl⟩ := Prod.mk.inj (Option.some.inj h2)
  obtain ⟨rfl, rfl⟩ := Prod.mk.inj (Option.some.inj hparts)
  exact ⟨rfl, rfl⟩

/-- A token that is accepted announces an expiry that has not passed. -/
theorem exists_expiry_of_valid {now : ℤ} (h : jwtValidate H now token secret = some payload) :
    ∃ expToken, strstr expKey payload = some expToken ∧
      now ≤ atol (expToken.drop expKey.length) := by
  simp only [jwtValidate, jwtValidateFreed, bind, Option.bind_eq_some_iff,
    Option.guard_eq_some', id_eq] at h
  obtain ⟨-, -, -, -, -, -, -, -, -, -, decodedPayload, -, expToken, hfind, hexp⟩ := h
  split at hexp
  · exact absurd hexp (by simp)
  · rename_i hnow
    obtain rfl := Option.some.inj hexp
    exact ⟨expToken, hfind, not_lt.mp hnow⟩

/-- An accepted token with the parts of an issued one has its payload. -/
theorem payload_of_issued {now t : ℤ} {jwtExp : Option Bytes} {userId name : Bytes}
    (hvalid : jwtValidate H now token secret = some payload)
    (hparts : signedParts H secret token =
      signedParts H secret (createJwtForUser H' t jwtExp secret' userId name))
    (hid : IsUserId userId) (hnul : NulFree name) (hlen : name.length ≤ 49)
    (hfits : FitsLong (expiryAt t jwtExp)) :
    payload = userPayload userId name (expiryAt t jwtExp) := by
  obtain ⟨header, body, decoded, hsigned, hdecoded, rfl⟩ := exists_signedParts hvalid
  rw [hsigned, createJwtForUser, List.take_of_length_le (length_userPayload hid hlen hfits)]
    at hparts
  obtain ⟨-, rfl⟩ := signedParts_generateJwt (by simp [userPayload, lit]) hparts.symm
  rw [base64urlDecode_base64urlEncode, Option.some.injEq] at hdecoded
  rw [← hdecoded, cstr_of_nulFree (nulFree_userPayload hid hnul _)]

/-- **What a token with the parts of an issued one is taken for.** The payload has the number and
the name the other token was issued for, when the name is plain, and it is not accepted longer. -/
theorem parseJwtPayload_of_issued {now t : ℤ} {jwtExp : Option Bytes} {userId name : Bytes}
    (hvalid : jwtValidate H now token secret = some payload)
    (hparts : signedParts H secret token =
      signedParts H secret (createJwtForUser H' t jwtExp secret' userId name))
    (hid : IsUserId userId) (hnul : NulFree name) (hlen : name.length ≤ 49)
    (hplain : NameIsPlain name) (hfits : FitsLong (expiryAt t jwtExp)) :
    parseJwtPayload payload = some ⟨expiryAt t jwtExp, some userId, some name⟩ ∧
      now ≤ expiryAt t jwtExp := by
  obtain rfl := payload_of_issued hvalid hparts hid hnul hlen hfits
  obtain ⟨expToken, hfind, hnow⟩ := exists_expiry_of_valid hvalid
  obtain ⟨expToken', hfind', hread⟩ := exists_expiry_userPayload hid name hfits
  obtain rfl := Option.some.inj (hfind'.symm.trans hfind)
  refine ⟨parseJwtPayload_userPayload hid hplain hfits, ?_⟩
  rwa [hread, enforcedExpiry_of_not_mem hplain.1] at hnow

/-! ### Tokens nobody forged -/

/-- A token in a response of a log. -/
def HandedOut (log : List Served) (token : Bytes) : Prop :=
  ∃ served ∈ log, ∃ rs r, served.result = some rs ∧ r ∈ rs ∧ tokenCookie token ∈ r.headers

/-- The token a request is sent with. -/
def sentToken (e : PassEnv) (received : Received) : Option Bytes := do
  let parsed ← parseRequest e.lineScratch received
  let req ← parsed
  getReqCookie req (lit "token")

/-- A token that is sent with the hash of its first two parts has those of one handed out before.
The environments are those of the two middlewares. -/
def Honest (before : List Served) : ServerEvent → Prop
  | .startUp => True
  | .serve e received => ∀ token i secret parts, sentToken e received = some token →
      getEnv (e.middlewareEnv i) (lit "JWT_SECRET") = some secret →
        signedParts (e.middlewareEnv i).hmac secret token = some parts →
          ∃ issued, HandedOut before issued ∧
            signedParts (e.middlewareEnv i).hmac secret issued = some parts

/-- No token of a log is forged. -/
def Unforged (log : List Served) : Prop :=
  ∀ before served after, log = before ++ served :: after → Honest before served.event

variable {log : List Served} {served : Served}

theorem unforged_nil : Unforged [] := by
  intro before served after h
  simp at h

theorem Unforged.concat (h : Unforged log) (served : Served) (hserved : Honest log served.event) :
    Unforged (log ++ [served]) := by
  intro before last after hlog
  rcases List.eq_nil_or_concat after with rfl | ⟨after, entry, rfl⟩
  · obtain ⟨rfl, hlast⟩ := List.append_inj' hlog rfl
    exact List.singleton_inj.mp hlast ▸ hserved
  · rw [List.concat_eq_append, ← List.cons_append, ← List.append_assoc] at hlog
    obtain ⟨hinit, -⟩ := List.append_inj' hlog rfl
    exact h before last after hinit

/-- A request is honest that has no token, or one that was handed out. -/
theorem honest_of_sentToken {e : PassEnv} {received : Received}
    (h : ∀ token, sentToken e received = some token → HandedOut log token) :
    Honest log (.serve e received) :=
  fun token _ _ _ htoken _ hparts => ⟨token, h token htoken, hparts⟩

/-! ### The login behind a token -/

variable {crypt : Bytes → Bytes} {d : Disk}

/-- A token made for a login, on the tables of a bank: it is for a customer, and has the name of
that customer when all are read back whole. -/
theorem IssuedBy.customer {b : Bank} {env : HandlerEnv} {req : HttpRequest}
    (h : IssuedBy env req d token) (hkeeps : d.Keeps b) (hsafe : b.Safe)
    (hcount : (b.customers.length : ℤ) ≤ intMax) :
    ∃ n c, IssuedTo b.customers env req n c token ∧ (ReadableCustomers b.customers → ∃ secret,
      token = createJwtForUser env.env.hmac env.env.now (getEnv env.env (lit "JWT_EXP")) secret
        (printNat n) c.name) := by
  by_cases hreadable : ReadableCustomers b.customers
  · obtain ⟨n, c, secret, hto, -, htoken⟩ := h.owner hreadable hkeeps
    exact ⟨n, c, hto, fun _ => ⟨secret, htoken⟩⟩
  · obtain ⟨n, c, hto⟩ := h.issuedTo hkeeps hsafe hcount
    exact ⟨n, c, hto, fun hb => absurd hb hreadable⟩

/-- Somebody logged in as a customer: the cpf and the password were posted, and a response carried a
token. -/
def LoggedIn (crypt : Bytes → Bytes) (log : List Served) (issuer : PassEnv) (n : ℕ) (c : Customer)
    (issued : Bytes) : Prop :=
  ∃ earlier login later sent req rs r, log = earlier ++ login :: later ∧
    login.event = .serve issuer sent ∧ calledHandler issuer sent = some (.handleLogin, req) ∧
    req.method = lit "POST" ∧ login.result = some rs ∧ r ∈ rs ∧ tokenCookie issued ∈ r.headers ∧
    IssuedTo (enrolled crypt earlier) issuer.handlerEnv req n c issued

/-- Who logged in is a customer still. -/
theorem LoggedIn.customer {issuer : PassEnv} {n : ℕ} {c : Customer} {issued : Bytes}
    (h : LoggedIn crypt log issuer n c issued) : (enrolled crypt log)[n]? = some c := by
  obtain ⟨earlier, login, later, sent, req, rs, r, rfl, -, -, -, -, -, -, hto⟩ := h
  obtain ⟨hlt, -⟩ := List.getElem?_eq_some_iff.mp hto.customer
  rw [enrolled_append, List.getElem?_append_left hlt]
  exact hto.customer

/-- The lifetime of the tokens of a server. -/
def expiryOf (issuer : PassEnv) : ℤ :=
  expiryAt issuer.handlerEnv.env.now (getEnv issuer.handlerEnv.env (lit "JWT_EXP"))

/-- The login a token of a run was handed out to. -/
theorem HandedOut.loggedIn (hout : HandedOut log token)
    (h : ServerRun crypt (safeRequest crypt) neverStopped log d)
    (hcount : (registered log : ℤ) < intMax) :
    ∃ issuer n c, LoggedIn crypt log issuer n c token ∧
      (ReadableCustomers (enrolled crypt log) → ∃ secret, token = createJwtForUser
        issuer.handlerEnv.env.hmac issuer.handlerEnv.env.now
        (getEnv issuer.handlerEnv.env (lit "JWT_EXP")) secret (printNat n) c.name) := by
  obtain ⟨login, hlogin, rs, r, hresult, hr, hcookie⟩ := hout
  obtain ⟨earlier, later, m, rfl, hcalled⟩ := Runs.exists_called h hlogin
  obtain ⟨hpass, -⟩ := hcalled.finished rs hresult
  rw [registered_append] at hcount
  push_cast at hcount
  obtain ⟨b, hkeeps, hsafe, hlength, hserve⟩ := ServerRun.bank hcalled.run (by omega)
  cases hevent : login.event with
  | startUp =>
      rw [hevent] at hpass
      obtain ⟨u, -, hnone⟩ := Proc.result_bind_eq_some.mp hpass
      obtain rfl := Option.some.inj hnone
      exact absurd hr List.not_mem_nil
  | serve issuer sent =>
      rw [hevent] at hpass
      obtain ⟨req, hhandler, hpost, hissued⟩ := (passResponses_known hpass r hr _ hcookie).token
      obtain ⟨n, c, hto, hname⟩ := hissued.customer hkeeps hsafe (by omega)
      rw [customers_eq_enrolled hserve] at hto hname
      refine ⟨issuer, n, c, ⟨earlier, login, later, sent, req, rs, r, rfl, hevent, hhandler, hpost,
        hresult, hr, hcookie, hto⟩, ?_⟩
      intro hreadable
      rw [enrolled_append] at hreadable
      exact hname hreadable.of_append

/-! ### Protected handlers -/

/-- A handler that is called gets a request that was parsed. -/
theorem exists_handled_of_called {e : PassEnv} {received : Received} {handler : Handler}
    {req : HttpRequest} (h : calledHandler e received = some (handler, req)) :
    ∃ parsed res, parseRequest e.lineScratch received = some (some parsed) ∧
      (startPass routeRegistry e.middlewareEnv (some parsed)).outcome =
        .handled handler req res := by
  obtain ⟨parsed, hparse, h⟩ := Option.bind_eq_some_iff.mp h
  cases parsed with
  | none => exact absurd h (by simp [startPass])
  | some parsed =>
      cases hpass : (startPass routeRegistry e.middlewareEnv (some parsed)).outcome with
      | handled handler' req' res =>
          rw [hpass] at h
          obtain ⟨rfl, rfl⟩ := Prod.mk.inj (Option.some.inj h)
          exact ⟨parsed, res, hparse, hpass⟩
      | _ =>
          rw [hpass] at h
          exact absurd h (by simp)

/-- What a protected handler gets in an honest pass after a run. -/
theorem Honest.loggedIn {e : PassEnv} {received : Received} {handler : Handler} {req : HttpRequest}
    (hhonest : Honest log (.serve e received))
    (h : ServerRun crypt (safeRequest crypt) neverStopped log d)
    (hcount : (registered log : ℤ) < intMax)
    (hhandler : calledHandler e received = some (handler, req))
    (hpublic : handler.isPublic = false) :
    ∃ issuer n c issued, LoggedIn crypt log issuer n c issued ∧ (FitsLong (expiryOf issuer) →
      ReadableCustomers (enrolled crypt log) → NameIsPlain c.name →
        req.authenticatedJwt = ⟨expiryOf issuer, some (printNat n), some c.name⟩ ∧
          ∃ i, (e.middlewareEnv i).now ≤ expiryOf issuer) := by
  obtain ⟨parsed, res, hparse, hpass⟩ := exists_handled_of_called hhandler
  obtain ⟨i, token, secret, payload, hcookie, hsecret, hvalid, hparsed, -⟩ :=
    routes_authenticated hpass hpublic
  -- the token has the parts of one that was handed out before
  obtain ⟨header, body, decoded, hsigned, -⟩ := exists_signedParts hvalid
  have hsent : sentToken e received = some token := by
    rw [sentToken, hparse]
    exact hcookie
  obtain ⟨issued, hout, hparts⟩ := hhonest token i secret _ hsent hsecret hsigned
  obtain ⟨issuer, n, c, hlogged, hname⟩ := hout.loggedIn h hcount
  refine ⟨issuer, n, c, issued, hlogged, fun hfits hreadable hplain => ?_⟩
  obtain ⟨secret', rfl⟩ := hname hreadable
  have huser := hreadable.users n c hlogged.customer
  have hid : IsUserId (printNat n) := by
    obtain ⟨hlt, -⟩ := List.getElem?_eq_some_iff.mp hlogged.customer
    exact isUserId_printNat ((Int.ofNat_lt.mpr hlt).trans_le hreadable.count_le)
  have hnul : NulFree c.name := (huser.value c.name (by simp)).1
  obtain ⟨hpayload, hnow⟩ := parseJwtPayload_of_issued hvalid (hsigned.trans hparts.symm) hid hnul
    (Nat.le_of_lt_succ huser.name.2) hplain hfits
  exact ⟨Option.some.inj (hparsed.symm.trans hpayload), i, hnow⟩

/-! ### Ann asks for her page -/

/-- Her page. -/
def annPage : HttpResponse := addPage .zero (lit "ann: 0.0000")

theorem parseRequest_accountsGet : parseRequest loginEnv.lineScratch accountsGet =
    some (some (tokenGet (lit "/accounts"))) := by decide +kernel

/-- The answer to her request for it, after her login. -/
theorem result_accountsGet :
    (passResponses loginEnv accountsGet).result loginDisk = some [annPage] := by
  obtain ⟨b, hcustomers, hkeeps⟩ := ServerRun.exists_bank serverRun_login registered_login
  rw [enrolled_login] at hcustomers
  have hn : b.customers[0]? = some annCustomer := by rw [hcustomers]; rfl
  rw [result_accounts_of_customer (hcustomers ▸ readableCustomers_ann) hkeeps hn
    parseRequest_accountsGet rfl rfl (authenticated_ann _) rfl]
  decide +kernel

/-- Her request, after her login. -/
def pageServed : Served :=
  ⟨.serve loginEnv accountsGet, (passResponses loginEnv accountsGet).ops loginDisk, some [annPage]⟩

theorem serverRun_page : ServerRun id (safeRequest id) neverStopped
    (servedAll Disk.empty annEvents ++ [loginServed] ++ [pageServed])
    ((passResponses loginEnv accountsGet).after loginDisk) := by
  have hsafe : safeRequest id loginDisk (.serve loginEnv accountsGet) := by
    intro c hc
    have hnone : (ServerEvent.serve loginEnv accountsGet).call = none := by
      rw [ServerEvent.call, Option.map_eq_none_iff]
      decide +kernel
    rw [hnone] at hc
    simp at hc
  exact Runs.finish serverRun_login ⟨hsafe, rfl⟩ result_accountsGet

theorem handedOut_ann : HandedOut (servedAll Disk.empty annEvents ++ [loginServed]) annToken :=
  ⟨loginServed, by simp, [annAnswer], annAnswer, rfl, List.mem_cons_self, by decide +kernel⟩

theorem unforged_page :
    Unforged (servedAll Disk.empty annEvents ++ [loginServed] ++ [pageServed]) := by
  have hnone : ∀ {log : List Served} {e : PassEnv} {received : Received},
      sentToken e received = none → Honest log (.serve e received) := by
    intro log e received h
    exact honest_of_sentToken fun token htoken => absurd (h.symm.trans htoken) (by simp)
  have hann : Unforged (servedAll Disk.empty annEvents) :=
    ((unforged_nil.concat (ServerEvent.startUp.served Disk.empty) trivial).concat _
      (hnone (by decide +kernel : sentToken annEnv strayRequest = none))).concat _
        (hnone (by decide +kernel : sentToken annEnv annPost = none))
  have hlogin : Honest (servedAll Disk.empty annEvents) loginServed.event :=
    hnone (by decide +kernel)
  refine (hann.concat _ hlogin).concat _ ?_
  refine honest_of_sentToken fun token htoken => ?_
  have hsent : sentToken loginEnv accountsGet = some annToken := by
    rw [sentToken, parseRequest_accountsGet]
    rfl
  obtain rfl := Option.some.inj (hsent.symm.trans htoken)
  exact handedOut_ann

/-- Her request, as the handler of the page gets it. -/
def annRequest : HttpRequest :=
  { decodedBody (tokenGet (lit "/accounts")) with
    authenticatedJwt := ⟨3600, some (lit "0"), some (lit "ann")⟩ }

theorem calledHandler_accountsGet :
    calledHandler loginEnv accountsGet = some (.handleAccounts, annRequest) := by
  have hpass := startPass_authenticated (getRoute_accounts rfl rfl) rfl
    (by decide : ch '?' ∉ lit "/accounts") (authenticated_ann (lit "/accounts"))
  rw [calledHandler, parseRequest_accountsGet, Option.bind_eq_bind, Option.bind_some, hpass]
  rfl

/-! ### Runs -/

/-- **Protected pages come after a login.** In a run of the server that is never stopped, whose
requests to register are safe and whose tokens are not forged, a handler that is not public is
only called when somebody logged in before, with the cpf and the password of a customer. It gets
the number and the name of the customer, if the name is plain and all are read back whole. -/
theorem protected_after_login {before after : List Served}
    (h : ServerRun crypt (safeRequest crypt) neverStopped (before ++ served :: after) d)
    (hcount : (registered before : ℤ) < intMax) (hunforged : Unforged (before ++ served :: after))
    {e : PassEnv} {received : Received} (hevent : served.event = .serve e received)
    {handler : Handler} {req : HttpRequest}
    (hhandler : calledHandler e received = some (handler, req))
    (hpublic : handler.isPublic = false) :
    ∃ issuer n c issued, LoggedIn crypt before issuer n c issued ∧ (FitsLong (expiryOf issuer) →
      ReadableCustomers (enrolled crypt before) → NameIsPlain c.name →
        req.authenticatedJwt = ⟨expiryOf issuer, some (printNat n), some c.name⟩) := by
  obtain ⟨m, hcalled, -⟩ := h.called
  have hhonest : Honest before (.serve e received) := hevent ▸ hunforged before served after rfl
  obtain ⟨issuer, n, c, issued, hlogged, hjwt⟩ :=
    hhonest.loggedIn hcalled.run hcount hhandler hpublic
  exact ⟨issuer, n, c, issued, hlogged, fun hfits hreadable hplain =>
    (hjwt hfits hreadable hplain).1⟩

/-- Ann's page comes after her login. -/
theorem protected_after_login_ann :
    ∃ issuer n c issued, LoggedIn id (servedAll Disk.empty annEvents ++ [loginServed]) issuer n c
        issued ∧ (FitsLong (expiryOf issuer) →
      ReadableCustomers (enrolled id (servedAll Disk.empty annEvents ++ [loginServed])) →
        NameIsPlain c.name →
          annRequest.authenticatedJwt = ⟨expiryOf issuer, some (printNat n), some c.name⟩) :=
  protected_after_login serverRun_page registered_login unforged_page rfl calledHandler_accountsGet
    rfl

/-- **The pages of a run show who logged in.** In such a run whose customers have plain names and
are read back whole, every accounts page shows, with a balance of zero, the name of a customer
whose cpf and password somebody sent before. -/
theorem pages_show_customers {before after : List Served}
    (h : ServerRun crypt (safeRequest crypt) neverStopped (before ++ served :: after) d)
    (hcount : (registered before : ℤ) < intMax) (hunforged : Unforged (before ++ served :: after))
    (hreadable : ReadableCustomers (enrolled crypt before))
    (hplain : ∀ c ∈ enrolled crypt before, NameIsPlain c.name)
    (hfits : ∀ login ∈ before, ∀ issuer sent, login.event = .serve issuer sent →
      FitsLong (expiryOf issuer))
    {e : PassEnv} {received : Received} (hevent : served.event = .serve e received)
    {req : HttpRequest} (hhandler : calledHandler e received = some (.handleAccounts, req))
    {rs : List HttpResponse} (hresult : served.result = some rs) :
    ∃ issuer n c issued text, LoggedIn crypt before issuer n c issued ∧
      renderPage e.handlerEnv (lit "./src/server/templates/accounts.html")
        [⟨lit "username", c.name⟩, ⟨lit "total_balance", lit "0.0000"⟩] = some text ∧
      rs = [addPage .zero text] := by
  obtain ⟨m, hcalled, -⟩ := h.called
  obtain ⟨hpass, -⟩ := hcalled.finished rs hresult
  rw [hevent] at hpass
  have hhonest : Honest before (.serve e received) := hevent ▸ hunforged before served after rfl
  obtain ⟨issuer, n, c, issued, hlogged, hjwt⟩ :=
    hhonest.loggedIn hcalled.run hcount hhandler rfl
  have hc := hlogged.customer
  have hfit : FitsLong (expiryOf issuer) := by
    obtain ⟨earlier, login, later, sent, -, -, -, rfl, hlogin, -⟩ := hlogged
    exact hfits login (by simp) issuer sent hlogin
  have hsub := congrArg JwtData.sub
    (hjwt hfit hreadable (hplain c (List.mem_of_getElem? hc))).1
  -- the handler reads the tables of the bank of the run
  obtain ⟨b, hcustomers, hkeeps⟩ := ServerRun.exists_bank hcalled.run hcount
  rw [← hcustomers] at hreadable hc
  obtain ⟨huser, haccount⟩ := hkeeps.tables (List.ne_nil_of_mem (List.mem_of_getElem? hc))
  have hrun := runHandler_of_passResponses hpass hhandler
  have hpage : (runHandler e.handlerEnv req .zero .handleAccounts).result m =
      (handleAccounts e.handlerEnv req .zero m).map fun res => [res] := rfl
  rw [hpage, Bank.handleAccounts_eq hreadable huser haccount e.handlerEnv hsub, Bank.find_id hc,
    Option.map_map, Option.map_eq_some_iff] at hrun
  obtain ⟨text, htext, rfl⟩ := hrun
  exact ⟨issuer, n, c, issued, text, hlogged, htext, rfl⟩

/-- The environments of her run. -/
theorem issuer_ann {login : Served} {issuer : PassEnv} {sent : Received}
    (hlogin : login ∈ servedAll Disk.empty annEvents ++ [loginServed])
    (hevent : login.event = .serve issuer sent) : issuer = annEnv ∨ issuer = loginEnv := by
  have hserve : ∀ {e : PassEnv} {received : Received},
      ServerEvent.serve e received = .serve issuer sent → issuer = e :=
    fun h => (ServerEvent.serve.inj h).1.symm
  rcases List.mem_append.mp hlogin with hlogin | hlogin
  · rcases List.mem_cons.mp hlogin with rfl | hlogin
    · exact ServerEvent.noConfusion hevent
    · rcases List.mem_cons.mp hlogin with rfl | hlogin
      · exact Or.inl (hserve hevent)
      · obtain rfl := List.mem_singleton.mp hlogin
        exact Or.inl (hserve hevent)
  · obtain rfl := List.mem_singleton.mp hlogin
    exact Or.inr (hserve hevent)

/-- A login of her run is over within the hour. -/
theorem expiry_ann {login : Served} {issuer : PassEnv} {sent : Received}
    (hlogin : login ∈ servedAll Disk.empty annEvents ++ [loginServed])
    (hevent : login.event = .serve issuer sent) :
    FitsLong (expiryOf issuer) ∧ expiryOf issuer < 3601 := by
  rcases issuer_ann hlogin hevent with rfl | rfl
  · exact ⟨⟨by decide +kernel, by decide +kernel⟩, by decide +kernel⟩
  · exact ⟨⟨by decide +kernel, by decide +kernel⟩, by decide +kernel⟩

/-- Ann's page shows Ann. -/
theorem pages_show_customers_ann : ∃ issuer n c issued text,
    LoggedIn id (servedAll Disk.empty annEvents ++ [loginServed]) issuer n c issued ∧
      renderPage loginEnv.handlerEnv (lit "./src/server/templates/accounts.html")
        [⟨lit "username", c.name⟩, ⟨lit "total_balance", lit "0.0000"⟩] = some text ∧
      [annPage] = [addPage .zero text] := by
  refine pages_show_customers serverRun_page registered_login unforged_page
    (enrolled_login.symm ▸ readableCustomers_ann) ?_ ?_ rfl calledHandler_accountsGet rfl
  · rw [enrolled_login]
    intro c hc
    obtain rfl := List.mem_singleton.mp hc
    exact ⟨by decide, by decide, by decide⟩
  · rintro login hlogin issuer sent hevent
    exact (expiry_ann hlogin hevent).1

/-- **Sessions end.** After a run whose customers have plain names and are read back whole, a
request that forges no token and comes when the lifetime of every login of the run is over, by the
clocks of the middlewares, reaches no handler that is not public. -/
theorem sessions_end (h : ServerRun crypt (safeRequest crypt) neverStopped log d)
    (hcount : (registered log : ℤ) < intMax) (hreadable : ReadableCustomers (enrolled crypt log))
    (hplain : ∀ c ∈ enrolled crypt log, NameIsPlain c.name) {e : PassEnv} {received : Received}
    (hhonest : Honest log (.serve e received))
    (hover : ∀ issuer n c issued, LoggedIn crypt log issuer n c issued →
      FitsLong (expiryOf issuer) ∧ ∀ i, expiryOf issuer < (e.middlewareEnv i).now)
    {handler : Handler} (hpublic : handler.isPublic = false) (req : HttpRequest) :
    calledHandler e received ≠ some (handler, req) := by
  intro hhandler
  obtain ⟨issuer, n, c, issued, hlogged, hjwt⟩ := hhonest.loggedIn h hcount hhandler hpublic
  obtain ⟨hfits, hlate⟩ := hover issuer n c issued hlogged
  obtain ⟨-, i, hnow⟩ := hjwt hfits hreadable (hplain c (List.mem_of_getElem? hlogged.customer))
  exact (hlate i).not_ge hnow

/-- The server more than an hour later. -/
def lateEnv : PassEnv :=
  { loginEnv with middlewareEnv := fun i => { loginEnv.middlewareEnv i with now := 3601 } }

/-- Ann's session is over an hour after her login. -/
theorem sessions_end_ann :
    calledHandler lateEnv accountsGet ≠ some (.handleAccounts, annRequest) := by
  refine sessions_end serverRun_login registered_login
    (enrolled_login.symm ▸ readableCustomers_ann) ?_ ?_ ?_ rfl annRequest
  · rw [enrolled_login]
    intro c hc
    obtain rfl := List.mem_singleton.mp hc
    exact ⟨by decide, by decide, by decide⟩
  · refine honest_of_sentToken fun token htoken => ?_
    have hsent : sentToken lateEnv accountsGet = some annToken := by
      have hparse : parseRequest lateEnv.lineScratch accountsGet =
          some (some (tokenGet (lit "/accounts"))) := parseRequest_accountsGet
      rw [sentToken, hparse]
      rfl
    obtain rfl := Option.some.inj (hsent.symm.trans htoken)
    exact handedOut_ann
  · rintro issuer n c issued ⟨earlier, login, later, sent, -, -, -, hlog, hevent, -⟩
    have hmem : login ∈ servedAll Disk.empty annEvents ++ [loginServed] := by
      rw [hlog]
      simp
    have hnow : ∀ i, (lateEnv.middlewareEnv i).now = 3601 := fun _ => rfl
    simp only [hnow, forall_const]
    exact expiry_ann hmem hevent

end CBank
