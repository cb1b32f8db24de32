import CBank.Pages
import CBank.RequestParser

/-!
# What a Pass Relies On

The steps of a pass of the loop in `start` that have no defined behaviour in C, as conditions on
what the pass starts from: the bytes that were read, the stack, the secrets, the templates and the
stores. The parser, the middlewares and the handler each have their own.

## Main results

* `isSome_parseRequest_iff`: when the parser is defined.
* `startPass_undefined_iff`: when the middlewares are not.
* `isSome_runHandler_iff`: when a handler is.
-/

namespace CBank

open CLib

/-! ### The parser -/

/-- The cookies of a list of headers fit the array they are stored in. -/
def CookiesFit (headers : List HttpHeader) : Prop :=
  ∀ value, getHeader { HttpRequest.zero with headers := headers } .cookie = some value →
    ((tokens isCookieDelim value).filterMap parseCookie).length ≤ maxStoredCookies

/-- **What the parser relies on**: the words of the request line are found in its copy, the
cookies fit their array, and the announced body lies in the buffer. -/
structure ParserDefined (scratch : LineScratch) (received : Received) : Prop where
  words : ∀ line headerStart, cutAtStr crlf (cstr received.1) = some (line, headerStart) →
    line.length < 512 → (tokensIn (· == ch ' ') 4 (line ++ scratch.1.drop line.length)).isSome
  cookies : ∀ line headerStart req,
    cutAtStr crlf (cstr received.1) = some (line, headerStart) →
      parseReqLine scratch (cstr received.1) .zero = some (some req) →
        CookiesFit (parseReqHeaders headerStart).1
  body : ∀ req bodyStart len, parseReqHead scratch received = some (some (req, bodyStart)) →
    announcedLength req = some len →
      ∃ start, bodyStart = some start ∧ start + len ≤ clientBufferSize

theorem isSome_parseReqCookies_iff {req : HttpRequest} :
    (parseReqCookies req).isSome ↔ CookiesFit req.headers := by
  have hget : getHeader { HttpRequest.zero with headers := req.headers } .cookie =
      getHeader req .cookie := rfl
  rw [parseReqCookies, CookiesFit, hget]
  by_cases hheaders : req.headers = []
  · have hnone : getHeader req .cookie = none := by
      rw [getHeader, hheaders]
      rfl
    simp [hheaders, hnone]
  · rw [if_neg hheaders]
    cases getHeader req .cookie with
    | none => simp
    | some value =>
        simp only [Option.some.injEq, forall_eq']
        by_cases hfit : ((tokens isCookieDelim value).filterMap parseCookie).length ≤
            maxStoredCookies
        · simp [hfit]
        · simp [hfit]

/-- When the request before its body is parsed. -/
theorem isSome_parseReqHead_iff {scratch : LineScratch} {received : Received} :
    (parseReqHead scratch received).isSome ↔
      (parseReqLine scratch (cstr received.1) .zero).isSome ∧
        ∀ line headerStart req, cutAtStr crlf (cstr received.1) = some (line, headerStart) →
          parseReqLine scratch (cstr received.1) .zero = some (some req) →
            CookiesFit (parseReqHeaders headerStart).1 := by
  rw [parseReqHead]
  simp only [cstr_clientBuffer, Option.bind_eq_bind]
  cases hline : parseReqLine scratch (cstr received.1) .zero with
  | none => simp
  | some parsed =>
      cases parsed with
      | none => simp
      | some req =>
          obtain ⟨line, headerStart, hcut⟩ := exists_cut_of_parseReqLine hline
          have hcookies := @isSome_parseReqCookies_iff
            { req with headers := (parseReqHeaders headerStart).1 }
          simp only [hcut, Option.bind_some, Option.isSome_some, true_and, Option.some.injEq,
            Prod.mk.injEq]
          rw [isSome_bind_iff]
          constructor
          · rintro ⟨cookied, hcookied, -⟩ _ _ _ ⟨rfl, rfl⟩ -
            exact hcookies.mp (by rw [hcookied]; rfl)
          · intro h
            obtain ⟨cookied, hcookied⟩ :=
              Option.isSome_iff_exists.mp (hcookies.mpr (h line headerStart req ⟨rfl, rfl⟩ rfl))
            exact ⟨cookied, hcookied, rfl⟩

theorem isSome_storedBody_iff {clientBuf : Bytes} {bodyStart : Option ℕ} {req : HttpRequest} :
    (storedBody clientBuf bodyStart req).isSome ↔ ∀ len, announcedLength req = some len →
      ∃ start, bodyStart = some start ∧ start + len ≤ clientBuf.length := by
  rw [storedBody]
  cases announcedLength req with
  | none => simp
  | some len =>
      simp only [Option.bind_eq_bind, isSome_bind_iff, Option.some.injEq, forall_eq']
      refine exists_congr fun start => and_congr_right fun _ => ?_
      split
      · rename_i hin
        exact iff_of_true rfl hin
      · rename_i hout
        exact iff_of_false (by simp) hout

/-- **When the parser is defined.** -/
theorem isSome_parseRequest_iff {scratch : LineScratch} {received : Received} :
    (parseRequest scratch received).isSome ↔ ParserDefined scratch received := by
  have hlen : (clientBuffer received).length = clientBufferSize := by
    have := received.2.2
    rw [clientBuffer, List.length_append, List.length_replicate]
    omega
  have hbody : ∀ req bodyStart, (parseReqBody (clientBuffer received) bodyStart req).isSome ↔
      ∀ len, announcedLength req = some len →
        ∃ start, bodyStart = some start ∧ start + len ≤ clientBufferSize := by
    intro req bodyStart
    rw [parseReqBody, Option.isSome_map, isSome_storedBody_iff, hlen]
  rw [parseRequest, Option.bind_eq_bind, isSome_bind_iff]
  constructor
  · rintro ⟨head, hhead, hrest⟩
    obtain ⟨hline, hcookies⟩ := isSome_parseReqHead_iff.mp (by rw [hhead]; rfl)
    refine ⟨isSome_parseReqLine_iff.mp hline, hcookies, fun req bodyStart len hparsed => ?_⟩
    obtain rfl := Option.some.inj (hhead.symm.trans hparsed)
    rw [Option.isSome_map] at hrest
    exact (hbody req bodyStart).mp hrest len
  · intro h
    obtain ⟨head, hhead⟩ := Option.isSome_iff_exists.mp
      (isSome_parseReqHead_iff.mpr ⟨isSome_parseReqLine_iff.mpr h.words, h.cookies⟩)
    refine ⟨head, hhead, ?_⟩
    cases head with
    | none => rfl
    | some parsed =>
        rw [Option.isSome_map]
        exact (hbody parsed.1 parsed.2).mpr fun len => h.body parsed.1 parsed.2 len hhead

/-! ### The middlewares -/

/-- **What `auth_middleware` relies on**: a token that gets as far as the hash is checked under a
secret, and the payload of an accepted one is read. -/
def AuthDefined (env : Env) (req : HttpRequest) : Prop :=
  ∀ token, getReqCookie req (lit "token") = some token →
    (jwtValidateEnv env token).isSome ∧
      ∀ payload, jwtValidateEnv env token = some (some payload) →
        (parseJwtPayload payload).isSome

theorem isSome_authMiddleware_iff {env : Env} {req : HttpRequest} {res : HttpResponse} :
    (authMiddleware env req res).isSome ↔ AuthDefined env req := by
  rw [authMiddleware, AuthDefined]
  cases getReqCookie req (lit "token") with
  | none => simp
  | some token =>
      simp only [Option.bind_eq_bind, isSome_bind_iff, Option.some.injEq, forall_eq']
      constructor
      · rintro ⟨validated, hvalidated, hrest⟩
        refine ⟨by rw [hvalidated]; rfl, fun payload hpayload => ?_⟩
        obtain rfl := Option.some.inj (hvalidated.symm.trans hpayload)
        obtain ⟨parsed, hparsed, -⟩ := isSome_bind_iff.mp hrest
        rw [hparsed]
        rfl
      · rintro ⟨hvalidated, hparse⟩
        obtain ⟨validated, hvalidated⟩ := Option.isSome_iff_exists.mp hvalidated
        refine ⟨validated, hvalidated, ?_⟩
        cases validated with
        | none => rfl
        | some payload =>
            obtain ⟨parsed, hparsed⟩ := Option.isSome_iff_exists.mp (hparse payload hvalidated)
            refine isSome_bind_iff.mpr ⟨parsed, hparsed, ?_⟩
            split
            · rfl
            · rfl

/-- `decode_url_middleware` is always defined, and keeps the cookies and the response. -/
theorem exists_decodeUrlMiddleware (env : Env) (req : HttpRequest) (res : HttpResponse) :
    ∃ req', decodeUrlMiddleware env req res = some (req', res) ∧ req'.cookies = req.cookies := by
  obtain ⟨⟨req', res'⟩, hdecode⟩ : ∃ s, decodeUrlMiddleware env req res = some s := by
    rw [decodeUrlMiddleware]
    split
    · exact ⟨_, rfl⟩
    · split
      · exact ⟨_, rfl⟩
      · exact ⟨_, rfl⟩
  obtain rfl := decodeUrlMiddleware_response hdecode
  exact ⟨req', hdecode, (decodeUrlMiddleware_keeps hdecode).2⟩

/-- Only the cookies of a request are read by `auth_middleware`. -/
theorem authDefined_congr {env : Env} {req req' : HttpRequest} (h : req'.cookies = req.cookies) :
    AuthDefined env req' ↔ AuthDefined env req := by
  have hget : getReqCookie req' = getReqCookie req := by
    funext name
    rw [getReqCookie, getReqCookie, h]
  rw [AuthDefined, AuthDefined, hget]

/-- The two middlewares differ: one of them turns a request without a cookie away. -/
theorem authMiddleware_ne_decodeUrlMiddleware : authMiddleware ≠ decodeUrlMiddleware := by
  intro h
  have hcall := congrFun (congrFun (congrFun h ⟨zeroHmac, [], 0⟩) .zero) .zero
  have hstatus := congrArg (Option.map fun s => s.2.statusCode) hcall
  exact absurd hstatus (by decide)

/-- When the middlewares of a route are not defined. -/
theorem middlewareRun_undefined_iff {env : ℕ → Env} {req : HttpRequest} {route : Route Handler}
    (hroute : getRoute routeRegistry req = .valid route) :
    (middlewareRun env route req).2 = .undefined ↔
      authMiddleware ∈ route.middlewareList ∧ ¬ AuthDefined (env 1) req := by
  have hmem := List.mem_of_find?_eq_some (getRoute_eq_valid_iff.mp hroute).1
  obtain ⟨req', hdecode, hcookies⟩ := exists_decodeUrlMiddleware (env 0) req .zero
  rw [middlewareRun, (getRoute_counted hroute).middlewareStages_eq]
  have hdecoded : ∀ ms : List Middleware,
      (runStages middlewareFails (callsOf env (decodeUrlMiddleware :: ms)) (req, .zero)).2 =
        (runStages middlewareFails (callsOf (fun i => env (i + 1)) ms) (req', .zero)).2 := by
    intro ms
    have hcalls : callsOf env (decodeUrlMiddleware :: ms) =
        (fun s => decodeUrlMiddleware (env 0) s.1 s.2) :: callsOf (fun i => env (i + 1)) ms :=
      callsOf_append_cons env [] ms decodeUrlMiddleware
    rw [hcalls, runStages_cons_of_passes hdecode rfl]
  rcases middlewareList_routes hmem with ⟨-, hlist⟩ | hlist
  · rw [hlist, hdecoded, List.mem_singleton]
    refine iff_of_false (by simp [callsOf, runStages]) ?_
    exact fun h => authMiddleware_ne_decodeUrlMiddleware h.1
  · rw [hlist, hdecoded, ← authDefined_congr hcookies,
      ← @isSome_authMiddleware_iff (env 1) req' .zero]
    refine Iff.trans ?_ (and_iff_right (List.mem_cons_of_mem _ List.mem_cons_self)).symm
    cases hauth : authMiddleware (env 1) req' .zero with
    | none => simp [callsOf, runStages, hauth]
    | some s =>
        cases hfails : middlewareFails s with
        | true => simp [callsOf, runStages, hauth, hfails]
        | false => simp [callsOf, runStages, hauth, hfails]

/-- **When the middlewares of a pass are not defined.** -/
theorem startPass_undefined_iff {env : ℕ → Env} {req : HttpRequest} :
    (startPass routeRegistry env (some req)).outcome = .undefined ↔
      ∃ route, getRoute routeRegistry req = .valid route ∧
        authMiddleware ∈ route.middlewareList ∧ ¬ AuthDefined (env 1) req := by
  cases hroute : getRoute routeRegistry req with
  | notFound => simp [startPass, hroute]
  | methodNotAllowed => simp [startPass, hroute]
  | valid route =>
      have hverdict : (startPass routeRegistry env (some req)).outcome = .undefined ↔
          (middlewareRun env route req).2 = .undefined := by
        simp only [startPass, hroute]
        cases (middlewareRun env route req).2 <;> simp
      rw [hverdict, middlewareRun_undefined_iff hroute]
      constructor
      · exact fun h => ⟨route, rfl, h⟩
      · rintro ⟨route', heq, h⟩
        obtain rfl : route = route' := by simpa using heq
        exact h

/-! ### The handlers -/

variable {env : HandlerEnv} {req : HttpRequest} {res : HttpResponse} {d : Disk}

/-- **What a rendered page relies on**: its file is there, and its names fit their array. -/
def PageDefined (env : HandlerEnv) (path : Bytes) (vars : List TemplateVar) : Prop :=
  ∃ template, loadTemplateToString env.templates path = some template ∧
    (renderTemplate env.heap template vars).isSome

/-- The login a schema asks for. -/
def loginOf (env : HandlerEnv) (schema : Bytes) (d : Disk) : Option (Option BankUser) :=
  login env.crypt env.userScratch (cstrAt schema (loginSchema.field .cpf).offset)
    (cstrAt schema (loginSchema.field .password).offset) d

/-- **What a login relies on**: its body is parsed, the users can be read, and there is a secret
to issue a token with. -/
structure LoginDefined (env : HandlerEnv) (req : HttpRequest) (d : Disk) : Prop where
  body : (parseLoginBody req).isSome
  users : ∀ schema, parseLoginBody req = some (some schema) → validateLoginSchema schema = true →
    (loginOf env schema d).isSome
  secret : ∀ schema user, parseLoginBody req = some (some schema) →
    validateLoginSchema schema = true → loginOf env schema d = some (some user) →
      (getEnv env.env (lit "JWT_SECRET")).isSome

/-- **What a registration relies on**: its body is parsed, its fields fit the payload, and the
stores take the user. -/
structure RegistrationDefined (env : HandlerEnv) (req : HttpRequest) (d : Disk) : Prop where
  body : (parseRegisterBody req).isSome
  stores : ∀ schema, parseRegisterBody req = some (some schema) →
    ∃ payload, userDtoFromRegisterAccSchema schema = some payload ∧
      ((makeNewUser env.crypt env.callEnv payload).result d).isSome

/-- **What the page of the accounts relies on**: the stores can be read, and the page made. -/
def AccountsPageDefined (env : HandlerEnv) (req : HttpRequest) (d : Disk) : Prop :=
  (listAccounts env.accScratch d).isSome ∧
    ∃ userId user account, req.authenticatedJwt.sub = some userId ∧
      getUserByField env.userScratch (lit "id") userId d = some user ∧
      getAccountByField env.userAccScratch (lit "user_id_fk") userId d = some account ∧
      PageDefined env (lit "./src/server/templates/accounts.html")
        [⟨lit "username", (user.getD BankUser.zero).name⟩,
          ⟨lit "total_balance", doubleToAscii (account.getD Account.zero).balance 4⟩]

/-- What `handle_GET_api_accounts` prints. -/
def accountsJson (accounts : List Account) : JsonBuilder :=
  jsonEndObject (jsonEndArray ((accounts.map accountToGetAccountDTO).foldl accountDTOToJsonObj
    (jsonStartArray (jsonStartObject jsonInit) (lit "data"))))

/-- **What a handler relies on.** -/
def HandlerDefined (env : HandlerEnv) (req : HttpRequest) (d : Disk) : Handler → Prop
  | .handleHome => (env.templates (lit "./src/server/templates/index.html")).isSome
  | .handleTransfer => (env.templates (lit "./src/server/templates/transfer.html")).isSome
  | .handleExtract => (env.templates (lit "./src/server/templates/extract.html")).isSome
  | .handleCards => (env.templates (lit "./src/server/templates/cards.html")).isSome
  | .handlePayments => (env.templates (lit "./src/server/templates/payments.html")).isSome
  | .handleAccounts => AccountsPageDefined env req d
  | .handleApiAccounts => req.method = lit "GET" →
      ∃ accounts, listAccounts env.accScratch d = some accounts ∧
        (jsonBuild (accountsJson accounts)).isSome
  | .handleLogin =>
      (req.method = lit "GET" → (loginPayload env.env req).isSome ∧
        (loginPayload env.env req = some none →
          PageDefined env (lit "./src/server/templates/auth.html") [])) ∧
      (req.method = lit "POST" → LoginDefined env req d)
  | .handleRegisterAccount =>
      (req.method = lit "GET" →
        PageDefined env (lit "./src/server/templates/register.html") []) ∧
      (req.method = lit "POST" → RegistrationDefined env req d)

theorem isSome_renderPage_iff {path : Bytes} {vars : List TemplateVar} :
    (renderPage env path vars).isSome ↔ PageDefined env path vars := isSome_bind_iff

theorem isSome_result_sendsOne_iff {f : Disk → Option HttpResponse} :
    ((sendsOne f).result d).isSome ↔ (f d).isSome := by
  rw [sendsOne, Proc.result_read, Option.isSome_map]

theorem isSome_sendTemplate_iff {path : Bytes} :
    (sendTemplate path env res).isSome ↔ (env.templates path).isSome := by
  rw [sendTemplate, loadTemplateToString, Option.isSome_map, Option.isSome_map]

theorem isSome_handlePOSTLogin_iff :
    (handlePOSTLogin env.crypt env.userScratch env.env req res d).isSome ↔
      LoginDefined env req d := by
  rw [handlePOSTLogin, Option.bind_eq_bind, isSome_bind_iff]
  constructor
  · rintro ⟨parsed, hparsed, hrest⟩
    have hschema : ∀ schema, parseLoginBody req = some (some schema) →
        validateLoginSchema schema = true → ∃ logged, loginOf env schema d = some logged ∧
          ∀ user, logged = some user → (getEnv env.env (lit "JWT_SECRET")).isSome := by
      intro schema hbody hvalid
      obtain rfl := Option.some.inj (hparsed.symm.trans hbody)
      simp only [hvalid, if_true] at hrest
      obtain ⟨logged, hlogged, hrest⟩ := isSome_bind_iff.mp hrest
      refine ⟨logged, hlogged, ?_⟩
      rintro user rfl
      exact Option.isSome_of_isSome_bind hrest
    refine ⟨by rw [hparsed]; rfl, fun schema hbody hvalid => ?_,
      fun schema user hbody hvalid huser => ?_⟩
    · obtain ⟨logged, hlogged, -⟩ := hschema schema hbody hvalid
      rw [hlogged]
      rfl
    · obtain ⟨logged, hlogged, hsecret⟩ := hschema schema hbody hvalid
      exact hsecret user (Option.some.inj (hlogged.symm.trans huser))
  · rintro ⟨hbody, husers, hsecret⟩
    obtain ⟨parsed, hparsed⟩ := Option.isSome_iff_exists.mp hbody
    refine ⟨parsed, hparsed, ?_⟩
    cases parsed with
    | none => rfl
    | some schema =>
        simp only
        split
        · rename_i hvalid
          obtain ⟨logged, hlogged⟩ :=
            Option.isSome_iff_exists.mp (husers schema hparsed hvalid)
          refine isSome_bind_iff.mpr ⟨logged, hlogged, ?_⟩
          cases logged with
          | none => rfl
          | some user =>
              obtain ⟨secret, hfound⟩ :=
                Option.isSome_iff_exists.mp (hsecret schema user hparsed hvalid hlogged)
              exact isSome_bind_iff.mpr ⟨secret, hfound, rfl⟩
        · rfl

theorem isSome_handlePOSTRegisterAccount_iff :
    ((handlePOSTRegisterAccount env.crypt env.callEnv req res).result d).isSome ↔
      RegistrationDefined env req d := by
  rw [handlePOSTRegisterAccount, Proc.isSome_result_bind_iff]
  constructor
  · rintro ⟨parsed, hparsed, hrest⟩
    rw [Proc.result_read] at hparsed
    refine ⟨by rw [hparsed]; rfl, fun schema hbody => ?_⟩
    obtain rfl := Option.some.inj (hparsed.symm.trans hbody)
    obtain ⟨payload, hpayload, hrest⟩ := Proc.isSome_result_bind_iff.mp hrest
    obtain ⟨result, hresult, -⟩ := Proc.isSome_result_bind_iff.mp hrest
    refine ⟨payload, hpayload, ?_⟩
    rw [Proc.after_read, Proc.after_read] at hresult
    rw [hresult]
    rfl
  · rintro ⟨hbody, hstores⟩
    obtain ⟨parsed, hparsed⟩ := Option.isSome_iff_exists.mp hbody
    refine ⟨parsed, hparsed, ?_⟩
    cases parsed with
    | none => rfl
    | some schema =>
        obtain ⟨payload, hpayload, hmade⟩ := hstores schema hparsed
        obtain ⟨result, hresult⟩ := Option.isSome_iff_exists.mp hmade
        refine Proc.isSome_result_bind_iff.mpr ⟨payload, hpayload, ?_⟩
        refine Proc.isSome_result_bind_iff.mpr ⟨result, hresult, ?_⟩
        split
        · rfl
        · rfl

theorem isSome_handleAccounts_iff :
    (handleAccounts env req res d).isSome ↔ AccountsPageDefined env req d := by
  simp only [handleAccounts, AccountsPageDefined, Option.bind_eq_bind, isSome_bind_iff,
    ← isSome_renderPage_iff, Option.isSome_some, and_true]
  constructor
  · rintro ⟨accounts, haccounts, userId, hid, user, huser, account, haccount, text, htext⟩
    exact ⟨by rw [haccounts]; rfl, userId, user, account, hid, huser, haccount,
      by rw [htext]; rfl⟩
  · rintro ⟨haccounts, userId, user, account, hid, huser, haccount, hpage⟩
    obtain ⟨accounts, haccounts⟩ := Option.isSome_iff_exists.mp haccounts
    obtain ⟨text, htext⟩ := Option.isSome_iff_exists.mp hpage
    exact ⟨accounts, haccounts, userId, hid, user, huser, account, haccount, text, htext⟩

theorem isSome_handleGETApiAccounts_iff :
    (handleGETApiAccounts env res d).isSome ↔
      ∃ accounts, listAccounts env.accScratch d = some accounts ∧
        (jsonBuild (accountsJson accounts)).isSome := by
  rw [handleGETApiAccounts, Option.bind_eq_bind, isSome_bind_iff]
  refine exists_congr fun accounts => and_congr_right fun _ => ?_
  simp only [Option.bind_eq_bind, isSome_bind_iff, Option.isSome_some, and_true]
  exact Option.isSome_iff_exists.symm

theorem isSome_handleApiAccounts_iff : (handleApiAccounts env req res d).isSome ↔
    HandlerDefined env req d .handleApiAccounts := by
  rw [handleApiAccounts, HandlerDefined]
  by_cases hget : req.method = lit "GET"
  · simp only [hget, if_true, true_imp_iff]
    exact isSome_handleGETApiAccounts_iff
  · rw [if_neg hget]
    refine iff_of_true ?_ fun h => absurd h hget
    split
    · rfl
    · rfl

theorem isSome_handleLogin_iff :
    (handleLogin env req res d).isSome ↔ HandlerDefined env req d .handleLogin := by
  have hmethods : lit "POST" ≠ lit "GET" := by decide
  rw [handleLogin, HandlerDefined]
  by_cases hget : req.method = lit "GET"
  · simp only [hget, if_true, true_imp_iff, hmethods.symm, false_imp_iff, and_true]
    rw [Option.bind_eq_bind, isSome_bind_iff]
    constructor
    · rintro ⟨payload, hpayload, hrest⟩
      refine ⟨by rw [hpayload]; rfl, fun hnone => ?_⟩
      obtain rfl := Option.some.inj (hpayload.symm.trans hnone)
      simp only [Option.isSome_none, Bool.false_eq_true, if_false, Option.isSome_map,
        handleGETLogin] at hrest
      exact isSome_renderPage_iff.mp hrest
    · rintro ⟨hpayload, hpage⟩
      obtain ⟨payload, hpayload⟩ := Option.isSome_iff_exists.mp hpayload
      refine ⟨payload, hpayload, ?_⟩
      cases payload with
      | some text => rfl
      | none =>
          simp only [Option.isSome_none, Bool.false_eq_true, if_false, Option.isSome_map,
            handleGETLogin]
          exact isSome_renderPage_iff.mpr (hpage hpayload)
  · rw [if_neg hget]
    by_cases hpost : req.method = lit "POST"
    · simp only [hpost, if_true, hmethods, false_imp_iff, true_and, true_imp_iff]
      rw [Option.bind_eq_bind, isSome_bind_iff, ← @isSome_handlePOSTLogin_iff env req res d]
      simp [Option.isSome_iff_exists]
    · simp [hget, hpost]

theorem isSome_handleRegisterAccount_iff : ((handleRegisterAcocunt env req res).result d).isSome ↔
    HandlerDefined env req d .handleRegisterAccount := by
  have hmethods : lit "POST" ≠ lit "GET" := by decide
  rw [handleRegisterAcocunt, HandlerDefined]
  by_cases hget : req.method = lit "GET"
  · simp only [hget, if_true, true_imp_iff, hmethods.symm, false_imp_iff, and_true]
    rw [Proc.result_read, Option.isSome_map, handleGETRegisterAccount, Option.isSome_map]
    exact isSome_renderPage_iff
  · rw [if_neg hget]
    by_cases hpost : req.method = lit "POST"
    · simp only [hpost, if_true, hmethods, false_imp_iff, true_and, true_imp_iff]
      rw [Proc.isSome_result_bind_iff, ← @isSome_handlePOSTRegisterAccount_iff env req res d]
      simp [Option.isSome_iff_exists]
    · simp [hget, hpost]

/-- **When a handler is defined.** -/
theorem isSome_runHandler_iff {handler : Handler} :
    ((runHandler env req res handler).result d).isSome ↔ HandlerDefined env req d handler := by
  cases handler with
  | handleHome => exact isSome_result_sendsOne_iff.trans isSome_sendTemplate_iff
  | handleTransfer => exact isSome_result_sendsOne_iff.trans isSome_sendTemplate_iff
  | handleExtract => exact isSome_result_sendsOne_iff.trans isSome_sendTemplate_iff
  | handleCards => exact isSome_result_sendsOne_iff.trans isSome_sendTemplate_iff
  | handlePayments => exact isSome_result_sendsOne_iff.trans isSome_sendTemplate_iff
  | handleAccounts => exact isSome_result_sendsOne_iff.trans isSome_handleAccounts_iff
  | handleApiAccounts => exact isSome_result_sendsOne_iff.trans isSome_handleApiAccounts_iff
  | handleLogin => exact isSome_handleLogin_iff
  | handleRegisterAccount => exact isSome_handleRegisterAccount_iff

end CBank
