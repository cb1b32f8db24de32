import CBank.Schemas
import CBank.Server

/-!
# The Registration and Login Handlers

The POST branches of `api/http_handlers/register_account_handler.c` and of
`api/http_handlers/login_handler.c`, behind the pass of the server loop that calls them. A
handler without a `Content-Type` compares NULL, and one without a `JWT_SECRET` hashes with
NULL; neither is defined.

## Main results

* `serveRegister_accepted`: what a registration that is not answered with an error did.
* `serveLogin_eq`: how a login is answered once the user table was asked.
-/

namespace CBank

open CLib

/-- The parser `handle_POST_register_account` calls, on a zeroed schema. The inner `none` is
a malformed body. -/
def parseRegisterBody (req : HttpRequest) : Option (Option Bytes) := do
  let contentType ← getHeader req .contentType
  let parser := match bodyEncoding contentType with
    | .json => parseRegisterAccJsonSchema
    | .form => parseRegisterAccXwfUrlencodedSchema
  parser req (List.replicate registerAccountSchema.size 0)

/-- `handle_POST_register_account`: whether it succeeded, and the response. -/
def handlePOSTRegisterAccount (crypt : Bytes → Bytes) (callEnv : CallEnv) (req : HttpRequest)
    (res : HttpResponse) : Proc Disk FileOp (Bool × HttpResponse) := do
  match ← Proc.read fun _ => parseRegisterBody req with
  | none => pure (false, addBody (makeResFirstLine (addContentType res .plain) .badRequest)
      (lit "Malformed JSON request body"))
  | some schema => do
      let userData ← Proc.read fun _ => userDtoFromRegisterAccSchema schema
      let result ← makeNewUser crypt callEnv userData
      if result.success then pure (true, makeResFirstLine res .noContent)
      else pure (false, addBody (makeResFirstLine res .badRequest) result.message)

/-- The parser `handle_POST_login` calls, on a zeroed schema. -/
def parseLoginBody (req : HttpRequest) : Option (Option Bytes) := do
  let contentType ← getHeader req .contentType
  let parser := match bodyEncoding contentType with
    | .json => parseLoginJsonSchema
    | .form => parseLoginXwfUrlencodedSchema
  parser req (List.replicate loginSchema.size 0)

/-- `handle_POST_login`: whether it succeeded, and the response. -/
def handlePOSTLogin (crypt : Bytes → Bytes) (scratch : UserScratch) (env : Env)
    (req : HttpRequest) (res : HttpResponse) (d : Disk) : Option (Bool × HttpResponse) := do
  match ← parseLoginBody req with
  | none => some (false, addBody (makeResFirstLine (addContentType res .plain) .badRequest)
      (lit "Malformed JSON"))
  | some schema =>
      if validateLoginSchema schema then do
        match ← login crypt scratch (cstrAt schema (loginSchema.field .cpf).offset)
            (cstrAt schema (loginSchema.field .password).offset) d with
        | none => some (false, addBody (addContentType (makeResFirstLine res .unauthorized) .plain)
            (lit "Invalid credentials"))
        | some user => do
            let secret ← getEnv env (lit "JWT_SECRET")
            let token := createJwtForUser env.hmac env.now (getEnv env (lit "JWT_EXP")) secret
              user.id user.name
            some (true, addResTokenCookie (addContentType (makeResFirstLine res .ok) .json) token)
      else some (false, addBody (makeResFirstLine (addContentType res .plain) .badRequest)
        (lit "Invalid fields"))

/-- The response both handlers send for a POST. -/
def sentResponse (handled : Bool × HttpResponse) : HttpResponse :=
  if handled.1 then redirect handled.2 (lit "/accounts") else handled.2

/-- The response to a POST request whose pass ends in `handle_register_acocunt`; the inner
`none` is any other request. -/
def serveRegister (crypt : Bytes → Bytes) (callEnv : CallEnv) (env : ℕ → Env)
    (received : HttpRequest) : Proc Disk FileOp (Option HttpResponse) :=
  match (startPass routeRegistry env (some received)).outcome with
  | .handled .handleRegisterAccount req res =>
      if req.method = lit "POST" then do
        let handled ← handlePOSTRegisterAccount crypt callEnv req res
        pure (some (sentResponse handled))
      else pure none
  | _ => pure none

/-- The response to a POST request whose pass ends in `handle_login`, which runs in the
environment `handlerEnv`; the inner `none` is any other request. -/
def serveLogin (crypt : Bytes → Bytes) (scratch : UserScratch) (env : ℕ → Env)
    (handlerEnv : Env) (received : HttpRequest) (d : Disk) : Option (Option HttpResponse) :=
  match (startPass routeRegistry env (some received)).outcome with
  | .handled .handleLogin req res =>
      if req.method = lit "POST" then do
        let handled ← handlePOSTLogin crypt scratch handlerEnv req res d
        some (some (sentResponse handled))
      else some none
  | _ => some none

/-! ### The passes of the two routes -/

/-- A POST request as it is parsed: its parameter lists are empty. -/
structure PostRequest (path : Bytes) (enc : BodyEncoding) (req : HttpRequest) : Prop where
  method : req.method = lit "POST"
  path : req.path = path
  encoding : (getHeader req .contentType).map bodyEncoding = some enc
  fresh : req.bodyQueryParams = []

/-- The pass of a route that only decodes the body. -/
theorem startPass_decodedBody {env : ℕ → Env} {received : HttpRequest} {route : Route Handler}
    (hroute : getRoute routeRegistry received = .valid route)
    (hlist : route.middlewareList = [decodeUrlMiddleware]) (hpath : ch '?' ∉ received.path) :
    (startPass routeRegistry env (some received)).outcome =
      .handled route.handler (decodedBody received) .zero := by
  refine (startPass_handled_iff hroute).mpr ⟨rfl, ?_⟩
  have hstages : middlewareStages env route = [fun s => decodeUrlMiddleware (env 0) s.1 s.2] := by
    rw [(getRoute_counted hroute).middlewareStages_eq, hlist]
    rfl
  rw [middlewareRun, hstages, runStages]
  simp only [decodeUrlMiddleware_eq hpath]
  rfl

/-- A POST to the login is handled. -/
theorem startPass_login {env : ℕ → Env} {req : HttpRequest} (hmethod : req.method = lit "POST")
    (hpath : req.path = lit "/login") :
    (startPass routeRegistry env (some req)).outcome =
      .handled .handleLogin (decodedBody req) .zero := by
  have hroute : getRoute routeRegistry req = .valid (routeOf (lit "/login") .handleLogin
      [lit "GET", lit "POST"] [decodeUrlMiddleware]).count := by
    rw [getRoute_eq_valid_iff, hpath, hmethod]
    exact ⟨rfl, by decide +kernel⟩
  exact startPass_decodedBody hroute rfl (by rw [hpath]; decide)

/-- A POST to the registration is handled. -/
theorem startPass_register {env : ℕ → Env} {req : HttpRequest}
    (hmethod : req.method = lit "POST") (hpath : req.path = lit "/register") :
    (startPass routeRegistry env (some req)).outcome =
      .handled .handleRegisterAccount (decodedBody req) .zero := by
  have hroute : getRoute routeRegistry req = .valid (routeOf (lit "/register")
      .handleRegisterAccount [lit "GET", lit "POST"] [decodeUrlMiddleware]).count := by
    rw [getRoute_eq_valid_iff, hpath, hmethod]
    exact ⟨rfl, by decide +kernel⟩
  exact startPass_decodedBody hroute rfl (by rw [hpath]; decide)

theorem PostRequest.startPass_login {env : ℕ → Env} {enc : BodyEncoding} {req : HttpRequest}
    (h : PostRequest (lit "/login") enc req) :
    (startPass routeRegistry env (some req)).outcome =
      .handled .handleLogin (decodedBody req) .zero := CBank.startPass_login h.method h.path

theorem PostRequest.startPass_register {env : ℕ → Env} {enc : BodyEncoding} {req : HttpRequest}
    (h : PostRequest (lit "/register") enc req) :
    (startPass routeRegistry env (some req)).outcome =
      .handled .handleRegisterAccount (decodedBody req) .zero :=
  CBank.startPass_register h.method h.path

/-- The parser of a registration, by its encoding. -/
theorem PostRequest.parseRegisterBody_eq {path : Bytes} {enc : BodyEncoding} {req : HttpRequest}
    (h : PostRequest path enc req) : parseRegisterBody (decodedBody req) =
      enc.parse registerAccountSchema RegisterField.key [.cpf, .password, .name, .email]
        [.cpf, .name, .email, .password] (decodedBody req) := by
  obtain ⟨contentType, hheader, rfl⟩ := Option.map_eq_some_iff.mp h.encoding
  have hheader' : getHeader (decodedBody req) .contentType = some contentType := hheader
  rw [parseRegisterBody, hheader', Option.bind_eq_bind, Option.bind_some]
  cases bodyEncoding contentType with
  | json => rfl
  | form => rfl

/-- The parser of a login, by its encoding. -/
theorem PostRequest.parseLoginBody_eq {path : Bytes} {enc : BodyEncoding} {req : HttpRequest}
    (h : PostRequest path enc req) : parseLoginBody (decodedBody req) =
      enc.parse loginSchema LoginField.key [.cpf, .password] [.cpf, .password]
        (decodedBody req) := by
  obtain ⟨contentType, hheader, rfl⟩ := Option.map_eq_some_iff.mp h.encoding
  have hheader' : getHeader (decodedBody req) .contentType = some contentType := hheader
  rw [parseLoginBody, hheader', Option.bind_eq_bind, Option.bind_some]
  cases bodyEncoding contentType with
  | json => rfl
  | form => rfl

/-! ### What the handlers do -/

/-- The payload `handle_POST_register_account` hands to `make_new_user`. -/
def registerPayload (req : HttpRequest) : Option CreateUserDTO := do
  match ← parseRegisterBody req with
  | none => none
  | some schema => userDtoFromRegisterAccSchema schema

variable {crypt : Bytes → Bytes} {env : ℕ → Env} {enc : BodyEncoding} {req : HttpRequest}
  {d : Disk}

/-- A registration, behind the pass that decodes its body. -/
theorem PostRequest.serveRegister_eq {callEnv : CallEnv}
    (hpost : PostRequest (lit "/register") enc req) :
    serveRegister crypt callEnv env req =
      (handlePOSTRegisterAccount crypt callEnv (decodedBody req) .zero >>= fun handled =>
        pure (some (sentResponse handled))) := by
  rw [serveRegister, hpost.startPass_register]
  exact if_pos hpost.method

/-- **A registration that is answered with the redirect** registered its payload, and did
nothing else. -/
theorem serveRegister_accepted {callEnv : CallEnv} (hpost : PostRequest (lit "/register") enc req)
    {res : HttpResponse} (h : (serveRegister crypt callEnv env req).result d = some (some res))
    (hres : res.statusCode = 302) :
    ∃ payload result, registerPayload (decodedBody req) = some payload ∧
      (makeNewUser crypt callEnv payload).result d = some result ∧ result.success = true ∧
      (serveRegister crypt callEnv env req).ops d = (makeNewUser crypt callEnv payload).ops d := by
  have hbad : ∀ res body, (sentResponse
      (false, addBody (makeResFirstLine res .badRequest) body)).statusCode = 400 := fun _ _ => rfl
  rw [hpost.serveRegister_eq] at h ⊢
  obtain ⟨handled, hhandled, hsent⟩ := Proc.result_bind_eq_some.mp h
  rw [Proc.ops_bind_of_some hhandled, Proc.ops_pure, List.append_nil]
  rw [Proc.result_pure, Option.some.injEq, Option.some.injEq] at hsent
  rw [handlePOSTRegisterAccount] at hhandled ⊢
  obtain ⟨parsed, hparsed, hhandled⟩ := Proc.result_bind_eq_some.mp hhandled
  rw [Proc.ops_bind_of_some hparsed, Proc.ops_read, List.nil_append]
  rw [Proc.result_read] at hparsed
  rw [Proc.after_read] at hhandled ⊢
  cases parsed with
  | none =>
      obtain rfl := Option.some.inj hhandled
      rw [← hsent, hbad] at hres
      exact absurd hres (by decide)
  | some schema =>
      obtain ⟨payload, hpayload, hhandled⟩ := Proc.result_bind_eq_some.mp hhandled
      obtain ⟨result, hresult, hhandled⟩ := Proc.result_bind_eq_some.mp hhandled
      rw [Proc.after_read] at hresult
      cases hsuccess : result.success with
      | false =>
          simp only [hsuccess, Bool.false_eq_true, if_false, Proc.result_pure,
            Option.some.injEq] at hhandled
          rw [← hsent, ← hhandled, hbad] at hres
          exact absurd hres (by decide)
      | true =>
          refine ⟨payload, result, ?_, hresult, hsuccess, ?_⟩
          · rw [Proc.result_read] at hpayload
            rw [registerPayload, hparsed, Option.bind_eq_bind, Option.bind_some, ← hpayload]
          · rw [Proc.ops_bind_of_some hpayload, Proc.ops_read, List.nil_append, Proc.after_read,
              Proc.ops_bind_of_some hresult]
            simp [hsuccess]

/-- **How a login with valid fields is answered**: with the token of the user `login`
returns. -/
theorem serveLogin_eq {scratch : UserScratch} {handlerEnv : Env} {schema secret : Bytes}
    {user : BankUser} (hpost : PostRequest (lit "/login") enc req)
    (hparse : parseLoginBody (decodedBody req) = some (some schema))
    (hvalid : validateLoginSchema schema = true)
    (hlogin : login crypt scratch (cstrAt schema (loginSchema.field .cpf).offset)
      (cstrAt schema (loginSchema.field .password).offset) d = some (some user))
    (hsecret : getEnv handlerEnv (lit "JWT_SECRET") = some secret) :
    serveLogin crypt scratch env handlerEnv req d =
      some (some (redirect (addResTokenCookie (addContentType (makeResFirstLine .zero .ok) .json)
        (createJwtForUser handlerEnv.hmac handlerEnv.now (getEnv handlerEnv (lit "JWT_EXP"))
          secret user.id user.name)) (lit "/accounts"))) := by
  have hmethod : (decodedBody req).method = lit "POST" := hpost.method
  rw [serveLogin, hpost.startPass_login]
  simp only [hmethod, if_true, handlePOSTLogin, hparse, hvalid, hlogin, hsecret,
    Option.bind_eq_bind, Option.bind_some, sentResponse]

end CBank
