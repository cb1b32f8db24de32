import CBank.Http

/-!
# Middlewares

`api/middlewares`, with `urldecode` of `server/http_parser.c` and `get_env` of
`secret/manager.c`. A middleware changes a request and its response, or stops being defined.
What it reads besides them is its environment: the secrets, the clock, and the keyed hash.

`decode_url_middleware` cuts the body and the query of the path in place, so both read
shorter afterwards.

## Main results

* `authMiddleware_passes`: what a request that `auth_middleware` lets pass carried.
* `keepsJwt_decodeUrlMiddleware`, `keepsCookies_decodeUrlMiddleware`: the other middleware
  writes neither.
-/

namespace CBank

open CLib

/-- What the middlewares read besides the request. -/
structure Env where
  hmac : Hmac
  secrets : List (Bytes × Bytes)
  now : ℤ

/-- `get_env`. -/
def getEnv (env : Env) (name : Bytes) : Option Bytes :=
  (env.secrets.find? fun secret => name = secret.1).map Prod.snd

/-- A function of type `Middleware`; `none` when it stops being defined. -/
def Middleware := Env → HttpRequest → HttpResponse → Option (HttpRequest × HttpResponse)

/-! ### Form data -/

/-- `isxdigit`. -/
def isXdigit (c : UInt8) : Bool :=
  isDigit c || (ch 'a' ≤ c && c ≤ ch 'f') || (ch 'A' ≤ c && c ≤ ch 'F')

/-- The value of a hexadecimal digit. -/
def xdigitValue (c : UInt8) : UInt8 :=
  let c := if ch 'a' ≤ c then c - 32 else c
  if ch 'A' ≤ c then c - ch 'A' + 10 else c - ch '0'

/-- `urldecode`: 37 is the percent sign, 43 the plus sign. -/
def urldecode : Bytes → Bytes
  | [] => []
  | 37 :: a :: b :: src =>
      if isXdigit a && isXdigit b then (16 * xdigitValue a + xdigitValue b) :: urldecode src
      else 37 :: urldecode (a :: b :: src)
  | 43 :: src => ch ' ' :: urldecode src
  | c :: src => c :: urldecode src

/-- `MAX_PARAMS`. -/
abbrev maxParams : ℕ := 50

/-- `append_query_param`: a parameter past the last slot is dropped. -/
def appendQueryParam (params : List QueryParam) (key value : Bytes) : List QueryParam :=
  if params.length + 1 > maxParams then params else params ++ [⟨key, value⟩]

/-- What one token does to a parameter list. -/
def decodeParam (params : List QueryParam) (token : Bytes) : List QueryParam :=
  match cutAt (ch '=') token with
  | none => params
  | some (key, value) => appendQueryParam params key (cstr (urldecode value))

/-- The delimiters of `strtok_r(_, "&;")`. -/
abbrev isBodyDelim (c : UInt8) : Bool := c == ch '&' || c == ch ';'

/-- The delimiter of `strtok_r(_, "&")`. -/
abbrev isQueryDelim (c : UInt8) : Bool := c == ch '&'

/-- What a text reads as once its tokens were cut in place: its leading delimiters and its
first token, up to an equals sign. -/
def cutByTokens (d : UInt8 → Bool) (text : Bytes) : Bytes :=
  let lead := text.takeWhile d
  let token := (text.drop lead.length).takeWhile fun c => !d c
  lead ++ match cutAt (ch '=') token with
    | none => token
    | some (key, _) => key

/-- `decode_url_middleware`. -/
def decodeUrlMiddleware : Middleware := fun _ req res =>
  if req.body = [] then some (req, res)
  else
    let req' := { req with
      bodyQueryParams := (tokens isBodyDelim req.body).foldl decodeParam req.bodyQueryParams
      body := cutByTokens isBodyDelim req.body }
    match cutAt (ch '?') req.path with
    | none => some (req', res)
    | some (path, query) => some ({ req' with
        urlQueryParams := (tokens isQueryDelim query).foldl decodeParam req.urlQueryParams
        path := path ++ ch '?' :: cutByTokens isQueryDelim query }, res)

/-! ### Authentication -/

/-- `jwt_validate(token, get_env("JWT_SECRET"))`. Without a secret a token that gets as far
as the hash is undefined: `strlen` of NULL. -/
def jwtValidateEnv (env : Env) (token : Bytes) : Option (Option Bytes) :=
  match getEnv env (lit "JWT_SECRET") with
  | some secret => some (jwtValidate env.hmac env.now token secret)
  | none =>
      let signature := do
        let header ← strtok isDot token
        let payload ← strtok isDot header.2
        let signature ← strtok isDot payload.2
        base64urlDecode signature.1
      if signature.isSome then none else some none

/-- `auth_middleware`. -/
def authMiddleware : Middleware := fun env req res =>
  match getReqCookie req (lit "token") with
  | none => some (req, makeNonAuthorized res)
  | some token => do
      match ← jwtValidateEnv env token with
      | none => some (req, makeNonAuthorized res)
      | some payload => do
          let parsed ← parseJwtPayload payload
          if parsed.exp = 0 ∨ parsed.name = none ∨ parsed.sub = none then
            some (req, makeNonAuthorized res)
          else some ({ req with authenticatedJwt := parsed }, res)

/-- The request carries a token that `jwt_validate` accepts under `JWT_SECRET`, and whose
payload parses to `data` with an expiry, a subject and a name. -/
def Authenticated (env : Env) (req : HttpRequest) (data : JwtData) : Prop :=
  ∃ token secret payload, getReqCookie req (lit "token") = some token ∧
    getEnv env (lit "JWT_SECRET") = some secret ∧
    jwtValidate env.hmac env.now token secret = some payload ∧
    parseJwtPayload payload = some data ∧
    data.exp ≠ 0 ∧ data.sub ≠ none ∧ data.name ≠ none

/-- Only the cookies of a request authenticate it. -/
theorem Authenticated.of_cookies {env : Env} {req req' : HttpRequest} {data : JwtData}
    (h : Authenticated env req data) (hcookies : req.cookies = req'.cookies) :
    Authenticated env req' data := by
  obtain ⟨token, secret, payload, hcookie, hrest⟩ := h
  rw [getReqCookie, hcookies] at hcookie
  exact ⟨token, secret, payload, hcookie, hrest⟩

/-- A token is validated under a secret. -/
theorem jwtValidateEnv_eq_some {env : Env} {token payload : Bytes}
    (h : jwtValidateEnv env token = some (some payload)) :
    ∃ secret, getEnv env (lit "JWT_SECRET") = some secret ∧
      jwtValidate env.hmac env.now token secret = some payload := by
  rw [jwtValidateEnv] at h
  cases hsecret : getEnv env (lit "JWT_SECRET") with
  | none =>
      rw [hsecret] at h
      simp only [Option.ite_none_left_eq_some] at h
      exact absurd h.2 (by simp)
  | some secret =>
      rw [hsecret] at h
      exact ⟨secret, rfl, Option.some.inj h⟩

/-- What `auth_middleware` does: it rejects the request, or keeps the response. -/
theorem authMiddleware_cases {env : Env} {req req' : HttpRequest} {res res' : HttpResponse}
    (h : authMiddleware env req res = some (req', res')) :
    (req' = req ∧ res' = makeNonAuthorized res) ∨
      ∃ data, req' = { req with authenticatedJwt := data } ∧ res' = res := by
  have hreject : some (req, makeNonAuthorized res) = some (req', res') →
      req' = req ∧ res' = makeNonAuthorized res := by
    intro heq
    obtain ⟨rfl, rfl⟩ := Prod.mk.inj (Option.some.inj heq)
    exact ⟨rfl, rfl⟩
  rw [authMiddleware] at h
  split at h
  · exact Or.inl (hreject h)
  · obtain ⟨validated, -, h⟩ := Option.bind_eq_some_iff.mp h
    cases validated with
    | none => exact Or.inl (hreject h)
    | some payload =>
        obtain ⟨parsed, -, h⟩ := Option.bind_eq_some_iff.mp h
        split at h
        · exact Or.inl (hreject h)
        · obtain ⟨rfl, rfl⟩ := Prod.mk.inj (Option.some.inj h)
          exact Or.inr ⟨parsed, rfl, rfl⟩

/-- **What `auth_middleware` lets pass**: an authenticated request, which gets the parsed
payload and nothing else. -/
theorem authMiddleware_passes {env : Env} {req req' : HttpRequest} {res res' : HttpResponse}
    (h : authMiddleware env req res = some (req', res')) (hpass : res'.statusCode < 400) :
    ∃ data, Authenticated env req data ∧ req' = { req with authenticatedJwt := data } := by
  have hreject : ∀ r : HttpRequest, some (r, makeNonAuthorized res) ≠ some (req', res') := by
    intro r heq
    obtain ⟨-, rfl⟩ := Prod.mk.inj (Option.some.inj heq)
    rw [makeNonAuthorized_statusCode] at hpass
    omega
  rw [authMiddleware] at h
  split at h
  · exact absurd h (hreject req)
  · rename_i token hcookie
    obtain ⟨validated, hvalidated, h⟩ := Option.bind_eq_some_iff.mp h
    cases validated with
    | none => exact absurd h (hreject req)
    | some payload =>
        obtain ⟨parsed, hparsed, h⟩ := Option.bind_eq_some_iff.mp h
        split at h
        · exact absurd h (hreject req)
        · rename_i hfields
          obtain ⟨rfl, -⟩ := Prod.mk.inj (Option.some.inj h)
          obtain ⟨secret, hsecret, haccepted⟩ := jwtValidateEnv_eq_some hvalidated
          rw [not_or, not_or] at hfields
          exact ⟨parsed, ⟨token, secret, payload, hcookie, hsecret, haccepted, hparsed,
            hfields.1, hfields.2.2, hfields.2.1⟩, rfl⟩

/-! ### What middlewares keep -/

/-- The middleware does not write `authenticated_jwt`. -/
def Middleware.KeepsJwt (m : Middleware) : Prop :=
  ∀ env req res req' res', m env req res = some (req', res') →
    req'.authenticatedJwt = req.authenticatedJwt

/-- The middleware does not write the cookies. -/
def Middleware.KeepsCookies (m : Middleware) : Prop :=
  ∀ env req res req' res', m env req res = some (req', res') → req'.cookies = req.cookies

/-- `decode_url_middleware` keeps the response. -/
theorem decodeUrlMiddleware_response {env : Env} {req req' : HttpRequest}
    {res res' : HttpResponse} (h : decodeUrlMiddleware env req res = some (req', res')) :
    res' = res := by
  rw [decodeUrlMiddleware] at h
  split at h
  · exact (Prod.mk.inj (Option.some.inj h)).2.symm
  · split at h
    · exact (Prod.mk.inj (Option.some.inj h)).2.symm
    · exact (Prod.mk.inj (Option.some.inj h)).2.symm

theorem decodeUrlMiddleware_keeps {env : Env} {req req' : HttpRequest}
    {res res' : HttpResponse} (h : decodeUrlMiddleware env req res = some (req', res')) :
    req'.authenticatedJwt = req.authenticatedJwt ∧ req'.cookies = req.cookies := by
  rw [decodeUrlMiddleware] at h
  split at h
  · obtain ⟨rfl, -⟩ := Prod.mk.inj (Option.some.inj h)
    exact ⟨rfl, rfl⟩
  · split at h
    · obtain ⟨rfl, -⟩ := Prod.mk.inj (Option.some.inj h)
      exact ⟨rfl, rfl⟩
    · obtain ⟨rfl, -⟩ := Prod.mk.inj (Option.some.inj h)
      exact ⟨rfl, rfl⟩

theorem keepsJwt_decodeUrlMiddleware : Middleware.KeepsJwt decodeUrlMiddleware :=
  fun _ _ _ _ _ h => (decodeUrlMiddleware_keeps h).1

theorem keepsCookies_decodeUrlMiddleware : Middleware.KeepsCookies decodeUrlMiddleware :=
  fun _ _ _ _ _ h => (decodeUrlMiddleware_keeps h).2

end CBank
