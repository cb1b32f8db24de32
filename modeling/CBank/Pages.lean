import CBank.AccountStore
import CBank.Handlers
import CBank.Render

/-!
# The Other Handlers

What the handlers of `api/http_handlers` do besides registering and logging in: the pages made of
templates, and the accounts, as a page and as JSON (`core/json_builder.c`). A handler gives the
responses it sends, in order; what it reads besides the request and the stores is its
`HandlerEnv`.

A route is found without regard to the case of the method, but `handle_login`,
`handle_register_acocunt` and `handle_api_accounts` only know `GET` and `POST` as they are written
here.

## Main results

* `runHandler_answers`: a handler sends one response with a status, if it knows the method.
* `runHandler_misspelled`: what is sent for a method it does not know.
-/

namespace CBank

open CLib

/-- What a handler finds besides the request and the stores: its middleware environment, the
password hash, the stack, the template files, and what `malloc` returns. -/
structure HandlerEnv where
  env : Env
  crypt : Bytes → Bytes
  callEnv : CallEnv
  userScratch : UserScratch
  userAccScratch : AccScratch
  accScratch : ℕ → AccScratch
  templates : Bytes → Option Bytes
  heap : ℕ → UInt8

/-- `add_content_len`. -/
def addContentLen (res : HttpResponse) (len : ℕ) : HttpResponse :=
  addResHeader res (getHeaderFieldName .contentLength) (printNat len)

/-! ### Pages -/

/-- A page of a text: the body, the headers that describe it, and the status. -/
def addPage (res : HttpResponse) (text : Bytes) : HttpResponse :=
  let res := addBody res text
  makeResFirstLine (addContentLen (addContentType res .html) res.body.length) .ok

/-- A handler that sends a template as it is; a missing file is copied from NULL. -/
def sendTemplate (path : Bytes) (env : HandlerEnv) (res : HttpResponse) : Option HttpResponse :=
  (loadTemplateToString env.templates path).map (addPage res)

/-- `handle_home`. -/
def handleHome : HandlerEnv → HttpResponse → Option HttpResponse :=
  sendTemplate (lit "./src/server/templates/index.html")

/-- `handle_transfer`. -/
def handleTransfer : HandlerEnv → HttpResponse → Option HttpResponse :=
  sendTemplate (lit "./src/server/templates/transfer.html")

/-- `handle_extract`. -/
def handleExtract : HandlerEnv → HttpResponse → Option HttpResponse :=
  sendTemplate (lit "./src/server/templates/extract.html")

/-- `handle_cards`. -/
def handleCards : HandlerEnv → HttpResponse → Option HttpResponse :=
  sendTemplate (lit "./src/server/templates/cards.html")

/-- `handle_payments`. -/
def handlePayments : HandlerEnv → HttpResponse → Option HttpResponse :=
  sendTemplate (lit "./src/server/templates/payments.html")

/-- A template with its variables; `strlen` of a missing file is not defined. -/
def renderPage (env : HandlerEnv) (path : Bytes) (vars : List TemplateVar) : Option Bytes := do
  let template ← loadTemplateToString env.templates path
  renderTemplate env.heap template vars

/-- `handle_GET_login`. -/
def handleGETLogin (env : HandlerEnv) (res : HttpResponse) : Option HttpResponse :=
  (renderPage env (lit "./src/server/templates/auth.html") []).map (addPage res)

/-- `handle_GET_register_account`. -/
def handleGETRegisterAccount (env : HandlerEnv) (res : HttpResponse) : Option HttpResponse :=
  (renderPage env (lit "./src/server/templates/register.html") []).map (addPage res)

/-! ### Accounts -/

/-- `GetAccountDTO`. -/
structure GetAccountDTO where
  id : Bytes
  balance : Double
  createdAt : Bytes
  updatedAt : Bytes

/-- `account_to_get_account_DTO`. -/
def accountToGetAccountDTO (acc : Account) : GetAccountDTO :=
  ⟨acc.id, acc.balance, acc.createdAt, acc.updatedAt⟩

/-- `double_to_ascii`, whose buffer has 64 bytes. -/
def doubleToAscii (value : Double) (precision : ℕ) : Bytes :=
  (printFixed precision value).take 63

/-- `handle_accounts`. -/
def handleAccounts (env : HandlerEnv) (req : HttpRequest) (res : HttpResponse) (d : Disk) :
    Option HttpResponse := do
  let _ ← listAccounts env.accScratch d
  let userId ← req.authenticatedJwt.sub
  let user ← getUserByField env.userScratch (lit "id") userId d
  let userAccount ← getAccountByField env.userAccScratch (lit "user_id_fk") userId d
  let balance := doubleToAscii (userAccount.getD Account.zero).balance 4
  let text ← renderPage env (lit "./src/server/templates/accounts.html")
    [⟨lit "username", (user.getD BankUser.zero).name⟩, ⟨lit "total_balance", balance⟩]
  let res := addContentType (makeResFirstLine (addBody res text) .ok) .html
  some (addContentLen res res.body.length)

/-- `JSON_BUF_SIZE`. -/
abbrev jsonBufSize : ℕ := 4096

/-- `JsonBuilder`: the pieces printed into its buffer. -/
structure JsonBuilder where
  pieces : List Bytes
  isFirst : Bool

/-- `json_init`. -/
def jsonInit : JsonBuilder := ⟨[], true⟩

/-- `json_start_object`. -/
def jsonStartObject (jb : JsonBuilder) : JsonBuilder := ⟨jb.pieces ++ [[ch '{']], true⟩

/-- `json_end_object`. -/
def jsonEndObject (jb : JsonBuilder) : JsonBuilder := ⟨jb.pieces ++ [[ch '}']], jb.isFirst⟩

/-- `json_add_comma_if_needed`. -/
def jsonAddCommaIfNeeded (jb : JsonBuilder) : JsonBuilder :=
  if jb.isFirst then ⟨jb.pieces, false⟩ else ⟨jb.pieces ++ [[ch ',']], false⟩

/-- `json_start_array`. -/
def jsonStartArray (jb : JsonBuilder) (key : Bytes) : JsonBuilder :=
  ⟨(jsonAddCommaIfNeeded jb).pieces ++ [lit "\"" ++ key ++ lit "\":["], true⟩

/-- `json_end_array`. -/
def jsonEndArray (jb : JsonBuilder) : JsonBuilder := ⟨jb.pieces ++ [[ch ']']], false⟩

/-- `json_add_string`. -/
def jsonAddString (jb : JsonBuilder) (key value : Bytes) : JsonBuilder :=
  ⟨(jsonAddCommaIfNeeded jb).pieces ++ [lit "\"" ++ key ++ lit "\":\"" ++ value ++ lit "\""],
    false⟩

/-- What the functions `json_add_*` have in common: a key, and a value printed as `text`. -/
def jsonAddText (jb : JsonBuilder) (key text : Bytes) : JsonBuilder :=
  ⟨(jsonAddCommaIfNeeded jb).pieces ++ [lit "\"" ++ key ++ lit "\":" ++ text], false⟩

/-- `json_add_float`. -/
def jsonAddFloat (jb : JsonBuilder) (key : Bytes) (value : Double) : JsonBuilder :=
  jsonAddText jb key (printFixed 6 value)

/-- `json_build`; printing behind the end of the buffer is not defined. -/
def jsonBuild (jb : JsonBuilder) : Option Bytes := snprintfs jsonBufSize jb.pieces

/-- `accountDTO_to_json_obj`. -/
def accountDTOToJsonObj (jb : JsonBuilder) (accDto : GetAccountDTO) : JsonBuilder :=
  let jb := jsonStartObject (jsonAddCommaIfNeeded jb)
  let jb := jsonAddString jb (lit "id") accDto.id
  let jb := jsonAddString jb (lit "created_at") accDto.createdAt
  jsonEndObject (jsonAddFloat jb (lit "balance") accDto.balance)

/-- `handle_GET_api_accounts`. -/
def handleGETApiAccounts (env : HandlerEnv) (res : HttpResponse) (d : Disk) :
    Option HttpResponse := do
  let accounts ← listAccounts env.accScratch d
  let accountsDTO := accounts.map accountToGetAccountDTO
  let jb := jsonStartArray (jsonStartObject jsonInit) (lit "data")
  let jb := accountsDTO.foldl accountDTOToJsonObj jb
  let text ← jsonBuild (jsonEndObject (jsonEndArray jb))
  some { addContentType res .json with body := text }

/-- `handle_api_accounts`. -/
def handleApiAccounts (env : HandlerEnv) (req : HttpRequest) (res : HttpResponse) (d : Disk) :
    Option HttpResponse :=
  if req.method = lit "GET" then handleGETApiAccounts env (makeResFirstLine res .ok) d
  else if req.method = lit "POST" then some (makeResFirstLine res .noContent)
  else some res

/-! ### The handlers of the two forms -/

/-- The payload of the `token` cookie, as `handle_login` validates it; the inner `none` is NULL. -/
def loginPayload (env : Env) (req : HttpRequest) : Option (Option Bytes) :=
  match getReqCookie req (lit "token") with
  | none => some none
  | some token => jwtValidateEnv env token

/-- `handle_login`, the responses it sends. -/
def handleLogin (env : HandlerEnv) (req : HttpRequest) (res : HttpResponse) (d : Disk) :
    Option (List HttpResponse) :=
  if req.method = lit "GET" then do
    let payload ← loginPayload env.env req
    if payload.isSome then some [redirect res (lit "/accounts")]
    else (handleGETLogin env res).map fun res => [res]
  else if req.method = lit "POST" then do
    let handled ← handlePOSTLogin env.crypt env.userScratch env.env req res d
    some [sentResponse handled]
  else some []

/-- `handle_register_acocunt`, the responses it sends. -/
def handleRegisterAcocunt (env : HandlerEnv) (req : HttpRequest) (res : HttpResponse) :
    Proc Disk FileOp (List HttpResponse) :=
  if req.method = lit "GET" then
    Proc.read fun _ => (handleGETRegisterAccount env res).map fun res => [res]
  else if req.method = lit "POST" then do
    let handled ← handlePOSTRegisterAccount env.crypt env.callEnv req res
    pure [sentResponse handled]
  else pure []

/-- A handler that sends one response. -/
def sendsOne (f : Disk → Option HttpResponse) : Proc Disk FileOp (List HttpResponse) :=
  Proc.read fun d => (f d).map fun res => [res]

/-- A call of a handler: the responses it sends, in order. -/
def runHandler (env : HandlerEnv) (req : HttpRequest) (res : HttpResponse) :
    Handler → Proc Disk FileOp (List HttpResponse)
  | .handleHome => sendsOne fun _ => handleHome env res
  | .handleAccounts => sendsOne fun d => handleAccounts env req res d
  | .handleApiAccounts => sendsOne fun d => handleApiAccounts env req res d
  | .handleLogin => Proc.read fun d => handleLogin env req res d
  | .handleRegisterAccount => handleRegisterAcocunt env req res
  | .handleTransfer => sendsOne fun _ => handleTransfer env res
  | .handleExtract => sendsOne fun _ => handleExtract env res
  | .handleCards => sendsOne fun _ => handleCards env res
  | .handlePayments => sendsOne fun _ => handlePayments env res

/-! ### What the handlers send -/

/-- The status line of a response was made. -/
def HttpResponse.HasStatus (res : HttpResponse) : Prop :=
  ∃ status : HttpStatusCode, res.version = some (lit "HTTP/1.1") ∧
    res.statusCode = status.code ∧ res.statusText = some (getStatusText status)

/-- The bytes the headers of a response take when they are printed. -/
def HttpResponse.headerBytes (res : HttpResponse) : ℕ :=
  (res.headers.map fun header => header.key.length + header.value.length + 4).sum

@[simp] theorem hasStatus_makeResFirstLine (res : HttpResponse) (status : HttpStatusCode) :
    (makeResFirstLine res status).HasStatus := ⟨status, rfl, rfl, rfl⟩

@[simp] theorem hasStatus_addResHeader {res : HttpResponse} {key value : Bytes} :
    (addResHeader res key value).HasStatus ↔ res.HasStatus := by
  rw [addResHeader]
  split
  · rfl
  · rfl

@[simp] theorem hasStatus_addBody {res : HttpResponse} {body : Bytes} :
    (addBody res body).HasStatus ↔ res.HasStatus := Iff.rfl

@[simp] theorem hasStatus_redirect (res : HttpResponse) (location : Bytes) :
    (redirect res location).HasStatus := by
  rw [redirect, hasStatus_addResHeader]
  exact hasStatus_makeResFirstLine _ _

@[simp] theorem hasStatus_addPage (res : HttpResponse) (text : Bytes) :
    (addPage res text).HasStatus := hasStatus_makeResFirstLine _ _

@[simp] theorem headerBytes_makeResFirstLine (res : HttpResponse) (status : HttpStatusCode) :
    (makeResFirstLine res status).headerBytes = res.headerBytes := rfl

@[simp] theorem headerBytes_addBody (res : HttpResponse) (body : Bytes) :
    (addBody res body).headerBytes = res.headerBytes := rfl

theorem headerBytes_addResHeader_le (res : HttpResponse) (key value : Bytes) :
    (addResHeader res key value).headerBytes ≤
      res.headerBytes + (key.length + value.length + 4) := by
  rw [addResHeader]
  split
  · exact Nat.le_add_right _ _
  · simp only [HttpResponse.headerBytes, List.map_append, List.sum_append, List.map_cons,
      List.map_nil, List.sum_cons, List.sum_nil, List.length_take]
    omega

theorem headerBytes_addContentType_le (res : HttpResponse) (type : ContentType) :
    (addContentType res type).headerBytes ≤ res.headerBytes + 60 := by
  refine (headerBytes_addResHeader_le _ _ _).trans (Nat.add_le_add_left ?_ _)
  cases type <;> decide

theorem headerBytes_addContentLen_le (res : HttpResponse) {len : ℕ} (hlen : len < bodyLen) :
    (addContentLen res len).headerBytes ≤ res.headerBytes + 60 := by
  refine (headerBytes_addResHeader_le _ _ _).trans (Nat.add_le_add_left ?_ _)
  have hname : (getHeaderFieldName .contentLength).length = 14 := by decide
  have hdigits : (printNat len).length ≤ 5 :=
    length_printNat_le (by decide) (hlen.trans (by decide))
  omega

theorem body_addContentType (res : HttpResponse) (type : ContentType) :
    (addContentType res type).body = res.body := by
  rw [addContentType, addResHeader]
  split
  · rfl
  · rfl

theorem length_addBody_lt (res : HttpResponse) (body : Bytes) :
    (addBody res body).body.length < bodyLen := by
  have hcut : (addBody res body).body.length ≤ bodyLen - 1 := List.length_take_le _ _
  exact Nat.lt_of_le_pred (by decide) hcut

theorem headerBytes_redirect_accounts_le (res : HttpResponse) :
    (redirect res (lit "/accounts")).headerBytes ≤ res.headerBytes + 60 := by
  refine (headerBytes_addResHeader_le _ _ _).trans (Nat.add_le_add_left ?_ _)
  decide

theorem headerBytes_addResTokenCookie_le (res : HttpResponse) (token : Bytes) :
    (addResTokenCookie res token).headerBytes ≤ res.headerBytes + 1040 := by
  refine (headerBytes_addResHeader_le _ _ _).trans (Nat.add_le_add_left ?_ _)
  have hname : (lit "Set-Cookie").length = 10 := by decide
  rw [List.length_take]
  omega

/-- A response made from another one: its status line is made, and its headers leave room for
those of the other one in the buffer they are printed to. -/
structure HttpResponse.Answers (r res : HttpResponse) : Prop where
  status : r.HasStatus
  room : r.headerBytes ≤ res.headerBytes + 1200

/-- The method is one the handlers of the two forms and of the accounts know. -/
def HttpRequest.ExactMethod (req : HttpRequest) : Prop :=
  req.method = lit "GET" ∨ req.method = lit "POST"

instance (req : HttpRequest) : Decidable req.ExactMethod :=
  inferInstanceAs (Decidable (_ ∨ _))

/-- The handlers that compare the method. -/
def Handler.comparesMethod (handler : Handler) : Bool :=
  handler = .handleLogin ∨ handler = .handleRegisterAccount ∨ handler = .handleApiAccounts

variable {env : HandlerEnv} {req : HttpRequest} {res : HttpResponse} {d : Disk}

theorem answers_sentResponse {handled : Bool × HttpResponse} (hstatus : handled.2.HasStatus)
    (hroom : handled.2.headerBytes ≤ res.headerBytes + 1140) :
    (sentResponse handled).Answers res := by
  rw [sentResponse]
  split
  · have hredirect := headerBytes_redirect_accounts_le handled.2
    exact ⟨hasStatus_redirect _ _, by omega⟩
  · exact ⟨hstatus, by omega⟩

theorem answers_addPage (res : HttpResponse) (text : Bytes) : (addPage res text).Answers res := by
  refine ⟨hasStatus_addPage _ _, ?_⟩
  have htype := headerBytes_addContentType_le (addBody res text) .html
  have hpage := headerBytes_addContentLen_le (addContentType (addBody res text) .html)
    (length_addBody_lt res text)
  rw [headerBytes_addBody] at htype
  rw [addPage, headerBytes_makeResFirstLine]
  omega

/-- Whatever a login does is an answer. -/
theorem answers_handlePOSTLogin {crypt : Bytes → Bytes} {scratch : UserScratch} {e : Env}
    {handled : Bool × HttpResponse}
    (h : handlePOSTLogin crypt scratch e req res d = some handled) :
    (sentResponse handled).Answers res := by
  obtain ⟨parsed, -, h⟩ := Option.bind_eq_some_iff.mp h
  cases parsed with
  | none =>
      obtain rfl := Option.some.inj h
      have htype := headerBytes_addContentType_le res .plain
      exact answers_sentResponse (by simp) (by simp; omega)
  | some schema =>
      simp only at h
      split at h
      · obtain ⟨logged, -, h⟩ := Option.bind_eq_some_iff.mp h
        cases logged with
        | none =>
            obtain rfl := Option.some.inj h
            have htype := headerBytes_addContentType_le (makeResFirstLine res .unauthorized) .plain
            exact answers_sentResponse (by simp [addContentType]) (by simp at htype ⊢; omega)
        | some user =>
            obtain ⟨secret, -, h⟩ := Option.bind_eq_some_iff.mp h
            obtain rfl := Option.some.inj h
            have htype := headerBytes_addContentType_le (makeResFirstLine res .ok) .json
            refine answers_sentResponse (by simp [addContentType, addResTokenCookie]) ?_
            refine (headerBytes_addResTokenCookie_le _ _).trans ?_
            rw [headerBytes_makeResFirstLine] at htype
            omega
      · obtain rfl := Option.some.inj h
        have htype := headerBytes_addContentType_le res .plain
        exact answers_sentResponse (by simp) (by simp; omega)

/-- Whatever a registration does is an answer. -/
theorem answers_handlePOSTRegisterAccount {crypt : Bytes → Bytes} {callEnv : CallEnv}
    {handled : Bool × HttpResponse}
    (h : (handlePOSTRegisterAccount crypt callEnv req res).result d = some handled) :
    (sentResponse handled).Answers res := by
  obtain ⟨parsed, -, h⟩ := Proc.result_bind_eq_some.mp h
  cases parsed with
  | none =>
      obtain rfl := Option.some.inj h
      have htype := headerBytes_addContentType_le res .plain
      exact answers_sentResponse (by simp) (by simp; omega)
  | some schema =>
      obtain ⟨payload, -, h⟩ := Proc.result_bind_eq_some.mp h
      obtain ⟨result, -, h⟩ := Proc.result_bind_eq_some.mp h
      split at h
      · obtain rfl := Option.some.inj h
        exact answers_sentResponse (by simp) (by simp)
      · obtain rfl := Option.some.inj h
        exact answers_sentResponse (by simp) (by simp)

theorem result_sendsOne_eq_some {f : Disk → Option HttpResponse} {rs : List HttpResponse} :
    (sendsOne f).result d = some rs ↔ ∃ r, f d = some r ∧ rs = [r] := by
  rw [sendsOne, Proc.result_read, Option.map_eq_some_iff]
  simp only [eq_comm]

/-- The page of a template is an answer. -/
theorem answers_sendTemplate {path : Bytes} {r : HttpResponse}
    (h : sendTemplate path env res = some r) : r.Answers res := by
  obtain ⟨text, -, rfl⟩ := Option.map_eq_some_iff.mp h
  exact answers_addPage _ _

/-- So is the page of the accounts, whose headers are added in another order. -/
theorem answers_handleAccounts {r : HttpResponse} (h : handleAccounts env req res d = some r) :
    r.Answers res := by
  simp only [handleAccounts, Option.bind_eq_bind, Option.bind_eq_some_iff] at h
  obtain ⟨accounts, -, userId, -, user, -, userAccount, -, text, -, heq⟩ := h
  obtain rfl := Option.some.inj heq
  have htype := headerBytes_addContentType_le (makeResFirstLine (addBody res text) .ok) .html
  have hlen : (addContentType (makeResFirstLine (addBody res text) .ok) .html).body.length <
      bodyLen := by
    rw [body_addContentType]
    exact length_addBody_lt res text
  have hpage := headerBytes_addContentLen_le
    (addContentType (makeResFirstLine (addBody res text) .ok) .html) hlen
  rw [headerBytes_makeResFirstLine, headerBytes_addBody] at htype
  exact ⟨by simp [addContentType, addContentLen], by omega⟩

theorem answers_handleApiAccounts {r : HttpResponse} (hmethod : req.ExactMethod)
    (h : handleApiAccounts env req res d = some r) : r.Answers res := by
  rcases hmethod with hget | hpost
  · rw [handleApiAccounts, if_pos hget] at h
    simp only [handleGETApiAccounts, Option.bind_eq_bind, Option.bind_eq_some_iff] at h
    obtain ⟨accounts, -, text, -, heq⟩ := h
    obtain rfl := Option.some.inj heq
    have htype := headerBytes_addContentType_le (makeResFirstLine res .ok) .json
    rw [headerBytes_makeResFirstLine] at htype
    refine ⟨hasStatus_addResHeader.mpr (hasStatus_makeResFirstLine _ _), ?_⟩
    exact htype.trans (by omega)
  · rw [handleApiAccounts, if_neg (by rw [hpost]; decide), if_pos hpost] at h
    obtain rfl := Option.some.inj h
    exact ⟨hasStatus_makeResFirstLine _ _, by simp⟩

theorem answers_handleLogin {rs : List HttpResponse} (hmethod : req.ExactMethod)
    (h : handleLogin env req res d = some rs) : ∃ r, rs = [r] ∧ r.Answers res := by
  rcases hmethod with hget | hpost
  · rw [handleLogin, if_pos hget] at h
    obtain ⟨payload, -, h⟩ := Option.bind_eq_some_iff.mp h
    split at h
    · obtain rfl := Option.some.inj h
      have hredirect := headerBytes_redirect_accounts_le res
      exact ⟨_, rfl, hasStatus_redirect _ _, by omega⟩
    · obtain ⟨r, hpage, rfl⟩ := Option.map_eq_some_iff.mp h
      obtain ⟨text, -, rfl⟩ := Option.map_eq_some_iff.mp hpage
      exact ⟨_, rfl, answers_addPage _ _⟩
  · rw [handleLogin, if_neg (by rw [hpost]; decide), if_pos hpost] at h
    obtain ⟨handled, hhandled, h⟩ := Option.bind_eq_some_iff.mp h
    obtain rfl := Option.some.inj h
    exact ⟨_, rfl, answers_handlePOSTLogin hhandled⟩

theorem answers_handleRegisterAccount {rs : List HttpResponse} (hmethod : req.ExactMethod)
    (h : (handleRegisterAcocunt env req res).result d = some rs) :
    ∃ r, rs = [r] ∧ r.Answers res := by
  rcases hmethod with hget | hpost
  · rw [handleRegisterAcocunt, if_pos hget, Proc.result_read] at h
    obtain ⟨r, hpage, rfl⟩ := Option.map_eq_some_iff.mp h
    obtain ⟨text, -, rfl⟩ := Option.map_eq_some_iff.mp hpage
    exact ⟨_, rfl, answers_addPage _ _⟩
  · rw [handleRegisterAcocunt, if_neg (by rw [hpost]; decide), if_pos hpost] at h
    obtain ⟨handled, hhandled, h⟩ := Proc.result_bind_eq_some.mp h
    obtain rfl := Option.some.inj h
    exact ⟨_, rfl, answers_handlePOSTRegisterAccount hhandled⟩

/-- **A handler sends one answer**, if it does not compare the method or knows it. -/
theorem runHandler_answers {handler : Handler} {rs : List HttpResponse}
    (h : (runHandler env req res handler).result d = some rs)
    (hmethod : handler.comparesMethod = true → req.ExactMethod) :
    ∃ r, rs = [r] ∧ r.Answers res := by
  have htemplate : ∀ {path : Bytes}, (sendsOne fun _ => sendTemplate path env res).result d =
      some rs → ∃ r, rs = [r] ∧ r.Answers res := by
    intro path h
    obtain ⟨r, hr, rfl⟩ := result_sendsOne_eq_some.mp h
    exact ⟨r, rfl, answers_sendTemplate hr⟩
  cases handler with
  | handleHome => exact htemplate h
  | handleTransfer => exact htemplate h
  | handleExtract => exact htemplate h
  | handleCards => exact htemplate h
  | handlePayments => exact htemplate h
  | handleAccounts =>
      obtain ⟨r, hr, rfl⟩ := result_sendsOne_eq_some.mp h
      exact ⟨r, rfl, answers_handleAccounts hr⟩
  | handleApiAccounts =>
      obtain ⟨r, hr, rfl⟩ := result_sendsOne_eq_some.mp h
      exact ⟨r, rfl, answers_handleApiAccounts (hmethod rfl) hr⟩
  | handleLogin => exact answers_handleLogin (hmethod rfl) h
  | handleRegisterAccount => exact answers_handleRegisterAccount (hmethod rfl) h

/-- **What is sent for a method a handler does not know**: nothing, or a response without a
status line. -/
theorem runHandler_misspelled {handler : Handler} {rs : List HttpResponse}
    (h : (runHandler env req res handler).result d = some rs)
    (hcompares : handler.comparesMethod = true) (hmethod : ¬ req.ExactMethod) :
    rs = [] ∨ rs = [res] := by
  rw [HttpRequest.ExactMethod, not_or] at hmethod
  obtain ⟨hget, hpost⟩ := hmethod
  cases handler with
  | handleApiAccounts =>
      obtain ⟨r, hr, rfl⟩ := result_sendsOne_eq_some.mp h
      rw [handleApiAccounts, if_neg hget, if_neg hpost] at hr
      exact Or.inr (by rw [Option.some.inj hr])
  | handleLogin =>
      have hr : handleLogin env req res d = some rs := h
      rw [handleLogin, if_neg hget, if_neg hpost] at hr
      exact Or.inl (Option.some.inj hr).symm
  | handleRegisterAccount =>
      have hr : (handleRegisterAcocunt env req res).result d = some rs := h
      rw [handleRegisterAcocunt, if_neg hget, if_neg hpost, Proc.result_pure] at hr
      exact Or.inl (Option.some.inj hr).symm
  | _ => exact absurd hcompares (by decide)

end CBank
