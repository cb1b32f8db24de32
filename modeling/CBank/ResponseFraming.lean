import CBank.CLib.Message
import CBank.RegisterLogin
import CBank.ServerRuns

/-!
# How a Client Reads a Response

The responses of a pass have few headers: the type and the length of the body, a location, and the
cookie with a token. No byte of a request and no value of a table gets into one of them other than
in a base64url text, so whatever a client registers or sends, the bytes of a response are read back
as the status line, the headers and the body it was made of.

## Main results

* `passResponses_known`: the headers of the responses of a pass.
* `responses_read_back`: what a client reads of them.
-/

namespace CBank

open CLib

/-- The characters of HTTP. -/
def httpMarks : Marks UInt8 where
  cr := 13
  lf := newline
  colon := ch ':'
  space := ch ' '
  colon_ne := by decide
  space_ne := by decide

/-! ### The headers of a response -/

/-- The headers a finished response may have, with the tokens that may be in a cookie. -/
inductive KnownHeader (T : Bytes → Prop) (res : HttpResponse) : HttpHeader → Prop
  | contentType (type : ContentType) :
      KnownHeader T res ⟨lit "Content-Type", getContentTypeString type⟩
  | contentLength (h : res.statusCode ≠ 302) :
      KnownHeader T res ⟨lit "Content-Length", printNat res.body.length⟩
  | location {path : Bytes} (h : res.statusCode = 302)
      (hpath : path = lit "/accounts" ∨ path = lit "/login") :
      KnownHeader T res ⟨lit "Location", path⟩
  | setCookie {token : Bytes} (h : res.statusCode = 302) (htoken : T token) :
      KnownHeader T res (tokenCookie token)

/-- Every header of a response is known. -/
def HttpResponse.Known (res : HttpResponse) (T : Bytes → Prop) : Prop :=
  ∀ header ∈ res.headers, KnownHeader T res header

/-- The token of a login: it was made for the user `login` returns for the body. -/
def IssuedBy (env : HandlerEnv) (req : HttpRequest) (d : Disk) (token : Bytes) : Prop :=
  ∃ schema user secret, parseLoginBody req = some (some schema) ∧
    login env.crypt env.userScratch (cstrAt schema (loginSchema.field .cpf).offset)
      (cstrAt schema (loginSchema.field .password).offset) d = some (some user) ∧
    getEnv env.env (lit "JWT_SECRET") = some secret ∧
    token = createJwtForUser env.env.hmac env.env.now (getEnv env.env (lit "JWT_EXP")) secret
      user.id user.name

variable {T : Bytes → Prop} {res : HttpResponse} {header : HttpHeader}

theorem HttpResponse.Known.imp {T' : Bytes → Prop} (h : res.Known T)
    (hT : ∀ token, T token → T' token) : res.Known T' := by
  intro header hmem
  cases h header hmem with
  | contentType type => exact .contentType type
  | contentLength hstatus => exact .contentLength hstatus
  | location hstatus hpath => exact .location hstatus hpath
  | setCookie hstatus htoken => exact .setCookie hstatus (hT _ htoken)

theorem mem_addResHeader {key value : Bytes} (hkey : key.length ≤ maxKeyLen - 1)
    (hvalue : value.length ≤ maxValueLen - 1) (h : header ∈ (addResHeader res key value).headers) :
    header ∈ res.headers ∨ header = ⟨key, value⟩ := by
  rw [addResHeader] at h
  split at h
  · exact Or.inl h
  · rw [List.take_of_length_le hkey, List.take_of_length_le hvalue] at h
    exact (List.mem_append.mp h).imp_right List.mem_singleton.mp

theorem mem_addContentType {type : ContentType} (h : header ∈ (addContentType res type).headers) :
    header ∈ res.headers ∨ header = ⟨lit "Content-Type", getContentTypeString type⟩ :=
  mem_addResHeader (by decide) (by cases type <;> decide) h

theorem mem_addContentLen {len : ℕ} (hlen : len < bodyLen)
    (h : header ∈ (addContentLen res len).headers) :
    header ∈ res.headers ∨ header = ⟨lit "Content-Length", printNat len⟩ := by
  have hdigits : (printNat len).length ≤ 5 :=
    length_printNat_le (by decide) (hlen.trans (by decide))
  exact mem_addResHeader (by decide) (hdigits.trans (by decide)) h

theorem mem_redirect {path : Bytes} (hpath : path = lit "/accounts" ∨ path = lit "/login")
    (h : header ∈ (redirect res path).headers) :
    header ∈ res.headers ∨ header = ⟨lit "Location", path⟩ := by
  have hadded : header ∈ (addResHeader (makeResFirstLine res .redirect) (lit "Location")
    path).headers := h
  have hlocation : path.length ≤ maxValueLen - 1 := by
    rcases hpath with rfl | rfl
    · decide
    · decide
  have hcases := mem_addResHeader (by decide) hlocation hadded
  exact hcases

theorem mem_addResTokenCookie {token : Bytes} (htoken : token.length ≤ 766)
    (h : header ∈ (addResTokenCookie res token).headers) :
    header ∈ res.headers ∨ header = tokenCookie token := by
  by_cases hslot : res.headers.length < maxHeaders
  · rw [addResTokenCookie_headers hslot htoken] at h
    exact (List.mem_append.mp h).imp_right List.mem_singleton.mp
  · rw [addResTokenCookie, addResHeader, if_pos (not_lt.mp hslot)] at h
    exact Or.inl h

/-- A redirect of a response without headers. -/
theorem known_redirect {path : Bytes} (hpath : path = lit "/accounts" ∨ path = lit "/login")
    (hres : ∀ header ∈ res.headers, ∀ r : HttpResponse, r.statusCode = 302 →
      KnownHeader T r header) : (redirect res path).Known T := by
  have hstatus : (redirect res path).statusCode = 302 := addResHeader_statusCode _ _ _
  intro header h
  rcases mem_redirect hpath h with hold | rfl
  · exact hres header hold _ hstatus
  · exact .location hstatus hpath

/-- A page has the type and the length of its body. -/
theorem known_addPage (text : Bytes) : (addPage .zero text).Known T := by
  intro header h
  have hbody : (addContentType (addBody .zero text) .html).body = (addBody .zero text).body :=
    body_addContentType _ _
  have hlength : (addPage .zero text).body = (addBody .zero text).body := by
    rw [← hbody, addPage, makeResFirstLine, addContentLen, addResHeader]
    split
    · rfl
    · rfl
  have hlt := length_addBody_lt .zero text
  rw [← hbody] at hlt
  rcases mem_addContentLen hlt h with htype | rfl
  · rcases mem_addContentType htype with hnone | rfl
    · exact absurd hnone List.not_mem_nil
    · exact .contentType _
  · rw [hbody, ← hlength]
    exact .contentLength (by simp [addPage, makeResFirstLine, HttpStatusCode.code])

/-- A response with the type of its body. -/
theorem known_of_type {type : ContentType}
    (h : ∀ header ∈ res.headers, header = ⟨lit "Content-Type", getContentTypeString type⟩) :
    res.Known T := by
  intro header hmem
  rw [h header hmem]
  exact .contentType _

theorem mem_addContentType_zero {status : HttpStatusCode} {type : ContentType}
    (h : header ∈ (addContentType (makeResFirstLine .zero status) type).headers) :
    header = ⟨lit "Content-Type", getContentTypeString type⟩ :=
  (mem_addContentType h).resolve_left List.not_mem_nil

/-! ### The responses of a pass -/

variable {env : HandlerEnv} {req : HttpRequest} {d : Disk}

/-- What the handlers of the two forms send: a redirect, or a plain text. -/
theorem known_sentResponse {handled : Bool × HttpResponse}
    (hplain : ∀ header ∈ handled.2.headers, ∀ r : HttpResponse, r.statusCode = 302 →
      KnownHeader T r header)
    (hother : handled.1 = false → handled.2.Known T) : (sentResponse handled).Known T := by
  rw [sentResponse]
  split
  · exact known_redirect (Or.inl rfl) hplain
  · rename_i hfail
    exact hother (Bool.not_eq_true _ ▸ hfail)

theorem known_handlePOSTLogin {handled : Bool × HttpResponse}
    (h : handlePOSTLogin env.crypt env.userScratch env.env req .zero d = some handled) :
    (sentResponse handled).Known (IssuedBy env req d) := by
  have hplain : ∀ {res : HttpResponse} {type : ContentType}, (∀ header ∈ res.headers,
      header = ⟨lit "Content-Type", getContentTypeString type⟩) →
        (sentResponse (false, res)).Known (IssuedBy env req d) := fun hres => known_of_type hres
  obtain ⟨parsed, hparsed, h⟩ := Option.bind_eq_some_iff.mp h
  cases parsed with
  | none =>
      obtain rfl := Option.some.inj h
      exact hplain fun header hmem => (mem_addContentType hmem).resolve_left List.not_mem_nil
  | some schema =>
      simp only at h
      split at h
      · obtain ⟨logged, hlogged, h⟩ := Option.bind_eq_some_iff.mp h
        cases logged with
        | none =>
            obtain rfl := Option.some.inj h
            exact hplain fun header hmem => mem_addContentType_zero hmem
        | some user =>
            obtain ⟨secret, hsecret, h⟩ := Option.bind_eq_some_iff.mp h
            obtain rfl := Option.some.inj h
            refine known_sentResponse (fun header hmem r hr => ?_) fun hfail => by simp at hfail
            rcases mem_addResTokenCookie (length_createJwtForUser_le _ _ _ _ _ _) hmem with
              htype | rfl
            · rw [mem_addContentType_zero htype]
              exact .contentType _
            · exact .setCookie hr ⟨schema, user, secret, hparsed, hlogged, hsecret, rfl⟩
      · obtain rfl := Option.some.inj h
        exact hplain fun header hmem => (mem_addContentType hmem).resolve_left List.not_mem_nil

theorem known_handlePOSTRegisterAccount {crypt : Bytes → Bytes} {callEnv : CallEnv}
    {handled : Bool × HttpResponse}
    (h : (handlePOSTRegisterAccount crypt callEnv req .zero).result d = some handled) :
    (sentResponse handled).Known T := by
  have hbare : ∀ {ok : Bool} {res : HttpResponse}, res.headers = [] →
      (sentResponse (ok, res)).Known T := by
    intro ok res hres
    have hnone : ∀ header, header ∉ res.headers := fun header => hres ▸ List.not_mem_nil
    exact known_sentResponse (fun header hmem => absurd hmem (hnone header)) fun _ header hmem =>
      absurd hmem (hnone header)
  obtain ⟨parsed, -, h⟩ := Proc.result_bind_eq_some.mp h
  cases parsed with
  | none =>
      obtain rfl := Option.some.inj h
      exact known_of_type fun header hmem =>
        (mem_addContentType hmem).resolve_left List.not_mem_nil
  | some schema =>
      obtain ⟨payload, -, h⟩ := Proc.result_bind_eq_some.mp h
      obtain ⟨result, -, h⟩ := Proc.result_bind_eq_some.mp h
      split at h
      · obtain rfl := Option.some.inj h
        exact hbare rfl
      · obtain rfl := Option.some.inj h
        exact hbare rfl

theorem known_sendTemplate {path : Bytes} {r : HttpResponse}
    (h : sendTemplate path env .zero = some r) : r.Known T := by
  obtain ⟨text, -, rfl⟩ := Option.map_eq_some_iff.mp h
  exact known_addPage _

theorem known_handleAccounts {r : HttpResponse} (h : handleAccounts env req .zero d = some r) :
    r.Known T := by
  simp only [handleAccounts, Option.bind_eq_bind, Option.bind_eq_some_iff] at h
  obtain ⟨accounts, -, userId, -, user, -, userAccount, -, text, -, heq⟩ := h
  obtain rfl := Option.some.inj heq
  set res := addContentType (makeResFirstLine (addBody .zero text) .ok) .html with hres
  have hbody : res.body = (addBody .zero text).body := body_addContentType _ _
  have hlt : res.body.length < bodyLen := by
    rw [hbody]
    exact length_addBody_lt _ _
  intro header hmem
  rcases mem_addContentLen hlt hmem with htype | rfl
  · rw [(mem_addContentType htype).resolve_left List.not_mem_nil]
    exact .contentType _
  · have hkept : (addContentLen res res.body.length).body = res.body := by
      rw [addContentLen, addResHeader]
      split
      · rfl
      · rfl
    rw [← hkept]
    refine .contentLength ?_
    rw [addContentLen, addResHeader_statusCode, hres, addContentType, addResHeader_statusCode]
    exact (by decide : HttpStatusCode.ok.code ≠ 302)

theorem known_handleApiAccounts {r : HttpResponse}
    (h : handleApiAccounts env req .zero d = some r) : r.Known T := by
  rw [handleApiAccounts] at h
  split at h
  · simp only [handleGETApiAccounts, Option.bind_eq_bind, Option.bind_eq_some_iff] at h
    obtain ⟨accounts, -, text, -, heq⟩ := h
    obtain rfl := Option.some.inj heq
    exact known_of_type fun header hmem => mem_addContentType_zero hmem
  · split at h
    · obtain rfl := Option.some.inj h
      exact fun header hmem => absurd hmem List.not_mem_nil
    · obtain rfl := Option.some.inj h
      exact fun header hmem => absurd hmem List.not_mem_nil

/-- The page of a form. -/
theorem known_renderPage {path : Bytes} {rs : List HttpResponse}
    (h : (((renderPage env path []).map (addPage .zero)).map fun res => [res]) = some rs) :
    ∀ r ∈ rs, r.Known T := by
  obtain ⟨r, hr, rfl⟩ := Option.map_eq_some_iff.mp h
  obtain ⟨text, -, rfl⟩ := Option.map_eq_some_iff.mp hr
  exact fun r hr => List.mem_singleton.mp hr ▸ known_addPage text

theorem known_handleLogin {rs : List HttpResponse} (h : handleLogin env req .zero d = some rs) :
    ∀ r ∈ rs, r.Known fun token => req.method = lit "POST" ∧ IssuedBy env req d token := by
  rw [handleLogin] at h
  split at h
  · obtain ⟨payload, -, h⟩ := Option.bind_eq_some_iff.mp h
    split at h
    · obtain rfl := Option.some.inj h
      intro r hr
      rw [List.mem_singleton.mp hr]
      exact known_redirect (Or.inl rfl) fun header hmem => absurd hmem List.not_mem_nil
    · exact known_renderPage h
  · split at h
    · rename_i hpost
      obtain ⟨handled, hhandled, h⟩ := Option.bind_eq_some_iff.mp h
      obtain rfl := Option.some.inj h
      intro r hr
      rw [List.mem_singleton.mp hr]
      exact (known_handlePOSTLogin hhandled).imp fun token htoken => ⟨hpost, htoken⟩
    · obtain rfl := Option.some.inj h
      exact fun r hr => absurd hr List.not_mem_nil

theorem known_handleRegisterAccount {rs : List HttpResponse}
    (h : (handleRegisterAcocunt env req .zero).result d = some rs) : ∀ r ∈ rs, r.Known T := by
  rw [handleRegisterAcocunt] at h
  split at h
  · exact known_renderPage h
  · split at h
    · obtain ⟨handled, hhandled, h⟩ := Proc.result_bind_eq_some.mp h
      obtain rfl := Option.some.inj h
      exact fun r hr => List.mem_singleton.mp hr ▸ known_handlePOSTRegisterAccount hhandled
    · obtain rfl := Option.some.inj h
      exact fun r hr => absurd hr List.not_mem_nil

/-- **The headers a handler sends.** Only a login sends a token. -/
theorem runHandler_known {handler : Handler} {rs : List HttpResponse}
    (h : (runHandler env req .zero handler).result d = some rs) :
    ∀ r ∈ rs, r.Known fun token => handler = .handleLogin ∧ req.method = lit "POST" ∧
      IssuedBy env req d token := by
  have hone : ∀ {f : Disk → Option HttpResponse} {T : Bytes → Prop},
      (∀ r, f d = some r → r.Known T) → (sendsOne f).result d = some rs →
        ∀ r ∈ rs, r.Known T := by
    intro f T hf h r hr
    obtain ⟨r', hr', rfl⟩ := result_sendsOne_eq_some.mp h
    exact List.mem_singleton.mp hr ▸ hf r' hr'
  cases handler with
  | handleHome => exact hone (fun r hr => known_sendTemplate hr) h
  | handleTransfer => exact hone (fun r hr => known_sendTemplate hr) h
  | handleExtract => exact hone (fun r hr => known_sendTemplate hr) h
  | handleCards => exact hone (fun r hr => known_sendTemplate hr) h
  | handlePayments => exact hone (fun r hr => known_sendTemplate hr) h
  | handleAccounts => exact hone (fun r hr => known_handleAccounts hr) h
  | handleApiAccounts => exact hone (fun r hr => known_handleApiAccounts hr) h
  | handleLogin =>
      exact fun r hr => (known_handleLogin h r hr).imp fun token htoken => ⟨rfl, htoken⟩
  | handleRegisterAccount => exact known_handleRegisterAccount h

variable {e : PassEnv} {received : Received}

/-- What is sent without a handler. -/
theorem known_exit {rs : List HttpResponse} (h : (passResponses e received).result d = some rs)
    (hnone : calledHandler e received = none) : ∀ r ∈ rs, r.Known T := by
  obtain ⟨parsed, hparsed, h⟩ := Proc.result_bind_eq_some.mp h
  rw [Proc.after_read] at h
  rw [Proc.result_read] at hparsed
  simp only [calledHandler, hparsed, Option.bind_eq_bind, Option.bind_some] at hnone
  have hone : ∀ {r : HttpResponse}, r.Known T → some [r] = some rs → ∀ r ∈ rs, r.Known T := by
    intro r hr heq r' hr'
    obtain rfl := Option.some.inj heq
    exact List.mem_singleton.mp hr' ▸ hr
  have htyped : ∀ {res : HttpResponse} {status : HttpStatusCode} {type : ContentType},
      res.headers = (addContentType (makeResFirstLine .zero status) type).headers →
        res.Known T := fun hres => known_of_type fun header hmem =>
    mem_addContentType_zero (hres ▸ hmem)
  cases hpass : (startPass routeRegistry e.middlewareEnv parsed).outcome with
  | badRequest =>
      rw [hpass] at h
      exact hone (htyped rfl) h
  | notFound =>
      rw [hpass] at h
      refine hone (@htyped _ .notFound .html ?_) h
      rw [notFoundResponse]
      split
      · rfl
      · rfl
  | methodNotAllowed =>
      rw [hpass] at h
      exact hone (htyped rfl) h
  | undefined =>
      rw [hpass] at h
      simp at h
  | middlewareFailed res =>
      rw [hpass] at h
      obtain rfl := startPass_middlewareFailed hpass
      refine hone (known_redirect (Or.inr rfl) fun header hmem r hr => ?_) h
      rw [mem_addContentType_zero hmem]
      exact .contentType _
  | handled handler req res =>
      rw [hpass] at hnone
      simp at hnone

/-- **The headers of the responses of a pass.** -/
theorem passResponses_known {rs : List HttpResponse}
    (h : (passResponses e received).result d = some rs) :
    ∀ r ∈ rs, r.Known fun token => ∃ req, calledHandler e received = some (.handleLogin, req) ∧
      req.method = lit "POST" ∧ IssuedBy e.handlerEnv req d token := by
  cases hcalled : calledHandler e received with
  | none => exact known_exit h hcalled
  | some called =>
      obtain ⟨handler, req⟩ := called
      have hrun := runHandler_of_passResponses h hcalled
      intro r hr
      refine (runHandler_known hrun r hr).imp fun token htoken => ?_
      obtain ⟨rfl, hmethod, hissued⟩ := htoken
      exact ⟨req, rfl, hmethod, hissued⟩

/-! ### The bytes of a response -/

/-- The text of the status line. -/
def HttpResponse.startText (res : HttpResponse) : Bytes :=
  printStr res.version ++ ch ' ' :: (printNat res.statusCode ++ ch ' ' :: printStr res.statusText)

/-- What is sent as the body. -/
def HttpResponse.content (res : HttpResponse) : Bytes :=
  if res.statusCode = HttpStatusCode.redirect.code then [] else res.body

/-- The key and the value of a header. -/
def HttpHeader.field (header : HttpHeader) : Bytes × Bytes := (header.key, header.value)

/-- A text without a digit in it is not in a number. -/
theorem not_mem_printNat {c : UInt8} (hdigit : isDigit c = false) (n : ℕ) : c ∉ printNat n :=
  not_mem_of_isDigit (fun _ h => isDigit_of_mem_printNat h) hdigit

/-- A token has no line break: it is made of base64url texts and dots. -/
theorem cr_not_mem_createJwtForUser (H : Hmac) (now : ℤ) (jwtExp : Option Bytes)
    (secret userId name : Bytes) : 13 ∉ createJwtForUser H now jwtExp secret userId name := by
  have htext : ∀ data, (13 : UInt8) ∉ base64urlEncode data := fun data =>
    not_mem_base64urlEncode (by decide +kernel) (by decide) (by decide) (by decide)
  have hdot : (13 : UInt8) ∉ [ch '.'] := by decide
  simp only [createJwtForUser, generateJwt, List.mem_append, not_or]
  exact ⟨⟨⟨⟨htext _, hdot⟩, htext _⟩, hdot⟩, htext _⟩

/-- The parts of a known header can be told apart. -/
theorem KnownHeader.marks (h : KnownHeader T res header) (hT : ∀ token, T token → 13 ∉ token) :
    (13 ∉ header.field.1 ∧ ch ':' ∉ header.field.1) ∧ 13 ∉ header.field.2 := by
  have htype : (13 : UInt8) ∉ lit "Content-Type" ∧ ch ':' ∉ lit "Content-Type" := by decide
  have hlength : (13 : UInt8) ∉ lit "Content-Length" ∧ ch ':' ∉ lit "Content-Length" := by decide
  have hlocation : (13 : UInt8) ∉ lit "Location" ∧ ch ':' ∉ lit "Location" := by decide
  have hcookie : (13 : UInt8) ∉ lit "Set-Cookie" ∧ ch ':' ∉ lit "Set-Cookie" := by decide
  cases h with
  | contentType type =>
      refine ⟨htype, ?_⟩
      cases type <;> exact (by decide)
  | contentLength hstatus => exact ⟨hlength, not_mem_printNat (by decide) _⟩
  | location hstatus hpath =>
      refine ⟨hlocation, ?_⟩
      rcases hpath with rfl | rfl
      · exact (by decide : (13 : UInt8) ∉ lit "/accounts")
      · exact (by decide : (13 : UInt8) ∉ lit "/login")
  | @setCookie token hstatus htoken =>
      refine ⟨hcookie, ?_⟩
      have htexts : (13 : UInt8) ∉ lit "token=" ∧
          (13 : UInt8) ∉ lit "; Path=/; HttpOnly; SameSite=Strict; Max-Age=3600" := by decide
      simp only [HttpHeader.field, tokenCookie, List.mem_append, not_or]
      exact ⟨⟨htexts.1, hT token htoken⟩, htexts.2⟩

/-- A response whose status line is made, or was never touched. -/
def HttpResponse.Starts (res : HttpResponse) : Prop := res.HasStatus ∨ res = .zero

theorem HttpResponse.Starts.cr_not_mem (h : res.Starts) : 13 ∉ res.startText := by
  rcases h with ⟨status, hversion, hcode, htext⟩ | rfl
  · rw [HttpResponse.startText, hversion, hcode, htext]
    cases status <;> decide
  · decide

/-- **A response as a message.** -/
def HttpResponse.message (res : HttpResponse) (hstart : res.Starts) (hknown : res.Known T)
    (hT : ∀ token, T token → 13 ∉ token) : Message httpMarks where
  start := res.startText
  fields := res.headers.map HttpHeader.field
  body := res.content
  startLine := hstart.cr_not_mem
  names := by
    intro field hfield
    obtain ⟨header, hmem, rfl⟩ := List.mem_map.mp hfield
    exact ((hknown header hmem).marks hT).1
  values := by
    intro field hfield
    obtain ⟨header, hmem, rfl⟩ := List.mem_map.mp hfield
    exact ((hknown header hmem).marks hT).2

/-- The text of the message is what is printed, and the body. -/
theorem print_message (hstart : res.Starts) (hknown : res.Known T)
    (hT : ∀ token, T token → 13 ∉ token) :
    (res.message hstart hknown hT).print = responseHead res ++ res.content := by
  have hline : ∀ text : Bytes, httpMarks.line text = text ++ crlf := fun _ => rfl
  have hfield : ∀ header : HttpHeader, httpMarks.line (httpMarks.fieldText header.field) =
      header.key ++ lit ": " ++ header.value ++ crlf := by
    intro header
    rw [hline, Marks.fieldText, List.append_assoc header.key]
    rfl
  have hstatus : statusLine res = res.startText ++ crlf := by
    simp only [statusLine, HttpResponse.startText, List.append_assoc, List.cons_append]
  have hfields : (res.message hstart hknown hT).fields = res.headers.map HttpHeader.field := rfl
  rw [Message.print, hfields, List.flatMap_map]
  simp only [hfield, hline, List.nil_append]
  rw [responseHead, hstatus]
  rfl

/-- A response with room for its headers is sent as it is printed. -/
theorem sendHttpResponse_eq (hroom : (responseHead res).length ≤ 2047) :
    sendHttpResponse res = some (responseHead res ++ res.content) := by
  have hcut : ((responseHead res).take 2047 ++ [0]).take (responseHead res).length =
      responseHead res := by
    rw [List.take_of_length_le hroom, List.take_left]
  rw [sendHttpResponse, if_pos (hroom.trans (by decide)), hcut]
  rfl

/-- The responses of a pass are answers, or the one that was never touched. -/
theorem passResponses_answers {rs : List HttpResponse}
    (h : (passResponses e received).result d = some rs) :
    ∀ r ∈ rs, r.Answers .zero ∨ r = .zero := by
  intro r hr
  rcases passResponses_cases h with ⟨⟨r', rfl, hanswers⟩, -⟩ | ⟨handler, req, -, hrun⟩
  · exact Or.inl (List.mem_singleton.mp hr ▸ hanswers)
  · by_cases hmethod : handler.comparesMethod = true → req.ExactMethod
    · obtain ⟨r', rfl, hanswers⟩ := runHandler_answers hrun hmethod
      exact Or.inl (List.mem_singleton.mp hr ▸ hanswers)
    · rw [Classical.not_imp] at hmethod
      rcases runHandler_misspelled hrun hmethod.1 hmethod.2 with rfl | rfl
      · exact absurd hr List.not_mem_nil
      · exact Or.inr (List.mem_singleton.mp hr)

theorem length_responseHead_le (h : res.Answers .zero ∨ res = .zero) :
    (responseHead res).length ≤ 2047 := by
  rcases h with hanswers | rfl
  · obtain ⟨status, hline⟩ := statusLine_of_hasStatus hanswers.status
    have hshort := length_madeStatusLine_le status
    have hroom : res.headerBytes ≤ 0 + 1200 := hanswers.room
    rw [length_responseHead, hline]
    omega
  · decide

/-- **What a client reads.** Whatever was received and whatever is on the disk, the bytes a pass
writes for each of its responses are read back as the status line, the headers and the body the
response was made of. The headers are known ones: a `Content-Length` is the length of the body
behind it, a `Location` is one of two pages, and a token comes from a login alone. -/
theorem responses_read_back {rs : List HttpResponse}
    (h : (passResponses e received).result d = some rs) :
    (∃ sends, (passSends e received).result d = some sends ∧
      sends.map (readMessage httpMarks) = rs.map fun r =>
        some (r.startText, r.headers.map HttpHeader.field, r.content)) ∧
    ∀ r ∈ rs, r.Known fun token => ∃ req, calledHandler e received = some (.handleLogin, req) ∧
      req.method = lit "POST" ∧ IssuedBy e.handlerEnv req d token := by
  have hknown := passResponses_known h
  have hanswers := passResponses_answers h
  refine ⟨⟨rs.map fun r => responseHead r ++ r.content, ?_, ?_⟩, hknown⟩
  · refine Proc.result_bind_eq_some.mpr ⟨rs, h, mapM_eq_some_iff.mpr ?_⟩
    rw [List.forall₂_map_right_iff, List.forall₂_same]
    exact fun r hr => sendHttpResponse_eq (length_responseHead_le (hanswers r hr))
  · rw [List.map_map, List.map_inj_left]
    intro r hr
    have hT : ∀ token, (∃ req, calledHandler e received = some (.handleLogin, req) ∧
        req.method = lit "POST" ∧ IssuedBy e.handlerEnv req d token) → 13 ∉ token := by
      rintro token ⟨req, -, -, schema, user, secret, -, -, -, rfl⟩
      exact cr_not_mem_createJwtForUser _ _ _ _ _ _
    have hstart : r.Starts := (hanswers r hr).imp_left HttpResponse.Answers.status
    have hread := readMessage_print (r.message hstart (hknown r hr) hT)
    rw [print_message] at hread
    exact hread

/-- A request for a page that does not exist: one response, read back as it was made. -/
theorem responses_read_back_stray :
    (∃ sends, (passSends annEnv strayRequest).result Disk.empty = some sends ∧
      sends.map (readMessage httpMarks) = [some (lit "HTTP/1.1 404 Not Found",
        [(lit "Content-Type", lit "text/html; charset=UTF-8")], [])]) ∧
    ∀ r ∈ [notFoundResponse (fun _ => none) .zero], r.Known fun token =>
      ∃ req, calledHandler annEnv strayRequest = some (.handleLogin, req) ∧
        req.method = lit "POST" ∧ IssuedBy annEnv.handlerEnv req Disk.empty token := by
  have hresponses : (passResponses annEnv strayRequest).result Disk.empty =
      some [notFoundResponse (fun _ => none) .zero] := by decide +kernel
  have hread := responses_read_back hresponses
  have hmessage : (notFoundResponse (fun _ => none) .zero).startText =
      lit "HTTP/1.1 404 Not Found" := by decide +kernel
  simp only [List.map_singleton, hmessage] at hread
  exact hread

end CBank
