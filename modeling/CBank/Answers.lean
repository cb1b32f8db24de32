import CBank.Definedness

/-!
# How a Request Is Answered

One pass of the loop in `start`, from the bytes that were read to the bytes `send_http_response`
writes before the connection is closed. A request that is not parsed, not routed or not
authenticated gets the response of its exit; the others get what their handler sends.

The route is found with `strcasecmp`, the handlers of the two forms and of the accounts compare
the method with `strcmp`, so a method such as `post` reaches them and is answered by nothing, or
by a response whose status line was not made.

## Main results

* `passResponses_cases`: how a pass is answered.
* `answered_once_iff`: when a request is answered once.
-/

namespace CBank

open CLib

/-! ### Sending -/

/-- The status line of a response; the pointers of one that was not made are NULL. -/
def statusLine (res : HttpResponse) : Bytes :=
  printStr res.version ++ ch ' ' :: (printNat res.statusCode ++ ch ' ' ::
    (printStr res.statusText ++ crlf))

/-- What `send_http_response` prints into `header_buf`. -/
def responseHead (res : HttpResponse) : Bytes :=
  statusLine res ++ (res.headers.flatMap fun header =>
    header.key ++ lit ": " ++ header.value ++ crlf) ++ crlf

/-- `send_http_response`: the bytes it writes, as many as it counted from a buffer of 2048. -/
def sendHttpResponse (res : HttpResponse) : Option Bytes :=
  let head := responseHead res
  if head.length ≤ 2048 then
    some ((head.take 2047 ++ [0]).take head.length ++
      if res.statusCode = HttpStatusCode.redirect.code then [] else res.body)
  else none

/-- The status line that is printed for a status. -/
def madeStatusLine (status : HttpStatusCode) : Bytes :=
  lit "HTTP/1.1" ++ ch ' ' :: (printNat status.code ++ ch ' ' :: (getStatusText status ++ crlf))

/-- What was sent starts with a status line that has a version, a status code and its text. -/
def HasStatusLine (sent : Bytes) : Prop := ∃ status, madeStatusLine status <+: sent

/-! ### The exits of the loop -/

/-- The response of `send_bad_request_response`. -/
def badRequestResponse (res : HttpResponse) : HttpResponse :=
  addContentType (makeResFirstLine res .badRequest) .plain

/-- The response of `send_not_allowed_response`. -/
def notAllowedResponse (res : HttpResponse) : HttpResponse :=
  addContentType (makeResFirstLine res .methodNotAllowed) .plain

/-- The response of `send_404_response`; without its template the body stays empty. -/
def notFoundResponse (templates : Bytes → Option Bytes) (res : HttpResponse) : HttpResponse :=
  let res := addContentType (makeResFirstLine res .notFound) .html
  match templates (lit "./src/server/templates/404.html") with
  | none => res
  | some content => { res with body := cstr (content.take (bodyLen - 1)) }

/-- What a pass of the loop runs in: the stack before the request line is copied, the environment
of each middleware, and that of the handler. -/
structure PassEnv where
  lineScratch : LineScratch
  middlewareEnv : ℕ → Env
  handlerEnv : HandlerEnv

/-- The responses of one pass, in order. -/
def passResponses (e : PassEnv) (received : Received) : Proc Disk FileOp (List HttpResponse) := do
  let parsed ← Proc.read fun _ => parseRequest e.lineScratch received
  match (startPass routeRegistry e.middlewareEnv parsed).outcome with
  | .badRequest => pure [badRequestResponse .zero]
  | .notFound => pure [notFoundResponse e.handlerEnv.templates .zero]
  | .methodNotAllowed => pure [notAllowedResponse .zero]
  | .middlewareFailed res => pure [res]
  | .handled handler req res => runHandler e.handlerEnv req res handler
  | .undefined => Proc.read fun _ => none

/-- What one pass writes to the client, in order, before it closes the connection. -/
def passSends (e : PassEnv) (received : Received) : Proc Disk FileOp (List Bytes) := do
  let responses ← passResponses e received
  Proc.read fun _ => responses.mapM sendHttpResponse

/-- The handler one pass calls, and the request it gets. -/
def calledHandler (e : PassEnv) (received : Received) : Option (Handler × HttpRequest) := do
  let parsed ← parseRequest e.lineScratch received
  match (startPass routeRegistry e.middlewareEnv parsed).outcome with
  | .handled handler req _ => some (handler, req)
  | _ => none

/-! ### What is sent -/

theorem length_madeStatusLine_le (status : HttpStatusCode) :
    (madeStatusLine status).length ≤ 40 := by
  cases status <;> decide

theorem statusLine_of_hasStatus {res : HttpResponse} (h : res.HasStatus) :
    ∃ status, statusLine res = madeStatusLine status := by
  obtain ⟨status, hversion, hcode, htext⟩ := h
  refine ⟨status, ?_⟩
  rw [statusLine, hversion, hcode, htext]
  rfl

theorem length_responseHead (res : HttpResponse) :
    (responseHead res).length = (statusLine res).length + res.headerBytes + 2 := by
  have hheaders : ∀ headers : List HttpHeader, (headers.flatMap fun header =>
      header.key ++ lit ": " ++ header.value ++ crlf).length =
      (headers.map fun header => header.key.length + header.value.length + 4).sum := by
    intro headers
    induction headers with
    | nil => rfl
    | cons header headers ih =>
        have hsep : (lit ": ").length = 2 ∧ crlf.length = 2 := by decide
        rw [List.flatMap_cons, List.length_append, ih, List.map_cons, List.sum_cons]
        simp only [List.length_append, hsep.1, hsep.2]
        omega
  rw [responseHead, List.length_append, List.length_append, hheaders]
  rfl

/-- **An answer is sent**, and with its status line. -/
theorem sendHttpResponse_of_answers {res : HttpResponse} (h : res.Answers .zero) :
    ∃ sent, sendHttpResponse res = some sent ∧ HasStatusLine sent := by
  obtain ⟨status, hline⟩ := statusLine_of_hasStatus h.status
  have hshort := length_madeStatusLine_le status
  have hroom : res.headerBytes ≤ 0 + 1200 := h.room
  have hfits : (responseHead res).length ≤ 2048 := by
    rw [length_responseHead, hline]
    omega
  refine ⟨_, if_pos hfits, status, ?_⟩
  have hhead : madeStatusLine status <+: responseHead res := by
    rw [responseHead, hline, List.append_assoc]
    exact List.prefix_append _ _
  have htake : madeStatusLine status <+: (responseHead res).take 2047 ++ [0] :=
    (List.prefix_take_iff.mpr ⟨hhead, by omega⟩).trans (List.prefix_append _ _)
  exact (List.prefix_take_iff.mpr ⟨htake, hhead.length_le⟩).trans (List.prefix_append _ _)

/-- A response whose status line was not made is sent without one. -/
theorem not_hasStatusLine_zero {sent : Bytes} (hsent : sendHttpResponse .zero = some sent) :
    ¬ HasStatusLine sent := by
  have hzero : sendHttpResponse .zero = some (lit "(null) 0 (null)" ++ crlf ++ crlf) := by
    decide +kernel
  rw [hzero] at hsent
  obtain rfl := Option.some.inj hsent
  rintro ⟨status, hline⟩
  have hhead : lit "HTTP/1.1" <+: lit "(null) 0 (null)" ++ crlf ++ crlf :=
    (List.prefix_append _ _).trans hline
  exact absurd hhead (by decide)

/-- A pass of the program that calls a handler gives it the zeroed response. -/
theorem startPass_handled_zero {env : ℕ → Env} {parsed : Option HttpRequest} {handler : Handler}
    {req : HttpRequest} {res : HttpResponse}
    (h : (startPass routeRegistry env parsed).outcome = .handled handler req res) :
    res = .zero := by
  cases parsed with
  | none => simp [startPass] at h
  | some received =>
      obtain ⟨route, hroute⟩ := exists_route_of_handled h
      exact middlewareRun_passed hroute ((startPass_handled_iff hroute).mp h).2

/-- A pass of the program whose middlewares fail is answered with a redirect to the login page. -/
theorem startPass_middlewareFailed {env : ℕ → Env} {parsed : Option HttpRequest}
    {res : HttpResponse}
    (h : (startPass routeRegistry env parsed).outcome = .middlewareFailed res) :
    res = redirect (makeNonAuthorized .zero) (lit "/login") := by
  cases parsed with
  | none => simp [startPass] at h
  | some received =>
      cases hroute : getRoute routeRegistry received with
      | notFound => simp [startPass, hroute] at h
      | methodNotAllowed => simp [startPass, hroute] at h
      | valid route =>
          simp only [startPass, hroute] at h
          cases hverdict : (middlewareRun env route received).2 with
          | undefined => simp [hverdict] at h
          | passed s => simp [hverdict] at h
          | stopped s =>
              obtain ⟨-, hres, -⟩ := middlewareRun_stopped hroute hverdict
              simp only [hverdict, PassEnd.middlewareFailed.injEq] at h
              rw [← h, hres]
              rfl

variable {e : PassEnv} {received : Received} {d : Disk}

/-- **How a pass is answered**: with one answer, or by its handler, which gets the zeroed
response. -/
theorem passResponses_cases {rs : List HttpResponse}
    (h : (passResponses e received).result d = some rs) :
    ((∃ r, rs = [r] ∧ r.Answers .zero) ∧ calledHandler e received = none) ∨
      ∃ handler req, calledHandler e received = some (handler, req) ∧
        (runHandler e.handlerEnv req .zero handler).result d = some rs := by
  obtain ⟨parsed, hparsed, h⟩ := Proc.result_bind_eq_some.mp h
  rw [Proc.after_read] at h
  rw [Proc.result_read] at hparsed
  simp only [calledHandler, hparsed, Option.bind_eq_bind, Option.bind_some]
  have hone : ∀ {r : HttpResponse}, r.Answers .zero → some [r] = some rs →
      ∃ r, rs = [r] ∧ r.Answers .zero := fun hr heq => ⟨_, (Option.some.inj heq).symm, hr⟩
  have htyped : ∀ (status : HttpStatusCode) (type : ContentType),
      (addContentType (makeResFirstLine .zero status) type).Answers .zero := fun status type =>
    ⟨hasStatus_addResHeader.mpr (hasStatus_makeResFirstLine _ _),
      (headerBytes_addContentType_le _ _).trans (Nat.add_le_add_left (by decide) _)⟩
  cases hpass : (startPass routeRegistry e.middlewareEnv parsed).outcome with
  | badRequest =>
      rw [hpass] at h
      exact Or.inl ⟨hone (htyped .badRequest .plain) h, rfl⟩
  | notFound =>
      rw [hpass] at h
      refine Or.inl ⟨hone ?_ h, rfl⟩
      rw [notFoundResponse]
      split
      · exact htyped .notFound .html
      · exact ⟨(htyped .notFound .html).status, (htyped .notFound .html).room⟩
  | methodNotAllowed =>
      rw [hpass] at h
      exact Or.inl ⟨hone (htyped .methodNotAllowed .plain) h, rfl⟩
  | undefined =>
      rw [hpass] at h
      simp at h
  | middlewareFailed res =>
      rw [hpass] at h
      refine Or.inl ⟨hone ?_ h, rfl⟩
      obtain rfl := startPass_middlewareFailed hpass
      exact ⟨hasStatus_redirect _ _, by decide⟩
  | handled handler req res =>
      rw [hpass] at h
      obtain rfl := startPass_handled_zero hpass
      exact Or.inr ⟨handler, req, rfl, h⟩

/-- A pass that calls a handler sends its responses. -/
theorem runHandler_of_passResponses {rs : List HttpResponse} {handler : Handler}
    {req : HttpRequest} (h : (passResponses e received).result d = some rs)
    (hcalled : calledHandler e received = some (handler, req)) :
    (runHandler e.handlerEnv req .zero handler).result d = some rs := by
  rcases passResponses_cases h with ⟨-, hnone⟩ | ⟨handler', req', hcalled', hrun⟩
  · rw [hnone] at hcalled
    simp at hcalled
  · rw [hcalled, Option.some.injEq, Prod.mk.injEq] at hcalled'
    obtain ⟨rfl, rfl⟩ := hcalled'
    exact hrun

/-- No step of a pass is undefined: neither the parser nor `auth_middleware`, behind which the
request may be routed, nor the handler it reaches. -/
structure PassDefined (e : PassEnv) (received : Received) (d : Disk) : Prop where
  parser : ParserDefined e.lineScratch received
  middlewares : ∀ req route, parseRequest e.lineScratch received = some (some req) →
    getRoute routeRegistry req = .valid route → authMiddleware ∈ route.middlewareList →
      AuthDefined (e.middlewareEnv 1) req
  handler : ∀ handler req, calledHandler e received = some (handler, req) →
    HandlerDefined e.handlerEnv req d handler

/-- **When a pass has responses**: when no step of it is undefined. -/
theorem isSome_passResponses_iff :
    ((passResponses e received).result d).isSome ↔ PassDefined e received d := by
  constructor
  · intro h
    obtain ⟨rs, hrs⟩ := Option.isSome_iff_exists.mp h
    obtain ⟨parsed, hparsed, hrest⟩ := Proc.result_bind_eq_some.mp hrs
    rw [Proc.result_read] at hparsed
    refine ⟨isSome_parseRequest_iff.mp (by rw [hparsed]; rfl), ?_, ?_⟩
    · intro req route hreq hroute hauth
      obtain rfl := Option.some.inj (hparsed.symm.trans hreq)
      by_contra hundefined
      rw [startPass_undefined_iff.mpr ⟨route, hroute, hauth, hundefined⟩] at hrest
      simp at hrest
    · intro handler req hcalled
      rw [← @isSome_runHandler_iff e.handlerEnv req .zero d,
        runHandler_of_passResponses hrs hcalled]
      rfl
  · rintro ⟨hparser, hmiddlewares, hhandler⟩
    obtain ⟨parsed, hparsed⟩ := Option.isSome_iff_exists.mp (isSome_parseRequest_iff.mpr hparser)
    have hread : (Proc.read fun _ => parseRequest e.lineScratch received :
        Proc Disk FileOp _).result d = some parsed := hparsed
    simp only [calledHandler, hparsed, Option.bind_eq_bind, Option.bind_some] at hhandler
    rw [passResponses, Proc.result_bind, hread, Option.bind_some, Proc.after_read]
    cases hpass : (startPass routeRegistry e.middlewareEnv parsed).outcome with
    | undefined =>
        cases parsed with
        | none => simp [startPass] at hpass
        | some req =>
            obtain ⟨route, hroute, hauth, hundefined⟩ := startPass_undefined_iff.mp hpass
            exact absurd (hmiddlewares req route hparsed hroute hauth) hundefined
    | handled handler req res =>
        obtain rfl := startPass_handled_zero hpass
        rw [hpass] at hhandler
        exact isSome_runHandler_iff.mpr (hhandler handler req rfl)
    | _ => rfl

/-- **Every request is answered once**, with a status line that carries a version, a status code
and its text, exactly when no step of the pass is undefined and a handler that compares the method
gets `GET` or `POST`. -/
theorem answered_once_iff (e : PassEnv) (received : Received) (d : Disk) :
    (∃ sent, (passSends e received).result d = some [sent] ∧ HasStatusLine sent) ↔
      PassDefined e received d ∧
        ∀ handler req, calledHandler e received = some (handler, req) →
          handler.comparesMethod = true → req.ExactMethod := by
  have hsends : ∀ {sends : List Bytes}, (passSends e received).result d = some sends ↔
      ∃ rs, (passResponses e received).result d = some rs ∧
        rs.mapM sendHttpResponse = some sends := Proc.result_bind_eq_some
  constructor
  · rintro ⟨sent, hresult, hline⟩
    obtain ⟨rs, hrs, hsent⟩ := hsends.mp hresult
    refine ⟨isSome_passResponses_iff.mp (by rw [hrs]; rfl), ?_⟩
    intro handler req hcalled hcompares
    by_contra hmethod
    have hrun := runHandler_of_passResponses hrs hcalled
    rcases runHandler_misspelled hrun hcompares hmethod with rfl | rfl
    · simp at hsent
    · rw [List.mapM_cons, List.mapM_nil] at hsent
      obtain ⟨text, htext, hsent⟩ := Option.bind_eq_some_iff.mp hsent
      obtain ⟨rfl⟩ : text = sent := by simpa using hsent
      exact not_hasStatusLine_zero htext hline
  · rintro ⟨hdefined, hmethods⟩
    obtain ⟨rs, hrs⟩ := Option.isSome_iff_exists.mp (isSome_passResponses_iff.mpr hdefined)
    obtain ⟨r, rfl, hanswers⟩ : ∃ r, rs = [r] ∧ r.Answers .zero := by
      rcases passResponses_cases hrs with ⟨hone, -⟩ | ⟨handler, req, hcalled, hrun⟩
      · exact hone
      · exact runHandler_answers hrun (hmethods handler req hcalled)
    obtain ⟨sent, hsent, hline⟩ := sendHttpResponse_of_answers hanswers
    refine ⟨sent, hsends.mpr ⟨[r], hrs, ?_⟩, hline⟩
    rw [List.mapM_cons, List.mapM_nil, hsent]
    rfl

/-- A server without secrets and files, on an empty stack. -/
def bareEnv : PassEnv where
  lineScratch := zeroLineScratch
  middlewareEnv _ := ⟨zeroHmac, [], 0⟩
  handlerEnv :=
    { env := ⟨zeroHmac, [], 0⟩
      crypt := id
      callEnv := ⟨[], [], ⟨[], [], [], [], [], []⟩, ⟨[], [], [], []⟩⟩
      userScratch := ⟨[], [], [], [], [], []⟩
      userAccScratch := ⟨[], [], [], []⟩
      accScratch := fun _ => ⟨[], [], [], []⟩
      templates := fun _ => none
      heap := fun _ => 0 }

/-- A login whose method is spelled in small letters. -/
def smallPost : Received := ⟨lit "post /login HTTP/1.1" ++ crlf ++ crlf, by decide⟩

/-- **A request that is not answered**: it is routed to the login, which sends nothing. -/
theorem answered_never_small :
    ¬ ∃ sent, (passSends bareEnv smallPost).result Disk.empty = some [sent] ∧
      HasStatusLine sent := by
  have hnothing : (passSends bareEnv smallPost).result Disk.empty = some [] := by
    decide +kernel
  rintro ⟨sent, hsent, -⟩
  rw [hnothing] at hsent
  simp at hsent

end CBank
