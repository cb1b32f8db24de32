import CBank.Answers

/-!
# Missing Headers

What a pass of the loop in `start` hands to `strcmp`, `strlen`, `strtok_r` and `memcpy` out of
`get_header`, `get_req_cookie`, `strstr` and `strchr`, from `parse_req_headers` to the end of the
handler. A lookup that finds nothing returns NULL, which none of the four takes.

Every lookup is checked before it is used but one: the two handlers of the forms compare the
`Content-Type` of a POST as it comes.

## Main results

* `parsedUses_ne_none`: no part of a pass before the handler uses NULL.
* `routedRequest_of_parsed`: what is routed is what was parsed, where no array is left.
* `missing_headers_handled_iff`: when a pass does not.
-/

namespace CBank

open CLib

/-! ### Uses of a lookup -/

/-- The functions that do not take NULL. -/
inductive StringFunction
  | strcmp
  | strlen
  | strtokR
  | memcpy
  deriving DecidableEq

/-- The lookups that return NULL when there is nothing to find. -/
inductive Lookup
  | getHeader (field : HttpHeaderField)
  | strstr (pattern : Bytes)
  | strchr (c : UInt8)
  deriving DecidableEq

/-- What a lookup returned is handed to a function; `none` is NULL. -/
structure LookupUse where
  callee : StringFunction
  lookup : Lookup
  result : Option Bytes
  deriving DecidableEq

/-- The uses of a result that is checked before. -/
def checkedUses (callee : StringFunction) (lookup : Lookup) (result : Option Bytes) :
    List LookupUse :=
  if result = none then [] else [⟨callee, lookup, result⟩]

/-- The uses in `parse_req_headers`: every line but the first is copied from behind the `CRLF` that
was found before it. -/
def headerUses (headerStart : Bytes) : List LookupUse :=
  if strstr (crlf ++ crlf) headerStart = none then []
  else ((splitPair 13 newline headerStart).takeWhile (· ≠ [])).tail.flatMap fun line =>
    checkedUses .memcpy (.strstr crlf) (some line)

/-- The uses in `parse_req_cookies`. -/
def cookieUses (req : HttpRequest) : List LookupUse :=
  if req.headers = [] then []
  else checkedUses .strtokR (.getHeader .cookie) (getHeader req .cookie)

/-- The uses in `parse_req_body`: the body is copied from behind the empty line, or from the NULL
that `parse_req_headers` returned. -/
def bodyUses (clientBuf : Bytes) (bodyStart : Option ℕ) (req : HttpRequest) : List LookupUse :=
  match announcedLength req with
  | none => []
  | some _ => [⟨.memcpy, .strstr (crlf ++ crlf), bodyStart.map clientBuf.drop⟩]

/-- The uses at one token in `decode_url_middleware`. -/
def pairUses (token : Bytes) : List LookupUse :=
  checkedUses .strlen (.strchr (ch '=')) ((cutAt (ch '=') token).map Prod.snd)

/-- The uses in `decode_url_middleware`. -/
def decodeUses (req : HttpRequest) : List LookupUse :=
  if req.body = [] then []
  else
    let query := (cutAt (ch '?') req.path).map Prod.snd
    (tokens isBodyDelim req.body).flatMap pairUses ++
      checkedUses .strtokR (.strstr [ch '?']) query ++
      (tokens isQueryDelim (query.getD [])).flatMap pairUses

/-- The uses in a handler: the `Content-Type` is not checked. The `token` cookie is, and goes to
`strdup`. -/
def handlerUses (handler : Handler) (req : HttpRequest) : List LookupUse :=
  match handler with
  | .handleLogin | .handleRegisterAccount =>
      if req.method = lit "POST" then
        [⟨.strcmp, .getHeader .contentType, getHeader req .contentType⟩]
      else []
  | _ => []

/-- The uses behind `get_route`: every route decodes the request first, and `auth_middleware` uses
nothing it did not check. -/
def routedUses (e : PassEnv) (req : HttpRequest) : List LookupUse :=
  match (startPass routeRegistry e.middlewareEnv (some req)).outcome with
  | .notFound | .methodNotAllowed | .badRequest => []
  | .handled handler req' _ => decodeUses req ++ handlerUses handler req'
  | _ => decodeUses req

/-- The uses in `parse_req_headers` and `parse_req_cookies`. -/
def headUses (e : PassEnv) (received : Received) : List LookupUse :=
  match parseReqLine e.lineScratch (cstr received.1) .zero, cutAtStr crlf (cstr received.1) with
  | some (some req), some (_, headerStart) =>
      headerUses headerStart ++ cookieUses { req with headers := (parseReqHeaders headerStart).1 }
  | _, _ => []

/-- The uses from `parse_req_headers` to the end of `parse_req_body`. The length of the body is the
one `parse_req_headers` found, whatever happens to the cookies. -/
def parsedUses (e : PassEnv) (received : Received) : List LookupUse :=
  headUses e received ++
    match parseReqLine e.lineScratch (cstr received.1) .zero with
    | some (some req) =>
        bodyUses (clientBuffer received) (parseReqFields received).2 (req.withFields received)
    | _ => []

/-- What the cookies and the body hold when they were stored past the end of their arrays. -/
structure Overrun where
  cookies : List Cookie
  body : Bytes

/-- The request that is routed. A step of the parser that goes past an array goes on, and leaves
what is in `left`. -/
def routedRequest (scratch : LineScratch) (left : Overrun) (received : Received) :
    Option (Option HttpRequest) :=
  (parseReqLine scratch (cstr (clientBuffer received)) .zero).map fun parsed =>
    parsed.map fun req =>
      let req := req.withFields received
      let req := (parseReqCookies req).getD
        { req with headers := cutCookieHeader req.headers, cookies := left.cookies }
      (parseReqBody (clientBuffer received) (parseReqFields received).2 req).getD
        { req with body := left.body }

/-- The uses of a pass, from `parse_req_headers` to the end of the handler. -/
def passUses (e : PassEnv) (left : Overrun) (received : Received) : List LookupUse :=
  parsedUses e received ++
    match routedRequest e.lineScratch left received with
    | some (some req) => routedUses e req
    | _ => []

/-! ### What is checked -/

variable {e : PassEnv} {received : Received} {req : HttpRequest} {u : LookupUse}

/-- A result that is checked is not NULL. -/
theorem checkedUses_ne_none {callee : StringFunction} {lookup : Lookup} {result : Option Bytes}
    (h : u ∈ checkedUses callee lookup result) : u.result ≠ none := by
  rw [checkedUses] at h
  split at h
  · exact absurd h List.not_mem_nil
  · rename_i hresult
    rw [List.mem_singleton.mp h]
    exact hresult

theorem headUses_ne_none (h : u ∈ headUses e received) : u.result ≠ none := by
  rw [headUses] at h
  split at h
  · rcases List.mem_append.mp h with h | h
    · rw [headerUses] at h
      split at h
      · exact absurd h List.not_mem_nil
      · obtain ⟨line, -, h⟩ := List.mem_flatMap.mp h
        exact checkedUses_ne_none h
    · rw [cookieUses] at h
      split at h
      · exact absurd h List.not_mem_nil
      · exact checkedUses_ne_none h
  · exact absurd h List.not_mem_nil

/-- **No part of a pass before the routing uses NULL**: there is no announced length where there is
no empty line. -/
theorem parsedUses_ne_none (h : u ∈ parsedUses e received) : u.result ≠ none := by
  rcases List.mem_append.mp h with h | h
  · exact headUses_ne_none h
  · split at h
    · rename_i req hline
      rw [bodyUses] at h
      split at h
      · exact absurd h List.not_mem_nil
      · rename_i len hlen
        rw [List.mem_singleton.mp h]
        cases hstart : (parseReqFields received).2 with
        | none =>
            rw [announcedLength_of_no_bodyStart hstart rfl] at hlen
            simp at hlen
        | some start => simp
    · exact absurd h List.not_mem_nil

theorem decodeUses_ne_none (h : u ∈ decodeUses req) : u.result ≠ none := by
  have hpairs : ∀ ts : List Bytes, u ∈ ts.flatMap pairUses → u.result ≠ none := by
    intro ts hts
    obtain ⟨token, -, hts⟩ := List.mem_flatMap.mp hts
    exact checkedUses_ne_none hts
  rw [decodeUses] at h
  split at h
  · exact absurd h List.not_mem_nil
  · rcases List.mem_append.mp h with h | h
    · rcases List.mem_append.mp h with h | h
      · exact hpairs _ h
      · exact checkedUses_ne_none h
    · exact hpairs _ h

/-! ### What is not -/

/-- A POST to one of the forms without a `Content-Type`. -/
def FormWithoutType (req : HttpRequest) : Prop :=
  (req.path = lit "/login" ∨ req.path = lit "/register") ∧ req.method = lit "POST" ∧
    getHeader req .contentType = none

/-- The routes of the handlers of the forms. -/
theorem form_route {route : Route Handler} (h : route ∈ routeRegistry.routes)
    (hform : route.handler = .handleLogin ∨ route.handler = .handleRegisterAccount) :
    (route.path = lit "/login" ∨ route.path = lit "/register") ∧
      route.middlewareList = [decodeUrlMiddleware] := by
  rw [routes_routeRegistry] at h
  obtain ⟨entry, hentry, rfl⟩ := List.mem_map.mp h
  have hall : ∀ entry ∈ routes, entry.count.handler = .handleLogin ∨
      entry.count.handler = .handleRegisterAccount →
        (entry.count.path = lit "/login" ∨ entry.count.path = lit "/register") ∧
          entry.count.middlewareList = [decodeUrlMiddleware] := by
    simp only [routes, List.forall_mem_cons, List.not_mem_nil, false_imp_iff, implies_true,
      and_true]
    have hother : ∀ {handler : Handler} {P : Prop},
        handler ≠ .handleLogin ∧ handler ≠ .handleRegisterAccount →
          handler = .handleLogin ∨ handler = .handleRegisterAccount → P := by
      rintro handler P ⟨h₁, h₂⟩ (h | h)
      · exact absurd h h₁
      · exact absurd h h₂
    exact ⟨hother (by decide), hother (by decide), hother (by decide),
      fun _ => ⟨Or.inl rfl, rfl⟩, fun _ => ⟨Or.inr rfl, rfl⟩, hother (by decide),
      hother (by decide), hother (by decide), hother (by decide)⟩
  exact hall entry hentry hform

theorem exists_handlerUses_none_iff {handler : Handler} :
    (∃ u ∈ handlerUses handler req, u.result = none) ↔
      (handler = .handleLogin ∨ handler = .handleRegisterAccount) ∧ req.method = lit "POST" ∧
        getHeader req .contentType = none := by
  cases handler with
  | handleLogin => simp [handlerUses]
  | handleRegisterAccount => simp [handlerUses]
  | _ => simp [handlerUses]

/-- The handler of a form gets the request of a form, with its body decoded. -/
theorem form_of_startPass {handler : Handler} {req' : HttpRequest} {res : HttpResponse}
    (hpass : (startPass routeRegistry e.middlewareEnv (some req)).outcome =
      .handled handler req' res)
    (hform : handler = .handleLogin ∨ handler = .handleRegisterAccount) :
    (req.path = lit "/login" ∨ req.path = lit "/register") ∧ req' = decodedBody req := by
  obtain ⟨route, hroute⟩ := exists_route_of_handled hpass
  obtain rfl := ((startPass_handled_iff hroute).mp hpass).1
  obtain ⟨hfound, -⟩ := getRoute_eq_valid_iff.mp hroute
  obtain ⟨hpath, hlist⟩ := form_route (List.mem_of_find?_eq_some hfound) hform
  have hsame : req.path = route.path := by simpa using List.find?_some hfound
  have hquestion : ch '?' ∉ req.path := by
    rw [hsame]
    rcases hpath with hpath | hpath
    · rw [hpath]
      decide
    · rw [hpath]
      decide
  rw [startPass_decodedBody hroute hlist hquestion, PassEnd.handled.injEq] at hpass
  exact ⟨hsame ▸ hpath, hpass.2.1.symm⟩

/-- **What uses NULL behind the routing**: the handler of a form that gets no `Content-Type`. -/
theorem exists_routedUses_none_iff :
    (∃ u ∈ routedUses e req, u.result = none) ↔ FormWithoutType req := by
  constructor
  · rintro ⟨u, hu, hnone⟩
    rw [routedUses] at hu
    split at hu
    · exact absurd hu List.not_mem_nil
    · exact absurd hu List.not_mem_nil
    · exact absurd hu List.not_mem_nil
    · rename_i handler req' res hpass
      rcases List.mem_append.mp hu with hu | hu
      · exact absurd hnone (decodeUses_ne_none hu)
      · obtain ⟨hform, hmethod, htype⟩ := exists_handlerUses_none_iff.mp ⟨u, hu, hnone⟩
        -- the headers of a decoded request are as they were
        obtain ⟨hpath, rfl⟩ := form_of_startPass hpass hform
        exact ⟨hpath, hmethod, htype⟩
    · exact absurd hnone (decodeUses_ne_none hu)
  · rintro ⟨hpath, hmethod, htype⟩
    have hhandler : ∀ handler, handler = .handleLogin ∨ handler = .handleRegisterAccount →
        (startPass routeRegistry e.middlewareEnv (some req)).outcome =
          .handled handler (decodedBody req) .zero →
        ∃ u ∈ routedUses e req, u.result = none := by
      intro handler hform hpass
      obtain ⟨u, hu, hnone⟩ := exists_handlerUses_none_iff.mpr
        (⟨hform, hmethod, htype⟩ : _ ∧ (decodedBody req).method = _ ∧
          getHeader (decodedBody req) .contentType = none)
      refine ⟨u, ?_, hnone⟩
      rw [routedUses, hpass]
      exact List.mem_append_right _ hu
    rcases hpath with hpath | hpath
    · exact hhandler .handleLogin (Or.inl rfl) (startPass_login hmethod hpath)
    · exact hhandler .handleRegisterAccount (Or.inr rfl) (startPass_register hmethod hpath)

/-! ### The request that is routed -/

variable {scratch : LineScratch} {left : Overrun}

/-- A request that is parsed within its arrays is routed as it is. -/
theorem routedRequest_of_parsed {parsed : Option HttpRequest}
    (h : parseRequest scratch received = some parsed) :
    routedRequest scratch left received = some parsed := by
  obtain ⟨head, hhead, h⟩ := Option.bind_eq_some_iff.mp h
  cases head with
  | none =>
      rw [← Option.some.inj h]
      obtain ⟨parsedLine, hline, hhead⟩ := Option.bind_eq_some_iff.mp hhead
      cases parsedLine with
      | none => rw [routedRequest, hline, Option.map_some, Option.map_none]
      | some reqOfLine =>
          obtain ⟨cut, -, hhead⟩ := Option.bind_eq_some_iff.mp hhead
          obtain ⟨cookied, -, hhead⟩ := Option.bind_eq_some_iff.mp hhead
          simp at hhead
  | some head =>
      obtain ⟨reqOfHead, bodyStart⟩ := head
      obtain ⟨line, text, reqOfLine, hcut, hline, hcookies, -⟩ := parseReqHead_eq_some hhead
      obtain ⟨rfl, -⟩ := fields_of_parseReqHead hhead
      have hfields : reqOfLine.withFields received =
          { reqOfLine with headers := (parseReqHeaders text).1 } := by
        rw [HttpRequest.withFields, parseReqFields_of_cut hcut]
      obtain ⟨req, hbody, rfl⟩ := Option.map_eq_some_iff.mp h
      rw [routedRequest, cstr_clientBuffer, hline]
      simp only [Option.map_some, hfields, hcookies, hbody, Option.getD_some]

/-- A request without a `Content-Type` has none after its cookies and its body. -/
theorem formWithoutType_congr {req req' : HttpRequest} (hmethod : req'.method = req.method)
    (hpath : req'.path = req.path)
    (htype : getHeader req' .contentType = getHeader req .contentType) :
    FormWithoutType req' ↔ FormWithoutType req := by
  rw [FormWithoutType, FormWithoutType, hmethod, hpath, htype]

/-- What `parse_req_cookies` keeps. -/
theorem kept_parseReqCookies {req req' : HttpRequest} (h : parseReqCookies req = some req') :
    req'.method = req.method ∧ req'.path = req.path := by
  rw [parseReqCookies] at h
  split at h
  · rw [Option.some.inj h]
    exact ⟨rfl, rfl⟩
  · split at h
    · rw [Option.some.inj h]
      exact ⟨rfl, rfl⟩
    · obtain ⟨-, h⟩ := Option.ite_none_right_eq_some.mp h
      rw [← Option.some.inj h]
      exact ⟨rfl, rfl⟩

/-- **The request that is routed lacks a type** exactly when the headers do, whatever the cookies
and the body are. -/
theorem formWithoutType_routed {reqOfLine req : HttpRequest}
    (hline : parseReqLine scratch (cstr (clientBuffer received)) .zero = some (some reqOfLine))
    (h : routedRequest scratch left received = some (some req)) :
    FormWithoutType req ↔ FormWithoutType (reqOfLine.withFields received) := by
  rw [routedRequest, hline, Option.map_some, Option.map_some, Option.some.injEq,
    Option.some.injEq] at h
  set given := reqOfLine.withFields received
  set cookied := (parseReqCookies given).getD
    { given with headers := cutCookieHeader given.headers, cookies := left.cookies } with hcookied
  have hbody : FormWithoutType req ↔ FormWithoutType cookied := by
    have hreq : (parseReqBody (clientBuffer received) (parseReqFields received).2 cookied).getD
        { cookied with body := left.body } = req := h
    rw [← hreq]
    cases hstored : parseReqBody (clientBuffer received) (parseReqFields received).2 cookied with
    | none => exact formWithoutType_congr rfl rfl rfl
    | some withBody =>
        obtain ⟨body, -, rfl⟩ := Option.map_eq_some_iff.mp hstored
        exact formWithoutType_congr rfl rfl rfl
  refine hbody.trans ?_
  cases hparsed : parseReqCookies given with
  | none =>
      rw [hparsed, Option.getD_none] at hcookied
      rw [hcookied]
      exact formWithoutType_congr rfl rfl (sentHeader_cutCookieHeader (by decide) given.headers)
  | some parsed =>
      rw [hparsed, Option.getD_some] at hcookied
      rw [hcookied]
      obtain ⟨hmethod, hpath⟩ := kept_parseReqCookies hparsed
      exact formWithoutType_congr hmethod hpath (getHeader_parseReqCookies hparsed (by decide))

/-! ### When nothing missing is used -/

/-- The request line and the headers of what was received are those of a form without a
`Content-Type`. -/
def LacksType (e : PassEnv) (received : Received) : Prop :=
  ∃ req, parseReqLine e.lineScratch (cstr (clientBuffer received)) .zero = some (some req) ∧
    FormWithoutType (req.withFields received)

/-- A pass copes with what a request lacks: the scan of the request line ends, it uses no NULL, and
a form without a `Content-Type` is answered with the status of an error. -/
structure MissingHandled (e : PassEnv) (left : Overrun) (received : Received) (d : Disk) :
    Prop where
  line : (parseReqLine e.lineScratch (cstr (clientBuffer received)) .zero).isSome
  notNull : ∀ u ∈ passUses e left received, u.result ≠ none
  answered : LacksType e received →
    ∃ r, (passResponses e received).result d = some [r] ∧ 400 ≤ r.statusCode

/-- **When no missing header is used**: exactly when the scan of the request line ends, and the
request is not a POST to one of the forms without a `Content-Type`. -/
theorem missing_headers_handled_iff (e : PassEnv) (left : Overrun) (received : Received)
    (d : Disk) : MissingHandled e left received d ↔
      WordsInCopy e.lineScratch received ∧ ¬ LacksType e received := by
  have hline : (parseReqLine e.lineScratch (cstr (clientBuffer received)) .zero).isSome ↔
      WordsInCopy e.lineScratch received := by
    rw [cstr_clientBuffer]
    exact isSome_parseReqLine_iff
  constructor
  · rintro ⟨hdefined, hnotNull, -⟩
    refine ⟨hline.mp hdefined, ?_⟩
    rintro ⟨reqOfLine, hreq, hform⟩
    obtain ⟨req, hrouted⟩ : ∃ req,
        routedRequest e.lineScratch left received = some (some req) := by
      rw [routedRequest, hreq]
      exact ⟨_, rfl⟩
    obtain ⟨u, hu, hnone⟩ := (@exists_routedUses_none_iff e req).mpr
      ((formWithoutType_routed hreq hrouted).mpr hform)
    refine hnotNull u ?_ hnone
    rw [passUses, hrouted]
    exact List.mem_append_right _ hu
  · rintro ⟨hwords, hlacks⟩
    refine ⟨hline.mpr hwords, ?_, fun h => absurd h hlacks⟩
    intro u hu hnone
    rcases List.mem_append.mp hu with hu | hu
    · exact parsedUses_ne_none hu hnone
    · split at hu
      · rename_i req hrouted
        have hreq := hrouted
        rw [routedRequest] at hreq
        obtain ⟨parsed, hparsed, hreq⟩ := Option.map_eq_some_iff.mp hreq
        obtain ⟨reqOfLine, rfl, -⟩ := Option.map_eq_some_iff.mp hreq
        exact hlacks ⟨reqOfLine, hparsed, (formWithoutType_routed hparsed hrouted).mp
          (exists_routedUses_none_iff.mp ⟨u, hu, hnone⟩)⟩
      · exact absurd hu List.not_mem_nil

/-- A login without headers. -/
def bareLogin : Received := ⟨lit "POST /login HTTP/1.1" ++ crlf ++ crlf, by decide⟩

/-- **A missing header that is used**: the `Content-Type` of a login is NULL, and the pass is not
defined. -/
theorem login_without_type :
    ⟨.strcmp, .getHeader .contentType, none⟩ ∈ passUses bareEnv ⟨[], []⟩ bareLogin ∧
      (passResponses bareEnv bareLogin).result Disk.empty = none ∧
      ¬ MissingHandled bareEnv ⟨[], []⟩ bareLogin Disk.empty := by
  have hused : ⟨.strcmp, .getHeader .contentType, none⟩ ∈
      passUses bareEnv ⟨[], []⟩ bareLogin := by
    decide +kernel
  exact ⟨hused, by decide +kernel, fun h => h.notNull _ hused rfl⟩

end CBank
