import CBank.CLib.Pipeline
import CBank.Routes

/-!
# The Server Loop

One pass of the loop of `start` in `server/server.c`, from the parsed request on: the route
is looked up, its middlewares run one after the other until one leaves a status of 400 or
more, and the handler is called when none did. Each middleware runs in an environment of its
own, since the clock goes on.

## Main results

* `startPass_handled_iff`: when a handler is called.
* `routes_authenticated`: the protected handlers of the program.
* `middlewareRun_stopped`: the only middleware that fails is `auth_middleware`.
* `protected_handler_gated`: the handler of a route with `auth_middleware` is only called for
  an authenticated request, and nothing runs after a middleware that fails.
-/

namespace CBank

open CLib

/-- How a pass ends; a handler is called with the request and the response it gets. -/
inductive PassEnd (H : Type)
  | badRequest
  | notFound
  | methodNotAllowed
  | middlewareFailed (res : HttpResponse)
  | handled (handler : H) (req : HttpRequest) (res : HttpResponse)
  | undefined
  deriving DecidableEq

/-- A pass: what each middleware that ran left behind, in order, and how it ended. -/
structure Pass (H : Type) where
  left : List (HttpRequest × HttpResponse)
  outcome : PassEnd H
  deriving DecidableEq

/-- The call of a middleware in the loop; NULL cannot be called. -/
def callMiddleware (env : ℕ → Env) (i : ℕ) (m : Option Middleware)
    (s : HttpRequest × HttpResponse) : Option (HttpRequest × HttpResponse) :=
  m.bind fun m => m (env i) s.1 s.2

/-- The calls of the middlewares a route counts. -/
def middlewareStages {H : Type} (env : ℕ → Env) (route : Route H) :
    List (HttpRequest × HttpResponse → Option (HttpRequest × HttpResponse)) :=
  (route.middlewares.toList.take route.middlewareCount).mapIdx (callMiddleware env)

/-- The loop is left: `HTTP_UNAUTHORIZED`, or another status of 400 or more. -/
def middlewareFails (s : HttpRequest × HttpResponse) : Bool := 400 ≤ s.2.statusCode

/-- What is sent when a middleware fails: a redirect to the login page, or its response. -/
def failedResponse (res : HttpResponse) : HttpResponse :=
  if res.statusCode = HttpStatusCode.unauthorized.code then redirect res (lit "/login") else res

/-- One pass of the loop in `start`; without a request `parse_req_line` failed. -/
def startPass {H : Type} (registry : RouteRegistry H) (env : ℕ → Env)
    (received : Option HttpRequest) : Pass H :=
  match received with
  | none => ⟨[], .badRequest⟩
  | some req => match getRoute registry req with
    | .notFound => ⟨[], .notFound⟩
    | .methodNotAllowed => ⟨[], .methodNotAllowed⟩
    | .valid route =>
        let (left, verdict) :=
          runStages middlewareFails (middlewareStages env route) (req, .zero)
        ⟨left, match verdict with
          | .undefined => .undefined
          | .stopped s => .middlewareFailed (failedResponse s.2)
          | .passed s => .handled route.handler s.1 s.2⟩

variable {H : Type} {registry : RouteRegistry H} {env : ℕ → Env} {received : HttpRequest}
  {route : Route H}

/-- The run of the middlewares of a request. -/
abbrev middlewareRun (env : ℕ → Env) (route : Route H) (received : HttpRequest) :
    List (HttpRequest × HttpResponse) × Verdict (HttpRequest × HttpResponse) :=
  runStages middlewareFails (middlewareStages env route) (received, .zero)

theorem startPass_left (hroute : getRoute registry received = .valid route) :
    (startPass registry env (some received)).left = (middlewareRun env route received).1 := by
  simp [startPass, hroute]

/-- **When a handler is called**: when all middlewares of the route pass, with what they
left. -/
theorem startPass_handled_iff (hroute : getRoute registry received = .valid route) {handler : H}
    {req : HttpRequest} {res : HttpResponse} :
    (startPass registry env (some received)).outcome = .handled handler req res ↔
      handler = route.handler ∧ (middlewareRun env route received).2 = .passed (req, res) := by
  simp only [startPass, hroute]
  cases (middlewareRun env route received).2 with
  | undefined => simp
  | stopped s => simp
  | passed s =>
      obtain ⟨q, r⟩ := s
      simp only [PassEnd.handled.injEq, Verdict.passed.injEq, Prod.mk.injEq]
      constructor
      · rintro ⟨rfl, hrest⟩
        exact ⟨rfl, hrest⟩
      · rintro ⟨rfl, hrest⟩
        exact ⟨rfl, hrest⟩

/-- The calls of a list of middlewares. -/
def callsOf (env : ℕ → Env) (ms : List Middleware) :
    List (HttpRequest × HttpResponse → Option (HttpRequest × HttpResponse)) :=
  ms.mapIdx fun i m s => m (env i) s.1 s.2

/-- The loop calls the middlewares a route lists. -/
theorem Route.Counted.middlewareStages_eq (h : route.Counted) :
    middlewareStages env route = callsOf env route.middlewareList := by
  rw [middlewareStages, h.take_middlewares, callsOf]
  refine List.ext_getElem? ?_
  intro i
  rw [List.getElem?_mapIdx, List.getElem?_map, List.getElem?_mapIdx]
  cases route.middlewareList[i]? with
  | none => rfl
  | some m => rfl

/-- The calls of a list in two parts around a middleware. -/
theorem callsOf_append_cons (env : ℕ → Env) (before after : List Middleware) (m : Middleware) :
    callsOf env (before ++ m :: after) = callsOf env before ++
      (fun s => m (env before.length) s.1 s.2) ::
        callsOf (fun i => env (i + 1 + before.length)) after := by
  simp [callsOf, List.mapIdx_append, List.mapIdx_cons]

/-- What every middleware of a list keeps is kept by its calls. -/
theorem keeps_of_mem_callsOf {α : Type*} {g : HttpRequest → α} {ms : List Middleware}
    (hkeeps : ∀ m ∈ ms, ∀ env req res req' res', m env req res = some (req', res') →
      g req' = g req) :
    ∀ f ∈ callsOf env ms, ∀ a b, f a = some b → g b.1 = g a.1 := by
  intro f hf a b hab
  obtain ⟨i, hi, rfl⟩ := List.mem_mapIdx.mp hf
  exact hkeeps _ (List.getElem_mem hi) (env i) a.1 a.2 b.1 b.2 hab

/-- A member of a list has a last occurrence. -/
theorem exists_last_occurrence {α : Type*} {l : List α} {a : α} (h : a ∈ l) :
    ∃ before after, l = before ++ a :: after ∧ a ∉ after := by
  obtain ⟨xs, ys, hsplit, hnot⟩ := List.eq_append_cons_of_mem (List.mem_reverse.mpr h)
  refine ⟨ys.reverse, xs.reverse, ?_, by simpa using hnot⟩
  rw [← List.reverse_reverse l, hsplit]
  simp

/-- **What a handler behind `auth_middleware` gets**: the payload parsed by the last of its
calls, whose request was authenticated. -/
theorem handled_authenticated (hroute : getRoute registry received = .valid route)
    (hauth : authMiddleware ∈ route.middlewareList)
    (hothers : ∀ m ∈ route.middlewareList, m ≠ authMiddleware → m.KeepsJwt) {handler : H}
    {req : HttpRequest} {res : HttpResponse}
    (hhandled : (startPass registry env (some received)).outcome = .handled handler req res) :
    ∃ i before, route.middlewareList[i]? = some authMiddleware ∧
      ((received, HttpResponse.zero) :: (startPass registry env (some received)).left)[i]? =
        some before ∧
      Authenticated (env i) before.1 req.authenticatedJwt ∧
      ((∀ m ∈ route.middlewareList.take i, m.KeepsCookies) →
        Authenticated (env i) received req.authenticatedJwt) := by
  have hstages : middlewareStages env route = callsOf env route.middlewareList :=
    (getRoute_counted hroute).middlewareStages_eq
  obtain ⟨before, after, hlist, hlast⟩ := exists_last_occurrence hauth
  have hpassed := ((startPass_handled_iff hroute).mp hhandled).2
  rw [startPass_left hroute]
  rw [middlewareRun, hstages, hlist, callsOf_append_cons] at hpassed ⊢
  obtain ⟨b, hbefore, hrest, hleft⟩ := runStages_append_passed hpassed
  obtain ⟨c, hcall, hpasses, hafter⟩ := runStages_cons_passed hrest
  have hstatus : c.2.statusCode < 400 := not_le.mp (of_decide_eq_false hpasses)
  obtain ⟨data, hdata, hc⟩ := authMiddleware_passes hcall hstatus
  -- the middlewares after the last call keep what it wrote
  have hkept : req.authenticatedJwt = data := by
    have hafterKeep : ∀ m ∈ after, m.KeepsJwt := by
      intro m hm
      refine hothers m (hlist ▸ ?_) fun h => hlast (h ▸ hm)
      exact List.mem_append_right _ (List.mem_cons_of_mem _ hm)
    have heq := eq_of_passed (g := fun s => s.1.authenticatedJwt)
      (keeps_of_mem_callsOf hafterKeep) hafter
    rw [heq, hc]
  rw [hkept]
  refine ⟨before.length, b, by simp, ?_, hdata, ?_⟩
  · have hseen := getElem?_of_passed hbefore
    have hlen : (callsOf env before).length = before.length := List.length_mapIdx
    rw [hlen] at hseen
    have hlt := (List.getElem?_eq_some_iff.mp hseen).1
    rw [hleft, ← List.cons_append, List.getElem?_append_left hlt]
    exact hseen
  · intro hcookies
    rw [List.take_left] at hcookies
    have heq := eq_of_passed (g := fun s => s.1.cookies) (keeps_of_mem_callsOf hcookies) hbefore
    exact hdata.of_cookies heq

theorem exists_route_of_handled {handler : H} {req : HttpRequest} {res : HttpResponse}
    (h : (startPass registry env (some received)).outcome = .handled handler req res) :
    ∃ route, getRoute registry received = .valid route := by
  cases hroute : getRoute registry received with
  | notFound => simp [startPass, hroute] at h
  | methodNotAllowed => simp [startPass, hroute] at h
  | valid route => exact ⟨route, rfl⟩

/-- The lists of `routes.h` satisfy what is asked of a protected route. -/
theorem gated_of_middlewareList_eq
    (h : route.middlewareList = [decodeUrlMiddleware, authMiddleware]) :
    authMiddleware ∈ route.middlewareList ∧
      ∀ m ∈ route.middlewareList, m ≠ authMiddleware → m.KeepsJwt := by
  rw [h]
  refine ⟨List.mem_cons_of_mem _ List.mem_cons_self, ?_⟩
  intro m hm hne
  rcases List.mem_cons.mp hm with rfl | hm
  · exact keepsJwt_decodeUrlMiddleware
  · exact absurd (List.mem_singleton.mp hm) hne

/-- **Nothing runs after a middleware that fails.** -/
theorem nothing_after_failure (hroute : getRoute registry received = .valid route) {i : ℕ}
    {s : HttpRequest × HttpResponse}
    (hi : (startPass registry env (some received)).left[i]? = some s)
    (hs : 400 ≤ s.2.statusCode) :
    (startPass registry env (some received)).left.length = i + 1 ∧
      ∀ handler req res,
        (startPass registry env (some received)).outcome ≠ .handled handler req res := by
  rw [startPass_left hroute] at hi ⊢
  obtain ⟨hlen, hverdict⟩ := runStages_stop hi (decide_eq_true hs)
  refine ⟨hlen, fun handler req res hhandled => ?_⟩
  have hpassed := ((startPass_handled_iff hroute).mp hhandled).2
  rw [hverdict] at hpassed
  simp at hpassed

/-- **Protected handlers are gated.** On a route that lists `auth_middleware`, among others
that do not write `authenticated_jwt`, the handler is only called after one of the calls of
`auth_middleware` got an authenticated request, and it gets the payload parsed there; the
received request itself was authenticated when the middlewares before that call keep the
cookies. And as soon as a middleware leaves a status of 400 or more, no later middleware and
no handler runs. -/
theorem protected_handler_gated (hroute : getRoute registry received = .valid route)
    (hauth : authMiddleware ∈ route.middlewareList)
    (hothers : ∀ m ∈ route.middlewareList, m ≠ authMiddleware → m.KeepsJwt) :
    (∀ handler req res,
      (startPass registry env (some received)).outcome = .handled handler req res →
        ∃ i before, route.middlewareList[i]? = some authMiddleware ∧
          ((received, HttpResponse.zero) :: (startPass registry env (some received)).left)[i]? =
            some before ∧
          Authenticated (env i) before.1 req.authenticatedJwt ∧
          ((∀ m ∈ route.middlewareList.take i, m.KeepsCookies) →
            Authenticated (env i) received req.authenticatedJwt)) ∧
    ∀ i s, (startPass registry env (some received)).left[i]? = some s → 400 ≤ s.2.statusCode →
      (startPass registry env (some received)).left.length = i + 1 ∧
        ∀ handler req res,
          (startPass registry env (some received)).outcome ≠ .handled handler req res :=
  ⟨fun _ _ _ hhandled => handled_authenticated hroute hauth hothers hhandled,
    fun _ _ hi hs => nothing_after_failure hroute hi hs⟩

/-- A request for the accounts page that carries a token of user 0, issued at time 0 for a
minute. -/
def accountsRequest : HttpRequest where
  method := lit "GET"
  path := lit "/accounts"
  version := lit "HTTP/1.1"
  headers := []
  body := []
  authenticatedJwt := JwtData.zero
  bodyQueryParams := []
  urlQueryParams := []
  cookies := [⟨lit "token", createJwtForUser zeroHmac 0 (some (lit "60")) (lit "k") (lit "0")
    (lit "ann")⟩]

/-- The environment of its pass, half a minute later. -/
def accountsEnv (_ : ℕ) : Env := ⟨zeroHmac, [(lit "JWT_SECRET", lit "k")], 30⟩

/-- The route of the accounts page. -/
def accountsRoute : Route Handler :=
  (routeOf (lit "/accounts") .handleAccounts [lit "GET"]
    [decodeUrlMiddleware, authMiddleware]).count

/-- The accounts page is handled for user 0. -/
theorem protected_handler_gated_accounts :
    (startPass routeRegistry accountsEnv (some accountsRequest)).outcome =
      .handled .handleAccounts
        { accountsRequest with authenticatedJwt := ⟨60, some (lit "0"), some (lit "ann")⟩ }
        HttpResponse.zero ∧
    ∃ i before, accountsRoute.middlewareList[i]? = some authMiddleware ∧
      ((accountsRequest, HttpResponse.zero) ::
        (startPass routeRegistry accountsEnv (some accountsRequest)).left)[i]? = some before ∧
      Authenticated (accountsEnv i) before.1 ⟨60, some (lit "0"), some (lit "ann")⟩ ∧
      ((∀ m ∈ accountsRoute.middlewareList.take i, m.KeepsCookies) →
        Authenticated (accountsEnv i) accountsRequest
          ⟨60, some (lit "0"), some (lit "ann")⟩) := by
  have hroute : getRoute routeRegistry accountsRequest = .valid accountsRoute :=
    getRoute_eq_valid_iff.mpr ⟨rfl, by decide +kernel⟩
  have hhandled : (startPass routeRegistry accountsEnv (some accountsRequest)).outcome =
      .handled .handleAccounts
        { accountsRequest with authenticatedJwt := ⟨60, some (lit "0"), some (lit "ann")⟩ }
        HttpResponse.zero := by
    decide +kernel
  obtain ⟨hauth, hothers⟩ := gated_of_middlewareList_eq (rfl : accountsRoute.middlewareList =
    [decodeUrlMiddleware, authMiddleware])
  exact ⟨hhandled, (protected_handler_gated hroute hauth hothers).1 _ _ _ hhandled⟩

/-- **The protected handlers of the program**: a handler that is not public is only called
for a request that carried an accepted token, and gets its payload. -/
theorem routes_authenticated {handler : Handler} {req : HttpRequest} {res : HttpResponse}
    (hhandled : (startPass routeRegistry env (some received)).outcome = .handled handler req res)
    (hpublic : handler.isPublic = false) :
    ∃ i, Authenticated (env i) received req.authenticatedJwt := by
  obtain ⟨route, hroute⟩ := exists_route_of_handled hhandled
  have hmem := List.mem_of_find?_eq_some (getRoute_eq_valid_iff.mp hroute).1
  rw [((startPass_handled_iff hroute).mp hhandled).1] at hpublic
  rcases routes_gated hmem with hpub | hlist
  · rw [hpub] at hpublic
    exact Bool.noConfusion hpublic
  · obtain ⟨hauth, hothers⟩ := gated_of_middlewareList_eq hlist
    obtain ⟨i, -, hcall, -, -, hreceived⟩ := handled_authenticated hroute hauth hothers hhandled
    refine ⟨i, hreceived fun m hm => ?_⟩
    have hlt := (List.getElem?_eq_some_iff.mp hcall).1
    rw [hlist, List.length_cons, List.length_singleton] at hlt
    have hdecode : m ∈ [decodeUrlMiddleware] := by
      rw [hlist] at hm
      exact (List.take_prefix_take_left (l := [decodeUrlMiddleware, authMiddleware])
        (Nat.lt_succ_iff.mp hlt)).subset hm
    rw [List.mem_singleton.mp hdecode]
    exact keepsCookies_decodeUrlMiddleware

/-! ### The responses of the middlewares -/

/-- A middleware of the routes that passes keeps the response; one that fails is
`auth_middleware`. -/
theorem callsOf_routes {route : Route Handler} (hroute : route ∈ routeRegistry.routes)
    {f : HttpRequest × HttpResponse → Option (HttpRequest × HttpResponse)}
    (hf : f ∈ callsOf env route.middlewareList) {a b : HttpRequest × HttpResponse}
    (ha : a.2 = .zero) (hab : f a = some b) :
    (middlewareFails b = false → b.2 = .zero) ∧
      (middlewareFails b = true → authMiddleware ∈ route.middlewareList ∧ b.1 = a.1 ∧
        b.2 = makeNonAuthorized .zero) := by
  have hzero : ∀ s : HttpRequest × HttpResponse, s.2 = .zero → middlewareFails s = false := by
    intro s hs
    rw [middlewareFails, hs]
    rfl
  obtain ⟨i, hi, rfl⟩ := List.mem_mapIdx.mp hf
  have hmem := List.getElem_mem hi
  rcases mem_middlewareList_routes hroute hmem with hm | hm
  · rw [hm] at hab
    have hb : b.2 = .zero := (decodeUrlMiddleware_response hab).trans ha
    refine ⟨fun _ => hb, fun hfails => ?_⟩
    rw [hzero b hb] at hfails
    exact Bool.noConfusion hfails
  · rw [hm] at hab
    rcases authMiddleware_cases hab with ⟨hreq, hres⟩ | ⟨data, -, hres⟩
    · rw [ha] at hres
      refine ⟨fun hpasses => ?_, fun _ => ⟨hm ▸ hmem, hreq, hres⟩⟩
      rw [middlewareFails, hres, makeNonAuthorized_statusCode] at hpasses
      exact absurd hpasses (by decide)
    · have hb : b.2 = .zero := hres.trans ha
      refine ⟨fun _ => hb, fun hfails => ?_⟩
      rw [hzero b hb] at hfails
      exact Bool.noConfusion hfails

/-- A handler of the program gets the zeroed response. -/
theorem middlewareRun_passed {route : Route Handler}
    (hroute : getRoute routeRegistry received = .valid route)
    {s : HttpRequest × HttpResponse} (h : (middlewareRun env route received).2 = .passed s) :
    s.2 = .zero := by
  have hmem := List.mem_of_find?_eq_some (getRoute_eq_valid_iff.mp hroute).1
  rw [middlewareRun, (getRoute_counted hroute).middlewareStages_eq] at h
  exact inv_of_passed (P := fun s => s.2 = .zero)
    (fun f hf a b ha hab hb => (callsOf_routes hmem hf ha hab).1 hb) rfl h

/-- **The only failure of the program**: `auth_middleware` rejects the request. -/
theorem middlewareRun_stopped {route : Route Handler}
    (hroute : getRoute routeRegistry received = .valid route)
    {s : HttpRequest × HttpResponse} (h : (middlewareRun env route received).2 = .stopped s) :
    authMiddleware ∈ route.middlewareList ∧ s.2 = makeNonAuthorized .zero ∧
      (middlewareRun env route received).1.getLast? = some s := by
  have hmem := List.mem_of_find?_eq_some (getRoute_eq_valid_iff.mp hroute).1
  rw [middlewareRun, (getRoute_counted hroute).middlewareStages_eq] at h ⊢
  obtain ⟨⟨f, hf, a, ha, hab, hb⟩, hlast⟩ := exists_stage_of_stopped (P := fun s => s.2 = .zero)
    (fun f hf a b ha hab hb => (callsOf_routes hmem hf ha hab).1 hb) rfl h
  obtain ⟨hauth, -, hres⟩ := (callsOf_routes hmem hf ha hab).2 hb
  exact ⟨hauth, hres, hlast⟩

end CBank
