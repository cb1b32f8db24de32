import CBank.Answers

/-!
# What a Request Leaves Behind

The strings a request owns and the descriptor of its client, and what one pass of the loop in
`start` frees and closes. Every exit of the loop calls `end_client_conn`, but a pass whose
middlewares fail calls it twice, and `free_query_params_list` does not reset its count.
`free_cookies_list` returns when there is an array of cookies, so the cookies are never freed.

## Main results

* `endClientConn_of_no_cookies`: what one call releases.
* `released_once_iff`: when everything is released once.
-/

namespace CBank

open CLib

/-- The two strings of a parameter or of a cookie. -/
inductive StringPart
  | name
  | value
  deriving DecidableEq, Repr

/-- What is released: the descriptor of the client, and the strings at each index of the lists. -/
inductive Resource
  | descriptor
  | bodyParam (i : ℕ) (part : StringPart)
  | urlParam (i : ℕ) (part : StringPart)
  | cookie (i : ℕ) (part : StringPart)
  deriving DecidableEq, Repr

/-- The strings of the first `n` entries of a list. -/
def listStrings (owner : ℕ → StringPart → Resource) (n : ℕ) : List Resource :=
  (List.range n).flatMap fun i => [owner i .name, owner i .value]

/-- What a request owns: the strings its lists were given, and the descriptor. -/
def ownedResources (req : HttpRequest) : List Resource :=
  listStrings .bodyParam req.bodyQueryParams.length ++
    (listStrings .urlParam req.urlQueryParams.length ++
      (listStrings .cookie req.cookies.length ++ [.descriptor]))

/-- `free_query_params_list`. -/
def freeQueryParamsList (owner : ℕ → StringPart → Resource) (params : List QueryParam) :
    List Resource := listStrings owner params.length

/-- The pointer `cookies_list.cookies` is set: `parse_req_cookies` found headers. It stays set
when the array is freed again. -/
def cookiesAllocated (req : HttpRequest) : Bool := req.headers ≠ []

/-- `free_cookies_list`. -/
def freeCookiesList (req : HttpRequest) : List Resource :=
  if cookiesAllocated req then [] else listStrings .cookie req.cookies.length

/-- `end_client_conn`. -/
def endClientConn (req : HttpRequest) : List Resource :=
  freeQueryParamsList .bodyParam req.bodyQueryParams ++
    (freeQueryParamsList .urlParam req.urlQueryParams ++
      (freeCookiesList req ++ [.descriptor]))

/-- What a pass leaves: the resources of its request, and those it released, in order. -/
structure Cleanup where
  owned : List Resource
  released : List Resource
  deriving DecidableEq

/-- A pass that calls `end_client_conn` so many times. -/
def Cleanup.calls (n : ℕ) (req : HttpRequest) : Cleanup :=
  ⟨ownedResources req, (List.replicate n (endClientConn req)).flatten⟩

/-- The clean-up of one pass of the loop; without a read the client closed the connection. -/
def passCleanup (e : PassEnv) (received : Option Received) : Proc Disk FileOp Cleanup :=
  match received with
  | none => pure ⟨[.descriptor], [.descriptor]⟩
  | some received => do
      let parsed ← Proc.read fun _ => parseRequest e.lineScratch received
      let req := parsed.getD .zero
      let pass := startPass routeRegistry e.middlewareEnv parsed
      match pass.outcome with
      | .badRequest => pure (.calls 1 req)
      | .notFound => pure (.calls 1 req)
      | .methodNotAllowed => pure (.calls 1 req)
      | .middlewareFailed _ => pure (.calls 2 ((pass.left.getLast?.map Prod.fst).getD req))
      | .handled handler req res => do
          let _ ← runHandler e.handlerEnv req res handler
          pure (.calls 1 req)
      | .undefined => Proc.read fun _ => none

/-! ### What one call releases -/

theorem mem_listStrings {owner : ℕ → StringPart → Resource} {n : ℕ} {r : Resource} :
    r ∈ listStrings owner n ↔ ∃ i < n, ∃ part, r = owner i part := by
  rw [listStrings, List.mem_flatMap]
  constructor
  · rintro ⟨i, hi, hr⟩
    rcases List.mem_cons.mp hr with rfl | hr
    · exact ⟨i, List.mem_range.mp hi, _, rfl⟩
    · exact ⟨i, List.mem_range.mp hi, _, List.mem_singleton.mp hr⟩
  · rintro ⟨i, hi, part, rfl⟩
    refine ⟨i, List.mem_range.mpr hi, ?_⟩
    cases part <;> simp

/-- The strings of a list are different ones. -/
theorem nodup_listStrings {owner : ℕ → StringPart → Resource}
    (howner : ∀ i j p q, owner i p = owner j q → i = j ∧ p = q) (n : ℕ) :
    (listStrings owner n).Nodup := by
  rw [listStrings, List.nodup_flatMap]
  refine ⟨fun i _ => ?_, ?_⟩
  · rw [List.nodup_cons, List.mem_singleton]
    refine ⟨fun h => ?_, List.nodup_singleton _⟩
    exact absurd (howner _ _ _ _ h).2 (by decide)
  · refine List.nodup_range.imp fun {i j} hij => ?_
    rintro r hi hj
    have hpart : ∀ {i : ℕ}, r ∈ [owner i .name, owner i .value] → ∃ p, r = owner i p := by
      intro i hr
      rcases List.mem_cons.mp hr with rfl | hr
      · exact ⟨_, rfl⟩
      · exact ⟨_, List.mem_singleton.mp hr⟩
    obtain ⟨p, rfl⟩ := hpart hi
    obtain ⟨q, hq⟩ := hpart hj
    exact hij (howner _ _ _ _ hq).1

/-- The resources of a request are different ones. -/
theorem nodup_ownedResources (req : HttpRequest) : (ownedResources req).Nodup := by
  have hdiffer : ∀ {owner : ℕ → StringPart → Resource} {n : ℕ} {l : List Resource},
      (∀ i p, owner i p ∉ l) → ∀ r ∈ listStrings owner n, ∀ r' ∈ l, r ≠ r' := by
    rintro owner n l hl r hr _ hr' rfl
    obtain ⟨i, -, p, rfl⟩ := mem_listStrings.mp hr
    exact hl i p hr'
  have hbody := @nodup_listStrings .bodyParam (by simp) req.bodyQueryParams.length
  have hurl := @nodup_listStrings .urlParam (by simp) req.urlQueryParams.length
  have hcookies := @nodup_listStrings .cookie (by simp) req.cookies.length
  refine List.nodup_append.mpr ⟨hbody, List.nodup_append.mpr ⟨hurl, List.nodup_append.mpr
    ⟨hcookies, List.nodup_singleton _, hdiffer ?_⟩, hdiffer ?_⟩, hdiffer ?_⟩
  · simp
  · simp [mem_listStrings]
  · simp [mem_listStrings]

/-- **What one call of `end_client_conn` releases** when no cookie was stored. -/
theorem endClientConn_of_no_cookies {req : HttpRequest} (h : req.cookies = []) :
    endClientConn req = ownedResources req := by
  have hcookies : freeCookiesList req = listStrings .cookie req.cookies.length := by
    rw [freeCookiesList, h]
    split
    · rfl
    · rfl
  rw [endClientConn, hcookies]
  rfl

/-- One call releases nothing twice. -/
theorem nodup_endClientConn (req : HttpRequest) : (endClientConn req).Nodup := by
  have hcookies : (freeCookiesList req).Sublist (listStrings .cookie req.cookies.length) := by
    rw [freeCookiesList]
    split
    · exact List.nil_sublist _
    · exact List.Sublist.refl _
  refine (nodup_ownedResources req).sublist ?_
  exact (List.Sublist.refl _).append ((List.Sublist.refl _).append
    (hcookies.append (List.Sublist.refl _)))

/-- One call releases everything once exactly when no cookie was stored. -/
theorem calls_one_iff {req : HttpRequest} (h : req.cookies ≠ [] → req.headers ≠ []) :
    (∀ r ∈ (Cleanup.calls 1 req).owned, (Cleanup.calls 1 req).released.count r = 1) ↔
      req.cookies = [] := by
  have hreleased : (Cleanup.calls 1 req).released = endClientConn req := by
    simp [Cleanup.calls]
  rw [hreleased]
  constructor
  · intro hall
    by_contra hcookies
    have hpos : 0 < req.cookies.length := List.length_pos_iff.mpr hcookies
    have howned : Resource.cookie 0 .name ∈ ownedResources req := by
      simp only [ownedResources, List.mem_append]
      exact Or.inr (Or.inr (Or.inl (mem_listStrings.mpr ⟨0, hpos, _, rfl⟩)))
    have hallocated : cookiesAllocated req = true := decide_eq_true (h hcookies)
    have hkept : freeCookiesList req = [] := by
      rw [freeCookiesList, if_pos hallocated]
    have hnever : Resource.cookie 0 .name ∉ endClientConn req := by
      rw [endClientConn, hkept]
      simp [freeQueryParamsList, mem_listStrings]
    exact absurd (hall _ howned) (by rw [List.count_eq_zero_of_not_mem hnever]; decide)
  · intro hcookies r hr
    rw [endClientConn_of_no_cookies hcookies]
    exact List.count_eq_one_of_mem (nodup_ownedResources req) hr

/-- Two calls close the descriptor twice. -/
theorem not_calls_two (req : HttpRequest) :
    ¬ ∀ r ∈ (Cleanup.calls 2 req).owned, (Cleanup.calls 2 req).released.count r = 1 := by
  intro hall
  have howned : Resource.descriptor ∈ (Cleanup.calls 2 req).owned := by
    simp [Cleanup.calls, ownedResources]
  have hclosed : 0 < (endClientConn req).count .descriptor := by
    rw [List.count_pos_iff]
    simp [endClientConn]
  have hreleased : (Cleanup.calls 2 req).released = endClientConn req ++ endClientConn req := by
    simp [Cleanup.calls]
  have honce := hall _ howned
  rw [hreleased, List.count_append] at honce
  omega

/-! ### What the middlewares keep -/

/-- The middlewares of the routes write neither the headers nor the cookies. -/
theorem middleware_keeps {m : Middleware} (hm : m = decodeUrlMiddleware ∨ m = authMiddleware)
    {env : Env} {req req' : HttpRequest} {res res' : HttpResponse}
    (h : m env req res = some (req', res')) :
    req'.headers = req.headers ∧ req'.cookies = req.cookies := by
  rcases hm with rfl | rfl
  · refine ⟨?_, (decodeUrlMiddleware_keeps h).2⟩
    rw [decodeUrlMiddleware] at h
    split at h
    · rw [(Prod.mk.inj (Option.some.inj h)).1]
    · split at h
      · rw [← (Prod.mk.inj (Option.some.inj h)).1]
      · rw [← (Prod.mk.inj (Option.some.inj h)).1]
  · rcases authMiddleware_cases h with ⟨rfl, -⟩ | ⟨data, rfl, -⟩
    · exact ⟨rfl, rfl⟩
    · exact ⟨rfl, rfl⟩

variable {e : PassEnv} {bytes : Received} {d : Disk} {req : HttpRequest}

/-- The request line stores no cookie. -/
theorem cookies_of_parseReqLine {scratch : LineScratch} {text : Bytes} {req' : HttpRequest}
    (h : parseReqLine scratch text req = some (some req')) : req'.cookies = req.cookies := by
  rw [parseReqLine] at h
  split at h
  · simp at h
  · split at h
    · simp at h
    · obtain ⟨parts, -, h⟩ := Option.bind_eq_some_iff.mp h
      split at h
      · rw [← Option.some.inj (Option.some.inj h)]
      · simp at h

/-- A request that was stored a cookie has headers. -/
theorem headers_of_parseReqCookies {req' : HttpRequest} (h : parseReqCookies req = some req')
    (hnone : req.cookies = []) (hcookies : req'.cookies ≠ []) : req'.headers ≠ [] := by
  rw [parseReqCookies] at h
  split at h
  · rw [← Option.some.inj h] at hcookies
    exact absurd hnone hcookies
  · rename_i hheaders
    split at h
    · rw [← Option.some.inj h]
      exact hheaders
    · rw [Option.ite_none_right_eq_some] at h
      rw [← Option.some.inj h.2]
      obtain ⟨header, headers, hcons⟩ := List.exists_cons_of_ne_nil hheaders
      change cutCookieHeader req.headers ≠ []
      rw [hcons, cutCookieHeader]
      split
      · exact List.cons_ne_nil _ _
      · exact List.cons_ne_nil _ _

theorem headers_ne_nil_of_cookies (h : parseRequest e.lineScratch bytes = some (some req))
    (hcookies : req.cookies ≠ []) : req.headers ≠ [] := by
  obtain ⟨head, hhead, h⟩ := Option.bind_eq_some_iff.mp h
  cases head with
  | none => simp at h
  | some head =>
      obtain ⟨reqOfHead, bodyStart⟩ := head
      obtain ⟨parsed, hparsed, hsame⟩ := Option.map_eq_some_iff.mp h
      obtain rfl := Option.some.inj hsame
      obtain ⟨body, -, rfl⟩ := Option.map_eq_some_iff.mp hparsed
      obtain ⟨line, text, reqOfLine, -, hline, hstored, -⟩ := parseReqHead_eq_some hhead
      have hnone : reqOfLine.cookies = [] := cookies_of_parseReqLine hline
      exact @headers_of_parseReqCookies _ reqOfHead hstored hnone hcookies

/-- What a pass keeps of the headers and the cookies, where its middlewares pass and where they
fail. -/
theorem middlewareRun_keeps {env : ℕ → Env} {route : Route Handler}
    (hroute : getRoute routeRegistry req = .valid route) {s : HttpRequest × HttpResponse}
    (h : (middlewareRun env route req).2 = .passed s ∨
      (middlewareRun env route req).2 = .stopped s) :
    s.1.headers = req.headers ∧ s.1.cookies = req.cookies := by
  have hmem := List.mem_of_find?_eq_some (getRoute_eq_valid_iff.mp hroute).1
  have hstep : ∀ f ∈ callsOf env route.middlewareList, ∀ a b,
      (a.1.headers = req.headers ∧ a.1.cookies = req.cookies) → f a = some b →
        b.1.headers = req.headers ∧ b.1.cookies = req.cookies := by
    intro f hf a b ha hab
    obtain ⟨i, hi, rfl⟩ := List.mem_mapIdx.mp hf
    obtain ⟨hheaders, hcookies⟩ :=
      middleware_keeps (mem_middlewareList_routes hmem (List.getElem_mem hi)) hab
    exact ⟨hheaders.trans ha.1, hcookies.trans ha.2⟩
  rw [middlewareRun, (getRoute_counted hroute).middlewareStages_eq] at h
  let P : HttpRequest × HttpResponse → Prop := fun s =>
    s.1.headers = req.headers ∧ s.1.cookies = req.cookies
  rcases h with h | h
  · exact inv_of_passed (P := P) (fun f hf a b ha hab _ => hstep f hf a b ha hab) ⟨rfl, rfl⟩ h
  · obtain ⟨⟨f, hf, a, ha, hab, -⟩, -⟩ := exists_stage_of_stopped (P := P)
      (fun f hf a b ha hab _ => hstep f hf a b ha hab) ⟨rfl, rfl⟩ h
    exact hstep f hf a s ha hab

/-- Without cookies no request gets past `auth_middleware`. -/
theorem cookies_ne_nil_of_passed {env : ℕ → Env} {route : Route Handler}
    (hroute : getRoute routeRegistry req = .valid route)
    (hauth : authMiddleware ∈ route.middlewareList) {s : HttpRequest × HttpResponse}
    (h : (middlewareRun env route req).2 = .passed s) : req.cookies ≠ [] := by
  have hmem := List.mem_of_find?_eq_some (getRoute_eq_valid_iff.mp hroute).1
  have hothers : ∀ m ∈ route.middlewareList, m ≠ authMiddleware → m.KeepsJwt := by
    intro m hm hne
    rcases mem_middlewareList_routes hmem hm with rfl | rfl
    · exact keepsJwt_decodeUrlMiddleware
    · exact absurd rfl hne
  have hhandled : (startPass routeRegistry env (some req)).outcome =
      .handled route.handler s.1 s.2 := (startPass_handled_iff hroute).mpr ⟨rfl, h⟩
  obtain ⟨i, -, -, -, -, hreceived⟩ := handled_authenticated hroute hauth hothers hhandled
  obtain ⟨token, -, -, htoken, -⟩ := hreceived fun m hm env req res req' res' hcall =>
    (middleware_keeps (mem_middlewareList_routes hmem (List.mem_of_mem_take hm)) hcall).2
  intro hcookies
  rw [getReqCookie, hcookies] at htoken
  simp at htoken

/-! ### When everything is released once -/

/-- A pass that is defined has a clean-up, and only such a pass has one. -/
theorem isSome_passCleanup_iff :
    ((passCleanup e (some bytes)).result d).isSome ↔ PassDefined e bytes d := by
  rw [← isSome_passResponses_iff, passCleanup, passResponses, Proc.result_bind, Proc.result_bind,
    Proc.result_read, Proc.after_read]
  cases parseRequest e.lineScratch bytes with
  | none => rfl
  | some parsed =>
      simp only [Option.bind_some]
      cases (startPass routeRegistry e.middlewareEnv parsed).outcome with
      | handled handler req res =>
          simp only [Proc.result_bind]
          cases (runHandler e.handlerEnv req res handler).result d with
          | none => rfl
          | some rs => rfl
      | _ => rfl

/-- The clean-up of a pass that called a handler. -/
theorem passCleanup_of_called {handler : Handler} (h : calledHandler e bytes = some (handler, req))
    {c : Cleanup} (hc : (passCleanup e (some bytes)).result d = some c) : c = .calls 1 req := by
  obtain ⟨parsed, hparsed, h⟩ := Option.bind_eq_some_iff.mp h
  obtain ⟨parsed', hread, hc⟩ := Proc.result_bind_eq_some.mp hc
  obtain rfl : parsed = parsed' := Option.some.inj (hparsed.symm.trans hread)
  cases hpass : (startPass routeRegistry e.middlewareEnv parsed).outcome with
  | handled handler' req' res =>
      simp only [hpass, Option.some.injEq, Prod.mk.injEq] at h hc
      obtain ⟨rfl, rfl⟩ := h
      obtain ⟨rs, -, hc⟩ := Proc.result_bind_eq_some.mp hc
      exact (Option.some.inj hc).symm
  | _ => simp [hpass] at h

/-- The clean-up of a pass that parsed its request. -/
theorem passCleanup_of_parsed {c : Cleanup}
    (hparsed : parseRequest e.lineScratch bytes = some (some req))
    (hc : (passCleanup e (some bytes)).result d = some c) :
    (∃ last, c = .calls 1 last ∧ last.headers = req.headers ∧ last.cookies = req.cookies ∧
      (req.cookies = [] → ∀ route, getRoute routeRegistry req = .valid route →
        authMiddleware ∉ route.middlewareList)) ∨
      ∃ last route, c = .calls 2 last ∧ getRoute routeRegistry req = .valid route ∧
        authMiddleware ∈ route.middlewareList := by
  obtain ⟨parsed, hread, hc⟩ := Proc.result_bind_eq_some.mp hc
  obtain rfl : some req = parsed := Option.some.inj (hparsed.symm.trans hread)
  rw [Proc.after_read] at hc
  cases hroute : getRoute routeRegistry req with
  | notFound =>
      simp only [startPass, hroute, Proc.result_pure, Option.some.injEq, Option.getD_some] at hc
      exact Or.inl ⟨req, hc.symm, rfl, rfl, fun _ route h => by simp at h⟩
  | methodNotAllowed =>
      simp only [startPass, hroute, Proc.result_pure, Option.some.injEq, Option.getD_some] at hc
      exact Or.inl ⟨req, hc.symm, rfl, rfl, fun _ route h => by simp at h⟩
  | valid route =>
      simp only [startPass, hroute] at hc
      cases hverdict : (middlewareRun e.middlewareEnv route req).2 with
      | undefined =>
          rw [hverdict] at hc
          simp at hc
      | passed s =>
          rw [hverdict] at hc
          obtain ⟨rs, -, hc⟩ := Proc.result_bind_eq_some.mp hc
          obtain ⟨hheaders, hcookies⟩ := middlewareRun_keeps hroute (Or.inl hverdict)
          refine Or.inl ⟨s.1, (Option.some.inj hc).symm, hheaders, hcookies, ?_⟩
          rintro hnone route' h hauth
          obtain rfl : route = route' := by simpa using h
          exact cookies_ne_nil_of_passed hroute hauth hverdict hnone
      | stopped s =>
          rw [hverdict] at hc
          obtain ⟨hauth, -, -⟩ := middlewareRun_stopped hroute hverdict
          exact Or.inr ⟨_, route, (Option.some.inj hc).symm, rfl, hauth⟩

/-- **Everything is released once** exactly when no step of the pass is undefined, no cookie was
stored, and the request is not routed behind `auth_middleware`, which it cannot get past without
a cookie. -/
theorem released_once_iff (e : PassEnv) (received : Option Received) (d : Disk) :
    (∃ c, (passCleanup e received).result d = some c ∧
      ∀ r ∈ c.owned, c.released.count r = 1) ↔
    ∀ bytes, received = some bytes → PassDefined e bytes d ∧
      ∀ req, parseRequest e.lineScratch bytes = some (some req) →
        req.cookies = [] ∧ ∀ route, getRoute routeRegistry req = .valid route →
          authMiddleware ∉ route.middlewareList := by
  cases received with
  | none =>
      refine ⟨fun _ bytes h => by simp at h, fun _ => ⟨_, rfl, ?_⟩⟩
      simp
  | some bytes =>
      constructor
      · rintro ⟨c, hc, honce⟩ _ ⟨rfl⟩
        refine ⟨isSome_passCleanup_iff.mp (by rw [hc]; rfl), fun req hparsed => ?_⟩
        rcases passCleanup_of_parsed hparsed hc with
          ⟨last, rfl, hheaders, hcookies, hroutes⟩ | ⟨last, route, rfl, -, -⟩
        · have hstored : last.cookies ≠ [] → last.headers ≠ [] := by
            rw [hheaders, hcookies]
            exact headers_ne_nil_of_cookies hparsed
          have hnone := (calls_one_iff hstored).mp honce
          rw [hcookies] at hnone
          exact ⟨hnone, hroutes hnone⟩
        · exact absurd honce (not_calls_two last)
      · intro h
        obtain ⟨hdefined, hparsed⟩ := h bytes rfl
        obtain ⟨c, hc⟩ := Option.isSome_iff_exists.mp (isSome_passCleanup_iff.mpr hdefined)
        refine ⟨c, hc, ?_⟩
        obtain ⟨parsed, hread⟩ :=
          Option.isSome_iff_exists.mp (isSome_parseRequest_iff.mpr hdefined.parser)
        cases parsed with
        | none =>
            obtain ⟨parsed, hread', hc⟩ := Proc.result_bind_eq_some.mp hc
            obtain rfl : none = parsed := Option.some.inj (hread.symm.trans hread')
            obtain rfl := Option.some.inj hc
            exact (calls_one_iff fun h => absurd rfl h).mpr rfl
        | some req =>
            obtain ⟨hnone, hroutes⟩ := hparsed req hread
            rcases passCleanup_of_parsed hread hc with
              ⟨last, rfl, -, hcookies, -⟩ | ⟨last, route, -, hroute, hauth⟩
            · have hlast : last.cookies = [] := hcookies.trans hnone
              exact (calls_one_iff fun h => absurd hlast h).mpr hlast
            · exact absurd hauth (hroutes route hroute)

/-- A request for the accounts page without a cookie. -/
def strangerRequest : Received := ⟨lit "GET /accounts HTTP/1.1" ++ crlf ++ crlf, by decide⟩

/-- **A descriptor that is closed twice**: the request of a stranger is turned away, and the loop
cleans up after it a second time. -/
theorem released_twice_stranger :
    ¬ ∃ c, (passCleanup bareEnv (some strangerRequest)).result Disk.empty = some c ∧
      ∀ r ∈ c.owned, c.released.count r = 1 := by
  have hcleanup : (passCleanup bareEnv (some strangerRequest)).result Disk.empty =
      some ⟨[.descriptor], [.descriptor, .descriptor]⟩ := by
    decide +kernel
  rintro ⟨c, hc, honce⟩
  obtain rfl := Option.some.inj (hcleanup.symm.trans hc)
  exact absurd (honce .descriptor List.mem_cons_self) (by decide)

end CBank
