import CBank.Router

/-!
# The Table of Routes

`server/routes.h` and `server/route_contants.h`, and the registry `main` builds from them.

## Main results

* `routes_gated`: every route but the home page, the login and the registration lists
  `decode_url_middleware` and then `auth_middleware`.
-/

namespace CBank

open CLib

/-- The handlers of `api/http_handlers/handlers.h`. -/
inductive Handler
  | handleHome
  | handleAccounts
  | handleApiAccounts
  | handleLogin
  | handleRegisterAccount
  | handleTransfer
  | handleExtract
  | handleCards
  | handlePayments
  deriving DecidableEq, Repr

/-- The handlers anybody may reach. -/
def Handler.isPublic (handler : Handler) : Bool :=
  handler = .handleHome ∨ handler = .handleLogin ∨ handler = .handleRegisterAccount

/-- An array initialised with some entries, the others NULL. -/
def padded {α : Type*} (entries : List α) (n : ℕ) : Vector (Option α) n :=
  Vector.ofFn fun i => entries[i.val]?

/-- An entry of the table, its counts not set. -/
def routeOf (path : Bytes) (handler : Handler) (methods : List Bytes)
    (middlewares : List Middleware) : Route Handler :=
  ⟨path, handler, padded methods maxMethods, padded middlewares maxMiddlewares, 0, 0⟩

/-- `routes`. -/
def routes : List (Route Handler) :=
  [routeOf (lit "/") .handleHome [lit "GET"] [decodeUrlMiddleware],
    routeOf (lit "/accounts") .handleAccounts [lit "GET"] [decodeUrlMiddleware, authMiddleware],
    routeOf (lit "/api/accounts") .handleApiAccounts [lit "GET", lit "POST"]
      [decodeUrlMiddleware, authMiddleware],
    routeOf (lit "/login") .handleLogin [lit "GET", lit "POST"] [decodeUrlMiddleware],
    routeOf (lit "/register") .handleRegisterAccount [lit "GET", lit "POST"]
      [decodeUrlMiddleware],
    routeOf (lit "/transfer") .handleTransfer [lit "GET", lit "POST"]
      [decodeUrlMiddleware, authMiddleware],
    routeOf (lit "/extract") .handleExtract [lit "GET", lit "POST"]
      [decodeUrlMiddleware, authMiddleware],
    routeOf (lit "/cards") .handleCards [lit "GET", lit "POST"]
      [decodeUrlMiddleware, authMiddleware],
    routeOf (lit "/payments") .handlePayments [lit "GET", lit "POST"]
      [decodeUrlMiddleware, authMiddleware]]

/-- The registry `main` builds; every `realloc` succeeds. -/
def routeRegistry : RouteRegistry Handler :=
  routes.foldl (fun registry route => (registerRoute true registry route).2) initRouteRegistry

theorem routes_routeRegistry : routeRegistry.routes = routes.map Route.count := rfl

/-- The middlewares of a route are decoding alone, for a public handler, or decoding and
authentication. -/
theorem middlewareList_routes {route : Route Handler} (h : route ∈ routeRegistry.routes) :
    (route.handler.isPublic = true ∧ route.middlewareList = [decodeUrlMiddleware]) ∨
      route.middlewareList = [decodeUrlMiddleware, authMiddleware] := by
  rw [routes_routeRegistry] at h
  obtain ⟨entry, hentry, rfl⟩ := List.mem_map.mp h
  have hall : ∀ entry ∈ routes, (entry.count.handler.isPublic = true ∧
      entry.count.middlewareList = [decodeUrlMiddleware]) ∨
      entry.count.middlewareList = [decodeUrlMiddleware, authMiddleware] := by
    simp only [routes, List.forall_mem_cons, List.not_mem_nil, false_imp_iff, implies_true,
      and_true]
    exact ⟨Or.inl ⟨rfl, rfl⟩, Or.inr rfl, Or.inr rfl, Or.inl ⟨rfl, rfl⟩, Or.inl ⟨rfl, rfl⟩,
      Or.inr rfl, Or.inr rfl, Or.inr rfl, Or.inr rfl⟩
  exact hall entry hentry

/-- **Which routes are protected.** -/
theorem routes_gated {route : Route Handler} (h : route ∈ routeRegistry.routes) :
    route.handler.isPublic = true ∨
      route.middlewareList = [decodeUrlMiddleware, authMiddleware] :=
  (middlewareList_routes h).imp_left And.left

/-- The routes list no other middlewares. -/
theorem mem_middlewareList_routes {route : Route Handler} (h : route ∈ routeRegistry.routes)
    {m : Middleware} (hm : m ∈ route.middlewareList) :
    m = decodeUrlMiddleware ∨ m = authMiddleware := by
  rcases middlewareList_routes h with ⟨-, hlist⟩ | hlist
  · rw [hlist, List.mem_singleton] at hm
    exact Or.inl hm
  · rw [hlist, List.mem_cons, List.mem_singleton] at hm
    exact hm

end CBank
