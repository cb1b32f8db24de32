import CBank.Middlewares

/-!
# Routes

`server/router.c`. A route names its allowed methods and middlewares in arrays that end at
their first NULL; `register_route` counts them, and a registry only holds routes that were
counted (`RouteRegistry.counted`). `get_route` looks at the first route with the path of the
request only.

## Main results

* `getRoute_eq_valid_iff`: when a request is routed.
* `Route.Counted.take_middlewares`: the middlewares counted are those before the first NULL.
-/

namespace CBank

open CLib

/-- `MAX_METHODS` and `MAX_MIDDLEWARES`. -/
abbrev maxMethods : ℕ := 4
abbrev maxMiddlewares : ℕ := 10

/-- `Route`, for handlers of type `H`. -/
structure Route (H : Type) where
  path : Bytes
  handler : H
  allowedMethods : Vector (Option Bytes) maxMethods
  middlewares : Vector (Option Middleware) maxMiddlewares
  methodCount : ℕ
  middlewareCount : ℕ

/-- The number of entries before the first NULL. -/
def leadingCount {α : Type*} (entries : List (Option α)) : ℕ :=
  (entries.takeWhile Option.isSome).length

/-- The counts are those of the arrays. -/
def Route.Counted {H : Type} (route : Route H) : Prop :=
  route.methodCount = leadingCount route.allowedMethods.toList ∧
    route.middlewareCount = leadingCount route.middlewares.toList

/-- The middlewares a route lists: those before the first NULL. -/
def Route.middlewareList {H : Type} (route : Route H) : List Middleware :=
  (route.middlewares.toList.takeWhile Option.isSome).filterMap id

/-- `RouteRegistry`, with the routes it counts. -/
structure RouteRegistry (H : Type) where
  routes : List (Route H)
  capacity : ℕ
  counted : ∀ route ∈ routes, route.Counted

variable {H : Type}

/-- `init_route_registry`. -/
def initRouteRegistry : RouteRegistry H := ⟨[], 0, by simp⟩

/-- The route `register_route` stores. -/
def Route.count (route : Route H) : Route H :=
  { route with
    methodCount := leadingCount route.allowedMethods.toList
    middlewareCount := leadingCount route.middlewares.toList }

/-- The registry with one more route. -/
def RouteRegistry.push (registry : RouteRegistry H) (route : Route H) (capacity : ℕ) :
    RouteRegistry H where
  routes := registry.routes ++ [route.count]
  capacity := capacity
  counted := by
    intro r hr
    rcases List.mem_append.mp hr with hr | hr
    · exact registry.counted r hr
    · rw [List.mem_singleton.mp hr]
      exact ⟨rfl, rfl⟩

/-- `register_route`, when `realloc` succeeds or not. -/
def registerRoute (reallocated : Bool) (registry : RouteRegistry H) (route : Route H) :
    ℤ × RouteRegistry H :=
  if registry.capacity ≤ registry.routes.length then
    if reallocated then
      (0, registry.push route (if registry.capacity = 0 then 8 else registry.capacity * 2))
    else (-1, registry)
  else (0, registry.push route registry.capacity)

/-- `RouteValidationResponse`. -/
inductive RouteValidationResponse (H : Type)
  | valid (route : Route H)
  | notFound
  | methodNotAllowed

/-- Some of the methods counted is the method of the request; a NULL among them is not. -/
def Route.allows (route : Route H) (method : Bytes) : Bool :=
  (route.allowedMethods.toList.take route.methodCount).any fun allowed =>
    match allowed with
    | none => false
    | some allowed => strcasecmp method allowed

/-- `get_route`. -/
def getRoute (registry : RouteRegistry H) (req : HttpRequest) : RouteValidationResponse H :=
  match registry.routes.find? fun route => req.path = route.path with
  | none => .notFound
  | some route => if route.allows req.method then .valid route else .methodNotAllowed

/-- **When a request is routed**: to the first route with its path, if that allows its
method. -/
theorem getRoute_eq_valid_iff {registry : RouteRegistry H} {req : HttpRequest}
    {route : Route H} : getRoute registry req = .valid route ↔
      (registry.routes.find? fun route => req.path = route.path) = some route ∧
        route.allows req.method = true := by
  rw [getRoute]
  cases registry.routes.find? fun route => req.path = route.path with
  | none => simp
  | some r =>
      by_cases hallows : r.allows req.method = true
      · simp only [hallows, if_true, RouteValidationResponse.valid.injEq, Option.some.injEq]
        constructor
        · rintro rfl
          exact ⟨rfl, hallows⟩
        · exact And.left
      · simp only [hallows, Bool.false_eq_true, if_false, reduceCtorEq, Option.some.injEq,
          false_iff, not_and]
        rintro rfl
        exact hallows

theorem getRoute_counted {registry : RouteRegistry H} {req : HttpRequest} {route : Route H}
    (h : getRoute registry req = .valid route) : route.Counted :=
  registry.counted route (List.mem_of_find?_eq_some (getRoute_eq_valid_iff.mp h).1)

/-- The entries counted are those before the first NULL. -/
theorem take_leadingCount {α : Type*} (entries : List (Option α)) :
    entries.take (leadingCount entries) =
      ((entries.takeWhile Option.isSome).filterMap id).map some := by
  induction entries with
  | nil => rfl
  | cons entry entries ih =>
      cases entry with
      | none => simp [leadingCount]
      | some entry => simpa [leadingCount] using ih

/-- **The middlewares counted** are those the route lists, none of them NULL. -/
theorem Route.Counted.take_middlewares {route : Route H} (h : route.Counted) :
    route.middlewares.toList.take route.middlewareCount = route.middlewareList.map some := by
  rw [h.2, take_leadingCount, Route.middlewareList]

end CBank
