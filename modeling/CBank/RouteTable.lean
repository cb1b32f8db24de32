import CBank.CLib.Memory
import CBank.Routes

/-!
# The Registry in Memory

`init_route_registry`, `register_route` and `get_route` of `server/router.c` on the block the
registry points to. The block has `capacity` slots, and is given twice as many, or the first eight,
when all of them are taken; a route is stored in the slot `count`. Sizes are not cut to the width of
a `size_t`: a block that large is never granted.

A registry in memory represents the `RouteRegistry` of its routes, through every call, whether
`realloc` succeeds or not.

## Main results

* `RouteTable.Represents.registerRoute`: `register_route` does in memory what `registerRoute` says.
* `RouteTable.Represents.getRoute_eq`: `get_route` finds there what `getRoute` says.
* `routedTo_getRoute`: what that is, from the routes as they were registered.
* `registered_routes_found`: the registry after any sequence of calls.
-/

namespace CBank

open CLib

variable {H : Type}

/-! ### The registry and its block -/

/-- `sizeof(Route)`: two pointers, the two arrays of pointers, and two `int`s. -/
abbrev sizeofRoute : ℕ := 8 * (2 + maxMethods + maxMiddlewares) + 2 * 4

/-- `RouteRegistry` with the slots of its block; `none` is a slot that was never written. NULL is no
slots. -/
structure RouteTable (H : Type) where
  routes : List (Option (Route H))
  count : ℕ
  capacity : ℕ

/-- `init_route_registry`. -/
def RouteTable.init : RouteTable H := ⟨[], 0, 0⟩

/-- `new_capacity`. -/
def RouteTable.newCapacity (registry : RouteTable H) : ℕ :=
  if registry.capacity = 0 then 8 else registry.capacity * 2

/-- The block `register_route` asks for is granted. -/
def RouteTable.granted (A : Allocator) (registry : RouteTable H) : Bool :=
  (A.alloc (registry.newCapacity * sizeofRoute)).isSome

/-- A route is stored behind the others; `none` is a write outside the block. -/
def RouteTable.store (registry : RouteTable H) (route : Route H) : Option (ℤ × RouteTable H) :=
  (storeAt registry.routes registry.count (some route)).map fun routes =>
    (0, { registry with routes := routes, count := registry.count + 1 })

/-- `register_route`. -/
def registerRouteAt (A : Allocator) (registry : RouteTable H) (route : Route H) :
    Option (ℤ × RouteTable H) :=
  if registry.count ≥ registry.capacity then
    if registry.granted A then
      let grown := { registry with
        routes := registry.routes ++
          List.replicate (registry.newCapacity - registry.routes.length) none
        capacity := registry.newCapacity }
      grown.store route.count
    else some (-1, registry)
  else registry.store route.count

/-- The calls of `register_route` for some routes: what each returned, and the registry. -/
def registerRoutes (A : Allocator) (registry : RouteTable H) :
    List (Route H) → Option (List ℤ × RouteTable H)
  | [] => some ([], registry)
  | route :: routes => do
      let (returned, registry) ← registerRouteAt A registry route
      let (others, registry) ← registerRoutes A registry routes
      some (returned :: others, registry)

/-- The inner loop of `get_route`: a method that was counted is the method of the request. The outer
`none` is a method that is not there. -/
def methodAllowed (route : Route H) (method : Bytes) : Option (Option Unit) :=
  searchFrom (fun i => do
    let allowed ← route.allowedMethods.toList[i]?.join
    some (if strcasecmp method allowed then some () else none)) 0 route.methodCount

/-- `get_route`; the outer `none` is a slot that is not there or was never written. -/
def getRouteAt (registry : RouteTable H) (req : HttpRequest) :
    Option (RouteValidationResponse H) :=
  (searchFrom (fun i => do
    let route ← registry.routes[i]?.join
    if req.path = route.path then
      (methodAllowed route req.method).map fun found =>
        some (if found.isSome then .valid route else .methodNotAllowed)
    else some none) 0 registry.count).map fun found => found.getD .notFound

/-! ### What is represented -/

/-- The block holds the routes of a `RouteRegistry` in its first slots, and is as large as the
registry says. -/
structure RouteTable.Represents (t : RouteTable H) (registry : RouteRegistry H) : Prop where
  count : t.count = registry.routes.length
  capacity : t.capacity = registry.capacity
  fits : t.count ≤ t.capacity
  block : t.routes.length = t.capacity
  slots : registry.routes.map some <+: t.routes

theorem RouteTable.represents_init : (RouteTable.init (H := H)).Represents initRouteRegistry where
  count := rfl
  capacity := rfl
  fits := Nat.le_refl _
  block := rfl
  slots := List.nil_prefix

/-- A route is stored in a block with a free slot. -/
theorem RouteTable.Represents.store {t : RouteTable H} {registry : RouteRegistry H} {capacity : ℕ}
    (hcount : t.count = registry.routes.length) (hroom : t.count < t.capacity)
    (hcapacity : t.capacity = capacity) (hblock : t.routes.length = t.capacity)
    (hslots : registry.routes.map some <+: t.routes) (route : Route H) :
    ∃ t', t.store route.count = some (0, t') ∧
      t'.Represents (registry.push route capacity) := by
  have hlen : (registry.routes.map (some : Route H → _)).length = t.count := by
    rw [List.length_map, hcount]
  obtain ⟨routes, hstore, hkept, hstarts⟩ := storeAt_append hslots (by omega) (some route.count)
  rw [hlen] at hstore
  refine ⟨⟨routes, t.count + 1, t.capacity⟩, by rw [RouteTable.store, hstore]; rfl, ?_⟩
  constructor
  · simp [RouteRegistry.push, hcount]
  · exact hcapacity
  · exact hroom
  · exact hkept.trans hblock
  · simpa [RouteRegistry.push] using hstarts

/-- **`register_route` in memory**: it returns what `registerRoute` returns, and the block holds the
registry that gives. -/
theorem RouteTable.Represents.registerRoute {t : RouteTable H} {registry : RouteRegistry H}
    (h : t.Represents registry) (A : Allocator) (route : Route H) :
    ∃ t', registerRouteAt A t route =
        some ((CBank.registerRoute (t.granted A) registry route).1, t') ∧
      t'.Represents (CBank.registerRoute (t.granted A) registry route).2 := by
  have hcount := h.count
  have hcapacity := h.capacity
  have hfits := h.fits
  have hblock := h.block
  by_cases hfull : t.capacity ≤ t.count
  · have hfull' : registry.capacity ≤ registry.routes.length := by omega
    cases hgranted : t.granted A with
    | false =>
        refine ⟨t, ?_, ?_⟩
        · simp [registerRouteAt, CBank.registerRoute, hfull, hfull', hgranted]
        · simpa [CBank.registerRoute, hfull'] using h
    | true =>
        have hnew : t.newCapacity =
            if registry.capacity = 0 then 8 else registry.capacity * 2 := by
          rw [RouteTable.newCapacity, hcapacity]
        have hroom : t.count < t.newCapacity := by
          rw [RouteTable.newCapacity]
          split <;> omega
        obtain ⟨t', hstore, ht'⟩ := RouteTable.Represents.store
          (t := ⟨t.routes ++ List.replicate (t.newCapacity - t.routes.length) none, t.count,
            t.newCapacity⟩) hcount hroom hnew
          (by simp only [List.length_append, List.length_replicate]; omega)
          (h.slots.trans (List.prefix_append _ _)) route
        refine ⟨t', ?_, ?_⟩
        · simp [registerRouteAt, CBank.registerRoute, hfull, hfull', hgranted, hstore]
        · simpa [CBank.registerRoute, hfull'] using ht'
  · have hfree' : ¬ registry.capacity ≤ registry.routes.length := by omega
    obtain ⟨t', hstore, ht'⟩ := RouteTable.Represents.store hcount (by omega) hcapacity hblock
      h.slots route
    refine ⟨t', ?_, ?_⟩
    · simp [registerRouteAt, CBank.registerRoute, hfull, hfree', hstore]
    · simpa [CBank.registerRoute, hfree'] using ht'

/-! ### Looking up -/

/-- The methods a route lists: those before the first NULL. -/
def Route.methodList (route : Route H) : List Bytes :=
  (route.allowedMethods.toList.takeWhile Option.isSome).filterMap id

theorem Route.Counted.take_methods {route : Route H} (h : route.Counted) :
    route.allowedMethods.toList.take route.methodCount = route.methodList.map some := by
  rw [h.1, take_leadingCount, Route.methodList]

theorem Route.Counted.allows_eq {route : Route H} (h : route.Counted) (method : Bytes) :
    route.allows method = route.methodList.any (strcasecmp method) := by
  rw [Route.allows, h.take_methods, List.any_map]
  rfl

/-- The methods of a counted route are searched, none of them NULL. -/
theorem Route.Counted.methodAllowed_eq {route : Route H} (h : route.Counted) (method : Bytes) :
    ∃ found, methodAllowed route method = some found ∧ found.isSome = route.allows method := by
  have htake := h.take_methods
  have hstarts : route.methodList.map some <+: route.allowedMethods.toList :=
    htake ▸ List.take_prefix _ _
  have hcount : route.methodCount = route.methodList.length := by
    have hle : route.methodCount ≤ route.allowedMethods.toList.length := by
      rw [h.1]
      exact (List.takeWhile_prefix _).length_le
    have hlen := congrArg List.length htake
    rwa [List.length_take, Nat.min_eq_left hle, List.length_map] at hlen
  refine ⟨(route.methodList.find? (strcasecmp method)).map fun _ => (), ?_, ?_⟩
  · rw [methodAllowed, hcount, ← findSome?_ite]
    exact searchFrom_eq (fun allowed => if strcasecmp method allowed then some () else none)
      route.methodList fun j hj => by
        rw [Nat.zero_add, getElem?_of_map_prefix hstarts hj]
        rfl
  · rw [Option.isSome_map, h.allows_eq, Bool.eq_iff_iff, List.find?_isSome, List.any_eq_true]

/-- **`get_route` in memory** finds what `getRoute` finds. -/
theorem RouteTable.Represents.getRoute_eq {t : RouteTable H} {registry : RouteRegistry H}
    (h : t.Represents registry) (req : HttpRequest) :
    getRouteAt t req = some (getRoute registry req) := by
  simp only [getRouteAt, h.count]
  rw [searchFrom_eq (fun route => if decide (req.path = route.path) then
    some (if route.allows req.method then RouteValidationResponse.valid route
      else .methodNotAllowed) else none) registry.routes fun j hj => ?_]
  · rw [findSome?_ite, Option.map_some, getRoute]
    cases registry.routes.find? fun route => req.path = route.path <;> rfl
  · rw [Nat.zero_add, getElem?_of_map_prefix h.slots hj]
    have hcounted := registry.counted _ (List.getElem_mem hj)
    obtain ⟨found, hfound, hallows⟩ := hcounted.methodAllowed_eq req.method
    simp only [Option.join_some, Option.bind_eq_bind, Option.bind_some, hfound, Option.map_some,
      hallows, decide_eq_true_eq]
    split <;> rfl

/-! ### What is found -/

/-- One of the methods before the first NULL is the method, up to letter case. -/
def Route.AllowsMethod (route : Route H) (method : Bytes) : Prop :=
  ∃ (before : List Bytes) (allowed : Bytes) (after : List (Option Bytes)),
    route.allowedMethods.toList = before.map some ++ some allowed :: after ∧
      method.map toLower = allowed.map toLower

/-- What a request is routed to, from the routes as they were registered: the first one with its
path decides. -/
def RoutedTo (registered : List (Route H)) (req : HttpRequest) :
    RouteValidationResponse H → Prop
  | .valid found => ∃ before route after, registered = before ++ route :: after ∧
      (∀ r ∈ before, r.path ≠ req.path) ∧ route.path = req.path ∧
        route.AllowsMethod req.method ∧ found = route.count
  | .methodNotAllowed => ∃ before route after, registered = before ++ route :: after ∧
      (∀ r ∈ before, r.path ≠ req.path) ∧ route.path = req.path ∧
        ¬ route.AllowsMethod req.method
  | .notFound => ∀ r ∈ registered, r.path ≠ req.path

/-- An entry before the first NULL. -/
theorem mem_leading_iff {α : Type*} {entries : List (Option α)} {a : α} :
    a ∈ (entries.takeWhile Option.isSome).filterMap id ↔
      ∃ (before : List α) (after : List (Option α)),
        entries = before.map some ++ some a :: after := by
  constructor
  · intro h
    induction entries with
    | nil => simp at h
    | cons entry entries ih =>
        cases entry with
        | none => simp at h
        | some b =>
            have hcons : a = b ∨ a ∈ (entries.takeWhile Option.isSome).filterMap id := by
              simpa using h
            rcases hcons with rfl | h
            · exact ⟨[], entries, rfl⟩
            · obtain ⟨before, after, rfl⟩ := ih h
              exact ⟨b :: before, after, rfl⟩
  · rintro ⟨before, after, rfl⟩
    induction before with
    | nil => simp
    | cons b before ih => simp

/-- The route as it is stored allows the methods it was registered with. -/
theorem Route.allows_count_iff {route : Route H} {method : Bytes} :
    route.count.allows method = true ↔ route.AllowsMethod method := by
  have hcounted : route.count.Counted := ⟨rfl, rfl⟩
  rw [hcounted.allows_eq, List.any_eq_true]
  constructor
  · rintro ⟨allowed, hmem, hsame⟩
    obtain ⟨before, after, hmethods⟩ := mem_leading_iff.mp hmem
    exact ⟨before, allowed, after, hmethods, of_decide_eq_true hsame⟩
  · rintro ⟨before, allowed, after, hmethods, hsame⟩
    exact ⟨allowed, mem_leading_iff.mpr ⟨before, after, hmethods⟩, decide_eq_true hsame⟩

/-- **What `getRoute` finds** in a registry of the routes that were registered. -/
theorem routedTo_getRoute {registry : RouteRegistry H} {registered : List (Route H)}
    (h : registry.routes = registered.map Route.count) (req : HttpRequest) :
    RoutedTo registered req (getRoute registry req) := by
  rw [getRoute, h, List.find?_map]
  cases hfind : registered.find? ((fun route => decide (req.path = route.path)) ∘ Route.count) with
  | none =>
      intro r hr hpath
      have hnot := List.find?_eq_none.mp hfind r hr
      exact hnot (decide_eq_true hpath.symm)
  | some route =>
      obtain ⟨hpath, before, after, hsplit, hbefore⟩ := List.find?_eq_some_iff_append.mp hfind
      have hfirst : ∀ r ∈ before, r.path ≠ req.path := by
        intro r hr heq
        have hnot := hbefore r hr
        simp [Route.count, heq] at hnot
      have hfound : route.path = req.path := (of_decide_eq_true hpath).symm
      rw [Option.map_some]
      by_cases hallows : route.count.allows req.method = true
      · simp only [hallows, if_true]
        exact ⟨before, route, after, hsplit, hfirst, hfound, Route.allows_count_iff.mp hallows, rfl⟩
      · simp only [hallows, Bool.false_eq_true, if_false]
        exact ⟨before, route, after, hsplit, hfirst, hfound,
          fun h => hallows (Route.allows_count_iff.mpr h)⟩

/-! ### Sequences of calls -/

/-- Where a block is granted, a route is registered. -/
theorem registerRoute_of_granted {granted : Bool} {registry : RouteRegistry H} (route : Route H)
    (h : registry.capacity ≤ registry.routes.length → granted = true) :
    ∃ capacity, registerRoute granted registry route = (0, registry.push route capacity) := by
  by_cases hfull : registry.capacity ≤ registry.routes.length
  · exact ⟨_, by rw [registerRoute, if_pos hfull, if_pos (h hfull)]⟩
  · exact ⟨_, by rw [registerRoute, if_neg hfull]⟩

/-- **Registering routes one after the other.** Induction along the routes. -/
theorem registerRoutes_eq {A : Allocator} {n : ℕ} (hA : A.Provides n) {t : RouteTable H}
    {registry : RouteRegistry H} (h : t.Represents registry) {routes : List (Route H)}
    (hn : sizeofRoute * (2 * (registry.routes.length + routes.length) + 8) ≤ n) :
    ∃ t' registry', registerRoutes A t routes = some (List.replicate routes.length 0, t') ∧
      t'.Represents registry' ∧
      registry'.routes = registry.routes ++ routes.map Route.count := by
  induction routes generalizing t registry with
  | nil => exact ⟨t, registry, rfl, h, by simp⟩
  | cons route routes ih =>
      rw [List.length_cons] at hn
      have hgranted : registry.capacity ≤ registry.routes.length → t.granted A = true := by
        intro hfull
        have hnew : t.newCapacity ≤ 2 * (registry.routes.length + (routes.length + 1)) + 8 := by
          rw [RouteTable.newCapacity, h.capacity]
          split <;> omega
        exact hA _ (le_trans (by rw [Nat.mul_comm]; exact Nat.mul_le_mul_left _ hnew) hn)
      obtain ⟨capacity, hregister⟩ := registerRoute_of_granted route hgranted
      obtain ⟨t₁, hcall, ht₁⟩ := h.registerRoute A route
      rw [hregister] at hcall ht₁
      have hlen : (registry.push route capacity).routes.length = registry.routes.length + 1 := by
        simp [RouteRegistry.push]
      obtain ⟨t', registry', hcalls, ht', hroutes⟩ := ih ht₁ (by
        rw [hlen, show registry.routes.length + 1 + routes.length =
          registry.routes.length + (routes.length + 1) by omega]
        exact hn)
      refine ⟨t', registry', ?_, ht', ?_⟩
      · rw [registerRoutes, hcall]
        simp only [Option.bind_eq_bind, Option.bind_some, hcalls]
        rfl
      · rw [hroutes]
        simp [RouteRegistry.push]

/-- The registry after some calls: all routes are there, in the order they were registered, and the
block has room for them. -/
structure RouteTable.Holds (t : RouteTable H) (registered : List (Route H)) : Prop where
  count : t.count = registered.length
  fits : t.count ≤ t.capacity
  block : t.routes.length = t.capacity
  slots : registered.map (fun route => some route.count) <+: t.routes

/-- **Routing finds the registered route**: after every one of the calls the registry holds the
routes registered so far, each where it was stored, and `get_route` finds the first one with the
path of the request. -/
theorem registered_routes_found {A : Allocator} {registered : List (Route H)}
    (hA : A.Provides (sizeofRoute * (2 * registered.length + 8))) {earlier : List (Route H)}
    (h : earlier <+: registered) :
    ∃ t, registerRoutes A .init earlier = some (List.replicate earlier.length 0, t) ∧
      t.Holds earlier ∧
      ∀ req, ∃ response, getRouteAt t req = some response ∧ RoutedTo earlier req response := by
  have hn : sizeofRoute * (2 * (([] : List (Route H)).length + earlier.length) + 8) ≤
      sizeofRoute * (2 * registered.length + 8) := by
    have hle := h.length_le
    exact Nat.mul_le_mul_left _ (by rw [List.length_nil]; omega)
  obtain ⟨t, registry, hcalls, ht, hroutes⟩ :=
    registerRoutes_eq hA RouteTable.represents_init hn
  have hroutes' : registry.routes = earlier.map Route.count := hroutes
  refine ⟨t, hcalls, ⟨?_, ht.fits, ht.block, ?_⟩, fun req =>
    ⟨getRoute registry req, ht.getRoute_eq req, routedTo_getRoute hroutes' req⟩⟩
  · rw [ht.count, hroutes', List.length_map]
  · have hslots := ht.slots
    rw [hroutes', List.map_map] at hslots
    exact hslots

/-- The table of `main`. -/
theorem registered_routes_found_main :
    ∃ t, registerRoutes (.filled 0) .init routes = some (List.replicate 9 0, t) ∧ t.Holds routes ∧
      ∀ req, ∃ response, getRouteAt t req = some response ∧ RoutedTo routes req response :=
  registered_routes_found (Allocator.provides_filled _ _) (List.prefix_refl routes)

end CBank
