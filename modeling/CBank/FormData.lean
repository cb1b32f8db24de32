import CBank.RequestParser
import CBank.Schemas
import CBank.Server
import CBank.UrlDecoding

/-!
# Form Data

What `decode_url_middleware` makes of the pairs of a form. A body is cut at `&` and `;`, a query
at `&` only; each token is cut at its first equals sign, and its value is decoded. The first
`MAX_PARAMS` pairs find a slot.

A query never gets that far. `get_route` compares the whole path of a request, its query
included, and `decode_url_middleware` returns early when there is no body.

## Main results

* `form_body_decodes`: a form in the body becomes its pairs.
* `query_never_reaches_route`: a path with a query is routed to no route without one.
-/

namespace CBank

open CLib

/-! ### Pairs and their encodings -/

/-- A pair as a client may send it: the key is not empty and holds no equals sign, no NUL and
none of the delimiters, the value holds no NUL. -/
structure FormPair (delims : List UInt8) (pair : QueryParam) : Prop where
  key_ne : pair.key ≠ []
  key_free : ∀ c ∈ pair.key, c ≠ ch '=' ∧ c ≠ 0 ∧ c ∉ delims
  value_free : NulFree pair.value

/-- `text` is a pair with its value encoded. -/
def EncodedPair (delims : List UInt8) (pair : QueryParam) (text : Bytes) : Prop :=
  ∃ encoded, UrlEncoded delims pair.value encoded ∧ text = pair.key ++ ch '=' :: encoded

/-- The delimiters a text is cut at: they have no other meaning in an encoding. -/
structure Delimiters (d : UInt8 → Bool) (delims : List UInt8) : Prop where
  mem_iff : ∀ c, d c = true ↔ c ∈ delims
  amp : ch '&' ∈ delims
  plain : ∀ c ∈ delims, isXdigit c = false ∧ c ≠ ch '%' ∧ c ≠ ch '+' ∧ c ≠ ch '='

/-- The delimiters of a body. -/
theorem delimiters_body : Delimiters isBodyDelim [ch '&', ch ';'] where
  mem_iff := by simp
  amp := by simp
  plain := by decide +kernel

/-- The delimiter of a query. -/
theorem delimiters_query : Delimiters isQueryDelim [ch '&'] where
  mem_iff := by simp
  amp := by simp
  plain := by decide +kernel

variable {d : UInt8 → Bool} {delims : List UInt8} {pair : QueryParam} {text : Bytes}

/-- An encoded pair holds no delimiter. -/
theorem EncodedPair.free (hd : Delimiters d delims) (hpair : FormPair delims pair)
    (h : EncodedPair delims pair text) : ∀ c ∈ text, d c = false := by
  obtain ⟨encoded, hencoded, rfl⟩ := h
  have hout : ∀ c, c ∉ delims → d c = false := by
    intro c hc
    rw [← hd.mem_iff] at hc
    exact Bool.eq_false_iff.mpr hc
  have hvalue : ∀ c ∈ encoded, c ∉ delims := by
    refine hencoded.forall_mem ?_ ?_ ?_ ?_
    · intro c hdigit hmem
      rw [(hd.plain c hmem).1] at hdigit
      exact absurd hdigit (by decide)
    · exact fun hmem => (hd.plain _ hmem).2.1 rfl
    · exact fun hmem => (hd.plain _ hmem).2.2.1 rfl
    · exact fun c _ hc => hc
  intro c hc
  rcases List.mem_append.mp hc with hkey | hrest
  · exact hout c (hpair.key_free c hkey).2.2
  · rcases List.mem_cons.mp hrest with rfl | hencodedMem
    · exact hout _ fun hmem => (hd.plain _ hmem).2.2.2 rfl
    · exact hout c (hvalue c hencodedMem)

/-- An encoded pair is read back. -/
theorem EncodedPair.formParam_eq (hpair : FormPair delims pair)
    (h : EncodedPair delims pair text) : formParam text = some pair := by
  obtain ⟨encoded, hencoded, rfl⟩ := h
  have hkey : ch '=' ∉ pair.key := fun hmem => (hpair.key_free _ hmem).1 rfl
  rw [formParam, cutAt_append_cons hkey, Option.map_some,
    urldecode_of_urlEncoded hencoded, cstr_of_nulFree hpair.value_free]

variable {pairs : List QueryParam} {texts : List Bytes}

/-- Encoded pairs are read back, each from its text. Induction along the pairs. -/
theorem filterMap_formParam (hpairs : ∀ pair ∈ pairs, FormPair delims pair)
    (h : List.Forall₂ (EncodedPair delims) pairs texts) :
    texts.filterMap formParam = pairs := by
  induction h with
  | nil => rfl
  | @cons pair text pairs texts hfirst _ ih =>
      rw [List.filterMap_cons_some (hfirst.formParam_eq (hpairs pair List.mem_cons_self)),
        ih fun p hp => hpairs p (List.mem_cons_of_mem _ hp)]

/-- **Joined pairs are cut where they were joined.** -/
theorem tokens_joined (hd : Delimiters d delims)
    (hpairs : ∀ pair ∈ pairs, FormPair delims pair)
    (h : List.Forall₂ (EncodedPair delims) pairs texts) :
    tokens d ([ch '&'].intercalate texts) = texts := by
  have htext : ∀ text ∈ texts, ∃ pair ∈ pairs, EncodedPair delims pair text := by
    intro text hmem
    obtain ⟨i, hi, rfl⟩ := List.getElem_of_mem hmem
    have hlen := h.length_eq
    exact ⟨pairs[i], List.getElem_mem _, h.get (by omega) hi⟩
  refine tokens_intercalate_of_delim ((hd.mem_iff _).mpr hd.amp) ?_ ?_
  · intro text hmem
    obtain ⟨pair, -, encoded, -, rfl⟩ := htext text hmem
    simp
  · intro text hmem
    obtain ⟨pair, hpair, hencoded⟩ := htext text hmem
    exact hencoded.free hd (hpairs pair hpair)

/-- **What joined pairs leave in an empty list**: those that find a slot. -/
theorem foldl_decodeParam_joined (hd : Delimiters d delims)
    (hpairs : ∀ pair ∈ pairs, FormPair delims pair)
    (h : List.Forall₂ (EncodedPair delims) pairs texts) :
    (tokens d ([ch '&'].intercalate texts)).foldl decodeParam [] = pairs.take maxParams := by
  rw [tokens_joined hd hpairs h, foldl_decodeParam_take (Nat.zero_le _), List.nil_append,
    filterMap_formParam hpairs h]

/-! ### Form bodies -/

/-- **A form body decodes to its fields**: the list holds the first pairs, each value decoded,
and the headers, the cookies and the session of the request stay. -/
theorem form_body_decodes {pairs : List QueryParam} {texts : List Bytes}
    (hpairs : ∀ pair ∈ pairs, FormPair [ch '&', ch ';'] pair)
    (htexts : List.Forall₂ (EncodedPair [ch '&', ch ';']) pairs texts) {req : HttpRequest}
    (hbody : req.body = [ch '&'].intercalate texts)
    (hfresh : req.bodyQueryParams = [] ∧ req.urlQueryParams = []) (hpath : ch '?' ∉ req.path)
    (env : Env) (res : HttpResponse) :
    ∃ req', decodeUrlMiddleware env req res = some (req', res) ∧
      req'.bodyQueryParams = pairs.take (min pairs.length maxParams) ∧
      req'.headers = req.headers ∧ req'.cookies = req.cookies ∧
      req'.authenticatedJwt = req.authenticatedJwt := by
  refine ⟨decodedBody req, decodeUrlMiddleware_eq hpath env res, ?_, rfl, rfl, rfl⟩
  have htake : pairs.take (min pairs.length maxParams) = pairs.take maxParams := by
    rw [List.take_eq_take_iff]
    omega
  rw [htake, ← foldl_decodeParam_joined delimiters_body hpairs htexts, ← hbody, ← hfresh.1]
  rfl

/-- A login that submits the pairs `a`, `b c` and `d`, `&;=`. -/
def plusRequest : HttpRequest :=
  { HttpRequest.zero with
    method := lit "POST"
    path := lit "/login"
    headers := [⟨lit "Host", lit "bank"⟩]
    body := lit "a=b+c&d=%26%3B%3d" }

theorem form_body_decodes_plusRequest :
    ∃ req', decodeUrlMiddleware (accountsEnv 0) plusRequest .zero = some (req', .zero) ∧
      req'.bodyQueryParams =
        [⟨lit "a", lit "b c"⟩, ⟨lit "d", lit "&;="⟩].take (min 2 maxParams) ∧
      req'.headers = plusRequest.headers ∧ req'.cookies = [] ∧
      req'.authenticatedJwt = .zero := by
  have hblank : EncodedPair [ch '&', ch ';'] ⟨lit "a", lit "b c"⟩ (lit "a=b+c") :=
    ⟨lit "b+c", .plain (by decide) (.blank (.plain (by decide) .nil)), by decide⟩
  have hdelims : EncodedPair [ch '&', ch ';'] ⟨lit "d", lit "&;="⟩ (lit "d=%26%3B%3d") :=
    ⟨lit "%26%3B%3d", @UrlEncoded.hex _ (ch '2') (ch '6') _ _ (by decide) (by decide)
      (@UrlEncoded.hex _ (ch '3') (ch 'B') _ _ (by decide) (by decide)
        (@UrlEncoded.hex _ (ch '3') (ch 'd') _ _ (by decide) (by decide) .nil)), by decide⟩
  have hpairs : ∀ pair ∈ [(⟨lit "a", lit "b c"⟩ : QueryParam), ⟨lit "d", lit "&;="⟩],
      FormPair [ch '&', ch ';'] pair := by
    intro pair hmem
    simp only [List.mem_cons, List.not_mem_nil, or_false] at hmem
    rcases hmem with rfl | rfl
    · exact ⟨by decide, by decide +kernel, by decide⟩
    · exact ⟨by decide, by decide +kernel, by decide⟩
  exact form_body_decodes hpairs (.cons hblank (.cons hdelims .nil)) (by decide) ⟨rfl, rfl⟩
    (by decide) _ _

/-! ### Queries -/

/-- The list of the URL holds the first of some pairs after `decode_url_middleware`. -/
def QueryDecoded (env : Env) (req : HttpRequest) (res : HttpResponse)
    (pairs : List QueryParam) : Prop :=
  ∃ req' res', decodeUrlMiddleware env req res = some (req', res') ∧
    req'.urlQueryParams = pairs.take maxParams

/-- The request is routed to a route, and its query decoded. -/
def QueryReaches {H : Type} (registry : RouteRegistry H) (route : Route H) (env : Env)
    (req : HttpRequest) (res : HttpResponse) (pairs : List QueryParam) : Prop :=
  getRoute registry req = .valid route ∧ QueryDecoded env req res pairs

/-- **When a query is decoded**: when there is a body, or no pair. -/
theorem queryDecoded_iff {path : Bytes} (hquestion : ch '?' ∉ path)
    (hpairs : ∀ pair ∈ pairs, FormPair [ch '&'] pair)
    (htexts : List.Forall₂ (EncodedPair [ch '&']) pairs texts) {req : HttpRequest}
    (hpath : req.path = path ++ ch '?' :: [ch '&'].intercalate texts)
    (hfresh : req.urlQueryParams = []) (env : Env) (res : HttpResponse) :
    QueryDecoded env req res pairs ↔ req.body ≠ [] ∨ pairs = [] := by
  have hcut : cutAt (ch '?') req.path = some (path, [ch '&'].intercalate texts) := by
    rw [hpath, cutAt_append_cons hquestion]
  by_cases hbody : req.body = []
  · have hrun : decodeUrlMiddleware env req res = some (req, res) := by
      rw [decodeUrlMiddleware, if_pos hbody]
    simp only [QueryDecoded, hrun, Option.some.injEq, Prod.mk.injEq, hbody, ne_eq, not_true,
      false_or]
    constructor
    · rintro ⟨req', res', ⟨rfl, rfl⟩, hparams⟩
      rw [hfresh] at hparams
      rcases List.take_eq_nil_iff.mp hparams.symm with h | h
      · exact absurd h (by decide)
      · exact h
    · rintro rfl
      exact ⟨req, res, ⟨rfl, rfl⟩, hfresh⟩
  · refine iff_of_true ?_ (Or.inl hbody)
    rw [QueryDecoded, decodeUrlMiddleware, if_neg hbody, hcut]
    refine ⟨_, _, rfl, ?_⟩
    rw [← foldl_decodeParam_joined delimiters_query hpairs htexts, ← hfresh]

/-- **A query never reaches the handler of its route**: `get_route` compares the path with the
query still on it. Were it routed, the query would be decoded only next to a body. -/
theorem query_never_reaches_route {H : Type} (registry : RouteRegistry H) {route : Route H}
    (hroute : ch '?' ∉ route.path) {pairs : List QueryParam} {texts : List Bytes}
    (hpairs : ∀ pair ∈ pairs, FormPair [ch '&'] pair)
    (htexts : List.Forall₂ (EncodedPair [ch '&']) pairs texts) {req : HttpRequest}
    (hpath : req.path = route.path ++ ch '?' :: [ch '&'].intercalate texts)
    (hfresh : req.urlQueryParams = []) (env : Env) (res : HttpResponse) :
    ¬ QueryReaches registry route env req res pairs ∧
      (QueryDecoded env req res pairs ↔ req.body ≠ [] ∨ pairs = []) := by
  refine ⟨?_, queryDecoded_iff hroute hpairs htexts hpath hfresh env res⟩
  rintro ⟨hrouted, -⟩
  have hsame : req.path = route.path := by
    simpa using List.find?_some (getRoute_eq_valid_iff.mp hrouted).1
  have hquestion : ch '?' ∈ req.path := by
    rw [hpath]
    exact List.mem_append_right _ List.mem_cons_self
  exact hroute (hsame ▸ hquestion)

/-- A request for the home page with a query. -/
def queryReceived : Received :=
  ⟨lit "GET /?a=b HTTP/1.1" ++ crlf ++ lit "Host: bank" ++ crlf ++ lit "Accept: text/html" ++
    crlf ++ crlf, by decide⟩

/-- The request it is parsed to. -/
def queryRequest : HttpRequest :=
  { HttpRequest.zero with
    method := lit "GET"
    path := lit "/?a=b"
    version := lit "HTTP/1.1"
    headers := [⟨lit "Host", lit "bank"⟩, ⟨lit "Accept", lit "text/html"⟩] }

/-- **A query that is lost**: the home page allows the method, and is not found. -/
theorem query_lost :
    parseRequest zeroLineScratch queryReceived = some (some queryRequest) ∧
      ∃ route ∈ routeRegistry.routes, route.path = lit "/" ∧
        route.allows queryRequest.method = true ∧
        queryRequest.path = route.path ++ ch '?' :: lit "a=b" ∧
        getRoute routeRegistry queryRequest = .notFound ∧
        ¬ QueryReaches routeRegistry route (accountsEnv 0) queryRequest .zero
          [⟨lit "a", lit "b"⟩] := by
  have hlost : getRoute routeRegistry queryRequest = .notFound := by rfl
  refine ⟨by decide +kernel, _, List.mem_cons_self, rfl, by decide, by decide, hlost, ?_⟩
  rintro ⟨hrouted, -⟩
  rw [hlost] at hrouted
  exact absurd hrouted (by simp)

/-- The query `a=b` of the home page. -/
theorem query_never_reaches_home :
    ¬ QueryReaches routeRegistry (routes.head (by decide)).count (accountsEnv 0) queryRequest
        .zero [⟨lit "a", lit "b"⟩] ∧
      (QueryDecoded (accountsEnv 0) queryRequest .zero [⟨lit "a", lit "b"⟩] ↔
        queryRequest.body ≠ [] ∨ [(⟨lit "a", lit "b"⟩ : QueryParam)] = []) := by
  have hencoded : EncodedPair [ch '&'] ⟨lit "a", lit "b"⟩ (lit "a=b") :=
    ⟨lit "b", .plain (by decide) .nil, by decide⟩
  have hpair : FormPair [ch '&'] ⟨lit "a", lit "b"⟩ :=
    ⟨by decide, by decide +kernel, by decide⟩
  exact @query_never_reaches_route _ routeRegistry _ (by decide) [⟨lit "a", lit "b"⟩]
    [lit "a=b"] (fun pair hmem => List.mem_singleton.mp hmem ▸ hpair) (.cons hencoded .nil)
    queryRequest (by decide) rfl _ _

end CBank
