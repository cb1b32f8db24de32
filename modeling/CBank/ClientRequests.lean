import CBank.CookieList
import CBank.FormData
import CBank.HeaderBlock
import CBank.RequestLine

/-!
# Requests as Clients Send Them

A request with its request line, its headers, its cookies and its body, none of which holds a
character the format gives a meaning, and which fits the arrays it is parsed into: such a
`ClientRequest` is read back from its text as it was meant. The version alone may be continued by
what the array of the request line held before.

A single header would lose its last character, so there is none or more than one.

## Main results

* `ClientRequest.parseRequest_eq`: the request that is parsed.
* `request_read_back`: what the rest of the program sees of it.
-/

namespace CBank

open CLib

theorem length_clientBuffer (received : Received) :
    (clientBuffer received).length = clientBufferSize := by
  have hroom := received.2.2
  rw [clientBuffer, List.length_append, List.length_replicate]
  omega

theorem atoi_printNat {n : ℕ} (hn : (n : ℤ) ≤ intMax) : atoi (printNat n) = n := by
  have hread := readInt_printInt n noDigit_nil
  rw [List.append_nil] at hread
  have hmax : (n : ℤ) ≤ 2 ^ 31 - 1 := hn
  have hfits : FitsLong (n : ℤ) := ⟨by omega, hmax.trans (by decide)⟩
  have hlong : atol (printInt n) = n := by rw [atol_of_fitsLong (by rwa [hread]), hread]
  rw [atoi]
  exact (congrArg toInt32 hlong).trans (toInt32_of_range (by omega) hn)

/-! ### A request and its text -/

/-- Headers without cookies are not cut. Induction along the headers. -/
theorem cutCookieHeader_of_none {headers : List HttpHeader}
    (h : sentHeader headers .cookie = none) : cutCookieHeader headers = headers := by
  induction headers with
  | nil => rfl
  | cons header headers ih =>
      rw [sentHeader, List.find?_cons] at h
      rw [cutCookieHeader]
      split at h
      · exact absurd h (by simp)
      · rename_i hkey
        rw [if_neg (by rw [hkey]; exact Bool.false_ne_true), ih h]

/-- **What `parse_req_cookies` makes of the header** of a client. -/
theorem parseReqCookies_of_sent {req : HttpRequest} {cookies : List Cookie}
    (hwf : ∀ cookie ∈ cookies, WellFormedCookie cookie) (hfew : cookies.length ≤ maxStoredCookies)
    (hheader : getHeader req .cookie = if cookies = [] then none else some (cookieHeader cookies))
    (hfresh : req.cookies = []) : parseReqCookies req =
      some { req with headers := cutCookieHeader req.headers, cookies := cookies } := by
  by_cases hnone : cookies = []
  · rw [if_pos hnone] at hheader
    have hsame : parseReqCookies req = some req := by
      rw [parseReqCookies, hheader, ite_self]
    rw [hsame, cutCookieHeader_of_none hheader, hnone, ← hfresh]
  · rw [if_neg hnone] at hheader
    have hne : req.headers ≠ [] := by
      intro hnil
      rw [getHeader_eq, hnil] at hheader
      exact absurd hheader (by simp [sentHeader])
    have hparsed := tokens_cookieHeader hwf
    rw [parseReqCookies, if_neg hne, hheader]
    simp only [hparsed, if_pos hfew]

/-- A request as a client may send it. -/
structure ClientRequest where
  method : Bytes
  path : Bytes
  version : Bytes
  headers : List HttpHeader
  cookies : List Cookie
  body : Bytes
  words : ∀ word ∈ [method, path, version], word ≠ [] ∧ ∀ c ∈ word, c ≠ ch ' ' ∧ c ≠ 13 ∧ c ≠ 0
  short : method.length ≤ 7 ∧ path.length ≤ 255 ∧ version.length ≤ 15
  wellFormed : ∀ header ∈ headers, WellFormedHeader header
  nulFree : NulFree (headerBlock headers ++ body)
  count : headers.length ≠ 1 ∧ headers.length ≤ maxHeaders
  cookiesWellFormed : ∀ cookie ∈ cookies, WellFormedCookie cookie
  fewCookies : cookies.length ≤ maxStoredCookies
  cookieHeader : sentHeader headers .cookie =
    if cookies = [] then none else some (cookieHeader cookies)
  contentLength : sentHeader headers .contentLength =
    if body = [] then none else some (printNat body.length)
  room : method.length + path.length + version.length + (headerBlock headers).length +
    body.length + 4 < clientBufferSize

namespace ClientRequest

variable (r : ClientRequest)

/-- The request line. -/
def line : Bytes := r.method ++ ch ' ' :: (r.path ++ ch ' ' :: r.version)

/-- What is sent. -/
def text : Bytes := r.line ++ (crlf ++ (headerBlock r.headers ++ r.body))

theorem length_line : r.line.length =
    r.method.length + r.path.length + r.version.length + 2 := by
  simp only [line, List.length_append, List.length_cons]
  omega

theorem length_text : r.text.length = r.method.length + r.path.length + r.version.length +
    (headerBlock r.headers).length + r.body.length + 4 := by
  simp only [text, List.length_append, length_line, crlf, List.length_cons, List.length_nil]
  omega

/-- What the server reads of it. -/
def received : Received :=
  ⟨r.text, by rw [length_text]; omega, by rw [length_text]; exact r.room⟩

/-- What the array of the request line adds to the version. -/
def storedVersion (scratch : LineScratch) : Bytes :=
  (r.version ++ continuation r.line (staleBytes scratch r.line)).take 15

/-- The request that is parsed of it. -/
def parsed (scratch : LineScratch) : HttpRequest where
  method := r.method
  path := r.path
  version := r.storedVersion scratch
  headers := cutCookieHeader r.headers
  body := r.body
  authenticatedJwt := JwtData.zero
  bodyQueryParams := []
  urlQueryParams := []
  cookies := r.cookies

variable {r}

/-! ### The request line -/

theorem free_of_mem {word : Bytes} (h : word ∈ [r.method, r.path, r.version]) :
    ch ' ' ∉ word ∧ 13 ∉ word ∧ NulFree word :=
  ⟨fun hc => ((r.words word h).2 _ hc).1 rfl, fun hc => ((r.words word h).2 _ hc).2.1 rfl,
    fun hc => ((r.words word h).2 _ hc).2.2 rfl⟩

theorem not_mem_line {c : UInt8} (hblank : c ≠ ch ' ')
    (h : ∀ word ∈ [r.method, r.path, r.version], c ∉ word) : c ∉ r.line := by
  simp only [List.mem_cons, List.not_mem_nil, or_false, forall_eq_or_imp, forall_eq] at h
  simp [line, hblank, h]

/-- The line ends at the first `CRLF`. -/
theorem cutAtStr_text :
    cutAtStr crlf r.text = some (r.line, headerBlock r.headers ++ r.body) := by
  have hline : 13 ∉ r.line := not_mem_line (by decide) fun _ h => (free_of_mem h).2.1
  have hfound : strstr crlf r.text = some (crlf ++ (headerBlock r.headers ++ r.body)) := by
    rw [text, crlf, strstr_append_of_not_mem hline]
    exact strstr_of_starts (List.prefix_append _ _)
  rw [cutAtStr, hfound, Option.map_some, text, List.length_append, Nat.add_sub_cancel,
    List.take_left, List.drop_left]

theorem nulFree_text : NulFree r.text := by
  have hline : NulFree r.line := not_mem_line (by decide) fun _ h => (free_of_mem h).2.2
  exact hline.append ((by decide : NulFree crlf).append r.nulFree)

/-- The three words of the line. -/
theorem tokens_line : tokens isBlank r.line = [r.method, r.path] ++ [r.version] := by
  have hfree : ∀ {word : Bytes}, word ∈ [r.method, r.path, r.version] →
      word ≠ [] ∧ ∀ c ∈ word, isBlank c = false := by
    intro word h
    exact ⟨(r.words word h).1, fun c hc => by simpa using ((r.words word h).2 c hc).1⟩
  have hmethod := @hfree r.method (by simp)
  have hpath := @hfree r.path (by simp)
  have hversion := @hfree r.version (by simp)
  rw [line, tokens_append_cons_of_free hmethod.1 hmethod.2 (by decide),
    tokens_append_cons_of_free hpath.1 hpath.2 (by decide), tokens_of_free hversion.1 hversion.2]
  rfl

/-- The request line is parsed, when the scan for a fourth word ends in the array. -/
theorem parseReqLine_text {scratch : LineScratch}
    (hends : ScanEnds isBlank 4 (r.line ++ staleBytes scratch r.line)) :
    parseReqLine scratch r.text .zero = some (some { HttpRequest.zero with
      method := r.method
      path := r.path
      version := r.storedVersion scratch }) := by
  obtain ⟨hmethod, hpath, hversion⟩ := r.short
  have hlen : r.line.length < 512 := by
    rw [length_line]
    omega
  obtain ⟨more, hmore⟩ := tokens_line_append tokens_line (staleBytes scratch r.line)
  refine (parseReqLine_eq_some_iff nulFree_text cutAtStr_text hlen).mpr ⟨hends, ?_⟩
  rw [hmore]
  simp only [List.cons_append, List.nil_append, storeTokens, List.take_of_length_le hmethod,
    List.take_of_length_le hpath, storedVersion]

/-! ### Headers, cookies and body -/

theorem nulFree_body : NulFree r.body := fun h => r.nulFree (List.mem_append_right _ h)

theorem length_body_lt : r.body.length < 16000 := by
  have hroom := r.room
  have hsize : clientBufferSize = 16000 := rfl
  omega

theorem parseReqHeaders_text (hmany : r.headers ≠ []) :
    parseReqHeaders (headerBlock r.headers ++ r.body) =
      (r.headers, some (headerBlock r.headers).length) := by
  have hlength : 2 ≤ r.headers.length := by
    have hone := r.count.1
    have hpos := List.length_pos_of_ne_nil hmany
    omega
  have hread := parseReqHeaders_headerBlock hmany r.wellFormed r.body
  rw [filterMap_parseHeaderLine r.wellFormed hlength, List.take_of_length_le r.count.2] at hread
  obtain ⟨before, hfirst, -⟩ := firstOccurrence_headerBlock hmany r.wellFormed
  refine Prod.ext hread ?_
  rw [parseReqHeaders, (hfirst.append_right r.body).cutAtStr_eq]
  simp only [splitPair_headerBlock r.wellFormed, headersEnd_headerBlock]

/-- Without headers there is no body, and nothing is found. -/
theorem parseReqHeaders_text_nil (hnone : r.headers = []) :
    r.body = [] ∧ parseReqHeaders (headerBlock r.headers ++ r.body) = ([], none) := by
  have hbody : r.body = [] := by
    by_contra hne
    have hlength := r.contentLength
    rw [if_neg hne, hnone] at hlength
    exact absurd hlength (by simp [sentHeader])
  rw [hbody, hnone]
  exact ⟨rfl, by decide⟩

/-- The request before its body, and where the body starts. -/
theorem parseReqHead_text {scratch : LineScratch}
    (hends : ScanEnds isBlank 4 (r.line ++ staleBytes scratch r.line)) :
    parseReqHead scratch r.received = some (some ({ r.parsed scratch with body := [] },
      if r.headers = [] then none
      else some (r.line.length + 2 + (headerBlock r.headers).length))) := by
  have hcstr : cstr (clientBuffer r.received) = r.text := by
    rw [cstr_clientBuffer]
    exact cstr_of_nulFree nulFree_text
  have hheaders : parseReqHeaders (headerBlock r.headers ++ r.body) = (r.headers,
      if r.headers = [] then none else some (headerBlock r.headers).length) := by
    by_cases hmany : r.headers = []
    · rw [if_pos hmany, (parseReqHeaders_text_nil hmany).2, hmany]
    · rw [if_neg hmany, parseReqHeaders_text hmany]
  have hcookies := @parseReqCookies_of_sent { HttpRequest.zero with
    method := r.method
    path := r.path
    version := r.storedVersion scratch
    headers := r.headers } r.cookies r.cookiesWellFormed r.fewCookies r.cookieHeader rfl
  rw [parseReqHead, hcstr]
  simp only [parseReqLine_text hends, cutAtStr_text, hheaders, hcookies, Option.bind_eq_bind,
    Option.bind_some, Option.some.injEq, Prod.mk.injEq]
  refine ⟨rfl, ?_⟩
  by_cases hmany : r.headers = []
  · rw [if_pos hmany, if_pos hmany, Option.map_none]
  · rw [if_neg hmany, if_neg hmany, Option.map_some]

/-- The body is where the head says. -/
theorem drop_clientBuffer : (clientBuffer r.received).drop
    (r.line.length + 2 + (headerBlock r.headers).length) =
      r.body ++ List.replicate (clientBufferSize - r.text.length) 0 := by
  have hhead : r.text = r.line ++ (crlf ++ headerBlock r.headers) ++ r.body := by
    rw [text, List.append_assoc, List.append_assoc]
  have hlength : (r.line ++ (crlf ++ headerBlock r.headers)).length =
      r.line.length + 2 + (headerBlock r.headers).length := by
    simp only [List.length_append, crlf, List.length_cons, List.length_nil]
    omega
  rw [clientBuffer, ← hlength]
  change List.drop _ (r.text ++ List.replicate (clientBufferSize - r.text.length) 0) = _
  generalize clientBufferSize - r.text.length = room
  rw [hhead, List.append_assoc _ r.body, List.drop_left]

/-- The length that is announced is the one of the body. -/
theorem announcedLength_parsed (scratch : LineScratch) (body : Bytes) :
    announcedLength { r.parsed scratch with body := body } =
      if r.body = [] then none else some r.body.length := by
  have hheader : getHeader { r.parsed scratch with body := body } .contentLength =
      sentHeader r.headers .contentLength := sentHeader_cutCookieHeader (by decide) r.headers
  rw [announcedLength, hheader, r.contentLength]
  by_cases hnone : r.body = []
  · rw [if_pos hnone, if_pos hnone, Option.bind_none]
  · have hshort := length_body_lt (r := r)
    have hpos := List.length_pos_of_ne_nil hnone
    have hmax : (16000 : ℤ) ≤ intMax := by decide
    have hread : atoi (printNat r.body.length) = r.body.length := atoi_printNat (by omega)
    have hlimits : 0 < (r.body.length : ℤ) ∧ (r.body.length : ℤ) < bodyLen := by
      have hsize : bodyLen = 18000 := rfl
      omega
    rw [if_neg hnone, if_neg hnone, Option.bind_some, hread]
    simp only [Int.toNat_natCast]
    exact if_pos hlimits

/-- **The request that is parsed**: the words of the line, the headers without cookies, the
cookies and the body. -/
theorem parseRequest_eq {scratch : LineScratch}
    (hends : ScanEnds isBlank 4 (r.line ++ staleBytes scratch r.line)) :
    parseRequest scratch r.received = some (some (r.parsed scratch)) := by
  have hbody : storedBody (clientBuffer r.received)
      (if r.headers = [] then none else some (r.line.length + 2 + (headerBlock r.headers).length))
      { r.parsed scratch with body := [] } = some r.body := by
    rw [storedBody, announcedLength_parsed]
    by_cases hnone : r.body = []
    · rw [if_pos hnone, hnone]
    · have hmany : r.headers ≠ [] := fun h => hnone (parseReqHeaders_text_nil h).1
      have hroom := length_clientBuffer r.received
      have htext := length_text r
      have hline := length_line r
      have hfits := r.room
      rw [if_neg hnone, if_neg hmany]
      simp only [Option.bind_eq_bind, Option.bind_some, drop_clientBuffer, List.take_left]
      exact if_pos (by omega)
  rw [parseRequest, parseReqHead_text hends]
  simp only [Option.bind_eq_bind, Option.bind_some, parseReqBody, hbody, Option.map_some,
    cstr_of_nulFree nulFree_body]
  rfl

end ClientRequest

/-- **A request is read back as it was sent**, whatever the array of the request line held, as
long as the scan for a fourth word ends in it: its method, its path and its body, each header but
the cookies by its first value, and each cookie by its name. -/
theorem request_read_back (r : ClientRequest) {scratch : LineScratch}
    (hends : ScanEnds isBlank 4 (r.line ++ staleBytes scratch r.line)) :
    ∃ req, parseRequest scratch r.received = some (some req) ∧ req.method = r.method ∧
      req.path = r.path ∧ r.version <+: req.version ∧ req.body = r.body ∧
      (∀ field ≠ .cookie, getHeader req field = sentHeader r.headers field) ∧
      ∀ name, getReqCookie req name =
        (r.cookies.find? fun cookie => name = cookie.name).map Cookie.value := by
  refine ⟨r.parsed scratch, ClientRequest.parseRequest_eq hends, rfl, rfl, ?_, rfl, ?_, ?_⟩
  · exact List.prefix_take_iff.mpr ⟨List.prefix_append _ _, r.short.2.2⟩
  · exact fun field hfield => sentHeader_cutCookieHeader hfield r.headers
  · exact fun _ => rfl

/-- The headers of a request with two cookies. -/
def sampleHeaders : List HttpHeader :=
  [⟨lit "Host", lit "bank"⟩, ⟨lit "Cookie", lit "lang=en; token=x.y"⟩]

theorem wellFormed_sampleHeaders : ∀ header ∈ sampleHeaders, WellFormedHeader header := by
  simp only [sampleHeaders, List.mem_cons, List.not_mem_nil, or_false, forall_eq_or_imp, forall_eq]
  exact ⟨by constructor <;> decide +kernel, by constructor <;> decide +kernel⟩

theorem wellFormed_sampleCookies :
    ∀ cookie ∈ [⟨lit "lang", lit "en"⟩, ⟨lit "token", lit "x.y"⟩], WellFormedCookie cookie := by
  simp only [List.mem_cons, List.not_mem_nil, or_false, forall_eq_or_imp, forall_eq]
  exact ⟨by constructor <;> decide +kernel, by constructor <;> decide +kernel⟩

/-- The request. -/
def cookieClient : ClientRequest where
  method := lit "GET"
  path := lit "/accounts"
  version := lit "HTTP/1.1"
  headers := sampleHeaders
  cookies := [⟨lit "lang", lit "en"⟩, ⟨lit "token", lit "x.y"⟩]
  body := []
  words := by decide +kernel
  short := by decide +kernel
  wellFormed := wellFormed_sampleHeaders
  nulFree := by decide +kernel
  count := by decide
  cookiesWellFormed := wellFormed_sampleCookies
  fewCookies := by decide
  cookieHeader := by decide +kernel
  contentLength := by decide +kernel
  room := by decide +kernel

/-- It is read back, from an array of zeros. -/
theorem request_read_back_cookieClient :
    ∃ req, parseRequest zeroLineScratch cookieClient.received = some (some req) ∧
      req.method = cookieClient.method ∧ req.path = cookieClient.path ∧
      cookieClient.version <+: req.version ∧ req.body = cookieClient.body ∧
      (∀ field ≠ .cookie, getHeader req field = sentHeader cookieClient.headers field) ∧
      ∀ name, getReqCookie req name =
        (cookieClient.cookies.find? fun cookie => name = cookie.name).map Cookie.value :=
  request_read_back cookieClient (Or.inl (by decide +kernel))

end CBank
