import CBank.Middlewares

/-!
# The Request Parser

`server/http_parser.c`, from the bytes `start` reads into `client_buf` to the request it routes.
The buffer is zeroed before every read, so the string functions see what was received up to its
first NUL. `parse_req_line` cuts a copy of the line that it does not terminate; the rest of that
copy is whatever the stack held (`LineScratch`).

The body starts after the first empty line of what was received, and `parse_req_body` copies as
many bytes as the client announces.

## Main results

* `strstr_headersEnd`: the header scanner stops after the first empty line.
* `body_from_received_iff`: the body is what was received exactly when no more is announced.
-/

namespace CBank

open CLib

/-- `CLIENT_BUFFER_SIZE`. -/
abbrev clientBufferSize : ℕ := 16000

/-- What `read` may store in `client_buf`: at least a byte, and room for the NUL after them. -/
abbrev Received := {bytes : Bytes // 0 < bytes.length ∧ bytes.length < clientBufferSize}

/-- `client_buf` after a read. -/
def clientBuffer (received : Received) : Bytes :=
  received.1 ++ List.replicate (clientBufferSize - received.1.length) 0

/-- `CRLF`. -/
def crlf : Bytes := [13, newline]

/-- `struct HttpRequest req = {0}`. -/
def HttpRequest.zero : HttpRequest := ⟨[], [], [], [], [], JwtData.zero, [], [], []⟩

/-! ### The request line -/

/-- What `_tmp_line_buf` holds before the line is copied into it. -/
abbrev LineScratch := {mem : Bytes // mem.length = 512}

/-- A step of `strtok_r` in a buffer that need not hold a NUL; the inner `none` is NULL, the outer
one a scan that leaves the buffer. -/
def strtokIn (d : UInt8 → Bool) (mem : Bytes) : Option (Option (Bytes × Bytes)) :=
  match mem.dropWhile d with
  | [] => none
  | c :: rest =>
      if c = 0 then some none
      else
        let token := (c :: rest).takeWhile fun c => !d c && c ≠ 0
        match (c :: rest).drop token.length with
        | [] => none
        | c :: rest => some (some (token, if c = 0 then 0 :: rest else rest))

/-- At most `n` tokens of a buffer. -/
def tokensIn (d : UInt8 → Bool) : ℕ → Bytes → Option (List Bytes)
  | 0, _ => some []
  | n + 1, mem => do
      match ← strtokIn d mem with
      | none => some []
      | some (token, rest) => (tokensIn d n rest).map (token :: ·)

/-- `parse_req_line`; the inner `none` is -1. A fourth token is looked for and ignored. -/
def parseReqLine (scratch : LineScratch) (reqBuf : Bytes) (req : HttpRequest) :
    Option (Option HttpRequest) :=
  match cutAtStr crlf reqBuf with
  | none => some none
  | some (line, _) =>
      if 512 ≤ line.length then some none
      else do
        match ← tokensIn (· == ch ' ') 4 (line ++ scratch.1.drop line.length) with
        | method :: path :: version :: _ => some (some { req with
            method := method.take 7
            path := path.take 255
            version := version.take 15 })
        | _ => some none

/-! ### Headers -/

/-- What one header line is stored as. A line as long as all headers loses its last character. -/
def parseHeaderLine (headersLen : ℕ) (line : Bytes) : Option HttpHeader :=
  let line := if headersLen ≤ line.length then line.take (headersLen - 1) else line
  (cutAt (ch ':') line).map fun (key, value) =>
    ⟨key.take (maxKeyLen - 1), (value.dropWhile (· == ch ' ')).take (maxValueLen - 1)⟩

/-- Where the loop over the header lines returns: after the first empty one. -/
def headersEnd : List Bytes → ℕ
  | [] => 0
  | line :: lines => if line = [] then 2 else line.length + 2 + headersEnd lines

/-- `parse_req_headers`: the headers, and where the body starts in the text. Without an empty
line after a header, `malloc` is asked for more than there is, and NULL returned. -/
def parseReqHeaders (headerStart : Bytes) : List HttpHeader × Option ℕ :=
  match cutAtStr (crlf ++ crlf) headerStart with
  | none => ([], none)
  | some (headers, _) =>
      let lines := splitPair 13 newline headerStart
      (((lines.takeWhile (· ≠ [])).filterMap (parseHeaderLine headers.length)).take maxHeaders,
        some (headersEnd lines))

/-! ### Cookies -/

/-- The delimiter of `strtok_r(_, ";")`. -/
abbrev isCookieDelim (c : UInt8) : Bool := c == ch ';'

/-- The cookie one token of a header is. -/
def parseCookie (token : Bytes) : Option Cookie :=
  (cutAt (ch '=') token).map fun (name, value) =>
    ⟨name.dropWhile (· == ch ' '), value.dropWhile (· == ch ' ')⟩

/-- The headers once the cookies were cut out of theirs. -/
def cutCookieHeader : List HttpHeader → List HttpHeader
  | [] => []
  | header :: headers =>
      if strcasecmp header.key (getHeaderFieldName .cookie) then
        ⟨header.key, cutByTokens isCookieDelim header.value⟩ :: headers
      else header :: cutCookieHeader headers

/-- The cookies the array is allocated for, less one. At the next one `realloc` gets a number of
cookies for a number of bytes, and the cookie is stored past the end. -/
abbrev maxStoredCookies : ℕ := 19

/-- `parse_req_cookies`. -/
def parseReqCookies (req : HttpRequest) : Option HttpRequest :=
  if req.headers = [] then some req
  else match getHeader req .cookie with
    | none => some req
    | some value =>
        let cookies := (tokens isCookieDelim value).filterMap parseCookie
        if cookies.length ≤ maxStoredCookies then
          some { req with headers := cutCookieHeader req.headers, cookies := cookies }
        else none

/-! ### The body -/

/-- The length `parse_req_body` copies. -/
def announcedLength (req : HttpRequest) : Option ℕ :=
  (getHeader req .contentLength).bind fun contentLength =>
    let len := atoi contentLength
    if 0 < len ∧ len < bodyLen then some len.toNat else none

/-- The indices of `client_buf` that `parse_req_body` copies. -/
def copiedIndices (bodyStart : Option ℕ) (req : HttpRequest) : List ℕ :=
  match announcedLength req, bodyStart with
  | some len, some start => List.range' start len
  | _, _ => []

/-- The bytes `parse_req_body` stores; `memcpy` is not defined from NULL or past the buffer. -/
def storedBody (clientBuf : Bytes) (bodyStart : Option ℕ) (req : HttpRequest) : Option Bytes :=
  match announcedLength req with
  | none => some []
  | some len => do
      let start ← bodyStart
      if start + len ≤ clientBuf.length then some ((clientBuf.drop start).take len) else none

/-- `parse_req_body`. -/
def parseReqBody (clientBuf : Bytes) (bodyStart : Option ℕ) (req : HttpRequest) :
    Option HttpRequest :=
  (storedBody clientBuf bodyStart req).map fun body => { req with body := cstr body }

/-- What `start` parses before the body: the request, and where its body starts in `client_buf`;
the inner `none` is a request line that is not accepted. -/
def parseReqHead (scratch : LineScratch) (received : Received) :
    Option (Option (HttpRequest × Option ℕ)) := do
  let reqBuf := cstr (clientBuffer received)
  match ← parseReqLine scratch reqBuf .zero with
  | none => some none
  | some req =>
      let (line, headerStart) ← cutAtStr crlf reqBuf
      let (headers, bodyStart) := parseReqHeaders headerStart
      let req ← parseReqCookies { req with headers := headers }
      some (some (req, bodyStart.map (line.length + 2 + ·)))

/-- What `parse_req_headers` leaves in a request, and where the body starts in `client_buf`. -/
def parseReqFields (received : Received) : List HttpHeader × Option ℕ :=
  match cutAtStr crlf (cstr (clientBuffer received)) with
  | none => ([], none)
  | some (line, headerStart) =>
      let (headers, bodyStart) := parseReqHeaders headerStart
      (headers, bodyStart.map (line.length + 2 + ·))

/-- The request `start` routes. -/
def parseRequest (scratch : LineScratch) (received : Received) : Option (Option HttpRequest) := do
  match ← parseReqHead scratch received with
  | none => some none
  | some (req, bodyStart) => (parseReqBody (clientBuffer received) bodyStart req).map some

/-! ### The request line and the headers -/

/-- A computation in two steps gives something when both do. -/
theorem isSome_bind_iff {α β : Type*} {x : Option α} {f : α → Option β} :
    (x.bind f).isSome ↔ ∃ a, x = some a ∧ (f a).isSome := by
  cases x <;> simp

theorem isSome_parseReqLine_iff {scratch : LineScratch} {text : Bytes} {req : HttpRequest} :
    (parseReqLine scratch text req).isSome ↔
      ∀ line rest, cutAtStr crlf text = some (line, rest) → line.length < 512 →
        (tokensIn (· == ch ' ') 4 (line ++ scratch.1.drop line.length)).isSome := by
  rw [parseReqLine]
  cases hcut : cutAtStr crlf text with
  | none => simp
  | some cut =>
      obtain ⟨line, rest⟩ := cut
      simp only [Option.some.injEq, Prod.mk.injEq]
      by_cases hlen : 512 ≤ line.length
      · rw [if_pos hlen]
        refine iff_of_true rfl ?_
        rintro _ _ ⟨rfl, rfl⟩ hlt
        exact absurd hlt (not_lt.mpr hlen)
      · rw [if_neg hlen]
        rw [Option.bind_eq_bind, isSome_bind_iff]
        constructor
        · rintro ⟨words, hwords, -⟩ _ _ ⟨rfl, rfl⟩ -
          rw [hwords]
          rfl
        · intro h
          obtain ⟨words, hwords⟩ :=
            Option.isSome_iff_exists.mp (h line rest ⟨rfl, rfl⟩ (not_le.mp hlen))
          refine ⟨words, hwords, ?_⟩
          split
          · rfl
          · rfl

/-- A request line that is accepted ends in a `CRLF`. -/
theorem exists_cut_of_parseReqLine {scratch : LineScratch} {text : Bytes} {req req' : HttpRequest}
    (h : parseReqLine scratch text req = some (some req')) :
    ∃ line rest, cutAtStr crlf text = some (line, rest) := by
  rw [parseReqLine] at h
  cases hcut : cutAtStr crlf text with
  | none => simp [hcut] at h
  | some cut => exact ⟨cut.1, cut.2, rfl⟩

/-- The value of the first header with the name of a field. -/
def sentHeader (headers : List HttpHeader) (field : HttpHeaderField) : Option Bytes :=
  (headers.find? fun header => strcasecmp header.key (getHeaderFieldName field)).map
    HttpHeader.value

theorem getHeader_eq (req : HttpRequest) (field : HttpHeaderField) :
    getHeader req field = sentHeader req.headers field := rfl

/-- Cutting the cookies keeps the other headers. Induction along the headers. -/
theorem sentHeader_cutCookieHeader {field : HttpHeaderField} (hfield : field ≠ .cookie)
    (headers : List HttpHeader) :
    sentHeader (cutCookieHeader headers) field = sentHeader headers field := by
  have hnames : ∀ field : HttpHeaderField, field ≠ .cookie →
      (getHeaderFieldName .cookie).map toLower ≠ (getHeaderFieldName field).map toLower := by
    intro field hne
    cases field <;> first | exact absurd rfl hne | decide
  induction headers with
  | nil => rfl
  | cons header headers ih =>
      rw [cutCookieHeader]
      split
      · rename_i hkey
        have hother : strcasecmp header.key (getHeaderFieldName field) = false := by
          rw [strcasecmp, decide_eq_true_eq] at hkey
          rw [strcasecmp, decide_eq_false_iff_not, hkey]
          exact hnames field hfield
        rw [sentHeader, sentHeader, List.find?_cons, List.find?_cons]
        simp only [hother]
      · rw [sentHeader, sentHeader, List.find?_cons, List.find?_cons]
        split
        · rfl
        · exact ih

/-! ### Where the body starts -/

/-- What was received after the first empty line. -/
def afterEmptyLine (received : Received) : Bytes :=
  ((cutAtStr (crlf ++ crlf) received.1).map Prod.snd).getD []

/-- The lines of a text that has a `CRLF`. -/
theorem splitPair_of_cut {text line rest : Bytes} (h : cutAtStr crlf text = some (line, rest)) :
    splitPair 13 newline text = line :: splitPair 13 newline rest := by
  have hcut : cutAtStr [13, newline] text = some (line, rest) := h
  rw [splitPair_eq_cutAtStr, hcut]

/-- Behind a line that is not empty, the same empty line is found. -/
theorem strstr_emptyLine_of_line {text line rest : Bytes}
    (hcut : cutAtStr crlf text = some (line, rest)) (hline : line ≠ []) :
    strstr (crlf ++ crlf) (crlf ++ text) = strstr (crlf ++ crlf) text ∧
      strstr (crlf ++ crlf) text = strstr (crlf ++ crlf) (crlf ++ rest) := by
  refine ⟨?_, strstr_append_pat (cutAtStr_eq_some hcut).2 crlf⟩
  have hstarts : ¬ crlf <+: text := by
    intro hstarts
    have hfound := (cutAtStr_eq_some hcut).2
    rw [strstr_of_starts hstarts, Option.some.injEq] at hfound
    have htext := (cutAtStr_eq_some hcut).1
    rw [hfound] at htext
    exact hline (List.self_eq_append_left.mp htext)
  have hfirst : ¬ crlf ++ crlf <+: 13 :: newline :: text :=
    fun hall => hstarts ((List.prefix_append_right_inj crlf).mp hall)
  have hsecond : ¬ crlf ++ crlf <+: newline :: text := by
    change ¬ 13 :: (newline :: crlf) <+: newline :: text
    rw [List.cons_prefix_cons]
    exact fun h => absurd h.1 (by decide)
  change strstr (crlf ++ crlf) (13 :: newline :: text) = _
  rw [strstr_cons_of_not_starts hfirst, strstr_cons_of_not_starts hsecond]

/-- **Induction along the lines up to the first empty one**, which may be the one the line before
the text ends in. -/
theorem emptyLine_induction {P : Bytes → Prop} {text : Bytes}
    (h : crlf ++ crlf <:+: crlf ++ text) (stop : ∀ rest, P (crlf ++ rest))
    (step : ∀ text line rest, cutAtStr crlf text = some (line, rest) → line ≠ [] → P rest →
      P text) : P text := by
  induction hn : text.length using Nat.strong_induction_on generalizing text with
  | _ n ih =>
    by_cases hstarts : crlf <+: text
    · obtain ⟨rest, rfl⟩ := hstarts
      exact stop rest
    · cases hcut : cutAtStr crlf text with
      | none =>
          -- the text would start with the second half of the empty line
          rw [cutAtStr_eq_none_iff, strstr_eq_none_iff] at hcut
          obtain ⟨before, after, hsplit⟩ := h
          match before, hsplit with
          | [], hsplit =>
              rw [List.nil_append, List.append_assoc] at hsplit
              exact absurd ⟨after, List.append_cancel_left hsplit⟩ hstarts
          | [x], hsplit =>
              have hsecond : 13 = newline := (List.cons.inj (List.cons.inj hsplit).2).1
              exact absurd hsecond (by decide)
          | x :: y :: before, hsplit =>
              have hin : before ++ (crlf ++ crlf) ++ after = text :=
                (List.cons.inj (List.cons.inj hsplit).2).2
              exact absurd ((List.prefix_append crlf crlf).isInfix.trans ⟨before, after, hin⟩) hcut
      | some cut =>
          obtain ⟨line, rest⟩ := cut
          have htext := (cutAtStr_eq_some hcut).1
          have hline : line ≠ [] := by
            rintro rfl
            exact hstarts ⟨rest, htext.symm⟩
          have hlen : rest.length < n := by
            rw [← hn, htext, List.length_append, List.length_append]
            exact Nat.lt_of_lt_of_le (Nat.lt_add_of_pos_left (by decide)) (Nat.le_add_left _ _)
          obtain ⟨hskip, hnext⟩ := strstr_emptyLine_of_line hcut hline
          refine step text line rest hcut hline (ih rest.length hlen ?_ rfl)
          by_contra hnot
          rw [← strstr_eq_none_iff, ← hnext, ← hskip, strstr_eq_none_iff] at hnot
          exact hnot h

/-- **Where the loop over the header lines stops**: after the first empty line, which may be the
one the request line ends in. -/
theorem strstr_headersEnd {text : Bytes} (h : crlf ++ crlf <:+: crlf ++ text) :
    strstr (crlf ++ crlf) (crlf ++ text) =
        some (crlf ++ crlf ++ text.drop (headersEnd (splitPair 13 newline text))) ∧
      headersEnd (splitPair 13 newline text) ≤ text.length := by
  refine emptyLine_induction (P := fun text => strstr (crlf ++ crlf) (crlf ++ text) =
        some (crlf ++ crlf ++ text.drop (headersEnd (splitPair 13 newline text))) ∧
      headersEnd (splitPair 13 newline text) ≤ text.length) h ?_ ?_
  · intro rest
    have hall : crlf ++ crlf <+: crlf ++ (crlf ++ rest) := by
      rw [List.prefix_append_right_inj]
      exact List.prefix_append _ _
    have hsplit : headersEnd (splitPair 13 newline (crlf ++ rest)) = 2 := rfl
    rw [strstr_of_starts hall, hsplit]
    exact ⟨rfl, by rw [List.length_append]; exact Nat.le_add_right 2 _⟩
  · rintro text line rest hcut hline ⟨hrest, hle⟩
    obtain ⟨hskip, hnext⟩ := strstr_emptyLine_of_line hcut hline
    have htext := (cutAtStr_eq_some hcut).1
    have hlen : text.length = line.length + 2 + rest.length := by
      rw [htext, List.length_append, List.length_append, Nat.add_assoc]
      rfl
    rw [splitPair_of_cut hcut, headersEnd, if_neg hline]
    refine ⟨?_, by omega⟩
    rw [hskip, hnext, hrest, htext, ← List.append_assoc line, List.drop_append]
    simp [crlf]

variable {scratch : LineScratch} {received : Received} {req : HttpRequest} {bodyStart : Option ℕ}

/-- The string functions see what was received up to its first NUL. -/
theorem cstr_clientBuffer (received : Received) :
    cstr (clientBuffer received) = cstr received.1 := by
  have hroom : clientBufferSize - received.1.length =
      clientBufferSize - received.1.length - 1 + 1 := by
    have := received.2.2
    omega
  rw [clientBuffer, hroom, List.replicate_succ]
  by_cases hnul : NulFree received.1
  · rw [cstr_append_nul hnul, cstr_of_nulFree hnul]
  · rw [NulFree, not_not] at hnul
    obtain ⟨before, after, hsplit, hbefore⟩ := List.eq_append_cons_of_mem hnul
    rw [hsplit, List.append_assoc, List.cons_append, cstr_append_nul hbefore,
      cstr_append_nul hbefore]

/-- **What `start` parses before the body**: the line, the headers after it, and the cookies. -/
theorem parseReqHead_eq_some
    (h : parseReqHead scratch received = some (some (req, bodyStart))) :
    ∃ line text reqOfLine, cutAtStr crlf (cstr received.1) = some (line, text) ∧
      parseReqLine scratch (cstr received.1) .zero = some (some reqOfLine) ∧
      parseReqCookies { reqOfLine with headers := (parseReqHeaders text).1 } = some req ∧
      bodyStart = (parseReqHeaders text).2.map (line.length + 2 + ·) := by
  rw [parseReqHead, cstr_clientBuffer] at h
  obtain ⟨parsed, hline, h⟩ := Option.bind_eq_some_iff.mp h
  cases parsed with
  | none => simp at h
  | some reqOfLine =>
      obtain ⟨⟨line, text⟩, hcut, h⟩ := Option.bind_eq_some_iff.mp h
      obtain ⟨cookied, hcookies, h⟩ := Option.bind_eq_some_iff.mp h
      simp only [Option.some.injEq, Prod.mk.injEq] at h
      obtain ⟨rfl, rfl⟩ := h
      exact ⟨line, text, reqOfLine, hcut, hline, hcookies, rfl⟩

/-- What `parse_req_headers` finds behind the request line. -/
theorem parseReqFields_of_cut {line text : Bytes}
    (h : cutAtStr crlf (cstr received.1) = some (line, text)) : parseReqFields received =
      ((parseReqHeaders text).1, (parseReqHeaders text).2.map (line.length + 2 + ·)) := by
  rw [parseReqFields, cstr_clientBuffer, h]

/-- **The body starts after the first empty line of what was received.** -/
theorem drop_bodyStart {start : ℕ} (h : (parseReqFields received).2 = some start) :
    start ≤ received.1.length ∧ received.1.drop start = afterEmptyLine received := by
  cases hcut : cutAtStr crlf (cstr received.1) with
  | none =>
      rw [parseReqFields, cstr_clientBuffer, hcut] at h
      simp at h
  | some cut =>
      obtain ⟨line, text⟩ := cut
      rw [parseReqFields_of_cut hcut, parseReqHeaders] at h
      obtain ⟨htext, hfound⟩ := cutAtStr_eq_some hcut
      cases hempty : cutAtStr (crlf ++ crlf) text with
      | none =>
          rw [hempty] at h
          simp at h
      | some cut =>
          rw [hempty] at h
          set stop := headersEnd (splitPair 13 newline text) with hstop
          obtain rfl : line.length + 2 + stop = start := Option.some.inj h
          have hin : crlf ++ crlf <:+: crlf ++ text := by
            have hsplit := (cutAtStr_eq_some hempty).1
            exact ⟨crlf ++ cut.1, cut.2, by rw [hsplit]; simp⟩
          obtain ⟨hfoundEmpty, hle⟩ := strstr_headersEnd hin
          rw [← hstop] at hfoundEmpty hle
          have hreceived : received.1 = cstr received.1 ++ received.1.dropWhile (· ≠ 0) :=
            List.takeWhile_append_dropWhile.symm
          set tail := received.1.dropWhile (· ≠ 0)
          have hlen : (cstr received.1).length = line.length + 2 + text.length := by
            rw [htext, List.length_append, List.length_append, Nat.add_assoc]
            rfl
          have hafter : afterEmptyLine received = text.drop stop ++ tail := by
            have hall := strstr_append ((strstr_append_pat hfound crlf).trans hfoundEmpty) tail
            rw [← hreceived] at hall
            rw [afterEmptyLine, cutAtStr, hall, Option.map_some, Option.map_some,
              Option.getD_some, List.append_assoc, List.drop_left]
          refine ⟨?_, ?_⟩
          · rw [hreceived, List.length_append]
            omega
          · rw [hafter, hreceived, List.drop_append_of_le_length (by omega), htext,
              ← List.append_assoc line, List.drop_append]
            simp [crlf]

/-- Without an empty line there are no headers. -/
theorem headers_of_no_bodyStart (h : (parseReqFields received).2 = none) :
    (parseReqFields received).1 = [] := by
  cases hcut : cutAtStr crlf (cstr received.1) with
  | none => rw [parseReqFields, cstr_clientBuffer, hcut]
  | some cut =>
      obtain ⟨line, text⟩ := cut
      rw [parseReqFields_of_cut hcut, parseReqHeaders] at h ⊢
      cases hempty : cutAtStr (crlf ++ crlf) text with
      | none => rfl
      | some cut =>
          rw [hempty] at h
          simp at h

/-- The length that is announced in the headers of a request. -/
theorem announcedLength_congr {req req' : HttpRequest}
    (h : getHeader req .contentLength = getHeader req' .contentLength) :
    announcedLength req = announcedLength req' := by
  rw [announcedLength, announcedLength, h]

/-- Where no body starts, no length is announced. -/
theorem announcedLength_of_no_bodyStart (h : (parseReqFields received).2 = none)
    (hreq : req.headers = (parseReqFields received).1) : announcedLength req = none := by
  have hheader : getHeader req .contentLength = none := by
    rw [getHeader, hreq, headers_of_no_bodyStart h]
    rfl
  rw [announcedLength, hheader, Option.bind_none]

/-- `parse_req_cookies` keeps the headers but for the value of the cookies. -/
theorem getHeader_parseReqCookies {req' : HttpRequest} (h : parseReqCookies req = some req')
    {field : HttpHeaderField} (hfield : field ≠ .cookie) :
    getHeader req' field = getHeader req field := by
  rw [parseReqCookies] at h
  split at h
  · rw [Option.some.inj h]
  · split at h
    · rw [Option.some.inj h]
    · obtain ⟨-, h⟩ := Option.ite_none_right_eq_some.mp h
      rw [← Option.some.inj h]
      exact sentHeader_cutCookieHeader hfield req.headers

/-- **What `parse_req_body` gets from a parser that did not stop**: the place and the length found
by `parse_req_headers`. -/
theorem fields_of_parseReqHead
    (h : parseReqHead scratch received = some (some (req, bodyStart))) :
    bodyStart = (parseReqFields received).2 ∧ announcedLength req =
      announcedLength { HttpRequest.zero with headers := (parseReqFields received).1 } := by
  obtain ⟨line, text, reqOfLine, hcut, -, hcookies, hstart⟩ := parseReqHead_eq_some h
  rw [parseReqFields_of_cut hcut]
  exact ⟨hstart, announcedLength_congr (getHeader_parseReqCookies hcookies (by decide))⟩

theorem mem_copiedIndices {start len i : ℕ} (h : announcedLength req = some len) :
    i ∈ copiedIndices (some start) req ↔ start ≤ i ∧ i < start + len := by
  simp only [copiedIndices, h, List.mem_range'_1]

/-- An announced length is positive. -/
theorem announcedLength_pos {len : ℕ} (h : announcedLength req = some len) : 0 < len := by
  obtain ⟨value, -, h⟩ := Option.bind_eq_some_iff.mp h
  simp only [Option.ite_none_right_eq_some, Option.some.injEq] at h
  omega

/-- A request as `parse_req_headers` leaves it. -/
def HttpRequest.withFields (req : HttpRequest) (received : Received) : HttpRequest :=
  { req with headers := (parseReqFields received).1 }

/-- **The body comes only from what was received**: the words of the request line are found in its
copy, and when they make a request, every index copied for its headers is below the number of bytes
received, and what is stored is a prefix of what follows the empty line. The cookies in between
change neither the length nor the place. -/
structure BodyFromReceived (scratch : LineScratch) (received : Received) : Prop where
  line : (parseReqLine scratch (cstr (clientBuffer received)) .zero).isSome
  copied : ∀ req, parseReqLine scratch (cstr (clientBuffer received)) .zero = some (some req) →
    ∀ i ∈ copiedIndices (parseReqFields received).2 (req.withFields received),
      i < received.1.length
  stored : ∀ req, parseReqLine scratch (cstr (clientBuffer received)) .zero = some (some req) →
    ∃ body, storedBody (clientBuffer received) (parseReqFields received).2
        (req.withFields received) = some body ∧ body <+: afterEmptyLine received

/-- The scan for the words of a request line that fits its copy ends in the copy. -/
def WordsInCopy (scratch : LineScratch) (received : Received) : Prop :=
  ∀ line rest, cutAtStr crlf (cstr received.1) = some (line, rest) → line.length < 512 →
    (tokensIn (· == ch ' ') 4 (line ++ scratch.1.drop line.length)).isSome

/-- The words of the request line end in its copy, and a request that is accepted announces no more
than was sent after the empty line. -/
structure BodySent (scratch : LineScratch) (received : Received) : Prop where
  words : WordsInCopy scratch received
  sent : ∀ req len, parseReqLine scratch (cstr received.1) .zero = some (some req) →
    announcedLength { HttpRequest.zero with headers := (parseReqFields received).1 } = some len →
      len ≤ (afterEmptyLine received).length

theorem announcedLength_withFields (req : HttpRequest) (received : Received) :
    announcedLength (req.withFields received) =
      announcedLength { HttpRequest.zero with headers := (parseReqFields received).1 } := rfl

/-- **When the body comes only from what was received**: exactly when the scan of the request line
ends, and the client announces no more than it sent after the empty line. -/
theorem body_from_received_iff (scratch : LineScratch) (received : Received) :
    BodyFromReceived scratch received ↔ BodySent scratch received := by
  constructor
  · rintro ⟨hline, hcopied, -⟩
    rw [cstr_clientBuffer] at hline hcopied
    refine ⟨isSome_parseReqLine_iff.mp hline, fun req len hreq hlen => ?_⟩
    have hcopied := hcopied req hreq
    rw [← announcedLength_withFields req] at hlen
    cases hstart : (parseReqFields received).2 with
    | none =>
        rw [announcedLength_of_no_bodyStart hstart rfl] at hlen
        simp at hlen
    | some start =>
        obtain ⟨hle, hafter⟩ := drop_bodyStart hstart
        have hroom := announcedLength_pos hlen
        rw [hstart] at hcopied
        have hlast := hcopied (start + (len - 1)) ((mem_copiedIndices hlen).mpr (by omega))
        rw [← hafter, List.length_drop]
        omega
  · intro h
    have hbody : ∀ req, parseReqLine scratch (cstr received.1) .zero = some (some req) →
        (∀ i ∈ copiedIndices (parseReqFields received).2 (req.withFields received),
          i < received.1.length) ∧
        ∃ body, storedBody (clientBuffer received) (parseReqFields received).2
          (req.withFields received) = some body ∧ body <+: afterEmptyLine received := by
      intro req hreq
      cases hlen : announcedLength (req.withFields received) with
      | none =>
          refine ⟨?_, [], ?_, List.nil_prefix⟩
          · simp [copiedIndices, hlen]
          · rw [storedBody, hlen]
      | some len =>
          cases hstart : (parseReqFields received).2 with
          | none =>
              rw [announcedLength_of_no_bodyStart hstart rfl] at hlen
              simp at hlen
          | some start =>
              obtain ⟨hle, hafter⟩ := drop_bodyStart hstart
              have hsent := h.sent req len hreq hlen
              rw [← hafter, List.length_drop] at hsent
              have hroom := announcedLength_pos hlen
              refine ⟨?_, (received.1.drop start).take len, ?_, hafter ▸ List.take_prefix _ _⟩
              · intro i hi
                have := (mem_copiedIndices hlen).mp hi
                omega
              · have hbuffer : start + len ≤ (clientBuffer received).length := by
                  rw [clientBuffer, List.length_append]
                  omega
                rw [storedBody, hlen]
                simp only [Option.bind_eq_bind, Option.bind_some, if_pos hbuffer]
                rw [clientBuffer, List.drop_append_of_le_length hle,
                  List.take_append_of_le_length (by rw [List.length_drop]; omega)]
    refine ⟨?_, ?_, ?_⟩
    · rw [cstr_clientBuffer]
      exact isSome_parseReqLine_iff.mpr h.words
    · rw [cstr_clientBuffer]
      exact fun req hreq => (hbody req hreq).1
    · rw [cstr_clientBuffer]
      exact fun req hreq => (hbody req hreq).2

/-- A request that announces five bytes and sends two. -/
def overAnnounced : Received :=
  ⟨lit "POST /login HTTP/1.1" ++ crlf ++ lit "Host: bank" ++ crlf ++ lit "Content-Length: 5" ++
    crlf ++ crlf ++ lit "hi", by decide⟩

/-- An empty stack. -/
def zeroLineScratch : LineScratch := ⟨List.replicate 512 0, List.length_replicate⟩

/-- **A body that was not received**: the bytes behind what was read are copied too. -/
theorem body_not_received : ¬ BodyFromReceived zeroLineScratch overAnnounced := by
  intro h
  have hline : parseReqLine zeroLineScratch (cstr (clientBuffer overAnnounced)) .zero =
      some (some { HttpRequest.zero with
        method := lit "POST"
        path := lit "/login"
        version := lit "HTTP/1.1" }) := by
    decide +kernel
  exact absurd (h.copied _ hline 58 (by decide +kernel)) (by decide)

end CBank
