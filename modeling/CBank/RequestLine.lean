import CBank.RequestParser

/-!
# The Request Line

`parse_req_line` copies the line into an array on the stack that it does not terminate, and
`strtok_r` goes on into what the array held before. It counts to three tokens and breaks at a
fourth, so more of them are accepted.

## Main results

* `tokensIn_eq_some_iff`: the tokens found in a buffer, and when the scan leaves it.
* `request_line_own_iff`: when a line is parsed by its own bytes.
-/

namespace CBank

open CLib

/-! ### Tokens of a buffer -/

section Buffer

variable {d : UInt8 → Bool} {lead token rest : Bytes}

/-- A scan that meets the NUL first finds no token. -/
theorem strtokIn_nul (h0 : d 0 = false) (hlead : ∀ c ∈ lead, d c = true) (rest : Bytes) :
    strtokIn d (lead ++ 0 :: rest) = some none := by
  have hdrop : (lead ++ 0 :: rest).dropWhile d = 0 :: rest := by
    rw [List.dropWhile_append_of_pos hlead, List.dropWhile_cons_of_neg (by simp [h0])]
  rw [strtokIn, hdrop]
  rfl

/-- The token a scan finds, and the buffer it leaves behind it. -/
theorem strtokIn_token (hlead : ∀ c ∈ lead, d c = true) (hne : token ≠ [])
    (htoken : ∀ c ∈ token, d c = false ∧ c ≠ 0) {x : UInt8} (hx : d x = true ∨ x = 0)
    (rest : Bytes) : strtokIn d (lead ++ (token ++ x :: rest)) =
      some (some (token, if x = 0 then 0 :: rest else rest)) := by
  obtain ⟨c, token, rfl⟩ := List.exists_cons_of_ne_nil hne
  have hc := htoken c List.mem_cons_self
  have hdrop : (lead ++ (c :: token ++ x :: rest)).dropWhile d = c :: (token ++ x :: rest) := by
    rw [List.dropWhile_append_of_pos hlead, List.cons_append,
      List.dropWhile_cons_of_neg (by simp [hc.1])]
  have htake : (c :: (token ++ x :: rest)).takeWhile (fun c => !d c && c ≠ 0) = c :: token := by
    rw [← List.cons_append, List.takeWhile_append_of_pos]
    · have hstop : (!d x && decide (x ≠ 0)) = false := by
        rcases hx with hx | hx <;> simp [hx]
      rw [List.takeWhile_cons_of_neg (by rw [hstop]; decide), List.append_nil]
    · intro y hy
      simpa using htoken y hy
  have hleft : (c :: (token ++ x :: rest)).drop (c :: token).length = x :: rest :=
    @List.drop_left _ (c :: token) _
  rw [strtokIn, hdrop]
  simp only [if_neg hc.2, htake, hleft]

/-- A scan that meets neither a delimiter nor a NUL behind a token leaves the buffer. -/
theorem strtokIn_open (hlead : ∀ c ∈ lead, d c = true)
    (htoken : ∀ c ∈ token, d c = false ∧ c ≠ 0) : strtokIn d (lead ++ token) = none := by
  cases token with
  | nil =>
      have hdrop : (lead ++ []).dropWhile d = [] := by
        rw [List.append_nil]
        exact List.dropWhile_eq_nil_iff.mpr hlead
      rw [strtokIn, hdrop]
  | cons c token =>
      have hc := htoken c List.mem_cons_self
      have hdrop : (lead ++ c :: token).dropWhile d = c :: token := by
        rw [List.dropWhile_append_of_pos hlead, List.dropWhile_cons_of_neg (by simp [hc.1])]
      have htake : (c :: token).takeWhile (fun c => !d c && c ≠ 0) = c :: token :=
        List.takeWhile_eq_self_iff.mpr fun y hy => by simpa using htoken y hy
      rw [strtokIn, hdrop]
      simp only [if_neg hc.2, htake, List.drop_length]

/-- **A buffer with a NUL** is cut like the string it holds. Induction along the tokens. -/
theorem tokensIn_append_nul (h0 : d 0 = false) (n : ℕ) {text : Bytes} (hnul : NulFree text)
    (rest : Bytes) : tokensIn d n (text ++ 0 :: rest) = some ((tokens d text).take n) := by
  induction n generalizing text with
  | zero => rfl
  | succ n ih =>
      obtain ⟨lead, hlead, rfl | ⟨token, hne, hfree, rfl | ⟨x, left, hx, rfl⟩⟩⟩ :=
        exists_lead_split d text
      · have hnone : tokens d text = [] := by simpa using tokens_append_delims hlead []
        rw [tokensIn, strtokIn_nul h0 hlead, hnone]
        rfl
      · have htoken : ∀ c ∈ token, d c = false ∧ c ≠ 0 := fun c hc =>
          ⟨hfree c hc, fun h => hnul (by simp [← h, hc])⟩
        rw [tokensIn, List.append_assoc, strtokIn_token hlead hne htoken (Or.inr rfl),
          tokens_append_delims hlead, tokens_of_free hne hfree]
        change (tokensIn d n ([] ++ 0 :: rest)).map (token :: ·) = _
        rw [ih (by simp [NulFree])]
        simp
      · have htoken : ∀ c ∈ token, d c = false ∧ c ≠ 0 := fun c hc =>
          ⟨hfree c hc, fun h => hnul (by simp [← h, hc])⟩
        have hx0 : x ≠ 0 := by
          rintro rfl
          rw [h0] at hx
          exact absurd hx (by decide)
        have hleft : NulFree left := fun h => hnul (by simp [h])
        have hassoc : lead ++ (token ++ x :: left) ++ 0 :: rest =
            lead ++ (token ++ x :: (left ++ 0 :: rest)) := by simp
        rw [tokensIn, hassoc, strtokIn_token hlead hne htoken (Or.inl hx), if_neg hx0,
          tokens_append_delims hlead, tokens_append_cons_of_free hne hfree hx]
        change (tokensIn d n (left ++ 0 :: rest)).map (token :: ·) = _
        rw [ih hleft]
        rfl

/-- **A buffer without a NUL** is cut as far as its last delimiter; a scan that gets there leaves
the buffer. Induction along the tokens. -/
theorem tokensIn_of_nulFree (n : ℕ) {buf : Bytes} (hnul : NulFree buf) :
    tokensIn d n buf = if n ≤ (tokens d (buf.rdropWhile fun c => !d c)).length then
      some ((tokens d (buf.rdropWhile fun c => !d c)).take n) else none := by
  induction n generalizing buf with
  | zero => simp [tokensIn]
  | succ n ih =>
      have hclosed : ∀ {lead : Bytes}, (∀ c ∈ lead, d c = true) →
          lead.rdropWhile (fun c => !d c) = lead := by
        intro lead hlead
        rw [List.rdropWhile_eq_self_iff]
        intro hne
        simp [hlead _ (List.getLast_mem hne)]
      obtain ⟨lead, hlead, rfl | ⟨token, hne, hfree, rfl | ⟨x, left, hx, rfl⟩⟩⟩ :=
        exists_lead_split d buf
      · have hnone : tokens d buf = [] := by simpa using tokens_append_delims hlead []
        have hscan := @strtokIn_open d buf [] hlead (by simp)
        rw [List.append_nil] at hscan
        rw [tokensIn, hscan, hclosed hlead, hnone]
        rfl
      · have htoken : ∀ c ∈ token, d c = false ∧ c ≠ 0 := fun c hc =>
          ⟨hfree c hc, fun h => hnul (by simp [← h, hc])⟩
        have hnone : tokens d lead = [] := by simpa using tokens_append_delims hlead []
        rw [tokensIn, strtokIn_open hlead htoken,
          rdropWhile_append_of_pos fun c hc => by simp [hfree c hc], hclosed hlead, hnone]
        rfl
      · have htoken : ∀ c ∈ token, d c = false ∧ c ≠ 0 := fun c hc =>
          ⟨hfree c hc, fun h => hnul (by simp [← h, hc])⟩
        have hx0 : x ≠ 0 := fun h => hnul (by simp [h])
        have hleft : NulFree left := fun h => hnul (by simp [h])
        rw [tokensIn, strtokIn_token hlead hne htoken (Or.inl hx), if_neg hx0,
          ← List.append_assoc, rdropWhile_append_cons (by simp [hx]), List.append_assoc,
          tokens_append_delims hlead, tokens_append_cons_of_free hne hfree hx]
        change (tokensIn d n left).map (token :: ·) = _
        rw [ih hleft]
        by_cases hroom : n ≤ (tokens d (left.rdropWhile fun c => !d c)).length
        · simp [hroom]
        · simp [hroom]

/-- A scan for `n` tokens ends inside the buffer: it meets a NUL, or `n` tokens that a delimiter
ends. -/
def ScanEnds (d : UInt8 → Bool) (n : ℕ) (buf : Bytes) : Prop :=
  0 ∈ buf ∨ n ≤ (tokens d (buf.rdropWhile fun c => !d c)).length

/-- **What is found in a buffer**: the first tokens of the string it holds, when the scan ends. -/
theorem tokensIn_eq_some_iff (h0 : d 0 = false) (n : ℕ) (buf : Bytes) (ts : List Bytes) :
    tokensIn d n buf = some ts ↔ ScanEnds d n buf ∧ ts = (tokens d (cstr buf)).take n := by
  by_cases hnul : NulFree buf
  · have hfirst : n ≤ (tokens d (buf.rdropWhile fun c => !d c)).length →
        (tokens d (buf.rdropWhile fun c => !d c)).take n = (tokens d buf).take n := by
      intro hroom
      have hsplit := tokens_append d buf []
      rw [List.append_nil] at hsplit
      rw [hsplit, List.take_append_of_le_length hroom]
    have hscan : ScanEnds d n buf ↔ n ≤ (tokens d (buf.rdropWhile fun c => !d c)).length :=
      or_iff_right hnul
    rw [tokensIn_of_nulFree n hnul, cstr_of_nulFree hnul, hscan]
    split
    · rename_i hroom
      rw [hfirst hroom, Option.some.injEq]
      exact ⟨fun h => ⟨hroom, h.symm⟩, fun h => h.2.symm⟩
    · rename_i hroom
      exact ⟨fun h => absurd h (by simp), fun h => absurd h.1 hroom⟩
  · have hmem : 0 ∈ buf := not_not.mp hnul
    obtain ⟨text, rest, rfl, htext⟩ := List.eq_append_cons_of_mem hmem
    rw [tokensIn_append_nul h0 n htext, cstr_append_nul htext, Option.some.injEq]
    exact ⟨fun h => ⟨Or.inl hmem, h.symm⟩, fun h => h.2.symm⟩

end Buffer

/-! ### The line and what is behind it -/

/-- The delimiter of `strtok_r(_, " ")`. -/
abbrev isBlank (c : UInt8) : Bool := c == ch ' '

/-- What a line is parsed to by its own bytes: three tokens, each cut to its field. -/
def ownRequestLine (line : Bytes) (req : HttpRequest) : Option HttpRequest :=
  match tokens isBlank line with
  | [method, path, version] =>
      if line.length < 512 then some { req with
        method := method.take 7
        path := path.take 255
        version := version.take 15 }
      else none
  | _ => none

/-- What the array held behind a line. -/
def staleBytes (scratch : LineScratch) (line : Bytes) : Bytes := scratch.1.drop line.length

/-- What it adds to the last token of the line. -/
def continuation (line stale : Bytes) : Bytes :=
  if line.rtakeWhile (fun c => !isBlank c) = [] then []
  else (cstr stale).takeWhile fun c => !isBlank c

/-- The bytes behind a line make no difference: they add no third token to fewer, and nothing to
the part of the third one that is kept. -/
def OwnTokens (line stale : Bytes) : Prop :=
  ((tokens isBlank line).length < 3 ∧ (tokens isBlank (line ++ cstr stale)).length < 3) ∨
    ((tokens isBlank line).length = 3 ∧ (continuation line stale = [] ∨
      ∀ version ∈ (tokens isBlank line).getLast?, 15 ≤ version.length))

/-- The request that the first three tokens of some are stored in. -/
def storeTokens (req : HttpRequest) : List Bytes → Option HttpRequest
  | method :: path :: version :: _ => some { req with
      method := method.take 7
      path := path.take 255
      version := version.take 15 }
  | _ => none

theorem storeTokens_eq_none_iff {req : HttpRequest} {ts : List Bytes} :
    storeTokens req ts = none ↔ ts.length < 3 := by
  match ts with
  | [] => simp [storeTokens]
  | [_] => simp [storeTokens]
  | [_, _] => simp [storeTokens]
  | _ :: _ :: _ :: _ => simp [storeTokens]

theorem storeTokens_take (req : HttpRequest) (ts : List Bytes) :
    storeTokens req (ts.take 4) = storeTokens req ts := by
  match ts with
  | [] => rfl
  | [_] => rfl
  | [_, _] => rfl
  | _ :: _ :: _ :: _ => rfl

theorem ownRequestLine_of_three {line method path version : Bytes} (hlen : line.length < 512)
    (h : tokens isBlank line = [method, path, version]) (req : HttpRequest) :
    ownRequestLine line req = storeTokens req [method, path, version] := by
  rw [ownRequestLine, h]
  exact if_pos hlen

/-- A line that is too long or has not three tokens is not accepted. -/
theorem ownRequestLine_eq_none {line : Bytes}
    (h : 512 ≤ line.length ∨ (tokens isBlank line).length ≠ 3) (req : HttpRequest) :
    ownRequestLine line req = none := by
  rw [ownRequestLine]
  split
  · rename_i hthree
    rcases h with h | h
    · exact if_neg (not_lt.mpr h)
    · exact absurd (by rw [hthree]; rfl) h
  · rfl

/-- **What `parse_req_line` makes of a line** that fits its array: the first tokens of the line
and what is behind it, when the scan for four ends. -/
theorem parseReqLine_eq_some_iff {scratch : LineScratch} {text line rest : Bytes}
    (hnul : NulFree text) (hcut : cutAtStr crlf text = some (line, rest))
    (hlen : line.length < 512) {req : HttpRequest} {out : Option HttpRequest} :
    parseReqLine scratch text req = some out ↔
      ScanEnds isBlank 4 (line ++ staleBytes scratch line) ∧
        out = storeTokens req (tokens isBlank (line ++ cstr (staleBytes scratch line))) := by
  have hline : NulFree line := fun h =>
    hnul (by rw [(cutAtStr_eq_some hcut).1]; exact List.mem_append_left _ h)
  have hfound := tokensIn_eq_some_iff (d := isBlank) (by decide) 4
    (line ++ staleBytes scratch line)
  rw [cstr_append hline] at hfound
  have hrun : parseReqLine scratch text req =
      (tokensIn isBlank 4 (line ++ staleBytes scratch line)).map (storeTokens req) := by
    rw [parseReqLine, hcut]
    simp only [if_neg (not_le.mpr hlen)]
    change (tokensIn isBlank 4 (line ++ staleBytes scratch line)).bind _ = _
    cases tokensIn isBlank 4 (line ++ staleBytes scratch line) with
    | none => rfl
    | some ts =>
        rw [Option.bind_some, Option.map_some]
        rcases ts with _ | ⟨method, _ | ⟨path, _ | ⟨version, more⟩⟩⟩
        · rfl
        · rfl
        · rfl
        · rfl
  rw [hrun, Option.map_eq_some_iff]
  constructor
  · rintro ⟨ts, hts, rfl⟩
    obtain ⟨hends, rfl⟩ := (hfound ts).mp hts
    exact ⟨hends, storeTokens_take req _⟩
  · rintro ⟨hends, rfl⟩
    exact ⟨_, (hfound _).mpr ⟨hends, rfl⟩, storeTokens_take req _⟩

/-- **What is behind a line continues its last token**, unless a blank ends it. -/
theorem tokens_line_append {line version : Bytes} {ts : List Bytes}
    (h : tokens isBlank line = ts ++ [version]) (stale : Bytes) :
    ∃ more, tokens isBlank (line ++ cstr stale) =
      ts ++ (version ++ continuation line stale) :: more := by
  have hline := tokens_append isBlank line []
  rw [List.append_nil, List.append_nil, h] at hline
  have hall := tokens_append isBlank line (cstr stale)
  rw [continuation]
  split
  · rename_i hclosed
    rw [hclosed, tokens_nil, List.append_nil] at hline
    rw [hclosed, List.nil_append, ← hline, List.append_assoc] at hall
    exact ⟨_, by rw [hall, List.append_nil, List.singleton_append]⟩
  · rename_i hopen
    set last := line.rtakeWhile fun c => !isBlank c with hlast
    have hfree : ∀ c ∈ last, isBlank c = false := by
      intro c hc
      simpa using List.mem_rtakeWhile_imp hc
    rw [tokens_of_free hopen hfree] at hline
    obtain ⟨rfl, hversion⟩ := List.append_inj' hline rfl
    obtain rfl : last = version := (List.singleton_inj.mp hversion).symm
    have hsplit := List.takeWhile_append_dropWhile (p := fun c => !isBlank c) (l := cstr stale)
    set more := (cstr stale).takeWhile fun c => !isBlank c with hmore
    have hmoreFree : ∀ c ∈ last ++ more, isBlank c = false := by
      intro c hc
      rcases List.mem_append.mp hc with hc | hc
      · exact hfree c hc
      · simpa using List.all_eq_true.mp List.all_takeWhile c hc
    have hne : last ++ more ≠ [] := by simp [hopen]
    rw [hall]
    cases hrest : (cstr stale).dropWhile fun c => !isBlank c with
    | nil =>
        rw [hrest, List.append_nil] at hsplit
        exact ⟨[], by rw [← hsplit, tokens_of_free hne hmoreFree]⟩
    | cons x left =>
        have hx := List.head_dropWhile_not (fun c => !isBlank c) (l := cstr stale)
          (by rw [hrest]; simp)
        simp only [hrest, List.head_cons, Bool.not_eq_false'] at hx
        rw [hrest] at hsplit
        refine ⟨tokens isBlank left, ?_⟩
        rw [← hsplit, ← List.append_assoc, tokens_append_cons_of_free hne hmoreFree hx]

/-- **When what is behind a line makes no difference**: the first three tokens are those of the
line alone, as far as they are kept. -/
theorem storeTokens_eq_own_iff {line : Bytes} (hlen : line.length < 512) (stale : Bytes)
    (req : HttpRequest) :
    storeTokens req (tokens isBlank (line ++ cstr stale)) = ownRequestLine line req ↔
      OwnTokens line stale := by
  rcases Nat.lt_trichotomy (tokens isBlank line).length 3 with hcount | hcount | hcount
  · rw [ownRequestLine_eq_none (Or.inr hcount.ne) req, storeTokens_eq_none_iff]
    constructor
    · exact fun h => Or.inl ⟨hcount, h⟩
    · rintro (⟨-, h⟩ | ⟨h, -⟩)
      · exact h
      · exact absurd h hcount.ne
  · obtain ⟨method, path, version, hthree⟩ := List.length_eq_three.mp hcount
    obtain ⟨more, hmore⟩ := @tokens_line_append line version [method, path] hthree stale
    have hown : OwnTokens line stale ↔ continuation line stale = [] ∨ 15 ≤ version.length := by
      simp [OwnTokens, hthree]
    rw [ownRequestLine_of_three hlen hthree, hmore, hown]
    have hfields : storeTokens req
        ([method, path] ++ (version ++ continuation line stale) :: more) =
          storeTokens req [method, path, version] ↔
          (version ++ continuation line stale).take 15 = version.take 15 := by
      simp [storeTokens]
    rw [hfields]
    constructor
    · intro h
      have hlengths := congrArg List.length h
      rw [List.length_take, List.length_take, List.length_append] at hlengths
      rcases Nat.lt_or_ge version.length 15 with hshort | hlong
      · exact Or.inl (List.length_eq_zero_iff.mp (by omega))
      · exact Or.inr hlong
    · rintro (h | h)
      · rw [h, List.append_nil]
      · rw [List.take_append_of_le_length h]
  · rw [ownRequestLine_eq_none (Or.inr hcount.ne') req, storeTokens_eq_none_iff]
    have hne : tokens isBlank line ≠ [] := List.ne_nil_of_length_pos (by omega)
    obtain ⟨more, hmore⟩ :=
      tokens_line_append (List.dropLast_append_getLast hne).symm stale
    have hsplit := congrArg List.length (List.dropLast_append_getLast hne)
    rw [hmore]
    simp only [List.length_append, List.length_cons, List.length_nil] at hsplit ⊢
    refine iff_of_false (by omega) ?_
    rintro (⟨h, -⟩ | ⟨h, -⟩)
    · omega
    · omega

/-- **When a request line is parsed by its own bytes**: it is too long, or the scan for four
tokens ends in the array and what is behind the line makes no difference. A line of four tokens
or more never is. -/
theorem request_line_own_iff (scratch : LineScratch) {text line rest : Bytes}
    (hnul : NulFree text) (hcut : cutAtStr crlf text = some (line, rest)) (req : HttpRequest) :
    parseReqLine scratch text req = some (ownRequestLine line req) ↔
      512 ≤ line.length ∨ (ScanEnds isBlank 4 (line ++ staleBytes scratch line) ∧
        OwnTokens line (staleBytes scratch line)) := by
  rcases Nat.lt_or_ge line.length 512 with hlen | hlen
  · rw [parseReqLine_eq_some_iff hnul hcut hlen, eq_comm, storeTokens_eq_own_iff hlen,
      or_iff_right (not_le.mpr hlen)]
  · refine iff_of_true ?_ (Or.inl hlen)
    rw [ownRequestLine_eq_none (Or.inl hlen), parseReqLine, hcut]
    exact if_pos hlen

/-- An array that held a protocol version behind the first five bytes. -/
def versionScratch : LineScratch :=
  ⟨lit "GET / HTTP/1.1" ++ List.replicate 498 0, by
    rw [List.length_append, List.length_replicate]; rfl⟩

/-- **A line that is not parsed by its own bytes**: it has two tokens, and is accepted with the
version that was in the array. So is a line of four. -/
theorem stale_version_accepted :
    parseReqLine versionScratch (lit "GET /" ++ crlf) .zero = some (some { HttpRequest.zero with
        method := lit "GET"
        path := lit "/"
        version := lit "HTTP/1.1" }) ∧
      parseReqLine zeroLineScratch (lit "GET /" ++ crlf) .zero = some none ∧
      parseReqLine zeroLineScratch (lit "GET / HTTP/1.1 x" ++ crlf) .zero =
        some (some { HttpRequest.zero with
          method := lit "GET"
          path := lit "/"
          version := lit "HTTP/1.1" }) ∧
      ¬ ∀ scratch, parseReqLine scratch (lit "GET /" ++ crlf) .zero =
        some (ownRequestLine (lit "GET /") .zero) := by
  have haccepted : parseReqLine versionScratch (lit "GET /" ++ crlf) .zero =
      some (some { HttpRequest.zero with
        method := lit "GET"
        path := lit "/"
        version := lit "HTTP/1.1" }) := by decide +kernel
  refine ⟨haccepted, by decide +kernel, by decide +kernel, ?_⟩
  intro h
  have hown := h versionScratch
  rw [haccepted] at hown
  exact absurd hown (by decide)

/-- A line of three tokens over an empty array is its own. -/
theorem request_line_own_sample :
    parseReqLine zeroLineScratch (lit "GET / HTTP/1.1" ++ crlf) .zero =
      some (ownRequestLine (lit "GET / HTTP/1.1") .zero) := by
  refine (@request_line_own_iff zeroLineScratch (lit "GET / HTTP/1.1" ++ crlf) _ []
    (by decide) (by decide) .zero).mpr (.inr ⟨.inl ?_, .inr ⟨by decide, .inl ?_⟩⟩)
  · decide +kernel
  · decide +kernel

end CBank
