import CBank.RequestParser

/-!
# The Header Block

The loop of `parse_req_headers`, with what it writes to `headers_buf` and how it gets from line to
line. The buffer is as long as the headers up to the first empty line, found by one search; the
lines are found by others. A line as long as the whole block is cut by one byte: it is the only
one, and it loses the last character of its value.

## Main results

* `headerLoop_spec`: what the loop stores, writes and returns.
* `header_framing`: the loop stays in its buffer, and stops after the first empty line.
* `header_block_read_iff`: when a block of headers is stored as it was sent.
-/

namespace CBank

open CLib

/-! ### The loop -/

/-- The difference of two numbers of type `size_t`. -/
def sizeSub (a b : ℕ) : ℕ := if b ≤ a then a - b else a + 2 ^ 64 - b

/-- `line_len`, once it was compared with the length of the headers. -/
def copiedLen (headersLen lineLen : ℕ) : ℕ :=
  if headersLen ≤ lineLen then sizeSub headersLen 1 else lineLen

/-- What a run of the loop stores, the indices of `headers_buf` it writes, the values 1 is taken
from, and the position it returns. -/
structure HeaderRun where
  headers : List HttpHeader
  writes : List ℕ
  decremented : List ℕ
  position : ℕ

/-- The header a line in `headers_buf` is stored as, if it has a colon and finds a slot. -/
def storeHeader (headers : List HttpHeader) (headersBuf : Bytes) : List HttpHeader :=
  match cutAt (ch ':') headersBuf with
  | none => headers
  | some (key, value) =>
      if headers.length < maxHeaders then
        headers ++ [⟨key.take (maxKeyLen - 1),
          (value.dropWhile (· == ch ' ')).take (maxValueLen - 1)⟩]
      else headers

/-- The indices of `headers_buf` that a line is copied to, with the NUL after it and the NUL in
the place of its colon. -/
def lineWrites (headersBuf : Bytes) : List ℕ :=
  List.range (headersBuf.length + 1) ++
    match cutAt (ch ':') headersBuf with
    | none => []
    | some (key, _) => [key.length]

/-- The loop of `parse_req_headers`, from the line that starts at `position` on. -/
def headerLoop (headersLen : ℕ) (reqLine : Bytes) (position : ℕ) (headers : List HttpHeader) :
    HeaderRun :=
  match hcut : cutAtStr crlf reqLine with
  | none => ⟨headers, [], [], position⟩
  | some (line, rest) =>
      if line.length = 0 then ⟨headers, [], [], position + 2⟩
      else
        let headersBuf := reqLine.take (copiedLen headersLen line.length)
        let run := headerLoop headersLen rest (position + line.length + 2)
          (storeHeader headers headersBuf)
        { run with
          writes := lineWrites headersBuf ++ run.writes
          decremented := (if headersLen ≤ line.length then [headersLen] else []) ++
            run.decremented }
termination_by reqLine.length
decreasing_by
  have hlen := congrArg List.length (cutAtStr_eq_some hcut).1
  simp only [List.length_append, crlf, List.length_cons, List.length_nil] at hlen
  omega

/-- `parse_req_headers` on a zeroed request, for a text with an empty line. -/
def headerRun (headerStart : Bytes) : Option HeaderRun :=
  (cutAtStr (crlf ++ crlf) headerStart).map fun (headers, _) =>
    headerLoop headers.length headerStart 0 []

/-! ### What one line does -/

theorem sizeSub_one {n : ℕ} (h : 0 < n) : sizeSub n 1 = n - 1 := if_pos h

/-- A line is copied as far as there is room for the NUL after it. -/
theorem take_copiedLen {headersLen : ℕ} (hpos : 0 < headersLen) (line rest : Bytes) :
    (line ++ rest).take (copiedLen headersLen line.length) =
      if headersLen ≤ line.length then line.take (headersLen - 1) else line := by
  rw [copiedLen]
  split
  · rw [sizeSub_one hpos, List.take_append_of_le_length (by omega)]
  · exact List.take_left

/-- **Where a line is written**: at indices below the length of the headers. -/
theorem lineWrites_lt {headersLen : ℕ} (hpos : 0 < headersLen) (line rest : Bytes) :
    ∀ i ∈ lineWrites ((line ++ rest).take (copiedLen headersLen line.length)),
      i < headersLen := by
  have hlen : ((line ++ rest).take (copiedLen headersLen line.length)).length < headersLen := by
    rw [take_copiedLen hpos]
    split
    · rw [List.length_take]
      omega
    · omega
  set headersBuf := (line ++ rest).take (copiedLen headersLen line.length)
  intro i hi
  rcases List.mem_append.mp hi with hcopied | hcolon
  · rw [List.mem_range] at hcopied
    omega
  · cases hcut : cutAt (ch ':') headersBuf with
    | none =>
        rw [hcut] at hcolon
        exact absurd hcolon List.not_mem_nil
    | some pair =>
        rw [hcut] at hcolon
        obtain rfl : i = pair.1.length := List.mem_singleton.mp hcolon
        have hsplit := congrArg List.length (cutAt_eq_some_iff.mp hcut).1
        rw [List.length_append, List.length_cons] at hsplit
        omega

/-- Elements past the end are dropped at once or one list at a time. -/
theorem take_take_append {α : Type*} (n : ℕ) (l l' : List α) :
    (l.take n ++ l').take n = (l ++ l').take n := by
  rcases le_total l.length n with h | h
  · rw [List.take_of_length_le h]
  · have hlen : (l.take n).length = n := by
      rw [List.length_take]
      omega
    rw [List.take_append_of_le_length (by omega), List.take_append_of_le_length h,
      List.take_take, min_self]

/-- What one line leaves in a list of headers. -/
theorem storeHeader_eq {headersLen : ℕ} (hpos : 0 < headersLen) (line rest : Bytes)
    {headers : List HttpHeader} (h : headers.length ≤ maxHeaders) :
    storeHeader headers ((line ++ rest).take (copiedLen headersLen line.length)) =
      (headers ++ (parseHeaderLine headersLen line).toList).take maxHeaders := by
  rw [take_copiedLen hpos, storeHeader, parseHeaderLine]
  set headersBuf := if headersLen ≤ line.length then line.take (headersLen - 1) else line
  cases cutAt (ch ':') headersBuf with
  | none => simp [List.take_of_length_le h]
  | some pair =>
      simp only [Option.map_some, Option.toList_some]
      split
      · refine (List.take_of_length_le ?_).symm
        rw [List.length_append, List.length_singleton]
        omega
      · rw [List.take_append_of_le_length (by omega), List.take_of_length_le h]

/-- One round of the loop, at a line that is not empty. -/
theorem headerLoop_line {headersLen : ℕ} {text line rest : Bytes}
    (hcut : cutAtStr crlf text = some (line, rest)) (hline : line ≠ []) (position : ℕ)
    (headers : List HttpHeader) :
    let headersBuf := text.take (copiedLen headersLen line.length)
    let run := headerLoop headersLen rest (position + line.length + 2)
      (storeHeader headers headersBuf)
    headerLoop headersLen text position headers = { run with
      writes := lineWrites headersBuf ++ run.writes
      decremented := (if headersLen ≤ line.length then [headersLen] else []) ++
        run.decremented } := by
  have hlen : line.length ≠ 0 := fun h => hline (List.length_eq_zero_iff.mp h)
  rw [headerLoop]
  split
  · rename_i hnone
    rw [hcut] at hnone
    simp at hnone
  · rename_i line' rest' hcut'
    rw [hcut] at hcut'
    obtain ⟨rfl, rfl⟩ := Prod.mk.inj (Option.some.inj hcut')
    rw [if_neg hlen]

/-- The last round, at an empty line. -/
theorem headerLoop_stop (headersLen : ℕ) (rest : Bytes) (position : ℕ)
    (headers : List HttpHeader) :
    headerLoop headersLen (crlf ++ rest) position headers = ⟨headers, [], [], position + 2⟩ := by
  have hcut : cutAtStr crlf (crlf ++ rest) = some ([], rest) := by
    rw [cutAtStr, strstr_of_starts (List.prefix_append _ _), Option.map_some]
    simp
  rw [headerLoop]
  split
  · rename_i hnone
    rw [hcut] at hnone
    simp at hnone
  · rename_i line rest' hcut'
    rw [hcut] at hcut'
    obtain ⟨rfl, rfl⟩ := Prod.mk.inj (Option.some.inj hcut')
    rfl

/-- What the loop does from a position on, up to the first empty line: it stores the headers of the
lines, as far as there are slots, writes below the length of the headers, and takes 1 from no 0. -/
structure HeaderRun.Reads (run : HeaderRun) (headersLen : ℕ) (text : Bytes) (position : ℕ)
    (headers : List HttpHeader) : Prop where
  stored : run.headers = (headers ++ ((splitPair 13 newline text).takeWhile (· ≠ [])).filterMap
    (parseHeaderLine headersLen)).take maxHeaders
  returned : run.position = position + headersEnd (splitPair 13 newline text)
  inside : ∀ i ∈ run.writes, i < headersLen
  positive : ∀ n ∈ run.decremented, 0 < n

/-- The last round stores nothing. -/
theorem reads_stop (headersLen : ℕ) (rest : Bytes) (position : ℕ) {headers : List HttpHeader}
    (hslots : headers.length ≤ maxHeaders) :
    (headerLoop headersLen (crlf ++ rest) position headers).Reads headersLen (crlf ++ rest)
      position headers := by
  have hlines : splitPair 13 newline (crlf ++ rest) = [] :: splitPair 13 newline rest := rfl
  rw [headerLoop_stop]
  refine ⟨?_, ?_, by simp, by simp⟩
  · simp [hlines, List.take_of_length_le hslots]
  · rw [hlines, headersEnd, if_pos rfl]

/-- A round at a line that is not empty, before a run that reads the rest. -/
theorem reads_line {headersLen : ℕ} (hpos : 0 < headersLen) {text line rest : Bytes}
    (hcut : cutAtStr crlf text = some (line, rest)) (hline : line ≠ []) {position : ℕ}
    {headers : List HttpHeader}
    (h : (headerLoop headersLen rest (position + line.length + 2)
      (storeHeader headers (text.take (copiedLen headersLen line.length)))).Reads headersLen rest
        (position + line.length + 2)
        ((headers ++ (parseHeaderLine headersLen line).toList).take maxHeaders)) :
    (headerLoop headersLen text position headers).Reads headersLen text position headers := by
  have htext := (cutAtStr_eq_some hcut).1
  rw [headerLoop_line hcut hline]
  refine ⟨?_, ?_, ?_, ?_⟩
  · rw [splitPair_of_cut hcut, List.takeWhile_cons_of_pos (by simpa using hline),
      List.filterMap_cons]
    refine h.stored.trans ?_
    rw [take_take_append, List.append_assoc]
    cases parseHeaderLine headersLen line with
    | none => rfl
    | some header => rfl
  · rw [splitPair_of_cut hcut, headersEnd, if_neg hline]
    refine h.returned.trans ?_
    omega
  · intro i hi
    rcases List.mem_append.mp hi with hi | hi
    · rw [htext] at hi
      exact lineWrites_lt hpos line _ i hi
    · exact h.inside i hi
  · intro n hn
    rcases List.mem_append.mp hn with hn | hn
    · split at hn
      · rw [List.mem_singleton.mp hn]
        exact hpos
      · exact absurd hn List.not_mem_nil
    · exact h.positive n hn

/-- **What the loop does** up to the first empty line. Induction along the lines before it. -/
theorem headerLoop_spec {headersLen : ℕ} (hpos : 0 < headersLen) {text : Bytes}
    (h : crlf ++ crlf <:+: crlf ++ text) : ∀ (position : ℕ) (headers : List HttpHeader),
      headers.length ≤ maxHeaders →
        (headerLoop headersLen text position headers).Reads headersLen text position headers := by
  refine emptyLine_induction (P := fun text => ∀ (position : ℕ) (headers : List HttpHeader),
    headers.length ≤ maxHeaders →
      (headerLoop headersLen text position headers).Reads headersLen text position headers) h
    (fun rest position headers hslots => reads_stop headersLen rest position hslots) ?_
  intro text line rest hcut hline ih position headers hslots
  have hstored := storeHeader_eq hpos line (crlf ++ rest) hslots
  rw [← (cutAtStr_eq_some hcut).1] at hstored
  refine reads_line hpos hcut hline ?_
  rw [hstored]
  exact ih _ _ (List.length_take_le _ _)

/-! ### Where the loop returns -/

variable {text before after : Bytes}

/-- **Where the first empty line ends**, from the lengths of the lines before it. -/
theorem headersEnd_eq (h : FirstOccurrence (crlf ++ crlf) text before after) :
    headersEnd (splitPair 13 newline text) =
      if crlf <+: text then 2 else before.length + 4 := by
  split
  · rename_i hstarts
    obtain ⟨rest, rfl⟩ := hstarts
    rfl
  · rename_i hstarts
    have hin : crlf ++ crlf <:+: text := ⟨before, after, h.1.symm⟩
    obtain ⟨hfound, hle⟩ := strstr_headersEnd (hin.trans (List.suffix_append crlf text).isInfix)
    cases hcut : cutAtStr crlf text with
    | none =>
        rw [cutAtStr_eq_none_iff, strstr_eq_none_iff] at hcut
        exact absurd ((List.prefix_append crlf crlf).isInfix.trans hin) hcut
    | some cut =>
        obtain ⟨line, rest⟩ := cut
        have hline : line ≠ [] := by
          rintro rfl
          exact hstarts ⟨rest, (cutAtStr_eq_some hcut).1.symm⟩
        rw [(strstr_emptyLine_of_line hcut hline).1, h.strstr_eq, Option.some.injEq] at hfound
        have hafter := congrArg List.length (List.append_cancel_left hfound)
        have htext := congrArg List.length h.1
        rw [List.length_drop] at hafter
        simp only [List.length_append, crlf, List.length_cons, List.length_nil] at htext
        omega

/-- What the loop does to a text with an empty line. -/
theorem headerRun_spec (h : FirstOccurrence (crlf ++ crlf) text before after) :
    ∃ run, headerRun text = some run ∧
      run.headers = (((splitPair 13 newline text).takeWhile (· ≠ [])).filterMap
        (parseHeaderLine before.length)).take maxHeaders ∧
      run.position = headersEnd (splitPair 13 newline text) ∧
      (∀ i ∈ run.writes, i ≤ before.length) ∧ ∀ n ∈ run.decremented, 0 < n := by
  refine ⟨headerLoop before.length text 0 [], by rw [headerRun, h.cutAtStr_eq]; rfl, ?_⟩
  have hin : crlf ++ crlf <:+: text := ⟨before, after, h.1.symm⟩
  by_cases hbefore : before = []
  · -- no line is copied: the text starts with an empty one
    have htext : text = crlf ++ (crlf ++ after) := by
      rw [h.1, hbefore, List.nil_append, List.append_assoc]
    have hlines : splitPair 13 newline (crlf ++ (crlf ++ after)) =
        [] :: splitPair 13 newline (crlf ++ after) := rfl
    simp only [htext, headerLoop_stop, hlines, headersEnd, if_true]
    exact ⟨by simp, trivial, by simp, by simp⟩
  · have hpos : 0 < before.length := List.length_pos_of_ne_nil hbefore
    have hreads := headerLoop_spec hpos
      (hin.trans (List.suffix_append crlf text).isInfix) 0 [] (Nat.zero_le _)
    exact ⟨hreads.stored, hreads.returned.trans (Nat.zero_add _),
      fun i hi => (hreads.inside i hi).le, hreads.positive⟩

/-- **The loop is `parse_req_headers`**: it stores the same headers and returns the same place. -/
theorem parseReqHeaders_eq_headerRun (text : Bytes) :
    parseReqHeaders text = (((headerRun text).map HeaderRun.headers).getD [],
      (headerRun text).map HeaderRun.position) := by
  cases hcut : cutAtStr (crlf ++ crlf) text with
  | none => rw [parseReqHeaders, headerRun, hcut]; rfl
  | some cut =>
      obtain ⟨before, after, hfirst⟩ : ∃ before after,
          FirstOccurrence (crlf ++ crlf) text before after := by
        refine exists_firstOccurrence ⟨cut.1, cut.2, ?_⟩
        rw [List.append_assoc]
        exact (cutAtStr_eq_some hcut).1.symm
      obtain ⟨run, hrun, hheaders, hposition, -, -⟩ := headerRun_spec hfirst
      rw [parseReqHeaders, hfirst.cutAtStr_eq, hrun]
      simp only [Option.map_some, Option.getD_some, hheaders, hposition]

/-- **Header framing is safe and exact**: on a text with an empty line the loop ends, writes
`headers_buf` at indices up to the length of the headers, takes 1 from no 0, stores as many
headers as there are slots, and returns the position after the first empty line. -/
theorem header_framing {text : Bytes} (hempty : crlf ++ crlf <:+: text) :
    ∃ before after run, FirstOccurrence (crlf ++ crlf) text before after ∧
      headerRun text = some run ∧ (∀ i ∈ run.writes, i ≤ before.length) ∧
      (∀ n ∈ run.decremented, 0 < n) ∧ run.headers.length ≤ maxHeaders ∧
      run.position = if crlf <+: text then 2 else before.length + 4 := by
  obtain ⟨before, after, hfirst⟩ := exists_firstOccurrence hempty
  obtain ⟨run, hrun, hheaders, hposition, hwrites, hdecremented⟩ := headerRun_spec hfirst
  refine ⟨before, after, run, hfirst, hrun, hwrites, hdecremented, ?_, ?_⟩
  · rw [hheaders]
    exact List.length_take_le _ _
  · rw [hposition, headersEnd_eq hfirst]

/-- Two headers, one of them without a colon, and a body. -/
theorem header_framing_sample :
    ∃ before after run,
      FirstOccurrence (crlf ++ crlf) (lit "Host: bank" ++ crlf ++ lit "x" ++ crlf ++ crlf)
        before after ∧
      headerRun (lit "Host: bank" ++ crlf ++ lit "x" ++ crlf ++ crlf) = some run ∧
      (∀ i ∈ run.writes, i ≤ before.length) ∧ (∀ n ∈ run.decremented, 0 < n) ∧
      run.headers.length ≤ maxHeaders ∧
      run.position =
        if crlf <+: lit "Host: bank" ++ crlf ++ lit "x" ++ crlf ++ crlf then 2
        else before.length + 4 :=
  header_framing ⟨lit "Host: bank" ++ crlf ++ lit "x", [], by decide⟩

/-! ### Blocks of headers -/

/-- A header as the line a client sends. -/
def headerLine (header : HttpHeader) : Bytes := header.key ++ ch ':' :: ch ' ' :: header.value

/-- The lines of some headers, closed by an empty one. -/
def headerBlock : List HttpHeader → Bytes
  | [] => crlf
  | header :: headers => headerLine header ++ (crlf ++ headerBlock headers)

/-- A header that fits its arrays: a key without colons, and a value that does not start with a
blank, both of one line. -/
structure WellFormedHeader (header : HttpHeader) : Prop where
  key_ne : header.key ≠ []
  key_short : header.key.length ≤ 127
  key_free : ∀ c ∈ header.key, c ≠ ch ':' ∧ c ≠ 13 ∧ c ≠ newline
  value_short : header.value.length ≤ 1023
  value_free : ∀ c ∈ header.value, c ≠ 13 ∧ c ≠ newline
  value_start : header.value.head? ≠ some (ch ' ')

variable {header : HttpHeader} {headers : List HttpHeader}

theorem headerLine_ne_nil (header : HttpHeader) : headerLine header ≠ [] := by
  simp [headerLine]

/-- A line is cut at the `CRLF` after it. -/
theorem WellFormedHeader.cutAtStr_eq (h : WellFormedHeader header) (rest : Bytes) :
    cutAtStr crlf (headerLine header ++ (crlf ++ rest)) = some (headerLine header, rest) := by
  have hline : 13 ∉ headerLine header := by
    intro hmem
    rcases List.mem_append.mp hmem with hkey | hrest
    · exact (h.key_free _ hkey).2.1 rfl
    · simp only [List.mem_cons] at hrest
      rcases hrest with hcolon | hblank | hvalue
      · exact absurd hcolon (by decide)
      · exact absurd hblank (by decide)
      · exact (h.value_free _ hvalue).1 rfl
  have hfound : strstr crlf (headerLine header ++ (crlf ++ rest)) = some (crlf ++ rest) := by
    rw [crlf, strstr_append_of_not_mem hline]
    exact strstr_of_starts (List.prefix_append _ _)
  rw [cutAtStr, hfound, Option.map_some, List.length_append, Nat.add_sub_cancel, List.take_left,
    List.drop_left]

/-- **The lines of a block** are those of its headers and an empty one. Induction along the
headers. -/
theorem splitPair_headerBlock (hwf : ∀ header ∈ headers, WellFormedHeader header)
    (rest : Bytes) : splitPair 13 newline (headerBlock headers ++ rest) =
      headers.map headerLine ++ [] :: splitPair 13 newline rest := by
  induction headers with
  | nil => rfl
  | cons header headers ih =>
      have hcut := (hwf header List.mem_cons_self).cutAtStr_eq (headerBlock headers ++ rest)
      rw [headerBlock, List.append_assoc, List.append_assoc, splitPair_of_cut hcut,
        ih fun h hh => hwf h (List.mem_cons_of_mem _ hh), List.map_cons, List.cons_append]

/-- The loop over the lines stops at the end of the block. Induction along the headers. -/
theorem headersEnd_headerBlock (headers : List HttpHeader) (lines : List Bytes) :
    headersEnd (headers.map headerLine ++ [] :: lines) = (headerBlock headers).length := by
  induction headers with
  | nil => rfl
  | cons header headers ih =>
      rw [List.map_cons, List.cons_append, headersEnd, if_neg (headerLine_ne_nil header), ih,
        headerBlock, List.length_append, List.length_append, Nat.add_assoc]
      rfl

theorem takeWhile_headerLines (headers : List HttpHeader) (lines : List Bytes) :
    (headers.map headerLine ++ [] :: lines).takeWhile (· ≠ []) = headers.map headerLine := by
  rw [List.takeWhile_append_of_pos]
  · simp
  · intro line hmem
    obtain ⟨header, -, rfl⟩ := List.mem_map.mp hmem
    simpa using headerLine_ne_nil header

/-- **A block ends in its first empty line.** -/
theorem firstOccurrence_headerBlock (hne : headers ≠ [])
    (hwf : ∀ header ∈ headers, WellFormedHeader header) :
    ∃ before, FirstOccurrence (crlf ++ crlf) (headerBlock headers) before [] ∧
      before.length + 4 = (headerBlock headers).length := by
  have hin : ∀ headers : List HttpHeader, headers ≠ [] →
      crlf ++ crlf <:+: headerBlock headers := by
    intro headers
    induction headers with
    | nil => exact fun h => absurd rfl h
    | cons header headers ih =>
        intro _
        rw [headerBlock]
        cases headers with
        | nil => exact ⟨headerLine header, [], by simp [headerBlock]⟩
        | cons next headers =>
            exact ((ih (by simp)).trans (List.suffix_append crlf _).isInfix).trans
              (List.suffix_append _ _).isInfix
  obtain ⟨before, after, hfirst⟩ := exists_firstOccurrence (hin headers hne)
  have hstarts : ¬ crlf <+: headerBlock headers := by
    obtain ⟨header, headers, rfl⟩ := List.exists_cons_of_ne_nil hne
    have hwf' := hwf header List.mem_cons_self
    obtain ⟨c, key, hkey⟩ := List.exists_cons_of_ne_nil hwf'.key_ne
    rw [headerBlock, headerLine, hkey, List.cons_append, List.cons_append, crlf,
      List.cons_prefix_cons]
    exact fun h => (hwf'.key_free c (by rw [hkey]; exact List.mem_cons_self)).2.1 h.1.symm
  have hend := headersEnd_eq hfirst
  have hlines := splitPair_headerBlock hwf []
  rw [List.append_nil] at hlines
  rw [if_neg hstarts, hlines, headersEnd_headerBlock] at hend
  have hafter : after = [] := by
    have hlen := congrArg List.length hfirst.1
    simp only [List.length_append, crlf, List.length_cons, List.length_nil] at hlen
    exact List.length_eq_zero_iff.mp (by omega)
  subst hafter
  exact ⟨before, hfirst, hend.symm⟩

/-! ### What is stored of a block -/

/-- The value behind a colon and a blank. -/
theorem WellFormedHeader.dropWhile_value (h : WellFormedHeader header) :
    (ch ' ' :: header.value).dropWhile (· == ch ' ') = header.value := by
  have hstart := h.value_start
  cases hvalue : header.value with
  | nil => rfl
  | cons c value =>
      rw [hvalue, List.head?_cons, Ne, Option.some.injEq] at hstart
      simp [hstart]

/-- A line shorter than the block is stored whole. -/
theorem WellFormedHeader.parseHeaderLine_eq (h : WellFormedHeader header) {headersLen : ℕ}
    (hlen : (headerLine header).length < headersLen) :
    parseHeaderLine headersLen (headerLine header) = some header := by
  have hcolon : ch ':' ∉ header.key := fun hmem => (h.key_free _ hmem).1 rfl
  rw [parseHeaderLine]
  simp only [if_neg (not_le.mpr hlen)]
  rw [headerLine, cutAt_append_cons hcolon, Option.map_some]
  have hkey : header.key.take (maxKeyLen - 1) = header.key := List.take_of_length_le h.key_short
  have hvalue : header.value.take (maxValueLen - 1) = header.value :=
    List.take_of_length_le h.value_short
  simp only [h.dropWhile_value, hkey, hvalue]

/-- **A line as long as the block** loses its last character, which is the blank when the value
is empty. -/
theorem WellFormedHeader.parseHeaderLine_whole (h : WellFormedHeader header) :
    parseHeaderLine (headerLine header).length (headerLine header) = some header ↔
      header.value = [] := by
  have hcolon : ch ':' ∉ header.key := fun hmem => (h.key_free _ hmem).1 rfl
  have hcut : (headerLine header).take ((headerLine header).length - 1) =
      header.key ++ ch ':' :: (ch ' ' :: header.value).dropLast := by
    rw [← List.dropLast_eq_take, headerLine, List.dropLast_append_of_ne_nil (by simp),
      List.dropLast_cons_of_ne_nil (by simp)]
  rw [parseHeaderLine]
  simp only [le_refl, if_true]
  rw [hcut, cutAt_append_cons hcolon, Option.map_some, Option.some.injEq]
  constructor
  · intro hstored
    have hvalue : ((ch ' ' :: header.value).dropLast.dropWhile (· == ch ' ')).take
        (maxValueLen - 1) = header.value := congrArg HttpHeader.value hstored
    by_contra hne
    rw [List.dropLast_cons_of_ne_nil hne] at hvalue
    have hlen := congrArg List.length hvalue
    have hpos := List.length_pos_of_ne_nil hne
    have hdrop : ((ch ' ' :: header.value.dropLast).dropWhile (· == ch ' ')).length ≤
        header.value.length - 1 := by
      rw [List.dropWhile_cons_of_pos (by simp), ← List.length_dropLast]
      exact (List.dropWhile_suffix _).length_le
    rw [List.length_take] at hlen
    omega
  · intro hvalue
    cases header with
    | mk key value =>
        obtain rfl : value = [] := hvalue
        simp only [List.dropLast_singleton, List.dropWhile_nil, List.take_nil,
          HttpHeader.mk.injEq, and_true]
        exact List.take_of_length_le h.key_short

/-- **What `parse_req_headers` stores of a block** that is received whole. -/
theorem parseReqHeaders_headerBlock (hne : headers ≠ [])
    (hwf : ∀ header ∈ headers, WellFormedHeader header) (rest : Bytes) :
    (parseReqHeaders (headerBlock headers ++ rest)).1 =
      ((headers.map headerLine).filterMap
        (parseHeaderLine ((headerBlock headers).length - 4))).take maxHeaders := by
  obtain ⟨before, hfirst, hlen⟩ := firstOccurrence_headerBlock hne hwf
  have hbefore : before.length = (headerBlock headers).length - 4 := by omega
  have hlines := takeWhile_headerLines headers (splitPair 13 newline rest)
  rw [parseReqHeaders, (hfirst.append_right rest).cutAtStr_eq, splitPair_headerBlock hwf]
  simp only [hlines, hbefore]

/-- A line is shorter than its block, by two bytes for each line and for the end. Induction along
the headers. -/
theorem length_headerLine_le {headers : List HttpHeader} : ∀ header ∈ headers,
    (headerLine header).length + 2 * headers.length + 2 ≤ (headerBlock headers).length := by
  have hends : ∀ headers : List HttpHeader,
      2 * headers.length + 2 ≤ (headerBlock headers).length := by
    intro headers
    induction headers with
    | nil => decide
    | cons header headers ih =>
        simp only [headerBlock, List.length_append, List.length_cons, crlf, List.length_nil]
        omega
  induction headers with
  | nil => simp
  | cons next headers ih =>
      intro header hmem
      have hrest := hends headers
      simp only [headerBlock, List.length_append, List.length_cons, crlf, List.length_nil]
      rcases List.mem_cons.mp hmem with rfl | hmem
      · omega
      · have := ih header hmem
        omega

/-- **Two or more headers are all read.** -/
theorem filterMap_parseHeaderLine (hwf : ∀ header ∈ headers, WellFormedHeader header)
    (hmany : 2 ≤ headers.length) :
    (headers.map headerLine).filterMap (parseHeaderLine ((headerBlock headers).length - 4)) =
      headers := by
  have hread : ∀ header ∈ headers,
      (parseHeaderLine ((headerBlock headers).length - 4) ∘ headerLine) header =
        some header := by
    intro header hmem
    have := length_headerLine_le header hmem
    exact (hwf header hmem).parseHeaderLine_eq (by omega)
  rw [List.filterMap_map, List.filterMap_congr (g := some) hread, List.filterMap_some]

/-- **A block with a NUL** ends before its empty line, and no header is stored. -/
theorem parseReqHeaders_of_nul (hne : headers ≠ [])
    (hwf : ∀ header ∈ headers, WellFormedHeader header) (hnul : ¬ NulFree (headerBlock headers))
    (rest : Bytes) : (parseReqHeaders (cstr (headerBlock headers ++ rest))).1 = [] := by
  rw [NulFree, not_not] at hnul
  obtain ⟨seen, unseen, hsplit, hseen⟩ := List.eq_append_cons_of_mem hnul
  have hnone : cutAtStr (crlf ++ crlf) seen = none := by
    rw [cutAtStr_eq_none_iff, strstr_eq_none_iff]
    intro hin
    obtain ⟨before, after, hfirst⟩ := exists_firstOccurrence hin
    obtain ⟨before', hblock, hlen⟩ := firstOccurrence_headerBlock hne hwf
    have hfirst' := hfirst.append_right (0 :: unseen)
    rw [← hsplit] at hfirst'
    obtain rfl := (hfirst'.unique hblock).1
    -- the empty line ends the block, and the NUL comes before it
    have hseenLen := congrArg List.length hfirst.1
    have hblockLen := congrArg List.length hsplit
    simp only [List.length_append, crlf, List.length_cons, List.length_nil] at hseenLen hblockLen
    omega
  rw [hsplit, List.append_assoc, List.cons_append, cstr_append_nul hseen, parseReqHeaders, hnone]

/-- **When headers are read exactly**: a block of well-formed headers is stored as it was sent,
as far as there are slots, exactly when no NUL ends it early and it is not a single header with a
value. -/
theorem header_block_read_iff {headers : List HttpHeader} (hne : headers ≠ [])
    (hwf : ∀ header ∈ headers, WellFormedHeader header) (rest : Bytes) :
    (parseReqHeaders (cstr (headerBlock headers ++ rest))).1 =
        headers.take (min headers.length maxHeaders) ↔
      NulFree (headerBlock headers) ∧
        (headers.length ≠ 1 ∨ ∀ header ∈ headers, header.value = []) := by
  have htake : headers.take (min headers.length maxHeaders) = headers.take maxHeaders := by
    rw [List.take_eq_take_iff]
    omega
  rw [htake]
  by_cases hnul : NulFree (headerBlock headers)
  · rw [cstr_append hnul, parseReqHeaders_headerBlock hne hwf]
    by_cases hone : headers.length = 1
    · obtain ⟨header, rfl⟩ := List.length_eq_one_iff.mp hone
      have hwhole := (hwf header List.mem_cons_self).parseHeaderLine_whole
      have hlen : (headerBlock [header]).length - 4 = (headerLine header).length := by
        simp only [headerBlock, List.length_append, crlf, List.length_cons, List.length_nil]
        omega
      simp only [hnul, hone, hlen, true_and, ne_eq, not_true, false_or, List.mem_singleton,
        forall_eq, ← hwhole, List.map_cons, List.map_nil]
      cases hparsed : parseHeaderLine (headerLine header).length (headerLine header) with
      | none => simp [hparsed]
      | some stored => simp [hparsed]
    · have hmany : 2 ≤ headers.length := by
        have := List.length_pos_of_ne_nil hne
        omega
      rw [filterMap_parseHeaderLine hwf hmany]
      exact iff_of_true rfl ⟨hnul, Or.inl hone⟩
  · rw [parseReqHeaders_of_nul hne hwf hnul]
    refine iff_of_false ?_ fun h => hnul h.1
    intro hstored
    rcases List.take_eq_nil_iff.mp hstored.symm with h | h
    · exact absurd h (by decide)
    · exact hne h

/-- **A header that loses a character**: it is the only one of its block. -/
theorem single_header_cut :
    WellFormedHeader ⟨lit "Host", lit "bank"⟩ ∧
      (parseReqHeaders (cstr (headerBlock [⟨lit "Host", lit "bank"⟩]))).1 =
        [⟨lit "Host", lit "ban"⟩] ∧
      ¬ (parseReqHeaders (cstr (headerBlock [⟨lit "Host", lit "bank"⟩]))).1 =
        [⟨lit "Host", lit "bank"⟩].take (min 1 maxHeaders) := by
  have hstored : (parseReqHeaders (cstr (headerBlock [⟨lit "Host", lit "bank"⟩]))).1 =
      [⟨lit "Host", lit "ban"⟩] := by decide +kernel
  refine ⟨⟨by decide, by decide, by decide +kernel, by decide, by decide +kernel, by decide⟩,
    hstored, ?_⟩
  rw [hstored]
  decide

/-- A block of two headers is read back. -/
theorem header_block_read_two :
    (parseReqHeaders (cstr (headerBlock [⟨lit "Host", lit "bank"⟩, ⟨lit "Accept", lit "*"⟩] ++
        lit "body"))).1 =
      [⟨lit "Host", lit "bank"⟩, ⟨lit "Accept", lit "*"⟩].take (min 2 maxHeaders) := by
  refine (@header_block_read_iff [⟨lit "Host", lit "bank"⟩, ⟨lit "Accept", lit "*"⟩] (by simp)
    ?_ (lit "body")).mpr ⟨by decide, .inl (by decide)⟩
  intro header hmem
  simp only [List.mem_cons, List.not_mem_nil, or_false] at hmem
  rcases hmem with rfl | rfl
  · exact ⟨by decide, by decide, by decide +kernel, by decide, by decide +kernel, by decide⟩
  · exact ⟨by decide, by decide, by decide +kernel, by decide, by decide +kernel, by decide⟩

end CBank
