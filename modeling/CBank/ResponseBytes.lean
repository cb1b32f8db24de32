import CBank.Answers
import CBank.CLib.Printing

/-!
# The Bytes of a Response

`send_http_response` prints the status line, the headers and an empty line into `header_buf` with
a running offset, sends as many bytes of it as the offset says, and then the body. Nothing
compares the offset with the size of the buffer. Up to 32 headers of up to 1150 bytes can be added
to a response, so the offset passes the 2048 bytes of the buffer, and then `snprintf` gets a size
that wrapped around; a head of exactly 2048 bytes loses its last byte to the NUL.

The status of a response is any `int` here: one that is no enumerator has the text `Unknown`.

## Main results

* `headers_foldl_addResHeader`: the headers that calls of `add_res_header` store.
* `sendHeader_eq_sendHttpResponse`: the bytes that are sent, from the buffer and from the text.
* `sendsComplete_iff`: when a response is sent complete, inside the buffer.
-/

namespace CBank

open CLib

/-! ### The response -/

/-- The enumerators of `HttpStatusCode`. -/
def HttpStatusCode.all : List HttpStatusCode :=
  [.ok, .noContent, .badRequest, .notFound, .internalServerError, .methodNotAllowed, .created,
    .forbidden, .unauthorized, .redirect]

/-- `get_status_text`, of any value of its argument. -/
def getStatusTextOf (code : ℤ) : Bytes :=
  ((HttpStatusCode.all.find? fun status => (status.code : ℤ) = code).map getStatusText).getD
    (lit "Unknown")

/-- `make_res_first_line`, of any `int`; the enumeration has the values of an `unsigned int`. -/
def makeResFirstLineOf (res : HttpResponse) (statusCode : Int32) : HttpResponse :=
  { res with
    statusCode := statusCode.toUInt32.toNat
    version := some (lit "HTTP/1.1")
    statusText := some (getStatusTextOf statusCode.toInt) }

/-- Calls of `add_res_header`, each with its key and its value. -/
def addResHeaders (res : HttpResponse) (calls : List (Bytes × Bytes)) : HttpResponse :=
  calls.foldl (fun res call => addResHeader res call.1 call.2) res

/-! ### The head in its buffer -/

/-- The status line, with `%d` for the code. -/
def statusPiece (res : HttpResponse) : Bytes :=
  printStr res.version ++ ch ' ' :: (printInt (toInt32 res.statusCode) ++ ch ' ' ::
    (printStr res.statusText ++ crlf))

/-- The line of a header. -/
def headerPiece (header : HttpHeader) : Bytes := header.key ++ lit ": " ++ header.value ++ crlf

/-- What `send_http_response` prints, piece by piece. -/
def headPieces (res : HttpResponse) : List Bytes :=
  statusPiece res :: (res.headers.map headerPiece ++ [crlf])

/-- The size of `header_buf`. -/
abbrev headerBufSize : ℕ := 2048

/-- `send_http_response`, with the contents of `header_buf` before it: the offsets of the buffer,
and the bytes of each `write`; `none` is an access behind the end of the buffer. -/
def sendHeader (headerBuf : Vector UInt8 headerBufSize) (res : HttpResponse) :
    List ℕ × Option (List Bytes) :=
  let printed := snprintfAll (headPieces res) ⟨headerBuf.toList, 0⟩
  (printed.1, printed.2.bind fun p =>
    if p.offset ≤ headerBufSize then
      some (p.buf.take p.offset ::
        if res.statusCode = HttpStatusCode.redirect.code then []
        else if 0 < res.body.length then [res.body] else [])
    else none)

variable {headerBuf : Vector UInt8 headerBufSize} {res : HttpResponse}

/-- **The bytes that are sent**: the head, its last byte cut when it fills the buffer, and the
body. -/
theorem flatten_sendHeader (headerBuf : Vector UInt8 headerBufSize) (res : HttpResponse) :
    (sendHeader headerBuf res).2.map List.flatten =
      if (headPieces res).flatten.length ≤ headerBufSize then
        some ((((headPieces res).flatten.take (headerBufSize - 1) ++ [0]).take
          (headPieces res).flatten.length) ++
          if res.statusCode = HttpStatusCode.redirect.code then [] else res.body)
      else none := by
  have hsize : headerBuf.toList.length = headerBufSize := headerBuf.length_toList
  have hbody : (if 0 < res.body.length then [res.body] else []).flatten = res.body := by
    cases res.body with
    | nil => rfl
    | cons c body => exact List.append_nil _
  cases hrun : (snprintfAll (headPieces res) ⟨headerBuf.toList, 0⟩).2 with
  | none =>
      have hlong : ¬ (headPieces res).flatten.length ≤ headerBufSize := by
        intro hle
        obtain ⟨p, hp⟩ : ∃ p, (snprintfAll (headPieces res) ⟨headerBuf.toList, 0⟩).2 = some p :=
          isSome_snprintfAll (by rw [hsize, Nat.zero_add]; exact hle)
        rw [hrun] at hp
        simp at hp
      rw [sendHeader, hrun, if_neg hlong]
      rfl
  | some p =>
      obtain ⟨hoffset, hlen⟩ := offset_of_snprintfAll hrun
      have hholds : p.Holds (headPieces res).flatten :=
        prefix_of_snprintfAll (by rw [hsize]; norm_num) (List.cons_ne_nil _ _) hrun
      rw [Nat.zero_add] at hoffset
      rw [sendHeader, hrun, Option.bind_some, hoffset]
      by_cases hle : (headPieces res).flatten.length ≤ headerBufSize
      · have htake := hholds.take_offset (by rw [hlen, hsize]; norm_num)
          (by rw [hlen, hsize]; exact hle)
        rw [hlen, hsize, hoffset] at htake
        rw [if_pos hle, if_pos hle, Option.map_some, List.flatten_cons, htake]
        split
        · rfl
        · rw [hbody]
      · rw [if_neg hle, if_neg hle]
        rfl

/-- **The buffer and the text**: for an enumerator the bytes are those of `sendHttpResponse`. -/
theorem sendHeader_eq_sendHttpResponse (headerBuf : Vector UInt8 headerBufSize)
    (hcode : res.statusCode < 2 ^ 31) :
    (sendHeader headerBuf res).2.map List.flatten = sendHttpResponse res := by
  have hprint : printInt (toInt32 res.statusCode) = printNat res.statusCode := by
    rw [toInt32_of_range (by omega) (by simp only [intMax]; omega)]
    rfl
  have hline : statusPiece res = statusLine res := by
    rw [statusPiece, hprint]
    rfl
  have hhead : (headPieces res).flatten = responseHead res := by
    rw [headPieces, List.flatten_cons, List.flatten_append, List.flatten_singleton, responseHead,
      hline, List.flatMap_def, List.append_assoc]
    rfl
  rw [flatten_sendHeader, hhead]
  rfl

/-! ### The headers that are stored -/

/-- What calls of `add_res_header` store in an empty response. -/
def storedHeaders (calls : List (Bytes × Bytes)) : List HttpHeader :=
  (calls.take maxHeaders).map fun call =>
    ⟨call.1.take (maxKeyLen - 1), call.2.take (maxValueLen - 1)⟩

/-- **What calls of `add_res_header` store**: the first ones, cut, behind what is there. Induction
along the calls. -/
theorem headers_addResHeaders (res : HttpResponse) (calls : List (Bytes × Bytes)) :
    (addResHeaders res calls).headers = res.headers ++
      (calls.take (maxHeaders - res.headers.length)).map fun call =>
        ⟨call.1.take (maxKeyLen - 1), call.2.take (maxValueLen - 1)⟩ := by
  induction calls generalizing res with
  | nil => simp [addResHeaders]
  | cons call calls ih =>
      have hmore := ih (addResHeader res call.1 call.2)
      rw [addResHeaders, List.foldl_cons, ← addResHeaders, hmore, addResHeader]
      split
      · rename_i hfull
        rw [Nat.sub_eq_zero_of_le hfull, List.take_zero, List.take_zero]
      · rename_i hslot
        obtain ⟨n, hn⟩ : ∃ n, maxHeaders - res.headers.length = n + 1 :=
          ⟨maxHeaders - res.headers.length - 1, by omega⟩
        have hleft : maxHeaders - (res.headers.length + 1) = n := by omega
        rw [hn, List.take_succ_cons, List.map_cons, List.length_append, List.length_singleton,
          hleft, List.append_assoc]
        rfl

/-- A response with headers, a status line and a body. -/
def builtResponse (calls : List (Bytes × Bytes)) (statusCode : Int32) (body : Bytes) :
    HttpResponse :=
  { makeResFirstLineOf (addResHeaders .zero calls) statusCode with body := body }

theorem headers_builtResponse (calls : List (Bytes × Bytes)) (statusCode : Int32) (body : Bytes) :
    (builtResponse calls statusCode body).headers = storedHeaders calls :=
  (headers_addResHeaders .zero calls).trans (List.nil_append _)

/-! ### Complete responses -/

/-- The status line and the lines of the headers of a response, with the empty line. -/
def headText (calls : List (Bytes × Bytes)) (statusCode : Int32) : Bytes :=
  lit "HTTP/1.1 " ++ (printInt statusCode.toInt ++ ch ' ' ::
    (getStatusTextOf statusCode.toInt ++ crlf)) ++ (storedHeaders calls).flatMap headerPiece ++ crlf

/-- The response is sent complete, and the offset stays inside the buffer. -/
def SendsComplete (headerBuf : Vector UInt8 headerBufSize) (calls : List (Bytes × Bytes))
    (statusCode : Int32) (body : Bytes) : Prop :=
  ∃ writes, (sendHeader headerBuf (builtResponse calls statusCode body)).2 = some writes ∧
    writes.flatten =
      headText calls statusCode ++ (if statusCode.toInt = 302 then [] else body) ∧
    ∀ o ∈ (sendHeader headerBuf (builtResponse calls statusCode body)).1, o ≤ headerBufSize

/-- The bytes of the head: of the status line, of the first headers, each with 4 bytes around its
key and its value, and of the empty line. -/
def headSize (calls : List (Bytes × Bytes)) (statusCode : Int32) : ℕ :=
  12 + (printInt statusCode.toInt).length + (getStatusTextOf statusCode.toInt).length +
    ((calls.take maxHeaders).map fun call =>
      min (maxKeyLen - 1) call.1.length + min (maxValueLen - 1) call.2.length + 4).sum + 2

theorem toInt32_toUInt32 (n : Int32) : toInt32 n.toUInt32.toNat = n.toInt :=
  (BitVec.toInt_eq_toNat_bmod n.toBitVec).symm

theorem flatten_headPieces (calls : List (Bytes × Bytes)) (statusCode : Int32) (body : Bytes) :
    (headPieces (builtResponse calls statusCode body)).flatten = headText calls statusCode := by
  have hversion : lit "HTTP/1.1 " = lit "HTTP/1.1" ++ [ch ' '] := by decide
  have hcode : toInt32 (builtResponse calls statusCode body).statusCode = statusCode.toInt :=
    toInt32_toUInt32 statusCode
  rw [headPieces, List.flatten_cons, List.flatten_append, List.flatten_singleton,
    headers_builtResponse, statusPiece, hcode, headText, hversion]
  simp only [List.append_assoc, List.singleton_append, List.flatMap_def]
  rfl

theorem length_headText (calls : List (Bytes × Bytes)) (statusCode : Int32) :
    (headText calls statusCode).length = headSize calls statusCode := by
  have hversion : (lit "HTTP/1.1 ").length = 9 := by decide
  have hcrlf : crlf.length = 2 ∧ (lit ": ").length = 2 := by decide
  have hheaders : ∀ calls : List (Bytes × Bytes),
      ((calls.map fun call => (⟨call.1.take (maxKeyLen - 1), call.2.take (maxValueLen - 1)⟩ :
        HttpHeader)).flatMap headerPiece).length = (calls.map fun call =>
      min (maxKeyLen - 1) call.1.length + min (maxValueLen - 1) call.2.length + 4).sum := by
    intro calls
    induction calls with
    | nil => rfl
    | cons call calls ih =>
        rw [List.map_cons, List.flatMap_cons, List.length_append, ih, List.map_cons,
          List.sum_cons, headerPiece]
        simp only [List.length_append, List.length_take, hcrlf]
        omega
  rw [headText, storedHeaders]
  simp only [List.length_append, List.length_cons, hheaders, hversion, hcrlf, headSize]
  omega

theorem builtResponse_redirect_iff (calls : List (Bytes × Bytes)) (statusCode : Int32)
    (body : Bytes) :
    (builtResponse calls statusCode body).statusCode = HttpStatusCode.redirect.code ↔
      statusCode.toInt = 302 := by
  constructor
  · intro h
    have hcode : statusCode.toUInt32.toNat = 302 := h
    rw [← toInt32_toUInt32, hcode]
    decide
  · intro h
    obtain rfl : statusCode = 302 := Int32.toInt_inj.mp h
    rfl

/-- A head that is sent with a NUL for its last byte is not sent as it is. -/
theorem take_append_nul_eq_iff (calls : List (Bytes × Bytes)) (statusCode : Int32)
    (hle : headSize calls statusCode ≤ headerBufSize) :
    ((headText calls statusCode).take (headerBufSize - 1) ++ [0]).take
        (headText calls statusCode).length = headText calls statusCode ↔
      headSize calls statusCode ≤ headerBufSize - 1 := by
  have hlen := length_headText calls statusCode
  constructor
  · intro heq
    by_contra hlong
    have hfull : ((headText calls statusCode).take (headerBufSize - 1) ++ [0]).length =
        (headText calls statusCode).length := by
      rw [List.length_append, List.length_take, List.length_singleton]
      omega
    rw [List.take_of_length_le hfull.le] at heq
    have hlast := congrArg List.getLast? heq
    have hend : crlf.getLast? = some newline := by decide
    rw [List.getLast?_concat, headText, List.getLast?_append, hend, Option.some_or] at hlast
    exact absurd hlast (by decide)
  · intro hshort
    have hwhole : (headText calls statusCode).take (headerBufSize - 1) =
        headText calls statusCode := List.take_of_length_le (by omega)
    rw [hwhole, List.take_left]

theorem headSize_le_of_sendsComplete {headerBuf : Vector UInt8 headerBufSize}
    {calls : List (Bytes × Bytes)} {statusCode : Int32} {body : Bytes}
    (h : SendsComplete headerBuf calls statusCode body) :
    headSize calls statusCode ≤ headerBufSize - 1 := by
  have hlen := length_headText calls statusCode
  have hsent := flatten_sendHeader headerBuf (builtResponse calls statusCode body)
  simp only [flatten_headPieces, builtResponse_redirect_iff] at hsent
  obtain ⟨writes, hwrites, hflat, -⟩ := h
  rw [hwrites, Option.map_some, hflat] at hsent
  by_cases hle : (headText calls statusCode).length ≤ headerBufSize
  · rw [if_pos hle, Option.some.injEq] at hsent
    exact (take_append_nul_eq_iff calls statusCode (hlen ▸ hle)).mp
      (List.append_cancel_right hsent.symm)
  · rw [if_neg hle] at hsent
    simp at hsent

theorem sendsComplete_of_headSize_le (headerBuf : Vector UInt8 headerBufSize)
    {calls : List (Bytes × Bytes)} {statusCode : Int32} (body : Bytes)
    (h : headSize calls statusCode ≤ headerBufSize - 1) :
    SendsComplete headerBuf calls statusCode body := by
  have hlen := length_headText calls statusCode
  have hsent := flatten_sendHeader headerBuf (builtResponse calls statusCode body)
  have hle : (headText calls statusCode).length ≤ headerBufSize := by omega
  simp only [flatten_headPieces, builtResponse_redirect_iff] at hsent
  rw [if_pos hle, (take_append_nul_eq_iff calls statusCode (hlen ▸ hle)).mpr h] at hsent
  obtain ⟨writes, hwrites, hflat⟩ := Option.map_eq_some_iff.mp hsent
  refine ⟨writes, hwrites, hflat, fun o ho => ?_⟩
  have hoffset := le_of_mem_snprintfAll ho
  rw [flatten_headPieces, Nat.zero_add] at hoffset
  exact hoffset.trans hle

/-- **When a response is sent complete, inside the buffer**: when its head has at most 2047
bytes. -/
theorem sendsComplete_iff (headerBuf : Vector UInt8 headerBufSize) (calls : List (Bytes × Bytes))
    (statusCode : Int32) (body : Bytes) :
    SendsComplete headerBuf calls statusCode body ↔
      headSize calls statusCode ≤ headerBufSize - 1 :=
  ⟨headSize_le_of_sendsComplete, sendsComplete_of_headSize_le headerBuf body⟩

theorem headSize_two_headers {value : Bytes} (hvalue : value.length = maxValueLen - 1) :
    headSize [(lit "X", value), (lit "X", value)] 200 = 2075 := by
  have hline : (printInt (200 : Int32).toInt).length = 3 ∧
      (getStatusTextOf (200 : Int32).toInt).length = 2 ∧ (lit "X").length = 1 := by decide
  simp only [headSize, hline, List.take_succ_cons, List.take_nil, List.map_cons, List.map_nil,
    List.sum_cons, List.sum_nil, hvalue]
  norm_num

/-- **Two headers of 1023 bytes**: the head does not fit the buffer. -/
theorem not_sendsComplete_two_headers :
    ¬ SendsComplete (Vector.replicate headerBufSize 0)
      [(lit "X", List.replicate (maxValueLen - 1) (ch 'v')),
        (lit "X", List.replicate (maxValueLen - 1) (ch 'v'))] 200 [] := by
  intro h
  have hsize := headSize_le_of_sendsComplete h
  rw [headSize_two_headers List.length_replicate] at hsize
  exact absurd hsize (by decide)

end CBank
