import CBank.Jwt

/-!
# Requests and Responses

The structures of `server/http_parser.h` and the functions of `server/http_utils.c` and
`server/router.c` that read a request or fill a response. A request is taken after it was
parsed; its strings are what its arrays and pointers read as. A response starts zeroed, its
header slots and its body hold what fits them.
-/

namespace CBank

open CLib

/-- `HttpStatusCode`. -/
inductive HttpStatusCode
  | ok
  | noContent
  | badRequest
  | notFound
  | internalServerError
  | methodNotAllowed
  | created
  | forbidden
  | unauthorized
  | redirect
  deriving DecidableEq, Repr

/-- The number of a status. -/
def HttpStatusCode.code : HttpStatusCode → ℕ
  | .ok => 200
  | .noContent => 204
  | .badRequest => 400
  | .notFound => 404
  | .internalServerError => 500
  | .methodNotAllowed => 405
  | .created => 201
  | .forbidden => 403
  | .unauthorized => 401
  | .redirect => 302

/-- `get_status_text`. -/
def getStatusText : HttpStatusCode → Bytes
  | .ok => lit "OK"
  | .created => lit "Created"
  | .noContent => lit "No Content"
  | .badRequest => lit "Bad Request"
  | .unauthorized => lit "Unauthorized"
  | .forbidden => lit "Forbidden"
  | .notFound => lit "Not Found"
  | .methodNotAllowed => lit "Method Not Allowed"
  | .internalServerError => lit "Internal Server Error"
  | .redirect => lit "Found"

/-- `HttpHeaderField`, without the count at its end. -/
inductive HttpHeaderField
  | host
  | contentType
  | contentLength
  | userAgent
  | accept
  | cookie
  | connection
  | unknown
  | authorization
  | location
  deriving DecidableEq, Repr

/-- `get_header_field_name`. -/
def getHeaderFieldName : HttpHeaderField → Bytes
  | .host => lit "Host"
  | .contentType => lit "Content-Type"
  | .contentLength => lit "Content-Length"
  | .userAgent => lit "User-Agent"
  | .accept => lit "Accept"
  | .cookie => lit "Cookie"
  | .connection => lit "Connection"
  | .authorization => lit "Authorization"
  | .location => lit "Location"
  | .unknown => lit "Unknown"

/-- `ContentType`. -/
inductive ContentType
  | html
  | json
  | plain
  | css
  | javascript
  | xml
  | formUrlencoded
  | multipartFormData
  | octetStream
  | unknown
  deriving DecidableEq, Repr

/-- `get_content_type_string`. -/
def getContentTypeString : ContentType → Bytes
  | .html => lit "text/html; charset=UTF-8"
  | .json => lit "application/json; charset=UTF-8"
  | .plain => lit "text/plain; charset=UTF-8"
  | .css => lit "text/css; charset=UTF-8"
  | .javascript => lit "application/javascript; charset=UTF-8"
  | .xml => lit "application/xml; charset=UTF-8"
  | .formUrlencoded => lit "application/x-www-form-urlencoded"
  | .multipartFormData => lit "multipart/form-data"
  | .octetStream => lit "application/octet-stream"
  | .unknown => lit "application/octet-stream"

/-- `HttpHeader`. -/
structure HttpHeader where
  key : Bytes
  value : Bytes
  deriving DecidableEq, Repr

/-- `QueryParam`. -/
structure QueryParam where
  key : Bytes
  value : Bytes
  deriving DecidableEq, Repr

/-- `Cookie`. -/
structure Cookie where
  name : Bytes
  value : Bytes
  deriving DecidableEq, Repr

/-- `HttpRequest`, once it was parsed. -/
structure HttpRequest where
  method : Bytes
  path : Bytes
  version : Bytes
  headers : List HttpHeader
  body : Bytes
  authenticatedJwt : JwtData
  bodyQueryParams : List QueryParam
  urlQueryParams : List QueryParam
  cookies : List Cookie
  deriving DecidableEq, Repr

/-- `HttpResponse`; the pointers of the status line are NULL until it is made. -/
structure HttpResponse where
  version : Option Bytes
  statusCode : ℕ
  statusText : Option Bytes
  headers : List HttpHeader
  body : Bytes
  deriving DecidableEq, Repr

/-- `struct HttpResponse res = {0}`. -/
def HttpResponse.zero : HttpResponse := ⟨none, 0, none, [], []⟩

/-- `MAX_HEADERS`, `MAX_KEY_LEN`, `MAX_VALUE_LEN` and `BODY_LEN`. -/
abbrev maxHeaders : ℕ := 32
abbrev maxKeyLen : ℕ := 128
abbrev maxValueLen : ℕ := 1024
abbrev bodyLen : ℕ := 18000

/-- `strcasecmp(s, t) == 0`. -/
def strcasecmp (s t : Bytes) : Bool := s.map toLower = t.map toLower

/-- `get_header`. -/
def getHeader (req : HttpRequest) (field : HttpHeaderField) : Option Bytes :=
  (req.headers.find? fun header => strcasecmp header.key (getHeaderFieldName field)).map
    HttpHeader.value

/-- `get_req_cookie`. -/
def getReqCookie (req : HttpRequest) (cookieName : Bytes) : Option Bytes :=
  (req.cookies.find? fun cookie => cookieName = cookie.name).map Cookie.value

/-- `make_res_first_line`. -/
def makeResFirstLine (res : HttpResponse) (status : HttpStatusCode) : HttpResponse :=
  { res with
    statusCode := status.code
    version := some (lit "HTTP/1.1")
    statusText := some (getStatusText status) }

/-- `add_res_header`: a header past the last slot is dropped, a long one is cut. -/
def addResHeader (res : HttpResponse) (key value : Bytes) : HttpResponse :=
  if maxHeaders ≤ res.headers.length then res
  else { res with
    headers := res.headers ++ [⟨key.take (maxKeyLen - 1), value.take (maxValueLen - 1)⟩] }

/-- `add_content_type`. -/
def addContentType (res : HttpResponse) (type : ContentType) : HttpResponse :=
  addResHeader res (getHeaderFieldName .contentType) (getContentTypeString type)

/-- `add_body`. -/
def addBody (res : HttpResponse) (body : Bytes) : HttpResponse :=
  { res with body := body.take (bodyLen - 1) }

/-- `add_res_token_cookie`. -/
def addResTokenCookie (res : HttpResponse) (token : Bytes) : HttpResponse :=
  addResHeader res (lit "Set-Cookie")
    ((lit "token=" ++ token ++ lit "; Path=/; HttpOnly; SameSite=Strict; Max-Age=3600").take 1023)

/-- `make_non_authorized`. -/
def makeNonAuthorized (res : HttpResponse) : HttpResponse :=
  addBody (addContentType (makeResFirstLine res .unauthorized) .plain) (lit "Unauthorized")

/-- The response `redirect` sends. -/
def redirect (res : HttpResponse) (location : Bytes) : HttpResponse :=
  addResHeader (makeResFirstLine res .redirect) (getHeaderFieldName .location) location

@[simp] theorem addResHeader_statusCode (res : HttpResponse) (key value : Bytes) :
    (addResHeader res key value).statusCode = res.statusCode := by
  rw [addResHeader]
  split
  · rfl
  · rfl

/-- A header that finds a slot and fits it is stored whole. -/
theorem addResHeader_headers {res : HttpResponse} {key value : Bytes}
    (hslot : res.headers.length < maxHeaders) (hkey : key.length ≤ maxKeyLen - 1)
    (hvalue : value.length ≤ maxValueLen - 1) :
    (addResHeader res key value).headers = res.headers ++ [⟨key, value⟩] := by
  rw [addResHeader, if_neg (not_le.mpr hslot), List.take_of_length_le hkey,
    List.take_of_length_le hvalue]

theorem headers_subset_addResHeader (res : HttpResponse) (key value : Bytes) :
    res.headers ⊆ (addResHeader res key value).headers := by
  rw [addResHeader]
  split
  · exact List.Subset.refl _
  · exact List.subset_append_left _ _

@[simp] theorem makeNonAuthorized_statusCode (res : HttpResponse) :
    (makeNonAuthorized res).statusCode = 401 := by
  simp [makeNonAuthorized, addBody, addContentType, makeResFirstLine, HttpStatusCode.code]

end CBank
