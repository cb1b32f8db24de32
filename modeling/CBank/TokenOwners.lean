import CBank.BankRuns
import CBank.ResponseFraming

/-!
# Whom Tokens Are For

A token is handed out in the cookie of a response, and only to a login. Along a run of the server
the customer it names is one who registered before, whose cpf and password were sent, and the
first one with that cpf.

## Main results

* `tokens_for_owners`: the tokens of a run.
-/

namespace CBank

open CLib

/-- The customers of a run: its accepted registrations, in order. -/
def enrolled (crypt : Bytes → Bytes) (log : List Served) : List Customer :=
  ((requests crypt log).filter Prod.snd).map Prod.fst

/-- A token that was made for a customer who is the first one with the cpf that was sent, and
whose password has the hash of the one that was sent. -/
structure IssuedTo (customers : List Customer) (env : HandlerEnv) (req : HttpRequest) (n : ℕ)
    (c : Customer) (token : Bytes) : Prop where
  customer : customers[n]? = some c
  first : ∀ (m : ℕ) (c' : Customer), m < n → customers[m]? = some c' → c'.cpf ≠ c.cpf
  presented : ∃ schema, parseLoginBody req = some (some schema) ∧
    cstrAt schema (loginSchema.field .cpf).offset = c.cpf ∧
    env.crypt (cstrAt schema (loginSchema.field .password).offset) = c.pwdHash
  signed : ∃ secret name, getEnv env.env (lit "JWT_SECRET") = some secret ∧
    token = createJwtForUser env.env.hmac env.env.now (getEnv env.env (lit "JWT_EXP")) secret
      (printNat n) name

variable {crypt : Bytes → Bytes} {log : List Served} {d : Disk}

theorem enrolled_append (log log' : List Served) :
    enrolled crypt (log ++ log') = enrolled crypt log ++ enrolled crypt log' := by
  rw [enrolled, requests_append, List.filter_append, List.map_append]
  rfl

/-- The bank of a run has its accepted registrations as customers. -/
theorem customers_eq_enrolled {b : Bank}
    (h : Bank.empty.serve ((requests crypt log).map Prod.fst) =
      (b, (requests crypt log).map Prod.snd)) : b.customers = enrolled crypt log := by
  have hcustomers := Bank.serve_customers Bank.empty ((requests crypt log).map Prod.fst)
  have hzip : ((requests crypt log).map Prod.fst).zip ((requests crypt log).map Prod.snd) =
      requests crypt log := by
    rw [List.zip_map', List.map_id']
  rw [h, hzip] at hcustomers
  exact hcustomers.trans (List.nil_append _)

/-- The token of a known header. -/
theorem KnownHeader.token {T : Bytes → Prop} {res : HttpResponse} {token : Bytes}
    (h : KnownHeader T res (tokenCookie token)) : T token := by
  generalize hheader : tokenCookie token = header at h
  cases h with
  | contentType type =>
      exact absurd (congrArg HttpHeader.key hheader)
        (by decide : lit "Set-Cookie" ≠ lit "Content-Type")
  | contentLength hstatus =>
      exact absurd (congrArg HttpHeader.key hheader)
        (by decide : lit "Set-Cookie" ≠ lit "Content-Length")
  | location hstatus hpath =>
      exact absurd (congrArg HttpHeader.key hheader)
        (by decide : lit "Set-Cookie" ≠ lit "Location")
  | setCookie hstatus htoken =>
      have hvalue := congrArg HttpHeader.value hheader
      simp only [tokenCookie, List.append_assoc, List.append_cancel_left_eq,
        List.append_cancel_right_eq] at hvalue
      exact hvalue ▸ htoken

/-- A token made for a login the bank accepts. -/
theorem Bank.issuedTo_of_login {b : Bank} {env : HandlerEnv} {req : HttpRequest}
    {schema secret name : Bytes} {n : ℕ} {c : Customer}
    (hparse : parseLoginBody req = some (some schema))
    (hlogin : b.login (cstrAt schema (loginSchema.field .cpf).offset)
      (env.crypt (cstrAt schema (loginSchema.field .password).offset)) = some (n, c))
    (hsecret : getEnv env.env (lit "JWT_SECRET") = some secret) :
    IssuedTo b.customers env req n c (createJwtForUser env.env.hmac env.env.now
      (getEnv env.env (lit "JWT_EXP")) secret (printNat n) name) := by
  obtain ⟨hn, hcpf, hhash⟩ := Bank.getElem?_of_login hlogin
  refine ⟨hn, fun m c' hm hc' => ?_, ⟨schema, hparse, hcpf.symm, hhash.symm⟩,
    ⟨secret, name, hsecret, rfl⟩⟩
  rw [hcpf]
  exact Bank.first_of_login hlogin hm hc'

/-- A token made for a login, on the tables of a bank. -/
theorem IssuedBy.issuedTo {b : Bank} {env : HandlerEnv} {req : HttpRequest} {token : Bytes}
    (h : IssuedBy env req d token) (hkeeps : d.Keeps b) (hsafe : b.Safe)
    (hcount : (b.customers.length : ℤ) ≤ intMax) :
    ∃ n c, IssuedTo b.customers env req n c token := by
  obtain ⟨schema, user, secret, hparse, hlogin, hsecret, rfl⟩ := h
  obtain ⟨n, c, hbank, hid⟩ := Bank.login_sound hsafe hcount hkeeps.users hlogin
  exact ⟨n, c, hid ▸ Bank.issuedTo_of_login hparse hbank hsecret⟩

/-- **Whom the tokens of a run are for.** In a run of the server that is never stopped, and whose
requests to register are safe, every token in a response was sent to a `POST` of a login. It was
made for the number of a customer whose registration was accepted before, who is the first one
with the cpf that was sent, and the hash of the password that was sent is the stored one. -/
theorem tokens_for_owners {before after : List Served} {served : Served}
    (h : ServerRun crypt (safeRequest crypt) neverStopped (before ++ served :: after) d)
    (hcount : (registered before : ℤ) < intMax) {rs : List HttpResponse}
    (hresult : served.result = some rs) {r : HttpResponse} (hr : r ∈ rs) {token : Bytes}
    (hcookie : tokenCookie token ∈ r.headers) :
    ∃ e received req n c, served.event = .serve e received ∧
      calledHandler e received = some (.handleLogin, req) ∧ req.method = lit "POST" ∧
      IssuedTo (enrolled crypt before) e.handlerEnv req n c token := by
  obtain ⟨m, hcalled, -⟩ := h.called
  obtain ⟨hpass, -⟩ := hcalled.finished rs hresult
  obtain ⟨b, hkeeps, hsafe, hlength, hserve⟩ := ServerRun.bank hcalled.run hcount
  rw [← customers_eq_enrolled hserve]
  cases hevent : served.event with
  | startUp =>
      rw [hevent] at hpass
      obtain ⟨u, -, hnone⟩ := Proc.result_bind_eq_some.mp hpass
      obtain rfl := Option.some.inj hnone
      exact absurd hr List.not_mem_nil
  | serve e received =>
      rw [hevent] at hpass
      obtain ⟨req, hlogin, hmethod, hissued⟩ := (passResponses_known hpass r hr _ hcookie).token
      obtain ⟨n, c, hto⟩ := hissued.issuedTo hkeeps hsafe (by omega)
      exact ⟨e, received, req, n, c, rfl, hlogin, hmethod, hto⟩

/-! ### Ann logs in -/

/-- The server of Ann's run, with a secret, and a template for her page. -/
def loginEnv : PassEnv :=
  { annEnv with
    middlewareEnv := fun _ => ⟨zeroHmac, [(lit "JWT_SECRET", lit "k")], 0⟩
    handlerEnv := { annEnv.handlerEnv with
      env := ⟨zeroHmac, [(lit "JWT_SECRET", lit "k")], 0⟩
      templates := fun _ => some (lit "\x7b\x7busername\x7d\x7d: \x7b\x7btotal_balance\x7d\x7d") } }

/-- Her login, as it is sent. -/
def loginPost : Received :=
  ⟨lit "POST /login HTTP/1.1" ++ crlf ++
    lit "Content-Type: application/x-www-form-urlencoded" ++ crlf ++
    lit "Content-Length: 21" ++ crlf ++ crlf ++ lit "cpf=1&password=secret", by decide +kernel⟩

/-- The token she gets. -/
def annToken : Bytes := createJwtForUser zeroHmac 0 none (lit "k") (lit "0") (lit "ann")

/-- The response that hands it to her. -/
def annAnswer : HttpResponse :=
  redirect (addResTokenCookie (addContentType (makeResFirstLine .zero .ok) .json) annToken)
    (lit "/accounts")

theorem result_loginPost :
    (passResponses loginEnv loginPost).result (diskAfter Disk.empty annEvents) =
      some [annAnswer] := by decide +kernel

/-- Her login, after her registration. -/
def loginServed : Served :=
  ⟨.serve loginEnv loginPost,
    (passResponses loginEnv loginPost).ops (diskAfter Disk.empty annEvents), some [annAnswer]⟩

/-- The disk after it. -/
def loginDisk : Disk := (passResponses loginEnv loginPost).after (diskAfter Disk.empty annEvents)

theorem serverRun_login : ServerRun id (safeRequest id) neverStopped
    (servedAll Disk.empty annEvents ++ [loginServed]) loginDisk := by
  have hsafe : safeRequest id (diskAfter Disk.empty annEvents) (.serve loginEnv loginPost) := by
    intro c hc
    have hnone : (ServerEvent.serve loginEnv loginPost).call = none := by
      rw [ServerEvent.call, Option.map_eq_none_iff]
      decide +kernel
    rw [hnone] at hc
    simp at hc
  exact Runs.finish serverRun_ann_safe ⟨hsafe, rfl⟩ result_loginPost

/-- The token is for the first customer, Ann. -/
theorem tokens_for_owners_ann :
    ∃ e received req n c, loginServed.event = .serve e received ∧
      calledHandler e received = some (.handleLogin, req) ∧ req.method = lit "POST" ∧
      IssuedTo (enrolled id (servedAll Disk.empty annEvents)) e.handlerEnv req n c annToken := by
  exact tokens_for_owners serverRun_login registered_ann_lt rfl List.mem_cons_self
    (by decide +kernel : tokenCookie annToken ∈ annAnswer.headers)

end CBank
