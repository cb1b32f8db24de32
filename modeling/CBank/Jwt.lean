import CBank.Base64
import CBank.CLib.Number

/-!
# Session Tokens

The token of `jwt/jwt.c`: the URL text of a fixed header, of the payload and of the
HMAC-SHA256 of the two, joined by dots. The hash is a parameter, any function to 32
bytes (`Hmac`).

`jwtValidate` cuts the token with `strtok`, compares the decoded signature with the hash
of the first two pieces, decodes the payload and searches it for the text `"exp":`. It
reads the payload piece again after the copy that holds it was freed; what is found there
is the parameter `freed` of `jwtValidateFreed`, and `jwtValidate` is the case of a block
that keeps its bytes.

`parseJwtPayload` is the splitter of `parse_jwt_payload`: it cuts the payload at the first
`}`, then at commas, then each piece at its first colon, and removes the quotes.

## Main results

* `jwtValidate_eq_some_iff`: the exact set of tokens that are accepted, and what is
  returned for them.
* `jwtValidate_generateJwt`: a generated token is accepted up to the expiry written in
  its payload, and gives back that payload.
* `parseJwtPayload_name`: a parsed name never holds a quote, a comma or a brace.
-/

namespace CBank

open CLib

/-- A keyed hash to 32 bytes, the role HMAC-SHA256 plays: secret, then message. -/
structure Hmac where
  run : Bytes → Bytes → Bytes
  length_run : ∀ secret message, (run secret message).length = 32

/-- `constant_time_compare`. -/
def constantTimeCompare (r l : Bytes) (len : ℕ) : Bool :=
  (List.zipWith (· ^^^ ·) (r.take len) (l.take len)).foldl (· ||| ·) 0 == 0

/-- The `jwt_header` of `generate_jwt`. -/
def jwtHeader : Bytes := lit "\x7b\"alg\":\"HS256\",\"typ\":\"JWT\"\x7d"

/-- `generate_jwt`. -/
def generateJwt (H : Hmac) (payload secret : Bytes) : Bytes :=
  let message := base64urlEncode jwtHeader ++ [ch '.'] ++ base64urlEncode payload
  message ++ [ch '.'] ++ base64urlEncode (H.run secret message)

/-- `now + l_exp`, with the lifetime read from `JWT_EXP` or one hour. -/
def expiryAt (now : ℤ) (jwtExp : Option Bytes) : ℤ :=
  now + (match jwtExp with
    | some text => atoi text
    | none => 3600)

/-- The payload text of `create_jwt_for_user`. -/
def userPayload (userId name : Bytes) (exp : ℤ) : Bytes :=
  lit "\x7b\"sub\":\"" ++ userId ++ lit "\",\"name\":\"" ++ name ++ lit "\",\"exp\":" ++
    printInt exp ++ lit "\x7d"

/-- `create_jwt_for_user`, at time `now`: the payload buffer has 512 bytes. -/
def createJwtForUser (H : Hmac) (now : ℤ) (jwtExp : Option Bytes) (secret : Bytes)
    (userId name : Bytes) : Bytes :=
  generateJwt H ((userPayload userId name (expiryAt now jwtExp)).take 511) secret

/-- The delimiter of `strtok(_, ".")`. -/
abbrev isDot (c : UInt8) : Bool := c == ch '.'

/-- The text `jwt_validate` searches the payload for. -/
def expKey : Bytes := lit "\"exp\":"

/-- `jwt_validate` at time `now`, when the freed copy of the token holds `freed b` where
it held the payload piece `b`. -/
def jwtValidateFreed (freed : Bytes → Bytes) (H : Hmac) (now : ℤ) (token secret : Bytes) :
    Option Bytes := do
  let header ← strtok isDot token
  let payload ← strtok isDot header.2
  let signature ← strtok isDot payload.2
  let message := header.1 ++ [ch '.'] ++ payload.1
  let decodedSignature ← base64urlDecode signature.1
  let hmac := H.run secret message
  guard (hmac.length = decodedSignature.length ∧
    constantTimeCompare hmac decodedSignature decodedSignature.length)
  let decodedPayload ← base64urlDecode (freed payload.1)
  let payloadStr := cstr decodedPayload
  let expToken ← strstr expKey payloadStr
  if atol (expToken.drop expKey.length) < now then none else some payloadStr

/-- `jwt_validate`, with the freed copy keeping its bytes. -/
def jwtValidate (H : Hmac) (now : ℤ) (token secret : Bytes) : Option Bytes :=
  jwtValidateFreed id H now token secret

/-- `JwtData`: a NULL pointer is `none`. -/
structure JwtData where
  exp : ℤ
  sub : Option Bytes
  name : Option Bytes
  deriving DecidableEq, Repr

/-- `JwtData parsed_jwt = {0}`. -/
def JwtData.zero : JwtData := ⟨0, none, none⟩

/-- `remove_char`. -/
def removeChar (str : Bytes) (find : UInt8) : Bytes := str.filter (· ≠ find)

/-- What one piece between commas does to the data read so far. -/
def parseJwtMember (parsed : JwtData) (token : Bytes) : JwtData :=
  match cutAt (ch ':') token with
  | none => parsed
  | some (before, after) =>
      let key := removeChar before (ch '"')
      let value := removeChar after (ch '"')
      let parsed := if key = lit "sub" then { parsed with sub := some value } else parsed
      let parsed := if key = lit "name" then { parsed with name := some value } else parsed
      if key = lit "exp" then { parsed with exp := atol value } else parsed

/-- The text from `payload + 1` on, once the first closing brace is a NUL; `none` when
there is no brace to write the NUL to. -/
def payloadMembers (payload : Bytes) : Option Bytes :=
  match cutAt (ch '}') payload with
  | none => none
  | some ([], after) => some after
  | some (_ :: before, _) => some before

/-- `parse_jwt_payload`; `none` is the write through the NULL `strchr` returns. -/
def parseJwtPayload (payload : Bytes) : Option JwtData :=
  (payloadMembers payload).map fun members =>
    (tokens (· == ch ',') members).foldl parseJwtMember JwtData.zero

/-! ### The comparison -/

theorem foldl_or_eq_zero_iff {xs : Bytes} {acc : UInt8} :
    xs.foldl (· ||| ·) acc = 0 ↔ acc = 0 ∧ ∀ x ∈ xs, x = 0 := by
  induction xs generalizing acc with
  | nil => simp
  | cons x xs ih =>
      simp only [List.foldl_cons, ih, UInt8.or_eq_zero_iff, List.mem_cons, forall_eq_or_imp,
        and_assoc]

/-- The accumulated difference of two strings of one length is zero exactly when they are
equal. -/
theorem constantTimeCompare_iff {r l : Bytes} (h : r.length = l.length) :
    constantTimeCompare r l l.length = true ↔ r = l := by
  rw [constantTimeCompare, beq_iff_eq, foldl_or_eq_zero_iff, List.take_of_length_le h.le,
    List.take_length]
  simp only [true_and]
  induction r generalizing l with
  | nil =>
      have hl := List.length_eq_zero_iff.mp h.symm
      simp [hl]
  | cons x r ih =>
      obtain ⟨y, l, rfl⟩ : ∃ y l', l = y :: l' :=
        List.exists_cons_of_length_pos (by rw [← h]; simp)
      have hrl := ih (Nat.succ_injective h)
      simp only [List.zipWith_cons_cons, List.mem_cons, forall_eq_or_imp, List.cons.injEq,
        UInt8.xor_eq_zero_iff, hrl]

/-! ### What is accepted -/

/-- The expiry is found after a text that does not contain its key. -/
theorem firstOccurrence_expKey {a : Bytes} (ha : ¬ expKey <:+: a) (post : Bytes) :
    FirstOccurrence expKey (a ++ expKey ++ post) a post :=
  firstOccurrence_of_absent (p := lit "\"exp\"") (e := ch ':') (by decide) ha post

/-- The integer after the first `"exp":` of the payload a token carries fits a `long`,
whatever that integer is. -/
def ExpFitsLong (token : Bytes) : Prop :=
  ∀ h b rest d pre post, tokens isDot token = h :: b :: rest → base64urlDecode b = some d →
    FirstOccurrence expKey (cstr d) pre post → FitsLong (readInt post)

/-- **Token authenticity.** A token is accepted exactly when it has three pieces, the
third decodes to the hash of the first two, the second decodes to a text with an `"exp":`,
and the integer after the first one is not before `now`; the text is what is returned. -/
theorem jwtValidate_eq_some_iff (H : Hmac) (now : ℤ) (token secret p : Bytes)
    (hfits : ExpFitsLong token) :
    jwtValidate H now token secret = some p ↔
      ∃ h b s rest d pre post,
        tokens isDot token = h :: b :: s :: rest ∧
        base64urlDecode s = some (H.run secret (h ++ [ch '.'] ++ b)) ∧
        base64urlDecode b = some d ∧ p = cstr d ∧
        FirstOccurrence expKey p pre post ∧ now ≤ readInt post := by
  simp only [jwtValidate, jwtValidateFreed, bind, Option.bind_eq_some_iff,
    Option.guard_eq_some', id_eq]
  constructor
  · rintro ⟨⟨h, r1⟩, h1, ⟨b, r2⟩, h2, ⟨s, r3⟩, h3, sig, hsig, -, ⟨hlen, hcmp⟩, d, hd, e, he,
      hexp⟩
    have htok : tokens isDot token = h :: b :: s :: tokens isDot r3 :=
      tokens_eq_cons_iff.mpr ⟨r1, h1, tokens_eq_cons_iff.mpr ⟨r2, h2,
        tokens_eq_cons_iff.mpr ⟨r3, h3, rfl⟩⟩⟩
    obtain ⟨pre, post, hfirst, rfl⟩ := strstr_eq_some_iff.mp he
    have hsigeq := (constantTimeCompare_iff hlen).mp hcmp
    have hlong := hfits h b _ d pre post htok hd hfirst
    rw [List.drop_left, atol_of_fitsLong hlong] at hexp
    split at hexp
    · simp at hexp
    · rename_i hnow
      rw [Option.some.injEq] at hexp
      subst hexp
      exact ⟨h, b, s, _, d, pre, post, htok, by rw [hsig, hsigeq], hd, rfl, hfirst,
        not_lt.mp hnow⟩
  · rintro ⟨h, b, s, rest, d, pre, post, htok, hs, hd, rfl, hfirst, hnow⟩
    have hlong := hfits h b _ d pre post htok hd hfirst
    obtain ⟨r1, h1, htok⟩ := tokens_eq_cons_iff.mp htok
    obtain ⟨r2, h2, htok⟩ := tokens_eq_cons_iff.mp htok
    obtain ⟨r3, h3, -⟩ := tokens_eq_cons_iff.mp htok
    refine ⟨(h, r1), h1, (b, r2), h2, (s, r3), h3, _, hs, (), ⟨rfl, ?_⟩, d, hd,
      expKey ++ post, strstr_eq_some_iff.mpr ⟨pre, post, hfirst, rfl⟩, ?_⟩
    · exact (constantTimeCompare_iff rfl).mpr rfl
    · rw [List.drop_left, atol_of_fitsLong hlong, if_neg (not_lt.mpr hnow)]

/-- A hash that is always 32 zero bytes. -/
def zeroHmac : Hmac := ⟨fun _ _ => List.replicate 32 0, fun _ _ => List.length_replicate⟩

/-- The token of the payload `{"exp":9}` under `zeroHmac` is accepted until 9. -/
theorem jwtValidate_sampleToken :
    jwtValidate zeroHmac 9 (generateJwt zeroHmac (lit "\x7b\"exp\":9\x7d") (lit "k"))
      (lit "k") = some (lit "\x7b\"exp\":9\x7d") := by
  have htok : tokens isDot (generateJwt zeroHmac (lit "\x7b\"exp\":9\x7d") (lit "k")) =
      [base64urlEncode jwtHeader, base64urlEncode (lit "\x7b\"exp\":9\x7d"),
        base64urlEncode (List.replicate 32 0)] := by decide +kernel
  have hfirst : FirstOccurrence expKey (lit "\x7b\"exp\":9\x7d") (lit "\x7b") (lit "9\x7d") :=
    firstOccurrence_expKey (a := lit "\x7b") (by decide) (lit "9\x7d")
  refine (jwtValidate_eq_some_iff zeroHmac 9 _ (lit "k") _ ?_).mpr
    ⟨_, _, _, [], _, _, _, htok, base64urlDecode_base64urlEncode _,
      base64urlDecode_base64urlEncode _, by decide, hfirst, by decide +kernel⟩
  intro h b rest d pre post hcut hdec hocc
  rw [htok, List.cons.injEq, List.cons.injEq] at hcut
  obtain ⟨-, rfl, -⟩ := hcut
  rw [base64urlDecode_base64urlEncode, Option.some.injEq] at hdec
  subst hdec
  obtain ⟨-, rfl⟩ := hocc.unique hfirst
  exact ⟨by decide +kernel, by decide +kernel⟩

/-! ### Issued tokens -/

/-- What validating a generated token comes to: the search for the expiry in its own
payload. The signature always matches, whatever the hash is. -/
theorem jwtValidate_generateJwt (H : Hmac) (now : ℤ) {payload : Bytes} (secret : Bytes)
    (hne : payload ≠ []) (hnul : NulFree payload) :
    jwtValidate H now (generateJwt H payload secret) secret =
      (strstr expKey payload).bind fun expToken =>
        if atol (expToken.drop expKey.length) < now then none else some payload := by
  have hdot : ∀ data, ∀ c ∈ base64urlEncode data, isDot c = false := by
    intro data c hc
    have hnot : ch '.' ∉ base64urlEncode data :=
      not_mem_base64urlEncode (by decide +kernel) (by decide) (by decide) (by decide)
    simpa using ne_of_mem_of_not_mem hc hnot
  have hhead : base64urlEncode jwtHeader ≠ [] := base64urlEncode_ne_nil (by decide)
  have hpay : base64urlEncode payload ≠ [] := base64urlEncode_ne_nil hne
  have hsig : ∀ message, base64urlEncode (H.run secret message) ≠ [] := by
    intro message
    refine base64urlEncode_ne_nil ?_
    rw [← List.length_pos_iff, H.length_run]
    norm_num
  have hcut1 : strtok isDot (generateJwt H payload secret) = some (base64urlEncode jwtHeader,
      base64urlEncode payload ++ ch '.' :: base64urlEncode (H.run secret
        (base64urlEncode jwtHeader ++ [ch '.'] ++ base64urlEncode payload))) := by
    simp only [generateJwt, List.append_assoc, List.singleton_append]
    exact strtok_append_cons hhead (hdot _) (by decide) _
  have hcut2 : ∀ rest, strtok isDot (base64urlEncode payload ++ ch '.' :: rest) =
      some (base64urlEncode payload, rest) :=
    fun rest => strtok_append_cons hpay (hdot _) (by decide) rest
  have hcut3 : ∀ message, strtok isDot (base64urlEncode (H.run secret message)) =
      some (base64urlEncode (H.run secret message), []) :=
    fun message => strtok_of_free (hsig message) (hdot _)
  have hcmp : ∀ r : Bytes, constantTimeCompare r r r.length = true :=
    fun r => (constantTimeCompare_iff rfl).mpr rfl
  simp only [jwtValidate, jwtValidateFreed, hcut1, hcut2, hcut3, base64urlDecode_base64urlEncode,
    hcmp, bind, Option.bind_some, id_eq, and_self, guard_true, Option.pure_def,
    cstr_of_nulFree hnul]

/-- A token for a user is short. -/
theorem length_createJwtForUser_le (H : Hmac) (now : ℤ) (jwtExp : Option Bytes)
    (secret userId name : Bytes) :
    (createJwtForUser H now jwtExp secret userId name).length ≤ 766 := by
  have hheader : jwtHeader.length = 27 := by decide
  have hpayload := List.length_take_le 511 (userPayload userId name (expiryAt now jwtExp))
  simp only [createJwtForUser, generateJwt, List.length_append, List.length_singleton,
    length_base64urlEncode, H.length_run, hheader]
  omega

/-! ### What can be parsed -/

theorem not_mem_removeChar (str : Bytes) (c : UInt8) : c ∉ removeChar str c := by
  simp [removeChar]

theorem removeChar_subset (str : Bytes) (c : UInt8) : removeChar str c ⊆ str :=
  List.filter_subset_self str

theorem removeChar_of_not_mem {str : Bytes} {c : UInt8} (h : c ∉ str) :
    removeChar str c = str := by
  rw [removeChar, List.filter_eq_self]
  intro x hx
  simpa using ne_of_mem_of_not_mem hx h

theorem removeChar_append (s t : Bytes) (c : UInt8) :
    removeChar (s ++ t) c = removeChar s c ++ removeChar t c :=
  List.filter_append s t

/-- One piece sets the name to nothing but the piece's own bytes after the colon, without
quotes. -/
theorem parseJwtMember_name {parsed : JwtData} {token n : Bytes}
    (h : (parseJwtMember parsed token).name = some n) :
    parsed.name = some n ∨ (ch '"' ∉ n ∧ n ⊆ token) := by
  unfold parseJwtMember at h
  split at h
  · exact Or.inl h
  · rename_i before after hcut
    obtain ⟨rfl, -⟩ := cutAt_eq_some_iff.mp hcut
    by_cases hname : removeChar before (ch '"') = lit "name"
    · have hexp : lit "name" ≠ lit "exp" := by decide
      have hval : n = removeChar after (ch '"') := by
        simp only [hname, if_true, if_neg hexp, Option.some.injEq] at h
        exact h.symm
      refine Or.inr ⟨hval ▸ not_mem_removeChar after _, ?_⟩
      rw [hval]
      exact fun x hx => List.mem_append_right _
        (List.mem_cons_of_mem _ (removeChar_subset after _ hx))
    · left
      simp only [hname, if_false] at h
      split at h
      · split at h <;> exact h
      · split at h <;> exact h

/-- **A parsed name is clean**: it has no quote, no comma, and no closing brace unless the
payload starts with one. Induction along the pieces. -/
theorem parseJwtPayload_name {payload n : Bytes} {parsed : JwtData}
    (h : parseJwtPayload payload = some parsed) (hname : parsed.name = some n) :
    ch '"' ∉ n ∧ ch ',' ∉ n ∧ (payload.head? ≠ some (ch '}') → ch '}' ∉ n) := by
  obtain ⟨members, hmem, rfl⟩ := Option.map_eq_some_iff.mp h
  have hfold : ∀ (ts : List Bytes) (d : JwtData),
      (ts.foldl parseJwtMember d).name = some n →
        d.name = some n ∨ ∃ t ∈ ts, ch '"' ∉ n ∧ n ⊆ t := by
    intro ts
    induction ts with
    | nil => exact fun d h => Or.inl h
    | cons t ts ih =>
        intro d h
        rcases ih _ h with h | ⟨t', ht', h⟩
        · rcases parseJwtMember_name h with h | h
          · exact Or.inl h
          · exact Or.inr ⟨t, List.mem_cons_self, h⟩
        · exact Or.inr ⟨t', List.mem_cons_of_mem _ ht', h⟩
  rcases hfold _ _ hname with h | ⟨t, ht, hquote, hsub⟩
  · simp [JwtData.zero] at h
  · obtain ⟨-, hfree, htm⟩ := of_mem_tokens ht
    refine ⟨hquote, fun hc => by simpa using hfree _ (hsub hc), ?_⟩
    intro hhead hbrace
    have hin : ch '}' ∈ members := htm (hsub hbrace)
    unfold payloadMembers at hmem
    split at hmem
    · simp at hmem
    · rename_i after hcut
      obtain ⟨rfl, -⟩ := cutAt_eq_some_iff.mp hcut
      simp at hhead
    · rename_i x before after hcut
      obtain ⟨-, hnot⟩ := cutAt_eq_some_iff.mp hcut
      simp only [Option.some.injEq] at hmem
      subst hmem
      exact hnot (List.mem_cons_of_mem _ hin)

end CBank
