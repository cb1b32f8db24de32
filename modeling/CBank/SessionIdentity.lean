import CBank.Jwt

/-!
# The Identity a Token Carries

`create_jwt_for_user` prints the user's name into the payload as it is, and
`parse_jwt_payload` splits the payload on `}`, `,` and `:` and strips quotes. The two agree
on the identity of a user exactly when the name has none of the characters that the
splitter gives a meaning: `NameIsPlain`. A colon is harmless, since every piece is cut at
its first one.

The expiry is taken from the first `"exp":` of the payload, and the name is printed before the
expiry. The quote that opens the name may be the quote of the key, so what counts is the name
with that quote in front of it (`enforcedExpiry`).

## Main results

* `parseJwtPayload_userPayload`: the payload of a plainly named user parses to that user.
* `jwtValidate_createJwtForUser_eq`: an issued token gives back its payload up to the expiry
  that is enforced, which is the issued one when the name has no quote.
* `session_identity_iff`: the identity survives the token exactly for plain names.
-/

namespace CBank

open CLib

/-- An id as `get_next_identity` hands it out. -/
def IsUserId (userId : Bytes) : Prop :=
  userId ≠ [] ∧ userId.length ≤ 19 ∧ ∀ c ∈ userId, isDigit c = true

/-- A name without the characters the payload splitter gives a meaning. -/
def NameIsPlain (name : Bytes) : Prop :=
  ch '"' ∉ name ∧ ch ',' ∉ name ∧ ch '}' ∉ name

/-! ### The payload is parsed back -/

/-- One piece `"key":"value"` of a payload. -/
def textMember (key value : Bytes) : Bytes :=
  [ch '"'] ++ key ++ [ch '"'] ++ [ch ':'] ++ [ch '"'] ++ value ++ [ch '"']

/-- The piece `"exp":exp` of a payload. -/
def expMember (exp : ℤ) : Bytes := expKey ++ printInt exp

theorem userPayload_eq (userId name : Bytes) (exp : ℤ) :
    userPayload userId name exp =
      ch '{' :: (textMember (lit "sub") userId ++ ch ',' :: (textMember (lit "name") name ++
        ch ',' :: expMember exp)) ++ ch '}' :: [] := by
  simp [userPayload, textMember, expMember, expKey, lit, ch]

theorem not_mem_textMember {c : UInt8} {key value : Bytes} (hquote : c ≠ ch '"')
    (hcolon : c ≠ ch ':') (hkey : c ∉ key) (hvalue : c ∉ value) :
    c ∉ textMember key value := by
  simp [textMember, hquote, hcolon, hkey, hvalue]

theorem not_mem_expMember {c : UInt8} (hkey : c ∉ expKey) (hdigit : isDigit c = false)
    (hminus : c ≠ 45) (exp : ℤ) : c ∉ expMember exp := by
  rw [expMember, List.mem_append, not_or]
  exact ⟨hkey, not_mem_printInt hdigit hminus exp⟩

theorem cutAt_textMember {key : Bytes} (hkey : ch ':' ∉ key) (value : Bytes) :
    cutAt (ch ':') (textMember key value) =
      some ([ch '"'] ++ key ++ [ch '"'], [ch '"'] ++ value ++ [ch '"']) := by
  have hcut := cutAt_append_cons (c := ch ':') (k := [ch '"'] ++ key ++ [ch '"']) (by
    simp only [List.mem_append, List.mem_singleton, not_or]
    exact ⟨⟨by decide, hkey⟩, by decide⟩) ([ch '"'] ++ value ++ [ch '"'])
  simpa [textMember] using hcut

/-- Quotes around a text are what `remove_char` takes away. -/
theorem removeChar_quoted {s : Bytes} (hs : ch '"' ∉ s) :
    removeChar ([ch '"'] ++ s ++ [ch '"']) (ch '"') = s := by
  rw [removeChar_append, removeChar_append, removeChar_of_not_mem hs]
  simp [removeChar]

theorem parseJwtMember_sub (parsed : JwtData) {value : Bytes} (hvalue : ch '"' ∉ value) :
    parseJwtMember parsed (textMember (lit "sub") value) =
      { parsed with sub := some value } := by
  have hkey : removeChar ([ch '"'] ++ lit "sub" ++ [ch '"']) (ch '"') = lit "sub" := by decide
  have hname : lit "sub" ≠ lit "name" := by decide
  have hexp : lit "sub" ≠ lit "exp" := by decide
  simp only [parseJwtMember, cutAt_textMember (by decide : ch ':' ∉ lit "sub"), hkey,
    removeChar_quoted hvalue, if_true, if_neg hname, if_neg hexp]

theorem parseJwtMember_nameMember (parsed : JwtData) {value : Bytes}
    (hvalue : ch '"' ∉ value) :
    parseJwtMember parsed (textMember (lit "name") value) =
      { parsed with name := some value } := by
  have hkey : removeChar ([ch '"'] ++ lit "name" ++ [ch '"']) (ch '"') = lit "name" := by
    decide
  have hsub : lit "name" ≠ lit "sub" := by decide
  have hexp : lit "name" ≠ lit "exp" := by decide
  simp only [parseJwtMember, cutAt_textMember (by decide : ch ':' ∉ lit "name"), hkey,
    removeChar_quoted hvalue, if_true, if_neg hsub, if_neg hexp]

theorem parseJwtMember_exp (parsed : JwtData) {exp : ℤ} (hfits : FitsLong exp) :
    parseJwtMember parsed (expMember exp) = { parsed with exp := exp } := by
  have hcut : cutAt (ch ':') (expMember exp) = some (lit "\"exp\"", printInt exp) := by
    have := cutAt_append_cons (c := ch ':') (k := lit "\"exp\"") (by decide) (printInt exp)
    simpa [expMember, expKey, lit, ch] using this
  have hkey : removeChar (lit "\"exp\"") (ch '"') = lit "exp" := by decide
  have hsub : lit "exp" ≠ lit "sub" := by decide
  have hname : lit "exp" ≠ lit "name" := by decide
  have hval : removeChar (printInt exp) (ch '"') = printInt exp :=
    removeChar_of_not_mem (not_mem_printInt (by decide) (by decide) exp)
  have hread : atol (printInt exp) = exp := by
    have hprint := readInt_printInt exp noDigit_nil
    rw [List.append_nil] at hprint
    rw [atol_of_fitsLong (by rwa [hprint]), hprint]
  simp only [parseJwtMember, hcut, hkey, hval, hread, if_true, if_neg hsub, if_neg hname]

/-- **The payload of a plainly named user parses to that user.** -/
theorem parseJwtPayload_userPayload {userId name : Bytes} (hid : IsUserId userId)
    (hname : NameIsPlain name) {exp : ℤ} (hfits : FitsLong exp) :
    parseJwtPayload (userPayload userId name exp) = some ⟨exp, some userId, some name⟩ := by
  obtain ⟨hquote, hcomma, hbrace⟩ := hname
  have hdigits : ∀ {d : UInt8}, isDigit d = false → d ∉ userId :=
    not_mem_of_isDigit hid.2.2
  have hbody : ch '}' ∉ ch '{' :: (textMember (lit "sub") userId ++
      ch ',' :: (textMember (lit "name") name ++ ch ',' :: expMember exp)) := by
    simp only [List.mem_cons, List.mem_append, not_or]
    exact ⟨by decide,
      not_mem_textMember (by decide) (by decide) (by decide) (hdigits (by decide)), by decide,
      not_mem_textMember (by decide) (by decide) (by decide) hbrace, by decide,
      not_mem_expMember (by decide) (by decide) (by decide) exp⟩
  have hmembers : payloadMembers (userPayload userId name exp) =
      some (textMember (lit "sub") userId ++ ch ',' :: (textMember (lit "name") name ++
        ch ',' :: expMember exp)) := by
    rw [userPayload_eq, payloadMembers, cutAt_append_cons hbody]
  have hfree : ∀ {s : Bytes}, ch ',' ∉ s → ∀ y ∈ s, (y == ch ',') = false := by
    intro s hs y hy
    simpa using ne_of_mem_of_not_mem hy hs
  have hsub : ch ',' ∉ textMember (lit "sub") userId :=
    not_mem_textMember (by decide) (by decide) (by decide) (hdigits (by decide))
  have hnm : ch ',' ∉ textMember (lit "name") name :=
    not_mem_textMember (by decide) (by decide) (by decide) hcomma
  have hexp : ch ',' ∉ expMember exp :=
    not_mem_expMember (by decide) (by decide) (by decide) exp
  have hne : ∀ key value, textMember key value ≠ [] := by simp [textMember]
  rw [parseJwtPayload, hmembers, Option.map_some,
    tokens_append_cons_of_free (hne _ _) (hfree hsub) (by simp),
    tokens_append_cons_of_free (hne _ _) (hfree hnm) (by simp),
    tokens_of_free (by simp [expMember, expKey, lit]) (hfree hexp)]
  simp only [List.foldl_cons, List.foldl_nil, parseJwtMember_sub _ (hdigits (by decide)),
    parseJwtMember_nameMember _ hquote, parseJwtMember_exp _ hfits]

/-! ### The payload comes back from the token -/

theorem length_userPayload {userId name : Bytes} (hid : IsUserId userId)
    (hlen : name.length ≤ 49) {exp : ℤ} (hfits : FitsLong exp) :
    (userPayload userId name exp).length ≤ 511 := by
  have h1 := hid.2.1
  have h2 := length_printInt_le hfits
  simp only [userPayload, List.length_append, lit, List.length_map]
  simp only [String.reduceToList, List.length_cons, List.length_nil]
  omega

theorem nulFree_userPayload {userId name : Bytes} (hid : IsUserId userId)
    (hname : NulFree name) (exp : ℤ) : NulFree (userPayload userId name exp) := by
  have hnul : NulFree userId := not_mem_of_isDigit hid.2.2 (by decide)
  exact ((((((by decide : NulFree (lit "\x7b\"sub\":\"")).append hnul).append
    (by decide)).append hname).append (by decide)).append (nulFree_printInt exp)).append
    (by decide)

/-! ### The expiry that is enforced -/

/-- The name as the payload shows it, with the quote that opens it. -/
def openedName (name : Bytes) : Bytes := ch '"' :: name

/-- What `jwt_validate` takes for the expiry of a token issued under a name, for `exp`. -/
def enforcedExpiry (name : Bytes) (exp : ℤ) : ℤ :=
  match strstr expKey (openedName name) with
  | some expToken => atol (expToken.drop expKey.length)
  | none => exp

/-- The payload after its first part, from the quote that opens the name on. -/
def payloadTail (name : Bytes) (exp : ℤ) : Bytes :=
  openedName name ++ (ch '"' :: ch ',' :: expKey ++ (printInt exp ++ [ch '}']))

/-- The first expiry of a payload is found from the name on: before it, no quote is followed by
the rest of the key. -/
theorem strstr_userPayload {userId : Bytes} (hid : IsUserId userId) (name : Bytes) (exp : ℤ) :
    strstr expKey (userPayload userId name exp) = strstr expKey (payloadTail name exp) := by
  have hkey : expKey = ch '"' :: (lit "exp" ++ ch '"' :: [ch ':']) := by decide
  have hexp : ch '"' ∉ lit "exp" := by decide
  have hidq : ch '"' ∉ userId := not_mem_of_isDigit hid.2.2 (by decide)
  have hexpId : lit "exp" ≠ userId := by
    intro h
    have := hid.2.2 (ch 'e') (h ▸ by decide)
    exact Bool.noConfusion this
  -- a quote is skipped with the text before it, unless the rest of the key follows
  have hskip : ∀ {k u rest : Bytes}, ch '"' ∉ k → ch '"' ∉ u →
      (lit "exp" = u → ¬ [ch ':'] <+: rest) →
      strstr expKey (k ++ ch '"' :: (u ++ ch '"' :: rest)) =
        strstr expKey (u ++ ch '"' :: rest) := by
    intro k u rest hk hu h
    rw [hkey]
    refine strstr_append_cons hk ?_
    rw [append_cons_starts_iff hexp hu]
    exact fun ⟨heq, hcolon⟩ => h heq hcolon
  have htext : userPayload userId name exp =
      [ch '{'] ++ ch '"' :: (lit "sub" ++ ch '"' :: ([ch ':'] ++ ch '"' :: (userId ++
        ch '"' :: ([ch ','] ++ ch '"' :: (lit "name" ++ ch '"' :: ([ch ':'] ++
          payloadTail name exp)))))) := by
    simp [userPayload_eq, textMember, expMember, payloadTail, openedName]
  have htail : payloadTail name exp = ch '"' :: (name ++
      (ch '"' :: ch ',' :: expKey ++ (printInt exp ++ [ch '}']))) := rfl
  rw [htext, htail, hskip (by decide) (by decide) fun h => absurd h (by decide),
    hskip (by decide) (by decide) fun h => absurd h (by decide),
    hskip (by decide) hidq fun h => absurd h hexpId,
    hskip hidq (by decide) fun h => absurd h (by decide),
    hskip (by decide) (by decide) fun h => absurd h (by decide),
    hskip (by decide) (by decide) fun h => absurd h (by decide), hkey]
  refine strstr_cons_of_not_starts ?_
  rw [List.cons_prefix_cons]
  exact fun h => absurd h.1 (by decide)

/-- The integer after the first expiry of a payload: the one that is enforced. The name goes on
with a quote and a comma, in which no key ends. -/
theorem exists_expiry_userPayload {userId : Bytes} (hid : IsUserId userId) (name : Bytes)
    {exp : ℤ} (hfits : FitsLong exp) :
    ∃ expToken, strstr expKey (userPayload userId name exp) = some expToken ∧
      atol (expToken.drop expKey.length) = enforcedExpiry name exp := by
  rw [strstr_userPayload hid, enforcedExpiry]
  cases hname : strstr expKey (openedName name) with
  | some expToken =>
      obtain ⟨pre, post, hfirst, rfl⟩ := strstr_eq_some_iff.mp hname
      refine ⟨_, (hfirst.append_right _).strstr_eq, ?_⟩
      simp only [List.drop_left]
      rw [atol, atol]
      exact congrArg _ (congrArg _ (readInt_append_cons (by decide) (by decide) (by decide)
        (by decide) post _))
  | none =>
      have habsent : ¬ expKey <:+: openedName name ++ [ch '"', ch ','] := fun h =>
        strstr_eq_none_iff.mp hname (infix_of_infix_append (p := lit "\"exp\"") (e := ch ':')
          (by decide) h)
      have htail : payloadTail name exp =
          openedName name ++ [ch '"', ch ','] ++ expKey ++ (printInt exp ++ [ch '}']) := by
        simp [payloadTail]
      have hread : readInt (printInt exp ++ [ch '}']) = exp :=
        readInt_printInt exp (noDigit_cons (by decide : isDigit (ch '}') = false) [])
      refine ⟨_, htail ▸ (firstOccurrence_expKey habsent _).strstr_eq, ?_⟩
      rw [List.drop_left, atol_of_fitsLong (by rwa [hread]), hread]

/-- **What validating an issued token comes to**: its payload, up to the expiry that is
enforced. -/
theorem jwtValidate_createJwtForUser_eq (H : Hmac) (t now : ℤ) (jwtExp : Option Bytes)
    (secret : Bytes) {userId name : Bytes} (hid : IsUserId userId) (hnul : NulFree name)
    (hlen : name.length ≤ 49) (hfits : FitsLong (expiryAt t jwtExp)) :
    jwtValidate H now (createJwtForUser H t jwtExp secret userId name) secret =
      if enforcedExpiry name (expiryAt t jwtExp) < now then none
      else some (userPayload userId name (expiryAt t jwtExp)) := by
  obtain ⟨expToken, hfind, hread⟩ := exists_expiry_userPayload hid name hfits
  rw [createJwtForUser, List.take_of_length_le (length_userPayload hid hlen hfits),
    jwtValidate_generateJwt H now secret (by simp [userPayload, lit])
      (nulFree_userPayload hid hnul _), hfind, Option.bind_some, hread]

/-- A name without a quote announces no expiry. -/
theorem enforcedExpiry_of_not_mem {name : Bytes} (hquote : ch '"' ∉ name) (exp : ℤ) :
    enforcedExpiry name exp = exp := by
  have habsent : ¬ expKey <:+: openedName name := by
    have hkey : expKey = ch '"' :: (lit "exp" ++ ch '"' :: [ch ':']) := by decide
    rw [openedName, List.infix_cons_iff, hkey, List.cons_prefix_cons]
    rintro (⟨-, h⟩ | h)
    · exact hquote (h.subset (by decide))
    · exact hquote (h.subset List.mem_cons_self)
  rw [enforcedExpiry, strstr_eq_none_iff.mpr habsent]

/-- **An issued token gives back its payload** at every time up to its expiry, when the
name has no quote. -/
theorem jwtValidate_createJwtForUser (H : Hmac) (t now : ℤ) (jwtExp : Option Bytes)
    (secret : Bytes) {userId name : Bytes} (hid : IsUserId userId) (hnul : NulFree name)
    (hlen : name.length ≤ 49) (hquote : ch '"' ∉ name) (hfits : FitsLong (expiryAt t jwtExp))
    (hnow : now ≤ expiryAt t jwtExp) :
    jwtValidate H now (createJwtForUser H t jwtExp secret userId name) secret =
      some (userPayload userId name (expiryAt t jwtExp)) := by
  rw [jwtValidate_createJwtForUser_eq H t now jwtExp secret hid hnul hlen hfits,
    enforcedExpiry_of_not_mem hquote, if_neg (not_lt.mpr hnow)]

/-! ### When the identity survives -/

/-- **Session identity.** Validating the token issued for a user and parsing its payload
gives back that user and the expiry exactly when the name is plain. -/
theorem session_identity_iff (H : Hmac) (t now : ℤ) (jwtExp : Option Bytes) (secret : Bytes)
    {userId name : Bytes} (hid : IsUserId userId) (hnul : NulFree name)
    (hlen : name.length ≤ 49) (hfits : FitsLong (expiryAt t jwtExp))
    (hnow : now ≤ expiryAt t jwtExp) :
    (jwtValidate H now (createJwtForUser H t jwtExp secret userId name) secret).bind
        parseJwtPayload = some ⟨expiryAt t jwtExp, some userId, some name⟩ ↔
      NameIsPlain name := by
  constructor
  · intro h
    obtain ⟨p, hp, hparse⟩ := Option.bind_eq_some_iff.mp h
    rw [jwtValidate_createJwtForUser_eq H t now jwtExp secret hid hnul hlen hfits] at hp
    obtain rfl := Option.some.inj (Option.ite_none_left_eq_some.mp hp).2
    obtain ⟨hquote, hcomma, hbrace⟩ := parseJwtPayload_name hparse rfl
    refine ⟨hquote, hcomma, hbrace ?_⟩
    rw [userPayload_eq, List.cons_append, List.head?_cons]
    decide
  · intro hname
    rw [jwtValidate_createJwtForUser H t now jwtExp secret hid hnul hlen hname.1 hfits hnow,
      Option.bind_some, parseJwtPayload_userPayload hid hname hfits]

/-- The user 7 with the name `eve` gets a token that carries that identity. -/
theorem session_identity_eve :
    (jwtValidate zeroHmac 50 (createJwtForUser zeroHmac 0 (some (lit "60")) (lit "k") (lit "7")
      (lit "eve")) (lit "k")).bind parseJwtPayload = some ⟨60, some (lit "7"), some (lit "eve")⟩ :=
  (session_identity_iff zeroHmac 0 50 (some (lit "60")) (lit "k") (by
    exact ⟨by decide, by decide, by decide +kernel⟩) (by decide) (by decide)
    ⟨by decide +kernel, by decide +kernel⟩ (by decide +kernel)).mpr
      ⟨by decide, by decide, by decide⟩

/-- The name `eve","sub":"0`. -/
def forgingName : Bytes := lit "eve\",\"sub\":\"0"

/-- **A name that acts as another user**: the token issued to user 7 under the name
`forgingName` carries the id 0, and not the identity it was issued for. -/
theorem session_identity_forged :
    IsUserId (lit "7") ∧ NulFree forgingName ∧ forgingName.length ≤ 49 ∧
    (jwtValidate zeroHmac 50 (createJwtForUser zeroHmac 0 (some (lit "60")) (lit "k") (lit "7")
      forgingName) (lit "k")).bind parseJwtPayload =
        some ⟨60, some (lit "0"), some (lit "eve")⟩ ∧
    (jwtValidate zeroHmac 50 (createJwtForUser zeroHmac 0 (some (lit "60")) (lit "k") (lit "7")
      forgingName) (lit "k")).bind parseJwtPayload ≠
        some ⟨60, some (lit "7"), some forgingName⟩ := by
  refine ⟨⟨by decide, by decide, by decide +kernel⟩, by decide, by decide, ?_, ?_⟩
  · decide +kernel
  · decide +kernel

end CBank
