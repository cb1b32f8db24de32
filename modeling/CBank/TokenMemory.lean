import CBank.CLib.Memory
import CBank.Jwt

/-!
# Checking a Token in Memory

`jwt_validate` cuts a copy of the token in place, decodes a copy of the signature piece, frees
the copy of the token, and only then copies the payload piece out of it. What it finds there is
whatever the allocator left in the block: a `FreedContents`. The writes of both decodes are those
of `base64url_to_b64` on the string each copy holds.

## Main results

* `jwtValidateBlock_kept`: in a block that keeps its bytes, this is `jwtValidate`.
* `token_check_in_bounds`: the decodes write inside their copies, whatever is in the block.
* `freed_contents_irrelevant_iff`: the result does not depend on the block exactly when the
  signature does not match.
-/

namespace CBank

open CLib

/-- What the allocator leaves in a block it was given back: anything, of the same size. -/
structure FreedContents where
  left : Bytes → Bytes
  length_left : ∀ block, (left block).length = block.length

/-- A block that keeps its bytes. -/
def FreedContents.kept : FreedContents := ⟨id, fun _ => rfl⟩

/-- A block with a string written at an offset, if it has the room. -/
def FreedContents.overwritten (off : ℕ) (s : Bytes) : FreedContents where
  left block := (strcpy block off s).getD block
  length_left block := by
    cases h : strcpy block off s with
    | none => rfl
    | some block' => exact length_strcpy h

/-- What `payload_b64` points at once `token_cp` was freed. -/
def payloadAfterFree (contents : FreedContents) (token : Bytes) : Bytes :=
  cstrAt (contents.left (cutInPlace isDot 3 token)) (tokenOffset isDot 1 token)

/-- `jwt_validate`, when the freed copy of the token has the contents `contents`. -/
def jwtValidateBlock (contents : FreedContents) (H : Hmac) (now : ℤ) (token secret : Bytes) :
    Option Bytes :=
  jwtValidateFreed (fun _ => payloadAfterFree contents token) H now token secret

/-- The strings `jwt_validate` hands to `base64url_decode`, in order: the signature piece, and
when the signature matches what the payload piece reads as by then. -/
def decodedPieces (contents : FreedContents) (H : Hmac) (token secret : Bytes) : List Bytes :=
  match strtok isDot token with
  | none => []
  | some (header, rest) => match strtok isDot rest with
    | none => []
    | some (payload, rest) => match strtok isDot rest with
      | none => []
      | some (signature, _) => signature :: match base64urlDecode signature with
        | none => []
        | some decoded =>
            let hmac := H.run secret (header ++ [ch '.'] ++ payload)
            if hmac.length = decoded.length ∧ constantTimeCompare hmac decoded decoded.length then
              [payloadAfterFree contents token]
            else []

/-- The token has three pieces, and the third is the signature of the first two. -/
def SignatureMatches (H : Hmac) (token secret : Bytes) : Prop :=
  ∃ header payload signature rest,
    tokens isDot token = header :: payload :: signature :: rest ∧
      base64urlDecode signature = some (H.run secret (header ++ [ch '.'] ++ payload))

/-! ### What is read after the signature -/

/-- What `jwt_validate` does with the payload piece. -/
def readPayload (now : ℤ) (piece : Bytes) : Option Bytes := do
  let decoded ← base64urlDecode piece
  let expToken ← strstr expKey (cstr decoded)
  if atol (expToken.drop expKey.length) < now then none else some (cstr decoded)

/-- Without a matching signature the payload piece is not read. -/
theorem jwtValidateFreed_of_not_matches (freed : Bytes → Bytes) {H : Hmac} (now : ℤ)
    {token secret : Bytes} (h : ¬ SignatureMatches H token secret) :
    jwtValidateFreed freed H now token secret = none := by
  rw [← Option.not_isSome_iff_eq_none, Option.isSome_iff_exists]
  rintro ⟨p, hp⟩
  simp only [jwtValidateFreed, bind, Option.bind_eq_some_iff, Option.guard_eq_some'] at hp
  obtain ⟨⟨header, r1⟩, h1, ⟨payload, r2⟩, h2, ⟨signature, r3⟩, h3, decoded, hdecoded, -,
    ⟨hlen, hcmp⟩, -⟩ := hp
  refine h ⟨header, payload, signature, _, tokens_eq_cons_iff.mpr ⟨r1, h1,
    tokens_eq_cons_iff.mpr ⟨r2, h2, tokens_eq_cons_iff.mpr ⟨r3, h3, rfl⟩⟩⟩, ?_⟩
  rw [hdecoded, (constantTimeCompare_iff hlen).mp hcmp]

/-- With a matching signature the payload piece decides. -/
theorem jwtValidateFreed_of_matches (freed : Bytes → Bytes) {H : Hmac} (now : ℤ)
    {token secret header payload signature : Bytes} {rest : List Bytes}
    (htokens : tokens isDot token = header :: payload :: signature :: rest)
    (hsignature : base64urlDecode signature =
      some (H.run secret (header ++ [ch '.'] ++ payload))) :
    jwtValidateFreed freed H now token secret = readPayload now (freed payload) := by
  obtain ⟨r1, h1, htokens⟩ := tokens_eq_cons_iff.mp htokens
  obtain ⟨r2, h2, htokens⟩ := tokens_eq_cons_iff.mp htokens
  obtain ⟨r3, h3, -⟩ := tokens_eq_cons_iff.mp htokens
  have hcmp : ∀ r : Bytes, constantTimeCompare r r r.length = true :=
    fun r => (constantTimeCompare_iff rfl).mpr rfl
  simp only [jwtValidateFreed, h1, h2, h3, hsignature, hcmp, bind, Option.bind_some, and_self,
    guard_true, Option.pure_def]
  rfl

theorem payloadAfterFree_kept {token header payload : Bytes} {rest : List Bytes}
    (htokens : tokens isDot token = header :: payload :: rest) (hnul : NulFree token) :
    payloadAfterFree .kept token = payload := by
  have hpiece : (tokens isDot token)[1]? = some payload := by rw [htokens]; rfl
  refine cstrAt_cutInPlace (by norm_num) hpiece fun h => hnul ?_
  exact (of_mem_tokens (List.mem_of_getElem? hpiece)).2.2 h

/-- **A block that keeps its bytes**: the token is validated as if it had not been freed. -/
theorem jwtValidateBlock_kept (H : Hmac) (now : ℤ) {token : Bytes} (hnul : NulFree token)
    (secret : Bytes) :
    jwtValidateBlock .kept H now token secret = jwtValidate H now token secret := by
  by_cases h : SignatureMatches H token secret
  · obtain ⟨header, payload, signature, rest, htokens, hsignature⟩ := h
    rw [jwtValidateBlock, jwtValidate, jwtValidateFreed_of_matches _ now htokens hsignature,
      jwtValidateFreed_of_matches _ now htokens hsignature, payloadAfterFree_kept htokens hnul,
      id_eq]
  · rw [jwtValidateBlock, jwtValidate, jwtValidateFreed_of_not_matches _ now h,
      jwtValidateFreed_of_not_matches _ now h]

/-! ### The writes of the decodes -/

/-- What is returned was decoded from the last of the decoded pieces. -/
theorem decodedPieces_of_validated {contents : FreedContents} {H : Hmac} {now : ℤ}
    {token secret p : Bytes} (h : jwtValidateBlock contents H now token secret = some p) :
    ∃ signature, decodedPieces contents H token secret =
        [signature, payloadAfterFree contents token] ∧
      readPayload now (payloadAfterFree contents token) = some p := by
  by_cases hmatch : SignatureMatches H token secret
  · obtain ⟨header, payload, signature, rest, htokens, hsignature⟩ := hmatch
    rw [jwtValidateBlock, jwtValidateFreed_of_matches _ now htokens hsignature] at h
    obtain ⟨r1, h1, htokens⟩ := tokens_eq_cons_iff.mp htokens
    obtain ⟨r2, h2, htokens⟩ := tokens_eq_cons_iff.mp htokens
    obtain ⟨r3, h3, -⟩ := tokens_eq_cons_iff.mp htokens
    have hcmp : ∀ r : Bytes, constantTimeCompare r r r.length = true :=
      fun r => (constantTimeCompare_iff rfl).mpr rfl
    refine ⟨signature, ?_, h⟩
    simp only [decodedPieces, h1, h2, h3, hsignature, hcmp, and_self, if_true]
  · rw [jwtValidateBlock, jwtValidateFreed_of_not_matches _ now hmatch] at h
    simp at h

/-- **Token checking stays inside its copies**: every index written while a token is checked is
inside the copy of the piece that is decoded. -/
theorem token_check_in_bounds (contents : FreedContents) (H : Hmac) (token secret : Bytes) :
    ∀ piece ∈ decodedPieces contents H token secret,
      ∀ w ∈ base64urlToB64Writes piece, w.index < piece.length + 1 :=
  fun _ _ _ hw => index_base64urlToB64Writes hw

/-- The token of `{"exp":9}`: the NUL of its signature piece is the last byte written. -/
theorem token_check_in_bounds_sample :
    (⟨44, 0⟩ : Write).index < (base64urlEncode (List.replicate 32 0)).length + 1 :=
  token_check_in_bounds .kept zeroHmac
    (generateJwt zeroHmac (lit "\x7b\"exp\":9\x7d") (lit "k")) (lit "k")
    (base64urlEncode (List.replicate 32 0)) (by decide +kernel) ⟨44, 0⟩ (by decide +kernel)

/-! ### The freed block -/

/-- What a block overwritten at the payload piece reads as there. -/
theorem payloadAfterFree_overwritten {token s : Bytes} (hs : NulFree s)
    (hroom : tokenOffset isDot 1 token + s.length < token.length + 1) :
    payloadAfterFree (.overwritten (tokenOffset isDot 1 token) s) token = s := by
  obtain ⟨block, hblock⟩ := strcpy_of_fits (by rwa [length_cutInPlace] :
    tokenOffset isDot 1 token + s.length < (cutInPlace isDot 3 token).length)
  simp only [payloadAfterFree, FreedContents.overwritten, hblock, Option.getD_some]
  exact (strcpy_hasStr hs hblock).cstrAt_eq

/-- A payload that does not expire. -/
def lastingPayload : Bytes := expKey ++ printInt longMax

theorem readPayload_lastingPayload {now : ℤ} (hnow : FitsLong now) :
    readPayload now (base64urlEncode lastingPayload) = some lastingPayload := by
  have hfirst := firstOccurrence_expKey (a := []) (by decide) (printInt longMax)
  have hread : readInt (printInt longMax) = longMax := by
    have hprint := readInt_printInt longMax noDigit_nil
    rwa [List.append_nil] at hprint
  have hnul : NulFree lastingPayload :=
    (by decide : NulFree expKey).append (nulFree_printInt longMax)
  rw [List.nil_append] at hfirst
  rw [readPayload, base64urlDecode_base64urlEncode, Option.bind_eq_bind, Option.bind_some,
    cstr_of_nulFree hnul, lastingPayload, hfirst.strstr_eq, Option.bind_some, List.drop_left,
    atol, hread, min_self, max_eq_right (by norm_num), if_neg (not_lt.mpr hnow.2)]

/-- **What the identity of a user hangs on.** The result of checking a token is the same for all
contents of the freed block exactly when the signature does not match: a token with a matching
signature is refused in one block and accepted in another. -/
theorem freed_contents_irrelevant_iff (H : Hmac) {now : ℤ} (hnow : FitsLong now)
    (token secret : Bytes) :
    (∀ contents₁ contents₂, jwtValidateBlock contents₁ H now token secret =
      jwtValidateBlock contents₂ H now token secret) ↔ ¬ SignatureMatches H token secret := by
  constructor
  · rintro h ⟨header, payload, signature, rest, htokens, hsignature⟩
    -- the block has room for the signature after the payload, so for a short payload
    have hroom : tokenOffset isDot 1 token + 36 < token.length + 1 := by
      have hoff := tokenOffset_add_le (n := 1) (d := isDot) (s := token) (by rw [htokens]; rfl)
        (by rw [htokens]; rfl : _ = some signature)
      have hlen := length_base64urlDecode_le hsignature
      rw [H.length_run] at hlen
      omega
    have hlast : (base64urlEncode lastingPayload).length = 36 := by decide +kernel
    have hempty := payloadAfterFree_overwritten (s := []) (by decide)
      (by rw [List.length_nil]; omega : tokenOffset isDot 1 token + _ < token.length + 1)
    have hforged := payloadAfterFree_overwritten (nulFree_base64urlEncode lastingPayload)
      (by rwa [hlast] : tokenOffset isDot 1 token + _ < token.length + 1)
    have hnone : readPayload now [] = none := rfl
    have hsame := h (.overwritten (tokenOffset isDot 1 token) [])
      (.overwritten (tokenOffset isDot 1 token) (base64urlEncode lastingPayload))
    rw [jwtValidateBlock, jwtValidateBlock, jwtValidateFreed_of_matches _ now htokens hsignature,
      jwtValidateFreed_of_matches _ now htokens hsignature, hempty, hforged,
      hnone, readPayload_lastingPayload hnow] at hsame
    simp at hsame
  · intro h contents₁ contents₂
    rw [jwtValidateBlock, jwtValidateBlock, jwtValidateFreed_of_not_matches _ now h,
      jwtValidateFreed_of_not_matches _ now h]

/-- A token whose third piece is no encoded text is refused in any block. -/
theorem freed_contents_irrelevant_unsigned :
    jwtValidateBlock .kept zeroHmac 9 (lit "a.b.c") (lit "k") =
      jwtValidateBlock (.overwritten 2 []) zeroHmac 9 (lit "a.b.c") (lit "k") := by
  refine (freed_contents_irrelevant_iff zeroHmac (⟨by norm_num, by norm_num⟩ : FitsLong 9)
    (lit "a.b.c") (lit "k")).mpr ?_ .kept (.overwritten 2 [])
  rintro ⟨header, payload, signature, rest, htokens, hsignature⟩
  have htok : tokens isDot (lit "a.b.c") = [lit "a", lit "b", lit "c"] := by decide
  have hbad : base64urlDecode (lit "c") = none := by decide
  rw [htok] at htokens
  obtain ⟨-, -, hc, -⟩ :
      lit "a" = header ∧ lit "b" = payload ∧ lit "c" = signature ∧ [] = rest := by
    simpa using htokens
  rw [← hc, hbad] at hsignature
  simp at hsignature

/-- An issued token. -/
def sampleToken : Bytes := generateJwt zeroHmac (lit "\x7b\"exp\":9\x7d") (lit "k")

/-- **An issued token that the allocator decides about**: accepted in a block that keeps its
bytes, refused in one with a NUL where the payload piece was. -/
theorem freed_contents_relevant_sample :
    ¬ ∀ contents₁ contents₂, jwtValidateBlock contents₁ zeroHmac 9 sampleToken (lit "k") =
      jwtValidateBlock contents₂ zeroHmac 9 sampleToken (lit "k") := by
  intro h
  have hsame := h .kept (.overwritten (tokenOffset isDot 1 sampleToken) [])
  have hdiffer : jwtValidateBlock .kept zeroHmac 9 sampleToken (lit "k") ≠
      jwtValidateBlock (.overwritten (tokenOffset isDot 1 sampleToken) []) zeroHmac 9 sampleToken
        (lit "k") := by decide +kernel
  exact hdiffer hsame

end CBank
