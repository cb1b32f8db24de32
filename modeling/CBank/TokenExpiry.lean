import CBank.SessionIdentity

/-!
# How Long a Token Is Accepted

`jwt_validate` looks for the expiry in the text of the payload. A payload that announces one
expiry comes back up to it; the payload `create_jwt_for_user` prints may announce two, since the
name of the user stands before the expiry.

## Main results

* `jwtValidate_of_generateJwt`: a generated token gives back its payload up to the first
  expiry written in it.
* `isSome_jwtValidate_createJwtForUser`: an issued token is accepted up to the expiry that is
  enforced.
* `token_expiry_iff`: that is the issued expiry exactly when the name announces no other.
-/

namespace CBank

open CLib

/-- **Issued tokens validate**: a token generated for a payload whose first `"exp":` is
followed by an integer that is not before `now` gives back that payload, whatever the hash. -/
theorem jwtValidate_of_generateJwt (H : Hmac) (now : ℤ) (secret : Bytes)
    {payload pre post : Bytes} (hnul : NulFree payload)
    (hfirst : FirstOccurrence expKey payload pre post) (hfits : FitsLong (readInt post))
    (hnow : now ≤ readInt post) :
    jwtValidate H now (generateJwt H payload secret) secret = some payload := by
  have hne : payload ≠ [] := by
    rw [hfirst.1]
    simp [expKey, lit]
  rw [jwtValidate_generateJwt H now secret hne hnul, hfirst.strstr_eq, Option.bind_some,
    List.drop_left, atol_of_fitsLong hfits, if_neg (not_lt.mpr hnow)]

/-- The payload `{"exp":9}` comes back at time 9. -/
theorem jwtValidate_of_generateJwt_nine :
    jwtValidate zeroHmac 9 (generateJwt zeroHmac (lit "\x7b\"exp\":9\x7d") (lit "k")) (lit "k") =
      some (lit "\x7b\"exp\":9\x7d") :=
  jwtValidate_of_generateJwt zeroHmac 9 (lit "k") (by decide)
    (firstOccurrence_expKey (a := lit "\x7b") (by decide) (lit "9\x7d"))
    ⟨by decide +kernel, by decide +kernel⟩ (by decide +kernel)

/-! ### Tokens of users -/

/-- What makes the enforced expiry the issued one: every expiry the name announces. -/
theorem enforcedExpiry_eq_iff {name : Bytes} {exp : ℤ} : enforcedExpiry name exp = exp ↔
    ∀ pre post, FirstOccurrence expKey (openedName name) pre post → atol post = exp := by
  rw [enforcedExpiry]
  cases hfind : strstr expKey (openedName name) with
  | none =>
      refine iff_of_true rfl fun pre post hfirst => ?_
      rw [hfirst.strstr_eq] at hfind
      simp at hfind
  | some expToken =>
      obtain ⟨pre, post, hfirst, rfl⟩ := strstr_eq_some_iff.mp hfind
      simp only [List.drop_left]
      constructor
      · intro h pre' post' hfirst'
        obtain ⟨-, rfl⟩ := hfirst'.unique hfirst
        exact h
      · exact fun h => h pre post hfirst

theorem enforcedExpiry_le_longMax (name : Bytes) {exp : ℤ} (hfits : FitsLong exp) :
    enforcedExpiry name exp ≤ longMax := by
  rw [enforcedExpiry]
  split
  · exact max_le (by norm_num) (min_le_left _ _)
  · exact hfits.2

/-- **An issued token is accepted** up to the expiry that is enforced. -/
theorem isSome_jwtValidate_createJwtForUser (H : Hmac) (t now : ℤ) (jwtExp : Option Bytes)
    (secret : Bytes) {userId name : Bytes} (hid : IsUserId userId) (hnul : NulFree name)
    (hlen : name.length ≤ 49) (hfits : FitsLong (expiryAt t jwtExp)) :
    (jwtValidate H now (createJwtForUser H t jwtExp secret userId name) secret).isSome ↔
      now ≤ enforcedExpiry name (expiryAt t jwtExp) := by
  rw [jwtValidate_createJwtForUser_eq H t now jwtExp secret hid hnul hlen hfits]
  split
  · rename_i hexpired
    simp [not_le.mpr hexpired]
  · rename_i hvalid
    simp [not_lt.mp hvalid]

/-- **Token expiry.** A token issued at time `t` is accepted from then on up to its expiry, and
not later, exactly when every expiry that the opened name announces first is that expiry. -/
theorem token_expiry_iff (H : Hmac) (t : ℤ) (jwtExp : Option Bytes) (secret : Bytes)
    {userId name : Bytes} (hid : IsUserId userId) (hnul : NulFree name)
    (hlen : name.length ≤ 49) (hfits : FitsLong (expiryAt t jwtExp))
    (hlife : t < expiryAt t jwtExp) :
    (∀ now, t ≤ now → FitsLong now →
      ((jwtValidate H now (createJwtForUser H t jwtExp secret userId name) secret).isSome ↔
        now ≤ expiryAt t jwtExp)) ↔
    ∀ pre post, FirstOccurrence expKey (openedName name) pre post →
      atol post = expiryAt t jwtExp := by
  rw [← enforcedExpiry_eq_iff]
  simp only [isSome_jwtValidate_createJwtForUser H t _ jwtExp secret hid hnul hlen hfits]
  have hmax := enforcedExpiry_le_longMax name hfits
  constructor
  · intro h
    have hle := (h _ hlife.le hfits).mpr le_rfl
    refine le_antisymm ?_ hle
    -- the moment that is enforced is one at which the token is accepted
    exact (h _ (hlife.le.trans hle) ⟨hfits.1.trans hle, hmax⟩).mp le_rfl
  · intro h now _ _
    rw [h]

/-- A token issued for a minute to the user named `eve` is accepted at second 60 and not at 61. -/
theorem token_expiry_eve :
    (jwtValidate zeroHmac 60 (createJwtForUser zeroHmac 0 (some (lit "60")) (lit "k") (lit "7")
      (lit "eve")) (lit "k")).isSome = true ∧
    (jwtValidate zeroHmac 61 (createJwtForUser zeroHmac 0 (some (lit "60")) (lit "k") (lit "7")
      (lit "eve")) (lit "k")).isSome = false := by
  have hexp : expiryAt 0 (some (lit "60")) = 60 := by decide +kernel
  have hid : IsUserId (lit "7") := ⟨by decide, by decide, by decide +kernel⟩
  have hnul : NulFree (lit "eve") := by decide
  have haccepted := (token_expiry_iff zeroHmac 0 (some (lit "60")) (lit "k") hid hnul (by decide)
    ⟨by decide +kernel, by decide +kernel⟩ (by decide +kernel)).mpr fun pre post hfirst =>
      absurd ⟨pre, post, hfirst.1.symm⟩ (by decide +kernel : ¬ expKey <:+: openedName (lit "eve"))
  rw [hexp] at haccepted
  refine ⟨(haccepted 60 (by norm_num) ⟨by norm_num, by norm_num⟩).mpr le_rfl, ?_⟩
  refine Bool.eq_false_iff.mpr fun hlate => ?_
  have := (haccepted 61 (by norm_num) ⟨by norm_num, by norm_num⟩).mp hlate
  norm_num at this

/-- The name `exp":99`. -/
def lastingName : Bytes := lit "exp\":99"

/-- **A name that outlives its token**: issued for a minute, it is still accepted after 99
seconds. -/
theorem token_expiry_lasting :
    IsUserId (lit "7") ∧ NulFree lastingName ∧ lastingName.length ≤ 49 ∧
    FitsLong (expiryAt 0 (some (lit "60"))) ∧ 0 < expiryAt 0 (some (lit "60")) ∧
    ¬ ∀ now, 0 ≤ now → FitsLong now →
      ((jwtValidate zeroHmac now (createJwtForUser zeroHmac 0 (some (lit "60")) (lit "k")
        (lit "7") lastingName) (lit "k")).isSome ↔ now ≤ expiryAt 0 (some (lit "60"))) := by
  have hexp : expiryAt 0 (some (lit "60")) = 60 := by decide +kernel
  refine ⟨⟨by decide, by decide, by decide +kernel⟩, by decide, by decide,
    ⟨by decide +kernel, by decide +kernel⟩, by decide +kernel, ?_⟩
  intro h
  have hlate := (h 99 (by norm_num) ⟨by norm_num, by norm_num⟩).mp (by decide +kernel)
  rw [hexp] at hlate
  norm_num at hlate

end CBank
