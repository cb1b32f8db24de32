import CBank.CLib.Text
import Mathlib.Data.Nat.Digits.Lemmas

/-!
# Decimal Numbers in C

`printf("%d")`, `atol` and `scanf("%d")` on byte strings. A number is printed by
`printNat` and `printInt`; `readInt` is the integer a text starts with, read the way
`strtol` does: leading white space, an optional sign, then digits. The library functions
clamp or wrap that integer to their result type (`atol`, `atoi`).

## Main results

* `readInt_printInt`: a printed integer followed by a non-digit reads back as itself.
* `atol_of_fitsLong`: `atol` is `readInt` on integers that fit a `long`.
* `length_printNat_le`: how many bytes a bounded number takes.
-/

namespace CLib

/-- `LONG_MAX` of a 64-bit `long`. -/
abbrev longMax : ℤ := 2 ^ 63 - 1

/-- `INT_MAX` of a 32-bit `int`. -/
abbrev intMax : ℤ := 2 ^ 31 - 1

/-- The integers a `long` can hold. -/
def FitsLong (z : ℤ) : Prop := -2 ^ 63 ≤ z ∧ z ≤ longMax

/-- `isspace` in the C locale. -/
def isSpace (c : UInt8) : Bool := c == 32 || (9 ≤ c && c ≤ 13)

/-- `isdigit`. -/
def isDigit (c : UInt8) : Bool := 48 ≤ c && c ≤ 57

/-- `tolower` in the C locale. -/
def toLower (c : UInt8) : UInt8 := if ch 'A' ≤ c ∧ c ≤ ch 'Z' then c + 32 else c

/-- The value of a run of digits. -/
def digitsValue (ds : Bytes) : ℕ := ds.foldl (fun n d => 10 * n + (d.toNat - 48)) 0

/-- The number the leading digits of a text denote; `0` when there is none. -/
def readNat (s : Bytes) : ℕ := digitsValue (s.takeWhile isDigit)

/-- The integer a text starts with, after white space and an optional sign. -/
def readInt (s : Bytes) : ℤ :=
  match s.dropWhile isSpace with
  | 45 :: t => -(readNat t : ℤ)
  | 43 :: t => readNat t
  | t => readNat t

/-- `atol`: out-of-range values are clamped. -/
def atol (s : Bytes) : ℤ := max (-2 ^ 63) (min longMax (readInt s))

/-- The value of a `long` stored in an `int`. -/
def toInt32 (z : ℤ) : ℤ := Int.bmod z (2 ^ 32)

/-- `atoi`. -/
def atoi (s : Bytes) : ℤ := toInt32 (atol s)

/-- `sscanf(s, "%d", &x)`: the value assigned to `x`; `none` when no digit follows the
white space and the sign. -/
def scanInt (s : Bytes) : Option ℤ :=
  let t := s.dropWhile isSpace
  let ds := match t with
    | 45 :: u => u
    | 43 :: u => u
    | u => u
  if (ds.takeWhile isDigit).isEmpty then none else some (atoi s)

/-- `printf("%d")` of a natural number. -/
def printNat (n : ℕ) : Bytes :=
  if n = 0 then [48] else (Nat.digits 10 n).reverse.map fun d => (48 + d).toUInt8

/-- `printf("%d")` and `printf("%ld")`. -/
def printInt : ℤ → Bytes
  | Int.ofNat n => printNat n
  | Int.negSucc n => 45 :: printNat (n + 1)

/-- `printf("%0<width>d")`: zeros between the sign and the digits. -/
def printPadded (width : ℕ) : ℤ → Bytes
  | Int.ofNat n => List.replicate (width - (printNat n).length) 48 ++ printNat n
  | Int.negSucc n =>
      45 :: (List.replicate (width - 1 - (printNat (n + 1)).length) 48 ++ printNat (n + 1))

theorem atol_of_fitsLong {s : Bytes} (h : FitsLong (readInt s)) : atol s = readInt s := by
  obtain ⟨h1, h2⟩ := h
  rw [atol, min_eq_right h2, max_eq_right h1]

theorem toInt32_of_range {z : ℤ} (h1 : -2 ^ 31 ≤ z) (h2 : z ≤ intMax) : toInt32 z = z := by
  have h2' : z ≤ 2 ^ 31 - 1 := h2
  rw [toInt32, Int.bmod_eq_of_le (by omega) (by omega)]

/-! ### Printing and reading -/

theorem digitsValue_printNat (n : ℕ) : digitsValue (printNat n) = n := by
  by_cases hn : n = 0
  · simp [printNat, hn, digitsValue]
  · rw [printNat, if_neg hn, digitsValue, List.foldl_map, List.foldl_reverse]
    have hval : ∀ (l : List ℕ), (∀ d ∈ l, d < 10) →
        l.foldr (fun d n => 10 * n + ((48 + d).toUInt8.toNat - 48)) 0 = Nat.ofDigits 10 l := by
      intro l
      induction l with
      | nil => simp
      | cons d l ih =>
          intro hl
          have hd : d < 10 := hl d List.mem_cons_self
          rw [List.foldr_cons, ih fun x hx => hl x (List.mem_cons_of_mem _ hx),
            Nat.ofDigits_cons]
          have : (48 + d).toUInt8.toNat = 48 + d := by
            simp [Nat.toUInt8, UInt8.toNat_ofNat']
            omega
          omega
    rw [hval _ fun d hd => Nat.digits_lt_base (by norm_num) hd, Nat.ofDigits_digits]

theorem isDigit_of_mem_printNat {n : ℕ} {c : UInt8} (hc : c ∈ printNat n) :
    isDigit c = true := by
  have hdig : ∀ d < 10, isDigit (48 + d).toUInt8 = true := by decide
  by_cases hn : n = 0
  · rw [printNat, if_pos hn, List.mem_singleton] at hc
    rw [hc]
    decide
  · rw [printNat, if_neg hn, List.mem_map] at hc
    obtain ⟨d, hd, rfl⟩ := hc
    exact hdig d (Nat.digits_lt_base (by norm_num) (List.mem_reverse.mp hd))

theorem not_mem_of_isDigit {s : Bytes} (hs : ∀ c ∈ s, isDigit c = true) {d : UInt8}
    (hd : isDigit d = false) : d ∉ s := by
  intro h
  rw [hs d h] at hd
  exact Bool.noConfusion hd

theorem printNat_ne_nil (n : ℕ) : printNat n ≠ [] := by
  by_cases hn : n = 0
  · simp [printNat, hn]
  · rw [printNat, if_neg hn]
    simpa using Nat.digits_ne_nil_iff_ne_zero.mpr hn

/-- A text that does not go on with a digit. -/
def NoDigit (s : Bytes) : Prop := ∀ c ∈ s.head?, isDigit c = false

theorem noDigit_nil : NoDigit [] := by simp [NoDigit]

theorem noDigit_cons {c : UInt8} (h : isDigit c = false) (s : Bytes) : NoDigit (c :: s) := by
  simpa [NoDigit] using h

theorem readNat_append {ds rest : Bytes} (hds : ∀ c ∈ ds, isDigit c = true)
    (hrest : NoDigit rest) : readNat (ds ++ rest) = digitsValue ds := by
  rw [readNat, List.takeWhile_append_of_pos hds]
  cases rest with
  | nil => simp
  | cons c rest =>
      have hc : isDigit c = false := hrest c (by simp)
      simp [hc]

/-- A digit is neither white space nor a sign. -/
theorem space_sign_of_isDigit {c : UInt8} (hc : isDigit c = true) :
    isSpace c = false ∧ c ≠ 45 ∧ c ≠ 43 := by
  simp only [isDigit, isSpace, Bool.and_eq_true, decide_eq_true_eq, UInt8.le_iff_toNat_le,
    Bool.or_eq_false_iff, beq_eq_false_iff_ne, ne_eq, Bool.and_eq_false_iff,
    decide_eq_false_iff_not, ← UInt8.toNat_inj] at hc ⊢
  simp only [UInt8.reduceToNat] at hc ⊢
  omega

/-- **A printed integer reads back as itself**, whatever follows it but a digit. -/
theorem readInt_printInt (z : ℤ) {rest : Bytes} (hrest : NoDigit rest) :
    readInt (printInt z ++ rest) = z := by
  cases z with
  | ofNat n =>
      obtain ⟨c, ds, hcds⟩ := List.exists_cons_of_ne_nil (printNat_ne_nil n)
      have hdig : ∀ x ∈ c :: ds, isDigit x = true := fun x hx =>
        isDigit_of_mem_printNat (hcds ▸ hx)
      obtain ⟨h1, h2, h3⟩ := space_sign_of_isDigit (hdig c List.mem_cons_self)
      have hdrop : (c :: ds ++ rest).dropWhile isSpace = c :: ds ++ rest := by simp [h1]
      rw [printInt, hcds, readInt, hdrop]
      have hread := readNat_append hdig hrest
      rw [← hcds, digitsValue_printNat, hcds] at hread
      split
      · rename_i t heq
        exact absurd (List.cons.inj heq).1 h2
      · rename_i t heq
        exact absurd (List.cons.inj heq).1 h3
      · rw [hread]
        rfl
  | negSucc n =>
      have hread : readNat (printNat (n + 1) ++ rest) = digitsValue (printNat (n + 1)) :=
        readNat_append (fun x hx => isDigit_of_mem_printNat hx) hrest
      have hdrop : (printInt (Int.negSucc n) ++ rest).dropWhile isSpace =
          45 :: (printNat (n + 1) ++ rest) := by
        have : isSpace 45 = false := by decide
        simp [printInt, this]
      rw [readInt, hdrop]
      simp only [hread, digitsValue_printNat]
      omega

theorem takeWhile_append_cons {p : UInt8 → Bool} {c : UInt8} (hc : p c = false) (s t : Bytes) :
    (s ++ c :: t).takeWhile p = s.takeWhile p := by
  induction s with
  | nil => simp [hc]
  | cons x s ih => by_cases hx : p x <;> simp [hx, ih]

theorem dropWhile_isSpace_append_cons {c : UInt8} (hspace : isSpace c = false) (s t : Bytes) :
    (s ++ c :: t).dropWhile isSpace = s.dropWhile isSpace ++ c :: t := by
  induction s with
  | nil => simp [hspace]
  | cons x s ih => by_cases hx : isSpace x <;> simp [hx, ih]

/-- What follows a character that no number contains is not read. -/
theorem readInt_append_cons {c : UInt8} (hdigit : isDigit c = false) (hspace : isSpace c = false)
    (hminus : c ≠ 45) (hplus : c ≠ 43) (s t : Bytes) : readInt (s ++ c :: t) = readInt s := by
  have hnat : ∀ u : Bytes, readNat (u ++ c :: t) = readNat u := by
    intro u
    rw [readNat, takeWhile_append_cons hdigit u t, readNat]
  rw [readInt, dropWhile_isSpace_append_cons hspace, readInt]
  cases s.dropWhile isSpace with
  | nil =>
      rw [List.nil_append]
      split
      · rename_i heq
        exact absurd (List.cons.inj heq).1 hminus
      · rename_i heq
        exact absurd (List.cons.inj heq).1 hplus
      · exact congrArg Nat.cast (hnat [])
  | cons x u =>
      rw [List.cons_append]
      split
      · rename_i heq
        obtain ⟨rfl, rfl⟩ := List.cons.inj heq
        simp only [hnat]
      · rename_i heq
        obtain ⟨rfl, rfl⟩ := List.cons.inj heq
        simp only [hnat]
      · rename_i h1 h2
        have hx1 : x ≠ 45 := fun h => h1 _ (by rw [h])
        have hx2 : x ≠ 43 := fun h => h2 _ (by rw [h])
        have hread := hnat (x :: u)
        rw [List.cons_append] at hread
        split
        · rename_i heq
          exact absurd (List.cons.inj heq).1 hx1
        · rename_i heq
          exact absurd (List.cons.inj heq).1 hx2
        · rw [hread]

/-! ### Scanning -/

/-- A printed `int` is scanned by `%d`. -/
theorem scanInt_printNat {n : ℕ} (hn : (n : ℤ) ≤ intMax) {rest : Bytes}
    (hrest : NoDigit rest) : scanInt (printNat n ++ rest) = some n := by
  have hread : readInt (printNat n ++ rest) = n := readInt_printInt n hrest
  have hlong : FitsLong (readInt (printNat n ++ rest)) := by
    rw [hread]
    have hn' : (n : ℤ) ≤ 2 ^ 31 - 1 := hn
    constructor
    · omega
    · change (n : ℤ) ≤ 2 ^ 63 - 1
      omega
  have hatoi : atoi (printNat n ++ rest) = n := by
    rw [atoi, atol_of_fitsLong hlong, hread, toInt32_of_range (by omega) hn]
  obtain ⟨c, ds, hcds⟩ := List.exists_cons_of_ne_nil (printNat_ne_nil n)
  have hdig : isDigit c = true := isDigit_of_mem_printNat (hcds ▸ List.mem_cons_self)
  have hsp : isSpace c = false ∧ c ≠ 45 ∧ c ≠ 43 := space_sign_of_isDigit hdig
  have hdrop : (c :: ds ++ rest).dropWhile isSpace = c :: ds ++ rest := by simp [hsp.1]
  rw [scanInt, hatoi, hcds, hdrop]
  simp [hsp.2.1, hsp.2.2, hdig]

/-- What follows a character that no number contains is not scanned. -/
theorem scanInt_append_cons {c : UInt8} (hdigit : isDigit c = false) (hspace : isSpace c = false)
    (hminus : c ≠ 45) (hplus : c ≠ 43) (s t : Bytes) : scanInt (s ++ c :: t) = scanInt s := by
  have hatoi : atoi (s ++ c :: t) = atoi s := by
    rw [atoi, atol, readInt_append_cons hdigit hspace hminus hplus, atoi, atol]
  have hdigits : ∀ u : Bytes, (u ++ c :: t).takeWhile isDigit = u.takeWhile isDigit := fun u =>
    takeWhile_append_cons hdigit u t
  rw [scanInt, hatoi, dropWhile_isSpace_append_cons hspace, scanInt]
  cases s.dropWhile isSpace with
  | nil => simp [hminus, hplus, hdigit]
  | cons x u =>
      rcases eq_or_ne x 45 with rfl | hx
      · simp [hdigits]
      · rcases eq_or_ne x 43 with rfl | hx'
        · simp [hdigits]
        · have hcons := hdigits (x :: u)
          rw [List.cons_append] at hcons
          simp [hx, hx', hcons]

/-- What `%d` assigns is an `int`. -/
theorem scanInt_range {s : Bytes} {z : ℤ} (h : scanInt s = some z) : -2 ^ 31 ≤ z ∧ z ≤ intMax := by
  have hz : z = atoi s := by
    simp only [scanInt, Option.ite_none_left_eq_some, Option.some.injEq] at h
    exact h.2.symm
  rw [hz, atoi, toInt32]
  have hlow := Int.le_bmod (x := atol s) (m := 2 ^ 32) (by norm_num)
  have hhigh := Int.bmod_lt (x := atol s) (m := 2 ^ 32) (by norm_num)
  change -2 ^ 31 ≤ _ ∧ _ ≤ (2 : ℤ) ^ 31 - 1
  norm_num at hlow hhigh ⊢
  omega

/-! ### How long a printed number is -/

theorem length_printNat_le {n k : ℕ} (hk : 0 < k) (h : n < 10 ^ k) :
    (printNat n).length ≤ k := by
  by_cases hn : n = 0
  · simp [printNat, hn]
    omega
  · rw [printNat, if_neg hn, List.length_map, List.length_reverse]
    exact (Nat.digits_length_le_iff (by norm_num) n).mpr h

/-- A number that needs no more digits is padded to the width. -/
theorem length_printPadded {width : ℕ} (hwidth : 0 < width) {z : ℤ} (hpos : 0 ≤ z)
    (h : z < 10 ^ width) : (printPadded width z).length = width := by
  obtain ⟨n, rfl⟩ := Int.eq_ofNat_of_zero_le hpos
  have hlen := length_printNat_le hwidth (by exact_mod_cast h : n < 10 ^ width)
  change (List.replicate (width - (printNat n).length) 48 ++ printNat n).length = width
  rw [List.length_append, List.length_replicate]
  omega

/-- A `long` takes at most 20 bytes. -/
theorem length_printInt_le {z : ℤ} (h : FitsLong z) : (printInt z).length ≤ 20 := by
  obtain ⟨h1, h2⟩ : -2 ^ 63 ≤ z ∧ z ≤ 2 ^ 63 - 1 := h
  cases z with
  | ofNat n =>
      have := length_printNat_le (n := n) (k := 19) (by norm_num) (by
        simp only [Int.ofNat_eq_natCast] at h2
        omega)
      simp only [printInt]
      omega
  | negSucc n =>
      have := length_printNat_le (n := n + 1) (k := 19) (by norm_num) (by omega)
      simp only [printInt, List.length_cons]
      omega

/-- A printed integer has only digits and the minus sign. -/
theorem not_mem_printInt {c : UInt8} (hdigit : isDigit c = false) (hminus : c ≠ 45) (z : ℤ) :
    c ∉ printInt z := by
  have hnat : ∀ n, c ∉ printNat n := fun n =>
    not_mem_of_isDigit (fun _ h => isDigit_of_mem_printNat h) hdigit
  cases z with
  | ofNat n => exact hnat n
  | negSucc n =>
      rw [printInt, List.mem_cons, not_or]
      exact ⟨hminus, hnat _⟩

theorem nulFree_printInt (z : ℤ) : NulFree (printInt z) :=
  not_mem_printInt (by decide) (by decide) z

end CLib
