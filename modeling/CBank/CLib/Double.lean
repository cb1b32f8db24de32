import CBank.CLib.Number
import Mathlib.Data.Int.Log
import Mathlib.Data.Rat.Floor

/-!
# Floating-Point Numbers in C

`double` as `atof`, `scanf("%lf")` and `printf("%f")` use it. A finite value keeps its sign
apart from its magnitude, so that `-0` is a value of its own; a text is rounded to the nearest
`double`, to the even one of two. Texts of infinities, of NaN and of hexadecimal numbers are
numbers too.

`readDouble` reads the longest number a text starts with, and says whether the text goes on as a
longer number would without becoming one (`1e+`, `0x`, `infi`). `atof` takes the number all the
same; `%lf` has then consumed the rest and assigns nothing.

## Main results

* `numberField_append_cons`: a character that no number contains ends the text that is read.
-/

namespace CLib

/-! ### Values -/

/-- A `double`. -/
inductive Double where
  | finite (negative : Bool) (magnitude : ℚ)
  | infinite (negative : Bool)
  | nan (negative : Bool)
  deriving DecidableEq, Repr

namespace Double

/-- `0.0`. -/
def zero : Double := .finite false 0

/-- The place of a `double` in the order: the finite values by their size, in which both zeros are
one, the infinities below and above them; NaN has none. -/
def place : Double → Option (ℤ × ℚ)
  | .finite negative magnitude => some (0, if negative then -magnitude else magnitude)
  | .infinite negative => some (if negative then -1 else 1, 0)
  | .nan _ => none

/-- `a < b`: false when one of them is NaN. -/
def lt (a b : Double) : Bool :=
  match a.place, b.place with
  | some x, some y => x.1 < y.1 || x.1 = y.1 && x.2 < y.2
  | _, _ => false

/-- `a <= b`: false when one of them is NaN. -/
def le (a b : Double) : Bool :=
  match a.place, b.place with
  | some x, some y => x.1 < y.1 || x.1 = y.1 && x.2 ≤ y.2
  | _, _ => false

instance : LT Double := ⟨fun a b => a.lt b⟩

instance : LE Double := ⟨fun a b => a.le b⟩

instance (a b : Double) : Decidable (a < b) := inferInstanceAs (Decidable (a.lt b = true))

instance (a b : Double) : Decidable (a ≤ b) := inferInstanceAs (Decidable (a.le b = true))

end Double

/-! ### Rounding -/

/-- The nearest natural number, an even one between two. -/
def roundEven (x : ℚ) : ℕ :=
  let n := x.floor.toNat
  if x - n < 1 / 2 then n else if 1 / 2 < x - n then n + 1 else n + n % 2

/-- Two neighbouring values around `x` are `2 ^ spacing x` apart: 53 bits of `x`, and never
less than the smallest positive value. -/
def spacing (x : ℚ) : ℤ := max (-1074) (Int.log 2 x - 52)

/-- The `double` nearest to a number of this sign and magnitude; from `2 ^ 1024` on it is
infinite. -/
def nearestDouble (negative : Bool) (x : ℚ) : Double :=
  let magnitude : ℚ := roundEven (x / 2 ^ spacing x) * 2 ^ spacing x
  if 2 ^ 1024 ≤ magnitude then .infinite negative else .finite negative magnitude

/-! ### Reading -/

/-- `isxdigit`, in lower case. -/
def isHexDigit (c : UInt8) : Bool := isDigit c || (97 ≤ c && c ≤ 102)

/-- The value of a digit. -/
def digitValue (c : UInt8) : ℕ := if isDigit c then c.toNat - 48 else c.toNat - 87

/-- A way to write a number: its digits and their base, the letter of its exponent, and the
number the exponent raises. -/
structure Radix where
  isDigit : UInt8 → Bool
  base : ℕ
  mark : UInt8
  power : ℚ

/-- `12.5e-3`. -/
def decimal : Radix := ⟨isDigit, 10, 101, 10⟩

/-- `0x1.8p3`, without its prefix. -/
def hexadecimal : Radix := ⟨isHexDigit, 16, 112, 2⟩

/-- The exponent a text starts with, and whether the text breaks off before its digits. -/
def Radix.readExponent (r : Radix) : Bytes → ℤ × Bool
  | [] => (0, false)
  | c :: t =>
      if c = r.mark then (if (scanInt t).isSome then (readInt t, false) else (0, true))
      else (0, false)

/-- The digits after a point, and what follows them. -/
def Radix.fraction (r : Radix) : Bytes → Bytes × Bytes
  | 46 :: t => (t.takeWhile r.isDigit, t.dropWhile r.isDigit)
  | t => ([], t)

/-- The number a text starts with, and whether its exponent breaks off; `none` when no digit
comes first. -/
def Radix.read (r : Radix) (s : Bytes) : Option (ℚ × Bool) :=
  let whole := s.takeWhile r.isDigit
  let (fraction, rest) := r.fraction (s.dropWhile r.isDigit)
  let (exponent, broken) := r.readExponent rest
  let digits := whole ++ fraction
  let value := digits.foldl (fun n d => r.base * n + digitValue d) 0
  if digits.isEmpty then none
  else some (value / r.base ^ fraction.length * r.power ^ exponent, broken)

/-- The characters a number can contain. -/
def isNumberChar (c : UInt8) : Bool :=
  isDigit c || (65 ≤ c && c ≤ 90) || (97 ≤ c && c ≤ 122) || [43, 45, 46, 95, 40, 41].contains c

/-- The text a number is read from, in lower case: it ends before the first character that no
number contains. -/
def numberField (s : Bytes) : Bytes :=
  ((s.dropWhile isSpace).takeWhile isNumberChar).map toLower

/-- The text after `nan` goes on with a parenthesis that is not closed. -/
def opensOnly (s : Bytes) : Bool :=
  s.head? = some 40 && (s.tail.dropWhile fun c => c = 95 || isDigit c || (97 ≤ c && c ≤ 122)).head?
    ≠ some 41

/-- The number a text starts with, in lower case and after its sign. -/
def readUnsigned (negative : Bool) (t : Bytes) : Option (Double × Bool) :=
  if t.take 3 = lit "inf" then
    some (.infinite negative, t.take 8 ≠ lit "infinity" && (t.drop 3).head? = some 105)
  else if t.take 3 = lit "nan" then some (.nan negative, opensOnly (t.drop 3))
  else if t.take 2 = lit "0x" then
    match hexadecimal.read (t.drop 2) with
    | some (x, broken) => some (nearestDouble negative x, broken)
    | none => some (.finite negative 0, true)
  else (decimal.read t).map fun p => (nearestDouble negative p.1, p.2)

/-- The longest number a text starts with, and whether the text breaks off within a longer
one. -/
def readDouble (s : Bytes) : Option (Double × Bool) :=
  match numberField s with
  | 45 :: t => readUnsigned true t
  | 43 :: t => readUnsigned false t
  | t => readUnsigned false t

/-- `atof`. -/
def atof (s : Bytes) : Double :=
  match readDouble s with
  | some (x, _) => x
  | none => .zero

/-- `sscanf(s, "%lf", &x)`: the value assigned to `x`. -/
def scanDouble (s : Bytes) : Option Double :=
  match readDouble s with
  | some (x, false) => some x
  | _ => none

-- `2 ^ 53 + 1` is no `double`.
example : atof (lit "9007199254740993") = atof (lit "9007199254740992") := by decide +kernel

/-- What follows a character that no number contains is not read. -/
theorem numberField_append_cons {c : UInt8} (hnumber : isNumberChar c = false)
    (hspace : isSpace c = false) (s t : Bytes) : numberField (s ++ c :: t) = numberField s := by
  rw [numberField, dropWhile_isSpace_append_cons hspace, takeWhile_append_cons hnumber,
    numberField]

/-- Nor is it scanned. -/
theorem scanDouble_append_cons {c : UInt8} (hnumber : isNumberChar c = false)
    (hspace : isSpace c = false) (s t : Bytes) : scanDouble (s ++ c :: t) = scanDouble s := by
  rw [scanDouble, readDouble, numberField_append_cons hnumber hspace, scanDouble, readDouble]

/-! ### Printing -/

/-- `printf("%.<prec>f")`, for a positive precision. -/
def printFixed (prec : ℕ) : Double → Bytes
  | .finite negative magnitude =>
      let digits := printNat (roundEven (magnitude * 10 ^ prec))
      let padded := List.replicate (prec + 1 - digits.length) 48 ++ digits
      let whole := padded.take (padded.length - prec)
      (if negative then [45] else []) ++ whole ++ 46 :: padded.drop whole.length
  | .infinite negative => (if negative then [45] else []) ++ lit "inf"
  | .nan negative => (if negative then [45] else []) ++ lit "nan"

end CLib
