import Mathlib.Algebra.Group.Nat.Defs
import Nox.Lib.JsonText
import Mathlib.Data.Nat.Log

/-!
# Single precision and decimal numbers

The finite values of a `float`, how a stream prints them with six significant digits,
and how a decimal number becomes a `float`, by way of a `double`.
-/

namespace Nox.Lib

open Lib.Json (Decimal Numeral)

section Values

/-! ## Values -/

/-- The significands and exponents of single precision, each value once. -/
def Binary32.Canonical (mant : Nat) (exp : Int) : Prop :=
  mant < 2 ^ 24 ∧ -149 ≤ exp ∧ exp ≤ 104 ∧ (2 ^ 23 ≤ mant ∨ exp = -149)

instance (mant : Nat) (exp : Int) : Decidable (Binary32.Canonical mant exp) :=
  inferInstanceAs (Decidable (_ ∧ _ ∧ _ ∧ _))

/-- A `float` that is a number or infinite. -/
inductive Binary32
  | finite (neg : Bool) (mant : Nat) (exp : Int) (canonical : Binary32.Canonical mant exp)
  | infinite (neg : Bool)
  deriving DecidableEq

/-- `n / d`, to the nearest integer, and to the even one of two. -/
def roundHalfEven (n d : Nat) : Nat :=
  let q := n / d
  if 2 * (n % d) < d then q
  else if d < 2 * (n % d) then q + 1
  else if q % 2 = 0 then q else q + 1

/-- `n / d` times a power of `b`, as a fraction. -/
def scale (b : Nat) (n d : Nat) : Int → Nat × Nat
  | .ofNat k => (n * b ^ k, d)
  | .negSucc k => (n, d * b ^ (k + 1))

/-- The largest `e` with `b ^ e ≤ n / d`, if it is not below `-k`. -/
def logFloor (k b n d : Nat) : Int :=
  (Nat.log b (n * b ^ k / d) : Int) - k

end Values

section Printing

/-! ## `operator<<` -/

/-- Trailing zeros are dropped. -/
def stripZeros : Nat → Nat → Int → Nat × Int
  | 0, n, e => (n, e)
  | fuel + 1, n, e => if n ≠ 0 ∧ n % 10 = 0 then stripZeros fuel (n / 10) (e + 1) else (n, e)

/-- The decimal number of six significant digits next to `±mant · 2 ^ exp`. -/
def sixDigits (neg : Bool) (mant : Nat) (exp : Int) : Decimal :=
  if mant = 0 then ⟨neg, 0, 0⟩
  else
    let (n, d) := scale 2 mant 1 exp
    let e := logFloor 60 10 n d - 5
    let (n, d) := scale 10 n d (-e)
    let (digits, e) := stripZeros 6 (roundHalfEven n d) e
    ⟨neg, digits, e⟩

/-- The exponent of the first digit. -/
def Decimal.firstExp (d : Decimal) : Int :=
  d.exp + ((Nat.toDigits 10 d.digits).length : Int) - 1

/-- An exponent has two digits at least. -/
def expDigits (n : Nat) : List Char :=
  if n < 10 then '0' :: Nat.toDigits 10 n else Nat.toDigits 10 n

/-- The format `%g`, for a number without trailing zeros. -/
def decimalNumeral (d : Decimal) : Numeral :=
  let ds := Nat.toDigits 10 d.digits
  let x := Decimal.firstExp d
  if d.digits = 0 then { neg := d.neg, int := ['0'], frac := none, exp := none }
  else if x < -4 ∨ 6 ≤ x then
    { neg := d.neg
      int := ds.take 1
      frac := if ds.length = 1 then none else some (ds.drop 1)
      exp := some (decide (x < 0), expDigits x.natAbs) }
  else if 0 ≤ d.exp then
    { neg := d.neg, int := ds ++ List.replicate d.exp.toNat '0', frac := none, exp := none }
  else if 0 ≤ x then
    { neg := d.neg, int := ds.take (x.toNat + 1), frac := some (ds.drop (x.toNat + 1)),
      exp := none }
  else
    { neg := d.neg, int := ['0'], frac := some (List.replicate ((-x).toNat - 1) '0' ++ ds),
      exp := none }

def Binary32.print : Binary32 → List Char
  | .finite neg mant exp _ => (decimalNumeral (sixDigits neg mant exp)).text
  | .infinite neg => (if neg then ['-'] else []) ++ ['i', 'n', 'f']

end Printing

section Reading

/-! ## `strtod`, and the conversion to `float` -/

/-- The significand of `p` bits and the exponent, not below `low`, next to `n / d`. -/
def roundBinary (p : Nat) (low : Int) (n d : Nat) : Nat × Int :=
  if n = 0 then (0, low)
  else
    let e := max low (logFloor 1200 2 n d - (p - 1))
    let (n, d) := scale 2 n d (-e)
    let m := roundHalfEven n d
    if m = 2 ^ p then (2 ^ (p - 1), e + 1) else (m, e)

/-- What does not fit is infinite. -/
def Binary32.ofParts (neg : Bool) (p : Nat × Int) : Binary32 :=
  if h : Binary32.Canonical p.1 p.2 then .finite neg p.1 p.2 h else .infinite neg

/-- The `float` of a decimal number, rounded to a `double` and then again. -/
def Binary32.ofDecimal (x : Decimal) : Binary32 :=
  let (n, d) := scale 10 x.digits 1 x.exp
  let (m, e) := roundBinary 53 (-1074) n d
  if 971 < e then .infinite x.neg
  else
    let (n, d) := scale 2 m 1 e
    Binary32.ofParts x.neg (roundBinary 24 (-149) n d)

end Reading

end Nox.Lib
