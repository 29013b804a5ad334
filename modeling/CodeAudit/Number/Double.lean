import CodeAudit.Word

/-!
# Quotients in 53 binary digits

A double holds 53 binary digits. A quotient that has more is rounded to the nearest one that fits, a
tie to the even one.

* `Double.nearest`: the rounded quotient.
* `Double.roundedMean`: the mean of words, computed in doubles and rounded to an integer.
-/
namespace CodeAudit

/-- The number `digits * 2 ^ exponent`. -/
structure Double where
  digits : Nat
  exponent : Int
  deriving DecidableEq, Repr

namespace Double

/-- The quotient rounded to the nearest integer, a tie to the even one. -/
def roundEven (num den : Nat) : Nat :=
  let q := num / den
  let r := num % den
  if 2 * r < den || (2 * r = den && q % 2 = 0) then q else q + 1

/-- The quotient of two numbers, scaled by a power of two. -/
def scaled (num den : Nat) (exponent : Int) : Nat × Nat :=
  if 0 ≤ exponent then (num, den * Nat.pow 2 exponent.toNat) else (num * Nat.pow 2 (-exponent).toNat, den)

/-- The double nearest to a quotient. -/
def nearest (num den : Nat) : Double :=
  let e : Int := (Nat.log2 num : Int) - Nat.log2 den - 53
  let (n, d) := scaled num den e
  if n < 9007199254740992 * d then ⟨roundEven n d, e⟩
  else
    let (n, d) := scaled num den (e + 1)
    ⟨roundEven n d, e + 1⟩

/-- The number as a quotient. -/
def toQuotient (x : Double) : Nat × Nat :=
  if 0 ≤ x.exponent then (x.digits * Nat.pow 2 x.exponent.toNat, 1)
  else (x.digits, Nat.pow 2 (-x.exponent).toNat)

/-- The nearest integer, a half to the greater one. -/
def round (x : Double) : Nat :=
  let (n, d) := x.toQuotient
  (2 * n + d) / (2 * d)

/-- The mean of some words with the given sum: sum and quotient are doubles, and a half goes away
from zero. -/
def roundedMean (sum : Int) (count : Nat) : Int :=
  let (n, d) := (nearest sum.natAbs 1).toQuotient
  let m := (nearest n (d * count)).round
  wrap (if sum < 0 then -m else m)

end Double
end CodeAudit
