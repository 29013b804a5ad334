import CodeAudit.Text.Quoted
import CodeAudit.Word

/-!
# Integer literals

An integer may have a sign, a base (`0b`, `0o`, `0x`, or a leading `0` for octal) and underscores
between its digits, and it is a word.
-/
namespace CodeAudit

/-- What is wrong with a literal. -/
inductive LiteralFault where
  | syntactic
  | range
  deriving DecidableEq, Repr

def LiteralFault.message : LiteralFault → Text
  | .syntactic => "invalid syntax"
  | .range => "value out of range"

namespace Literal

def digit? (b : UInt8) : Option Nat :=
  let b := Text.asciiLower b
  if Text.isDigit b then some (b.toNat - 48)
  else if 97 ≤ b && b ≤ 122 then some (b.toNat - 87)
  else none

/-- The number that digits write in a base after the number `n`. Underscores are passed over. -/
def digitsFrom (base : Nat) : Nat → Text → Except LiteralFault Nat
  | n, [] => .ok n
  | n, b :: t =>
    if b == 95 then digitsFrom base n t
    else match digit? b with
      | none => .error .syntactic
      | some d =>
        if base ≤ d then .error .syntactic
        else if 18446744073709551616 ≤ n * base + d then .error .range
        else digitsFrom base (n * base + d) t

/-- Whether every underscore stands between digits. -/
def isSpaced : Bool → Text → Bool
  | afterDigit, [] => afterDigit
  | afterDigit, b :: t => if b == 95 then afterDigit && isSpaced false t else isSpaced true t

/-- The base of a literal without sign, its digits, and whether a mark stands in front of them. -/
def radix : Text → Nat × Text × Bool
  | 48 :: m :: d :: t =>
    let mark := Text.asciiLower m
    if mark == 98 then (2, d :: t, true)
    else if mark == 111 then (8, d :: t, true)
    else if mark == 120 then (16, d :: t, true)
    else (8, m :: d :: t, false)
  | 48 :: t => (8, t, false)
  | t => (10, t, false)

/-- The number of a literal without sign. -/
def unsigned (t : Text) : Except LiteralFault Nat :=
  if t.isEmpty then .error .syntactic
  else
    let (base, digits, marked) := radix t
    match digitsFrom base 0 digits with
    | .error f => .error f
    | .ok n =>
      if !(digits.any (· == 95)) || isSpaced (marked || base == 8) digits then .ok n
      else .error .syntactic

def parse (t : Text) : Except LiteralFault Int := do
  let (negative, digits) := match t with
    | 43 :: t => (false, t)
    | 45 :: t => (true, t)
    | t => (false, t)
  let n ← unsigned digits
  let i : Int := if negative then -(n : Int) else n
  if fitsWord i then .ok i else .error .range

end Literal
end CodeAudit
