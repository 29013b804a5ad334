import CodeAudit.Number.Double
import CodeAudit.Text.Quoted

/-!
# Durations

A duration is a word of nanoseconds. It is written as numbers with units, `1h2m3.5s`, and read from
such a text: a sign, then one or more numbers, each with a unit and perhaps a fraction.

* `Duration.text`: the shortest such text with hours, minutes and seconds, or one smaller unit below
  a second.
* `Duration.parse`: reads it back; `DurationError.message` says what is wrong.
-/
namespace CodeAudit

/-- Why a text is no duration. -/
inductive DurationError where
  | invalid (t : Text)
  | missingUnit (t : Text)
  | unknownUnit (unit t : Text)
  deriving DecidableEq, Repr

namespace Duration

/-- A text in quotes; bytes outside printable ASCII are written in hexadecimal. -/
def quoted (t : Text) : Text :=
  "\"" ++ t.flatMap (fun b =>
    if b ≥ 128 || b < 32 then utf8 "\\x" ++ hexDigits 2 b.toNat
    else if b == 34 || b == 92 then [92, b]
    else [b]) ++ "\""

end Duration

def DurationError.message : DurationError → Text
  | .invalid t => "time: invalid duration " ++ Duration.quoted t
  | .missingUnit t => "time: missing unit in duration " ++ Duration.quoted t
  | .unknownUnit unit t =>
    "time: unknown unit " ++ Duration.quoted unit ++ " in duration " ++ Duration.quoted t

namespace Duration

/-- One second in nanoseconds. -/
def second : Nat := 1000000000

/-- The first number of nanoseconds that is too long for a duration, `2 ^ 63`. -/
def limit : Nat := 9223372036854775808

/-- A fraction of `10 ^ places` after its point, without zeros at the end; nothing when it is
zero. -/
def pointed (n places : Nat) : Text :=
  let ds := Text.ofInt n
  let ds := Text.trimRightBytes (· == 48) (List.replicate (places - ds.length) 48 ++ ds)
  if ds.isEmpty then [] else utf8 "." ++ ds

/-- A count of the unit that is `10 ^ places` nanoseconds, with a fraction. -/
def inUnit (n places : Nat) (unit : Text) : Text :=
  Text.ofInt (n / Nat.pow 10 places : Nat) ++ pointed (n % Nat.pow 10 places) places ++ unit

def magnitude (n : Nat) : Text :=
  if n = 0 then "0s"
  else if n < 1000 then inUnit n 0 "ns"
  else if n < 1000000 then inUnit n 3 "µs"
  else if n < second then inUnit n 6 "ms"
  else
    let minutes := n / second / 60
    let seconds := inUnit (n % (60 * second)) 9 "s"
    if minutes = 0 then seconds
    else if minutes < 60 then Text.ofInt minutes ++ "m" ++ seconds
    else Text.ofInt (minutes / 60 : Nat) ++ "h" ++ Text.ofInt (minutes % 60 : Nat) ++ "m" ++ seconds

def text (d : Int) : Text := (if d < 0 then utf8 "-" else []) ++ magnitude d.natAbs

/-- The units by name, in nanoseconds. -/
def units : List (Text × Nat) := [
  ("ns", 1), ("us", 1000), ("µs", 1000), ("μs", 1000), ("ms", 1000000), ("s", second),
  ("m", 60 * second), ("h", 3600 * second)]

/-- The number that leading digits write. -/
def number (ds : Text) : Nat := ds.foldl (fun n b => n * 10 + (b.toNat - 48)) 0

/-- The digits of a fraction that count: digits past the capacity of a word are passed over. -/
def fractionFrom : Nat → Nat → Text → Nat × Nat
  | n, places, [] => (n, places)
  | n, places, b :: t =>
    let m := n * 10 + (b.toNat - 48)
    if n > 922337203685477580 || m > limit then (n, places) else fractionFrom m (places + 1) t

/-- A fraction of a unit in nanoseconds: both the unit over the power of ten and the product are
doubles, and what is left below a nanosecond is dropped. -/
def fractionOf (unit n places : Nat) : Nat :=
  if n = 0 then 0
  else
    let (a, b) := (Double.nearest unit (Nat.pow 10 places)).toQuotient
    let (c, d) := (Double.nearest n 1).toQuotient
    let (e, f) := (Double.nearest (a * c) (b * d)).toQuotient
    e / f

/-- Whether a byte belongs to a number. -/
def isNumeric (b : UInt8) : Bool := b == 46 || Text.isDigit b

/-- Adds the numbers with units of a text to a sum. Each round takes at least one byte. -/
def sumFrom (whole : Text) : Nat → Nat → Text → Except DurationError Nat
  | _, sum, [] => .ok sum
  | 0, _, _ => .error (.invalid whole)
  | fuel + 1, sum, b :: rest =>
    if !isNumeric b then .error (.invalid whole)
    else
      let t := b :: rest
      let digits := t.takeWhile Text.isDigit
      let t := t.dropWhile Text.isDigit
      let (fraction, t) := match t with
        | 46 :: t => (t.takeWhile Text.isDigit, t.dropWhile Text.isDigit)
        | _ => ([], t)
      let unit := t.takeWhile (fun b => !isNumeric b)
      let t := t.dropWhile (fun b => !isNumeric b)
      if number digits > limit || digits.isEmpty && fraction.isEmpty then .error (.invalid whole)
      else if unit.isEmpty then .error (.missingUnit whole)
      else match units.lookup unit with
        | none => .error (.unknownUnit unit whole)
        | some u =>
          let (n, places) := fractionFrom 0 0 fraction
          let v := number digits * u + fractionOf u n places
          if number digits > limit / u || v > limit || sum + v > limit then .error (.invalid whole)
          else sumFrom whole fuel (sum + v) t

def parse (t : Text) : Except DurationError Int :=
  let (negative, rest) := match t with
    | 45 :: r => (true, r)
    | 43 :: r => (false, r)
    | r => (false, r)
  if rest == utf8 "0" then .ok 0
  else if rest.isEmpty then .error (.invalid t)
  else match sumFrom t rest.length 0 rest with
    | .error e => .error e
    | .ok n =>
      if negative then .ok (-(n : Int))
      else if n ≥ limit then .error (.invalid t)
      else .ok n

end Duration
end CodeAudit
