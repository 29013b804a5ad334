import CodeAudit.Text.Basic

/-!
# Instants

A point in time as nanoseconds since the start of 1970, and its text in the internet date format:
`1970-01-01T00:01:00Z`, with a fraction of a second only where there is one.

* `Instant.civil`: the year, month and day of a day number.
* `Instant.text`: the date format.
-/
namespace CodeAudit

/-- Nanoseconds since the start of 1970, in universal time. -/
structure Instant where
  nanoseconds : Int
  deriving DecidableEq, Repr, Inhabited

namespace Instant

/-- The instant some seconds after the start of 1970. -/
def ofSeconds (n : Int) : Instant := ⟨n * 1000000000⟩

/-- The calendar date of a day counted from the start of 1970. Years start in March here, so that
the leap day is the last day of a year, and an era is 400 years. -/
def civil (day : Int) : Int × Nat × Nat :=
  let shifted := day + 719468
  let era := shifted.fdiv 146097
  let inEra := (shifted - era * 146097).toNat
  let year := (inEra - inEra / 1460 + inEra / 36524 - inEra / 146096) / 365
  let inYear := inEra - (365 * year + year / 4 - year / 100)
  let marched := (5 * inYear + 2) / 153
  let month := if marched < 10 then marched + 3 else marched - 9
  (era * 400 + year + (if month ≤ 2 then 1 else 0), month, inYear - (153 * marched + 2) / 5 + 1)

/-- A number in at least `width` digits. -/
def padded (width : Nat) (n : Nat) : Text :=
  let ds := Text.ofInt n
  List.replicate (width - ds.length) 48 ++ ds

/-- The fraction of a second, without the zeros at its end. -/
def fraction (nanoseconds : Nat) : Text :=
  if nanoseconds = 0 then []
  else utf8 "." ++ Text.trimRightBytes (· == 48) (padded 9 nanoseconds)

/-- The instant in the internet date format. -/
def text (i : Instant) : Text :=
  let seconds := i.nanoseconds.fdiv 1000000000
  let rest := (i.nanoseconds - seconds * 1000000000).toNat
  let day := seconds.fdiv 86400
  let inDay := (seconds - day * 86400).toNat
  let (year, month, date) := civil day
  padded 4 year.toNat ++ "-" ++ padded 2 month ++ "-" ++ padded 2 date ++ "T"
    ++ padded 2 (inDay / 3600) ++ ":" ++ padded 2 (inDay / 60 % 60) ++ ":" ++ padded 2 (inDay % 60)
    ++ fraction rest ++ "Z"

end Instant
end CodeAudit
