import CodeAudit.Text.Blank
import CodeAudit.Text.Case

/-!
# Severities

How grave a finding is. A label that names no known severity is kept as `Severity.other`; it ranks
below all known ones.
-/
namespace CodeAudit

/-- The gravity of a finding, or an unknown label. -/
inductive Severity where
  | critical
  | high
  | medium
  | low
  | other (label : Text)
  deriving DecidableEq, Repr, Inhabited

namespace Severity

def label : Severity → Text
  | critical => "Critical"
  | high => "High"
  | medium => "Medium"
  | low => "Low"
  | other l => l

/-- The known severities, gravest first. -/
def all : List Severity := [critical, high, medium, low]

def ofLabel (l : Text) : Severity := (all.find? (·.label == l)).getD (other l)

/-- The severity a spelling names, up to letter case and surrounding white space. -/
def parse? (t : Text) : Option Severity :=
  let t := t.trim.lower
  all.find? (·.label.lower == t)

/-- The order of severities; zero for an unknown label. -/
def rank : Severity → Nat
  | critical => 4
  | high => 3
  | medium => 2
  | low => 1
  | other _ => 0

def isKnown (s : Severity) : Bool := 0 < s.rank

/-- Whether a severity is at least as grave as another. -/
def atLeast (s t : Severity) : Bool := t.rank ≤ s.rank

end Severity
end CodeAudit
