import CodeAudit.Finding
import CodeAudit.Word

/-!
# Risk scores

The score of a list of findings is the sum of the weights of their severities, cut off at 100.
-/
namespace CodeAudit

/-- What one finding of each severity adds to the score. -/
structure Weights where
  critical : Int
  high : Int
  medium : Int
  low : Int
  deriving DecidableEq, Repr

/-- A weight that is below zero. -/
structure NegativeWeight where
  severity : Severity
  weight : Int
  deriving DecidableEq, Repr

def NegativeWeight.message (e : NegativeWeight) : Text :=
  "weight for " ++ e.severity.label ++ " is negative: " ++ Text.ofInt e.weight

namespace Weights

def default : Weights := { critical := 25, high := 15, medium := 8, low := 3 }

/-- The weight of a severity; zero for an unknown label. -/
def weight (w : Weights) : Severity → Int
  | .critical => w.critical
  | .high => w.high
  | .medium => w.medium
  | .low => w.low
  | .other _ => 0

/-- The first weight below zero, from the gravest severity on. -/
def fault? (w : Weights) : Option NegativeWeight :=
  (Severity.all.find? fun s => w.weight s < 0).map fun s => ⟨s, w.weight s⟩

end Weights

namespace Score

def max : Int := 100

/-- Adds the weights of the severities to `total`, and stops when the greatest score is
reached. -/
def sumFrom (w : Weights) : Int → List Severity → Int
  | total, [] => if total < 0 then 0 else total
  | total, s :: rest =>
    let total := wrap (total + w.weight s)
    if max ≤ total then max else sumFrom w total rest

def ofSeverities (w : Weights) (ss : List Severity) : Int := sumFrom w 0 ss

def ofFindings (w : Weights) (fs : List Finding) : Int := ofSeverities w (fs.map (·.severity))

/-- The band of a score, as shown to readers. -/
def level (score : Int) : Text :=
  if score ≤ 0 then "None"
  else if score < 30 then "Low"
  else if score < 60 then "Medium"
  else if score < 80 then "High"
  else "Critical"

end Score
end CodeAudit
