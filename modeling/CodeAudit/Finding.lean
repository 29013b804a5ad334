import CodeAudit.Category
import CodeAudit.Language

/-!
# Findings and results

A finding says which rule hit which lines. A result holds the findings of one analysis.
-/
namespace CodeAudit

/-- One hit of a rule. -/
structure Finding where
  ruleId : Text
  /-- The category name and the rule name, with a colon between them. -/
  type : Text
  category : Category
  severity : Severity
  /-- The line where the hit starts. -/
  line : Int
  /-- The last line of the hit. -/
  endLine : Int
  description : Text
  snippet : Text
  recommendation : Text
  /-- The place of the rule in its catalog, which orders hits on one line. -/
  ruleIndex : Int
  deriving DecidableEq, Repr, Inhabited

/-- The order of findings: by line, then by the place of the rule. -/
def Finding.le (a b : Finding) : Bool :=
  if a.line = b.line then a.ruleIndex ≤ b.ruleIndex else a.line < b.line

/-- The outcome of one analysis. The list of vulnerabilities may be absent, which counts as
empty. -/
structure Result where
  language : Language
  riskScore : Int
  vulnerabilities : Option (List Finding)
  secureCode : Text
  deriving DecidableEq, Repr, Inhabited

namespace Result

def findings (r : Result) : List Finding := r.vulnerabilities.getD []

def isClean (r : Result) : Bool := r.findings.isEmpty

/-- Adds one to the count of a key, which is added at the end when it is new. -/
def tally {α : Type} [DecidableEq α] (k : α) : List (α × Int) → List (α × Int)
  | [] => [(k, 1)]
  | (a, n) :: rest => if a = k then (a, n + 1) :: rest else (a, n) :: tally k rest

/-- How many findings have each severity; the known severities are always listed. -/
def countBySeverity (r : Result) : List (Severity × Int) :=
  r.findings.foldl (fun m f => tally f.severity m) (Severity.all.map (·, 0))

/-- The gravest severity among the findings, the earliest of equals; an empty label for none. -/
def maxSeverity (r : Result) : Severity :=
  r.findings.foldl (fun m f => if m.rank < f.severity.rank then f.severity else m) (.other [])

end Result
end CodeAudit
