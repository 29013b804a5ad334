import CodeAudit.Finding
import CodeAudit.Number.Double
import CodeAudit.Text.Blank

/-!
# Summaries of results
-/
namespace CodeAudit

/-- What a set of results amounts to. -/
structure Summary where
  analyses : Int
  vulnerabilities : Int
  averageScore : Int
  clean : Int
  bySeverity : List (Severity × Int)
  byCategory : List (Text × Int)
  byLanguage : List (Language × Int)
  deriving DecidableEq, Repr

namespace Summary

/-- The part of a finding's type before the first colon. -/
def categoryKey (type : Text) : Text := Text.trim (type.takeWhile (· != 58))

/-- Adds one to the count of a key that is listed. -/
def bump {α : Type} [DecidableEq α] (k : α) (m : List (α × Int)) : List (α × Int) :=
  m.map fun (a, n) => if a = k then (a, n + 1) else (a, n)

/-- The summary of some results. -/
def of (results : List Result) : Summary :=
  let findings := results.flatMap Result.findings
  let total := results.foldl (fun n r => wrap (n + r.riskScore)) 0
  { analyses := results.length
    vulnerabilities := findings.length
    averageScore := if results.isEmpty then 0 else Double.roundedMean total results.length
    clean := results.countP Result.isClean
    bySeverity := findings.foldl (fun m f => bump f.severity m) (Severity.all.map (·, 0))
    byCategory := findings.foldl (fun m f => Result.tally (categoryKey f.type) m) []
    byLanguage := results.foldl (fun m r => Result.tally r.language m) [] }

end Summary
end CodeAudit
