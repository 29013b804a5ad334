import CodeAudit.Score
import CodeAudit.Text.Case

/-!
# Results as plain text
-/
namespace CodeAudit

namespace TextReport

/-- A styled piece of the report: tabs are shown as four spaces. -/
def styled (t : Text) : Text := Text.replaceAll "\r\n" "\n" (Text.replaceAll "\t" "    " t)

/-- The label of a severity; a known one is styled. -/
def severityLabel (s : Severity) : Text :=
  let t : Text := "[" ++ s.label.upper ++ "]"
  if s.isKnown then styled t else t

def lineRange (f : Finding) : Text :=
  if f.line < f.endLine then "lines " ++ Text.ofInt f.line ++ "-" ++ Text.ofInt f.endLine
  else "line " ++ Text.ofInt f.line

def snippetLine (line : Text) : Text := "  " ++ styled ("> " ++ line) ++ "\n"

def finding (f : Finding) : Text :=
  severityLabel f.severity ++ " " ++ f.type ++ " " ++ styled ("(" ++ lineRange f ++ ", " ++ f.ruleId ++ ")")
    ++ "\n  " ++ f.description ++ "\n" ++ f.snippet.lines.flatMap snippetLine
    ++ "  Fix: " ++ f.recommendation ++ "\n\n"

/-- How many findings there are of each known severity. -/
def counts (r : Result) : Text :=
  Text.join ", " (Severity.all.map fun s =>
    Text.ofInt ((r.countBySeverity.lookup s).getD 0) ++ " " ++ s.label)

/-- The mended code under its title. -/
def secureCode (r : Result) : Text :=
  "Secure code\n" ++ r.secureCode ++ if Text.endsWith r.secureCode "\n" then utf8 "" else utf8 "\n"

def sourceLine (source : Text) : Text := if source.isEmpty then [] else "Source: " ++ source ++ "\n"

/-- A result from a source, with the mended code if it is asked for. -/
def render (r : Result) (source : Text) (showSecure : Bool) : Text :=
  "OWASP Top 10 analysis\n" ++ sourceLine source
    ++ "Language: " ++ r.language.label ++ "\n"
    ++ "Risk score: " ++ Text.ofInt r.riskScore ++ "/100 (" ++ Score.level r.riskScore ++ ")\n"
    ++ "Findings: " ++ Text.ofInt r.findings.length ++ " (" ++ counts r ++ ")\n\n"
    ++ (if r.isClean then utf8 "No vulnerabilities found.\n" else [])
    ++ r.findings.flatMap finding
    ++ if showSecure then secureCode r else []

end TextReport
end CodeAudit
