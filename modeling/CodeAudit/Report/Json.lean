import CodeAudit.History
import CodeAudit.Json.Basic
import CodeAudit.Live
import CodeAudit.Rule.Catalog
import CodeAudit.Summary

/-!
# Findings, results and reference data as JSON
-/
namespace CodeAudit

/-- A finding; the place of its rule is not shown. -/
def Finding.toJson (f : Finding) : Json := .record [
  ("ruleId", .string f.ruleId),
  ("type", .string f.type),
  ("category", .int f.category.number),
  ("severity", .string f.severity.label),
  ("line", .int f.line),
  ("endLine", .int f.endLine),
  ("description", .string f.description),
  ("codeSnippet", .string f.snippet),
  ("recommendation", .string f.recommendation)]

def Result.members (r : Result) : List (String × Json) := [
  ("language", .string r.language.label),
  ("riskScore", .int r.riskScore),
  ("vulnerabilities", .ofOption (fun fs => .array (fs.map Finding.toJson)) r.vulnerabilities),
  ("secureCode", .string r.secureCode)]

def Result.toJson (r : Result) : Json := .record r.members

def RuleEntry.toJson (e : RuleEntry) : Json := .record [
  ("id", .string e.id),
  ("category", .string e.category),
  ("type", .string e.type),
  ("severity", .string e.severity.label),
  ("languages", .texts (e.languages.map Language.label)),
  ("matcher", .string e.matcher),
  ("description", .string e.description),
  ("recommendation", .string e.recommendation)]

/-- The reference entry of a category; all of it is empty for a number without one. -/
def Category.toJson (c : Category) : Json :=
  let e := c.entry?
  .record [
    ("id", .int (if e.isSome then c.number else 0)),
    ("code", .string c.code),
    ("name", .string c.name),
    ("defaultSeverity", .string ((e.map (·.severity.label)).getD [])),
    ("description", .string ((e.map (·.description)).getD [])),
    ("prevention", .ofOption (fun e => .texts e.prevention) e)]

/-- Counts by key, in order of the keys. -/
def countsJson {α : Type} (label : α → Text) (m : List (α × Int)) : Json :=
  .object ((m.map fun (k, n) => (label k, .int n)).mergeSort fun a b => Text.le a.1 b.1)

def Summary.toJson (s : Summary) : Json := .record [
  ("totalAnalyses", .int s.analyses),
  ("totalVulnerabilities", .int s.vulnerabilities),
  ("averageRiskScore", .int s.averageScore),
  ("cleanAnalyses", .int s.clean),
  ("bySeverity", countsJson Severity.label s.bySeverity),
  ("byCategory", countsJson id s.byCategory),
  ("byLanguage", countsJson Language.label s.byLanguage)]

def Entry.toJson (e : Entry) : Json := .record [
  ("id", .string e.id),
  ("createdAt", .string e.createdAt.text),
  ("code", .string e.code),
  ("result", e.result.toJson)]

/-- A report of live analysis; jobs are named by `name`. -/
def Live.Event.toJson (name : Nat → Text) (now : Instant) (e : Live.Event) : Json := .record ([
  ("jobId", .string (name e.job))] ++ (match e with
    | .status _ s => [("type", .string "status"), ("status", .string s.name)]
    | .result _ r => [("type", .string "result"), ("result", r.toJson)])
  ++ [("at", .string now.text)])

end CodeAudit
