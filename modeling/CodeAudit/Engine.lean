import CodeAudit.Builtin.AccessControl
import CodeAudit.Builtin.Authentication
import CodeAudit.Builtin.Components
import CodeAudit.Builtin.Cryptography
import CodeAudit.Builtin.Design
import CodeAudit.Builtin.Injection
import CodeAudit.Builtin.Integrity
import CodeAudit.Builtin.Logging
import CodeAudit.Builtin.Misconfiguration
import CodeAudit.Builtin.RequestForgery
import CodeAudit.Classifier
import CodeAudit.Log
import CodeAudit.Remediation
import CodeAudit.Scan
import CodeAudit.Score

/-!
# Analysis

* `builtinRules`: the rules that an engine has when it is given none, grouped by category.
* `EngineSettings`: what can be set, with defaults and ranges.
* `Engine.build`: an engine for given settings, or the first error.
* `Engine.analyze`, `Engine.analyzeAs`: the result of a text.
* `Engine.checkedAnalyzeAs`: the same, given up where the window of a rule overruns.
* `Engine.readyLog`, `Engine.resultLog`: what is logged.
-/
namespace CodeAudit

def builtinRules : List Rule :=
  Builtin.accessControl ++ Builtin.cryptography ++ Builtin.injection ++ Builtin.design
    ++ Builtin.misconfiguration ++ Builtin.components ++ Builtin.authentication
    ++ Builtin.integrity ++ Builtin.logging ++ Builtin.requestForgery

/-- What can be set for an analysis. -/
structure EngineSettings where
  weights : Weights := .default
  snippetWidth : Int := 200
  maxLineLength : Int := 4096
  minLanguageScore : Int := Classifier.defaultMinScore
  /-- The ids of the rules that are left out; the list may be absent. -/
  disabledRules : Option (List Text) := none
  deriving DecidableEq, Repr

/-- A setting that is out of range. -/
inductive SettingsFault where
  | weight (e : NegativeWeight)
  | snippetWidth (n : Int)
  | maxLineLength (n : Int)
  | minLanguageScore (n : Int)
  deriving DecidableEq, Repr

def SettingsFault.message : SettingsFault → Text
  | weight e => e.message
  | snippetWidth n => "snippet_width must be positive, got " ++ Text.ofInt n
  | maxLineLength n => "max_line_length must be positive, got " ++ Text.ofInt n
  | minLanguageScore n => "min_language_score must not be negative, got " ++ Text.ofInt n

/-- The first setting that is out of range. -/
def EngineSettings.fault? (s : EngineSettings) : Option SettingsFault :=
  match s.weights.fault? with
  | some e => some (.weight e)
  | none =>
    if s.snippetWidth ≤ 0 then some (.snippetWidth s.snippetWidth)
    else if s.maxLineLength ≤ 0 then some (.maxLineLength s.maxLineLength)
    else if s.minLanguageScore < 0 then some (.minLanguageScore s.minLanguageScore)
    else none

/-- Why an engine cannot be built. -/
inductive EngineError where
  | settings (fault : SettingsFault)
  | catalog (error : CatalogError)
  deriving DecidableEq, Repr

def EngineError.message : EngineError → Text
  | settings fault => "engine config: " ++ fault.message
  | catalog error => "building rule catalog: " ++ error.message

/-- Everything an analysis needs. -/
structure Engine where
  catalog : Catalog
  options : ScanOptions
  weights : Weights
  minScore : Int

namespace Engine

/-- An engine over the rules of a catalog, or else over the built-in rules. -/
def build (s : EngineSettings) (catalog : Option Catalog) : Except EngineError Engine :=
  match s.fault? with
  | some fault => .error (.settings fault)
  | none =>
    let disabled := s.disabledRules.getD []
    let made :=
      match catalog with
      | none => Catalog.build builtinRules disabled
      | some c => if disabled.isEmpty then .ok c else Catalog.build c.rules disabled
    match made with
    | .error e => .error (.catalog e)
    | .ok c => .ok {
        catalog := c
        options := ({} : ScanOptions).withSnippetWidth s.snippetWidth |>.withMaxLineLength s.maxLineLength
        weights := s.weights
        minScore := Classifier.minScoreOf s.minLanguageScore }

def classify (e : Engine) (t : Text) : Language := Classifier.classify e.minScore t

def resultOf (e : Engine) (t : Text) (l : Language) (findings : List Finding) : Result where
  language := l
  riskScore := Score.ofFindings e.weights findings
  vulnerabilities := some findings
  secureCode := remediate ⟨t⟩ l findings e.catalog.fix?

/-- The result of a text as code in a language. -/
def analyzeAs (e : Engine) (t : Text) (l : Language) : Result :=
  e.resultOf t l (scan e.catalog e.options ⟨t⟩ l).findings

/-- The result of a text, unless a rule overruns. -/
def checkedAnalyzeAs (e : Engine) (t : Text) (l : Language) : Except Overrun Result :=
  (checkedScan e.catalog e.options ⟨t⟩ l).map fun s => e.resultOf t l s.findings

/-- The result of a text in the language it looks like. -/
def analyze (e : Engine) (t : Text) : Result := e.analyzeAs t (e.classify t)

/-! ## The log -/

def logger (parent : Logger) : Logger := parent.component "engine"

def readyLog (e : Engine) (parent : Logger) (stamp : Text) : Text :=
  (logger parent).write stamp .debug "engine ready" [⟨"rules", .int e.catalog.rules.length⟩]

/-- What is logged when code was analyzed within a time. -/
def resultLog (e : Engine) (parent : Logger) (stamp elapsed code : Text) (r : Result) : Text :=
  let language : Log.Field := ⟨"language", .text r.language.label⟩
  let findings : Log.Field := ⟨"findings", .int r.findings.length⟩
  ((logger parent).component "scanner").write stamp .debug "scan complete"
      [language, ⟨"lines", .int (Document.mk code).lineCount⟩,
        ⟨"rules", .int (e.catalog.rulesFor r.language).length⟩, findings]
    ++ (logger parent).write stamp .debug "analysis complete"
      [language, findings, ⟨"risk_score", .int r.riskScore⟩, ⟨"duration", .text elapsed⟩]

end Engine
end CodeAudit
