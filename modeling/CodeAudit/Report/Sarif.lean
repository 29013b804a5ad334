import CodeAudit.Json.Writer
import CodeAudit.Rule.Catalog

/-!
# SARIF logs

A SARIF log lists the rules of a catalog and one result for every finding. The rules and the results
of a run are kept by a library, which decides where a rule is listed and which place a result refers
to.

* `Sarif.Library`, `Sarif.Library.standard`: what is asked of the library, and the one that is used.
* `Sarif.Library.log`: the log of a result.
* `Sarif.Log.toJson`, `Sarif.render`: the log as JSON.
-/
namespace CodeAudit

namespace Sarif

/-- A rule of the tool. -/
structure Descriptor where
  id : Text
  type : Text
  description : Text
  help : Text
  level : Text
  category : Text
  severity : Text
  deriving DecidableEq, Repr

/-- One result of the tool. -/
structure Entry where
  ruleId : Text
  /-- The place of the rule among those listed, if it is listed. -/
  ruleIndex : Option Nat
  level : Text
  message : Text
  uri : Text
  startLine : Int
  endLine : Int
  deriving DecidableEq, Repr

/-- The log of one run. -/
structure Log where
  rules : List Descriptor
  results : List Entry
  deriving DecidableEq, Repr

def level : Severity → Text
  | .critical | .high => "error"
  | .medium => "warning"
  | .low => "note"
  | .other _ => "none"

def toolName : Text := "owaspscan"

def toolUri : Text := "https://github.com/raysh454/owaspscan"

/-- Says in the descriptor of a rule what is to be said of it. -/
def describe (r : Rule) (d : Descriptor) : Descriptor :=
  { d with
    type := r.type
    description := r.description
    help := r.recommendation
    level := level r.severity
    category := r.category.code
    severity := r.severity.label }

/-- The entry of a finding in the artifact, as it is handed to the library. -/
def entry (uri : Text) (f : Finding) : Entry where
  ruleId := f.ruleId
  ruleIndex := none
  level := level f.severity
  message := f.type ++ ". " ++ f.description
  uri := uri
  startLine := f.line
  endLine := f.endLine

/-- The library that keeps the rules and the results of a run. Adding a rule under an id also gives
the place of its descriptor. -/
structure Library where
  addRule : List Descriptor → Text → List Descriptor × Nat
  addResult : List Descriptor → List Entry → Entry → List Entry

namespace Library

/-- A rule is listed once, and a result refers to the first rule with its id. -/
def standard : Library where
  addRule listed id :=
    match listed.findIdx? (·.id == id) with
    | some i => (listed, i)
    | none => (listed ++ [⟨id, [], [], [], [], [], []⟩], listed.length)
  addResult listed results e :=
    results ++ [{ e with ruleIndex := listed.findIdx? (·.id == e.ruleId) }]

def list (lib : Library) (listed : List Descriptor) (r : Rule) : List Descriptor :=
  let (listed, i) := lib.addRule listed r.id
  listed.modify i (describe r)

/-- The log of a result; an artifact without a name is a snippet. -/
def log (lib : Library) (r : Result) (uri : Text) (c : Catalog) : Log :=
  let listed := c.rules.foldl lib.list []
  let add (results : List Entry) (f : Finding) :=
    lib.addResult listed results (entry (if uri.isEmpty then "snippet" else uri) f)
  ⟨listed, r.findings.foldl add []⟩

end Library

def textObject (t : Text) : Json := .record [("text", .string t)]

def Descriptor.toJson (d : Descriptor) : Json := .record [
  ("id", .string d.id),
  ("shortDescription", textObject d.type),
  ("fullDescription", textObject d.description),
  ("defaultConfiguration", .record [("level", .string d.level)]),
  ("help", textObject d.help),
  ("properties", .record [
    ("category", .string d.category),
    ("severity", .string d.severity),
    ("tags", .texts ["security", "owasp-top10", d.category])])]

/-- The place of a rule that is not listed: the greatest word. -/
def missingIndex : Nat := 18446744073709551615

def Entry.toJson (e : Entry) : Json := .record [
  ("ruleId", .string e.ruleId),
  ("ruleIndex", .nat (e.ruleIndex.getD missingIndex)),
  ("level", .string e.level),
  ("message", textObject e.message),
  ("locations", .array [.record [("physicalLocation", .record [
    ("artifactLocation", .record [("uri", .string e.uri)]),
    ("region", .record [("startLine", .int e.startLine), ("endLine", .int e.endLine)])])]])]

def Log.toJson (l : Log) : Json := .record [
  ("version", .string "2.1.0"),
  ("$schema", .string "https://json.schemastore.org/sarif-2.1.0.json"),
  ("runs", .array [.record [
    ("tool", .record [("driver", .record [
      ("informationUri", .string toolUri),
      ("name", .string toolName),
      ("rules", .array (l.rules.map Descriptor.toJson))])]),
    ("results", .array (l.results.map Entry.toJson))]])]

/-- The log of a result as text. -/
def Library.render (lib : Library) (r : Result) (uri : Text) (c : Catalog) : Text :=
  (lib.log r uri c).toJson.indented

/-- The log of a result as text, kept by the library that is used. -/
def render (r : Result) (uri : Text) (c : Catalog) : Text := Library.standard.render r uri c

end Sarif
end CodeAudit
