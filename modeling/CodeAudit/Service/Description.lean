import CodeAudit.Json.Writer

/-!
# The description of the service

What the service offers, in the form that API tools read: the operations by path, and the shapes of
what goes in and out.
-/
namespace CodeAudit.Description

/-- The shape of a value. -/
inductive Shape where
  | text
  | integer
  | object
  | counts
  | list (items : Shape)
  | named (name : String)
  | sample (s : Shape) (value : Json)
  deriving Repr

def Shape.members : Shape → List (String × Json)
  | .text => [("type", .string "string")]
  | .integer => [("type", .string "integer")]
  | .object => [("type", .string "object")]
  | .counts => [("type", .string "object"), ("additionalProperties", .record [("type", .string "integer")])]
  | .list items => [("type", .string "array"), ("items", .record items.members)]
  | .named name => [("$ref", .string (utf8 "#/definitions/" ++ utf8 name))]
  | .sample s value => s.members ++ [("example", value)]

def Shape.toJson (s : Shape) : Json := .record s.members

/-- What an operation answers with a status. -/
structure Answer where
  status : String
  meaning : String
  shape : Option Shape
  deriving Repr

def Answer.toJson (a : Answer) : Json :=
  .record ([("description", .string a.meaning)] ++
    (a.shape.map fun s => [("schema", s.toJson)]).getD [])

/-- What is asked of the service. -/
structure Operation where
  method : String
  summary : String
  tag : String
  answers : List Answer
  description : Option String := none
  parameters : List Json := []
  isSubmission : Bool := false
  isAnswered : Bool := true
  deriving Repr

def Operation.toJson (o : Operation) : Json :=
  let media : Json := .array [.string "application/json"]
  .record (
    ((o.description.map fun d => [("description", Json.string d)]).getD []) ++
    (if o.isSubmission then [("consumes", media)] else []) ++
    (if o.isAnswered then [("produces", media)] else []) ++
    [("tags", .array [.string o.tag]), ("summary", .string o.summary)] ++
    (if o.parameters.isEmpty then [] else [("parameters", .array o.parameters)]) ++
    [("responses", .record (o.answers.map fun a => (a.status, a.toJson)))])

def bodyParameter (description shape : String) : Json := .record [
  ("description", .string description), ("name", .string "request"), ("in", .string "body"),
  ("required", .bool true), ("schema", (Shape.named shape).toJson)]

def fine (s : Shape) : Answer := ⟨"200", "OK", some s⟩

def failure (status meaning : String) : Answer := ⟨status, meaning, some (.named "server.ErrorResponse")⟩

def paths : List (String × List Operation) := [
  ("/analyze", [{
    method := "post", summary := "Analyze code", tag := "analysis", isSubmission := true
    description := some ("Detects OWASP Top 10 issues, scores them and proposes a secure rewrite. " ++
      "The result is recorded in history.")
    parameters := [bodyParameter "Code to analyze" "server.AnalyzeRequest"]
    answers := [fine (.named "server.AnalyzeResponse"), failure "400" "Bad Request",
      failure "413" "Request Entity Too Large"] }]),
  ("/analyze/sarif", [{
    method := "post", summary := "Analyze code and return SARIF", tag := "analysis", isSubmission := true
    parameters := [bodyParameter "Code to analyze" "server.AnalyzeRequest"]
    answers := [fine .object, failure "400" "Bad Request"] }]),
  ("/compare", [{
    method := "post", summary := "Compare code with its secure rewrite", tag := "analysis"
    isSubmission := true
    parameters := [bodyParameter "Code or history entry" "server.CompareRequest"]
    answers := [fine (.named "report.Comparison"), failure "400" "Bad Request", failure "404" "Not Found"] }]),
  ("/history", [
    { method := "get", summary := "List recent analyses", tag := "history"
      answers := [fine (.list (.named "history.Entry"))] },
    { method := "delete", summary := "Clear history", tag := "history", isAnswered := false
      answers := [⟨"204", "No Content", none⟩] }]),
  ("/history/\x7bid\x7d", [{
    method := "get", summary := "Get one analysis", tag := "history"
    parameters := [.record [("type", .string "string"), ("description", .string "History entry ID"),
      ("name", .string "id"), ("in", .string "path"), ("required", .bool true)]]
    answers := [fine (.named "history.Entry"), failure "404" "Not Found"] }]),
  ("/summary", [{
    method := "get", summary := "Dashboard summary over history", tag := "history"
    answers := [fine (.named "report.Summary")] }]),
  ("/rules", [{
    method := "get", summary := "List detection rules", tag := "reference"
    parameters := [.record [("type", .string "string"), ("description", .string "Only rules for this language"),
      ("name", .string "language"), ("in", .string "query")]]
    answers := [fine (.list (.named "rules.Info")), failure "400" "Bad Request"] }]),
  ("/owasp", [{
    method := "get", summary := "OWASP Top 10 reference", tag := "reference"
    answers := [fine (.list (.named "model.CategoryInfo"))] }])]

def records : List (String × List (String × Shape)) := [
  ("model.Finding", [("ruleId", .text), ("type", .text), ("category", .integer), ("severity", .text),
    ("line", .integer), ("endLine", .integer), ("description", .text), ("codeSnippet", .text),
    ("recommendation", .text)]),
  ("model.CategoryInfo", [("id", .integer), ("code", .text), ("name", .text), ("defaultSeverity", .text),
    ("description", .text), ("prevention", .list .text)]),
  ("history.Entry", [("id", .text), ("createdAt", .text), ("code", .text),
    ("result", .named "server.AnalyzeResponse")]),
  ("report.Summary", [("totalAnalyses", .integer), ("totalVulnerabilities", .integer),
    ("averageRiskScore", .integer), ("cleanAnalyses", .integer), ("bySeverity", .counts),
    ("byCategory", .counts), ("byLanguage", .counts)]),
  ("report.Comparison", [("chunks", .list .object), ("patch", .text), ("sections", .list .object),
    ("added", .integer), ("removed", .integer)]),
  ("rules.Info", [("id", .text), ("category", .text), ("type", .text), ("severity", .text),
    ("languages", .list .text), ("matcher", .text), ("description", .text), ("recommendation", .text)]),
  ("server.AnalyzeRequest", [("code", .sample .text (.string "password = \"admin123\"")),
    ("language", .sample .text (.string "Python")), ("uri", .sample .text (.string "app/login.py"))]),
  ("server.AnalyzeResponse", [("language", .text), ("riskScore", .integer),
    ("vulnerabilities", .list (.named "model.Finding")), ("secureCode", .text), ("historyId", .text)]),
  ("server.CompareRequest", [("code", .text), ("language", .text), ("historyId", .text),
    ("context", .sample .integer (.int 3))]),
  ("server.ErrorResponse", [("error", .sample .text (.string "code must not be empty"))])]

def definition (fields : List (String × Shape)) : Json := .record [
  ("type", .string "object"), ("properties", .record (fields.map fun (k, s) => (k, s.toJson)))]

def toJson : Json := .record [
  ("schemes", .array []),
  ("swagger", .string "2.0"),
  ("info", .record [
    ("description", .string (utf8 "Static OWASP Top 10 analysis of source snippets: findings, risk score " ++
      utf8 "and a suggested secure rewrite.")),
    ("title", .string "owaspscan API"),
    ("contact", .record [("name", .string "owaspscan Maintainers"),
      ("url", .string "https://github.com/raysh454/owaspscan")]),
    ("version", .string "0.1")]),
  ("host", .string ""),
  ("basePath", .string "/"),
  ("paths", .record (paths.map fun (p, os) => (p, .record (os.map fun o => (o.method, o.toJson))))),
  ("definitions", .record (records.map fun (k, fields) => (k, definition fields)))]

end CodeAudit.Description
