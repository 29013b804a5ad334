import CodeAudit.Comparison
import CodeAudit.Report.Comparison
import CodeAudit.Report.Json
import CodeAudit.Report.Sarif
import CodeAudit.Service.Body
import CodeAudit.Service.Message
import CodeAudit.Settings

/-!
# The analysis service

The service analyzes submitted code, remembers the analyses and answers questions about them.

* `Service.build`: a service for given settings and identifiers.
* `Service.analyze`, `Service.analyzeSarif`, `Service.compare`: what can be submitted.
* `Service.listHistory`, `Service.getEntry`, `Service.clearHistory`, `Service.summarize`: the
  history.
* `Service.listRules`, `Service.listCategories`, `Service.health`: reference data.
-/
namespace CodeAudit

/-- A service: its settings and engine, what it remembers and the live analyses. Entries,
connections and jobs are named by identifiers, which are drawn in turn from `ids`; jobs of live
analysis are named by `jobNames`. -/
structure Service where
  settings : ServerSettings
  engine : Engine
  history : History
  live : Live
  ids : Nat → Text
  drawn : Nat
  jobNames : List Text

/-- Why a service cannot be built. -/
inductive ServiceError where
  | settings (i : Settings.Invalid)
  | engine (e : EngineError)
  deriving DecidableEq, Repr

def ServiceError.message : ServiceError → Text
  | .settings i => i.message
  | .engine e => "creating engine: " ++ e.message

namespace Service

/-- A service for given settings, with the identifiers that it will draw. -/
def build (s : Settings) (ids : Nat → Text) : Except ServiceError Service :=
  match s.invalid? with
  | some i => .error (.settings i)
  | none =>
    match Engine.build s.engine none with
    | .error e => .error (.engine e)
    | .ok e => .ok ⟨s.server, e, .empty s.maxEntries, .empty Live.defaultCapacity, ids, 0, []⟩

def nextId (s : Service) : Text := s.ids s.drawn

/-- What a body may hold beside the code. -/
def bodyOverhead : Int := 65536

/-- How many bytes of a body are read. The sum is a word, and a negative one counts as zero. -/
def bodyLimit (s : Service) : Nat := (wrap (s.settings.maxCodeBytes + bodyOverhead)).toNat

/-! ## Answers -/

def json (status : Nat) (j : Json) : Response :=
  ⟨status, [("Content-Type", "application/json")], j.compact ++ [10], []⟩

def error (status : Nat) (message : Text) : Response := json status (.record [("error", .string message)])

/-- Why a submission is turned down. -/
inductive Refusal where
  | body (f : Body.Fault)
  | emptyCode
  | longCode (limit : Int)
  | unknownLanguage (label : Text)
  | unknownEntry
  | negativeContext
  deriving DecidableEq, Repr

def emptyCodeMessage : Text := "code must not be empty"

def longCodeMessage (limit : Int) : Text := "code exceeds " ++ Text.ofInt limit ++ " bytes"

/-- The answer to a submission that is turned down. -/
def Refusal.response : Refusal → Response
  | .body .tooLarge => error 413 "request body too large"
  | .body .invalid => (error 400 "invalid JSON").after .warn "decoding request body"
  | .emptyCode => error 400 emptyCodeMessage
  | .longCode limit => error 413 (longCodeMessage limit)
  | .unknownLanguage label => error 400 ("unknown language " ++ Text.quote label)
  | .unknownEntry => error 404 History.notFound
  | .negativeContext => error 400 "context must not be negative"

def decode {α : Type} (s : Service) (ofJson? : Json → Option α) (body : Text) : Except Refusal α :=
  match Body.read s.bodyLimit body with
  | .error f => .error (.body f)
  | .ok j =>
    match ofJson? j with
    | some a => .ok a
    | none => .error (.body .invalid)

/-- Checks that there is code and that it is not too long. -/
def checkCode (s : Service) (code : Text) : Except Refusal Unit :=
  if Document.isBlank code then .error .emptyCode
  else if (code.length : Int) > s.settings.maxCodeBytes then .error (.longCode s.settings.maxCodeBytes)
  else .ok ()

/-- The result for code, whose language is detected when its label is blank. -/
def resultFor (s : Service) (code label : Text) : Except Refusal Result :=
  if (Text.trim label).isEmpty then .ok (s.engine.analyze code)
  else match Language.parse? label with
    | none => .error (.unknownLanguage label)
    | some l => .ok (s.engine.analyzeAs code l)

/-! ## Submissions -/

def submitted (s : Service) (body : Text) : Except Refusal (Submission × Result) := do
  let sub ← s.decode Submission.ofJson? body
  s.checkCode sub.code
  let r ← s.resultFor sub.code sub.language
  return (sub, r)

/-- Analyzes code and remembers the result. -/
def analyze (s : Service) (now : Instant) (body : Text) : Response × Service :=
  match s.submitted body with
  | .error e => (e.response, s)
  | .ok (sub, r) =>
    let (entry, history) := s.history.add s.nextId now sub.code r
    let answer := json 200 (.record (r.members ++ [("historyId", .string entry.id)]))
    (answer.after .info "analyzed code", { s with history := history, drawn := s.drawn + 1 })

/-- Analyzes code and answers with a SARIF log. -/
def analyzeSarif (s : Service) (body : Text) : Response :=
  match s.submitted body with
  | .error e => e.response
  | .ok (sub, r) =>
    ⟨200, [("Content-Type", "application/sarif+json")], Sarif.render r sub.uri s.engine.catalog, []⟩

/-- The code to compare and its result: a remembered one or a new one. -/
def compared (s : Service) (r : ComparisonRequest) : Except Refusal (Text × Result) :=
  if r.historyId.isEmpty then do
    s.checkCode r.code
    return (r.code, ← s.resultFor r.code r.language)
  else match s.history.get? r.historyId with
    | some e => .ok (e.code, e.result)
    | none => .error .unknownEntry

/-- How many lines are shown around a finding. -/
def contextOf (r : ComparisonRequest) : Except Refusal Int :=
  match r.context with
  | none => .ok Comparison.defaultContext
  | some n => if n < 0 then .error .negativeContext else .ok n

/-- The texts to compare, their findings and how many lines to show around each. -/
def comparisonOf (s : Service) (body : Text) : Except Refusal (Text × Result × Int) := do
  let request ← s.decode ComparisonRequest.ofJson? body
  let (code, r) ← s.compared request
  return (code, r, ← contextOf request)

/-- Compares code with its secure form. There is no answer when the comparison leaves the texts. -/
def compare (s : Service) (body : Text) : Option Response :=
  match s.comparisonOf body with
  | .error e => some e.response
  | .ok (code, r, context) =>
    (Comparison.of code r.secureCode r.findings context).toOption.map fun c => json 200 c.toJson

/-! ## The history -/

def listHistory (s : Service) : Response :=
  (json 200 (.array (s.history.list.map Entry.toJson))).after .info "listed history"

def getEntry (s : Service) (id : Text) : Response :=
  match s.history.get? id with
  | some e => json 200 e.toJson
  | none => Refusal.unknownEntry.response

def clearHistory (s : Service) : Response × Service :=
  ((Response.bare 204).after .info "cleared history", { s with history := s.history.clear })

/-- What the remembered analyses amount to. -/
def summarize (s : Service) : Response := json 200 (Summary.of s.history.results).toJson

/-! ## Reference data -/

/-- The rules, all of them or those for the language with a label. -/
def listRules (s : Service) (label : Text) : Response :=
  let answer (l : Language) := json 200 (.array ((s.engine.catalog.describe l).map RuleEntry.toJson))
  if label.isEmpty then answer (.ofLabel [])
  else match Language.parse? label with
    | some l => answer l
    | none => (Refusal.unknownLanguage label).response

def listCategories : Response := json 200 (.array (Category.all.map Category.toJson))

def health (s : Service) : Response :=
  json 200 (.record [("status", .string "ok"), ("rules", .nat s.engine.catalog.rules.length)])

/-! ## Origins -/

/-- Whether an origin may ask. -/
def allows (s : Service) (origin : Text) : Bool :=
  (s.settings.allowedOrigins.getD []).any fun o => o == utf8 "*" || Text.equalFold o origin

/-- The headers that tell which origins may ask. -/
def originHeaders (s : Service) (origin : Text) : List (Text × Text) :=
  let admitted : List (Text × Text) :=
    if s.allows "*" then [("Access-Control-Allow-Origin", "*")]
    else if !origin.isEmpty && s.allows origin then
      [("Access-Control-Allow-Origin", origin), ("Vary", "Origin")]
    else []
  admitted ++ [(utf8 "Access-Control-Allow-Headers", utf8 "Content-Type, Authorization"),
    (utf8 "Access-Control-Max-Age", utf8 "86400")]

end Service
end CodeAudit
