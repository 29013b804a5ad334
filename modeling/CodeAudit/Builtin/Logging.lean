import CodeAudit.Builtin.Basic
import CodeAudit.Fix.Secret

/-!
# Security logging and monitoring failures
-/
namespace CodeAudit.Builtin

def emptyCatch : Pattern := .read r"catch\s*(\([^)]*\))?\s*\{\s*\}"

def catchVariable : Pattern := .read r"(\$?\w+)\s*\)$"

def logCall : Pattern :=
  .read r"(?i)\b(console\.(log|info|debug|warn|error)|print|println|printf|logger\.\w+|logging\.\w+|log\.\w+|error_log|System\.(out|err)\.print(ln)?|var_dump|print_r)\s*\("

def sensitiveName : Pattern :=
  .read r"(?i)(?:[\w$]+(?:->|\.))*[\w$]*(password|passwd|pwd|secret|token|api_?key|credit_?card|card_?number|ssn|cvv)\w*(?:(?:->|\.)\w+|\[[^\]]*\]|\([^()]*\))*"

def logStatement (l : Language) (bound : Text) : Text :=
  match l with
  | .javaScript => "console.error(" ++ bound ++ ");"
  | .java => "logger.error(\"Unhandled exception\", " ++ bound ++ ");"
  | .php => "error_log(" ++ bound ++ "->getMessage());"
  | .c => "std::cerr << \"unhandled exception\" << std::endl;"
  | _ => l.comment "log the exception and handle or rethrow it"

/-- The parameters of a catch block and the variable they bind; where they bind none, those the
language needs. -/
def catchParameters (l : Language) (params : Text) : Text × Text :=
  let bound := match catchVariable.find? params with
    | some m => m.groupText params 1
    | none => []
  if !bound.isEmpty then (params, bound)
  else
    match l with
    | .javaScript => ("(err)", "err")
    | .php => (r"(\Throwable $e)", "$e")
    | .java => ("(Exception e)", "e")
    | .c => (if params.isEmpty then utf8 "(...)" else params, [])
    | _ => (params, [])

/-- Gives the first empty catch block of the lines a body that logs. -/
def fillCatch : Fix := fun fragment l =>
  let text := Text.unlines fragment
  match emptyCatch.find? text with
  | none => some fragment
  | some m =>
    let lineStart := match Text.lastIndexOf? Text.newline (text.take m.start) with
      | some i => i + 1
      | none => 0
    let indent := Text.indent (text.drop lineStart)
    let (params, bound) := catchParameters l (m.groupText text 1)
    let params : Text := if params.isEmpty then [] else params ++ " "
    let block : Text := "catch " ++ params ++ "\x7b\n" ++ indent ++ "    " ++ logStatement l bound
      ++ "\n" ++ indent ++ "\x7d"
    some (Text.lines (text.take m.start ++ block ++ text.drop m.stop))

/-- The arguments of a log call with sensitive names replaced. -/
def redactSensitive (t : Text) : Text := redactOutside sensitiveName (.read "\"[REDACTED]\"") t

/-- The lines with a log call whose arguments name something sensitive outside literals. -/
def sensitiveLogging (d : Document) (l : Language) : List Int :=
  (d.lines.zipIdx.filter fun (line, _) => isHit line).map fun (_, i) => (i : Int)
where
  /-- Whether a line logs something sensitive. -/
  isHit (line : Text) : Bool :=
    !l.isCommentLine line.trim && !isNote line &&
      match logCall.find? line with
      | none => false
      | some m => redactSensitive (line.drop m.stop) != line.drop m.stop

/-- Masks sensitive names in the arguments of log calls. -/
def redactArguments : Fix := .onCode fun line _ =>
  match logCall.find? line with
  | none => line
  | some m => line.take m.stop ++ redactSensitive (line.drop m.stop)

def stackTraceExposure : Rule where
  id := "stack-trace-exposure"
  category := .loggingFailures
  name := "Error Details Exposed to Clients"
  severity := .medium
  languages := []
  matcher := onLines
    (.read r"\.printStackTrace\s*\(\s*\)|\btraceback\.(print_exc|format_exc)\s*\(|\bres\.(send|json)\s*\(\s*(err|error|e)(\.stack|\.message)?\s*\)|\becho\s+\$\w+->getMessage\(\)|\bdie\s*\(\s*mysqli?_error\s*\(|\breturn\s+str\((e|err|ex|exc)\)|getWriter\(\)\.print(ln)?\([^)]*(getMessage|getStackTrace)")
  description := "Exception details or stack traces are printed or returned to the client, revealing internals useful to an attacker."
  recommendation := recommend "Log the full error server-side and return a generic message with an error ID to the client."
  fix := some (.firstOf [
    .withNote "the exception is logged server-side and the client receives a generic message." (.chain [
      .replace (.read r"\b(\w+)\.printStackTrace\s*\(\s*\)")
        (.read r#"logger.error("Unhandled exception", ${1})"#),
      .replace (.read r"\btraceback\.print_exc\s*\(\s*\)")
        (.read r#"logging.exception("Unhandled exception")"#),
      .replace (.read r"\bres\.(send|json)\s*\(\s*(err|error|e)(\.stack|\.message)?\s*\)")
        (.read r#"res.status(500).send("Internal Server Error")"#),
      .replace (.read r"\becho\s+\$(\w+)->getMessage\(\)\s*;")
        (.read r#"error_log($$${1}->getMessage()); echo "An internal error occurred.";"#),
      .replace (.read r"\bdie\s*\(\s*mysqli?_error\s*\([^()]*\)\s*\)")
        (.read r#"die("A database error occurred.")"#),
      .replace (.read r"\breturn\s+str\((e|err|ex|exc)\)")
        (.read r#"return "Internal Server Error", 500"#)]),
    .annotate "log the error server-side and return a generic message to the client."])

def swallowedException : Rule where
  id := "swallowed-exception"
  category := .loggingFailures
  name := "Empty Catch Block"
  severity := .medium
  languages := [.javaScript, .java, .php, .c, .general]
  matcher := onWindows 3 emptyCatch
  description := "An exception is caught and silently discarded, hiding failures and attacks from monitoring."
  recommendation := recommend "Log the exception with context and either handle it or rethrow it."
  fix := some fillCatch

def pythonExceptPass : Rule where
  id := "python-except-pass"
  category := .loggingFailures
  name := "Exception Silenced with pass"
  severity := .medium
  languages := [.python]
  matcher := onWindows 2
    (.read r"\bexcept\b[^:\n]*:\s*(#[^\n]*)?\n\s*pass\b|\bexcept\b[^:\n]*:\s*pass\b")
  description := "An except clause discards the exception with pass, so failures leave no trace."
  recommendation := recommend "Catch specific exceptions and log them with logging.exception before handling."
  fix := some (.withNote "the exception is logged instead of silently discarded." (.chain [
    .replace (.read r"^(\s*)except\s*:") (.read r"${1}except Exception:"),
    .replace (.read r"(\bexcept\b[^:]*:\s*)pass\b")
      (.read r#"${1}logging.exception("Unhandled exception")"#),
    .replace (.read r"^(\s*)pass\s*$") (.read r#"${1}logging.exception("Unhandled exception")"#)]))

def sensitiveDataLogging : Rule where
  id := "sensitive-data-logging"
  category := .loggingFailures
  name := "Sensitive Data Written to Logs"
  severity := .medium
  languages := []
  matcher := onDocuments sensitiveLogging
  description := "Credentials, tokens or card data are written to a log where they outlive the request and reach more readers."
  recommendation := recommend "Log identifiers and outcomes, never secrets; mask sensitive fields before logging."
  fix := some (.withNote "sensitive values are masked before logging." redactArguments)

def logging : List Rule :=
  [stackTraceExposure, swallowedException, pythonExceptPass, sensitiveDataLogging]

end CodeAudit.Builtin
