import CodeAudit.Address
import CodeAudit.Command.Basic
import CodeAudit.Engine
import CodeAudit.Files
import CodeAudit.Report.Comparison
import CodeAudit.Report.Json
import CodeAudit.Report.Sarif
import CodeAudit.Report.Text
import CodeAudit.Service.Basic
import CodeAudit.Settings.Reader

/-!
# The command line

* `CommandLine.program`: the commands and their flags.
* `CommandLine.Failure`: why a command fails, with its wording and exit status.
* `CommandLine.run`: what arguments lead to: the output, the log, the files and the exit status.
* `CommandLine.paths`, `CommandLine.wantsStdin`: what a run may look at.
-/
namespace CodeAudit

namespace CommandLine

/-! ## The commands -/

def formatFlag (formats : Text) : Flag where
  name := "format"
  letter := some 102
  usage := "Output format: " ++ formats
  preset := "text"

def languageFlag (usage : Text) : Flag where
  name := "language"
  letter := some 108
  usage := usage

def analyzeCommand : Command where
  name := "analyze"
  operands := " [file|-]"
  summary := "Analyze a file (or stdin) and report OWASP Top 10 findings"
  examples := Text.unlines [
    "  owaspscan analyze app/login.py",
    "  cat handler.js | owaspscan analyze --format sarif > results.sarif",
    "  owaspscan analyze --fail-on high --secure-out fixed.php index.php"]
  flags := [
    formatFlag "text|json|sarif",
    languageFlag "Language label, skipping detection",
    { name := "output", letter := some 111, usage := "Write the report to this file instead of stdout" },
    { name := "no-color", kind := .switch, usage := "Disable terminal styling" },
    { name := "fail-on", usage := "Exit with status 2 when a finding is at or above this severity" },
    { name := "secure-out", usage := "Write the secure rewrite to this file" }]
  arity := .atMost 1

/-- Compares code with its mended form. -/
def compareCommand : Command where
  name := "compare"
  operands := " [file|-]"
  summary := "Show the original code next to its secure rewrite"
  flags := [
    { name := "context", letter := some 67, kind := .int, usage := "Unchanged lines shown around each finding",
      preset := Text.ofInt Comparison.defaultContext },
    formatFlag "text|json",
    languageFlag "Language label, skipping detection"]
  arity := .atMost 1

def rulesCommand : Command where
  name := "rules"
  summary := "List the detection rules"
  flags := [languageFlag "Only rules that apply to this language", formatFlag "text|json"]

def serveCommand : Command where
  name := "serve"
  summary := "Run the HTTP and WebSocket analysis API"
  flags := [
    { name := "addr", usage := "Listen address, e.g. :8080" },
    { name := "debounce", kind := .duration, usage := "Delay before a live analysis runs, e.g. 500ms" }]

def versionCommand : Command where
  name := "version"
  summary := "Print the version"

def helpCommand : Command where
  name := Program.helpName
  operands := " [command]"
  summary := "Help about any command"
  description := Text.unlines [
    "Help provides help for any command in the application.",
    "Simply type owaspscan help [path to command] for full details."]
  arity := .any

def program : Program where
  name := "owaspscan"
  description := Text.unlines [
    "owaspscan detects OWASP Top 10 issues in a source snippet, scores the risk",
    "and proposes a secure rewrite. It runs one-shot from the command line or as an",
    "HTTP and WebSocket service."]
  flags := [
    { name := "config", usage := "YAML config file (defaults apply when omitted)" },
    { name := "log-level", usage := "Log level: trace|debug|info|warn|error" }]
  commands := [analyzeCommand, compareCommand, rulesCommand, serveCommand, versionCommand, helpCommand]

/-! ## Failures -/

/-- Why a command fails. -/
inductive Failure where
  | flags (e : FlagError)
  | words (e : WordError)
  | format (given : Text) (known : List Text)
  | threshold (given : Text)
  | context (n : Int)
  | language (label : Text)
  | settingsFile (path : Text) (e : FileError)
  | settingsText (path : Text) (e : Settings.Unreadable)
  | settings (i : Settings.Invalid)
  | source (name : Text) (e : FileError)
  | noCode (name : Text)
  | engine (e : EngineError)
  | catalog (e : CatalogError)
  | service (e : ServiceError)
  | output (e : FileError)
  | secureOutput (e : FileError)
  | address (f : AddressFault)
  /-- A finding is as grave as the threshold. -/
  | reached (worst least : Severity)
  /-- A comparison leaves one of its texts. -/
  | overrun (o : Overrun)

def Failure.message : Failure → Text
  | .flags e => e.message
  | .words e => e.message
  | .format given known =>
    "unknown format " ++ Text.quote given ++ " (want " ++ Text.join "|" known ++ ")"
  | .threshold given => "--fail-on " ++ Text.quote given ++ " is not one of critical, high, medium, low"
  | .context n => "--context must not be negative, got " ++ Text.ofInt n
  | .language label => "unknown language " ++ Text.quote label
  | .settingsFile path e => "reading config " ++ path ++ ": " ++ e.message
  | .settingsText path e => "parsing config " ++ path ++ ": " ++ e.message
  | .settings i => i.message
  | .source name e => "reading " ++ name ++ ": " ++ e.message
  | .noCode name => name ++ ": no code to analyze"
  | .engine e => e.message
  | .catalog e => e.message
  | .service e => "creating server: " ++ e.message
  | .output e => "creating output: " ++ e.message
  | .secureOutput e => "writing secure code: " ++ e.message
  | .address f => "serving: listen tcp: " ++ f.message
  | .reached worst least =>
    "found " ++ worst.label.lower ++ " severity issues (fail-on " ++ least.label.lower ++ ")"
  | .overrun o => o.message

/-- The exit status of a failure: two when the command did its work. -/
def Failure.status : Failure → Nat
  | .reached .. | .overrun _ => 2
  | _ => 1

/-- Where a command that failed was given up halfway. -/
def Failure.overrun? : Failure → Option Overrun
  | .overrun o => some o
  | _ => none

def Failure.line (f : Failure) : Text :=
  (match f with
    | .reached .. => []
    | _ => utf8 "Error: ") ++ f.message ++ "\n"

/-! ## Running -/

/-- What a command finds around it. -/
structure Surroundings where
  stdin : Text := []
  files : Files := {}
  environment : Text → Text := fun _ => []
  /-- The time on log lines. -/
  stamp : Text := []
  /-- How long an analysis took, for the log. -/
  elapsed : Text := []
  /-- What the program was built with. -/
  toolchain : Text := []
  /-- The identifiers that a service draws. -/
  ids : Nat → Text := fun _ => []

/-- What a command leaves. -/
structure Effects where
  stdout : Text := []
  stderr : Text := []
  files : Files := {}
  /-- The service that is to listen. -/
  service : Option Service := none

/-- A step of a command. What it did before a failure remains. -/
abbrev Run := ExceptT Failure (StateM Effects)

def print (t : Text) : Run Unit := modify fun e => { e with stdout := e.stdout ++ t }

def note (t : Text) : Run Unit := modify fun e => { e with stderr := e.stderr ++ t }

def save (failure : FileError → Failure) (path t : Text) : Run Unit := do
  match (← get).files.write path t with
  | .ok files => modify fun e => { e with files := files }
  | .error e => throw (failure e)

def checkFormat (given : Text) (known : List Text) : Except Failure Unit :=
  if known.contains given then .ok () else .error (.format given known)

def threshold (given : Text) : Except Failure (Option Severity) :=
  if given.isEmpty then .ok none
  else match Severity.parse? given with
    | some s => .ok (some s)
    | none => .error (.threshold given)

/-- The language of a label; none for no label. -/
def language (label : Text) : Except Failure (Option Language) :=
  if label.isEmpty then .ok none
  else match Language.parse? label with
    | some l => .ok (some l)
    | none => .error (.language label)

/-- The settings in a file, or the defaults. -/
def settingsIn (files : Files) (path : Text) : Except Failure Settings :=
  if path.isEmpty then .ok {}
  else match files.read path with
    | .error e => .error (.settingsFile path e)
    | .ok t =>
      match Settings.read t with
      | .error e => .error (.settingsText path e)
      | .ok s => .ok s

/-- Checks that every setting is in range. -/
def checkSettings (s : Settings) : Except Failure Unit :=
  match s.invalid? with
  | some i => .error (.settings i)
  | none => .ok ()

/-- The settings under a level given as a flag. -/
def withLevel (s : Settings) (level : Text) : Except Failure Settings :=
  if level.isEmpty then .ok s
  else if Log.Level.isValid level then .ok { s with logging := { s.logging with level := level } }
  else .error (.settings (.logLevelFlag level))

def settings (w : Surroundings) (a : Arguments) : Except Failure Settings := do
  let s ← settingsIn w.files (a.text "config" [])
  let s := s.override w.environment
  checkSettings s
  withLevel s (a.text "log-level" [])

def logger (w : Surroundings) (s : Settings) : Logger := s.logger w.environment program.name

/-- The code to analyze and its name. -/
def source (w : Surroundings) (words : List Text) : Except Failure (Text × Text) := do
  let (code, name) ← match words with
    | [] => .ok (w.stdin, utf8 "stdin")
    | name :: _ =>
      if name == utf8 "-" then .ok (w.stdin, utf8 "stdin")
      else match w.files.read name with
        | .ok code => .ok (code, name)
        | .error e => .error (.source name e)
  if Document.isBlank code then .error (.noCode name) else .ok (code, name)

/-- The result of code, whose language is detected when there is no label. -/
def resultFor (e : Engine) (code label : Text) : Except Failure Result :=
  match language label with
  | .error f => .error f
  | .ok none => .ok (e.analyze code)
  | .ok (some l) => .ok (e.analyzeAs code l)

def analyzeCode (w : Surroundings) (s : Settings) (code label : Text) : Run (Engine × Result) := do
  match Engine.build s.engine none with
  | .error e => throw (.engine e)
  | .ok e =>
    note (e.readyLog (logger w s) w.stamp)
    let r ← liftM (resultFor e code label)
    note (e.resultLog (logger w s) w.stamp w.elapsed code r)
    return (e, r)

def report (format name : Text) (e : Engine) (r : Result) : Text :=
  if format == utf8 "json" then r.toJson.indented ++ [10]
  else if format == utf8 "sarif" then Sarif.render r name e.catalog
  else TextReport.render r name false

def runAnalyze (w : Surroundings) (a : Arguments) : Run Unit := do
  let format := a.text "format" "text"
  liftM (checkFormat format ["text", "json", "sarif"])
  let least ← liftM (threshold (a.text "fail-on" []))
  let s ← liftM (settings w a)
  let (code, name) ← liftM (source w a.words)
  let (e, r) ← analyzeCode w s code (a.text "language" [])
  let output := a.text "output" []
  if output.isEmpty then print (report format name e r)
  else save .output output (report format name e r)
  let secure := a.text "secure-out" []
  if !secure.isEmpty then save .secureOutput secure r.secureCode
  match least with
  | some t => if r.maxSeverity.atLeast t then throw (.reached r.maxSeverity t)
  | none => return

def runCompare (w : Surroundings) (a : Arguments) : Run Unit := do
  let format := a.text "format" "text"
  liftM (checkFormat format ["text", "json"])
  let context := (a.int? "context").getD Comparison.defaultContext
  if context < 0 then throw (.context context)
  let s ← liftM (settings w a)
  let (code, _) ← liftM (source w a.words)
  let (_, r) ← analyzeCode w s code (a.text "language" [])
  match Comparison.of code r.secureCode r.findings context with
  | .error o => throw (.overrun o)
  | .ok c => print (if format == utf8 "json" then c.toJson.indented ++ [10] else c.render)

/-- A table: every column but the last is as wide as its widest cell and two blanks. -/
def table (rows : List (List Text)) : Text :=
  let width (n : Nat) := rows.foldl (fun w r => max w (Text.runeCount (r[n]?.getD []))) 0
  let line (r : List Text) : Text :=
    (r.dropLast.zipIdx.flatMap fun (cell, n) =>
      cell ++ List.replicate (width n + 2 - cell.runeCount) (32 : UInt8)) ++ (r.getLast?.getD [] ++ [10])
  rows.flatMap line

def ruleRow (e : RuleEntry) : List Text :=
  [e.id, e.category, e.severity.label,
    if e.languages.isEmpty then utf8 "all" else Text.join "," (e.languages.map Language.label), e.type]

def runRules (w : Surroundings) (a : Arguments) : Run Unit := do
  let format := a.text "format" "text"
  liftM (checkFormat format ["text", "json"])
  let l ← liftM (language (a.text "language" []))
  let s ← liftM (settings w a)
  match Catalog.build builtinRules (s.engine.disabledRules.getD []) with
  | .error e => throw (.catalog e)
  | .ok c =>
    let entries := c.describe (l.getD (.other []))
    if format == utf8 "json" then print ((Json.array (entries.map RuleEntry.toJson)).indented ++ [10])
    else print (table (["ID", "CATEGORY", "SEVERITY", "LANGUAGES", "TYPE"] :: entries.map ruleRow))

def runServe (w : Surroundings) (a : Arguments) : Run Unit := do
  let s ← liftM (settings w a)
  let s := { s with server := { s.server with
    addr := a.text "addr" s.server.addr
    debounce := (a.int? "debounce").getD s.server.debounce } }
  liftM (checkSettings s)
  match Service.build s w.ids with
  | .error e => throw (.service e)
  | .ok service =>
    note (service.engine.readyLog (logger w s) w.stamp)
    note ((logger w s).write w.stamp .info "listening" [⟨"addr", .text s.server.addr⟩])
    match Address.fault? s.server.addr with
    | some f => throw (.address f)
    | none => modify fun e => { e with service := some service }

def versionLine (w : Surroundings) : Text := "owaspscan dev (built unknown, " ++ w.toolchain ++ ")\n"

/-- Whether a text can stand between back quotes: it is one line of printing characters without
any. -/
def fitsBackQuotes (t : Text) : Bool :=
  t.isValid && t.codes.all fun c => (32 ≤ c || c == 9) && c != 96 && c != 0x7F && c != 0xFEFF

/-- A text in back quotes, or else in double quotes. -/
def backQuote (t : Text) : Text := if fitsBackQuotes t then [96] ++ t ++ [96] else Text.quote t

def runHelp (words : List Text) : Run Unit := do
  match program.locate words with
  | .ok (none, _) => print program.help
  | .ok (some c, _) => print (program.helpFor c)
  | .error _ =>
    print ("Unknown help topic [" ++ Text.join " " (words.map backQuote) ++ "]\n" ++ program.usage false)

def runCommand (w : Surroundings) (c : Command) (a : Arguments) : Run Unit :=
  if c == analyzeCommand then runAnalyze w a
  else if c == compareCommand then runCompare w a
  else if c == rulesCommand then runRules w a
  else if c == serveCommand then runServe w a
  else if c == versionCommand then print (versionLine w)
  else runHelp a.words

def arguments (flags : List Flag) (given : List Text) : Except Failure Arguments :=
  match Flag.parse flags given with
  | .ok a => .ok a
  | .error e => .error (.flags e)

/-- Runs what the arguments name. Without a command, or with the help flag, that is a
description. -/
def runArguments (w : Surroundings) (given : List Text) : Run Unit := do
  match program.locate given with
  | .error e => throw (.words e)
  | .ok (none, given) =>
    discard (liftM (arguments (program.flags ++ [Program.helpFlag program.name]) given))
    print program.help
  | .ok (some c, given) =>
    let a ← liftM (arguments (program.flags ++ c.flags ++ [Program.helpFlag c.name]) given)
    if a.isOn Program.helpName then print (program.helpFor c)
    else match program.checkWords c a.words with
      | .error e => throw (.words e)
      | .ok () => runCommand w c a

/-- The command and its arguments, when they can be understood. -/
def understood? (given : List Text) : Option (Command × Arguments) :=
  match program.locate given with
  | .ok (some c, given) =>
    match arguments (program.flags ++ c.flags ++ [Program.helpFlag c.name]) given with
    | .ok a => some (c, a)
    | .error _ => none
  | _ => none

/-- Whether the arguments ask for code from the standard input. -/
def wantsStdin (given : List Text) : Bool :=
  match understood? given with
  | some (c, a) => c.operands == analyzeCommand.operands && (a.words == [] || a.words == [utf8 "-"])
  | none => false

def paths (given : List Text) : List Text :=
  match understood? given with
  | some (_, a) =>
    let named := [a.text "config" [], a.text "output" [], a.text "secure-out" []]
    (named ++ a.words.take 1).filter (!·.isEmpty)
  | none => []

/-- How a command ends. -/
structure Outcome extends Effects where
  exit : Nat
  /-- Why it was given up halfway. -/
  overrun : Option Overrun := none

def run (w : Surroundings) (given : List Text) : Outcome :=
  match (runArguments w given).run.run { files := w.files } with
  | (.ok (), e) => { e with exit := 0 }
  | (.error f, e) =>
    { e with stderr := e.stderr ++ f.line, exit := f.status, overrun := f.overrun? }

end CommandLine
end CodeAudit
