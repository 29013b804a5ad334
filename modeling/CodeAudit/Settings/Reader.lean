import CodeAudit.Settings
import CodeAudit.Yaml.Record

/-!
# Reading settings

Settings are read from YAML over the defaults. What cannot be read is a `Unreadable`: the text is no
YAML, or values of it do not fit.
-/
namespace CodeAudit.Settings

open Yaml (Filling)
open Yaml.Filling (slot record text int bool duration texts)

/-- Why settings cannot be read. -/
inductive Unreadable where
  | syntactic (f : Yaml.Fault)
  | mismatches (notes : List Text)
  deriving DecidableEq, Repr

def Unreadable.message : Unreadable → Text
  | .syntactic f => f.message
  | .mismatches notes => "yaml: unmarshal errors:" ++ notes.flatMap fun n => utf8 "\n  " ++ n

def readWeights : Yaml.Node → Weights → Filling Weights :=
  record "score.Weights" [
    slot "critical" Weights.critical (fun w x => { w with critical := x }) (int "int"),
    slot "high" Weights.high (fun w x => { w with high := x }) (int "int"),
    slot "medium" Weights.medium (fun w x => { w with medium := x }) (int "int"),
    slot "low" Weights.low (fun w x => { w with low := x }) (int "int")]

def readEngine : Yaml.Node → EngineSettings → Filling EngineSettings :=
  record "engine.Config" [
    slot "weights" EngineSettings.weights (fun s x => { s with weights := x }) readWeights,
    slot "snippet_width" EngineSettings.snippetWidth (fun s x => { s with snippetWidth := x }) (int "int"),
    slot "max_line_length" EngineSettings.maxLineLength (fun s x => { s with maxLineLength := x }) (int "int"),
    slot "min_language_score" EngineSettings.minLanguageScore
      (fun s x => { s with minLanguageScore := x }) (int "int"),
    slot "disabled_rules" EngineSettings.disabledRules (fun s x => { s with disabledRules := x }) texts]

def readServer : Yaml.Node → ServerSettings → Filling ServerSettings :=
  record "config.ServerConfig" [
    slot "addr" ServerSettings.addr (fun s x => { s with addr := x }) text,
    slot "read_timeout" ServerSettings.readTimeout (fun s x => { s with readTimeout := x }) duration,
    slot "write_timeout" ServerSettings.writeTimeout (fun s x => { s with writeTimeout := x }) duration,
    slot "idle_timeout" ServerSettings.idleTimeout (fun s x => { s with idleTimeout := x }) duration,
    slot "max_code_bytes" ServerSettings.maxCodeBytes (fun s x => { s with maxCodeBytes := x }) (int "int64"),
    slot "debounce" ServerSettings.debounce (fun s x => { s with debounce := x }) duration,
    slot "allowed_origins" ServerSettings.allowedOrigins (fun s x => { s with allowedOrigins := x }) texts]

def readLogging : Yaml.Node → LogSettings → Filling LogSettings :=
  record "config.LoggingConfig" [
    slot "level" LogSettings.level (fun s x => { s with level := x }) text,
    slot "json" LogSettings.json (fun s x => { s with json := x }) bool]

def readHistory : Yaml.Node → Int → Filling Int :=
  record "config.HistoryConfig" [slot "max_entries" id (fun _ x => x) (int "int")]

def readAll : Yaml.Node → Settings → Filling Settings :=
  record "config.Config" [
    slot "engine" Settings.engine (fun s x => { s with engine := x }) readEngine,
    slot "server" Settings.server (fun s x => { s with server := x }) readServer,
    slot "logging" Settings.logging (fun s x => { s with logging := x }) readLogging,
    slot "history" Settings.maxEntries (fun s x => { s with maxEntries := x }) readHistory]

/-- The settings that a text gives, over the defaults. A text without a document gives the
defaults. -/
def read (t : Text) : Except Unreadable Settings :=
  match Yaml.Document.read t with
  | .error f => .error (.syntactic f)
  | .ok none => .ok {}
  | .ok (some d) =>
    match Filling.run d (readAll · {}) with
    | .error f => .error (.syntactic f)
    | .ok (s, []) => .ok s
    | .ok (_, notes) => .error (.mismatches notes)

end CodeAudit.Settings
