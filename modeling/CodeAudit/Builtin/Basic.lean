import CodeAudit.Fix.Basic

/-!
# Shared parts of the built-in rules
-/
namespace CodeAudit.Builtin

/-- A recommendation, followed by what is said of every suggested change. -/
def recommend (t : Text) : Text :=
  t ++ " The suggested rewrite is an illustrative secure idiom, not a verified drop-in replacement; review it before use."

/-- The languages application logic is usually written in. -/
def serverSide : List Language := [.javaScript, .python, .php, .java, .general]

def onLines (p : Pattern) : Matcher := { kind := .line, pattern := some p }

/-- A matcher of single lines that leaves out those another pattern matches. -/
def onLinesExcept (p exclude : Pattern) : Matcher :=
  { kind := .line, pattern := some p, exclude := some exclude }

def onWindows (size : Int) (p : Pattern) : Matcher :=
  { kind := .window, pattern := some p, size := size }

def onDocuments (f : Document → Language → List Int) : Matcher :=
  { kind := .predicate, predicate := some fun d l => some (f d l) }

/-- Values that are placeholders or lookups rather than secrets. -/
def placeholderValue : Pattern :=
  .read r#"(?i)[:=]\s*["'](\$\{[^}]*\}|<[^>]*>|x{4,}|\*{4,}|changeme|change_me|your[_-]?[a-z_-]*|example[a-z_-]*|%\(\w+\)s|dummy|placeholder)["']|process\.env|os\.environ|getenv|System\.getenv"#

/-- The opposite of a switch value, in the same letter case; any other text is kept. -/
def flipBoolean (t : Text) : Text :=
  match switchPairs.find? (fun s => utf8 s.1 == t) with
  | some (_, w) => w
  | none => t
where
  /-- Switch values and their opposites. -/
  switchPairs : List (String × String) :=
    [("False", "True"), ("false", "true"), ("FALSE", "TRUE"), ("True", "False"),
      ("true", "false"), ("TRUE", "FALSE"), ("0", "1"), ("1", "0"), ("off", "on"), ("Off", "On"),
      ("OFF", "ON"), ("on", "off"), ("On", "Off"), ("ON", "OFF")]

def booleanToken : Pattern := .read r"(?i)\b(true|false|on|off|0|1)\b"

/-- The text with its last switch value inverted. -/
def flipLastToken (t : Text) : Text :=
  match (booleanToken.findAll t).getLast? with
  | none => t
  | some m => t.take m.start ++ flipBoolean (m.text t) ++ t.drop m.stop

/-- Inverts the last switch value in each match of a pattern. -/
def flipLast (p : Pattern) : Fix := .replaceWith p fun group _ => flipLastToken (group 0)

end CodeAudit.Builtin
