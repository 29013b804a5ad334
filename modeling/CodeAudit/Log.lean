import CodeAudit.Json.Writer
import CodeAudit.Text.Blank
import CodeAudit.Text.Case
import CodeAudit.Text.Quoted

/-!
# Log lines

A logger has a name, fields of its own and a style, and turns a message with fields into the text of
a log line. The styles are

* `plain`: `[INFO]  name: message: key=value …`,
* `tagged`: one JSON object per line, with the fields beside `@level`, `@message` and `@module`,
* `nested`: one JSON object per line, with the fields in an object of their own and no least level,
* `silent`: nothing.

A child logger (`Logger.child`) has more fields; the field `component` is a name and not a field,
unless it is no text.
-/
namespace CodeAudit

namespace Log

/-- How grave a message is. -/
inductive Level where
  | trace
  | debug
  | info
  | warn
  | error
  deriving DecidableEq, Repr

namespace Level

def name : Level → Text
  | .trace => "trace"
  | .debug => "debug"
  | .info => "info"
  | .warn => "warn"
  | .error => "error"

/-- The levels from the least grave. -/
def rank : Level → Nat
  | .trace => 1
  | .debug => 2
  | .info => 3
  | .warn => 4
  | .error => 5

/-- The level in front of a plain line, padded to one width. -/
def tag : Level → Text
  | .trace => "[TRACE]"
  | .debug => "[DEBUG]"
  | .info => "[INFO] "
  | .warn => "[WARN] "
  | .error => "[ERROR]"

/-- The level with a name, in any case and with blanks around it. -/
def parse? (t : Text) : Option Level :=
  let name := Text.upper (Text.trim t)
  if name == utf8 "TRACE" then some .trace
  else if name == utf8 "DEBUG" then some .debug
  else if name == utf8 "INFO" then some .info
  else if name == utf8 "WARN" || name == utf8 "WARNING" then some .warn
  else if name == utf8 "ERROR" then some .error
  else none

/-- The level a text stands for: what names no level stands for `info`. -/
def ofText (t : Text) : Level := (parse? t).getD .info

/-- Whether a text may be given as a level: it is blank or names one. -/
def isValid (t : Text) : Bool := (Text.trim t).isEmpty || (parse? t).isSome

end Level

/-- The value of a field. -/
inductive Value where
  | null
  | text (t : Text)
  | int (n : Int)
  | bool (b : Bool)
  | list (vs : List Value)
  /-- A number that JSON cannot write, by its name. -/
  | irregular (name : Text)
  deriving Repr, Inhabited

/-- A named value. -/
structure Field where
  key : Text
  value : Value
  deriving Repr

/-- The field for an error; an absent error has an empty message. -/
def errorField (message : Text) : Field := ⟨"error", .text message⟩

mutual

/-- A value as it shows inside a message. -/
def Value.display : Value → Text
  | .null => "<nil>"
  | .text t => t
  | .int n => Text.ofInt n
  | .bool b => if b then "true" else "false"
  | .list vs => "[" ++ displayItems true vs ++ "]"
  | .irregular name => name

def displayItems : Bool → List Value → Text
  | _, [] => []
  | first, v :: vs => (if first then [] else utf8 " ") ++ v.display ++ displayItems false vs

end

mutual

def Value.toJson? : Value → Option Json
  | .null => some .null
  | .text t => some (.string t)
  | .int n => some (.int n)
  | .bool b => some (.bool b)
  | .list vs => (jsonItems? vs).map .array
  | .irregular _ => none

def jsonItems? : List Value → Option (List Json)
  | [] => some []
  | v :: vs => do return (← v.toJson?) :: (← jsonItems? vs)

end

/-- Puts a value under a key: in place of the value there, or at the end. -/
def put (f : Field) : List Field → List Field
  | [] => [f]
  | g :: gs => if g.key == f.key then f :: gs else g :: put f gs

/-- The fields with the last value of each key, sorted by key. -/
def keyed (fs : List Field) : List Field :=
  (fs.foldl (fun m f => put f m) []).mergeSort fun a b => Text.le a.key b.key

/-- The fields as the members of an object, if they can be written. -/
def members? (fs : List Field) : Option (List (Text × Json)) :=
  fs.mapM fun f => f.value.toJson?.map fun j => (f.key, j)

/-! ## Plain lines -/

/-- Whether a character shows as it is: a printable one that is no quote. -/
def showsAsIs (c : Nat) : Bool := isPrintable c && c != 34

/-- One character that is escaped when it does not print. -/
def escapeRune (quotes : Bool) (r : Rune) : Text :=
  if quotes && r.code == 34 then "\\\""
  else if isPrintable r.code then encodeRune r.code
  else if r.code == 7 then "\\a"
  else if r.code == 8 then "\\b"
  else if r.code == 12 then "\\f"
  else if r.code == 10 then "\\n"
  else if r.code == 13 then "\\r"
  else if r.code == 9 then "\\t"
  else if r.code == 11 then "\\v"
  else if r.code < 0x20 then "\\x" ++ hexDigits 2 r.code
  else if r.code < 0x10000 then "\\u" ++ hexDigits 4 r.code
  else "\\U" ++ hexDigits 8 r.code

/-- A text whose characters all print is kept byte for byte; in any other the characters are
escaped. -/
def escape (quotes : Bool) (t : Text) : Text :=
  if t.runes.all fun r => showsAsIs r.code then t else t.runes.flatMap (escapeRune quotes)

/-- Whether a value must stand in quotes: some character is not between `-` and `~`. -/
def needsQuotes (t : Text) : Bool := t.runes.any fun r => r.code < 45 || 126 < r.code

/-- The value of a field, and whether it is written as it is. -/
def plainValue : Value → Text × Bool
  | .text [] => ("\"\"", true)
  | .list vs =>
    let items := vs.map fun v =>
      let t := v.display
      if t.any fun b => b == 32 || b == 9 || b == 10 || b == 13 then Text.quote t else t
    ("[" ++ Text.join ", " items ++ "]", true)
  | v => (v.display, false)

/-- A value of several lines, one line each behind a bar. -/
def barred (t : Text) : Text :=
  let ls := t.lines
  let ls := if ls.getLast? == some [] then ls.dropLast else ls
  ls.flatMap fun l => "  | " ++ escape false l ++ "\n"

def plainField (f : Field) : Text :=
  let (v, asIs) := plainValue f.value
  if v.any (· == 10) then "\n  " ++ f.key ++ "=\n" ++ barred v ++ "  "
  else if !asIs && needsQuotes v then " " ++ f.key ++ "=\"" ++ escape true v ++ "\""
  else " " ++ f.key ++ "=" ++ v

def plainLine (level : Level) (name message : Text) (fs : List Field) : Text :=
  level.tag ++ " " ++ name ++ (if name.isEmpty || message.isEmpty then [] else utf8 ": ")
    ++ escape false message
    ++ (if fs.isEmpty then [] else utf8 ":" ++ fs.flatMap plainField) ++ "\n"

/-! ## JSON lines -/

/-- A line with the fields beside the message. A line that cannot be written is left out. -/
def taggedLine (stamp : Text) (level : Level) (name message : Text) (fs : List Field) : Text :=
  let head : List Field := [⟨"@message", .text message⟩, ⟨"@timestamp", .text stamp⟩,
    ⟨"@level", .text level.name⟩] ++ if name.isEmpty then [] else [⟨"@module", .text name⟩]
  match members? (keyed (head ++ fs)) with
  | some ms => (Json.object ms).compact ++ [10]
  | none => []

/-- The fields as they show when they cannot be written as JSON. -/
def displayFields (fs : List Field) : Text :=
  "map[" ++ Text.join " " (fs.map fun f => f.key ++ ":" ++ f.value.display) ++ "]"

/-- A line with the fields in an object of their own, which is left out when it is empty. -/
def nestedLine (stamp : Text) (level : Level) (name message : Text) (fs : List Field) : Text :=
  let fs := keyed fs
  match members? fs with
  | none => level.name ++ " " ++ message ++ " " ++ displayFields fs ++ "\n"
  | some ms =>
    let members := [("level", Json.string level.name), ("msg", .string message)]
      ++ (if name.isEmpty then [] else [("component", .string name)])
      ++ [("time", .string stamp)]
      ++ if ms.isEmpty then [] else [("fields", .object ms)]
    (Json.record members).compact ++ [10]

/-! ## Loggers -/

/-- How lines are written, and from which level on. -/
inductive Style where
  | plain (least : Level)
  | tagged (least : Level)
  | nested
  | silent
  deriving DecidableEq, Repr

end Log

/-- A named logger with the fields it adds to every line. -/
structure Logger where
  style : Log.Style
  name : Text
  fields : List Log.Field
  deriving Repr

namespace Logger

def ofName (style : Log.Style) (name : Text) : Logger := ⟨style, name, []⟩

/-- The name of a child: a nested line shows only the component, other lines show the path to it. -/
def childName (style : Log.Style) (name component : Text) : Text :=
  match style with
  | .nested => component
  | _ => if name.isEmpty then component else name ++ "." ++ component

def component? (f : Log.Field) : Option Text :=
  if f.key == utf8 "component" then
    match f.value with
    | .text t => some t
    | _ => none
  else none

def child (l : Logger) (fs : List Log.Field) : Logger :=
  let rest := fs.filter fun f => (component? f).isNone
  { l with
    name := (fs.filterMap component?).foldl (childName l.style) l.name
    fields := match l.style with
      | .nested => l.fields ++ rest
      | _ => if rest.isEmpty then l.fields else Log.keyed (l.fields ++ rest) }

def component (l : Logger) (name : Text) : Logger := l.child [⟨"component", .text name⟩]

/-- The text a message adds to the log; `stamp` is the time on lines that show one. -/
def write (l : Logger) (stamp : Text) (level : Log.Level) (message : Text) (fs : List Log.Field) : Text :=
  match l.style with
  | .plain least =>
    if level.rank < least.rank then [] else Log.plainLine level l.name message (l.fields ++ fs)
  | .tagged least =>
    if level.rank < least.rank then [] else Log.taggedLine stamp level l.name message (l.fields ++ fs)
  | .nested => Log.nestedLine stamp level l.name message (l.fields ++ fs)
  | .silent => []

/-- The style for a level given by name, else by the surroundings. -/
def styleOf (json : Bool) (level fallback : Text) : Log.Style :=
  let least := Log.Level.ofText (if level.isEmpty then fallback else level)
  if json then .tagged least else .plain least

end Logger
end CodeAudit
