import CodeAudit.Json.Basic
import CodeAudit.Text.Quoted

/-!
# Writing JSON

Characters that are special in pages are written as codes, and bytes that are not UTF-8 as the
replacement character. The rest depends on the layout, which is the white space between tokens.

* `Json.writeAt`: a value in a layout.
* `Json.compact`: a value on one line without spaces.
* `Json.indented`: a value with one member or item on a line, indented by two spaces a level.
-/
namespace CodeAudit.Json

/-- A code point below 65536 as an escape of four digits. -/
def codeEscape (c : Nat) : Text := "\\u" ++ hexDigits 4 c

/-- A code point inside a string. -/
def writeRune (r : Rune) : Text :=
  match r.code with
  | 34 => "\\\""
  | 92 => "\\\\"
  | 8 => "\\b"
  | 12 => "\\f"
  | 10 => "\\n"
  | 13 => "\\r"
  | 9 => "\\t"
  | c =>
    if c < 32 || c = 60 || c = 62 || c = 38 || c = 0x2028 || c = 0x2029 then codeEscape c
    else encodeRune c

def writeString (t : Text) : Text := "\"" ++ t.runes.flatMap writeRune ++ "\""

/-- The white space of a layout: what stands before an item, a member or a closing bracket at a
level, and what stands behind a colon. -/
structure Layout where
  line : Nat → Text
  gap : Text

mutual

def writeAt (y : Layout) : Nat → Json → Text
  | _, .null => "null"
  | _, .bool b => if b then "true" else "false"
  | _, .number t => t
  | _, .string t => writeString t
  | _, .array [] => "[]"
  | level, .array (j :: rest) =>
    "[" ++ y.line (level + 1) ++ writeAt y (level + 1) j ++ writeItems y (level + 1) rest
      ++ y.line level ++ "]"
  | _, .object [] => [123, 125]
  | level, .object (m :: rest) =>
    [123] ++ y.line (level + 1) ++ writeMember y (level + 1) m ++ writeMembers y (level + 1) rest
      ++ y.line level ++ [125]

def writeItems (y : Layout) : Nat → List Json → Text
  | _, [] => []
  | level, j :: rest => "," ++ y.line level ++ writeAt y level j ++ writeItems y level rest

def writeMembers (y : Layout) : Nat → List (Text × Json) → Text
  | _, [] => []
  | level, m :: rest => "," ++ y.line level ++ writeMember y level m ++ writeMembers y level rest

def writeMember (y : Layout) : Nat → Text × Json → Text
  | level, (name, j) => writeString name ++ ":" ++ y.gap ++ writeAt y level j

end

def compact (j : Json) : Text := writeAt ⟨fun _ => [], []⟩ 0 j

def newLine (level : Nat) : Text := 10 :: Text.times level "  "

def indented (j : Json) : Text := writeAt ⟨newLine, " "⟩ 0 j

end CodeAudit.Json
