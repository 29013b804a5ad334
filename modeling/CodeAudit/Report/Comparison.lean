import CodeAudit.Comparison
import CodeAudit.Json.Basic

/-!
# Comparisons as JSON and as text
-/
namespace CodeAudit

/-- The name of what happens to a run of lines. -/
def EditKind.name : EditKind → Text
  | equal => "equal"
  | added => "added"
  | removed => "removed"

/-- A list of texts; nothing for an empty one. -/
def Json.textsOrNull (ts : List Text) : Json := if ts.isEmpty then .null else .texts ts

def Section.toJson (s : Section) : Json := .record [
  ("startLine", .int s.startLine),
  ("endLine", .int s.endLine),
  ("secureStartLine", .int s.secureStartLine),
  ("secureEndLine", .int s.secureEndLine),
  ("findingLines", .array (s.findingLines.map .int)),
  ("original", .textsOrNull s.given),
  ("secure", .textsOrNull s.secure)]

namespace Comparison

def chunkJson (e : Edit Text) : Json :=
  .record [("type", .string e.kind.name), ("lines", .texts e.items)]

def toJson (c : Comparison) : Json := .record [
  ("chunks", .array (c.chunks.map chunkJson)),
  ("patch", .string c.patch),
  ("sections", if c.sections.isEmpty then .null else .array (c.sections.map Section.toJson)),
  ("added", .nat c.added),
  ("removed", .nat c.removed)]

/-- A number in a column four wide. -/
def column (n : Int) : Text :=
  let t := Text.ofInt n
  Text.times (4 - t.length) " " ++ t

def numberedLine (mark : Text) (n : Int) (line : Text) : Text :=
  mark ++ " " ++ column n ++ " | " ++ line ++ "\n"

/-- The lines of a section in both texts; finding lines are marked. -/
def sectionText (s : Section) : Text :=
  "\n=== original lines " ++ Text.ofInt s.startLine ++ "-" ++ Text.ofInt s.endLine ++ " ===\n"
    ++ (s.given.zipIdx.flatMap fun (line, i) =>
      let n := s.startLine + i
      numberedLine (if s.findingLines.contains n then "!" else " ") n line)
    ++ "=== secure lines " ++ Text.ofInt s.secureStartLine ++ "-" ++ Text.ofInt s.secureEndLine ++ " ===\n"
    ++ s.secure.zipIdx.flatMap fun (line, i) => numberedLine " " (s.secureStartLine + i) line

def markedLine (mark line : Text) : Text := mark ++ " " ++ line ++ "\n"

def chunkText (e : Edit Text) : Text := e.items.flatMap (markedLine (Patch.mark e.kind))

/-- A comparison as text: the sections, then all lines. -/
def render (c : Comparison) : Text :=
  "Comparison: " ++ Text.ofInt c.added ++ " line(s) added, " ++ Text.ofInt c.removed ++ " line(s) removed\n"
    ++ c.sections.flatMap sectionText ++ "\n=== diff ===\n" ++ c.chunks.flatMap chunkText

end Comparison
end CodeAudit
