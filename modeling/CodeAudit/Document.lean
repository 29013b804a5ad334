import CodeAudit.Text.Blank

/-!
# Documents

A document is a text with its lines, which are numbered from 1.
-/
namespace CodeAudit

/-- A text, read as lines. -/
structure Document where
  text : Text
  deriving DecidableEq, Repr

namespace Document

/-- The lines of a document; always at least one. -/
def lines (d : Document) : List Text := d.text.lines

def lineCount (d : Document) : Nat := d.lines.length

/-- The line with a number, empty when there is none. -/
def line (d : Document) (n : Int) : Text :=
  if n < 1 then [] else d.lines.getD (n.toNat - 1) []

/-- The lines from one number to another, both included and both brought into range. -/
def slice (d : Document) (first last : Int) : List Text :=
  let first := max 1 first
  let last := min (d.lineCount : Int) last
  if last < first then [] else (d.lines.drop (first.toNat - 1)).take (last - first + 1).toNat

/-- Whether a text holds nothing but white space. -/
def isBlank (t : Text) : Bool := t.trim.isEmpty

end Document
end CodeAudit
