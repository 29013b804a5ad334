import CodeAudit.Yaml.Codes

/-!
# Reading places in YAML text

A place among the code points of a text. Code point zero cannot occur in a text and stands for its
end.

* `isBlank`, `isBreak`, `isGap`, `isNameCode`: the classes of code points.
* `Cursor`: what is left, and where it is.
* `surfaceFault`: a fault at a place.
-/
namespace CodeAudit.Yaml

def isBlank (c : Nat) : Bool := c == 32 || c == 9

def isBreak (c : Nat) : Bool := c == 13 || c == 10 || c == 0x85 || c == 0x2028 || c == 0x2029

def isBreakOrEnd (c : Nat) : Bool := isBreak c || c == 0

def isGap (c : Nat) : Bool := isBlank c || isBreakOrEnd c

/-- A letter, a digit, `_` or `-`. -/
def isNameCode (c : Nat) : Bool :=
  (48 ≤ c && c ≤ 57) || (65 ≤ c && c ≤ 90) || (97 ≤ c && c ≤ 122) || c == 95 || c == 45

def isDigitCode (c : Nat) : Bool := 48 ≤ c && c ≤ 57

def hexValue? (c : Nat) : Option Nat :=
  if 48 ≤ c && c ≤ 57 then some (c - 48)
  else if 65 ≤ c && c ≤ 70 then some (c - 55)
  else if 97 ≤ c && c ≤ 102 then some (c - 87)
  else none

/-! ## Places -/

/-- A place in a text: what is left of it and the place's number, line and column, from zero. The
length of the whole text bounds what is left. -/
structure Cursor where
  rest : List Nat
  size : Nat
  index : Nat
  line : Nat
  column : Nat
  deriving Repr

namespace Cursor

def ofCodes (cs : List Nat) : Cursor := ⟨cs, cs.length, 0, 0, 0⟩

def ahead (c : Cursor) (n : Nat) : Nat := (c.rest.drop n).headD 0

def code (c : Cursor) : Nat := c.rest.headD 0

/-- Whether the code point at the place is a character. -/
def sees (c : Cursor) (x : Char) : Bool := c.code == x.toNat

def skip (c : Cursor) : Cursor := ⟨c.rest.drop 1, c.size, c.index + 1, c.line, c.column + 1⟩

def skipBy (n : Nat) (c : Cursor) : Cursor :=
  ⟨c.rest.drop n, c.size, c.index + n, c.line, c.column + n⟩

def skipLine (c : Cursor) : Cursor :=
  let n := if c.code == 13 && c.ahead 1 == 10 then 2 else if isBreak c.code then 1 else 0
  if n = 0 then c else ⟨c.rest.drop n, c.size, c.index + n, c.line + 1, 0⟩

/-- The text of a line end: a line feed, except that the two separators stand for themselves. -/
def breakText (c : Cursor) : Text :=
  if c.code == 0x2028 || c.code == 0x2029 then encodeRune c.code else if isBreak c.code then [10] else []

/-- The first place on the line whose code point does not satisfy `f`. -/
def skipWhile (f : Nat → Bool) (c : Cursor) : Cursor := c.skipBy (c.rest.takeWhile f).length

/-- The text up to the first code point that does not satisfy `f`. -/
def textWhile (f : Nat → Bool) (c : Cursor) : Text := (c.rest.takeWhile f).flatMap encodeRune

/-- Whether a document marker stands here: three times a character at the start of a line, and a
gap. -/
def atMarker (c : Cursor) (x : Char) : Bool :=
  c.column == 0 && c.code == x.toNat && c.ahead 1 == x.toNat && c.ahead 2 == x.toNat && isGap (c.ahead 3)

/-- Whether the start or the end of a document is marked here. -/
def atDocumentEdge (c : Cursor) : Bool := c.atMarker '-' || c.atMarker '.'

end Cursor

/-- The line a fault of the text's surface is reported on: the one where the piece began, or where
the trouble is, counted from one; nothing is said of the first line. -/
def reportedLine (began trouble : Nat) : Option Nat :=
  if began != 0 then some (began + 1) else if trouble != 0 then some (trouble + 1) else none

def surfaceFault (began : Nat) (c : Cursor) (problem : Text) : Fault := ⟨problem, reportedLine began c.line⟩

end CodeAudit.Yaml
