import CodeAudit.Edit.Patch
import CodeAudit.Finding
import CodeAudit.Word

/-!
# Comparing code with its mended form

* `NumberedLines.of`: the lines of two texts as numbers, equal lines with equal numbers.
* `lineScript`, `chunk`: the script between the lines of two texts, and the lines of its steps.
* `focusRanges`: the lines around findings.
* `equalPositions`, `secureRange`: where lines of one text are in the other.
* `Comparison.of`: all of it, or where it leaves one of the texts.
-/
namespace CodeAudit

/-- The lines around some findings in both texts, numbered from 1. -/
structure Section where
  startLine : Int
  endLine : Int
  secureStartLine : Int
  secureEndLine : Int
  findingLines : List Int
  given : List Text
  secure : List Text
  deriving DecidableEq, Repr

/-- Two texts side by side. -/
structure Comparison where
  chunks : List (Edit Text)
  patch : Text
  sections : List Section
  added : Nat
  removed : Nat
  deriving DecidableEq, Repr

/-- A range of lines, both ends included, and the finding lines in it. -/
structure FocusRange where
  start : Int
  stop : Int
  lines : List Int
  deriving DecidableEq, Repr

/-- The lines of two texts as places in a table of distinct lines. -/
structure NumberedLines where
  table : List Text
  given : List Nat
  secure : List Nat
  deriving DecidableEq, Repr

namespace NumberedLines

/-- The places of lines in a table, at the end of which new lines are added. -/
def number : List Text → List Text → List Text × List Nat
  | table, [] => (table, [])
  | table, line :: rest =>
    match table.idxOf? line with
    | some i =>
      let r := number table rest
      (r.1, i :: r.2)
    | none =>
      let r := number (table ++ [line]) rest
      (r.1, table.length :: r.2)

/-- The lines of two texts. Both get a line break at their end, so that the last line is like any
other. -/
def of (given secure : Text) : NumberedLines :=
  let (table, left) := number [] (Edit.brokenLines (given ++ "\n"))
  let (table, right) := number table (Edit.brokenLines (secure ++ "\n"))
  { table := table, given := left, secure := right }

def text (n : NumberedLines) (numbers : List Nat) : Text := numbers.flatMap fun i => n.table.getD i []

end NumberedLines

/-- A way to find a script between two lists of numbers. -/
abbrev Differ := List Nat → List Nat → List (Edit Nat)

namespace Comparison

/-- The lines shown around a finding where nothing else is asked for. -/
def defaultContext : Int := 3

/-- The lines shown of a document without findings. -/
def overviewLines : Int := 20

/-- The script between two texts in steps of whole lines. -/
def lineScript (diff : Differ) (given secure : Text) : List Edit.Step :=
  let n := NumberedLines.of given secure
  (diff n.given n.secure).map (Edit.map n.text)

/-- The lines of a step; the line break at its end starts no line. -/
def chunk (e : Edit.Step) : Edit Text := e.map fun t => Text.lines (Text.dropSuffix t "\n")

def countLines (kind : EditKind) (chunks : List (Edit Text)) : Nat :=
  ((chunks.filter (·.kind = kind)).flatMap (·.items)).length

/-- The places of the lines of the first text in the second, from line `s` of the second on. -/
def positionsFrom : Nat → List (Edit Text) → List (Option Nat)
  | _, [] => []
  | s, e :: rest =>
    let k := e.items.length
    match e.kind with
    | .equal => (List.range k).map (fun i => some (s + i)) ++ positionsFrom (s + k) rest
    | .removed => List.replicate k none ++ positionsFrom s rest
    | .added => positionsFrom (s + k) rest

/-- For each of `n` lines of the first text its place in the second, if it is kept. -/
def equalPositions (chunks : List (Edit Text)) (n : Nat) : List (Option Nat) :=
  let ps := (positionsFrom 0 chunks).take n
  ps ++ List.replicate (n - ps.length) none

/-- The place behind the last kept line before line `k`. -/
def placeBefore (positions : List (Option Nat)) (k : Nat) : Nat :=
  match (positions.take k).reverse.findSome? id with
  | some p => p + 1
  | none => 0

/-- The place of the first kept line from line `k` on, or else the end of the second text. -/
def placeFrom (positions : List (Option Nat)) (k secureCount : Nat) : Nat :=
  ((positions.drop k).findSome? id).getD secureCount

/-- The lines of the second text, from the first number on and without the second, that belong to
lines of the first: from the last kept line before them to the first kept line after them, which is
looked for from place `stop` on. -/
def secureRange (positions : List (Option Nat)) (start stop : Int) (secureCount : Nat) :
    Except Overrun (Nat × Nat) :=
  let first := placeBefore positions (start - 1).toNat
  if stop < 0 then .error (.index stop)
  else .ok (first, max first (placeFrom positions stop.toNat secureCount))

/-- Adds the lines around a finding to the ranges so far, last first. A range that meets or touches
the last one becomes part of it. -/
def addRange (n context : Int) (ranges : List FocusRange) (l : Int) : List FocusRange :=
  let start := max 1 (l - context)
  let stop := min n (wrap (l + context))
  match ranges with
  | r :: rest =>
    if start ≤ r.stop + 1 then { r with stop := max r.stop stop, lines := r.lines ++ [l] } :: rest
    else ⟨start, stop, [l]⟩ :: ranges
  | [] => [⟨start, stop, [l]⟩]

/-- The distinct lines of the findings within a document of `n` lines, in order. -/
def findingLines (findings : List Finding) (n : Int) : List Int :=
  ((findings.map (·.line)).filter fun l => 1 ≤ l && l ≤ n).eraseDups.mergeSort

/-- The lines around the findings; without findings the start of the document. -/
def focusRanges (findings : List Finding) (n context : Int) : List FocusRange :=
  if findings.isEmpty then [⟨1, min overviewLines n, []⟩]
  else ((findingLines findings n).foldl (addRange n context) []).reverse

/-- The lines from place `first` on and without place `last`. -/
def slice (ls : List Text) (first last : Int) : Except Overrun (List Text) :=
  if last < 0 || ls.length < last then .error (.stop last ls.length)
  else if first < 0 || last < first then .error (.start first last)
  else .ok ((ls.drop first.toNat).take (last - first).toNat)

/-- The lines of a range in both texts. -/
def sectionOf (given secure : List Text) (positions : List (Option Nat)) (r : FocusRange) :
    Except Overrun Section := do
  let (first, last) ← secureRange positions r.start r.stop secure.length
  let left ← slice given (r.start - 1) r.stop
  let right ← slice secure first last
  return {
    startLine := r.start
    endLine := r.stop
    secureStartLine := first + 1
    secureEndLine := last
    findingLines := r.lines
    given := left
    secure := right }

/-- The comparison of two texts along the scripts that `diff` finds, with `context` lines around
each finding. It is given up at the first range that leaves one of the texts. -/
def along (diff : Differ) (given secure : Text) (findings : List Finding) (context : Int) :
    Except Overrun Comparison := do
  let context := if context < 0 then defaultContext else context
  let chunks := (lineScript diff given secure).map chunk
  let positions := equalPositions chunks given.lines.length
  let sections ← (focusRanges findings given.lines.length context).mapM
    (sectionOf given.lines secure.lines positions)
  return {
    chunks := chunks
    patch := Patch.between given secure
    sections := sections
    added := countLines .added chunks
    removed := countLines .removed chunks }

/-- The comparison of two texts. -/
def of (given secure : Text) (findings : List Finding) (context : Int) :
    Except Overrun Comparison :=
  along (Grain.plain Nat).script given secure findings context

end Comparison
end CodeAudit
