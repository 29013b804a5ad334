import CodeAudit.Rule.Catalog

/-!
# Mending a document

The fixes of findings are applied one after another, each to the lines as the fixes before it left
them. A draft keeps, for every line of the document, the span of lines it has become.

* `Span.collapse`: what a replacement makes of a span.
* `Draft.apply`: the fix of one finding.
* `remediate`: the document with the fixes of all findings.
-/
namespace CodeAudit

/-- A range of lines, without the line `stop`. -/
structure Span where
  start : Nat
  stop : Nat
  deriving DecidableEq, Repr

/-- What becomes of a span when the lines from `first` to `last` are replaced by `n` lines: one that
meets them becomes the new lines, and one behind them moves. -/
def Span.collapse (first last n : Nat) (s : Span) : Span :=
  if (s.start < last && first < s.stop) || (s.start == s.stop && first ≤ s.start && s.start < last) then
    ⟨first, first + n⟩
  else if last ≤ s.start then ⟨s.start + n - (last - first), s.stop + n - (last - first)⟩
  else s

/-- A document that is being changed. -/
structure Draft where
  lines : List Text
  /-- The span of each line of the document. -/
  spans : List Span
  deriving DecidableEq, Repr

namespace Draft

def ofLines (lines : List Text) : Draft where
  lines := lines
  spans := (List.range lines.length).map fun i => ⟨i, i + 1⟩

/-- Replaces the lines from `first` to `last`. -/
def replace (d : Draft) (first last : Nat) (out : List Text) : Draft where
  lines := d.lines.take first ++ out ++ d.lines.drop last
  spans := d.spans.map (Span.collapse first last out.length)

/-- The lines that a range of the document's lines, numbered from 1, has become. -/
def range? (d : Draft) (line endLine : Int) : Option Span :=
  if line < 1 || endLine < line || (d.spans.length : Int) < endLine then none
  else
    match d.spans[line.toNat - 1]?, d.spans[endLine.toNat - 1]? with
    | some a, some b => if b.stop ≤ a.start then none else some ⟨a.start, b.stop⟩
    | _, _ => none

/-- Applies the fix of a finding. A finding without a known rule, outside the document or on lines
that are gone, and a fix that fails or changes nothing, leave the draft as it is. -/
def apply (fixes : Text → Option Fix) (l : Language) (d : Draft) (f : Finding) : Draft :=
  match fixes f.ruleId, d.range? f.line f.endLine with
  | some fix, some s =>
    let fragment := (d.lines.drop s.start).take (s.stop - s.start)
    match fix fragment l with
    | some out => if out = fragment then d else d.replace s.start s.stop out
    | none => d
  | _, _ => d

end Draft

def Catalog.fix? (c : Catalog) (id : Text) : Option Fix := (c.lookup? id).bind (·.fix)

/-- The text of a document with the fixes of all findings, in their order. -/
def remediate (d : Document) (l : Language) (findings : List Finding) (fixes : Text → Option Fix) :
    Text :=
  if findings.isEmpty then d.text
  else Text.unlines
    ((findings.mergeSort Finding.le).foldl (Draft.apply fixes l) (Draft.ofLines d.lines)).lines

end CodeAudit
