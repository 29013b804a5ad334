import CodeAudit.Rule.Catalog
import CodeAudit.Word

/-!
# Scanning a document

Every rule of a catalog that looks at a language is run over a document. The findings are in order
of their lines, and on one line in order of the rules.

* `ScanOptions.isGuarded`: lines that no rule looks at.
* `Matcher.hits?`: where a rule hits a document.
* `scan`: the findings of a catalog, and the rules that failed.
* `checkedScan`: the same with the ends of windows as words. It is given up where one of them
  overflows.
-/
namespace CodeAudit

/-- How far lines are looked at and shown. -/
structure ScanOptions where
  /-- The greatest number of code points in a snippet. -/
  snippetWidth : Nat := 200
  /-- The greatest number of bytes in a line that is looked at. -/
  maxLineLength : Nat := 4096
  deriving DecidableEq, Repr

/-- The lines of a hit, numbered from 1. -/
structure Hit where
  line : Nat
  endLine : Nat
  deriving DecidableEq, Repr

namespace ScanOptions

def withSnippetWidth (o : ScanOptions) (n : Int) : ScanOptions :=
  if 0 < n then { o with snippetWidth := n.toNat } else o

/-- Sets the length of lines, if it is positive. -/
def withMaxLineLength (o : ScanOptions) (n : Int) : ScanOptions :=
  if 0 < n then { o with maxLineLength := n.toNat } else o

/-- How many bytes of a line are searched for a zero byte. -/
def probeLength : Nat := 512

/-- Whether a line looks like binary data: it is too long, or has a zero byte near its start. -/
def isGuarded (o : ScanOptions) (line : Text) : Bool :=
  o.maxLineLength < line.length || (line.take probeLength).any (· == 0)

/-- The text of some lines, with those that look like binary data left blank. -/
def windowText (o : ScanOptions) (lines : List Text) : Text :=
  Text.unlines (lines.map fun line => if o.isGuarded line then [] else line)

/-- The lines of a hit as shown: without surrounding white space, and cut off at the width. -/
def snippet (o : ScanOptions) (lines : List Text) : Text :=
  let t := Text.unlines (lines.map Text.trim)
  if Text.runeCount t ≤ o.snippetWidth then t
  else Text.ofCodes ((Text.codes t).take o.snippetWidth) ++ "..."

end ScanOptions

namespace Matcher

/-- Whether a line may start a hit. -/
def isEligible (m : Matcher) (o : ScanOptions) (l : Language) (line : Text) : Bool :=
  !o.isGuarded line && (m.comments || !l.isCommentLine line.trim)

/-- Whether a text is left out. -/
def excludes (m : Matcher) (t : Text) : Bool := m.exclude.any (·.matchesIn t)

/-- The line as a hit on its own. -/
def lineHit? (m : Matcher) (o : ScanOptions) (l : Language) (n : Nat) (line : Text) : Option Hit :=
  if m.isEligible o l line && m.pattern.any (·.matchesIn line) && !m.excludes line then some ⟨n, n⟩
  else none

/-- The hits among single lines, the first of which has number `n`. -/
def lineHits (m : Matcher) (o : ScanOptions) (l : Language) : Nat → List Text → List Hit
  | _, [] => []
  | n, line :: rest =>
    match m.lineHit? o l n line with
    | some h => h :: lineHits m o l (n + 1) rest
    | none => lineHits m o l (n + 1) rest

/-- The last line of a match that starts on line `n`; a line break at its end does not count. -/
def lastLine (n : Nat) (found : Text) : Nat :=
  n + Text.count Text.newline (Text.dropSuffix found "\n")

/-- The hit in a window that starts with line `n`: the match has to start on that line. -/
def hitIn? (m : Matcher) (o : ScanOptions) (n : Nat) (line : Text) (window : List Text) : Option Hit :=
  let t := o.windowText window
  match m.pattern.bind (·.find? t) with
  | none => none
  | some f =>
    if line.length < f.start || m.excludes t then none else some ⟨n, lastLine n (f.text t)⟩

/-- The hit of the window that starts with line `n`, out of the lines behind it. -/
def windowHit? (m : Matcher) (o : ScanOptions) (l : Language) (n : Nat) (line : Text)
    (rest : List Text) : Option Hit :=
  if m.isEligible o l line then m.hitIn? o n line (line :: rest.take (m.size.toNat - 1)) else none

/-- The hits among windows, the first of which starts with line `n`. -/
def windowHits (m : Matcher) (o : ScanOptions) (l : Language) : Nat → List Text → List Hit
  | _, [] => []
  | n, line :: rest =>
    match m.windowHit? o l n line rest with
    | some h => h :: windowHits m o l (n + 1) rest
    | none => windowHits m o l (n + 1) rest

/-- The first occurrences of the line indices that exist and are looked at. -/
def pickLines (o : ScanOptions) (lines : List Text) : List Int → List Int → List Hit
  | _, [] => []
  | seen, i :: rest =>
    if i < 0 || (lines.length : Int) ≤ i || seen.contains i then pickLines o lines seen rest
    else
      let hits := pickLines o lines (i :: seen) rest
      if o.isGuarded (lines.getD i.toNat []) then hits else ⟨i.toNat + 1, i.toNat + 1⟩ :: hits

/-- The hits in a document; none when the predicate fails. -/
def hits? (m : Matcher) (o : ScanOptions) (l : Language) (d : Document) : Option (List Hit) :=
  match m.kind with
  | .line => some (m.lineHits o l 1 d.lines)
  | .window => some (m.windowHits o l 1 d.lines)
  | .predicate => (m.predicate.bind fun p => p d l).map (pickLines o d.lines [])
  | .unknown _ => some []

end Matcher

def Rule.finding (r : Rule) (o : ScanOptions) (d : Document) (index : Int) (h : Hit) : Finding where
  ruleId := r.id
  type := r.type
  category := r.category
  severity := r.severity
  line := h.line
  endLine := h.endLine
  description := r.description
  snippet := o.snippet (d.slice h.line h.endLine)
  recommendation := r.recommendation
  ruleIndex := index

/-- What a scan brings to light. -/
structure Scan where
  findings : List Finding
  /-- The rules whose predicate failed. -/
  failed : List Rule

/-- The findings of one rule. -/
def Rule.findings (r : Rule) (o : ScanOptions) (index : Int) (d : Document) (l : Language) :
    List Finding :=
  ((r.matcher.hits? o l d).getD []).map (r.finding o d index)

/-- Runs the rules of a catalog over a document. -/
def scan (c : Catalog) (o : ScanOptions) (d : Document) (l : Language) : Scan where
  findings := ((c.rulesFor l).flatMap fun r => r.findings o (c.indexOf r.id) d l).mergeSort Finding.le
  failed := (c.rulesFor l).filter fun r => (r.matcher.hits? o l d).isNone

/-! ## Windows counted in words

The index behind the last line of a window is a word. A window may be set so wide that it overflows,
and then no room can be had for the lines of the window. -/

namespace Matcher

/-- The window that starts with the first of the lines, whose index is `i`. -/
def window (m : Matcher) (i : Nat) (lines : List Text) : Except Overrun (List Text) :=
  let stop := min (wrap (i + m.size)) (i + lines.length)
  if stop < i then .error .room else .ok (lines.take (stop - i).toNat)

/-- The hits among windows, the first of which starts with the line of index `i`. -/
def checkedWindowHits (m : Matcher) (o : ScanOptions) (l : Language) :
    Nat → List Text → Except Overrun (List Hit)
  | _, [] => .ok []
  | i, line :: rest =>
    if m.isEligible o l line then do
      let window ← m.window i (line :: rest)
      let hits ← checkedWindowHits m o l (i + 1) rest
      return (m.hitIn? o (i + 1) line window).toList ++ hits
    else checkedWindowHits m o l (i + 1) rest

def checkedHits (m : Matcher) (o : ScanOptions) (l : Language) (d : Document) :
    Except Overrun (Option (List Hit)) :=
  match m.kind with
  | .window => (m.checkedWindowHits o l 0 d.lines).map some
  | _ => .ok (m.hits? o l d)

end Matcher

def Rule.checkedFindings (r : Rule) (o : ScanOptions) (index : Int) (d : Document) (l : Language) :
    Except Overrun (List Finding) :=
  (r.matcher.checkedHits o l d).map fun hits => (hits.getD []).map (r.finding o d index)

/-- Runs the rules of a catalog over a document, one after the other, unless one of them
overruns. -/
def checkedScan (c : Catalog) (o : ScanOptions) (d : Document) (l : Language) : Except Overrun Scan := do
  let found ← (c.rulesFor l).mapM fun r => r.checkedFindings o (c.indexOf r.id) d l
  return {
    findings := found.flatten.mergeSort Finding.le
    failed := (c.rulesFor l).filter fun r => (r.matcher.hits? o l d).isNone }

end CodeAudit
