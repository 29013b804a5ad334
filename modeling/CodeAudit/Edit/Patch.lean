import CodeAudit.Edit.Text
import CodeAudit.Text.Quoted

/-!
# Patches

A patch shows the changes of a text in pieces, each with enough of the text around it to be found
again.

* `Patch.ofScript`: the patches of a script.
* `Patch.render`: a patch as text, with a header and one line for a step.
-/
namespace CodeAudit

/-- Some steps of a script, where they start, and how many bytes they have before and after. -/
structure Patch where
  start : Nat := 0
  lengthBefore : Nat := 0
  lengthAfter : Nat := 0
  steps : List Edit.Step := []
  deriving DecidableEq, Repr

namespace Patch

/-- The bytes shown around a change. -/
def margin : Nat := 4

/-- The bytes a pattern that is searched for may have. -/
def maxPattern : Nat := 32

/-- Whether a text has a piece only once. -/
def isUnique (p t : Text) : Bool := (occurrences p 0 t).length ≤ 1

/-- How many bytes have to be added on both sides of a piece for it to be unique. -/
def uniquePadding (t : Text) (start length : Nat) : Nat → Nat → Nat
  | 0, padding => padding
  | fuel + 1, padding =>
    let piece := Text.slice t (start - padding) (min t.length (start + length + padding))
    if isUnique piece t || maxPattern - 2 * margin ≤ piece.length then padding
    else uniquePadding t start length fuel (padding + margin)

def addContext (p : Patch) (t : Text) : Patch :=
  if t.isEmpty then p
  else
    let padding := uniquePadding t p.start p.lengthBefore maxPattern 0 + margin
    let head := Text.slice t (p.start - padding) p.start
    let stop := p.start + p.lengthBefore
    let tail := Text.slice t stop (min t.length (stop + padding))
    { start := p.start - head.length
      lengthBefore := p.lengthBefore + head.length + tail.length
      lengthAfter := p.lengthAfter + head.length + tail.length
      steps := (if head.isEmpty then [] else [.equal head]) ++ p.steps
        ++ if tail.isEmpty then [] else [.equal tail] }

/-- Where the making of patches stands. -/
structure Progress where
  /-- The patches so far, last first. -/
  done : List Patch := []
  open_ : Patch := {}
  /-- The text with all finished patches applied. -/
  before : Text
  /-- The text with all steps so far applied. -/
  after : Text
  /-- The bytes of `after` that have been passed. -/
  place : Nat := 0

namespace Progress

/-- Opens a patch at a change. -/
def begin (s : Progress) : Progress :=
  if s.open_.steps.isEmpty then { s with open_ := { s.open_ with start := s.place } } else s

def add (s : Progress) (e : Edit.Step) : Progress :=
  let n := e.items.length
  { s with open_ := { s.open_ with
      lengthBefore := s.open_.lengthBefore + (if e.kind = .added then 0 else n)
      lengthAfter := s.open_.lengthAfter + (if e.kind = .removed then 0 else n)
      steps := s.open_.steps ++ [e] } }

/-- Finishes the open patch, if it has steps. -/
def close (s : Progress) : Progress :=
  if s.open_.steps.isEmpty then s
  else { s with done := s.open_.addContext s.before :: s.done, open_ := {}, before := s.after }

/-- Takes a step; `isLast` says whether it is the last one. -/
def step (s : Progress) (e : Edit.Step) (isLast : Bool) : Progress :=
  let n := e.items.length
  match e.kind with
  | .added =>
    let s := s.begin.add e
    { s with after := s.after.take s.place ++ e.items ++ s.after.drop s.place, place := s.place + n }
  | .removed =>
    let s := s.begin.add e
    { s with after := s.after.take s.place ++ s.after.drop (s.place + n) }
  | .equal =>
    let s := if n ≤ 2 * margin && !s.open_.steps.isEmpty && !isLast then s.add e else s
    let s := if 2 * margin ≤ n then s.close else s
    { s with place := s.place + n }

def run : Progress → List Edit.Step → Progress
  | s, [] => s
  | s, e :: rest => run (s.step e rest.isEmpty) rest

end Progress

def ofScript (t : Text) (script : List Edit.Step) : List Patch :=
  ((Progress.run { before := t, after := t } script).close).done.reverse

def coordinates (start length : Nat) : Text :=
  match length with
  | 0 => Text.ofInt start ++ ",0"
  | 1 => Text.ofInt (start + 1)
  | n => Text.ofInt (start + 1) ++ "," ++ Text.ofInt n

/-- The bytes besides letters and digits that are shown as they are. -/
def plainBytes : Text := "-_.~ !'();/?:@&=+$,#*"

def escape (b : UInt8) : Text :=
  if Text.isDigit b || (65 ≤ b && b ≤ 90) || (97 ≤ b && b ≤ 122) || plainBytes.any (· == b) then [b]
  else 37 :: (hexDigits 2 b.toNat).map Text.asciiUpper

def mark : EditKind → Text
  | .added => "+"
  | .removed => "-"
  | .equal => " "

def renderStep (e : Edit.Step) : Text := mark e.kind ++ e.items.flatMap escape ++ "\n"

def render (p : Patch) : Text :=
  "@@ -" ++ coordinates p.start p.lengthBefore ++ " +" ++ coordinates p.start p.lengthAfter ++ " @@\n"
    ++ p.steps.flatMap renderStep

/-- The patches between two texts. -/
def between (s t : Text) : Text := (ofScript s (Edit.ofTexts s t)).flatMap render

end Patch
end CodeAudit
