import CodeAudit.Pattern.Replace
import CodeAudit.Rule.Basic
import CodeAudit.Text.Blank

/-!
# Notes and the building blocks of fixes

A note is an inserted comment that explains a change. Fixes leave notes alone and work on the
other lines, the code lines.

* `isNote`, `note`, `mapCode`: notes, and a change of every code line.
* `Fix.replace`, `Fix.replaceWith`: replacing matches of a pattern in every code line.
* `Fix.byLanguage`, `Fix.chain`, `Fix.firstOf`: choosing and combining fixes.
* `Fix.annotate`, `Fix.withNote`, `Fix.insertBefore`, `Fix.insertAfter`: adding lines.
-/
namespace CodeAudit

/-- What the text of every note starts with. -/
def noteMarker : Text := "SECURITY:"

/-- What opens a comment that may be a note, in the order in which they are tried. -/
def noteOpeners : List Text := [utf8 "#", utf8 "//", utf8 "<!--", utf8 "/*"]

/-- Whether a line is a note: a comment whose text starts with the marker. -/
def isNote (line : Text) : Bool :=
  match noteOpeners.findSome? (fun o => Text.cutPrefix? o line.trim) with
  | some rest => Text.startsWith (Text.trim rest) noteMarker
  | none => false

def note (l : Language) (indent text : Text) : Text :=
  indent ++ l.comment (noteMarker ++ " " ++ text)

/-- Changes every code line. -/
def mapCode (f : Text → Text) (fragment : List Text) : List Text :=
  fragment.map fun line => if isNote line then line else f line

/-- Changes every code line by a function that may fail. -/
def mapCode? (f : Text → Option Text) (fragment : List Text) : Option (List Text) :=
  fragment.mapM fun line => if isNote line then some line else f line

/-- The lines before the first code line, that line, and the lines after it. -/
def splitAtCode? : List Text → Option (List Text × Text × List Text)
  | [] => none
  | line :: rest =>
    if isNote line then (splitAtCode? rest).map fun (pre, code, post) => (line :: pre, code, post)
    else some ([], line, rest)

namespace Fix

/-- Changes every code line. -/
def onCode (f : Text → Language → Text) : Fix := fun fragment l => some (mapCode (f · l) fragment)

/-- Replaces every match of a pattern in the code lines by a template. -/
def replace (p : Pattern) (w : Template) : Fix := onCode fun line _ => p.replaceAll w line

/-- Replaces every match of a pattern in the code lines by what `f` makes of the match. The match
is read again on its own, so a word edge at one of its ends sees the end of the text; where that
fails, so does the fix. -/
def replaceWith (p : Pattern) (f : (Nat → Text) → Language → Text) : Fix := fun fragment l =>
  mapCode? (p.replaceBy? fun t => (p.find? t).map fun m =>
    f (fun n => if n = 0 then m.text t else m.groupText t n) l) fragment

/-- The fix for the language, or else the last one. -/
def byLanguage (fixes : List (Language × Fix)) (fallback : Fix) : Fix := fun fragment l =>
  ((fixes.lookup l).getD fallback) fragment l

/-- Gives the lines back. -/
def unchanged : Fix := fun fragment _ => some fragment

/-- One fix after another. -/
def chain : List Fix → Fix
  | [] => unchanged
  | f :: fs => fun fragment l => (f fragment l).bind fun out => chain fs out l

/-- The first fix that changes the lines. -/
def firstOf : List Fix → Fix
  | [] => unchanged
  | f :: fs => fun fragment l =>
    (f fragment l).bind fun out => if out = fragment then firstOf fs fragment l else some out

/-- Adds a note above the first code line. -/
def annotate (text : Text) : Fix := fun fragment l =>
  match splitAtCode? fragment with
  | none => some fragment
  | some (pre, code, post) => some (pre ++ note l code.indent text :: code :: post)

/-- Applies a fix and adds a note when it changed the lines. -/
def withNote (text : Text) (fix : Fix) : Fix := fun fragment l =>
  (fix fragment l).bind fun out => if out = fragment then some fragment else annotate text out l

/-- Adds a line, made from the first code line, above it. -/
def insertBefore (build : Text → Language → Option Text) : Fix := fun fragment l =>
  match splitAtCode? fragment with
  | none => some fragment
  | some (pre, code, post) =>
    match build code l with
    | none => some fragment
    | some extra => some (pre ++ (code.indent ++ extra) :: code :: post)

/-- Adds a line, made from the last line, after it. -/
def insertAfter (build : Text → Language → Option Text) : Fix := fun fragment l =>
  match fragment.getLast? with
  | none => some fragment
  | some last =>
    match build last l with
    | none => some fragment
    | some extra => some (fragment ++ [last.indent ++ extra])

end Fix
end CodeAudit
