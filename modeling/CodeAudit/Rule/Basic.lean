import CodeAudit.Document
import CodeAudit.Finding
import CodeAudit.Pattern.Basic
import CodeAudit.Text.Quoted

/-!
# Rules

A rule says where code is at fault (its matcher) and how to mend it (its fix). Predicates and
fixes may fail; a failure is `none`.

* `Rule.fault?`: the first reason why a rule is not well formed.
-/
namespace CodeAudit

/-- Inspects a whole document and gives line indices from 0; `none` when it fails. -/
abbrev Predicate := Document → Language → Option (List Int)

/-- Turns the lines of a hit into mended lines; `none` when it fails. A fix that does not apply
gives the lines back. -/
abbrev Fix := List Text → Language → Option (List Text)

/-- How a rule looks at a document. -/
inductive MatcherKind where
  /-- At each line alone. -/
  | line
  /-- At each stretch of adjacent lines. -/
  | window
  /-- At the document as a whole. -/
  | predicate
  /-- In no known way. -/
  | unknown (number : Int)
  deriving DecidableEq, Repr

def MatcherKind.name : MatcherKind → Text
  | line => "line"
  | window => "window"
  | predicate => "predicate"
  | unknown n => "MatcherKind(" ++ Text.ofInt n ++ ")"

/-- The part of a rule that finds hits. -/
structure Matcher where
  kind : MatcherKind
  pattern : Option Pattern := none
  /-- A line or window that also matches this pattern is no hit. -/
  exclude : Option Pattern := none
  /-- The number of lines in a window. -/
  size : Int := 0
  predicate : Option Predicate := none
  /-- Whether comment lines are looked at too. -/
  comments : Bool := false

/-- One kind of fault in code. -/
structure Rule where
  id : Text
  category : Category
  name : Text
  severity : Severity
  /-- The languages the rule is for; empty for all. -/
  languages : List Language
  matcher : Matcher
  description : Text
  recommendation : Text
  fix : Option Fix

/-- Why a rule is not well formed. -/
inductive RuleReason where
  | emptyId
  | categoryRange (n : Int)
  | unknownSeverity (s : Severity)
  | emptyName
  | noFix
  | lineWithoutPattern
  | windowWithoutPattern
  | windowSize (n : Int)
  | predicateMissing
  | unknownMatcher (k : MatcherKind)
  | duplicateId
  deriving DecidableEq, Repr

def RuleReason.message : RuleReason → Text
  | emptyId => "empty id"
  | categoryRange n => "category " ++ Text.ofInt n ++ " out of range"
  | unknownSeverity s => "unknown severity " ++ s.label.quote
  | emptyName => "empty name"
  | noFix => "nil fix"
  | lineWithoutPattern => "line matcher without pattern"
  | windowWithoutPattern => "window matcher without pattern"
  | windowSize n => "window size " ++ Text.ofInt n ++ ", need at least 2"
  | predicateMissing => "predicate matcher without predicate"
  | unknownMatcher k => "unknown matcher kind " ++ k.name
  | duplicateId => "duplicate id"

namespace Matcher

/-- The first reason why a matcher is not well formed. -/
def fault? (m : Matcher) : Option RuleReason :=
  match m.kind with
  | .line => if m.pattern.isNone then some .lineWithoutPattern else none
  | .window =>
    if m.pattern.isNone then some .windowWithoutPattern
    else if m.size < 2 then some (.windowSize m.size)
    else none
  | .predicate => if m.predicate.isNone then some .predicateMissing else none
  | .unknown n => some (.unknownMatcher (.unknown n))

end Matcher

namespace Rule

/-- Whether a rule looks at code in the language. -/
def appliesTo (r : Rule) (l : Language) : Bool := r.languages.isEmpty || r.languages.contains l

/-- The label of the rule's findings. -/
def type (r : Rule) : Text := r.category.name ++ ": " ++ r.name

/-- The first reason why a rule is not well formed. -/
def fault? (r : Rule) : Option RuleReason :=
  if r.id.isEmpty then some .emptyId
  else if !r.category.isValid then some (.categoryRange r.category.number)
  else if !r.severity.isKnown then some (.unknownSeverity r.severity)
  else if r.name.isEmpty then some .emptyName
  else if r.fix.isNone then some .noFix
  else r.matcher.fault?

end Rule
end CodeAudit
