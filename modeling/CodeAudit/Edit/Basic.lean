/-!
# Edit scripts

An edit script turns one list into another: it keeps, removes and adds runs of items.

* `Edit.before`, `Edit.after`: the two lists a script leads from and to.
* `commonPrefix`, `commonSuffix`: how much two lists share at their ends.
-/
namespace CodeAudit

/-- What happens to a run of items. -/
inductive EditKind where
  | equal
  | added
  | removed
  deriving DecidableEq, Repr

/-- One step of a script. -/
structure Edit (α : Type) where
  kind : EditKind
  items : List α
  deriving DecidableEq, Repr

namespace Edit

variable {α β : Type}

def equal (items : List α) : Edit α := ⟨.equal, items⟩

def added (items : List α) : Edit α := ⟨.added, items⟩

def removed (items : List α) : Edit α := ⟨.removed, items⟩

def isEqual (e : Edit α) : Bool := e.kind == .equal

/-- The list a script starts from. -/
def before (script : List (Edit α)) : List α :=
  script.flatMap fun e => if e.kind = .added then [] else e.items

/-- The list a script leads to. -/
def after (script : List (Edit α)) : List α :=
  script.flatMap fun e => if e.kind = .removed then [] else e.items

/-- The same step on other items. -/
def map (f : List α → List β) (e : Edit α) : Edit β := ⟨e.kind, f e.items⟩

end Edit

/-- The number of items two lists start with in common. -/
def commonPrefix {α : Type} [DecidableEq α] : List α → List α → Nat
  | a :: s, b :: t => if a = b then commonPrefix s t + 1 else 0
  | _, _ => 0

/-- The number of items two lists end with in common. -/
def commonSuffix {α : Type} [DecidableEq α] (s t : List α) : Nat := commonPrefix s.reverse t.reverse

def startsWithList {α : Type} [DecidableEq α] (t p : List α) : Bool := commonPrefix t p == p.length

/-- The places where a list occurs in another that starts at place `n`. -/
def occurrences {α : Type} [DecidableEq α] (p : List α) : Nat → List α → List Nat
  | n, [] => if p.isEmpty then [n] else []
  | n, a :: t =>
    if startsWithList (a :: t) p then n :: occurrences p (n + 1) t else occurrences p (n + 1) t

/-- The first place where a list occurs in another that starts at place `n`. -/
def firstOccurrence? {α : Type} [DecidableEq α] (p : List α) : Nat → List α → Option Nat
  | n, [] => if p.isEmpty then some n else none
  | n, a :: t => if startsWithList (a :: t) p then some n else firstOccurrence? p (n + 1) t

end CodeAudit
