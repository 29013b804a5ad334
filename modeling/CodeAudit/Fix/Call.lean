import CodeAudit.Code.Expression
import CodeAudit.Fix.Basic

/-!
# Calls in a line of code

* `Call.find?`: the first call whose name a pattern describes.
* `Fix.replaceCall`, `Fix.guardCall`, `Fix.wrapFirstArg`: replacing a call, putting a check above
  it, and changing its first argument.
-/
namespace CodeAudit

/-- A call: the offsets of its name, of its opening and of its closing bracket, its name and its
arguments. -/
structure Call where
  start : Nat
  opening : Nat
  closing : Nat
  name : Text
  args : List Text
  deriving DecidableEq, Repr

/-- The first call matched by a pattern that ends in an opening bracket; none when the bracket is
not closed. -/
def Call.find? (p : Pattern) (line : Text) : Option Call := do
  let m ← p.find? line
  if m.stop = 0 then none
  else
    let opening := m.stop - 1
    let rest := line.drop opening
    if rest.head? != some 40 then none
    else
      let n ← Code.closingBracket? rest
      some {
        start := m.start
        opening := opening
        closing := opening + n
        name := Text.trim (Text.dropSuffix (Text.slice line m.start opening) " ")
        args := Code.arguments ((rest.drop 1).take (n - 1)) }

def Call.firstArg? (c : Call) : Option Text :=
  match c.args with
  | [] => none
  | a :: _ => if a.isEmpty then none else some a

namespace Fix

/-- Replaces the first matched call of every code line by what `build` makes of it. -/
def replaceCall (p : Pattern) (build : Call → Language → Option Text) : Fix :=
  onCode fun line l =>
    match Call.find? p line with
    | none => line
    | some c =>
      match build c l with
      | none => line
      | some w => line.take c.start ++ w ++ line.drop (c.closing + 1)

/-- Puts a check, made from the first argument of a matched call, above the first code line. -/
def guardCall (p : Pattern) (build : Text → Language → Option Text) : Fix :=
  insertBefore fun line l => do
    let c ← Call.find? p line
    let a ← c.firstArg?
    build a l

/-- Changes the first argument of the first matched call of every code line. -/
def wrapFirstArg (p : Pattern) (wrap : Text → Language → Option Text) : Fix :=
  onCode fun line l => (go line l).getD line
where
  /-- The changed line, when there is a call with a first argument to change. -/
  go (line : Text) (l : Language) : Option Text := do
    let c ← Call.find? p line
    let a ← c.firstArg?
    let i ← Text.index? a (Text.slice line (c.opening + 1) c.closing)
    let w ← wrap a l
    let start := c.opening + 1 + i
    some (line.take start ++ w ++ line.drop (start + a.length))

end Fix
end CodeAudit
