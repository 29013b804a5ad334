import CodeAudit.Code.Literal
import CodeAudit.Text.Blank

/-!
# Brackets, operands and arguments

Readers of pieces of expressions in a line of code. Double and single quoted literals are passed
over whole.

* `closingBracket?`: the bracket that closes the one at the beginning of a text.
* `operand?`: a name with member accesses, calls and subscripts.
* `arguments`: an argument list split at its top-level commas.
-/
namespace CodeAudit.Code

def isStringQuote (b : UInt8) : Bool := b == 34 || b == 39

/-- The offset of the bracket `cl` that brings the depth back to zero; `quote` is the quote of the
literal being passed over. -/
def closingFrom (op cl : UInt8) : Option UInt8 → Nat → Text → Option Nat
  | _, _, [] => none
  | some q, depth, b :: t =>
    if b = q then (closingFrom op cl none depth t).map (· + 1)
    else if b = 92 then
      match t with
      | [] => none
      | _ :: u => (closingFrom op cl (some q) depth u).map (· + 2)
    else (closingFrom op cl (some q) depth t).map (· + 1)
  | none, depth, b :: t =>
    if isStringQuote b then (closingFrom op cl (some b) depth t).map (· + 1)
    else if b = op then (closingFrom op cl none (depth + 1) t).map (· + 1)
    else if b = cl then
      if depth ≤ 1 then some 0 else (closingFrom op cl none (depth - 1) t).map (· + 1)
    else (closingFrom op cl none depth t).map (· + 1)

/-- The offset of the bracket that closes the round or square bracket at the beginning. -/
def closingBracket? (t : Text) : Option Nat :=
  match t with
  | [] => none
  | b :: _ => closingFrom b (if b = 91 then 93 else 41) none 0 t

/-- How many bytes belong to an operand, of which `skip` are already known to; fails at a bracket
that is not closed. Members are reached by a point, or by an arrow where a point joins texts. -/
def operandFrom (arrow : Bool) : Nat → Text → Option Nat
  | _, [] => some 0
  | skip + 1, _ :: t => (operandFrom arrow skip t).map (· + 1)
  | 0, b :: t =>
    if Text.isWordByte b || b == 36 then (operandFrom arrow 0 t).map (· + 1)
    else if b == 46 && !arrow then (operandFrom arrow 0 t).map (· + 1)
    else if b == 45 && arrow && t.head? == some 62 then (operandFrom arrow 1 t).map (· + 1)
    else if b == 40 || b == 91 then
      match closingBracket? (b :: t) with
      | none => none
      | some n => (operandFrom arrow n t).map (· + 1)
    else some 0

/-- The operand at the beginning of a text: a name with what follows it. -/
def operand? (arrow : Bool) (t : Text) : Option Text :=
  match operandFrom arrow 0 t with
  | none => none
  | some n =>
    match t.take n with
    | [] => none
    | b :: e => if Text.isWordByte b || b == 36 then some (b :: e) else none

/-- Splits an argument list; `piece` is the argument being read, last byte first. The last
argument is left out when it is blank. -/
def argumentsFrom : Option UInt8 → Int → Text → Text → List Text
  | _, _, piece, [] =>
    let last := Text.trim piece.reverse
    if last.isEmpty then [] else [last]
  | some q, depth, piece, b :: t =>
    if b = 92 then
      match t with
      | [] => argumentsFrom (some q) depth (b :: piece) []
      | c :: u => argumentsFrom (some q) depth (c :: b :: piece) u
    else argumentsFrom (if b = q then none else some q) depth (b :: piece) t
  | none, depth, piece, b :: t =>
    if isStringQuote b then argumentsFrom (some b) depth (b :: piece) t
    else if b == 40 || b == 91 || b == 123 then argumentsFrom none (depth + 1) (b :: piece) t
    else if b == 41 || b == 93 || b == 125 then argumentsFrom none (depth - 1) (b :: piece) t
    else if b == 44 && depth == 0 then
      Text.trim piece.reverse :: argumentsFrom none depth [] t
    else argumentsFrom none depth (b :: piece) t

/-- The arguments of a list, split at the commas outside brackets and literals and trimmed. -/
def arguments (t : Text) : List Text := argumentsFrom none 0 [] t

end CodeAudit.Code
