import CodeAudit.Text.Basic

/-!
# String literals of a line

A literal stands between two equal quotes: double, single or back quotes. Inside it a backslash
takes the byte after it along. A quote that is not closed opens no literal, and nothing after it
is read.

* `literals`: the literals of a line, in order.
* `literalAt?`: the literal at the beginning of a text.
-/
namespace CodeAudit.Code

/-- A quoted literal: its offsets, closing quote included, its quote, and what is between. -/
structure Literal where
  start : Nat
  stop : Nat
  quote : UInt8
  content : Text
  deriving DecidableEq, Repr

def isQuote (b : UInt8) : Bool := b == 34 || b == 39 || b == 96

/-- The offset of the quote that closes a literal, in the text after its opening quote. -/
def closing? (q : UInt8) : Text → Option Nat
  | [] => none
  | b :: t =>
    if b = q then some 0
    else if b = 92 then
      match t with
      | [] => none
      | _ :: u => (closing? q u).map (· + 2)
    else (closing? q t).map (· + 1)

/-- The literals of a text at offset `i`, of which `skip` bytes belong to a literal already
read. -/
def literalsFrom : Nat → Nat → Text → List Literal
  | _, _, [] => []
  | i, skip + 1, _ :: t => literalsFrom (i + 1) skip t
  | i, 0, b :: t =>
    if isQuote b then
      match closing? b t with
      | none => []
      | some n => ⟨i, i + n + 2, b, t.take n⟩ :: literalsFrom (i + 1) (n + 1) t
    else literalsFrom (i + 1) 0 t

/-- The string literals of a line. -/
def literals (line : Text) : List Literal := literalsFrom 0 0 line

/-- The literal at the beginning of a text. -/
def literalAt? (t : Text) : Option Literal :=
  match (literals t).head? with
  | some l => if l.start = 0 then some l else none
  | none => none

end CodeAudit.Code
