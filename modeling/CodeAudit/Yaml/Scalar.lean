import CodeAudit.Yaml.Cursor

/-!
# Scalars in YAML text

The text that a scalar stands for, in each of its three forms. Line ends inside a scalar fold: one
line end is a space, and of several the first is left out.

* `quoted`: between single or double quotes.
* `plain`: without quotes, up to an indicator, a comment or a lesser indentation.
* `block`: the lines after `|` or `>`.
-/
namespace CodeAudit.Yaml

/-- The text of pieces that are listed newest first. -/
def joined (pieces : List Text) : Text := pieces.reverse.flatten

/-- The gap between two words of a scalar: the blanks, or the line ends in their place, the first of
them apart. Both lists begin with the newest. -/
structure Gap where
  blanks : List Nat
  first : Text
  more : List Text
  broken : Bool
  deriving Repr

namespace Gap

def none : Gap := ⟨[], [], [], false⟩

/-- What the gap stands for. -/
def fold (g : Gap) : Text :=
  if g.broken then
    if g.first.head? == some 10 then (if g.more.isEmpty then [32] else joined g.more)
    else g.first ++ joined g.more
  else g.blanks.reverse.flatMap encodeRune

/-- One more blank. After a line end blanks do not count. -/
def blank (g : Gap) (c : Nat) : Gap := if g.broken then g else { g with blanks := c :: g.blanks }

def lineEnd (g : Gap) (t : Text) : Gap :=
  if g.broken then { g with more := t :: g.more } else ⟨[], g.first ++ t, g.more, true⟩

end Gap

/-! ## Quoted scalars -/

def simpleEscape? (c : Nat) : Option Text :=
  if c == 48 then some [0]
  else if c == 97 then some [7]
  else if c == 98 then some [8]
  else if c == 116 || c == 9 then some [9]
  else if c == 110 then some [10]
  else if c == 118 then some [11]
  else if c == 102 then some [12]
  else if c == 114 then some [13]
  else if c == 101 then some [27]
  else if c == 32 || c == 34 || c == 39 || c == 92 then some (encodeRune c)
  else if c == 78 then some (encodeRune 0x85)
  else if c == 95 then some (encodeRune 0xA0)
  else if c == 76 then some (encodeRune 0x2028)
  else if c == 80 then some (encodeRune 0x2029)
  else none

/-- How many digits a numeric escape has. -/
def escapeWidth? (c : Nat) : Option Nat :=
  if c == 120 then some 2 else if c == 117 then some 4 else if c == 85 then some 8 else none

def escape (began : Nat) (c : Cursor) : Except Fault (Text × Cursor) :=
  match simpleEscape? (c.ahead 1), escapeWidth? (c.ahead 1) with
  | some t, _ => .ok (t, c.skipBy 2)
  | none, none => .error (surfaceFault began c "found unknown escape character")
  | none, some width =>
    let c := c.skipBy 2
    let digits := (c.rest.take width).filterMap hexValue?
    if digits.length < width then
      .error (surfaceFault began c "did not find expected hexdecimal number")
    else
      let n := digits.foldl (fun n d => n * 16 + d) 0
      if (0xD800 ≤ n && n ≤ 0xDFFF) || n > 0x10FFFF then
        .error (surfaceFault began c "found invalid Unicode character escape code")
      else .ok (encodeRune n, c.skipBy width)

/-- The gap at a place inside quotes, when the text before it ended by an escaped line end or
not. -/
def quotedGap : Nat → Gap → Cursor → Gap × Cursor
  | 0, g, c => (g, c)
  | fuel + 1, g, c =>
    if isBlank c.code then quotedGap fuel (g.blank c.code) c.skip
    else if isBreak c.code then quotedGap fuel (g.lineEnd c.breakText) c.skipLine
    else (g, c)

/-- The text up to the closing quote, which is the code point `quote`. Every round takes a
character, and the pieces so far are listed newest first. -/
def quotedFrom (quote began : Nat) : Nat → List Text → Cursor → Except Fault (Text × Cursor)
  | 0, _, c => .error (surfaceFault began c "found unexpected end of stream")
  | fuel + 1, s, c =>
    if c.atDocumentEdge then .error (surfaceFault began c "found unexpected document indicator")
    else if c.code == 0 then .error (surfaceFault began c "found unexpected end of stream")
    else if quote == 39 && c.code == 39 && c.ahead 1 == 39 then
      quotedFrom quote began fuel ([39] :: s) (c.skipBy 2)
    else if c.code == quote then .ok (joined s, c.skip)
    else if quote == 34 && c.code == 92 && isBreak (c.ahead 1) then
      let (g, c) := quotedGap fuel { Gap.none with broken := true } c.skip.skipLine
      quotedFrom quote began fuel ((g.first ++ joined g.more) :: s) c
    else if quote == 34 && c.code == 92 then
      match escape began c with
      | .ok (t, c) => quotedFrom quote began fuel (t :: s) c
      | .error e => .error e
    else if isGap c.code then
      let (g, c) := quotedGap fuel .none c
      quotedFrom quote began fuel (g.fold :: s) c
    else quotedFrom quote began fuel (encodeRune c.code :: s) c.skip

def quoted (c : Cursor) : Except Fault (Text × Cursor) :=
  quotedFrom c.code c.line (2 * c.size + 2) [] c.skip

/-! ## Plain scalars -/

/-- Whether a plain scalar ends before the code point at a place. -/
def endsPlain (inFlow : Bool) (c : Cursor) : Bool :=
  (c.sees ':' && isGap (c.ahead 1)) || (inFlow &&
    (c.sees ',' || (c.sees '?' && (c.ahead 1 == 32 || isBreakOrEnd (c.ahead 1))) || c.sees '['
      || c.sees ']' || c.sees '{' || c.sees '}'))

/-- The gap after a word of a plain scalar. A tab must not stand in the indentation. -/
def plainGap (began indent : Nat) : Nat → Gap → Cursor → Except Fault (Gap × Cursor)
  | 0, g, c => .ok (g, c)
  | fuel + 1, g, c =>
    if isBlank c.code then
      if g.broken && c.column < indent && c.code == 9 then
        .error (surfaceFault began c "found a tab character that violates indentation")
      else plainGap began indent fuel (g.blank c.code) c.skip
    else if isBreak c.code then plainGap began indent fuel (g.lineEnd c.breakText) c.skipLine
    else .ok (g, c)

/-- The rest of a plain scalar, after the pieces `s`, newest first, and a gap. The answer tells the
text, the place after the scalar and the blanks behind it, and whether there was a line end among
those. -/
def plainFrom (inFlow : Bool) (began indent : Nat) : Nat → List Text → Gap → Cursor →
    Except Fault (Text × Cursor × Bool)
  | 0, s, g, c => .ok (joined s, c, g.broken)
  | fuel + 1, s, g, c =>
    if c.atDocumentEdge || c.sees '#' && (g.broken || !g.blanks.isEmpty) then
      .ok (joined s, c, g.broken)
    else if isGap c.code || endsPlain inFlow c then .ok (joined s, c, g.broken)
    else
      let s := encodeRune c.code :: g.fold :: s
      let c := c.skip
      if isBlank c.code || isBreak c.code then
        match plainGap began indent fuel .none c with
        | .error e => .error e
        | .ok (g, c) =>
          if !inFlow && c.column < indent then .ok (joined s, c, g.broken)
          else plainFrom inFlow began indent fuel s g c
      else plainFrom inFlow began indent fuel s .none c

def plain (inFlow : Bool) (indent : Nat) (c : Cursor) : Except Fault (Text × Cursor × Bool) :=
  plainFrom inFlow c.line indent (2 * c.size + 2) [] .none c

/-! ## Block scalars -/

/-- What becomes of the line ends at the end of a block scalar. -/
inductive Chomp where
  | strip
  | clip
  | keep
  deriving DecidableEq, Repr

def chomp? (c : Cursor) : Option Chomp :=
  if c.sees '+' then some .keep else if c.sees '-' then some .strip else none

def indentDigit (began : Nat) (c : Cursor) : Except Fault (Nat × Cursor) :=
  if c.sees '0' then .error (surfaceFault began c "found an indentation indicator equal to 0")
  else if isDigitCode c.code then .ok (c.code - 48, c.skip)
  else .ok (0, c)

/-- The signs behind `|` or `>`: chomping and indentation, in either order. -/
def blockHeader (began : Nat) (c : Cursor) : Except Fault (Chomp × Nat × Cursor) :=
  match chomp? c with
  | some how => do
    let (n, c) ← indentDigit began c.skip
    return (how, n, c)
  | none => do
    let (n, c) ← indentDigit began c
    if n = 0 then return (.clip, 0, c)
    else match chomp? c with
      | some how => return (how, n, c.skip)
      | none => return (.clip, n, c)

/-- The empty lines at a place, after the line ends `s`, newest first, and the widest indentation
seen. An indentation of zero is not known yet. -/
def blockBreaks (began indent : Nat) : Nat → Nat → List Text → Cursor → Except Fault (Nat × Text × Cursor)
  | 0, widest, s, c => .ok (widest, joined s, c)
  | fuel + 1, widest, s, c =>
    let spaces := (c.rest.takeWhile (· == 32)).length
    let c := c.skipBy (if indent = 0 then spaces else min spaces (indent - c.column))
    let widest := max widest c.column
    if (indent = 0 || c.column < indent) && c.code == 9 then
      .error (surfaceFault began c "found a tab character where an indentation space is expected")
    else if isBreak c.code then blockBreaks began indent fuel widest (c.breakText :: s) c.skipLine
    else .ok (widest, joined s, c)

/-- The lines of a block scalar, after the pieces `s`, newest first. `first` and `more` are the line
ends that wait before the next line. -/
def blockLines (began indent : Nat) (literal : Bool) :
    Nat → Bool → List Text → Text → Text → Cursor → Except Fault (Text × Text × Text × Cursor)
  | 0, _, s, first, more, c => .ok (joined s, first, more, c)
  | fuel + 1, leading, s, first, more, c =>
    if c.column != indent || c.code == 0 then .ok (joined s, first, more, c)
    else
      let trailing := isBlank c.code
      let joint : Text :=
        if !literal && !leading && !trailing && first.head? == some 10 then
          if more.isEmpty then [32] else []
        else first
      let s := (joint ++ more ++ c.textWhile fun x => !isBreakOrEnd x) :: s
      let c := c.skipWhile fun x => !isBreakOrEnd x
      match blockBreaks began indent (c.size + 1) 0 [] c.skipLine with
      | .error e => .error e
      | .ok (_, more, next) => blockLines began indent literal fuel trailing s c.breakText more next

/-- The block scalar at `|` or `>`; `parent` is the indentation around it, -1 at the top. -/
def block (parent : Int) (c : Cursor) : Except Fault (Text × Cursor) := do
  let began := c.line
  let literal := c.sees '|'
  let (how, given, c) ← blockHeader began c.skip
  let c := c.skipWhile isBlank
  let c := if c.sees '#' then c.skipWhile fun x => !isBreakOrEnd x else c
  if !isBreakOrEnd c.code then
    throw (surfaceFault began c "did not find expected comment or line break")
  let c := c.skipLine
  let wanted : Nat := if given = 0 then 0 else given + parent.toNat
  let (widest, more, c) ← blockBreaks began wanted (c.size + 1) 0 [] c
  let indent := if wanted = 0 then max widest (max (parent + 1).toNat 1) else wanted
  let (s, first, more, c) ← blockLines began indent literal (c.size + 1) false [] [] more c
  return (s ++ (if how == .strip then [] else first) ++ (if how == .keep then more else []), c)

end CodeAudit.Yaml
