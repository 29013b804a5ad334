import CodeAudit.Yaml.Scalar

/-!
# The tokens of YAML text

Indentation shows as tokens: a block opens when a line is indented further and ends when the
indentation falls back. A key shows as a token too, but is known only once its colon is seen. Until
then the place where it began is kept as a possible key, and the tokens that mark it are put in at
that place.

Reading may stop before the text ends. So a fault in the text is a token as well, which is met only
when reading comes so far; because the next two tokens are looked at as well as what follows a
possible key on its line, the fault stands that much earlier.

* `tokens`: the tokens of a text.
-/
namespace CodeAudit.Yaml

/-- What a token is. -/
inductive TokenKind where
  | streamEnd
  | version (major minor : Nat)
  | tagShorthand (handle expansion : Text)
  | documentStart
  | documentEnd
  | sequenceStart
  | mappingStart
  | blockEnd
  | flowSequenceStart
  | flowSequenceEnd
  | flowMappingStart
  | flowMappingEnd
  | blockEntry
  | flowEntry
  | key
  | value
  | reference (name : Text)
  | anchor (name : Text)
  | tag (handle suffix : Text)
  | scalar (t : Text) (isPlain : Bool)
  | fault (f : Fault)
  deriving DecidableEq, Repr

/-- A token and the lines on which it begins and ends. -/
structure Token where
  kind : TokenKind
  start : Nat
  stop : Nat
  deriving DecidableEq, Repr

/-- A place where a key may have begun. In a block at its indentation a key is required. -/
structure PossibleKey where
  number : Nat
  index : Nat
  line : Nat
  column : Nat
  required : Bool
  deriving Repr

/-- How far the tokens are known: the tokens so far, newest first, and their count, the indentations
of the open blocks, and a possible key for the block context and for each open flow collection.
While the cursor is before `marked`, lines lose their first character. -/
structure Lexer where
  cursor : Cursor
  marked : Nat
  found : List Token
  count : Nat
  indent : Int
  outer : List Int
  keyAllowed : Bool
  blockKey : Option PossibleKey
  flowKeys : List (Option PossibleKey)
  deriving Repr

namespace Lexer

/-- The state at the start of a text. A byte order mark that comes as the first character counts for
every line of the first portion, up to its last two characters. -/
def start (d : Decoded) : Lexer :=
  let marked := if d.codes.head? == some 0xFEFF then max 1 (d.opening - 2) else 0
  ⟨.ofCodes d.codes, marked, [], 0, -1, [], true, none, []⟩

/-- Whether a flow collection is open. -/
def inFlow (l : Lexer) : Bool := !l.flowKeys.isEmpty

def possible (l : Lexer) : Option PossibleKey :=
  match l.flowKeys with
  | [] => l.blockKey
  | k :: _ => k

def setPossible (l : Lexer) (k : Option PossibleKey) : Lexer :=
  match l.flowKeys with
  | [] => { l with blockKey := k }
  | _ :: ks => { l with flowKeys := k :: ks }

def push (l : Lexer) (t : Token) : Lexer := { l with found := t :: l.found, count := l.count + 1 }

def insert (l : Lexer) (place : Nat) (t : Token) : Lexer :=
  let n := l.count - place
  { l with found := l.found.take n ++ t :: l.found.drop n, count := l.count + 1 }

/-- A fault in a piece that began on a line. -/
def fail {α : Type} (l : Lexer) (began : Nat) (problem : Text) : Except Fault α :=
  .error (surfaceFault began l.cursor problem)

/-- What is said when a required key has no colon. -/
def missingColon : Text := "could not find expected ':'"

/-- Whether a possible key still is one: its colon must follow on its line, within 1024
characters. -/
def isLive (l : Lexer) (k : PossibleKey) : Bool :=
  k.line == l.cursor.line && l.cursor.index ≤ k.index + 1024

def dropKey (l : Lexer) : Except Fault Lexer :=
  match l.possible with
  | some k => if k.required then l.fail k.line missingColon else .ok (l.setPossible none)
  | none => .ok l

/-- Notes that a key may begin here, where one is allowed. -/
def noteKey (l : Lexer) : Except Fault Lexer :=
  if l.keyAllowed then do
    let k : PossibleKey := {
      number := l.count
      index := l.cursor.index
      line := l.cursor.line
      column := l.cursor.column
      required := !l.inFlow && l.indent == l.cursor.column }
    return (← l.dropKey).setPossible (some k)
  else .ok l

/-- How deep blocks may be nested, and flow collections. -/
def maxDepth : Nat := 10000

def tooDeep : Text := "exceeded max depth of 10000"

/-- Opens a block when a column is further in than the indentation; its token goes to a place. -/
def indentTo (l : Lexer) (column place line : Nat) (kind : TokenKind) : Except Fault Lexer :=
  if !l.inFlow && l.indent < column then
    if l.outer.length + 1 > maxDepth then l.fail l.cursor.line tooDeep
    else .ok { l.insert place ⟨kind, line, line⟩ with indent := column, outer := l.indent :: l.outer }
  else .ok l

/-- Ends at most so many blocks that are further in than a column. -/
def unindent (column : Int) (line : Nat) : Nat → Lexer → Lexer
  | 0, l => l
  | count + 1, l =>
    if !l.inFlow && l.indent > column then
      unindent column line count
        { l.push ⟨.blockEnd, line, line⟩ with indent := l.outer.headD (-1), outer := l.outer.tail }
    else l

/-- Ends the blocks that are further in than a column. -/
def unindentTo (l : Lexer) (column : Int) (line : Nat) : Lexer := unindent column line l.outer.length l

/-! ## Between the tokens -/

/-- The place at the end of a comment. Comments on the lines that follow belong to it, wherever they
are on their lines. -/
def commentEnd : Nat → Cursor → Cursor
  | 0, c => c
  | fuel + 1, c =>
    let c := c.skipWhile fun x => !isBreakOrEnd x
    let gap := (c.rest.take 512).takeWhile fun x => isBlank x || x == 10 || x == 13
    if gap.length < 512 && c.ahead gap.length == 35 then
      commentEnd fuel (toward gap.length c)
    else c
where
  /-- Some code points further, across line ends. -/
  toward : Nat → Cursor → Cursor
    | 0, c => c
    | n + 1, c =>
      if c.code == 13 && c.ahead 1 == 10 then toward n { c with rest := c.rest.drop 1, index := c.index + 1 }
      else if isBreak c.code then toward n c.skipLine
      else toward n c.skip

/-- The next place where a token begins. A line end lets a key begin in a block. -/
def toNext : Nat → Lexer → Lexer
  | 0, l => l
  | fuel + 1, l =>
    let c := l.cursor
    let c := if c.column == 0 && c.index < l.marked then c.skip else c
    let c := c.skipWhile fun x => x == 32 || (x == 9 && (l.inFlow || !l.keyAllowed))
    let c := if c.sees '#' then commentEnd c.size c else c
    if isBreak c.code then
      toNext fuel { l with cursor := c.skipLine, keyAllowed := l.keyAllowed || !l.inFlow }
    else { l with cursor := c }

/-- Passes over a comment behind a token on its line. -/
def passComment (l : Lexer) : Lexer :=
  let blanks := (l.cursor.rest.takeWhile isBlank).length
  if blanks < 512 && l.cursor.ahead blanks == 35 then
    { l with cursor := l.cursor.skipWhile fun x => !isBreakOrEnd x }
  else l

/-! ## The tokens -/

def take (l : Lexer) (n : Nat) (kind : TokenKind) : Lexer :=
  { l.push ⟨kind, l.cursor.line, l.cursor.line⟩ with cursor := l.cursor.skipBy n }

def endOfText (l : Lexer) : Except Fault Lexer := do
  let c := l.cursor
  let l := if c.column != 0 then { l with cursor := { c with column := 0, line := c.line + 1 } } else l
  let l ← (l.unindentTo (-1) l.cursor.line).dropKey
  return { l.take 0 .streamEnd with keyAllowed := false }

def documentMarker (l : Lexer) (kind : TokenKind) : Except Fault Lexer := do
  let l ← (l.unindentTo (-1) l.cursor.line).dropKey
  return { l.take 3 kind with keyAllowed := false }

/-- The start of a flow collection, which may be a key. -/
def flowStart (l : Lexer) (kind : TokenKind) : Except Fault Lexer := do
  let l ← l.noteKey
  if l.flowKeys.length + 1 > maxDepth then l.fail l.cursor.line tooDeep
  else return { l.take 1 kind with keyAllowed := true, flowKeys := none :: l.flowKeys }

def flowEnd (l : Lexer) (kind : TokenKind) : Except Fault Lexer := do
  let l ← l.dropKey
  return { l.take 1 kind with keyAllowed := false, flowKeys := l.flowKeys.tail }

def flowComma (l : Lexer) : Except Fault Lexer := do
  let l ← l.dropKey
  return { l.take 1 .flowEntry with keyAllowed := true }

/-- The dash before an item of a block sequence. -/
def dash (l : Lexer) : Except Fault Lexer := do
  if !l.inFlow && !l.keyAllowed then
    l.fail 0 "block sequence entries are not allowed in this context"
  else
    let l ← l.indentTo l.cursor.column l.count l.cursor.line .sequenceStart
    let l ← l.dropKey
    return { l.take 1 .blockEntry with keyAllowed := true }

def questionMark (l : Lexer) : Except Fault Lexer := do
  if !l.inFlow && !l.keyAllowed then l.fail 0 "mapping keys are not allowed in this context"
  else
    let l ← l.indentTo l.cursor.column l.count l.cursor.line .mappingStart
    let l ← l.dropKey
    return { l.take 1 .key with keyAllowed := !l.inFlow }

/-- The colon before a value. It turns the possible key into one. -/
def colon (l : Lexer) : Except Fault Lexer := do
  match l.possible with
  | some k =>
    if l.isLive k then
      let l := l.insert k.number ⟨.key, k.line, k.line⟩
      let l := (← l.indentTo k.column k.number k.line .mappingStart).setPossible none
      return { l.take 1 .value with keyAllowed := false }
    else if k.required then l.fail k.line missingColon
    else later (l.setPossible none)
  | none => later l
where
  /-- A colon without a key before it on its line. -/
  later (l : Lexer) : Except Fault Lexer := do
    if !l.inFlow && !l.keyAllowed then l.fail 0 "mapping values are not allowed in this context"
    else
      let l ← l.indentTo l.cursor.column l.count l.cursor.line .mappingStart
      return { l.take 1 .value with keyAllowed := !l.inFlow }

/-- The name behind `&` or `*`. -/
def named (l : Lexer) (kind : Text → TokenKind) (problem : Text) : Except Fault Lexer := do
  let l ← l.noteKey
  let began := l.cursor.line
  let c := l.cursor.skip
  let name := c.textWhile isNameCode
  let c := c.skipWhile isNameCode
  let ends := isGap c.code || "?:,]\x7d%@\x60".toList.any c.sees
  if name.isEmpty || !ends then throw (surfaceFault began c problem)
  return { l.push ⟨kind name, began, began⟩ with cursor := c, keyAllowed := false }

/-- Whether a code point may stand in a tag. -/
def isTagCode (c : Nat) : Bool :=
  isNameCode c || (";/?:@&=+$,.%!~*'()[]".toList.any fun x => x.toNat == c)

def escapedOctet? (c : Cursor) : Option UInt8 := do
  let high ← if c.sees '%' then hexValue? (c.ahead 1) else none
  let low ← hexValue? (c.ahead 2)
  return (high * 16 + low).toUInt8

/-- The percent escapes of the `n` octets that complete a UTF-8 sequence. -/
def trailingOctets (began : Nat) : Nat → Cursor → Except Fault (Text × Cursor)
  | 0, c => .ok ([], c)
  | n + 1, c =>
    match escapedOctet? c with
    | none => .error (surfaceFault began c "did not find URI escaped octet")
    | some b =>
      if isTrailing b then do
        let (more, c) ← trailingOctets began n (c.skipBy 3)
        return (b :: more, c)
      else .error (surfaceFault began c "found an incorrect trailing UTF-8 octet")

/-- The percent escapes of a UTF-8 sequence. -/
def escapedOctets (began : Nat) (c : Cursor) : Except Fault (Text × Cursor) :=
  match escapedOctet? c with
  | none => .error (surfaceFault began c "did not find URI escaped octet")
  | some b =>
    match octetCount? b with
    | none => .error (surfaceFault began c "found an incorrect leading UTF-8 octet")
    | some n => do
      let (more, c) ← trailingOctets began (n - 1) (c.skipBy 3)
      return (b :: more, c)

/-- The text of a tag, with its percent escapes read. -/
def tagText (began : Nat) : Nat → Text → Cursor → Except Fault (Text × Cursor)
  | 0, s, c => .ok (s, c)
  | fuel + 1, s, c =>
    if c.sees '%' then do
      let (octets, c) ← escapedOctets began c
      tagText began fuel (s ++ octets) c
    else if isTagCode c.code then tagText began fuel (s ++ encodeRune c.code) c.skip
    else .ok (s, c)

/-- The text of a tag, which must not be empty. -/
def tagUri (began : Nat) (head : Text) (c : Cursor) : Except Fault (Text × Cursor) := do
  let (s, next) ← tagText began (c.size + 1) [] c
  if s.isEmpty && head.isEmpty then throw (surfaceFault began c "did not find expected tag URI")
  return (head.drop 1 ++ s, next)

def tagHandle (began : Nat) (c : Cursor) : Except Fault (Text × Cursor) :=
  if !c.sees '!' then .error (surfaceFault began c "did not find expected '!'")
  else
    let name := c.skip.textWhile isNameCode
    let c := c.skip.skipWhile isNameCode
    if c.sees '!' then .ok (utf8 "!" ++ name ++ utf8 "!", c.skip) else .ok (utf8 "!" ++ name, c)

/-- A tag: `!<uri>`, `!handle!suffix`, `!suffix` or `!`. -/
def tag (l : Lexer) : Except Fault Lexer := do
  let l ← l.noteKey
  let began := l.cursor.line
  let c := l.cursor
  let (handle, suffix, c) ← (if c.ahead 1 == 60 then do
      let (uri, c) ← tagUri began [] (c.skipBy 2)
      if !c.sees '>' then throw (surfaceFault began c "did not find the expected '>'")
      return ([], uri, c.skip)
    else do
      let (handle, c) ← tagHandle began c
      if handle.length > 1 && handle.getLast? == some 33 then
        let (suffix, c) ← tagUri began [] c
        return (handle, suffix, c)
      else
        let (suffix, c) ← tagUri began handle c
        return if suffix.isEmpty then ([], handle, c) else (utf8 "!", suffix, c) :
    Except Fault (Text × Text × Cursor))
  if !isGap c.code then throw (surfaceFault began c "did not find expected whitespace or line break")
  return { l.push ⟨.tag handle suffix, began, began⟩ with cursor := c, keyAllowed := false }

/-- A number of at most two digits. -/
def versionNumber (began : Nat) (c : Cursor) : Except Fault (Nat × Cursor) :=
  let digits := c.rest.takeWhile isDigitCode
  if digits.length > 2 then .error (surfaceFault began c "found extremely long version number")
  else if digits.isEmpty then .error (surfaceFault began c "did not find expected version number")
  else .ok (digits.foldl (fun n d => n * 10 + (d - 48)) 0, c.skipBy digits.length)

/-- A line that begins with a percent sign: the version, or a shorthand for tags. -/
def directive (l : Lexer) : Except Fault Lexer := do
  let l ← (l.unindentTo (-1) l.cursor.line).dropKey
  let began := l.cursor.line
  let c := l.cursor.skip
  let name := c.textWhile isNameCode
  let c := c.skipWhile isNameCode
  if name.isEmpty then throw (surfaceFault began c "could not find expected directive name")
  if !isGap c.code then throw (surfaceFault began c "found unexpected non-alphabetical character")
  let c := c.skipWhile isBlank
  let (kind, c) ← (if name == utf8 "YAML" then do
      let (major, c) ← versionNumber began c
      if !c.sees '.' then throw (surfaceFault began c "did not find expected digit or '.' character")
      let (minor, c) ← versionNumber began c.skip
      return (.version major minor, c)
    else if name == utf8 "TAG" then do
      let (handle, c) ← tagHandle began c
      if handle.getLast? != some 33 then throw (surfaceFault began c "did not find expected '!'")
      if !isBlank c.code then throw (surfaceFault began c "did not find expected whitespace")
      let (expansion, c) ← tagUri began [] (c.skipWhile isBlank)
      if !isGap c.code then
        throw (surfaceFault began c "did not find expected whitespace or line break")
      return (.tagShorthand handle expansion, c)
    else throw (surfaceFault began c "found unknown directive name") :
    Except Fault (TokenKind × Cursor))
  let c := c.skipWhile isBlank
  let c := if c.sees '#' then c.skipWhile fun x => !isBreakOrEnd x else c
  if !isBreakOrEnd c.code then
    throw (surfaceFault began c "did not find expected comment or line break")
  return { l.push ⟨kind, began, began⟩ with cursor := c.skipLine, keyAllowed := false }

def blockScalar (l : Lexer) : Except Fault Lexer := do
  let l ← l.dropKey
  let (t, c) ← block l.indent l.cursor
  return { l.push ⟨.scalar t false, l.cursor.line, c.line⟩ with cursor := c, keyAllowed := true }

def quotedScalar (l : Lexer) : Except Fault Lexer := do
  let l ← l.noteKey
  let (t, c) ← quoted l.cursor
  return { l.push ⟨.scalar t false, l.cursor.line, c.line⟩ with cursor := c, keyAllowed := false }

/-- A scalar without quotes. After a line end a key may begin. -/
def plainScalar (l : Lexer) : Except Fault (Lexer × Bool) := do
  let l ← l.noteKey
  let (t, c, broken) ← plain l.inFlow (l.indent + 1).toNat l.cursor
  return ({ l.push ⟨.scalar t true, l.cursor.line, l.cursor.line⟩ with cursor := c, keyAllowed := broken },
    broken)

/-- Whether a plain scalar can begin at a place. -/
def startsPlain (inFlow : Bool) (c : Cursor) : Bool :=
  !(isGap c.code || "-?:,[]\x7b\x7d#&*!|>'\"%@\x60".toList.any c.sees)
    || (c.sees '-' && !isBlank (c.ahead 1))
    || (!inFlow && (c.sees '?' || c.sees ':') && !isGap (c.ahead 1))

/-- The token at the place; a comment behind it is passed over, except behind a dash. -/
def token (l : Lexer) : Except Fault Lexer := do
  let c := l.cursor
  if c.code == 0 then l.endOfText
  else if c.column == 0 && c.sees '%' then l.directive
  else if c.atMarker '-' then l.documentMarker .documentStart
  else if c.atMarker '.' then l.documentMarker .documentEnd
  else if c.sees '[' then return (← l.flowStart .flowSequenceStart).passComment
  else if c.sees '{' then return (← l.flowStart .flowMappingStart).passComment
  else if c.sees ']' then return (← l.flowEnd .flowSequenceEnd).passComment
  else if c.sees '}' then return (← l.flowEnd .flowMappingEnd).passComment
  else if c.sees ',' then return (← l.flowComma).passComment
  else if c.sees '-' && isGap (c.ahead 1) then l.dash
  else if c.sees '?' && (l.inFlow || isGap (c.ahead 1)) then return (← l.questionMark).passComment
  else if c.sees ':' && (l.inFlow || isGap (c.ahead 1)) then return (← l.colon).passComment
  else if c.sees '*' then
    return (← l.named .reference "did not find expected alphabetic or numeric character").passComment
  else if c.sees '&' then
    return (← l.named .anchor "did not find expected alphabetic or numeric character").passComment
  else if c.sees '!' then return (← l.tag).passComment
  else if (c.sees '|' || c.sees '>') && !l.inFlow then l.blockScalar
  else if c.sees '\'' || c.sees '"' then return (← l.quotedScalar).passComment
  else if startsPlain l.inFlow c then
    let (l, broken) ← l.plainScalar
    return if broken then l else l.passComment
  else l.fail c.line "found character that cannot start any token"

def next (l : Lexer) : Except Fault Lexer :=
  let line := l.cursor.line
  let l := toNext (l.cursor.size + 1) l
  (l.unindentTo l.cursor.column line).token

/-- How many tokens reading can reach when the next one is faulty. -/
def reach (l : Lexer) : Nat :=
  let live := (l.blockKey :: l.flowKeys).filterMap fun k => k.filter l.isLive
  live.foldl (fun n k => min n k.number) (l.count - 2)

def stopAt (l : Lexer) (f : Fault) : List Token :=
  l.found.reverse.take l.reach ++ [⟨.fault f, l.cursor.line, l.cursor.line⟩]

/-- The tokens up to the end of the text or a fault. A token at the end of the known code points
meets the fault that ends them. -/
def all (d : Decoded) : Nat → Lexer → List Token
  | 0, l => l.found.reverse
  | fuel + 1, l =>
    match l.next with
    | .error f => l.stopAt f
    | .ok m =>
      match d.fault with
      | some f => if d.codes.length ≤ m.cursor.index + 1 then l.stopAt f else all d fuel m
      | none => if m.found.head?.any (·.kind == .streamEnd) then m.found.reverse else all d fuel m

end Lexer

def tokens (d : Decoded) : List Token := Lexer.all d (d.codes.length + 2) (.start d)

end CodeAudit.Yaml
