import CodeAudit.Text.Rune

/-!
# Markup tokens

Reads HTML as tags, comments and text between them. After the start tags of some elements the text
up to the matching end tag is read raw, whatever it looks like. Character references are resolved in
the values of attributes and in texts, but not in raw ones.

* `Source.next`: the next token and the source after it; none at the end, or in a tag that is not
  closed.
* `Tag.attr?`: an attribute by name.
-/
namespace CodeAudit.Markup

/-- A start tag with its attributes in order. -/
structure Tag where
  name : Text
  attrs : List (Text × Text)
  selfClosing : Bool
  deriving DecidableEq, Repr

/-- A piece of markup. -/
inductive Token where
  | text (t : Text)
  | start (tag : Tag)
  | stop (name : Text)
  | comment
  | doctype
  deriving DecidableEq, Repr

/-- What is still to be read, and the element whose raw text comes next (empty for none). -/
structure Source where
  rest : Text
  rawTag : Text := []

/-- White space between the parts of a tag. -/
def isSpace (b : UInt8) : Bool := b == 32 || b == 10 || b == 13 || b == 9 || b == 12

def isLetter (b : UInt8) : Bool := (97 ≤ b && b ≤ 122) || (65 ≤ b && b ≤ 90)

def endsName (b : UInt8) : Bool := isSpace b || b == 47 || b == 62

def endsKey (b : UInt8) : Bool := endsName b || b == 61

/-- The text from its first byte that is not white space on. -/
def dropSpace (t : Text) : Text := t.dropWhile isSpace

def lowerAscii (t : Text) : Text := t.map Text.asciiLower

/-! ## Character references -/

/-- The code points that the references 128 to 159 stand for. -/
def windowsCodes : List Nat :=
  [0x20AC, 0x81, 0x201A, 0x192, 0x201E, 0x2026, 0x2020, 0x2021, 0x2C6, 0x2030, 0x160, 0x2039,
    0x152, 0x8D, 0x17D, 0x8F, 0x90, 0x2018, 0x2019, 0x201C, 0x201D, 0x2022, 0x2013, 0x2014,
    0x2DC, 0x2122, 0x161, 0x203A, 0x153, 0x9D, 0x17E, 0x178]

/-- The code point a number stands for in a reference. Numbers are taken modulo 2 to the 32. -/
def referenceCode (n : Nat) : Nat :=
  let n := n % 4294967296
  if 0x80 ≤ n && n ≤ 0x9F then windowsCodes.getD (n - 0x80) replacement
  else if n == 0 || (0xD800 ≤ n && n ≤ 0xDFFF) || 0x10FFFF < n then replacement
  else n

/-- Named references: those that stand for white space, and those for the characters that markup is
made of. Only these can make a difference between white space and other text, or between two names
of elements. -/
def namedReferences : List (String × List Nat) :=
  [("Tab;", [9]), ("NewLine;", [10]), ("nbsp;", [0xA0]), ("nbsp", [0xA0]),
    ("NonBreakingSpace;", [0xA0]), ("ensp;", [0x2002]), ("emsp;", [0x2003]),
    ("emsp13;", [0x2004]), ("emsp14;", [0x2005]), ("numsp;", [0x2007]), ("puncsp;", [0x2008]),
    ("thinsp;", [0x2009]), ("ThinSpace;", [0x2009]), ("hairsp;", [0x200A]),
    ("VeryThinSpace;", [0x200A]), ("MediumSpace;", [0x205F]), ("ThickSpace;", [0x205F, 0x200A]),
    ("amp;", [38]), ("amp", [38]), ("lt;", [60]), ("lt", [60]), ("gt;", [62]), ("gt", [62]),
    ("quot;", [34]), ("quot", [34]), ("apos;", [39])]

def hexValue? (b : UInt8) : Option Nat :=
  if 48 ≤ b && b ≤ 57 then some (b.toNat - 48)
  else if 97 ≤ b && b ≤ 102 then some (b.toNat - 87)
  else if 65 ≤ b && b ≤ 70 then some (b.toNat - 55)
  else none

def decimalValue? (b : UInt8) : Option Nat := if Text.isDigit b then some (b.toNat - 48) else none

/-- Reads the digits of a number: its value, how many bytes it takes with a closing semicolon. -/
def readDigits (value? : UInt8 → Option Nat) (base : Nat) : Nat → Nat → Text → Nat × Nat
  | n, len, [] => (n, len)
  | n, len, b :: t =>
    match value? b with
    | some d => readDigits value? base (n * base + d) (len + 1) t
    | none => (n, if b == 59 then len + 1 else len)

/-- A numeric reference after `&#`: its code point and its length from the ampersand on. -/
def numericReference? (t : Text) : Option (Nat × Nat) :=
  if t.length < 2 then none
  else
    let (n, len) :=
      match t with
      | 120 :: u | 88 :: u => readDigits hexValue? 16 0 3 u
      | u => readDigits decimalValue? 10 0 2 u
    if len ≤ 3 then none else some (referenceCode n, len)

/-- The code points that a name stands for. -/
def named? (name : Text) : Option (List Nat) := (namedReferences.find? fun r => utf8 r.1 == name).map (·.2)

/-- A named reference after `&`: its code points and its length from the ampersand on. In a value it
is plain text before an equals sign if it has no semicolon; in a text it may also be the beginning
of a longer word. -/
def namedReference? (inValue : Bool) (t : Text) : Option (List Nat × Nat) :=
  let word := t.takeWhile fun b => isLetter b || Text.isDigit b
  let after := t.drop word.length
  let closed := after.head? == some 59
  let name := if closed then word ++ [59] else word
  if name.isEmpty || (inValue && !closed && after.head? == some 61) then none
  else
    match named? name with
    | some cs => some (cs, name.length + 1)
    | none =>
      if inValue then none
      else (List.range (min 7 name.length)).reverse.findSome? fun n =>
        if n < 2 then none else (named? (name.take n)).map fun cs => (cs, n + 1)

/-- Resolves the character references of a value or a text; `skip` bytes belong to a reference
already resolved. -/
def resolveFrom (inValue : Bool) : Nat → Text → Text
  | _, [] => []
  | skip + 1, _ :: t => resolveFrom inValue skip t
  | 0, b :: t =>
    if b = 38 then
      match reference? t with
      | some (data, len) => data ++ resolveFrom inValue (len - 1) t
      | none => b :: resolveFrom inValue 0 t
    else b :: resolveFrom inValue 0 t
where
  /-- The reference after an ampersand, and its length from there on. -/
  reference? : Text → Option (Text × Nat)
    | 35 :: u => (numericReference? u).map fun (c, len) => (encodeRune c, len)
    | u => (namedReference? inValue u).map fun (cs, len) => (Text.ofCodes cs, len)

/-- The value of an attribute with its character references resolved. -/
def resolveValue (t : Text) : Text := resolveFrom true 0 t

def resolveText (t : Text) : Text := resolveFrom false 0 t

/-! ## Tags -/

/-- The name of an attribute, and what follows it. An equals sign at its beginning is part of
it. -/
def readKey (t : Text) : Text × Text :=
  match t with
  | 61 :: u => (61 :: u.takeWhile (!endsKey ·), u.dropWhile (!endsKey ·))
  | u => (u.takeWhile (!endsKey ·), u.dropWhile (!endsKey ·))

/-- The value of an attribute after its name, and what follows it; none at the end. -/
def readValue? (t : Text) : Option (Text × Text) :=
  match dropSpace t with
  | [] => none
  | 47 :: u => some ([], u)
  | 61 :: u =>
    match dropSpace u with
    | [] => none
    | 62 :: v => some ([], 62 :: v)
    | q :: v =>
      if q == 34 || q == 39 then
        match v.dropWhile (· != q) with
        | [] => none
        | _ :: w => some (v.takeWhile (· != q), w)
      else
        let ends (b : UInt8) := isSpace b || b == 62
        some ((q :: v).takeWhile (!ends ·), (q :: v).dropWhile (!ends ·))
  | u => some ([], u)

/-- The attributes up to the closing bracket, those read so far last first, and what follows. -/
def readAttrs? : Nat → List (Text × Text) → Text → Option (List (Text × Text) × Text)
  | 0, _, _ => none
  | fuel + 1, acc, t =>
    match t with
    | [] => none
    | 62 :: u => some (acc.reverse, u)
    | u => do
      let (key, u) := readKey u
      let (value, u) ← readValue? u
      let acc := if key.isEmpty then acc else (lowerAscii key, resolveValue value) :: acc
      readAttrs? fuel acc (dropSpace u)

/-- A tag from its name on, and what follows its closing bracket. -/
def readTag? (t : Text) : Option (Tag × Text) := do
  let name := t.takeWhile (!endsName ·)
  let (attrs, rest) ← readAttrs? (t.length + 1) [] (dropSpace (t.drop name.length))
  let used := t.length - rest.length
  some (⟨lowerAscii name, attrs, t[used - 2]? == some 47⟩, rest)

def Tag.attr? (tag : Tag) (name : String) : Option Text := tag.attrs.lookup (utf8 name)

/-! ## Comments and raw text -/

def afterBracket (t : Text) : Text := (t.dropWhile (· != 62)).drop 1

/-- What follows a comment, given the text after its opening dashes: it ends at `-->`, `--!>`, or
right at its beginning. -/
def afterComment : Nat → Bool → Text → Text
  | _, _, [] => []
  | dashes, beginning, b :: t =>
    if b == 45 then afterComment (dashes + 1) beginning t
    else if b == 62 && (2 ≤ dashes || beginning) then t
    else if b == 33 && 2 ≤ dashes then
      match t with
      | [] => []
      | c :: u =>
        if c == 62 then u
        else if c == 45 then afterComment 1 false u
        else afterComment 0 false u
    else afterComment 0 false t

/-- What a marked section holds, last byte first in `acc`, and what follows it. -/
def readSection : Nat → Text → Text → Text × Text
  | _, acc, [] => (acc.reverse, [])
  | brackets, acc, b :: t =>
    if b == 93 then readSection (brackets + 1) (b :: acc) t
    else if b == 62 && 2 ≤ brackets then ((acc.drop 2).reverse, t)
    else readSection 0 (b :: acc) t

/-- Whether a text starts with a word up to letter case, given in lower case. -/
def startsWithWord (t word : Text) : Bool := lowerAscii (t.take word.length) == word

/-- Whether the end tag of the element follows, given the text after its opening bracket. -/
def isRawEnd (tag t : Text) : Bool :=
  startsWithWord t (47 :: tag) && (t[tag.length + 1]?).any endsName

def rawEnd (tag : Text) : Nat → Text → Nat
  | i, [] => i
  | i, b :: t => if b == 60 && isRawEnd tag t then i else rawEnd tag (i + 1) t

/-- How a script is being read: plainly, inside a comment, or inside a script inside a comment,
with the number of dashes just read, up to two. -/
inductive ScriptMode where
  | plain
  | escaped (dashes : Nat)
  | doubled (dashes : Nat)

def scriptEnd : ScriptMode → Nat → Nat → Text → Nat
  | _, _, i, [] => i
  | mode, skip + 1, i, _ :: t => scriptEnd mode skip (i + 1) t
  | .plain, 0, i, b :: t =>
    if b == 60 then
      if Text.startsWith t "!--" then scriptEnd (.escaped 2) 3 (i + 1) t
      else if isRawEnd "script" t then i
      else scriptEnd .plain 0 (i + 1) t
    else scriptEnd .plain 0 (i + 1) t
  | .escaped dashes, 0, i, b :: t =>
    if b == 45 then scriptEnd (.escaped (min 2 (dashes + 1))) 0 (i + 1) t
    else if b == 62 && 2 ≤ dashes then scriptEnd .plain 0 (i + 1) t
    else if b == 60 then
      if isRawEnd "script" t then i
      else if t.head? == some 47 then scriptEnd (.escaped 0) 0 (i + 1) t
      else if t.head?.any isLetter then
        if startsWithWord t "script" && (t[6]?).any endsName then
          scriptEnd (.doubled 0) 7 (i + 1) t
        else scriptEnd (.escaped 0) 0 (i + 1) t
      else scriptEnd .plain 0 (i + 1) t
    else scriptEnd (.escaped 0) 0 (i + 1) t
  | .doubled dashes, 0, i, b :: t =>
    if b == 45 then scriptEnd (.doubled (min 2 (dashes + 1))) 0 (i + 1) t
    else if b == 62 && 2 ≤ dashes then scriptEnd .plain 0 (i + 1) t
    else if b == 60 && isRawEnd "script" t then scriptEnd (.escaped 0) 8 (i + 1) t
    else scriptEnd (.doubled 0) 0 (i + 1) t

def rawLength (tag t : Text) : Nat :=
  if tag == utf8 "plaintext" then t.length
  else if tag == utf8 "script" then scriptEnd .plain 0 0 t
  else rawEnd tag 0 t

def rawElements : List Text :=
  [utf8 "iframe", utf8 "noembed", utf8 "noframes", utf8 "noscript", utf8 "plaintext",
    utf8 "script", utf8 "style", utf8 "textarea", utf8 "title", utf8 "xmp"]

/-- What the text of an element stands for: it is taken as it is, except in the elements that hold
nothing but plain text. -/
def rawContent (tag t : Text) : Text :=
  if tag == utf8 "textarea" || tag == utf8 "title" then resolveText t else t

/-! ## Tokens -/

/-- Whether a tag, comment or declaration opens after a left bracket. -/
def opensMarkup (t : Text) : Bool :=
  t.head?.any fun b => isLetter b || b == 47 || b == 33 || b == 63

/-- The length of the text before the next piece of markup. -/
def textLength : Text → Nat
  | [] => 0
  | b :: t => if b == 60 && opensMarkup t then 0 else textLength t + 1

/-- A declaration after `<!`: a comment, a document type, or where allowed a marked section. -/
def readDeclaration (sections : Bool) (t : Text) : Token × Text :=
  if t.length < 2 then (.comment, [])
  else if Text.startsWith t "--" then (.comment, afterComment 0 true (t.drop 2))
  else if startsWithWord t "doctype" then (.doctype, afterBracket (t.drop 7))
  else if sections && Text.startsWith t "[CDATA[" then
    let (data, rest) := readSection 0 [] (t.drop 7)
    (.text data, rest)
  else (.comment, afterBracket t)

/-- The next token outside raw text. -/
def readToken? (sections : Bool) (t : Text) : Option (Token × Source) :=
  match textLength t with
  | n + 1 => some (.text (resolveText (t.take (n + 1))), ⟨t.drop (n + 1), []⟩)
  | 0 =>
    match t with
    | _ :: 47 :: u =>
      match u with
      | [] => some (.text t, ⟨[], []⟩)
      | 62 :: v => some (.comment, ⟨v, []⟩)
      | b :: _ =>
        if isLetter b then (readTag? u).map fun (tag, rest) => (.stop tag.name, ⟨rest, []⟩)
        else some (.comment, ⟨afterBracket u, []⟩)
    | _ :: 33 :: u =>
      let (token, rest) := readDeclaration sections u
      some (token, ⟨rest, []⟩)
    | _ :: 63 :: u => some (.comment, ⟨afterBracket (63 :: u), []⟩)
    | _ :: u =>
      (readTag? u).map fun (tag, rest) =>
        (.start tag, ⟨rest, if rawElements.contains tag.name then tag.name else []⟩)
    | [] => none

/-- The next token and the source after it. `sections` says whether marked sections are read. -/
def Source.next (sections : Bool) (s : Source) : Option (Token × Source) :=
  match s.rawTag with
  | [] => readToken? sections s.rest
  | tag =>
    match rawLength tag s.rest with
    | 0 => readToken? sections s.rest
    | n => some (.text (rawContent tag (s.rest.take n)), ⟨s.rest.drop n, []⟩)

/-- The tokens of a source, read without regard to where elements may stand. -/
def Source.tokens : Nat → Source → List Token
  | 0, _ => []
  | fuel + 1, s =>
    match s.next false with
    | none => []
    | some (token, rest) => token :: Source.tokens fuel rest

def tokens (t : Text) : List Token := Source.tokens (t.length + 1) ⟨t, []⟩

end CodeAudit.Markup
