import CodeAudit.Pattern.Basic

/-!
# Written patterns

`Pattern.read` reads the usual notation of regular expressions: alternatives, groups (numbered
from 1 by their opening brackets), the repetitions `*`, `+`, `?`, `{n}`, `{n,}` and `{n,m}`, sets
in square brackets, `.`, `^`, `$`, the escapes `\d \w \s \D \W \S \b \B \n \t \r \f \v \xHH`, and
the flags `i` (ignore case), `m` (`^` and `$` at line ends) and `s` (`.` also for a line feed).

Ignoring case goes by Unicode: `k` also stands for the Kelvin sign and `s` for the long s. The
escapes and word edges go by ASCII.
-/
namespace CodeAudit

/-- The flags in force at a place of a written pattern. -/
structure PatternFlags where
  ignoreCase : Bool := false
  multiline : Bool := false
  dotAll : Bool := false

namespace CodeSet

/-- Whether some range holds the code point. -/
def hasCode (rs : List (Nat × Nat)) (c : Nat) : Bool := rs.any fun r => r.1 ≤ c && c ≤ r.2

/-- The case variants of the letter with index `i` in the alphabet that ranges call for. -/
def foldLetter (rs : List (Nat × Nat)) (i : Nat) : List (Nat × Nat) :=
  if hasCode rs (97 + i) || hasCode rs (65 + i) then
    let both := [(65 + i, 65 + i), (97 + i, 97 + i)]
    if i == 10 then (0x212A, 0x212A) :: both
    else if i == 18 then (0x17F, 0x17F) :: both
    else both
  else []

/-- The ranges with all case variants of their letters. -/
def foldRanges (rs : List (Nat × Nat)) : List (Nat × Nat) :=
  rs ++ (List.range 26).flatMap (foldLetter rs)

def ofRanges (flags : PatternFlags) (negated : Bool) (rs : List (Nat × Nat)) : CodeSet :=
  ⟨negated, if flags.ignoreCase then foldRanges rs else rs⟩

end CodeSet

namespace Pattern

def digitRanges : List (Nat × Nat) := [(48, 57)]

def wordRanges : List (Nat × Nat) := [(48, 57), (65, 90), (95, 95), (97, 122)]

/-- What increasing disjoint ranges leave out, from `lo` on. -/
def complementFrom : Nat → List (Nat × Nat) → List (Nat × Nat)
  | lo, [] => [(lo, 0x10FFFF)]
  | lo, (a, b) :: rs => if lo < a then (lo, a - 1) :: complementFrom (b + 1) rs
    else complementFrom (b + 1) rs

def hexValue? (c : Char) : Option Nat :=
  if '0' ≤ c && c ≤ '9' then some (c.toNat - 48)
  else if 'a' ≤ c && c ≤ 'f' then some (c.toNat - 87)
  else if 'A' ≤ c && c ≤ 'F' then some (c.toNat - 55)
  else none

/-- The ranges of an escape that stands for a set. -/
def classEscape? : Char → Option (List (Nat × Nat))
  | 'd' => some digitRanges
  | 'w' => some wordRanges
  | 's' => some spaceRanges
  | 'D' => some (complementFrom 0 digitRanges)
  | 'W' => some (complementFrom 0 wordRanges)
  | 'S' => some (complementFrom 0 spaceRanges)
  | _ => none

/-- The code point of an escape that stands for one, and what follows it. -/
def codeEscape? : List Char → Option (Nat × List Char)
  | 'n' :: r => some (10, r)
  | 't' :: r => some (9, r)
  | 'r' :: r => some (13, r)
  | 'f' :: r => some (12, r)
  | 'v' :: r => some (11, r)
  | 'x' :: a :: b :: r => do
    let m ← hexValue? a
    let n ← hexValue? b
    some (m * 16 + n, r)
  | c :: r => if c.isAlphanum then none else some (c.toNat, r)
  | [] => none

/-- The range that starts with the code point `lo`, and what follows it: a dash and another member
make a range, else `lo` stands alone, also before a dash that ends the set. -/
def readRange (lo : Nat) : List Char → Option ((Nat × Nat) × List Char)
  | '-' :: ']' :: r => some ((lo, lo), '-' :: ']' :: r)
  | '-' :: '\\' :: r => (codeEscape? r).map fun (hi, r) => ((lo, hi), r)
  | '-' :: hi :: r => some ((lo, hi.toNat), r)
  | cs => some ((lo, lo), cs)

/-- The members of a set up to its closing bracket, and what follows that. -/
def readSet : Nat → List (Nat × Nat) → List Char → Option (List (Nat × Nat) × List Char)
  | 0, _, _ => none
  | fuel + 1, acc, cs =>
    match cs with
    | [] => none
    | ']' :: r => some (acc.reverse, r)
    | '\\' :: c :: r =>
      match classEscape? c with
      | some rs => readSet fuel (rs.reverse ++ acc) r
      | none => do
        let (lo, r) ← codeEscape? (c :: r)
        let (range, r) ← readRange lo r
        readSet fuel (range :: acc) r
    | c :: r => do
      let (range, r) ← readRange c.toNat r
      readSet fuel (range :: acc) r

/-- A number in decimal digits, and what follows it. -/
def readNumber? (cs : List Char) : Option (Nat × List Char) :=
  let ds := cs.takeWhile Char.isDigit
  if ds.isEmpty then none
  else some (ds.foldl (fun n c => n * 10 + (c.toNat - 48)) 0, cs.dropWhile Char.isDigit)

/-- Any number of pieces of a pattern, preferably more. -/
def zeroOrMore : Pattern → Pattern
  | .one s => .many s
  | p => .star p

/-- `n` pieces of `p`, then those of `q`. -/
def timesThen (p q : Pattern) : Nat → Pattern
  | 0 => q
  | n + 1 => .seq p (timesThen p q n)

/-- Up to `n` pieces of `p`, preferably more. -/
def upTo (p : Pattern) : Nat → Pattern
  | 0 => .empty
  | n + 1 => .alt (.seq p (upTo p n)) .empty

/-- The bounds of a counted repetition after its opening brace; no upper bound is `none`. -/
def readBounds? (cs : List Char) : Option ((Nat × Option Nat) × List Char) := do
  let (lo, r) ← readNumber? cs
  match r with
  | '}' :: r => some ((lo, some lo), r)
  | ',' :: '}' :: r => some ((lo, none), r)
  | ',' :: r => do
    let (hi, r) ← readNumber? r
    match r with
    | '}' :: r => some ((lo, some hi), r)
    | _ => none
  | _ => none

/-- A pattern with the repetition written after it, and what follows that. -/
def readRepetition (p : Pattern) : List Char → Pattern × List Char
  | '*' :: r => (zeroOrMore p, r)
  | '+' :: r => (.seq p (zeroOrMore p), r)
  | '?' :: r => (.alt p .empty, r)
  | '\x7b' :: r =>
    match readBounds? r with
    | some ((lo, none), r) => (timesThen p (zeroOrMore p) lo, r)
    | some ((lo, some hi), r) => (timesThen p (upTo p (hi - lo)) lo, r)
    | none => (p, '\x7b' :: r)
  | r => (p, r)

/-- The flags written up to a colon or closing bracket; the flag says whether it was a colon. -/
def readFlags : PatternFlags → List Char → Option (PatternFlags × Bool × List Char)
  | f, 'i' :: r => readFlags { f with ignoreCase := true } r
  | f, 'm' :: r => readFlags { f with multiline := true } r
  | f, 's' :: r => readFlags { f with dotAll := true } r
  | f, ':' :: r => some (f, true, r)
  | f, ')' :: r => some (f, false, r)
  | _, _ => none

/-- The pattern of one code point, under the flags. -/
def oneCode (flags : PatternFlags) (c : Nat) : Pattern :=
  .one (.ofRanges flags false [(c, c)])

/-- The pattern of an escape after its backslash, and what follows it. -/
def readEscape (flags : PatternFlags) : List Char → Option (Pattern × List Char)
  | 'b' :: r => some (.anchor .wordEdge, r)
  | 'B' :: r => some (.anchor .notWordEdge, r)
  | [] => none
  | c :: r =>
    match classEscape? c with
    | some rs => some (.one (.ofRanges flags false rs), r)
    | none => (codeEscape? (c :: r)).map fun (n, r) => (oneCode flags n, r)

mutual
/-- Alternatives up to a closing bracket or the end; `groups` groups were opened before. -/
def readAlternatives : Nat → PatternFlags → Nat → List Char → Option (Pattern × Nat × List Char)
  | 0, _, _, _ => none
  | fuel + 1, flags, groups, cs => do
    let (p, flags, groups, cs) ← readPieces fuel flags groups [] cs
    match cs with
    | '|' :: r => do
      let (q, groups, r) ← readAlternatives fuel flags groups r
      some (.alt p q, groups, r)
    | _ => some (p, groups, cs)

/-- The pieces of one alternative, those read so far last first. -/
def readPieces : Nat → PatternFlags → Nat → List Pattern → List Char →
    Option (Pattern × PatternFlags × Nat × List Char)
  | 0, _, _, _, _ => none
  | fuel + 1, flags, groups, acc, cs =>
    let piece (p : Pattern) (groups : Nat) (r : List Char) :=
      let (p, r) := readRepetition p r
      readPieces fuel flags groups (p :: acc) r
    match cs with
    | [] => some (concat acc.reverse, flags, groups, [])
    | '|' :: r => some (concat acc.reverse, flags, groups, '|' :: r)
    | ')' :: r => some (concat acc.reverse, flags, groups, ')' :: r)
    | '(' :: '?' :: r => do
      let (inner, colon, r) ← readFlags flags r
      if colon then
        let (p, groups, r) ← readAlternatives fuel inner groups r
        match r with
        | ')' :: r => piece p groups r
        | _ => none
      else readPieces fuel inner groups acc r
    | '(' :: r => do
      let n := groups + 1
      let (p, groups, r) ← readAlternatives fuel flags n r
      match r with
      | ')' :: r => piece (.seq (.mark (2 * n)) (.seq p (.mark (2 * n + 1)))) groups r
      | _ => none
    | '.' :: r => piece (.one ⟨true, if flags.dotAll then [] else [(10, 10)]⟩) groups r
    | '^' :: r => piece (.anchor (if flags.multiline then .lineStart else .textStart)) groups r
    | '$' :: r => piece (.anchor (if flags.multiline then .lineEnd else .textEnd)) groups r
    | '[' :: '^' :: r => do
      let (rs, r) ← readSet (r.length + 1) [] r
      piece (.one (.ofRanges flags true rs)) groups r
    | '[' :: r => do
      let (rs, r) ← readSet (r.length + 1) [] r
      piece (.one (.ofRanges flags false rs)) groups r
    | '\\' :: r => do
      let (p, r) ← readEscape flags r
      piece p groups r
    | c :: r => piece (oneCode flags c.toNat) groups r
end

/-- The pattern of a written form, when it is well formed. -/
def read? (s : String) : Option Pattern :=
  let cs := s.toList
  match readAlternatives (2 * cs.length + 2) {} 0 cs with
  | some (p, _, []) => some p
  | _ => none

def nothing : Pattern := .one ⟨false, []⟩

/-- The pattern of a written form; one that is not well formed matches nothing. -/
def read (s : String) : Pattern := (read? s).getD nothing

end Pattern
end CodeAudit
