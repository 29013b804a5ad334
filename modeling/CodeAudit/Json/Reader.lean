import CodeAudit.Json.Basic

/-!
# Reading JSON

* `Json.readFirst`: the first value of a text and what follows it. A text that ends too early is
  told apart from one that no continuation can mend.
* `Json.parse?`: the value of a text that holds nothing else.

Bytes that are not UTF-8 and unpaired surrogates are read as the replacement character.
-/
namespace CodeAudit.Json

/-- Why a text does not start with a value. -/
inductive Fault where
  /-- The text ends inside the value. -/
  | incomplete
  | malformed
  deriving DecidableEq, Repr

def isSpace (b : UInt8) : Bool := b == 32 || b == 9 || b == 10 || b == 13

def skipSpace (t : Text) : Text := t.dropWhile isSpace

def hexDigit? (b : UInt8) : Option Nat :=
  if Text.isDigit b then some (b.toNat - 48)
  else if 97 ≤ b && b ≤ 102 then some (b.toNat - 87)
  else if 65 ≤ b && b ≤ 70 then some (b.toNat - 55)
  else none

def escaped? (b : UInt8) : Option UInt8 :=
  match b with
  | 34 => some 34
  | 92 => some 92
  | 47 => some 47
  | 98 => some 8
  | 102 => some 12
  | 110 => some 10
  | 114 => some 13
  | 116 => some 9
  | _ => none

/-- Where a reader of a string stands. -/
inductive StringState where
  | plain
  | escape
  /-- Inside a code of four digits: the digits read and their value. -/
  | code (digits value : Nat)
  deriving DecidableEq, Repr

/-- What has been read of a string: its bytes, last first, and a high surrogate that waits for its
low one. -/
structure StringSoFar where
  bytes : Text := []
  high : Option Nat := none
  deriving DecidableEq, Repr

namespace StringSoFar

def push (s : StringSoFar) (c : Nat) : StringSoFar :=
  { s with bytes := (encodeRune c).reverse ++ s.bytes }

/-- Gives up waiting for a low surrogate. -/
def settle (s : StringSoFar) : StringSoFar :=
  match s.high with
  | none => s
  | some _ => ({ s with high := none } : StringSoFar).push replacement

def pushByte (s : StringSoFar) (b : UInt8) : StringSoFar :=
  let s := s.settle
  { s with bytes := b :: s.bytes }

/-- Adds the code of an escape, joining two surrogates to one code point. -/
def pushCode (s : StringSoFar) (c : Nat) : StringSoFar :=
  match s.high with
  | some h =>
    if 0xDC00 ≤ c && c ≤ 0xDFFF then
      ({ s with high := none } : StringSoFar).push (0x10000 + (h - 0xD800) * 0x400 + (c - 0xDC00))
    else start s.settle
  | none => start s
where
  /-- Adds a code that is no second half. -/
  start (s : StringSoFar) : StringSoFar :=
    if 0xD800 ≤ c && c ≤ 0xDBFF then { s with high := some c } else s.push c

def text (s : StringSoFar) : Text := Text.sanitize s.settle.bytes.reverse

end StringSoFar

/-- The rest of a string, up to its closing quote. -/
def readString : StringState → StringSoFar → Text → Except Fault (Text × Text)
  | _, _, [] => .error .incomplete
  | .plain, s, b :: t =>
    if b = 34 then .ok (s.text, t)
    else if b = 92 then readString .escape s t
    else if b < 32 then .error .malformed
    else readString .plain (s.pushByte b) t
  | .escape, s, b :: t =>
    if b = 117 then readString (.code 0 0) s t
    else
      match escaped? b with
      | some c => readString .plain (s.pushByte c) t
      | none => .error .malformed
  | .code n v, s, b :: t =>
    match hexDigit? b with
    | none => .error .malformed
    | some d =>
      if n = 3 then readString .plain (s.pushCode (v * 16 + d)) t
      else readString (.code (n + 1) (v * 16 + d)) s t

def readDigits (t : Text) : Except Fault (Text × Text) :=
  match t with
  | [] => .error .incomplete
  | b :: _ =>
    if Text.isDigit b then .ok (t.takeWhile Text.isDigit, t.dropWhile Text.isDigit)
    else .error .malformed

/-- The integer part of a number without its sign: no zero stands before other digits. -/
def readWhole (t : Text) : Except Fault (Text × Text) :=
  match t with
  | 48 :: u => .ok ([48], u)
  | _ => readDigits t

def readFraction (t : Text) : Except Fault (Text × Text) :=
  match t with
  | 46 :: u => (readDigits u).map fun (ds, v) => (46 :: ds, v)
  | _ => .ok ([], t)

def readExponent (t : Text) : Except Fault (Text × Text) :=
  match t with
  | b :: u =>
    if b == 101 || b == 69 then
      match u with
      | s :: v =>
        if s == 43 || s == 45 then (readDigits v).map fun (ds, w) => (b :: s :: ds, w)
        else (readDigits u).map fun (ds, w) => (b :: ds, w)
      | [] => .error .incomplete
    else .ok ([], t)
  | [] => .ok ([], t)

def readNumber (t : Text) : Except Fault (Json × Text) := do
  let (sign, t) : Text × Text := match t with
    | 45 :: u => ([45], u)
    | _ => ([], t)
  let (whole, t) ← readWhole t
  let (fraction, t) ← readFraction t
  let (exponent, t) ← readExponent t
  return (.number (sign ++ whole ++ fraction ++ exponent), t)

def readWord (word : Text) (j : Json) (t : Text) : Except Fault (Json × Text) :=
  if Text.startsWith t word then .ok (j, t.drop word.length)
  else if Text.startsWith word t then .error .incomplete
  else .error .malformed

/-- How deep values may be nested. -/
def maxDepth : Nat := 10000

mutual

/-- The value at the start of a text; `depth` compound values are open. -/
def readValue : Nat → Nat → Text → Except Fault (Json × Text)
  | 0, _, _ => .error .malformed
  | fuel + 1, depth, t =>
    match skipSpace t with
    | [] => .error .incomplete
    | b :: u =>
      if b = 34 then (readString .plain {} u).map fun (s, v) => (.string s, v)
      else if b = 116 then readWord "true" (.bool true) (b :: u)
      else if b = 102 then readWord "false" (.bool false) (b :: u)
      else if b = 110 then readWord "null" .null (b :: u)
      else if b = 45 || Text.isDigit b then readNumber (b :: u)
      else if b = 91 then
        if depth = maxDepth then .error .malformed
        else
          match skipSpace u with
          | [] => .error .incomplete
          | c :: v => if c = 93 then .ok (.array [], v) else readItems fuel (depth + 1) [] (c :: v)
      else if b = 123 then
        if depth = maxDepth then .error .malformed
        else
          match skipSpace u with
          | [] => .error .incomplete
          | c :: v => if c = 125 then .ok (.object [], v) else readMembers fuel (depth + 1) [] (c :: v)
      else .error .malformed

/-- The items of an array; `items` holds those before, last first. -/
def readItems : Nat → Nat → List Json → Text → Except Fault (Json × Text)
  | 0, _, _, _ => .error .malformed
  | fuel + 1, depth, items, t =>
    match readValue fuel depth t with
    | .error e => .error e
    | .ok (j, u) =>
      match skipSpace u with
      | [] => .error .incomplete
      | b :: v =>
        if b = 93 then .ok (.array (j :: items).reverse, v)
        else if b = 44 then readItems fuel depth (j :: items) v
        else .error .malformed

/-- The members of an object; `members` holds those before, last first. -/
def readMembers : Nat → Nat → List (Text × Json) → Text → Except Fault (Json × Text)
  | 0, _, _, _ => .error .malformed
  | fuel + 1, depth, members, t =>
    match skipSpace t with
    | [] => .error .incomplete
    | q :: u =>
      if q ≠ 34 then .error .malformed
      else
        match readString .plain {} u with
        | .error e => .error e
        | .ok (name, v) =>
          match skipSpace v with
          | [] => .error .incomplete
          | colon :: w =>
            if colon ≠ 58 then .error .malformed
            else
              match readValue fuel depth w with
              | .error e => .error e
              | .ok (j, x) =>
                match skipSpace x with
                | [] => .error .incomplete
                | b :: y =>
                  if b = 125 then .ok (.object ((name, j) :: members).reverse, y)
                  else if b = 44 then readMembers fuel depth ((name, j) :: members) y
                  else .error .malformed

end

/-- The first value of a text, and the text after it. -/
def readFirst (t : Text) : Except Fault (Json × Text) := readValue (2 * t.length + 2) 0 t

/-- The value of a text that holds nothing else but white space. -/
def parse? (t : Text) : Option Json :=
  match readFirst t with
  | .ok (j, rest) => if (skipSpace rest).isEmpty then some j else none
  | .error _ => none

end CodeAudit.Json
