import CodeAudit.Text.Rune

/-!
# The code points of YAML text

A byte order mark says how the code points of a text are written, and UTF-8 is the default. The
bytes are taken a portion at a time. A portion with a fault in it gives no code points at all, so
the fault counts only when reading comes to that portion.

* `Fault`: why a text is no YAML document.
* `Yaml.decode`: the code points of a text and the fault that ends them.
-/
namespace CodeAudit.Yaml

/-- What is wrong with a text, and the line where that shows. -/
structure Fault where
  problem : Text
  line : Option Nat
  deriving DecidableEq, Repr

def Fault.message (f : Fault) : Text :=
  "yaml: " ++ (match f.line with
    | some n => utf8 "line " ++ Text.ofInt n ++ ": "
    | none => []) ++ f.problem

def Fault.bare (problem : Text) : Fault := ⟨problem, none⟩

/-- Whether a code point may stand in a text. -/
def isAllowed (c : Nat) : Bool :=
  c == 9 || c == 10 || c == 13 || (32 ≤ c && c ≤ 126) || c == 0x85 || (0xA0 ≤ c && c ≤ 0xD7FF)
    || (0xE000 ≤ c && c ≤ 0xFFFD) || (0x10000 ≤ c && c ≤ 0x10FFFF)

/-- How code points are written as bytes. -/
inductive Encoding where
  | utf8
  | utf16 (lowFirst : Bool)
  deriving DecidableEq, Repr

/-- What stands at the start of some bytes: a code point and how many bytes it takes, the beginning
of one, or nothing of the kind. -/
inductive Start where
  | code (value width : Nat)
  | short (f : Fault)
  | bad (f : Fault)
  deriving DecidableEq, Repr

def Start.ofCode (value width : Nat) : Start :=
  if isAllowed value then .code value width else .bad (.bare "control characters are not allowed")

/-- How many bytes a UTF-8 sequence has, by its first. -/
def octetCount? (b : UInt8) : Option Nat :=
  if b &&& 0x80 == 0 then some 1
  else if b &&& 0xE0 == 0xC0 then some 2
  else if b &&& 0xF0 == 0xE0 then some 3
  else if b &&& 0xF8 == 0xF0 then some 4
  else none

/-- Whether a byte continues a UTF-8 sequence. -/
def isTrailing (b : UInt8) : Bool := b &&& 0xC0 == 0x80

/-- The value of the first byte of a UTF-8 sequence of `n` bytes. -/
def leadingValue (n : Nat) (b : UInt8) : Nat :=
  if n == 1 then b.toNat else if n == 2 then b.toNat % 32 else if n == 3 then b.toNat % 16 else b.toNat % 8

/-- The least code point that takes `n` bytes. -/
def leastCode (n : Nat) : Nat :=
  if n == 1 then 0 else if n == 2 then 0x80 else if n == 3 then 0x800 else 0x10000

/-- The code point that a UTF-8 sequence writes. -/
def sequenceValue (b : UInt8) (more : Text) : Nat :=
  more.foldl (fun n o => n * 64 + o.toNat % 64) (leadingValue (more.length + 1) b)

def startUtf8 : Text → Start
  | [] => .short (.bare "incomplete UTF-8 octet sequence")
  | b :: t =>
    match octetCount? b with
    | none => .bad (.bare "invalid leading UTF-8 octet")
    | some n =>
      let more := t.take (n - 1)
      if more.length + 1 < n then .short (.bare "incomplete UTF-8 octet sequence")
      else if !more.all isTrailing then .bad (.bare "invalid trailing UTF-8 octet")
      else
        let value := sequenceValue b more
        if value < leastCode n then .bad (.bare "invalid length of a UTF-8 sequence")
        else if (0xD800 ≤ value && value ≤ 0xDFFF) || 0x10FFFF < value then
          .bad (.bare "invalid Unicode character")
        else .ofCode value n

/-- The UTF-16 unit of two bytes. -/
def unit (lowFirst : Bool) (a b : UInt8) : Nat :=
  if lowFirst then a.toNat + 256 * b.toNat else b.toNat + 256 * a.toNat

def startUtf16 (lowFirst : Bool) : Text → Start
  | a :: b :: t =>
    let u := unit lowFirst a b
    if u &&& 0xFC00 == 0xDC00 then .bad (.bare "unexpected low surrogate area")
    else if u &&& 0xFC00 == 0xD800 then
      match t with
      | c :: d :: _ =>
        let v := unit lowFirst c d
        if v &&& 0xFC00 == 0xDC00 then .ofCode (0x10000 + (u &&& 0x3FF) * 0x400 + (v &&& 0x3FF)) 4
        else .bad (.bare "expected low surrogate area")
      | _ => .short (.bare "incomplete UTF-16 surrogate pair")
    else .ofCode u 2
  | _ => .short (.bare "incomplete UTF-16 character")

def Encoding.start : Encoding → Text → Start
  | .utf8, t => startUtf8 t
  | .utf16 lowFirst, t => startUtf16 lowFirst t

/-- The code points of a text as far as they are known, how many of them the first portion gives,
and the fault that ends them. -/
structure Decoded where
  codes : List Nat
  opening : Nat
  fault : Option Fault
  deriving DecidableEq, Repr

/-- How many bytes a portion has at most. -/
def portionSize : Nat := 512

/-- How many bytes of a text the next portion has. -/
def portionOf (t : Text) : Nat := (t.take portionSize).length

/-- The code points of the bytes `t`, of which `left` are of the current portion. The `count` code
points `found` so far are listed newest first; `whole` of them are of earlier portions, and
`opening` tells how many are of the first portion once it has ended. -/
def decodeFrom (e : Encoding) : Nat → Text → Nat → List Nat → Nat → Nat → Option Nat → Decoded
  | 0, _, _, found, count, _, opening => ⟨found.reverse, opening.getD count, none⟩
  | fuel + 1, t, left, found, count, whole, opening =>
    let here := opening.getD count
    if t.isEmpty then ⟨found.reverse, here, none⟩
    else if left = 0 then decodeFrom e fuel t (portionOf t) found count count (some here)
    else match e.start (t.take (min left 4)) with
      | .code value width =>
        decodeFrom e fuel (t.drop width) (left - width) (value :: found) (count + 1) whole opening
      | .short f =>
        if (t.drop left).isEmpty then ⟨found.reverse, here, some f⟩
        else decodeFrom e fuel t (portionOf t) found count count (some here)
      | .bad f => ⟨(found.drop (count - whole)).reverse, here, some f⟩

def decode (t : Text) : Decoded :=
  let behind (e : Encoding) (mark : Nat) : Decoded :=
    decodeFrom e (2 * t.length + 2) (t.drop mark) (portionOf t - mark) [] 0 0 none
  match t with
  | 0xFF :: 0xFE :: _ => behind (.utf16 true) 2
  | 0xFE :: 0xFF :: _ => behind (.utf16 false) 2
  | 0xEF :: 0xBB :: 0xBF :: _ => behind .utf8 3
  | _ => behind .utf8 0

end CodeAudit.Yaml
