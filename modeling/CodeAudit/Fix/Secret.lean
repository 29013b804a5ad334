import CodeAudit.Code.Literal
import CodeAudit.Fix.Basic

/-!
# Secrets in code

* `redactOutside`: replacing matches of a pattern outside string literals.
* `envName`, `envLookup`: the environment variable for a name, and how a language reads it.
-/
namespace CodeAudit

/-- Replaces the matches of a pattern outside literals. `seg` is the piece being read, last byte
first, and `quote` the quote of the literal it is in. A literal that is not closed is copied. -/
def redactFrom (p : Pattern) (w : Template) : Option UInt8 → Text → Text → Text
  | none, seg, [] => p.replaceAll w seg.reverse
  | some _, seg, [] => seg.reverse
  | some q, seg, b :: t =>
    if b = 92 then
      match t with
      | [] => (b :: seg).reverse
      | c :: u => redactFrom p w (some q) (c :: b :: seg) u
    else if b = q then (b :: seg).reverse ++ redactFrom p w none [] t
    else redactFrom p w (some q) (b :: seg) t
  | none, seg, b :: t =>
    if Code.isQuote b then p.replaceAll w seg.reverse ++ redactFrom p w (some b) [b] t
    else redactFrom p w none (b :: seg) t

/-- Replaces the matches of a pattern that stand outside string literals. -/
def redactOutside (p : Pattern) (w : Template) (line : Text) : Text := redactFrom p w none [] line

def isUpperCode (c : Nat) : Bool := 65 ≤ c && c ≤ 90

/-- The name with an underscore before each capital that follows a lower-case ASCII letter, read
rune by rune with the byte before each. -/
def splitCamel : Option UInt8 → List Rune → Text
  | _, [] => []
  | prev, r :: rs =>
    let gap : Text := if isUpperCode r.code && prev.any (fun b => 97 ≤ b && b ≤ 122) then [95] else []
    gap ++ encodeRune r.code ++ splitCamel r.raw.getLast? rs

/-- A run of anything but ASCII letters and digits. -/
def notAlphanumeric : Pattern := .read r"[^A-Za-z0-9]+"

/-- The environment variable for a name: its words in upper case with underscores between. -/
def envName (key : Text) : Text :=
  let name := notAlphanumeric.replaceAll [.text 95] (splitCamel none key.runes)
  let name := Text.trimRightBytes (· == 95) (Text.trimLeftBytes (· == 95) name)
  if name.isEmpty then "SECRET" else name.map Text.asciiUpper

/-- The expression that reads an environment variable. -/
def envLookup (l : Language) (name : Text) : Text :=
  match l with
  | .python => "os.environ.get(\"" ++ name ++ "\")"
  | .javaScript => "process.env." ++ name
  | .php => "getenv('" ++ name ++ "')"
  | .java => "System.getenv(\"" ++ name ++ "\")"
  | .c => "getenv(\"" ++ name ++ "\")"
  | _ => utf8 r#""${"# ++ name ++ utf8 r#"}""#

end CodeAudit
