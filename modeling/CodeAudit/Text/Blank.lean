import CodeAudit.Text.Rune

/-!
# White space

`isBlank` is the Unicode property White_Space. Trimming and splitting into words go by code
points, so a stray byte is never white space.
-/
namespace CodeAudit

/-- A code point of the Unicode property White_Space. -/
def isBlank (c : Nat) : Bool :=
  (9 ≤ c && c ≤ 13) || c == 0x20 || c == 0x85 || c == 0xA0 || c == 0x1680
    || (0x2000 ≤ c && c ≤ 0x200A) || c == 0x2028 || c == 0x2029 || c == 0x202F || c == 0x205F
    || c == 0x3000

namespace Text

def blankRune (r : Rune) : Bool := isBlank r.code

/-- The text without leading and trailing white space. -/
def trim (t : Text) : Text :=
  ofRunes ((t.runes.dropWhile blankRune).reverse.dropWhile blankRune).reverse

/-- Whether a text holds nothing but white space. -/
def isBlankText (t : Text) : Bool := t.runes.all blankRune

/-- The words of a list of runes; `word` holds the runes of the word being read, last first. -/
def fieldsFrom (word : List Rune) : List Rune → List Text
  | [] => if word.isEmpty then [] else [ofRunes word.reverse]
  | r :: rs =>
    if blankRune r then
      if word.isEmpty then fieldsFrom [] rs else ofRunes word.reverse :: fieldsFrom [] rs
    else fieldsFrom (r :: word) rs

/-- The maximal pieces of a text without white space. -/
def fields (t : Text) : List Text := fieldsFrom [] t.runes

def isSpaceOrTab (b : UInt8) : Bool := b == 32 || b == 9

/-- The leading spaces and tabs of a line. -/
def indent (line : Text) : Text := line.takeWhile isSpaceOrTab

end Text
end CodeAudit
