import CodeAudit.Text.Printable

/-!
# Quoted texts

`Text.quote` writes a text between double quotes the way messages show it: printable code points
stand for themselves, all others are escaped, and a stray byte is written as two hexadecimal
digits.
-/
namespace CodeAudit

/-- A lower-case hexadecimal digit. -/
def hexDigit (n : Nat) : UInt8 := if n < 10 then (48 + n).toUInt8 else (87 + n).toUInt8

/-- The last `w` hexadecimal digits of a number. -/
def hexDigits : Nat → Nat → Text
  | 0, _ => []
  | w + 1, n => hexDigits w (n / 16) ++ [hexDigit (n % 16)]

namespace Text

/-- The escape of one rune inside double quotes. -/
def quoteRune (r : Rune) : Text :=
  if r.code == replacement && r.width == 1 then "\\x" ++ hexDigits 2 (r.raw.headD 0).toNat
  else if r.code == 34 then "\\\""
  else if r.code == 92 then "\\\\"
  else if isPrintable r.code then r.raw
  else if r.code == 7 then "\\a"
  else if r.code == 8 then "\\b"
  else if r.code == 12 then "\\f"
  else if r.code == 10 then "\\n"
  else if r.code == 13 then "\\r"
  else if r.code == 9 then "\\t"
  else if r.code == 11 then "\\v"
  else if r.code < 0x20 || r.code == 0x7F then "\\x" ++ hexDigits 2 r.code
  else if r.code < 0x10000 then "\\u" ++ hexDigits 4 r.code
  else "\\U" ++ hexDigits 8 r.code

/-- The text between double quotes, with escapes. -/
def quote (t : Text) : Text := [34] ++ t.runes.flatMap quoteRune ++ [34]

end Text
end CodeAudit
