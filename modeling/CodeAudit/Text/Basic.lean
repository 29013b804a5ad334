/-!
# Byte texts

A text is a list of bytes. Nothing requires the bytes to be UTF-8: a text may hold any bytes,
and the code points read from it are a view (`CodeAudit.Text.Rune`).

* `utf8`: the bytes of a string constant; string constants coerce to texts through it.
* `Text.splitOn`, `Text.join`: pieces between separator bytes, and back.
* `Text.index?`, `Text.replaceAll`: searching for and replacing a piece of text.
-/
namespace CodeAudit

/-- A list of bytes, not necessarily valid UTF-8. -/
abbrev Text := List UInt8

/-- The UTF-8 bytes of a string constant. -/
def utf8 (s : String) : Text := s.toUTF8.data.toList

instance : Coe String Text := ⟨utf8⟩

/-- The decimal digits of a number, with a minus sign when it is negative. -/
def Text.ofInt (n : Int) : Text := utf8 (toString n)

namespace Text

/-- The line feed. -/
def newline : UInt8 := 10

/-- What follows a leading piece of text, when the text starts with it. -/
def cutPrefix? : Text → Text → Option Text
  | [], t => some t
  | _ :: _, [] => none
  | a :: p, b :: t => if a = b then cutPrefix? p t else none

/-- Whether `p` is a leading piece of `t`. -/
def startsWith (t p : Text) : Bool := p.isPrefixOf t

/-- Whether `p` is a trailing piece of `t`. -/
def endsWith (t p : Text) : Bool := p.isSuffixOf t

/-- The text without one trailing piece `p`, or the text itself when it does not end in `p`. -/
def dropSuffix (t p : Text) : Text := if endsWith t p then t.take (t.length - p.length) else t

/-- The bytes from offset `i` up to but not including offset `j`. -/
def slice (t : Text) (i j : Nat) : Text := (t.drop i).take (j - i)

/-- The offset of the first occurrence of `p`. -/
def index? (p : Text) : Text → Option Nat
  | [] => if p.isEmpty then some 0 else none
  | b :: t => if p.isPrefixOf (b :: t) then some 0 else (index? p t).map (· + 1)

def contains (t p : Text) : Bool := (index? p t).isSome

/-- The offset of the first byte that satisfies `f`. -/
def indexWhere? (f : UInt8 → Bool) : Text → Option Nat
  | [] => none
  | b :: t => if f b then some 0 else (indexWhere? f t).map (· + 1)

/-- The offset of the last occurrence of a byte. -/
def lastIndexOf? (b : UInt8) (t : Text) : Option Nat :=
  (indexWhere? (· == b) t.reverse).map (t.length - 1 - ·)

/-- The pieces of a text between the occurrences of a byte; always at least one. -/
def splitOn (sep : UInt8) : Text → List Text
  | [] => [[]]
  | b :: t =>
    if b = sep then [] :: splitOn sep t
    else match splitOn sep t with
      | [] => [[b]]
      | l :: ls => (b :: l) :: ls

/-- The lines of a text: the pieces between its line feeds. -/
def lines (t : Text) : List Text := splitOn newline t

/-- The pieces one after another with `sep` between each two. -/
def join (sep : Text) : List Text → Text
  | [] => []
  | [l] => l
  | l :: ls => l ++ sep ++ join sep ls

/-- Lines joined by line feeds, the inverse of `lines` on a list that is not empty. -/
def unlines (ls : List Text) : Text := join [newline] ls

/-- Replaces occurrences of `p` from the left, at most `limit` of them; `skip` bytes of a
replaced occurrence are still to be passed over. An empty `p` replaces nothing. -/
def replaceGo (p w : Text) : Nat → Nat → Text → Text
  | _, _, [] => []
  | limit, skip + 1, _ :: t => replaceGo p w limit skip t
  | 0, 0, t => t
  | limit + 1, 0, b :: t =>
    if p.isPrefixOf (b :: t) then w ++ replaceGo p w limit (p.length - 1) t
    else b :: replaceGo p w (limit + 1) 0 t

def replaceAll (p w t : Text) : Text := if p.isEmpty then t else replaceGo p w t.length 0 t

def count (b : UInt8) (t : Text) : Nat := t.countP (· == b)

/-- The text without the leading bytes that satisfy `f`. -/
def trimLeftBytes (f : UInt8 → Bool) (t : Text) : Text := t.dropWhile f

/-- The text without the trailing bytes that satisfy `f`. -/
def trimRightBytes (f : UInt8 → Bool) (t : Text) : Text := (t.reverse.dropWhile f).reverse

def times (n : Nat) (t : Text) : Text := (List.replicate n t).flatten

/-- Lexicographic comparison by bytes. -/
def le : Text → Text → Bool
  | [], _ => true
  | _ :: _, [] => false
  | a :: s, b :: t => if a = b then le s t else a < b

/-- ASCII letters in lower case, all other bytes kept. -/
def asciiLower (b : UInt8) : UInt8 := if 65 ≤ b && b ≤ 90 then b + 32 else b

/-- ASCII letters in upper case, all other bytes kept. -/
def asciiUpper (b : UInt8) : UInt8 := if 97 ≤ b && b ≤ 122 then b - 32 else b

def isDigit (b : UInt8) : Bool := 48 ≤ b && b ≤ 57

/-- An ASCII letter, a decimal digit or an underscore. -/
def isWordByte (b : UInt8) : Bool :=
  (97 ≤ b && b ≤ 122) || (65 ≤ b && b ≤ 90) || isDigit b || b == 95

/-- The number a non-empty run of decimal digits spells. -/
def toNat? (t : Text) : Option Nat :=
  if t.isEmpty || !t.all isDigit then none
  else some (t.foldl (fun n b => n * 10 + (b.toNat - 48)) 0)

theorem cutPrefix?_append (p t : Text) : cutPrefix? p (p ++ t) = some t := by
  induction p with
  | nil => rfl
  | cons a p ih => simp [cutPrefix?, ih]

theorem splitOn_ne_nil (sep : UInt8) (t : Text) : splitOn sep t ≠ [] := by
  cases t with
  | nil => simp [splitOn]
  | cons b t =>
    simp only [splitOn]
    split
    · simp
    · split <;> simp

theorem join_splitOn (sep : UInt8) (t : Text) : join [sep] (splitOn sep t) = t := by
  induction t with
  | nil => rfl
  | cons b t ih =>
    simp only [splitOn]
    split
    · rename_i h
      subst h
      cases hs : splitOn b t with
      | nil => exact absurd hs (splitOn_ne_nil b t)
      | cons l ls => rw [hs] at ih; simp [join, ih]
    · cases hs : splitOn sep t with
      | nil => exact absurd hs (splitOn_ne_nil sep t)
      | cons l ls =>
        rw [hs] at ih
        cases ls <;> simp [join] at ih ⊢ <;> exact ih

/-- Splitting into lines loses nothing. -/
theorem unlines_lines (t : Text) : unlines (lines t) = t := join_splitOn newline t

end Text
end CodeAudit
