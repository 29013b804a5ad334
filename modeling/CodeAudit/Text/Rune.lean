import CodeAudit.Text.Basic

/-!
# Code points of a text

`Text.runes` reads a text as UTF-8 from the left. A byte that starts no valid sequence is read
alone, as the replacement character. Every rune keeps the bytes it was read from, so that nothing
is lost (`ofRunes_runes`).

* `encodeRune`: the UTF-8 bytes of a code point; the replacement character's for what is none.
* `Text.sanitize`: the text with every stray byte written as the replacement character.
-/
namespace CodeAudit

/-- The replacement character, read where a byte is not part of valid UTF-8. -/
def replacement : Nat := 0xFFFD

/-- A code point with the bytes it was read from. -/
structure Rune where
  code : Nat
  raw : Text
  deriving DecidableEq, Repr, Inhabited

/-- The number of bytes a rune was read from. -/
def Rune.width (r : Rune) : Nat := r.raw.length

/-- The UTF-8 bytes of a code point. -/
def encodeRune (c : Nat) : Text :=
  if c < 0x80 then [c.toUInt8]
  else if c < 0x800 then [(0xC0 + c / 64).toUInt8, (0x80 + c % 64).toUInt8]
  else if (0xD800 ≤ c && c < 0xE000) || 0x10FFFF < c then [0xEF, 0xBF, 0xBD]
  else if c < 0x10000 then
    [(0xE0 + c / 4096).toUInt8, (0x80 + c / 64 % 64).toUInt8, (0x80 + c % 64).toUInt8]
  else
    [(0xF0 + c / 262144).toUInt8, (0x80 + c / 4096 % 64).toUInt8, (0x80 + c / 64 % 64).toUInt8,
      (0x80 + c % 64).toUInt8]

namespace Text

/-- A byte that may follow the first byte of a sequence. -/
def isTail (b : UInt8) : Bool := 0x80 ≤ b && b ≤ 0xBF

/-- The second byte of a three-byte sequence that starts with `a`. -/
def second3 (a b : UInt8) : Bool :=
  if a == 0xE0 then 0xA0 ≤ b && b ≤ 0xBF
  else if a == 0xED then 0x80 ≤ b && b ≤ 0x9F
  else (0xE1 ≤ a && a ≤ 0xEF) && isTail b

/-- The second byte of a four-byte sequence that starts with `a`. -/
def second4 (a b : UInt8) : Bool :=
  if a == 0xF0 then 0x90 ≤ b && b ≤ 0xBF
  else if a == 0xF4 then 0x80 ≤ b && b ≤ 0x8F
  else (0xF1 ≤ a && a ≤ 0xF3) && isTail b

/-- The low six bits of a tail byte. -/
def low6 (b : UInt8) : Nat := b.toNat % 64

/-- The rune that starts with byte `a` when the bytes `t` follow it. -/
def readRune (a : UInt8) (t : Text) : Rune :=
  if a < 0x80 then ⟨a.toNat, [a]⟩
  else match t with
    | [] => ⟨replacement, [a]⟩
    | b :: u =>
      if 0xC2 ≤ a && a ≤ 0xDF && isTail b then ⟨(a.toNat - 0xC0) * 64 + low6 b, [a, b]⟩
      else match u with
        | [] => ⟨replacement, [a]⟩
        | c :: v =>
          if second3 a b && isTail c then
            ⟨(a.toNat - 0xE0) * 4096 + low6 b * 64 + low6 c, [a, b, c]⟩
          else match v with
            | [] => ⟨replacement, [a]⟩
            | d :: _ =>
              if second4 a b && isTail c && isTail d then
                ⟨(a.toNat - 0xF0) * 262144 + low6 b * 4096 + low6 c * 64 + low6 d, [a, b, c, d]⟩
              else ⟨replacement, [a]⟩

/-- The runes of a text of which `skip` leading bytes belong to a rune already read. -/
def runesFrom : Nat → Text → List Rune
  | _, [] => []
  | skip + 1, _ :: t => runesFrom skip t
  | 0, a :: t => readRune a t :: runesFrom ((readRune a t).width - 1) t

/-- The code points of a text, with the bytes each was read from. -/
def runes (t : Text) : List Rune := runesFrom 0 t

/-- The bytes a list of runes was read from. -/
def ofRunes (rs : List Rune) : Text := rs.flatMap Rune.raw

/-- The UTF-8 bytes of a list of code points. -/
def ofCodes (cs : List Nat) : Text := cs.flatMap encodeRune

def codes (t : Text) : List Nat := t.runes.map Rune.code

def runeCount (t : Text) : Nat := t.runes.length

/-- The text with every stray byte written as the replacement character. -/
def sanitize (t : Text) : Text := ofCodes t.codes

/-- Whether every byte is part of valid UTF-8. -/
def isValid (t : Text) : Bool := t.runes.all fun r => !(r.code == replacement && r.width == 1)

/-- A rune's bytes are its first byte and what of the following bytes it spans. -/
theorem readRune_raw (a : UInt8) (t : Text) :
    (readRune a t).raw = a :: t.take ((readRune a t).width - 1) := by
  unfold readRune
  repeat' split
  all_goals simp [Rune.width]

theorem ofRunes_runesFrom (k : Nat) (t : Text) : ofRunes (runesFrom k t) = t.drop k := by
  fun_induction runesFrom k t with
  | case1 => simp [ofRunes]
  | case2 skip b t ih => simpa using ih
  | case3 a t ih =>
    simp only [ofRunes, List.flatMap_cons] at ih ⊢
    rw [ih, readRune_raw]
    simp

/-- Reading code points loses no bytes. -/
theorem ofRunes_runes (t : Text) : ofRunes t.runes = t := by
  simpa [runes] using ofRunes_runesFrom 0 t

end Text
end CodeAudit
