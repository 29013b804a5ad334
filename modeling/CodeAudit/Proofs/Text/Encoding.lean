import CodeAudit.Proofs.Text.Runes

/-!
# Code points written and read

A code point that is no half of a surrogate pair is written as one to four bytes, and these are read
as that code point, whatever follows them. Only such code points are ever read from a text. So a
text that was mended once, by writing its code points again, stays as it is.

**Results.**
* `runes_encodeRune_append`: a written code point is read again.
* `sanitize_sanitize`, `sanitize_of_isValid`, `sanitize_utf8`: mended texts, and texts with nothing
  to mend.
-/
namespace CodeAudit

/-- A code point that can be written: one that is no half of a surrogate pair. -/
def IsScalar (c : Nat) : Prop := c < 0xD800 ∨ 0xE000 ≤ c ∧ c ≤ 0x10FFFF

namespace Text

theorem isTail_iff {b : UInt8} : isTail b = true ↔ 0x80 ≤ b.toNat ∧ b.toNat ≤ 0xBF := by
  simp [isTail, UInt8.le_iff_toNat_le]

theorem second3_iff {a b : UInt8} : second3 a b = true ↔
    a.toNat = 0xE0 ∧ 0xA0 ≤ b.toNat ∧ b.toNat ≤ 0xBF ∨ a.toNat = 0xED ∧ 0x80 ≤ b.toNat ∧
      b.toNat ≤ 0x9F ∨
      a.toNat ≠ 0xED ∧ 0xE1 ≤ a.toNat ∧ a.toNat ≤ 0xEF ∧ 0x80 ≤ b.toNat ∧ b.toNat ≤ 0xBF := by
  unfold second3
  by_cases h0 : a = 0xE0
  · subst h0
    simp [UInt8.le_iff_toNat_le]
  by_cases hd : a = 0xED
  · subst hd
    simp [UInt8.le_iff_toNat_le]
  rw [← UInt8.toNat_inj] at h0 hd
  simp at h0 hd
  simp [← UInt8.toNat_inj, h0, hd, UInt8.le_iff_toNat_le, isTail_iff]
  omega

theorem second4_iff {a b : UInt8} : second4 a b = true ↔
    a.toNat = 0xF0 ∧ 0x90 ≤ b.toNat ∧ b.toNat ≤ 0xBF ∨ a.toNat = 0xF4 ∧ 0x80 ≤ b.toNat ∧
      b.toNat ≤ 0x8F ∨ 0xF1 ≤ a.toNat ∧ a.toNat ≤ 0xF3 ∧ 0x80 ≤ b.toNat ∧ b.toNat ≤ 0xBF := by
  unfold second4
  by_cases h0 : a = 0xF0
  · subst h0
    simp [UInt8.le_iff_toNat_le]
  by_cases hd : a = 0xF4
  · subst hd
    simp [UInt8.le_iff_toNat_le]
  rw [← UInt8.toNat_inj] at h0 hd
  simp at h0 hd
  simp [← UInt8.toNat_inj, h0, hd, UInt8.le_iff_toNat_le, isTail_iff]
  omega

/-- The first byte of two, with the second one. -/
theorem second2_iff {a b : UInt8} : (decide (0xC2 ≤ a) && decide (a ≤ 0xDF) && isTail b) = true ↔
    0xC2 ≤ a.toNat ∧ a.toNat ≤ 0xDF ∧ isTail b = true := by
  simp [UInt8.le_iff_toNat_le, and_assoc]

/-- What can be read from a byte on: the byte itself where it is no UTF-8, or one to four bytes. -/
theorem readRune_cases (a : UInt8) (t : Text) :
    readRune a t = ⟨replacement, [a]⟩ ∨ (a < 0x80 ∧ readRune a t = ⟨a.toNat, [a]⟩) ∨
    (∃ b, (0xC2 ≤ a.toNat ∧ a.toNat ≤ 0xDF ∧ isTail b = true) ∧
      readRune a t = ⟨(a.toNat - 0xC0) * 64 + low6 b, [a, b]⟩) ∨
    (∃ b c, (second3 a b = true ∧ isTail c = true) ∧
      readRune a t = ⟨(a.toNat - 0xE0) * 4096 + low6 b * 64 + low6 c, [a, b, c]⟩) ∨
    ∃ b c d, (second4 a b = true ∧ isTail c = true ∧ isTail d = true) ∧
      readRune a t = ⟨(a.toNat - 0xF0) * 262144 + low6 b * 4096 + low6 c * 64 + low6 d,
        [a, b, c, d]⟩ := by
  unfold readRune
  split
  · rename_i h
    exact .inr (.inl ⟨h, rfl⟩)
  split
  · exact .inl rfl
  split
  · rename_i b _ h
    exact .inr (.inr (.inl ⟨b, second2_iff.1 h, rfl⟩))
  split
  · exact .inl rfl
  split
  · rename_i b _ _ c _ h
    exact .inr (.inr (.inr (.inl ⟨b, c, Bool.and_eq_true_iff.1 h, rfl⟩)))
  split
  · exact .inl rfl
  split
  · rename_i b _ _ c _ _ d _ h
    simp only [Bool.and_eq_true] at h
    exact .inr (.inr (.inr (.inr ⟨b, c, d, ⟨h.1.1, h.1.2, h.2⟩, rfl⟩)))
  · exact .inl rfl

/-- A code point of three or four bytes is no surrogate and not too large, by the limits on the
second byte. -/
theorem isScalar_readRune (a : UInt8) (t : Text) : IsScalar (readRune a t).code := by
  have ha := a.toNat_lt
  obtain h | ⟨-, h⟩ | ⟨b, hb, h⟩ | ⟨b, c, hb, h⟩ | ⟨b, c, d, hb, h⟩ := readRune_cases a t
  · rw [h]
    exact Or.inr (show 0xE000 ≤ replacement ∧ replacement ≤ 0x10FFFF by decide)
  · rw [h]
    exact Or.inl (by simp only; omega)
  · rw [h]
    rw [isTail_iff] at hb
    exact Or.inl (by simp only [low6]; omega)
  · rw [h]
    rw [second3_iff, isTail_iff] at hb
    simp only [IsScalar, low6]
    omega
  · rw [h]
    rw [second4_iff, isTail_iff, isTail_iff] at hb
    simp only [IsScalar, low6]
    omega

section
variable {a b c d : UInt8} (t : Text)

theorem readRune_two (ha : 0xC2 ≤ a.toNat) (ha' : a.toNat ≤ 0xDF) (hb : isTail b = true) :
    readRune a (b :: t) = ⟨(a.toNat - 0xC0) * 64 + low6 b, [a, b]⟩ := by
  have hfirst : ¬ a < 0x80 := by
    rw [UInt8.lt_iff_toNat_lt]
    exact Nat.not_lt.2 (Nat.le_trans (by decide) ha)
  have htwo := second2_iff.2 ⟨ha, ha', hb⟩
  simp only [readRune, if_neg hfirst, if_pos htwo]

theorem readRune_three (hb : second3 a b = true) (hc : isTail c = true) :
    readRune a (b :: c :: t) = ⟨(a.toNat - 0xE0) * 4096 + low6 b * 64 + low6 c, [a, b, c]⟩ := by
  have ha : 0xE0 ≤ a.toNat := by
    rw [second3_iff] at hb
    omega
  have hfirst : ¬ a < 0x80 := by
    rw [UInt8.lt_iff_toNat_lt]
    exact Nat.not_lt.2 (Nat.le_trans (by decide) ha)
  have htwo : ¬ (decide (0xC2 ≤ a) && decide (a ≤ 0xDF) && isTail b) = true := by
    rw [second2_iff]
    omega
  simp only [readRune, if_neg hfirst, if_neg htwo, hb, hc, Bool.and_true, if_true]

theorem readRune_four (hb : second4 a b = true) (hc : isTail c = true) (hd : isTail d = true) :
    readRune a (b :: c :: d :: t) =
      ⟨(a.toNat - 0xF0) * 262144 + low6 b * 4096 + low6 c * 64 + low6 d, [a, b, c, d]⟩ := by
  have ha : 0xF0 ≤ a.toNat := by
    rw [second4_iff] at hb
    omega
  have hfirst : ¬ a < 0x80 := by
    rw [UInt8.lt_iff_toNat_lt]
    exact Nat.not_lt.2 (Nat.le_trans (by decide) ha)
  have htwo : ¬ (decide (0xC2 ≤ a) && decide (a ≤ 0xDF) && isTail b) = true := by
    rw [second2_iff]
    omega
  have hthree : second3 a b = false := by
    rw [← Bool.not_eq_true, second3_iff]
    omega
  simp only [readRune, if_neg hfirst, if_neg htwo, hthree, hb, hc, hd, Bool.and_true, if_true,
    Bool.false_eq_true, if_false]

end

/-- What a code point is written as is read as that code point, whatever follows. -/
theorem runes_encodeRune_append {c : Nat} (hc : IsScalar c) (t : Text) :
    runes (encodeRune c ++ t) = ⟨c, encodeRune c⟩ :: runes t := by
  have hbyte : ∀ {n : Nat}, n < 256 → n.toUInt8.toNat = n := fun h => by
    rw [Nat.toUInt8_eq, UInt8.toNat_ofNat', Nat.mod_eq_of_lt h]
  unfold IsScalar at hc
  unfold encodeRune
  split
  · rename_i h
    have hlt : c.toUInt8 < 0x80 := by
      rw [UInt8.lt_iff_toNat_lt, hbyte (by omega)]
      exact h
    rw [List.singleton_append, runes_ascii_cons hlt, hbyte (by omega)]
  split
  · have ha := hbyte (show 0xC0 + c / 64 < 256 by omega)
    have hb := hbyte (show 0x80 + c % 64 < 256 by omega)
    rw [List.cons_append, runes_cons, List.singleton_append, readRune_two t (by omega) (by omega)
      (isTail_iff.2 (by omega)), ha, low6, hb, show (0xC0 + c / 64 - 0xC0) * 64 +
        (0x80 + c % 64) % 64 = c by omega]
    rfl
  split
  · rename_i h
    simp at h
    omega
  split
  · have ha := hbyte (show 0xE0 + c / 4096 < 256 by omega)
    have hb := hbyte (show 0x80 + c / 64 % 64 < 256 by omega)
    have hc' := hbyte (show 0x80 + c % 64 < 256 by omega)
    have hcode : (0xE0 + c / 4096 - 0xE0) * 4096 + (0x80 + c / 64 % 64) % 64 * 64 +
        (0x80 + c % 64) % 64 = c := by
      omega
    rw [List.cons_append, runes_cons, List.cons_append, List.singleton_append, readRune_three t
      (second3_iff.2 (by omega)) (isTail_iff.2 (by omega)), ha, low6, hb, low6, hc', hcode]
    rfl
  · have ha := hbyte (show 0xF0 + c / 262144 < 256 by omega)
    have hb := hbyte (show 0x80 + c / 4096 % 64 < 256 by omega)
    have hc' := hbyte (show 0x80 + c / 64 % 64 < 256 by omega)
    have hd := hbyte (show 0x80 + c % 64 < 256 by omega)
    have hcode : (0xF0 + c / 262144 - 0xF0) * 262144 + (0x80 + c / 4096 % 64) % 64 * 4096 +
        (0x80 + c / 64 % 64) % 64 * 64 + (0x80 + c % 64) % 64 = c := by omega
    rw [List.cons_append, runes_cons, List.cons_append, List.cons_append, List.singleton_append,
      readRune_four t
      (second4_iff.2 (by omega)) (isTail_iff.2 (by omega)) (isTail_iff.2 (by omega)), ha, low6, hb,
      low6, hc', low6, hd, hcode]
    rfl

theorem codes_ofCodes {cs : List Nat} (h : ∀ c ∈ cs, IsScalar c) : (ofCodes cs).codes = cs := by
  induction cs with
  | nil => rfl
  | cons c cs ih =>
    obtain ⟨hc, hcs⟩ := List.forall_mem_cons.1 h
    rw [ofCodes, List.flatMap_cons, codes, runes_encodeRune_append hc, List.map_cons]
    exact congrArg _ (ih hcs)

theorem isScalar_of_mem_codes {t : Text} {c : Nat} (h : c ∈ t.codes) : IsScalar c := by
  obtain ⟨r, hr, rfl⟩ := List.mem_map.1 h
  obtain ⟨a, u, rfl⟩ := exists_readRune_of_mem hr
  exact isScalar_readRune a u

theorem sanitize_sanitize (t : Text) : t.sanitize.sanitize = t.sanitize := by
  rw [sanitize, sanitize, codes_ofCodes fun c hc => isScalar_of_mem_codes hc]

theorem sanitize_of_ascii {t : Text} (h : ∀ b ∈ t, b < 0x80) : t.sanitize = t := by
  rw [sanitize, codes_of_ascii h, ofCodes, List.flatMap_map]
  induction t with
  | nil => rfl
  | cons b t ih =>
    obtain ⟨hb, ht⟩ := List.forall_mem_cons.1 h
    rw [List.flatMap_cons, encodeRune_toNat hb, ih ht]
    rfl

/-- The bytes of a character are those of its code point. -/
theorem utf8EncodeChar_eq (c : Char) : String.utf8EncodeChar c = encodeRune c.toNat := by
  have hvalid : c.toNat < 0xD800 ∨ 0xDFFF < c.toNat ∧ c.toNat < 0x110000 := c.valid
  unfold String.utf8EncodeChar encodeRune
  rw [show c.val.toNat = c.toNat from rfl]
  generalize c.toNat = n at hvalid
  have hscalar : ((decide (0xD800 ≤ n) && decide (n < 0xE000)) || decide (0x10FFFF < n)) =
      false := by
    simp only [Bool.or_eq_false_iff, Bool.and_eq_false_iff, decide_eq_false_iff_not]
    omega
  simp only [hscalar, Nat.toUInt8_eq, Nat.add_comm (_ % _)]
  obtain h | h | h | h : n ≤ 127 ∨ (127 < n ∧ n ≤ 2047) ∨ (2047 < n ∧ n ≤ 65535) ∨ 65535 < n := by
    omega
  · rw [if_pos h, if_pos (show n < 128 by omega)]
  · rw [if_neg (show ¬ n ≤ 127 by omega), if_pos h.2, if_neg (show ¬ n < 128 by omega),
      if_pos (show n < 2048 by omega), Nat.mod_eq_of_lt (show n / 64 < 32 by omega)]
  · rw [if_neg (show ¬ n ≤ 127 by omega), if_neg (show ¬ n ≤ 2047 by omega), if_pos h.2,
      if_neg (show ¬ n < 128 by omega), if_neg (show ¬ n < 2048 by omega), if_neg (by decide),
      if_pos (show n < 65536 by omega), Nat.mod_eq_of_lt (show n / 4096 < 16 by omega)]
  · rw [if_neg (show ¬ n ≤ 127 by omega), if_neg (show ¬ n ≤ 2047 by omega),
      if_neg (show ¬ n ≤ 65535 by omega), if_neg (show ¬ n < 128 by omega),
      if_neg (show ¬ n < 2048 by omega), if_neg (by decide), if_neg (show ¬ n < 65536 by omega),
      Nat.mod_eq_of_lt (show n / 262144 < 8 by omega)]

theorem utf8_eq_ofCodes (s : String) : utf8 s = ofCodes (s.toList.map Char.toNat) := by
  have hs : s = String.ofList s.toList := by simp
  rw [hs, String.toList_ofList]
  unfold utf8 String.toUTF8
  rw [String.toByteArray_ofList]
  induction s.toList with
  | nil => rfl
  | cons c l ih =>
    rw [List.utf8Encode_cons, ByteArray.data_append, Array.toList_append, ih,
      List.utf8Encode_singleton, utf8EncodeChar_eq]
    simp [ofCodes]

theorem sanitize_utf8 (s : String) : sanitize (utf8 s) = utf8 s := by
  rw [sanitize, utf8_eq_ofCodes, codes_ofCodes]
  intro c hc
  obtain ⟨a, -, rfl⟩ := List.mem_map.1 hc
  have hvalid : a.toNat < 0xD800 ∨ 0xDFFF < a.toNat ∧ a.toNat < 0x110000 := a.valid
  rw [IsScalar]
  omega

end Text
end CodeAudit
