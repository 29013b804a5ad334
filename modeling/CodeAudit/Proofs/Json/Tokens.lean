import CodeAudit.Json.Reader
import CodeAudit.Json.Writer
import CodeAudit.Proofs.Text.Encoding

/-!
# Strings and numbers, written and read

What is written for a string is read as the string again, except that a byte which is not UTF-8 has
become the replacement character. What is written for an integer is read as the same number, unless
it runs on into what follows it.

**Results.**
* `readString_writeString`: strings.
* `isLiteral_ofInt`: integers.
-/
namespace CodeAudit.Json

/-! ## Strings -/

namespace StringSoFar

/-- A string so far that waits for nothing. -/
def ofBytes (t : Text) : StringSoFar := ⟨t.reverse, none⟩

theorem push_ofBytes (t : Text) (c : Nat) : (ofBytes t).push c = ofBytes (t ++ encodeRune c) := by
  simp [ofBytes, push]

theorem pushByte_ofBytes (t : Text) (b : UInt8) : (ofBytes t).pushByte b = ofBytes (t ++ [b]) := by
  simp [ofBytes, pushByte, settle]

theorem pushCode_ofBytes (t : Text) {c : Nat} (hc : IsScalar c) :
    (ofBytes t).pushCode c = ofBytes (t ++ encodeRune c) := by
  have hnot : ¬ (decide (0xD800 ≤ c) && decide (c ≤ 0xDBFF)) = true := by
    unfold IsScalar at hc
    simp only [Bool.and_eq_true, decide_eq_true_eq]
    omega
  rw [← push_ofBytes]
  simp only [pushCode, ofBytes, pushCode.start, if_neg hnot]

theorem text_ofBytes (t : Text) : (ofBytes t).text = t.sanitize := by
  simp [text, ofBytes, settle]

end StringSoFar

open StringSoFar

/-- A byte that stands for itself in a string. -/
def IsPlain (b : UInt8) : Prop := b ≠ 34 ∧ b ≠ 92 ∧ ¬ b < 32

theorem readString_plain {u : Text} (hu : ∀ b ∈ u, IsPlain b) (t rest : Text) :
    readString .plain (ofBytes t) (u ++ rest) = readString .plain (ofBytes (t ++ u)) rest := by
  induction u generalizing t with
  | nil => simp
  | cons b u ih =>
    obtain ⟨⟨hquote, hslash, hlow⟩, hu⟩ := List.forall_mem_cons.1 hu
    rw [List.cons_append, readString, if_neg hquote, if_neg hslash, if_neg hlow,
      pushByte_ofBytes, ih hu]
    simp

/-- The escape of one letter. -/
theorem readString_escape {b c : UInt8} (hb : b ≠ 117) (hc : escaped? b = some c) (t rest : Text) :
    readString .plain (ofBytes t) (92 :: b :: rest) =
      readString .plain (ofBytes (t ++ [c])) rest := by
  simp [readString, hb, hc, pushByte_ofBytes]

theorem hexDigit?_hexDigit : ∀ {n : Nat}, n < 16 → hexDigit? (hexDigit n) = some n := by decide

/-- The escape of four digits. -/
theorem readString_codeEscape {c : Nat} (hc : IsScalar c) (hlt : c < 65536) (t rest : Text) :
    readString .plain (ofBytes t) (codeEscape c ++ rest) =
      readString .plain (ofBytes (t ++ encodeRune c)) rest := by
  have hdigit : ∀ n, hexDigit? (hexDigit (n % 16)) = some (n % 16) :=
    fun n => hexDigit?_hexDigit (Nat.mod_lt n (by decide))
  have hvalue : ((c / 16 / 16 / 16 % 16 * 16 + c / 16 / 16 % 16) * 16 + c / 16 % 16) * 16 + c % 16 =
      c := by
    omega
  have htext : codeEscape c =
      [92, 117, hexDigit (c / 16 / 16 / 16 % 16), hexDigit (c / 16 / 16 % 16),
      hexDigit (c / 16 % 16), hexDigit (c % 16)] := rfl
  rw [htext]
  simp only [List.cons_append, List.nil_append, readString, hdigit]
  simp [hvalue, pushCode_ofBytes t hc]

theorem isPlain_of_mem_encodeRune {c : Nat} (hquote : c ≠ 34) (hslash : c ≠ 92) (hlow : ¬ c < 32) :
    ∀ b ∈ encodeRune c, IsPlain b := by
  intro b hb
  by_cases hascii : b < 0x80
  · obtain rfl := Text.toNat_of_mem_encodeRune hb hascii
    refine ⟨fun h => hquote (by rw [h]; rfl), fun h => hslash (by rw [h]; rfl), fun h => hlow ?_⟩
    exact UInt8.lt_iff_toNat_lt.1 h
  · have hle : 128 ≤ b.toNat := Nat.not_lt.1 fun h => hascii (UInt8.lt_iff_toNat_lt.2 h)
    refine ⟨?_, ?_, fun h => ?_⟩
    · rintro rfl
      exact absurd hle (by decide)
    · rintro rfl
      exact absurd hle (by decide)
    · have := UInt8.lt_iff_toNat_lt.1 h
      simp at this
      omega

/-- What is written for a rune is read as its code point. -/
theorem readString_writeRune {r : Rune} (hr : IsScalar r.code) (t rest : Text) :
    readString .plain (ofBytes t) (writeRune r ++ rest) =
      readString .plain (ofBytes (t ++ encodeRune r.code)) rest := by
  unfold writeRune
  split
  case h_8 c hquote hslash _ _ _ _ _ =>
    split
    · rename_i hcode
      refine readString_codeEscape hr ?_ t rest
      simp only [Bool.or_eq_true, decide_eq_true_eq] at hcode
      omega
    · rename_i hcode
      simp only [Bool.or_eq_true, decide_eq_true_eq, not_or] at hcode
      exact readString_plain (isPlain_of_mem_encodeRune hquote hslash hcode.1.1.1.1.1) t rest
  all_goals
    rename_i heq
    rw [heq]
    exact readString_escape (by decide) rfl t rest

theorem readString_runes (rs : List Rune) (hrs : ∀ r ∈ rs, IsScalar r.code) (t rest : Text) :
    readString .plain (ofBytes t) (rs.flatMap writeRune ++ rest) =
      readString .plain (ofBytes (t ++ Text.ofCodes (rs.map Rune.code))) rest := by
  induction rs generalizing t with
  | nil => simp [Text.ofCodes]
  | cons r rs ih =>
    obtain ⟨hr, hrs⟩ := List.forall_mem_cons.1 hrs
    rw [List.flatMap_cons, List.append_assoc, readString_writeRune hr, ih hrs]
    simp [Text.ofCodes]

/-- A string is read as it was written, but for what is not UTF-8 in it. -/
theorem readString_writeString (t rest : Text) :
    ∃ u, writeString t = 34 :: u ∧ readString .plain {} (u ++ rest) = .ok (t.sanitize, rest) := by
  have hrs : ∀ r ∈ t.runes, IsScalar r.code := fun r hr =>
    Text.isScalar_of_mem_codes (List.mem_map_of_mem hr)
  refine ⟨t.runes.flatMap writeRune ++ [34], rfl, ?_⟩
  have hread := readString_runes t.runes hrs [] (34 :: rest)
  rw [List.append_assoc, List.singleton_append]
  refine hread.trans ?_
  rw [List.nil_append, readString, if_pos rfl, text_ofBytes]
  exact congrArg (fun s => Except.ok (s, rest)) t.sanitize_sanitize

/-! ## Numbers -/

/-- What may stand behind a number without becoming a part of it. -/
def EndsNumber (rest : Text) : Prop :=
  ∀ b ∈ rest.head?, Text.isDigit b = false ∧ b ≠ 46 ∧ b ≠ 101 ∧ b ≠ 69

/-- A literal that is read as a number wherever it ends. -/
structure IsLiteral (t : Text) : Prop where
  start : ∃ b u, t = b :: u ∧ (b = 45 ∨ Text.isDigit b = true)
  read : ∀ rest, EndsNumber rest → readNumber (t ++ rest) = .ok (.number t, rest)

theorem readDigits_append {ds rest : Text} (hne : ds ≠ []) (hds : ∀ b ∈ ds, Text.isDigit b = true)
    (hrest : EndsNumber rest) : readDigits (ds ++ rest) = .ok (ds, rest) := by
  obtain ⟨b, ds, rfl⟩ := List.exists_cons_of_ne_nil hne
  have hstop : ∀ c ∈ rest.head?, ¬ Text.isDigit c = true := fun c hc => by simp [(hrest c hc).1]
  rw [List.cons_append, readDigits, if_pos (hds b List.mem_cons_self), ← List.cons_append,
    List.takeWhile_append_of_pos hds, List.dropWhile_append_of_pos hds]
  cases rest with
  | nil => simp
  | cons c rest =>
    have hc := hstop c rfl
    rw [List.takeWhile_cons_of_neg hc, List.dropWhile_cons_of_neg hc, List.append_nil]

theorem readFraction_of_ends {rest : Text} (h : EndsNumber rest) :
    readFraction rest = .ok ([], rest) := by
  unfold readFraction
  split
  · exact absurd rfl (h 46 rfl).2.1
  · rfl

theorem readExponent_of_ends {rest : Text} (h : EndsNumber rest) :
    readExponent rest = .ok ([], rest) := by
  cases rest with
  | nil => rfl
  | cons b rest =>
    obtain ⟨-, -, hlower, hupper⟩ := h b rfl
    simp [readExponent, hlower, hupper]

/-- A text of decimal digits that starts with a zero only if that is all. -/
structure IsDecimal (ds : Text) : Prop where
  nonempty : ds ≠ []
  digits : ∀ b ∈ ds, Text.isDigit b = true
  no_zero : ds.head? = some 48 → ds = [48]

theorem IsDecimal.readWhole {ds rest : Text} (h : IsDecimal ds) (hrest : EndsNumber rest) :
    readWhole (ds ++ rest) = .ok (ds, rest) := by
  obtain ⟨b, ds, rfl⟩ := List.exists_cons_of_ne_nil h.nonempty
  by_cases hb : b = 48
  · subst hb
    rw [h.no_zero rfl]
    rfl
  · have hwhole : Json.readWhole (b :: ds ++ rest) = readDigits (b :: ds ++ rest) := by
      rw [List.cons_append, Json.readWhole]
      intro u heq
      exact hb (List.cons.inj heq).1
    rw [hwhole, readDigits_append h.nonempty h.digits hrest]

/-- Such a text is a number, also behind a sign. -/
theorem IsDecimal.isLiteral {ds : Text} (h : IsDecimal ds) :
    IsLiteral ds ∧ IsLiteral (45 :: ds) := by
  constructor
  · obtain ⟨b, u, hds⟩ := List.exists_cons_of_ne_nil h.nonempty
    refine ⟨⟨b, u, hds, .inr (h.digits b (by simp [hds]))⟩, fun rest hrest => ?_⟩
    have hsign : ∀ u, ds ++ rest ≠ 45 :: u := by
      intro u heq
      subst hds
      obtain ⟨rfl, -⟩ := List.cons.inj heq
      exact absurd (h.digits 45 List.mem_cons_self) (by decide)
    unfold readNumber
    split
    rename_i sign u heq
    split at heq
    · rename_i v hv
      exact absurd hv (hsign v)
    · obtain ⟨rfl, rfl⟩ := Prod.mk.inj heq
      simp [h.readWhole hrest, readFraction_of_ends hrest, readExponent_of_ends hrest, bind,
        Except.bind, pure, Except.pure]
  · refine ⟨⟨45, ds, rfl, .inl rfl⟩, fun rest hrest => ?_⟩
    simp [readNumber, h.readWhole hrest, readFraction_of_ends hrest, readExponent_of_ends hrest,
      bind, Except.bind, pure, Except.pure]

/-! ## Integers -/

theorem utf8_ofList_digits {l : List Char} (h : ∀ c ∈ l, c.isDigit = true) :
    utf8 (String.ofList l) = l.map fun c => c.toNat.toUInt8 := by
  rw [Text.utf8_eq_ofCodes, String.toList_ofList, Text.ofCodes]
  induction l with
  | nil => rfl
  | cons c l ih =>
    obtain ⟨hc, hl⟩ := List.forall_mem_cons.1 h
    simp only [Char.isDigit, Bool.and_eq_true, decide_eq_true_eq] at hc
    have hlow : c.toNat < 0x80 := Nat.lt_of_le_of_lt (UInt32.le_iff_toNat_le.1 hc.2) (by decide)
    rw [List.map_cons, List.flatMap_cons, ih hl, encodeRune, if_pos hlow]
    rfl

theorem ofInt_natCast (n : Nat) :
    Text.ofInt n = (Nat.toDigits 10 n).map fun c => c.toNat.toUInt8 := by
  have htext : toString (n : Int) = String.ofList (Nat.toDigits 10 n) := rfl
  rw [Text.ofInt, htext]
  exact utf8_ofList_digits fun c hc => Nat.isDigit_of_mem_toDigits (by decide) (by decide) hc

theorem ofInt_negSucc (n : Nat) : Text.ofInt (Int.negSucc n) = 45 :: Text.ofInt (n + 1 : Nat) := by
  have htext : toString (Int.negSucc n) = "-" ++ toString ((n + 1 : Nat) : Int) := rfl
  rw [Text.ofInt, htext]
  unfold utf8 String.toUTF8
  rw [String.toByteArray_append, ByteArray.data_append, Array.toList_append]
  rfl

theorem head?_toDigits {n : Nat} (h : (Nat.toDigits 10 n).head? = some '0') : n = 0 := by
  induction n using Nat.strongRecOn with
  | ind n ih =>
    rcases Nat.lt_or_ge n 10 with hlt | hle
    · rw [Nat.toDigits_of_lt_base hlt] at h
      have hall : ∀ n < 10, [n.digitChar].head? = some '0' → n = 0 := by decide
      exact hall n hlt h
    · have hne : Nat.toDigits 10 (n / 10) ≠ [] := Nat.toDigits_ne_nil
      rw [Nat.toDigits_of_base_le (by decide) hle, List.head?_append, List.head?_eq_some_head hne,
        Option.some_or, ← List.head?_eq_some_head hne] at h
      have := ih (n / 10) (by omega) h
      omega

theorem isDecimal_ofInt (n : Nat) : IsDecimal (Text.ofInt n) := by
  rw [ofInt_natCast]
  have hdigit : ∀ c ∈ Nat.toDigits 10 n, 48 ≤ c.toNat ∧ c.toNat ≤ 57 := by
    intro c hc
    have hc := Nat.isDigit_of_mem_toDigits (by decide) (by decide) hc
    simp only [Char.isDigit, Bool.and_eq_true, decide_eq_true_eq] at hc
    exact ⟨UInt32.le_iff_toNat_le.1 hc.1, UInt32.le_iff_toNat_le.1 hc.2⟩
  refine ⟨by simp [Nat.toDigits_ne_nil], ?_, fun hhead => ?_⟩
  · intro b hb
    obtain ⟨c, hc, rfl⟩ := List.mem_map.1 hb
    obtain ⟨hlow, hhigh⟩ := hdigit c hc
    simp only [Text.isDigit, Bool.and_eq_true, decide_eq_true_eq, UInt8.le_iff_toNat_le,
      Nat.toUInt8_eq, UInt8.toNat_ofNat']
    simp
    omega
  · have hzero : n = 0 := by
      refine head?_toDigits ?_
      rw [List.head?_map, Option.map_eq_some_iff] at hhead
      obtain ⟨c, hc, heq⟩ := hhead
      obtain ⟨hlow, hhigh⟩ := hdigit c (List.mem_of_head? hc)
      have hcode := congrArg UInt8.toNat heq
      rw [Nat.toUInt8_eq, UInt8.toNat_ofNat', Nat.mod_eq_of_lt (by omega)] at hcode
      rw [hc]
      exact congrArg some (Char.toNat_inj.1 hcode)
    subst hzero
    rfl

/-- An integer is written as a number. -/
theorem isLiteral_ofInt (n : Int) : IsLiteral (Text.ofInt n) := by
  cases n with
  | ofNat n => exact (isDecimal_ofInt n).isLiteral.1
  | negSucc n =>
    rw [ofInt_negSucc]
    exact (isDecimal_ofInt (n + 1)).isLiteral.2

end CodeAudit.Json
