import CodeAudit.Fix.Secret
import CodeAudit.Proofs.Pattern.Replacement
import CodeAudit.Proofs.Pattern.Runs
import CodeAudit.Proofs.Text.Lines
import CodeAudit.Proofs.Text.Trimming
import Mathlib.Data.List.Chain

/-!
# Names of environment variables

The name of an environment variable is made from any bytes: camel case is split, every run of other
things than ASCII letters and digits becomes one underscore, the underscores at both ends go, and
letters are put in upper case. What comes out are words with one underscore between each two
(`Text.Snake`), and the letters and digits of the bytes are all that is in the words. A name of this
form is its own name.

**Results.**
* `Text.Snake.exists_words`: the words of a text in snake case.
* `snake_spacedName`, `filter_spacedName`: the name before it is put in upper case, and what it
  keeps of the bytes.
* `envName_words_fixed`: the name of a variable is made of words, and is its own name.
-/
namespace CodeAudit
namespace Text

/-- An ASCII letter or a decimal digit. -/
def isAlphanumeric (b : UInt8) : Bool := (65 ≤ b && b ≤ 90) || (97 ≤ b && b ≤ 122) || isDigit b

/-- An upper-case ASCII letter or a decimal digit. -/
def isUpperAlphanumeric (b : UInt8) : Bool := (65 ≤ b && b ≤ 90) || isDigit b

theorem lt_of_isAlphanumeric {b : UInt8} (h : isAlphanumeric b = true) : b < 0x80 := by
  unfold isAlphanumeric isDigit at h
  grind

theorem isAlphanumeric_of_isUpperAlphanumeric {b : UInt8} (h : isUpperAlphanumeric b = true) :
    isAlphanumeric b = true := by
  rw [isUpperAlphanumeric, Bool.or_eq_true] at h
  rw [isAlphanumeric, Bool.or_eq_true, Bool.or_eq_true]
  exact h.imp_left Or.inl

theorem isUpperAlphanumeric_asciiUpper (b : UInt8) :
    isUpperAlphanumeric (asciiUpper b) = isAlphanumeric b := by
  unfold asciiUpper isAlphanumeric isUpperAlphanumeric isDigit
  grind

theorem asciiUpper_of_isUpperAlphanumeric {b : UInt8} (h : isUpperAlphanumeric b = true) :
    asciiUpper b = b := by
  unfold isUpperAlphanumeric isDigit at h
  unfold asciiUpper
  grind

theorem asciiUpper_eq_underscore {b : UInt8} : asciiUpper b = 95 ↔ b = 95 := by
  unfold asciiUpper
  grind

/-! ## Snake case -/

/-- No two underscores stand next to each other. -/
def Apart (t : Text) : Prop := t.IsChain fun a b => a = 95 → b ≠ 95

/-- Bytes that `f` accepts, with single underscores in between. -/
structure Snake (f : UInt8 → Bool) (t : Text) : Prop where
  bytes : ∀ b ∈ t, f b = true ∨ b = 95
  apart : t.Apart
  head_ne : t.head? ≠ some 95
  last_ne : t.getLast? ≠ some 95

theorem mem_join_of_mem {sep w : Text} {ws : List Text} (hw : w ∈ ws) {b : UInt8} (hb : b ∈ w) :
    b ∈ join sep ws := by
  induction ws with
  | nil => cases hw
  | cons x ws ih =>
    by_cases hne : ws = []
    · subst hne
      rw [List.mem_singleton.1 hw] at hb
      exact hb
    · rw [join_cons_of_ne_nil sep x hne, List.append_assoc, List.mem_append, List.mem_append]
      rcases List.mem_cons.1 hw with rfl | hw
      · exact Or.inl hb
      · exact Or.inr (Or.inr (ih hw))

theorem exists_splitOn_cons {sep b : UInt8} (hb : b ≠ sep) (t : Text) :
    ∃ l ls, splitOn sep t = l :: ls ∧ splitOn sep (b :: t) = (b :: l) :: ls := by
  obtain ⟨l, ls, hs⟩ := List.exists_cons_of_ne_nil (splitOn_ne_nil sep t)
  exact ⟨l, ls, hs, by rw [splitOn, if_neg hb, hs]⟩

/-- Behind the first underscore no piece is empty, unless two underscores meet or the text ends with
one. -/
theorem ne_nil_of_mem_tail_splitOn {t : Text} (h : t.Apart) (hlast : t.getLast? ≠ some 95) :
    ∀ w ∈ (splitOn 95 t).tail, w ≠ [] := by
  induction t with
  | nil => simp [splitOn]
  | cons b t ih =>
    obtain ⟨hnext, ht⟩ := List.isChain_cons.1 h
    by_cases hb : b = 95
    · subst hb
      cases t with
      | nil => exact absurd rfl hlast
      | cons c t =>
        obtain ⟨l, ls, -, hs⟩ := exists_splitOn_cons (hnext c rfl rfl) t
        have htail := ih ht hlast
        rw [splitOn, if_pos rfl, List.tail_cons]
        rw [hs] at htail ⊢
        exact List.forall_mem_cons.2 ⟨List.cons_ne_nil c l, htail⟩
    · obtain ⟨l, ls, hs, hsb⟩ := exists_splitOn_cons hb t
      have htail := ih ht (by cases t <;> simp_all)
      rw [hs] at htail
      rw [hsb]
      exact htail

namespace Snake

variable {f : UInt8 → Bool} {t : Text}

theorem ne_nil_of_mem_splitOn (h : t.Snake f) (hne : t ≠ []) : ∀ w ∈ splitOn 95 t, w ≠ [] := by
  obtain ⟨b, t, rfl⟩ := List.exists_cons_of_ne_nil hne
  have hb : b ≠ 95 := fun hb => h.head_ne (by rw [hb]; rfl)
  obtain ⟨l, ls, -, hs⟩ := exists_splitOn_cons hb t
  have htail := ne_nil_of_mem_tail_splitOn h.apart h.last_ne
  rw [hs] at htail ⊢
  exact List.forall_mem_cons.2 ⟨List.cons_ne_nil b l, htail⟩

/-- The words of a text in snake case. -/
theorem exists_words (h : t.Snake f) (hne : t ≠ []) : ∃ words : List Text, words ≠ [] ∧
    (∀ w ∈ words, w ≠ [] ∧ ∀ b ∈ w, f b = true) ∧ t = join "_" words := by
  refine ⟨splitOn 95 t, splitOn_ne_nil 95 t, fun w hw =>
    ⟨h.ne_nil_of_mem_splitOn hne w hw, fun b hb => ?_⟩, (join_splitOn 95 t).symm⟩
  have hmem : b ∈ join [95] (splitOn 95 t) := mem_join_of_mem hw hb
  rw [join_splitOn] at hmem
  rcases h.bytes b hmem with hf | rfl
  · exact hf
  · exact absurd hb (sep_not_mem_splitOn 95 t w hw)

theorem map_asciiUpper (h : t.Snake isAlphanumeric) :
    Snake isUpperAlphanumeric (t.map asciiUpper) where
  bytes := by
    intro b hb
    obtain ⟨c, hc, rfl⟩ := List.mem_map.1 hb
    rw [isUpperAlphanumeric_asciiUpper, asciiUpper_eq_underscore]
    exact h.bytes c hc
  apart := by
    unfold Apart
    rw [List.isChain_map]
    exact h.apart.imp fun a b hab => by rwa [asciiUpper_eq_underscore, Ne, asciiUpper_eq_underscore]
  head_ne := by
    rw [List.head?_map]
    intro hhead
    obtain ⟨b, hb, hupper⟩ := Option.map_eq_some_iff.1 hhead
    exact h.head_ne (by rw [hb, asciiUpper_eq_underscore.1 hupper])
  last_ne := by
    rw [List.getLast?_map]
    intro hlast
    obtain ⟨b, hb, hupper⟩ := Option.map_eq_some_iff.1 hlast
    exact h.last_ne (by rw [hb, asciiUpper_eq_underscore.1 hupper])

/-- The bytes of the words are those that are accepted. -/
theorem filter_eq (h : t.Snake f) (hf : f 95 = false) : t.filter (· != 95) = t.filter f := by
  refine List.filter_congr fun b hb => ?_
  rcases h.bytes b hb with hfb | rfl
  · have hne : b ≠ 95 := by
      rintro rfl
      exact absurd hfb (by simp [hf])
    simp [hfb, hne]
  · simp [hf]

end Snake

/-! ## Underscores at both ends -/

/-- The text without the underscores at its ends. -/
def trimUnderscores (t : Text) : Text := trimRightBytes (· == 95) (trimLeftBytes (· == 95) t)

theorem dropWhile_eq_self {t : Text} (h : t.head? ≠ some 95) : t.dropWhile (· == 95) = t := by
  cases t with
  | nil => rfl
  | cons b t =>
    have hb : b ≠ 95 := fun hb => h (by rw [hb]; rfl)
    rw [List.dropWhile_cons_of_neg (by simpa using hb)]

theorem trimUnderscores_eq (t : Text) :
    trimUnderscores t = (t.dropWhile (· == 95)).rdropWhile (· == 95) := rfl

theorem trimUnderscores_isInfix (t : Text) : trimUnderscores t <:+: t := by
  rw [trimUnderscores_eq]
  exact (List.rdropWhile_prefix _ _).isInfix.trans (List.dropWhile_suffix _).isInfix

theorem snake_trimUnderscores {f : UInt8 → Bool} {t : Text} (hbytes : ∀ b ∈ t, f b = true ∨ b = 95)
    (happart : t.Apart) : (trimUnderscores t).Snake f where
  bytes b hb := hbytes b ((trimUnderscores_isInfix t).subset hb)
  apart := happart.infix (trimUnderscores_isInfix t)
  head_ne := by
    intro hhead
    rw [trimUnderscores_eq] at hhead
    exact absurd (not_of_head?_trimmed hhead) (by decide)
  last_ne := by
    intro hlast
    rw [trimUnderscores_eq] at hlast
    exact absurd (not_of_getLast?_trimmed hlast) (by decide)

theorem Snake.trimUnderscores_eq_self {f : UInt8 → Bool} {t : Text} (h : t.Snake f) :
    trimUnderscores t = t := by
  have hlast : t.reverse.head? ≠ some 95 := by
    rw [List.head?_reverse]
    exact h.last_ne
  rw [trimUnderscores, trimLeftBytes, dropWhile_eq_self h.head_ne, trimRightBytes,
    dropWhile_eq_self hlast, List.reverse_reverse]

theorem filter_dropWhile {p q : UInt8 → Bool} (h : ∀ b, p b = true → q b = false) (t : Text) :
    (t.dropWhile p).filter q = t.filter q := by
  have hfront : (t.takeWhile p).filter q = [] := by
    rw [List.filter_eq_nil_iff]
    intro b hb
    simp [h b (List.mem_takeWhile_imp hb)]
  conv_rhs => rw [← List.takeWhile_append_dropWhile (p := p) (l := t), List.filter_append, hfront]
  rfl

theorem filter_trimUnderscores {q : UInt8 → Bool} (hq : q 95 = false) (t : Text) :
    (trimUnderscores t).filter q = t.filter q := by
  have hskip : ∀ b : UInt8, (b == 95) = true → q b = false := by
    intro b hb
    rw [beq_iff_eq.1 hb, hq]
  rw [trimUnderscores, trimRightBytes, List.filter_reverse, filter_dropWhile hskip,
    List.filter_reverse, List.reverse_reverse, trimLeftBytes, filter_dropWhile hskip]

end Text

open Text

/-! ## Letters, digits and the rest -/

/-- The code points that are no ASCII letters or digits. -/
def otherCodes : CodeSet := ⟨true, [(65, 90), (97, 122), (48, 57)]⟩

theorem notAlphanumeric_eq : notAlphanumeric = .oneOrMore otherCodes := by
  decide +kernel

theorem contains_otherCodes (b : UInt8) : otherCodes.contains b.toNat = !isAlphanumeric b := by
  simp only [otherCodes, CodeSet.contains, isAlphanumeric, isDigit, UInt8.le_iff_toNat_le,
    List.any_cons, List.any_nil, Bool.or_false, Bool.bne_true, UInt8.reduceToNat, Bool.or_assoc]

theorem lt_of_not_otherCodes {c : Nat} (h : otherCodes.contains c = false) : c < 0x80 := by
  simp [otherCodes, CodeSet.contains] at h
  omega

/-- A rune is an ASCII letter or digit, or has none of these among its bytes. -/
inductive Rune.LetterOrOther : Rune → Prop where
  | letter {b : UInt8} (hb : isAlphanumeric b = true) : LetterOrOther ⟨b.toNat, [b]⟩
  | other {r : Rune} (hcode : otherCodes.contains r.code = true)
    (hraw : ∀ b ∈ r.raw, isAlphanumeric b = false) :
      LetterOrOther r

theorem Text.letterOrOther_of_mem_runes {t : Text} {r : Rune} (hr : r ∈ t.runes) :
    r.LetterOrOther := by
  cases hcode : otherCodes.contains r.code with
  | false =>
    obtain ⟨b, -, rfl⟩ := eq_of_code_lt hr (lt_of_not_otherCodes hcode)
    rw [contains_otherCodes, Bool.not_eq_false'] at hcode
    exact .letter hcode
  | true =>
    refine .other hcode fun b hb => ?_
    rw [← Bool.not_eq_true]
    intro halpha
    rw [eq_of_mem_raw hr (lt_of_isAlphanumeric halpha) hb, contains_otherCodes, halpha] at hcode
    cases hcode

theorem filter_eq_nil {t : Text} (h : ∀ b ∈ t, isAlphanumeric b = false) :
    t.filter isAlphanumeric = [] := by
  rw [List.filter_eq_nil_iff]
  intro b hb
  rw [h b hb]
  exact Bool.false_ne_true

/-- A code point is written with the letters and digits it was read from. -/
theorem Rune.LetterOrOther.filter_encodeRune {r : Rune} (h : r.LetterOrOther) :
    (encodeRune r.code).filter isAlphanumeric = r.raw.filter isAlphanumeric := by
  cases h with
  | letter hb => rw [encodeRune_toNat (lt_of_isAlphanumeric hb)]
  | other hcode hraw =>
    rw [filter_eq_nil hraw]
    refine filter_eq_nil fun b hb => ?_
    rw [← Bool.not_eq_true]
    intro halpha
    rw [← toNat_of_mem_encodeRune hb (lt_of_isAlphanumeric halpha), contains_otherCodes, halpha]
      at hcode
    cases hcode

section

variable {rs : List Rune} (hrs : ∀ r ∈ rs, r.LetterOrOther)
include hrs

theorem filter_splitCamel (prev : Option UInt8) :
    (splitCamel prev rs).filter isAlphanumeric = (ofRunes rs).filter isAlphanumeric := by
  induction rs generalizing prev with
  | nil => rfl
  | cons r rs ih =>
    obtain ⟨hr, hrest⟩ := List.forall_mem_cons.1 hrs
    have hgap : ∀ c : Prop, [Decidable c] → (if c then [95] else [] : Text).filter isAlphanumeric =
        [] := by
      intro c _
      split <;> rfl
    rw [splitCamel, List.filter_append, List.filter_append, hgap, ih hrest, hr.filter_encodeRune,
      ofRunes_cons, List.filter_append, List.nil_append]

/-- Runs become one underscore each: what is left are letters and digits with single underscores in
between. -/
theorem apart_collapse (inside : Bool) : (Pattern.collapse otherCodes [95] inside rs).Apart ∧
    (∀ b ∈ Pattern.collapse otherCodes [95] inside rs, isAlphanumeric b = true ∨ b = 95) ∧
    (inside = true → (Pattern.collapse otherCodes [95] inside rs).head? ≠ some 95) := by
  induction rs generalizing inside with
  | nil => exact ⟨List.isChain_nil, by simp [Pattern.collapse], by simp [Pattern.collapse]⟩
  | cons r rs ih =>
    obtain ⟨hr, hrest⟩ := List.forall_mem_cons.1 hrs
    cases hr with
    | @letter b hb =>
      obtain ⟨hapart, hbytes, -⟩ := ih hrest false
      have hne : b ≠ 95 := by
        rintro rfl
        cases hb
      rw [Pattern.collapse_cons_of_not_contains (by rw [contains_otherCodes, hb]; rfl),
        List.singleton_append]
      refine ⟨List.isChain_cons.2 ⟨fun _ _ h => absurd h hne, hapart⟩,
        List.forall_mem_cons.2 ⟨Or.inl hb, hbytes⟩, fun _ h => hne (Option.some.inj h)⟩
    | other hcode _ =>
      obtain ⟨hapart, hbytes, hhead⟩ := ih hrest true
      rw [Pattern.collapse_cons_of_contains hcode]
      cases inside with
      | true => exact ⟨hapart, hbytes, hhead⟩
      | false =>
        refine ⟨List.isChain_cons.2 ⟨?_, hapart⟩,
          List.forall_mem_cons.2 ⟨Or.inr rfl, hbytes⟩, by simp⟩
        rintro c hc - rfl
        exact hhead rfl hc

theorem filter_collapse (inside : Bool) :
    (Pattern.collapse otherCodes [95] inside rs).filter isAlphanumeric =
      (ofRunes rs).filter isAlphanumeric := by
  induction rs generalizing inside with
  | nil => rfl
  | cons r rs ih =>
    obtain ⟨hr, hrest⟩ := List.forall_mem_cons.1 hrs
    rw [ofRunes_cons, List.filter_append]
    cases hr with
    | @letter b hb =>
      rw [Pattern.collapse_cons_of_not_contains (by rw [contains_otherCodes, hb]; rfl),
        List.filter_append, ih hrest]
    | other hcode hraw =>
      rw [Pattern.collapse_cons_of_contains hcode, List.filter_append, ih hrest, filter_eq_nil hraw]
      cases inside <;> rfl

end

/-! ## The name of a variable -/

/-- The name of a variable before it is put in upper case; empty when there are no letters or
digits. -/
def spacedName (key : Text) : Text :=
  trimUnderscores (Pattern.collapse otherCodes [95] false (splitCamel none key.runes).runes)

theorem envName_eq (key : Text) : envName key =
    if (spacedName key).isEmpty then utf8 "SECRET" else (spacedName key).map asciiUpper := by
  have hreplace : notAlphanumeric.replaceAll [.text 95] (splitCamel none key.runes) =
      Pattern.collapse otherCodes [95] false (splitCamel none key.runes).runes := by
    rw [notAlphanumeric_eq, ← Pattern.replaceBy_oneOrMore]
    exact Pattern.replaceAll_text _ [95] _
  unfold envName
  rw [hreplace]
  rfl

theorem snake_spacedName (key : Text) : (spacedName key).Snake isAlphanumeric := by
  obtain ⟨hapart, hbytes, -⟩ :=
    apart_collapse (fun _ => letterOrOther_of_mem_runes (t := splitCamel none key.runes)) false
  exact snake_trimUnderscores hbytes hapart

theorem filter_spacedName (key : Text) :
    (spacedName key).filter isAlphanumeric = key.filter isAlphanumeric := by
  rw [spacedName, filter_trimUnderscores rfl, filter_collapse fun _ => letterOrOther_of_mem_runes,
    ofRunes_runes, filter_splitCamel fun _ => letterOrOther_of_mem_runes, ofRunes_runes]

theorem spacedName_eq_nil_iff (key : Text) :
    spacedName key = [] ↔ key.any isAlphanumeric = false := by
  have hnil : key.filter isAlphanumeric = [] ↔ key.any isAlphanumeric = false := by
    rw [List.filter_eq_nil_iff, List.any_eq_false]
  rw [← hnil, ← filter_spacedName]
  constructor
  · intro h
    rw [h]
    rfl
  · intro h
    cases hname : spacedName key with
    | nil => rfl
    | cons b t =>
      -- the first byte is no underscore
      have hsnake := snake_spacedName key
      rw [hname] at h hsnake
      rcases hsnake.bytes b List.mem_cons_self with hb | rfl
      · rw [List.filter_cons_of_pos hb] at h
        cases h
      · exact absurd rfl hsnake.head_ne

theorem snake_envName (key : Text) :
    envName key ≠ [] ∧ (envName key).Snake isUpperAlphanumeric := by
  rw [envName_eq]
  split
  · have hbytes : (utf8 "SECRET").all isUpperAlphanumeric = true := by decide
    have hapart : (utf8 "SECRET").IsChain fun a b => a = 95 → b ≠ 95 := by decide
    exact ⟨by decide, fun b hb => Or.inl (List.all_eq_true.1 hbytes b hb),
      hapart, by decide, by decide⟩
  · rename_i hne
    exact ⟨by simpa using hne, (snake_spacedName key).map_asciiUpper⟩

/-- The words of a name have the letters and digits of the bytes it is made from. -/
theorem filter_envName (key : Text) : (envName key).filter (· != 95) =
    if key.any isAlphanumeric then (key.filter isAlphanumeric).map asciiUpper
      else utf8 "SECRET" := by
  rw [envName_eq]
  by_cases hnil : spacedName key = []
  · rw [hnil, (spacedName_eq_nil_iff key).1 hnil, if_pos List.isEmpty_nil,
      if_neg Bool.false_ne_true]
    decide
  · have hany : key.any isAlphanumeric = true := by
      rw [← Bool.not_eq_false]
      exact mt (spacedName_eq_nil_iff key).2 hnil
    have hsnake := snake_spacedName key
    rw [if_neg (by simpa using hnil), if_pos hany, hsnake.map_asciiUpper.filter_eq rfl,
      List.filter_map, ← filter_spacedName]
    congr 1
    exact List.filter_congr fun b _ => isUpperAlphanumeric_asciiUpper b

/-! ## Names of this form -/

section

variable {t : Text}

theorem splitCamel_eq_self (h : ∀ b ∈ t, isUpperAlphanumeric b = true ∨ b = 95)
    {prev : Option UInt8}
    (hprev : ∀ b ∈ prev, isUpperAlphanumeric b = true ∨ b = 95) : splitCamel prev t.runes = t := by
  have hlower : ∀ b : UInt8, isUpperAlphanumeric b = true ∨ b = 95 → b < 0x80 ∧
      (97 ≤ b && b ≤ 122) = false := by
    unfold isUpperAlphanumeric isDigit
    grind
  induction t generalizing prev with
  | nil => rfl
  | cons b t ih =>
    obtain ⟨hb, ht⟩ := List.forall_mem_cons.1 h
    have hgap : prev.any (fun b => 97 ≤ b && b ≤ 122) = false := by
      cases prev with
      | none => rfl
      | some c => exact (hlower c (hprev c rfl)).2
    rw [runes_ascii_cons (hlower b hb).1, splitCamel, hgap, Bool.and_false,
      encodeRune_toNat (hlower b hb).1, ih ht]
    · rfl
    · simpa using hb

theorem collapse_eq_self (hbytes : ∀ b ∈ t, isAlphanumeric b = true ∨ b = 95)
    (happart : t.Apart) {inside : Bool}
    (hinside : inside = true → t.head? ≠ some 95) :
      Pattern.collapse otherCodes [95] inside t.runes = t := by
  induction t generalizing inside with
  | nil => rfl
  | cons b t ih =>
    obtain ⟨hb, ht⟩ := List.forall_mem_cons.1 hbytes
    obtain ⟨hnext, hrest⟩ := List.isChain_cons.1 happart
    rcases hb with hb | rfl
    · rw [runes_ascii_cons (lt_of_isAlphanumeric hb),
        Pattern.collapse_cons_of_not_contains (by rw [contains_otherCodes, hb]; rfl),
          ih ht hrest (by simp)]
      rfl
    · cases inside with
      | true => exact absurd rfl (hinside rfl)
      | false =>
        rw [runes_ascii_cons (by decide), Pattern.collapse_cons_of_contains (by decide),
          ih ht hrest fun _ hhead => hnext 95 hhead rfl rfl]
        rfl

theorem Text.Snake.spacedName_eq (h : t.Snake isUpperAlphanumeric) : spacedName t = t := by
  have hbytes : ∀ b ∈ t, isAlphanumeric b = true ∨ b = 95 := fun b hb =>
    (h.bytes b hb).imp_left isAlphanumeric_of_isUpperAlphanumeric
  rw [spacedName, splitCamel_eq_self h.bytes (by simp), collapse_eq_self hbytes h.apart (by simp),
    h.trimUnderscores_eq_self]

/-- Words in upper case with underscores between them are their own name. -/
theorem Text.Snake.envName_eq_self (h : t.Snake isUpperAlphanumeric) (hne : t ≠ []) :
    envName t = t := by
  have hupper : t.map asciiUpper = t := by
    refine (List.map_congr_left fun b hb => ?_).trans (List.map_id t)
    rcases h.bytes b hb with hb | rfl
    · exact asciiUpper_of_isUpperAlphanumeric hb
    · rfl
  rw [envName_eq, h.spacedName_eq, if_neg (by simpa using hne), hupper]

end

/-- **Names.** Whatever the bytes, the name of the variable is made of words of upper-case letters
and digits with one underscore between each two, the name of a name is that name, and the words have
all the letters and digits of the bytes, in order. -/
theorem envName_words_fixed (key : Text) :
    (∃ words : List Text, words ≠ [] ∧
      (∀ w ∈ words, w ≠ [] ∧ ∀ b ∈ w, isUpperAlphanumeric b = true) ∧
      envName key = join "_" words) ∧
    envName (envName key) = envName key ∧
    (envName key).filter (· != 95) =
      if key.any isAlphanumeric then (key.filter isAlphanumeric).map asciiUpper else "SECRET" := by
  obtain ⟨hne, hsnake⟩ := snake_envName key
  exact ⟨hsnake.exists_words hne, hsnake.envName_eq_self hne, filter_envName key⟩

example : envName "db.apiKey--v2" = utf8 "DB_API_KEY_V2" := by decide +kernel

end CodeAudit
