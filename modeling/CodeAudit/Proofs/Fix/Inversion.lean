import CodeAudit.Proofs.Fix.OneLine
import CodeAudit.Proofs.Fix.Settings
import Mathlib.Data.List.Basic

/-!
# Settings that are inverted

The fix of a switch reads the text of every match alone and inverts the last value in it. Read
alone, a match is found again at the end of its text, mostly as a whole; only where a word edge at
its start is not one any more, less of it is found, or nothing. The line that comes back then has no
match exactly when every value was spelled in one of the usual ways, and when a match is not found
again, no line comes back.

**Results.**
* `Switch.exists_turned`: the text of a match, read alone.
* `Turned.seals`, `Turned.piece_new`: what becomes of a match.
* `Switch.flipLast_eq_some`, `flipLast_eq_none`: what becomes of a line.
* `Switch.not_matchesIn_note`: notes hold no settings.
-/
namespace CodeAudit.Builtin

open Pattern

/-! ## Matches read alone -/

/-- What stands behind the last separator of a text. -/
def lastValue (t : Text) : Text :=
  Text.ofRunes (t.runes.reverse.takeWhile fun r => !isSeparator r.code).reverse

/-- The value of a setting is spelled in one of the usual ways. -/
def Spelled (t : Text) : Prop := ∃ s ∈ flipBoolean.switchPairs, utf8 s.1 = lastValue t

instance (t : Text) :
    Decidable (Spelled t) := inferInstanceAs (Decidable (∃ s ∈ flipBoolean.switchPairs, _))

theorem lastValue_eq {t : Text} {us ss vs : List Rune} (ht : t.runes = us ++ (ss ++ vs))
    (hne : ss ≠ [])
    (hss : ∀ c ∈ ss.map Rune.code, isSeparator c = true)
    (hvs : ∀ c ∈ vs.map Rune.code, isSeparator c = false) :
    lastValue t = Text.ofRunes vs := by
  rcases List.eq_nil_or_concat ss with rfl | ⟨ss, r, rfl⟩
  · exact absurd rfl hne
  have hr : isSeparator r.code = true := hss r.code (by simp)
  have hvs : ∀ r ∈ vs.reverse, (!isSeparator r.code) = true := by
    intro r hr
    rw [hvs r.code (List.mem_map_of_mem (List.mem_reverse.1 hr))]
    rfl
  rw [lastValue, ht, List.concat_eq_append, List.reverse_append, List.reverse_append,
    List.reverse_append,
    List.append_assoc, List.takeWhile_append_of_pos hvs, List.reverse_singleton, List.append_assoc,
    List.singleton_append, List.takeWhile_cons_of_neg (by rw [hr]; decide), List.append_nil,
      List.reverse_reverse]

/-- The text `t` of a match, read alone: behind `u` there are a name, separators and a value, and
the value is inverted in `new`. -/
structure Turned (p : Pattern) (k : Letters) (t new : Text) (u ns ss vs : List Rune) : Prop where
  runes : t.runes = u ++ (ns ++ (ss ++ vs))
  setting : Setting k (ns.map Rune.code) (ss.map Rune.code) (vs.map Rune.code)
  found : p.Piece (u.map Rune.code).getLast? ((ns ++ (ss ++ vs)).map Rune.code) none
  alone : u ≠ [] → ¬ p.Piece none t.codes none
  new : new = Text.ofRunes (ns ++ ss) ++ flipBoolean (Text.ofRunes vs)

section

variable {p : Pattern} {k : Letters} (h : Switch p k) {b a : Option Nat} {t : Text}
include h

/-- In the text of a match, read alone, a match is found at the end. -/
theorem Switch.find?_eq_some (hpiece : p.Piece b t.codes a) {m : Match} (hm : p.find? t = some m) :
    ∃ u w : List Rune, t.runes = u ++ w ∧ m.text t = Text.ofRunes w ∧
      p.Piece (u.map Rune.code).getLast? (w.map Rune.code) none ∧
        (u ≠ [] → ¬ p.Piece none t.codes none) := by
  obtain ⟨gap, w, post, hruns, hclear, hfound, hstart, hlen⟩ := find?_eq_some_piece hm
  obtain ⟨n, s, v, hdiv, hset⟩ := h.setting hpiece
  obtain ⟨n₁, s₁, v₁, hdiv₁, hset₁⟩ := h.setting hfound
  -- both settings end with the same value
  have hpost : post = [] := by
    have heq : n ++ (s ++ v) = (gap.map Rune.code ++ n₁) ++ (s₁ ++ (v₁ ++ post.map Rune.code)) := by
      rw [← hdiv, Text.codes, hruns, List.map_append, List.map_append, hdiv₁]
      simp
    obtain ⟨c, v₁', hv₁⟩ := List.exists_cons_of_ne_nil hset₁.value_ne
    obtain ⟨hv, -⟩ := hset.value_eq heq hset₁.sep_ne hset₁.sep
      ⟨c, by rw [hv₁]; rfl, hset₁.value_sep c (by rw [hv₁]; exact List.mem_cons_self)⟩
    have hsame := eq_of_prefixFree shape_switchValue.2.2.1 hset₁.value hset.value ⟨_, hv⟩
    rw [hsame, List.append_right_eq_self, List.map_eq_nil_iff] at hv
    exact hv
  subst hpost
  rw [codeBehind_eq, Option.or_none] at hfound
  refine ⟨gap, w, by rw [hruns, List.append_nil], Match.text_eq hruns hstart hlen, hfound, ?_⟩
  intro hne halone
  refine hclear [] gap rfl hne ⟨gap ++ (w ++ []), [], by simp, ?_⟩
  rwa [← hruns]

theorem Switch.exists_turned (hpiece : p.Piece b t.codes a) {m : Match} (hm : p.find? t = some m) :
    ∃ u ns ss vs, Turned p k t (flipLastToken (m.text t)) u ns ss vs := by
  obtain ⟨u, w, hruns, htext, hfound, halone⟩ := h.find?_eq_some hpiece hm
  obtain ⟨n, s, v, hdiv, hset⟩ := h.setting hfound
  obtain ⟨ns, sv, rfl, rfl, hsv⟩ := List.map_eq_append_iff.1 hdiv
  obtain ⟨ss, vs, rfl, rfl, rfl⟩ := List.map_eq_append_iff.1 hsv
  refine ⟨u, ns, ss, vs, hruns, hset, hfound, halone, ?_⟩
  rcases List.eq_nil_or_concat ss with rfl | ⟨ss, r, rfl⟩
  · exact absurd rfl hset.sep_ne
  · have hsplit : (Text.ofRunes (ns ++ (ss.concat r ++ vs))).runes = ((ns ++ ss) ++ [r]) ++ vs := by
      rw [(Text.runes_split hruns).2]
      simp
    rw [htext, flipLastToken_eq hsplit (hset.sep r.code (by simp)) hset.value,
      List.concat_eq_append, List.append_assoc]

end

/-! ## Inverted values -/

namespace Turned

variable {p : Pattern} {k : Letters} {t new : Text} {u ns ss vs : List Rune}
  (ht : Turned p k t new u ns ss vs)
include ht

theorem runes_value : (Text.ofRunes vs).runes = vs :=
  (Text.runes_split (Text.runes_split (Text.runes_split ht.runes).2).2).2

theorem codes_eq : t.codes = u.map Rune.code ++ (ns ++ (ss ++ vs)).map Rune.code := by
  rw [Text.codes, ht.runes, List.map_append]

theorem lastValue_eq : lastValue t = Text.ofRunes vs := by
  refine Builtin.lastValue_eq (by rw [ht.runes, ← List.append_assoc]) ?_ ht.setting.sep
    ht.setting.value_sep
  exact fun h => ht.setting.sep_ne (by rw [h, List.map_nil])

/-- Whatever becomes of a value, it ends a word. -/
theorem exists_last :
    ∃ c, (flipBoolean (Text.ofRunes vs)).codes.getLast? = some c ∧ isWordCode c = true := by
  have hwords : ∀ {v : List Nat}, v ≠ [] → wordSide v.getLast? = true →
      ∃ c, v.getLast? = some c ∧ isWordCode c = true := by
    intro v hne hlast
    rw [List.getLast?_eq_some_getLast hne] at hlast
    exact ⟨_, List.getLast?_eq_some_getLast hne, hlast⟩
  rcases flipBoolean_cases (Text.ofRunes vs) with ⟨s, hs, -, hflip⟩ | ⟨-, hflip⟩
  · have htable : ∀ s ∈ flipBoolean.switchPairs, Text.codes (utf8 s.2) ≠ [] ∧
        wordSide (Text.codes (utf8 s.2)).getLast? = true := by decide +kernel
    rw [hflip]
    exact hwords (htable s hs).1 (htable s hs).2
  · rw [hflip, Text.codes, ht.runes_value]
    exact hwords ht.setting.value_ne (wordSide_getLast?_value ht.setting.value)

theorem codes_new : new.codes =
    ns.map Rune.code ++ (ss.map Rune.code ++ (flipBoolean (Text.ofRunes vs)).codes) := by
  have hkept : (Text.ofRunes (ns ++ ss)).runes = ns ++ ss := by
    have hruns := ht.runes
    rw [← List.append_assoc ns] at hruns
    exact (Text.runes_split (Text.runes_split hruns).2).1
  -- a separator is ASCII, so the value is read by itself
  have hlast := List.getLast?_eq_some_getLast ht.setting.sep_ne
  obtain ⟨b, hb, hlt⟩ := Text.getLast?_of_codes (t := Text.ofRunes (ns ++ ss))
    (by rw [Text.codes, hkept, List.map_append, List.getLast?_append, hlast, Option.some_or])
    (CodeSet.lt_of_hasCode (by decide) (ht.setting.sep _ (List.getLast_mem ht.setting.sep_ne)))
  rw [ht.new, Text.codes, Text.runes_append_of_getLast? hb hlt, hkept, List.map_append,
    List.map_append, List.append_assoc]
  rfl

variable (h : Switch p k)
include h

theorem standalone : new.Standalone := by
  obtain ⟨c, hc, hword⟩ := ht.exists_last
  obtain ⟨d, n, hn⟩ := List.exists_cons_of_ne_nil ht.setting.name_ne
  have hfirst : CodeSet.hasCode k.first d = true := by
    refine hasCode_of_firstIn h.first ht.found ?_
    rw [List.map_append, hn, List.cons_append, List.head?_cons]
  rw [isWordCode_eq] at hword
  refine Text.standalone_of_codes (c := d) (d := c) ?_ ?_ ?_
    (CodeSet.lt_of_hasCode (by decide) hword)
  · rw [ht.codes_new, hn, List.cons_append, List.head?_cons]
  · rintro rfl
    rw [h.first_read] at hfirst
    cases hfirst
  · rw [ht.codes_new, ← List.append_assoc, List.getLast?_append, hc, Option.some_or]

variable {b a : Option Nat} (hpiece : p.Piece b t.codes a)
include hpiece

theorem inner : u.map Rune.code = [] ∨
    Inner p b (u.map Rune.code) ((ns ++ (ss ++ vs)).map Rune.code) (ns.map Rune.code)
      (ss.map Rune.code) := by
  by_cases hu : u = []
  · exact Or.inl (by rw [hu, List.map_nil])
  · have halone := ht.alone hu
    rw [ht.codes_eq] at hpiece halone
    exact Or.inr (h.inner (by simpa using hu) hpiece halone ht.found (by simp) ht.setting)

theorem alike : Alike t.codes new.codes := by
  obtain ⟨c, hc, hword⟩ := ht.exists_last
  rw [ht.codes_eq, ht.codes_new]
  refine alike_of_setting ht.setting (by simp) (ht.inner h hpiece) (fun hnil => ?_)
    (by rw [hc]; exact hword)
  rw [hnil] at hc
  cases hc

theorem seals (hspelled : Spelled t) : p.Seals b t.codes new.codes := by
  have hinverse : Inverse k (flipBoolean (Text.ofRunes vs)).codes := by
    rcases flipBoolean_cases (Text.ofRunes vs) with ⟨s, hs, hkey, hflip⟩ | ⟨hnone, -⟩
    · rw [hflip]
      refine h.turns s hs ?_
      rw [hkey, Text.codes, ht.runes_value]
      exact ht.setting.codes
    · obtain ⟨s, hs, hkey⟩ := hspelled
      exact absurd (hkey.trans ht.lastValue_eq) (hnone s hs)
  have hinner := ht.inner h hpiece
  rw [ht.codes_eq, ht.codes_new]
  exact h.seals ht.setting (by simp) hinner hinverse

theorem piece_new (hspelled : ¬ Spelled t) : p.Piece b new.codes a := by
  have hkept : flipBoolean (Text.ofRunes vs) = Text.ofRunes vs := by
    rcases flipBoolean_cases (Text.ofRunes vs) with ⟨s, hs, hkey, -⟩ | ⟨-, hflip⟩
    · exact absurd ⟨s, hs, hkey.trans ht.lastValue_eq.symm⟩ hspelled
    · exact hflip
  have hinner := ht.inner h hpiece
  rw [ht.codes_eq] at hpiece
  rw [ht.codes_new, hkept, Text.codes, ht.runes_value, ← List.map_append, ← List.map_append]
  exact h.piece_inner hpiece ht.found hinner

end Turned

/-! ## The fix of a line -/

/-- A match with its value inverted; one that is not found again when it is read alone is kept. -/
def flipMatch (p : Pattern) (t : Text) :
    Text := ((p.find? t).map fun m => flipLastToken (m.text t)).getD t

theorem flipLast_line (p : Pattern) {line : Text} (hline : isNote line = false) (l : Language) :
    flipLast p [line] l =
      (p.replaceBy? (fun t => (p.find? t).map fun m => flipLastToken (m.text t)) line).map
        ([·]) := by
  simp only [flipLast, Fix.replaceWith, mapCode?, List.mapM_cons, List.mapM_nil, hline,
    Bool.false_eq_true, if_false, if_true]
  cases p.replaceBy? (fun t => (p.find? t).map fun m => flipLastToken (m.text t)) line <;> rfl

/-- A match that is not found again when it is read alone makes the fix fail. -/
theorem flipLast_eq_none {p : Pattern} {line : Text} (hline : isNote line = false)
    (l : Language) {m : Match}
    (hm : m ∈ p.findAll line) (hlost : p.matchesIn (m.text line) = false) :
      flipLast p [line] l = none := by
  have hnone : p.find? (m.text line) = none := by simpa [matchesIn] using hlost
  rw [flipLast_line p hline, replaceBy?_eq_none hm (by rw [hnone, Option.map_none]),
    Option.map_none]

section

variable {p : Pattern} {k : Letters} (h : Switch p k) {line : Text}
include h

theorem Switch.cut_turned {cuts : List (List Rune × List Rune)} {rest : List Rune}
    (hcut : p.Cut none line.runes cuts rest)
    (hread : ∀ c ∈ cuts, p.matchesIn (Text.ofRunes c.2) = true) :
    ∀ c ∈ cuts, (Text.ofRunes c.2).codes = c.2.map Rune.code ∧
      ∃ u ns ss vs, Turned p k (Text.ofRunes c.2) (flipMatch p (Text.ofRunes c.2)) u ns ss vs := by
  intro c hc
  have hcodes : (Text.ofRunes c.2).codes = c.2.map Rune.code := by
    rw [Text.codes, hcut.runes_piece c hc]
  obtain ⟨b, a, hpiece⟩ := hcut.exists_piece c hc
  obtain ⟨m, hm⟩ := Option.isSome_iff_exists.1 (hread c hc)
  rw [← hcodes] at hpiece
  refine ⟨hcodes, ?_⟩
  rw [flipMatch, hm]
  exact h.exists_turned hpiece hm

/-- When all matches are found again alone, the fix gives a line; nothing matches in it exactly when
all values were spelled in one of the usual ways. -/
theorem Switch.flipLast_eq_some (hline : isNote line = false) (l : Language)
    (hread : ∀ m ∈ p.findAll line, p.matchesIn (m.text line) = true) :
      ∃ new, flipLast p [line] l = some [new] ∧
      (p.matchesIn new = false ↔ ∀ m ∈ p.findAll line, Spelled (m.text line)) := by
  obtain ⟨cuts, rest, hcut, -, htexts, hreplace⟩ := exists_cut h.solid line
  have hmatches : ∀ P : Text → Prop, (∀ m ∈ p.findAll line, P (m.text line)) ↔
      ∀ c ∈ cuts, P (Text.ofRunes c.2) := by
    intro P
    rw [← List.forall_mem_map (f := fun m : Match => m.text line), htexts, List.forall_mem_map]
  have hturned := h.cut_turned hcut ((hmatches fun t => p.matchesIn t = true).1 hread)
  have hfix : ∀ m ∈ p.findAll line,
      ((p.find? (m.text line)).map fun m' => flipLastToken (m'.text (m.text line))) =
      some (flipMatch p (m.text line)) := by
    intro m hm
    obtain ⟨m', hm'⟩ := Option.isSome_iff_exists.1 (hread m hm)
    rw [flipMatch, hm']
    rfl
  have hends : ∀ c ∈ cuts, (flipMatch p (Text.ofRunes c.2)).Standalone := by
    intro c hc
    obtain ⟨-, u, ns, ss, vs, ht⟩ := hturned c hc
    exact ht.standalone h
  refine ⟨weave (flipMatch p) cuts rest, ?_, ?_⟩
  · rw [flipLast_line p hline, replaceBy?_eq_some hfix, hreplace, Option.map_some]
  rw [hmatches]
  constructor
  · intro hclean c hc
    refine Classical.not_not.1 fun hspelled => ?_
    have hmatch := matchesIn_weave hcut hends h.edged h.solid
      (fun c hc => by
        obtain ⟨hcodes, u, ns, ss, vs, ht⟩ := hturned c hc
        obtain ⟨b, a, hpiece⟩ := hcut.exists_piece c hc
        rw [← hcodes] at hpiece ⊢
        exact ht.alike h hpiece) hc
      (fun hpiece => by
        obtain ⟨hcodes, u, ns, ss, vs, ht⟩ := hturned c hc
        rw [← hcodes] at hpiece
        exact ht.piece_new h hpiece hspelled)
    rw [hclean] at hmatch
    cases hmatch
  · intro hspelled
    refine not_matchesIn_weave hcut hends h.edged h.solid fun c hc b a hpiece => ?_
    obtain ⟨hcodes, u, ns, ss, vs, ht⟩ := hturned c hc
    rw [← hcodes] at hpiece ⊢
    exact ht.seals h hpiece (hspelled c hc)

/-- A match that does not start with a long s is found again when it is read alone. -/
theorem Switch.matchesIn_alone {m : Match} (hm : m ∈ p.findAll line)
    (hfirst : (m.text line).codes.head? ≠ some 0x17F) : p.matchesIn (m.text line) = true := by
  obtain ⟨cuts, rest, hcut, -, htexts, -⟩ := exists_cut h.solid line
  have hmem := List.mem_map_of_mem (f := fun m : Match => m.text line) hm
  rw [htexts] at hmem
  obtain ⟨c, hc, htext⟩ := List.mem_map.1 hmem
  have hcodes : (m.text line).codes = c.2.map Rune.code := by
    rw [← htext, Text.codes, hcut.runes_piece c hc]
  obtain ⟨b, a, hpiece⟩ := hcut.exists_piece c hc
  rw [← hcodes] at hpiece
  rw [matchesIn_iff_occursIn]
  exact ⟨[], (m.text line).codes, [], by simp, h.alone hpiece hfirst⟩

end

/-! ## Notes -/

/-- What switch values start with. -/
def valueFirsts : List (Nat × Nat) :=
  [(48, 49), (70, 70), (79, 79), (84, 84), (102, 102), (111, 111), (116, 116)]

theorem firstIn_switchValue : switchValue.firstIn valueFirsts = true := by decide +kernel

/-- Behind the mark of the setting and a blank there is the value, or another separator. -/
theorem Setting.not_behind_mark {k : Letters} {n s v x y post r : List Nat} {m c : Nat}
    (h : Setting k n s v)
    (hs : s = x ++ m :: y) (hc : isSeparator c = false)
    (hfirst : CodeSet.hasCode valueFirsts c = false) :
    y ++ (v ++ post) ≠ 32 :: c :: r := by
  intro heq
  obtain ⟨d, v', hv⟩ := List.exists_cons_of_ne_nil h.value_ne
  have hd_first := hasCode_of_firstIn firstIn_switchValue h.value (c := d)
    (by rw [hv, List.head?_cons])
  have hd_sep := h.value_sep d (by rw [hv]; exact List.mem_cons_self)
  rw [hv, List.cons_append] at heq
  match y, heq with
  | [], heq =>
    obtain ⟨rfl, -⟩ := List.cons.inj heq
    exact absurd hd_sep (by decide)
  | [_], heq =>
    obtain ⟨-, heq⟩ := List.cons.inj heq
    obtain ⟨rfl, -⟩ := List.cons.inj heq
    rw [hfirst] at hd_first
    cases hd_first
  | _ :: e :: y, heq =>
    obtain ⟨-, heq⟩ := List.cons.inj heq
    obtain ⟨rfl, -⟩ := List.cons.inj heq
    have := h.sep e (by simp [hs])
    rw [hc] at this
    cases this

/-- The only mark in a note is the one behind its first word, and what follows it there is no
value. -/
theorem Switch.not_matchesIn_note {p : Pattern} {k : Letters}
    (h : Switch p k) {c : UInt8} {text : Text}
    (hbytes : ∀ b ∈ noteFrame ++ text, b < 0x80 ∧ CodeSet.hasCode assignMarks b.toNat = false)
    (hhead : text.head? = some c) (hc : isSeparator c.toNat = false)
    (hfirst : CodeSet.hasCode valueFirsts c.toNat = false) (l : Language) (line : Text) :
    p.matchesIn (note l line.indent text) = false := by
  obtain ⟨text, rfl⟩ := List.head?_eq_some_iff.1 hhead
  obtain ⟨pre, post, hnote, hframe⟩ := note_eq l line (c :: text)
  have hword : noteMarker ++ utf8 " " = utf8 "SECURITY" ++ [58, 32] := by decide +kernel
  have hwordBytes : ∀ b ∈ utf8 "SECURITY", b < 0x80 ∧
      CodeSet.hasCode assignMarks b.toNat = false := by
    decide +kernel
  rw [hword] at hnote
  simp only [List.append_assoc, List.cons_append, List.nil_append] at hnote
  rw [← List.append_assoc] at hnote
  have hbefore : ∀ b ∈ pre ++ utf8 "SECURITY", b < 0x80 ∧
      CodeSet.hasCode assignMarks b.toNat = false := by
    intro b hb
    rcases List.mem_append.1 hb with hb | hb
    · exact hbytes b (List.mem_append_left _ (hframe b (List.mem_append_left _ hb)))
    · exact hwordBytes b hb
  have hbehind : ∀ b ∈ 32 :: c :: (text ++ post), b < 0x80 ∧
      CodeSet.hasCode assignMarks b.toNat = false := by
    intro b hb
    rw [List.mem_cons, ← List.cons_append, List.mem_append] at hb
    rcases hb with rfl | hb | hb
    · decide
    · exact hbytes b (List.mem_append_right _ hb)
    · exact hbytes b (List.mem_append_left _ (hframe b (List.mem_append_right _ hb)))
  have hascii : ∀ b ∈ note l line.indent (c :: text), b < 0x80 := by
    intro b hb
    rw [hnote, List.mem_append, List.mem_cons] at hb
    rcases hb with hb | rfl | hb
    · exact (hbefore b hb).1
    · decide
    · exact (hbehind b hb).1
  rw [← Bool.not_eq_true, matchesIn_iff_occursIn, Text.codes_of_ascii hascii, hnote]
  rintro ⟨g, w, rest, hcodes, hpiece⟩
  obtain ⟨n, s, v, rfl, hset⟩ := h.setting hpiece
  obtain ⟨m, hm, hmark⟩ := hset.assigned
  obtain ⟨x, y, hs⟩ := List.append_of_mem hm
  have hno_mark : ∀ {t : Text}, (∀ b ∈ t, b < 0x80 ∧ CodeSet.hasCode assignMarks b.toNat = false) →
      m ∉ t.map UInt8.toNat := by
    intro t ht hmem
    obtain ⟨b, hb, rfl⟩ := List.mem_map.1 hmem
    rw [(ht b hb).2] at hmark
    cases hmark
  have hsplit : g ++ (n ++ (s ++ v) ++ rest) = (g ++ (n ++ x)) ++ m :: (y ++ (v ++ rest)) := by
    rw [hs]
    simp
  rw [hsplit, List.map_append, List.map_cons,
    List.append_cons_inj_of_notMem (hno_mark hbefore) (hno_mark hbehind)] at hcodes
  exact hset.not_behind_mark hs hc hfirst hcodes.2.2.symm

end CodeAudit.Builtin
