import CodeAudit.Proofs.Text.Runes
import CodeAudit.Text.Blank
import Mathlib.Data.List.DropRight

/-!
# Trimmed texts

Trimming takes a text apart: white space, the trimmed text, white space. `Trims` says what the parts
are, rune by rune, and trimming is described by it. White space that is added to a text or left out
of it changes only the parts around the trimmed text.

**Results.**
* `not_of_head?_trimmed`, `not_of_getLast?_trimmed`: what a trimmed list neither starts nor ends
  with.
* `exists_trims`, `Trims.trim_eq`: every text is taken apart, and its middle is the trimmed text.
* `trim_trim`, `trim_blank_cons`: trimming again, and trimming with more white space in front.
* `isBlank_of_mem_isBlankText`: which ASCII bytes white space has.
-/
namespace CodeAudit
namespace Text

/-! ## The ends of a trimmed list -/

section
variable {α : Type} {p : α → Bool} {l : List α} {x : α}

theorem not_of_getLast?_trimmed (h : (l.rdropWhile p).getLast? = some x) : p x = false := by
  rw [List.rdropWhile, List.getLast?_reverse] at h
  have hnot := List.head?_dropWhile_not p l.reverse
  rw [h] at hnot
  exact hnot

theorem not_of_head?_trimmed (h : ((l.dropWhile p).rdropWhile p).head? = some x) : p x = false := by
  -- what is left is a beginning of what was left before its end was trimmed
  obtain ⟨more, hmore⟩ := List.rdropWhile_prefix p (l.dropWhile p)
  have hhead : (l.dropWhile p).head? = some x := by
    rw [← hmore, List.head?_append, h, Option.some_or]
  have hnot := List.head?_dropWhile_not p l
  rw [hhead] at hnot
  exact hnot

end

/-! ## Trimming a text -/

/-- A text is made of white space, a text that neither starts nor ends with white space, and white
space. -/
structure Trims (t lead core trail : Text) : Prop where
  runes_eq : t.runes = lead.runes ++ (core.runes ++ trail.runes)
  lead_blank : lead.isBlankText = true
  trail_blank : trail.isBlankText = true
  head_not_blank : ∀ r, core.runes.head? = some r → blankRune r = false
  last_not_blank : ∀ r, core.runes.getLast? = some r → blankRune r = false

theorem eq_append_of_runes {t a b c : Text} (h : t.runes = a.runes ++ (b.runes ++ c.runes)) :
    t = a ++ (b ++ c) := by
  have := congrArg ofRunes h
  rwa [ofRunes_append, ofRunes_append, ofRunes_runes, ofRunes_runes, ofRunes_runes, ofRunes_runes]
    at this

theorem Trims.text_eq {t lead core trail : Text} (h : Trims t lead core trail) :
    t = lead ++ (core ++ trail) :=
  eq_append_of_runes h.runes_eq

theorem trim_eq_ofRunes (t : Text) :
    trim t = ofRunes ((t.runes.dropWhile blankRune).rdropWhile blankRune) := rfl

theorem exists_trims (t : Text) : ∃ lead trail, Trims t lead (trim t) trail := by
  have hsplit : t.runes = t.runes.takeWhile blankRune ++
      ((t.runes.dropWhile blankRune).rdropWhile blankRune ++
      (t.runes.dropWhile blankRune).rtakeWhile blankRune) := by
    rw [List.rdropWhile_append_rtakeWhile, List.takeWhile_append_dropWhile]
  obtain ⟨hlead, hrest⟩ := runes_split hsplit
  obtain ⟨hcore, htrail⟩ := runes_split hrest
  refine ⟨ofRunes (t.runes.takeWhile blankRune),
    ofRunes ((t.runes.dropWhile blankRune).rtakeWhile blankRune), ?_⟩
  rw [trim_eq_ofRunes]
  refine ⟨by rw [hlead, hcore, htrail, ← hsplit], ?_, ?_, ?_, ?_⟩
  · rw [isBlankText, hlead, List.all_eq_true]
    exact fun r hr => List.mem_takeWhile_imp hr
  · rw [isBlankText, htrail, List.all_eq_true]
    exact fun r hr => List.mem_rtakeWhile_imp hr
  · intro r hr
    rw [hcore] at hr
    exact not_of_head?_trimmed hr
  · intro r hr
    rw [hcore] at hr
    exact not_of_getLast?_trimmed hr

/-- However a text is taken apart, its middle is the trimmed text. -/
theorem Trims.trim_eq {t lead core trail : Text} (h : Trims t lead core trail) : trim t = core := by
  have hlead := List.all_eq_true.1 h.lead_blank
  have htrail := List.all_eq_true.1 h.trail_blank
  rw [trim_eq_ofRunes, h.runes_eq, List.dropWhile_append_of_pos hlead]
  cases hcore : core.runes with
  | nil =>
    have hcore : core = [] := by rw [← ofRunes_runes core, hcore, ofRunes_nil]
    rw [List.nil_append, List.dropWhile_eq_nil_iff.2 htrail, List.rdropWhile_nil,
      ofRunes_nil, hcore]
  | cons r rs =>
    have hfirst : ¬ blankRune r = true := by
      rw [h.head_not_blank r (by rw [hcore]; rfl)]
      decide
    have hlast : core.runes.rdropWhile blankRune = core.runes := by
      rw [List.rdropWhile_eq_self_iff]
      intro hne
      rw [h.last_not_blank _ (List.getLast?_eq_some_getLast hne)]
      decide
    have hdrop : (core.runes ++ trail.runes).rdropWhile blankRune =
        core.runes.rdropWhile blankRune := by
      rw [List.rdropWhile, List.rdropWhile, List.reverse_append,
        List.dropWhile_append_of_pos fun r hr => htrail r (List.mem_reverse.1 hr)]
    rw [List.cons_append, List.dropWhile_cons_of_neg hfirst, ← List.cons_append, ← hcore, hdrop,
      hlast, ofRunes_runes]

theorem trim_trim (t : Text) : trim (trim t) = trim t := by
  obtain ⟨lead, trail, h⟩ := exists_trims t
  have hagain : Trims (trim t) [] (trim t) [] :=
    ⟨by simp [runes, runesFrom], rfl, rfl, h.head_not_blank, h.last_not_blank⟩
  exact hagain.trim_eq

theorem trim_blank_cons {b : UInt8} (hb : b < 0x80) (hblank : isBlank b.toNat = true) (t : Text) :
    trim (b :: t) = trim t := by
  obtain ⟨lead, trail, h⟩ := exists_trims t
  have hmore : Trims (b :: t) (b :: lead) (trim t) trail :=
    ⟨by rw [runes_ascii_cons hb, runes_ascii_cons hb, h.runes_eq, List.cons_append],
      by
        rw [isBlankText, runes_ascii_cons hb, List.all_cons, Bool.and_eq_true]
        exact ⟨hblank, h.lead_blank⟩,
      h.trail_blank, h.head_not_blank, h.last_not_blank⟩
  exact hmore.trim_eq

/-- The ASCII bytes of white space are white space themselves. -/
theorem isBlank_of_mem_isBlankText {t : Text} (h : t.isBlankText = true) {b : UInt8} (hb : b ∈ t)
    (hascii : b < 0x80) :
    isBlank b.toNat = true := by
  rw [← ofRunes_runes t] at hb
  obtain ⟨r, hr, hbr⟩ := List.mem_flatMap.1 hb
  have hblank := List.all_eq_true.1 h r hr
  rwa [eq_of_mem_raw hr hascii hbr] at hblank

end Text
end CodeAudit
