import CodeAudit.Fix.Basic
import CodeAudit.Proofs.Pattern.Replacement

/-!
# Fixes of a single line

A rule that finds fault with one line gives its fix that line alone. What comes back is the line as
it was, or the new line with a note above it. A note is made of its text, of blanks and of a few
fixed marks, so a pattern that asks for some other code point does not match there.

**Results.**
* `Fix.withNote_line`: the lines that come back.
* `Pattern.not_matchesIn_note`: patterns that no note of a fix matches.
-/
namespace CodeAudit

namespace Fix

theorem replace_line (p : Pattern) (w : Template) (line : Text) (l : Language) :
    replace p w [line] l = some [if isNote line then line else p.replaceAll w line] := rfl

theorem annotate_line (text new : Text) (l : Language) :
    annotate text [new] l = some (if isNote new then [new] else [note l new.indent text, new]) := by
  unfold annotate
  cases h : isNote new <;> simp [splitAtCode?, h]

theorem withNote_line (text : Text) {line new : Text} {fix : Fix} {l : Language}
    (h : fix [line] l = some [new]) :
    ∃ out, withNote text fix [line] l = some out ∧ new ∈ out ∧
      ∀ x ∈ out, x = new ∨ x = note l new.indent text := by
  unfold withNote
  rw [h, Option.bind_some]
  split
  · rename_i hsame
    exact ⟨_, rfl, by simp [← hsame], by simp [← hsame]⟩
  · refine ⟨_, annotate_line text new l, ?_⟩
    split
    · simp
    · simp

/-- A line that the fix gives back stays without a note. -/
theorem withNote_line_of_eq {text line : Text} {fix : Fix} {l : Language}
    (h : fix [line] l = some [line]) :
    withNote text fix [line] l = some [line] := by
  simp [withNote, h]

end Fix

/-! ## Notes -/

/-- The bytes around the marker and the text of a note: blanks, and what opens and closes
comments. -/
def noteFrame : Text := " \t#/*<!-->"

theorem mem_noteFrame_of_indent {line : Text} {b : UInt8} (hb : b ∈ line.indent) :
    b ∈ noteFrame := by
  have hblank : Text.isSpaceOrTab b = true := by
    induction line with
    | nil => cases hb
    | cons a t ih =>
      rw [Text.indent, List.takeWhile_cons] at hb
      split at hb
      · rename_i ha
        rcases List.mem_cons.1 hb with rfl | hb
        · exact ha
        · exact ih hb
      · cases hb
  rw [Text.isSpaceOrTab, Bool.or_eq_true, beq_iff_eq, beq_iff_eq] at hblank
  rcases hblank with rfl | rfl <;> decide +kernel

theorem comment_eq (l : Language) (t : Text) :
    ∃ pre post, l.comment t = pre ++ (t ++ post) ∧ ∀ b ∈ pre ++ post, b ∈ noteFrame := by
  unfold Language.comment
  split
  · exact ⟨"<!-- ", " -->", List.append_assoc .., by decide +kernel⟩
  · exact ⟨"/* ", " */", List.append_assoc .., by decide +kernel⟩
  · refine ⟨l.commentOpener ++ " ", [], by rw [List.append_nil], ?_⟩
    unfold Language.commentOpener
    split <;> decide +kernel

theorem note_eq (l : Language) (line text : Text) : ∃ pre post,
    note l line.indent text = pre ++ (noteMarker ++ " " ++ text ++ post) ∧
      ∀ b ∈ pre ++ post, b ∈ noteFrame := by
  obtain ⟨pre, post, hcomment, hframe⟩ := comment_eq l (noteMarker ++ " " ++ text)
  refine ⟨line.indent ++ pre, post, by
    rw [note, hcomment, ← List.append_assoc line.indent], fun b hb => ?_⟩
  rw [List.append_assoc] at hb
  rcases List.mem_append.1 hb with hb | hb
  · exact mem_noteFrame_of_indent hb
  · exact hframe b hb

theorem Pattern.not_matchesIn_note {p : Pattern} {c : Nat} {text : Text}
    (hp : p.hasIn [(c, c)] = true)
    (hbytes : ∀ b ∈ noteFrame ++ (noteMarker ++ " " ++ text), b < 0x80 ∧ b.toNat ≠ c) (l : Language)
    (line : Text) :
    p.matchesIn (note l line.indent text) = false := by
  obtain ⟨pre, post, hnote, hframe⟩ := note_eq l line text
  have hline : ∀ b ∈ note l line.indent text, b < 0x80 ∧ b.toNat ≠ c := by
    intro b hb
    rw [hnote] at hb
    rcases List.mem_append.1 hb with hb | hb
    · exact hbytes b (List.mem_append_left _ (hframe b (List.mem_append_left _ hb)))
    · rcases List.mem_append.1 hb with hb | hb
      · exact hbytes b (List.mem_append_right _ hb)
      · exact hbytes b (List.mem_append_left _ (hframe b (List.mem_append_right _ hb)))
  rw [← Bool.not_eq_true, matchesIn_iff_occursIn, Text.codes_of_ascii fun b hb => (hline b hb).1]
  rintro ⟨g, w, post, hcodes, hpiece⟩
  obtain ⟨d, hd, hcd⟩ := exists_mem_of_hasIn hp hpiece
  obtain rfl := CodeSet.eq_of_hasCode hcd
  have hc : d ∈ (note l line.indent text).map UInt8.toNat := by
    rw [hcodes]
    exact List.mem_append_right _ (List.mem_append_left _ hd)
  obtain ⟨b, hb, hbc⟩ := List.mem_map.1 hc
  exact (hline b hb).2 hbc

end CodeAudit
