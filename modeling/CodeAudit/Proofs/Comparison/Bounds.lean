import CodeAudit.Proofs.Comparison.Chunks

/-!
# Where a comparison stays in its texts

The number of lines around a finding may be any 64-bit integer that is not negative. A comparison
cuts its sections out of both texts, and there are two ways to a cut that cannot be made.

* The last line of a range overflows, and the finding is near none whose range does not. The range
  stops before the text, and already the look for the kept lines behind it is outside of it.
* An empty step of the script counts as a line, so that lines kept after it are looked for one line
  too far in the mended text, and the last of them outside of it.

**Results.**
* `exists_along_iff_fit`: when there is a comparison.
* `fault_of_along`: where it is given up otherwise.
* `sections_in_range`: both, and that a section that is made lies in the texts.
-/
namespace CodeAudit

namespace Comparison

open Edit

/-- Every finding line in the given text fits in 64 bits together with the lines after it, or is
near one that does. -/
def RangesFit (given : Text) (findings : List Finding) (context : Int) : Prop :=
  ∀ l ∈ findingLines findings given.lines.length,
    Anchored (findingLines findings given.lines.length) context l

/-- The lines of the mended text that belong to a range are lines of that text. -/
def PlacesFit (diff : Differ) (given secure : Text) (findings : List Finding) (context : Int) :
    Prop :=
  ∀ r ∈ focusRanges findings given.lines.length context,
    secureStop (positionsAlong diff given secure) r secure.lines.length ≤ secure.lines.length

/-- What a comparison is given up for: a range that stops before the given text, where the kept
lines behind it are looked for, or lines that the mended text does not have. -/
def Faults (diff : Differ) (given secure : Text) (findings : List Finding) (context : Int)
    (o : Overrun) : Prop :=
  ∃ r ∈ focusRanges findings given.lines.length context,
    (r.stop < 0 ∧ o = .index r.stop) ∨
      (r.Within given.lines.length ∧
        secure.lines.length < secureStop (positionsAlong diff given secure) r secure.lines.length ∧
        o = .stop (secureStop (positionsAlong diff given secure) r secure.lines.length)
          secure.lines.length)

section
variable {diff : Differ} {given secure : Text} {findings : List Finding} {context : Int}
  (hcontext : 0 ≤ context) (hword : context ≤ maxWord) (hlines : given.lines.length ≤ maxWord)
include hcontext hword hlines

theorem exists_along_iff_fit :
    (∃ c, along diff given secure findings context = .ok c) ↔
      RangesFit given findings context ∧ PlacesFit diff given secure findings context := by
  rw [exists_along_iff, rangesOf, if_neg (Int.not_lt.2 hcontext)]
  constructor
  · intro h
    refine ⟨?_, fun r hr => ?_⟩
    · by_contra hranges
      obtain ⟨r, hr, hstop⟩ := exists_stop_lt_zero_of_not_anchored hlines hcontext hword hranges
      obtain ⟨s, hs⟩ := h r hr
      have := (sectionOf_eq_ok hs).1.1
      omega
    · obtain ⟨s, hs⟩ := h r hr
      exact (sectionOf_eq_ok hs).2.1
  · rintro ⟨hranges, hplaces⟩ r hr
    have hwithin := focusRanges_within_of_anchored hlines hcontext hword (one_le_length_lines given)
      hranges r hr
    exact exists_sectionOf hwithin (hplaces r hr)

theorem fault_of_along {o : Overrun} (h : along diff given secure findings context = .error o) :
    Faults diff given secure findings context o := by
  obtain ⟨r, hr, hsection⟩ := exists_range_of_along_eq_error h
  rw [rangesOf, if_neg (Int.not_lt.2 hcontext)] at hr
  exact ⟨r, hr, sectionOf_eq_error
    (focusRanges_within_of_stop hlines hcontext hword findings (one_le_length_lines given) r hr)
    hsection⟩

theorem inRange_of_along {c : Comparison} (hc : along diff given secure findings context = .ok c)
    {s : Section} (hs : s ∈ c.sections) : s.InRange given.lines.length secure.lines.length := by
  obtain ⟨hranges, -⟩ := (exists_along_iff_fit hcontext hword hlines).1 ⟨c, hc⟩
  obtain ⟨r, hr, hsection⟩ := exists_range_of_mem_sections hc hs
  rw [rangesOf, if_neg (Int.not_lt.2 hcontext)] at hr
  exact inRange_of_sectionOf (focusRanges_within_of_anchored hlines hcontext hword
    (one_le_length_lines given) hranges r hr) hsection

end

theorem placesFit_of_validOn {diff : Differ} {given secure : Text} (findings : List Finding)
    (context : Int) (hdiff : Differ.ValidOn diff given secure) :
    PlacesFit diff given secure findings context :=
  fun r _ => secureStop_le_of_after (spells_chunks hdiff).2 _ r

/-- **Sections in range.** Along any differ, every section of a comparison lies in the texts. There
is a comparison just when the ranges and the places fit; otherwise it is given up at a range that
stops before the given text, or at lines that the mended text does not have. Where the script leads
from the one text to the other without an empty step, there is one just when the ranges fit. -/
theorem sections_in_range (diff : Differ) (given secure : Text)
    (findings : List Finding) {context : Int}
    (hcontext : 0 ≤ context) (hword : context ≤ maxWord) (hlines : given.lines.length ≤ maxWord) :
    (∀ c, along diff given secure findings context = .ok c →
      ∀ s ∈ c.sections, s.InRange given.lines.length secure.lines.length) ∧
    ((∃ c, along diff given secure findings context = .ok c) ↔
      RangesFit given findings context ∧ PlacesFit diff given secure findings context) ∧
    (∀ o, along diff given secure findings context = .error o →
      Faults diff given secure findings context o) ∧
    (Differ.ValidOn diff given secure →
      ((∃ c, along diff given secure findings context = .ok c) ↔
        RangesFit given findings context)) := by
  have hiff : (∃ c, along diff given secure findings context = .ok c) ↔
      RangesFit given findings context ∧ PlacesFit diff given secure findings context :=
    exists_along_iff_fit hcontext hword hlines
  refine ⟨fun c hc s hs => inRange_of_along hcontext hword hlines hc hs, hiff,
    fun o ho => fault_of_along hcontext hword hlines ho, fun hdiff => ?_⟩
  rw [hiff]
  exact and_iff_left (placesFit_of_validOn findings context hdiff)

/-- So many lines around two findings that the first of them only just fits. The second does not,
and is joined to the first. -/
theorem greatest_context_in_range :
    let findings := [{ (default : Finding) with line := 2 }, { (default : Finding) with line := 1 }]
    0 ≤ maxWord - 1 ∧ maxWord - 1 ≤ maxWord ∧ (Text.lines "a\nb").length ≤ maxWord ∧
      ∃ c, of "a\nb" "a\nc\nb" findings (maxWord - 1) = .ok c ∧
        ∀ s ∈ c.sections, s.InRange (Text.lines "a\nb").length (Text.lines "a\nc\nb").length := by
  intro findings
  have hlines : (Text.lines "a\nb").length = 2 := by decide +kernel
  have hword : (Text.lines "a\nb").length ≤ maxWord := by rw [hlines]; decide
  have hranges : RangesFit "a\nb" findings (maxWord - 1) := by
    intro l hl
    refine Or.inr ⟨1, ?_, by decide, ?_⟩
    · simp [findingLines, findings, hlines]
    · have := (mem_findingLines hl).2
      rw [hlines] at this
      rw [maxWord_eq]
      omega
  obtain ⟨hall, -, -, hiff⟩ := sections_in_range (Grain.plain Nat).script "a\nb" "a\nc\nb" findings
    (by decide : 0 ≤ maxWord - 1) (by decide) hword
  obtain ⟨c, hc⟩ := (hiff (validOn_plain (by decide +kernel))).2 hranges
  exact ⟨by decide, by decide, hword, c, hc, hall c hc⟩

/-- One line more, and the range of a finding on the first line stops before the text. -/
theorem overflow_leaves_text :
    0 ≤ maxWord ∧
      of "a" "a" [{ (default : Finding) with line := 1 }] maxWord = .error (.index minWord) ∧
      (of "a" "a" [{ (default : Finding) with line := 1 }] (maxWord - 1)).isOk := by
  refine ⟨by decide, by decide +kernel, by decide +kernel⟩

-- Nothing overflows here: an empty step of the script puts the last kept line one line too far.
example : of "1\n2\n2\n2\n2\n0\n1\n0\n2" "1\n1\n2\n1\n2\n2\n2\n2\n1\n2\n0"
    [{ (default : Finding) with line := 9 }] 0 = .error (.stop 12 11) := by
  decide +kernel

end Comparison
end CodeAudit
