import CodeAudit.Proofs.Comparison.Ranges

/-!
# Ranges are the union of what surrounds the findings

Each finding is surrounded by the lines up to `context` away from it. The ranges show just these
lines: what they cover is what surrounds some finding, no more and no less, and no two of them could
be joined, since at least one line stands between them. Neither the order of the findings nor their
number on a line matters.

The lines come in order and only the last range is looked at, so the invariant of the run (`Merged`)
has to say of every range that it starts no later than what surrounds the next line. That is why
joining a line to the last range adds all that surrounds it.

**Results.**
* `sorted_findingLines`, `mem_findingLines_iff`: the lines that the ranges are made from.
* `Merged.addRange`: what one more line preserves.
* `merged_foldl_addRange`: what all lines together do.
* `focusRanges_eq_union`: the ranges of any findings.
-/
namespace CodeAudit

/-- The range has a line. -/
def FocusRange.Has (r : FocusRange) (x : Int) : Prop := r.start ≤ x ∧ x ≤ r.stop

/-- The ranges come in order, with a line between each two. -/
def FocusRange.Before (r q : FocusRange) : Prop := r.stop + 2 ≤ q.start

namespace Comparison

/-- Line `x` of a text of `n` lines is at most `context` lines away from line `l`. -/
def Surrounds (n context l x : Int) : Prop := max 1 (l - context) ≤ x ∧ x ≤ min n (l + context)

/-! ## Finding lines -/

theorem nodup_eraseDups {α : Type} [DecidableEq α] (l : List α) : l.eraseDups.Nodup := by
  match l with
  | [] => simp
  | a :: l =>
    have ih := nodup_eraseDups (l.filter fun b => !b == a)
    rw [List.eraseDups_cons, List.nodup_cons]
    exact ⟨by simp, ih⟩
termination_by l.length
decreasing_by exact Nat.lt_succ_of_le (List.length_filter_le _ l)

theorem sorted_findingLines (findings : List Finding) (n : Int) :
    (findingLines findings n).Pairwise (· < ·) := by
  have hnodup : (findingLines findings n).Nodup := List.nodup_mergeSort.2 (nodup_eraseDups _)
  exact (pairwise_findingLines findings n).imp₂ (fun _ _ hle hne => lt_of_le_of_ne hle hne) hnodup

theorem mem_findingLines_iff {findings : List Finding} {n l : Int} :
    l ∈ findingLines findings n ↔ (1 ≤ l ∧ l ≤ n) ∧ ∃ f ∈ findings, f.line = l := by
  unfold findingLines
  rw [List.mem_mergeSort, List.mem_eraseDups, List.mem_filter, List.mem_map, and_comm]
  simp

/-! ## One more line -/

/-- What the ranges around some lines are, last first. -/
structure Merged (n context : Int) (ls : List Int) (ranges : List FocusRange) : Prop where
  within : ∀ r ∈ ranges, r.Within n
  apart : ranges.Pairwise fun q r => r.Before q
  /-- The lines come in order, and no range starts after what surrounds its first line. -/
  start_le : ∀ r ∈ ranges, ∃ k ∈ ls, r.start ≤ max 1 (k - context)
  has_iff : ∀ x, (∃ r ∈ ranges, r.Has x) ↔ ∃ l ∈ ls, Surrounds n context l x
  has_lines : ∀ r ∈ ranges, ∀ l ∈ r.lines, r.Has l
  lines_eq : ranges.reverse.flatMap (·.lines) = ls

theorem merged_nil (n context : Int) : Merged n context [] [] :=
  ⟨by simp, .nil, by simp, by simp, by simp, rfl⟩

section Step

variable {n context l : Int} {ls : List Int} {ranges : List FocusRange} {r : FocusRange}

theorem has_cons_iff (x : Int) :
    (∃ q ∈ r :: ranges, q.Has x) ↔ r.Has x ∨ ∃ q ∈ ranges, q.Has x := by
  simp

theorem surrounds_concat_iff (x : Int) :
    (∃ k ∈ ls ++ [l], Surrounds n context k x) ↔
      (∃ k ∈ ls, Surrounds n context k x) ∨ Surrounds n context l x := by
  simp [or_and_right, exists_or]

/-- A line surrounds itself. -/
theorem surrounds_self (hcontext : 0 ≤ context) (hl : 1 ≤ l ∧ l ≤ n) : Surrounds n context l l := by
  unfold Surrounds
  omega

/-- A line that touches the last range is joined to it. -/
theorem Merged.joined (h : Merged n context ls (r :: ranges)) (hcontext : 0 ≤ context)
    (hl : 1 ≤ l ∧ l ≤ n) (hle : ∀ k ∈ ls, k ≤ l) (htouch : max 1 (l - context) ≤ r.stop + 1) :
    Merged n context (ls ++ [l])
      ({ r with stop := max r.stop (min n (l + context)), lines := r.lines ++ [l] } :: ranges) := by
  obtain ⟨⟨hone, hrange, hstop⟩, hwithin⟩ := List.forall_mem_cons.1 h.within
  obtain ⟨hbehind, hapart⟩ := List.pairwise_cons.1 h.apart
  obtain ⟨⟨k, hk, hstart⟩, hstarts⟩ := List.forall_mem_cons.1 h.start_le
  obtain ⟨hlines, hothers⟩ := List.forall_mem_cons.1 h.has_lines
  have hkl := hle k hk
  constructor
  · exact List.forall_mem_cons.2 ⟨⟨hone, by simp only; omega, by simp only; omega⟩, hwithin⟩
  · exact List.pairwise_cons.2 ⟨hbehind, hapart⟩
  · refine List.forall_mem_cons.2 ⟨⟨k, List.mem_append_left _ hk, hstart⟩, fun q hq => ?_⟩
    obtain ⟨m, hm, hq⟩ := hstarts q hq
    exact ⟨m, List.mem_append_left _ hm, hq⟩
  · intro x
    rw [surrounds_concat_iff, ← h.has_iff, has_cons_iff, has_cons_iff, or_right_comm]
    apply or_congr_left
    -- the range starts before what surrounds the line, which starts before the end of the range
    simp only [FocusRange.Has, Surrounds]
    omega
  · refine List.forall_mem_cons.2 ⟨List.forall_mem_append.2 ⟨fun m hm => ?_, ?_⟩, hothers⟩
    · have := hlines m hm
      simp only [FocusRange.Has] at this ⊢
      omega
    · have := surrounds_self hcontext hl
      simp only [List.mem_singleton, forall_eq, FocusRange.Has, Surrounds] at this ⊢
      omega
  · rw [← h.lines_eq]
    simp

/-- A line that touches no range gets one of its own. -/
theorem Merged.opened (h : Merged n context ls ranges) (hcontext : 0 ≤ context) (hl : 1 ≤ l ∧ l ≤ n)
    (hbehind : ∀ r ∈ ranges.head?, r.stop + 1 < max 1 (l - context)) :
    Merged n context (ls ++ [l])
      (⟨max 1 (l - context), min n (l + context), [l]⟩ :: ranges) := by
  have hall : ∀ q ∈ ranges, q.stop + 1 < max 1 (l - context) := by
    cases ranges with
    | nil => simp
    | cons r ranges =>
      have hr := hbehind r rfl
      have hrange := (h.within r List.mem_cons_self).start_le
      refine List.forall_mem_cons.2 ⟨hr, fun q hq => ?_⟩
      have : q.stop + 2 ≤ r.start := (List.pairwise_cons.1 h.apart).1 q hq
      omega
  have hself := surrounds_self hcontext hl
  constructor
  · refine List.forall_mem_cons.2 ⟨⟨Int.le_max_left _ _, ?_, Int.min_le_left _ _⟩, h.within⟩
    simp only
    omega
  · refine List.pairwise_cons.2 ⟨fun q hq => ?_, h.apart⟩
    have := hall q hq
    simp only [FocusRange.Before]
    omega
  · refine List.forall_mem_cons.2 ⟨⟨l, by simp, Int.le_refl _⟩, fun q hq => ?_⟩
    obtain ⟨m, hm, hq⟩ := h.start_le q hq
    exact ⟨m, List.mem_append_left _ hm, hq⟩
  · intro x
    rw [surrounds_concat_iff, ← h.has_iff, has_cons_iff, or_comm]
    rfl
  · refine List.forall_mem_cons.2 ⟨?_, h.has_lines⟩
    intro m hm
    obtain rfl := List.mem_singleton.1 hm
    exact hself
  · rw [← h.lines_eq]
    simp

theorem Merged.addRange (h : Merged n context ls ranges) (hcontext : 0 ≤ context)
    (hl : 1 ≤ l ∧ l ≤ n) (hle : ∀ k ∈ ls, k ≤ l) (hfits : l + context ≤ maxWord) :
    Merged n context (ls ++ [l]) (addRange n context ranges l) := by
  have hwrap : wrap (l + context) = l + context := by
    apply wrap_of_fits
    rw [fitsWord_iff, minWord_eq]
    omega
  obtain ⟨r, rest, rfl, htouch, heq⟩ | ⟨hbehind, heq⟩ := addRange_cases n context ranges l
  · rw [heq, hwrap]
    exact h.joined hcontext hl hle htouch
  · rw [heq, hwrap]
    exact h.opened hcontext hl hbehind

end Step

/-! ## All lines -/

theorem merged_foldl_addRange {n context : Int} (hcontext : 0 ≤ context)
    (hfits : n + context ≤ maxWord)
    {ls : List Int} (hls : ∀ l ∈ ls, 1 ≤ l ∧ l ≤ n) (hsorted : ls.Pairwise (· < ·)) :
    Merged n context ls (ls.foldl (addRange n context) []) := by
  induction ls using List.reverseRecOn with
  | nil => exact merged_nil n context
  | append_singleton ls l ih =>
    obtain ⟨hpair, -, hlt⟩ := List.pairwise_append.1 hsorted
    have hl := hls l (by simp)
    rw [List.foldl_concat]
    exact (ih (fun k hk => hls k (List.mem_append_left _ hk)) hpair).addRange hcontext hl
      (fun k hk => Int.le_of_lt (hlt k hk l (List.mem_singleton_self l))) (by omega)

/-- The ranges of some findings lie in the text, in order and apart from each other. They have just
the lines around the findings in the text, and they list just the lines of these findings, each
once, in order and in the range that has it. -/
theorem focusRanges_eq_union {findings : List Finding} {n context : Int} (hne : findings ≠ [])
    (hcontext : 0 ≤ context) (hfits : n + context ≤ maxWord) :
    let ranges := focusRanges findings n context
    (∀ r ∈ ranges, r.Within n) ∧ ranges.Pairwise FocusRange.Before ∧
      (∀ x, (∃ r ∈ ranges, r.Has x) ↔
        ∃ f ∈ findings, (1 ≤ f.line ∧ f.line ≤ n) ∧ Surrounds n context f.line x) ∧
      (∀ r ∈ ranges, ∀ l ∈ r.lines, r.Has l) ∧
      (ranges.flatMap (·.lines)).Pairwise (· < ·) ∧
      ∀ l, l ∈ ranges.flatMap (·.lines) ↔ (1 ≤ l ∧ l ≤ n) ∧ ∃ f ∈ findings, f.line = l := by
  intro ranges
  have h : Merged n context (findingLines findings n) ranges.reverse := by
    have hranges : ranges = ((findingLines findings n).foldl (addRange n context) []).reverse :=
      if_neg (by simpa using hne)
    rw [hranges, List.reverse_reverse]
    exact merged_foldl_addRange hcontext hfits (fun l hl => mem_findingLines hl)
      (sorted_findingLines findings n)
  have hlines : ranges.flatMap (·.lines) = findingLines findings n := by
    simpa using h.lines_eq
  refine ⟨fun r hr => h.within r (List.mem_reverse.2 hr), List.pairwise_reverse.1 h.apart,
    fun x => ?_, fun r hr => h.has_lines r (List.mem_reverse.2 hr), ?_, fun l => ?_⟩
  · have hcover := h.has_iff x
    simp only [List.mem_reverse, mem_findingLines_iff] at hcover
    rw [hcover]
    constructor
    · rintro ⟨l, ⟨hl, f, hf, rfl⟩, hx⟩
      exact ⟨f, hf, hl, hx⟩
    · rintro ⟨f, hf, hl, hx⟩
      exact ⟨f.line, ⟨hl, f, hf, rfl⟩, hx⟩
  · rw [hlines]
    exact sorted_findingLines findings n
  · rw [hlines]
    exact mem_findingLines_iff

/-- Findings out of order, two of them on one line and two outside of the text. What surrounds lines
2 and 5 touches, and line 7 is between that and what surrounds line 9. -/
theorem touching_ranges_joined :
    let findings := [9, 2, 40, 2, 5, 0].map fun l => { (default : Finding) with line := l }
    findings ≠ [] ∧ (0 : Int) ≤ 1 ∧ (12 : Int) + 1 ≤ maxWord ∧
      focusRanges findings 12 1 = [⟨1, 6, [2, 5]⟩, ⟨8, 10, [9]⟩] ∧
      ∀ x, (1 ≤ x ∧ x ≤ 6 ∨ 8 ≤ x ∧ x ≤ 10) ↔
        ∃ f ∈ findings, (1 ≤ f.line ∧ f.line ≤ 12) ∧ Surrounds 12 1 f.line x := by
  intro findings
  have hlines : findingLines findings 12 = [2, 5, 9] := by
    have hfilter : ((findings.map (·.line)).filter fun l => 1 ≤ l && l ≤ 12) = [9, 2, 2, 5] := by
      decide
    rw [findingLines, hfilter]
    simp [List.eraseDups_cons, List.mergeSort]
  have hranges : focusRanges findings 12 1 = [⟨1, 6, [2, 5]⟩, ⟨8, 10, [9]⟩] := by
    rw [focusRanges, hlines]
    decide
  have hne : findings ≠ [] := by decide
  obtain ⟨-, -, hunion, -⟩ :=
    focusRanges_eq_union hne (by decide : (0 : Int) ≤ 1) (by decide : (12 : Int) + 1 ≤ maxWord)
  refine ⟨hne, by decide, by decide, hranges, fun x => ?_⟩
  rw [← hunion x, hranges]
  simp [FocusRange.Has]

end Comparison
end CodeAudit
