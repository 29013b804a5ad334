import CodeAudit.Comparison
import Mathlib.Data.List.Induction
import Mathlib.Data.List.Sort

/-!
# Ranges around findings

A range runs from some lines before a finding to as many lines after it, cut off at the ends of the
text, and a range that meets or touches the one before it is joined to it. The last line is a 64-bit
sum. Where it overflows it becomes negative, and the line adds nothing to a range that it is joined
to; but a line that touches no range before it gets a range of its own, which stops before it
starts.

The finding lines come in order, so that those whose sum fits come before those whose sum does not.
Whether a line of the second kind touches a range is then a matter of its distance to the lines of
the first kind.

**Results.**
* `Covers.addRange_of_fits`, `Covers.addRange_of_near`: one more line that fits, or is near one that
  does, keeps all ranges in the text.
* `exists_stop_lt_zero_addRange`: a range that stops before the text stays.
* `focusRanges_within_of_anchored`, `exists_stop_lt_zero_of_not_anchored`: either all ranges lie in
  the text or one of them stops before it.
* `focusRanges_within_of_stop`: there are no other ways for a range not to lie in the text.
-/
namespace CodeAudit

/-- The range lies in a text of `n` lines and has a line. -/
structure FocusRange.Within (n : Int) (r : FocusRange) : Prop where
  one_le : 1 ≤ r.start
  start_le : r.start ≤ r.stop
  stop_le : r.stop ≤ n

namespace Comparison

/-- The lines `context` after line `l` fit in 64 bits, or so do those after one of the lines `ls`
whose range reaches that of `l`. -/
def Anchored (ls : List Int) (context l : Int) : Prop :=
  l + context ≤ maxWord ∨ ∃ m ∈ ls, m + context ≤ maxWord ∧ l ≤ m + 2 * context + 1

/-! ## Finding lines -/

theorem mem_findingLines {findings : List Finding} {n l : Int} (h : l ∈ findingLines findings n) :
    1 ≤ l ∧ l ≤ n := by
  unfold findingLines at h
  rw [List.mem_mergeSort, List.mem_eraseDups, List.mem_filter] at h
  simpa using h.2

theorem pairwise_findingLines (findings : List Finding) (n : Int) :
    (findingLines findings n).Pairwise (· ≤ ·) :=
  List.pairwise_mergeSort' (· ≤ ·) _

theorem anchored_concat {ls : List Int} {context k l : Int} (hk : k ≤ l) :
    Anchored (ls ++ [l]) context k ↔ Anchored ls context k := by
  constructor
  · rintro (hfits | ⟨m, hm, hfits, hnear⟩)
    · exact Or.inl hfits
    · rcases List.mem_append.1 hm with hm | hm
      · exact Or.inr ⟨m, hm, hfits, hnear⟩
      · -- where the greatest line fits, so does every other
        obtain rfl := List.mem_singleton.1 hm
        exact Or.inl (by omega)
  · rintro (hfits | ⟨m, hm, hfits, hnear⟩)
    · exact Or.inl hfits
    · exact Or.inr ⟨m, List.mem_append_left _ hm, hfits, hnear⟩

/-! ## One more line -/

theorem addRange_cases (n context : Int) (ranges : List FocusRange) (l : Int) :
    (∃ r rest, ranges = r :: rest ∧ max 1 (l - context) ≤ r.stop + 1 ∧
      addRange n context ranges l =
        { r with stop := max r.stop (min n (wrap (l + context))), lines := r.lines ++ [l] } ::
          rest) ∨
    ((∀ r ∈ ranges.head?, r.stop + 1 < max 1 (l - context)) ∧
      addRange n context ranges l =
        ⟨max 1 (l - context), min n (wrap (l + context)), [l]⟩ :: ranges) := by
  unfold addRange
  cases ranges with
  | nil => exact Or.inr ⟨by simp, rfl⟩
  | cons r rest =>
    by_cases h : max 1 (l - context) ≤ r.stop + 1
    · exact Or.inl ⟨r, rest, rfl, h, if_pos h⟩
    · refine Or.inr ⟨fun q hq => ?_, if_neg h⟩
      obtain rfl := Option.some.inj hq
      exact Int.not_le.1 h

/-- No line is joined to a range that stops before the text. -/
theorem exists_stop_lt_zero_addRange {n context : Int} {ranges : List FocusRange}
    (h : ∃ r ∈ ranges, r.stop < 0) (l : Int) : ∃ r ∈ addRange n context ranges l, r.stop < 0 := by
  obtain ⟨q, hq, hstop⟩ := h
  obtain ⟨r, rest, rfl, htouch, heq⟩ | ⟨-, heq⟩ := addRange_cases n context ranges l
  · rw [heq]
    have hne : q ≠ r := by
      rintro rfl
      omega
    exact ⟨q, List.mem_cons_of_mem _ (List.mem_of_ne_of_mem hne hq), hstop⟩
  · rw [heq]
    exact ⟨q, List.mem_cons_of_mem _ hq, hstop⟩

/-- The ranges around some lines lie in the text, and the last of them stops as far after the last
line that fits as it can. -/
structure Covers (n context : Int) (ls : List Int) (ranges : List FocusRange) : Prop where
  within : ∀ r ∈ ranges, r.Within n
  last_stop : ∀ r ∈ ranges.head?, ∃ m ∈ ls, m + context ≤ maxWord ∧ r.stop = min n (m + context) ∧
    ∀ k ∈ ls, k + context ≤ maxWord → k ≤ m
  ne_nil : ls ≠ [] → ranges ≠ []

section Step

variable {n context l : Int} {ls : List Int} {ranges : List FocusRange}

theorem covers_cons {r : FocusRange} {m : Int} (hr : r.Within n)
    (hranges : ∀ q ∈ ranges, q.Within n)
    (hm : m ∈ ls) (hfits : m + context ≤ maxWord) (hstop : r.stop = min n (m + context))
    (hgreatest : ∀ k ∈ ls, k + context ≤ maxWord → k ≤ m) : Covers n context ls (r :: ranges) where
  within := List.forall_mem_cons.2 ⟨hr, hranges⟩
  last_stop := by
    intro q hq
    obtain rfl := Option.some.inj hq
    exact ⟨m, hm, hfits, hstop, hgreatest⟩
  ne_nil := fun _ => List.cons_ne_nil r ranges

theorem Covers.addRange_of_fits (h : Covers n context ls ranges) (hcontext : 0 ≤ context)
    (hl : 1 ≤ l ∧ l ≤ n) (hle : ∀ k ∈ ls, k ≤ l) (hfits : l + context ≤ maxWord) :
    Covers n context (ls ++ [l]) (addRange n context ranges l) := by
  have hwrap : wrap (l + context) = l + context := by
    apply wrap_of_fits
    rw [fitsWord_iff, minWord_eq]
    omega
  have hmem : l ∈ ls ++ [l] := List.mem_append_right ls (List.mem_singleton_self l)
  have hgreatest : ∀ k ∈ ls ++ [l], k + context ≤ maxWord → k ≤ l :=
    List.forall_mem_append.2 ⟨fun k hk _ => hle k hk,
      List.forall_mem_singleton.2 fun _ => Int.le_refl l⟩
  obtain ⟨r, rest, rfl, -, heq⟩ | ⟨-, heq⟩ := addRange_cases n context ranges l
  · obtain ⟨hr, hrest⟩ := List.forall_mem_cons.1 h.within
    obtain ⟨m, hm, -, hstop, -⟩ := h.last_stop r rfl
    have hml := hle m hm
    -- the lines after `l` go at least as far as those after any line before it
    have hmax : max r.stop (min n (wrap (l + context))) = min n (l + context) := by
      rw [hwrap, hstop]
      omega
    rw [heq, hmax]
    refine covers_cons ⟨hr.one_le, ?_, Int.min_le_left _ _⟩ hrest hmem hfits rfl hgreatest
    have := hr.start_le
    simp only
    omega
  · rw [heq, hwrap]
    refine covers_cons ⟨Int.le_max_left _ _, ?_, Int.min_le_left _ _⟩ h.within hmem hfits rfl
      hgreatest
    simp only
    omega

theorem Covers.addRange_of_near (h : Covers n context ls ranges) (hcontext : 0 ≤ context)
    (hl : 1 ≤ l ∧ l ≤ n) (hls : ∀ k ∈ ls, 1 ≤ k) (hoverflow : maxWord < l + context)
    (hwrap : wrap (l + context) < 0)
    (hnear : ∃ m ∈ ls, m + context ≤ maxWord ∧ l ≤ m + 2 * context + 1) :
    Covers n context (ls ++ [l]) (addRange n context ranges l) := by
  obtain ⟨m, hm, hmfits, hml⟩ := hnear
  obtain ⟨r, rest, rfl⟩ := List.exists_cons_of_ne_nil (h.ne_nil (List.ne_nil_of_mem hm))
  obtain ⟨hr, hrest⟩ := List.forall_mem_cons.1 h.within
  obtain ⟨last, hlast, hfits, hstop, hgreatest⟩ := h.last_stop r rfl
  have htouch : max 1 (l - context) ≤ r.stop + 1 := by
    have hmlast := hgreatest m hm hmfits
    have hone := hls last hlast
    omega
  -- the line leaves the last range as it is
  have hmax : max r.stop (min n (wrap (l + context))) = r.stop := by
    have := hr.one_le
    have := hr.start_le
    omega
  have heq : addRange n context (r :: rest) l = { r with lines := r.lines ++ [l] } :: rest := by
    rw [addRange]
    simp only [htouch, if_true, hmax]
  rw [heq]
  refine covers_cons ⟨hr.one_le, hr.start_le, hr.stop_le⟩ hrest
    (List.mem_append_left [l] hlast) hfits hstop
    (List.forall_mem_append.2 ⟨hgreatest, List.forall_mem_singleton.2 fun hlfits => ?_⟩)
  omega

/-- A line that does not fit and is near none that does gets a range that stops before the text. -/
theorem Covers.exists_stop_lt_zero (h : Covers n context ls ranges) (hwrap : wrap (l + context) < 0)
    (hfar : ∀ m ∈ ls, m + context ≤ maxWord → m + 2 * context + 1 < l) :
    ∃ r ∈ addRange n context ranges l, r.stop < 0 := by
  obtain ⟨r, rest, rfl, htouch, -⟩ | ⟨-, heq⟩ := addRange_cases n context ranges l
  · obtain ⟨m, hm, hfits, hstop, -⟩ := h.last_stop r rfl
    have := hfar m hm hfits
    omega
  · rw [heq]
    exact ⟨_, List.mem_cons_self, by simp only; omega⟩

end Step

/-! ## All lines -/

section Run

variable {n context : Int} (hn : n ≤ maxWord) (hcontext : 0 ≤ context) (hword : context ≤ maxWord)
include hn hcontext hword

theorem covers_foldl_addRange {ls : List Int} (hls : ∀ l ∈ ls, 1 ≤ l ∧ l ≤ n)
    (hsorted : ls.Pairwise (· ≤ ·)) (h : ∀ l ∈ ls, Anchored ls context l) :
    Covers n context ls (ls.foldl (addRange n context) []) := by
  induction ls using List.reverseRecOn with
  | nil => exact ⟨by simp, by simp, by simp⟩
  | append_singleton ls l ih =>
    obtain ⟨hpair, -, hle⟩ := List.pairwise_append.1 hsorted
    have hle : ∀ k ∈ ls, k ≤ l := fun k hk => hle k hk l (List.mem_singleton_self l)
    have hl := hls l (by simp)
    have hcovers : Covers n context ls (ls.foldl (addRange n context) []) := by
      refine ih (fun k hk => hls k (List.mem_append_left _ hk)) hpair fun k hk => ?_
      exact (anchored_concat (hle k hk)).1 (h k (List.mem_append_left _ hk))
    rw [List.foldl_concat]
    by_cases hfits : l + context ≤ maxWord
    · exact hcovers.addRange_of_fits hcontext hl hle hfits
    · have hoverflow : maxWord < l + context := Int.not_le.1 hfits
      rcases (anchored_concat (Int.le_refl l)).1 (h l (by simp)) with hl' | hnear
      · exact absurd hl' hfits
      · exact hcovers.addRange_of_near hcontext hl
          (fun k hk => (hls k (List.mem_append_left _ hk)).1)
          hoverflow (wrap_lt_zero hoverflow (by omega)) hnear

theorem exists_stop_lt_zero_foldl_addRange {ls : List Int} (hls : ∀ l ∈ ls, 1 ≤ l ∧ l ≤ n)
    (hsorted : ls.Pairwise (· ≤ ·)) (h : ¬ ∀ l ∈ ls, Anchored ls context l) :
    ∃ r ∈ ls.foldl (addRange n context) [], r.stop < 0 := by
  induction ls using List.reverseRecOn with
  | nil => exact absurd (by simp) h
  | append_singleton ls l ih =>
    obtain ⟨hpair, -, hle⟩ := List.pairwise_append.1 hsorted
    have hle : ∀ k ∈ ls, k ≤ l := fun k hk => hle k hk l (List.mem_singleton_self l)
    have hls' : ∀ k ∈ ls, 1 ≤ k ∧ k ≤ n := fun k hk => hls k (List.mem_append_left _ hk)
    rw [List.foldl_concat]
    by_cases hrest : ∀ k ∈ ls, Anchored ls context k
    · have hl : ¬ Anchored ls context l := by
        intro hl
        apply h
        intro k hk
        rcases List.mem_append.1 hk with hk | hk
        · exact (anchored_concat (hle k hk)).2 (hrest k hk)
        · obtain rfl := List.mem_singleton.1 hk
          exact (anchored_concat (Int.le_refl k)).2 hl
      simp only [Anchored, not_or, not_exists, not_and, Int.not_le] at hl
      have := (hls l (by simp)).2
      exact (covers_foldl_addRange hn hcontext hword hls' hpair hrest).exists_stop_lt_zero
        (wrap_lt_zero (by omega) (by omega)) hl.2
    · exact exists_stop_lt_zero_addRange (ih hls' hpair hrest) l

/-- Where every finding line fits or is near one that does, the ranges lie in the text. -/
theorem focusRanges_within_of_anchored {findings : List Finding} (hpos : 1 ≤ n)
    (h : ∀ l ∈ findingLines findings n, Anchored (findingLines findings n) context l) :
    ∀ r ∈ focusRanges findings n context, r.Within n := by
  unfold focusRanges
  split
  · intro r hr
    rw [List.mem_singleton.1 hr]
    exact ⟨by simp, by simp only [overviewLines]; omega, by simp only; omega⟩
  · intro r hr
    exact (covers_foldl_addRange hn hcontext hword (fun l hl => mem_findingLines hl)
      (pairwise_findingLines findings n) h).within r (List.mem_reverse.1 hr)

/-- Where one does not, there is a range that stops before the text. -/
theorem exists_stop_lt_zero_of_not_anchored {findings : List Finding}
    (h : ¬ ∀ l ∈ findingLines findings n, Anchored (findingLines findings n) context l) :
    ∃ r ∈ focusRanges findings n context, r.stop < 0 := by
  have hne : ¬ findings.isEmpty = true := by
    intro hempty
    obtain rfl := List.isEmpty_iff.1 hempty
    exact h (by simp [findingLines])
  obtain ⟨r, hr, hstop⟩ := exists_stop_lt_zero_foldl_addRange hn hcontext hword
    (fun l hl => mem_findingLines hl) (pairwise_findingLines findings n) h
  rw [focusRanges, if_neg hne]
  exact ⟨r, List.mem_reverse.2 hr, hstop⟩

theorem within_addRange {ranges : List FocusRange} {l : Int} (hl : 1 ≤ l ∧ l ≤ n)
    (h : ∀ r ∈ ranges, 0 ≤ r.stop → r.Within n) :
    ∀ r ∈ addRange n context ranges l, 0 ≤ r.stop → r.Within n := by
  obtain ⟨r, rest, rfl, htouch, heq⟩ | ⟨-, heq⟩ := addRange_cases n context ranges l
  · rw [heq]
    refine List.forall_mem_cons.2 ⟨fun _ => ?_, fun q hq => h q (List.mem_cons_of_mem r hq)⟩
    -- nothing is joined to a range that stops before the text
    obtain ⟨hone, hstart, hstop⟩ := h r List.mem_cons_self (by omega)
    exact ⟨hone, by simp only; omega, by simp only; omega⟩
  · rw [heq]
    refine List.forall_mem_cons.2 ⟨fun hstop => ?_, h⟩
    simp only at hstop
    have hfits : l + context ≤ maxWord := by
      by_contra hover
      have := wrap_lt_zero (Int.not_le.1 hover) (by omega)
      omega
    have hwrap : wrap (l + context) = l + context := by
      apply wrap_of_fits
      rw [fitsWord_iff, minWord_eq]
      omega
    exact ⟨Int.le_max_left _ _, by simp only; omega, by simp only; omega⟩

/-- A range that does not stop before the text lies in it. -/
theorem focusRanges_within_of_stop (findings : List Finding) (hpos : 1 ≤ n) :
    ∀ r ∈ focusRanges findings n context, 0 ≤ r.stop → r.Within n := by
  unfold focusRanges
  split
  · intro r hr _
    rw [List.mem_singleton.1 hr]
    exact ⟨by simp, by simp only [overviewLines]; omega, by simp only; omega⟩
  · intro r hr
    have hall : ∀ ls : List Int, (∀ l ∈ ls, 1 ≤ l ∧ l ≤ n) → ∀ ranges : List FocusRange,
        (∀ r ∈ ranges, 0 ≤ r.stop → r.Within n) →
          ∀ r ∈ ls.foldl (addRange n context) ranges, 0 ≤ r.stop → r.Within n := by
      intro ls
      induction ls with
      | nil => exact fun _ _ h => h
      | cons l ls ih =>
        intro hls ranges h
        obtain ⟨hl, hls⟩ := List.forall_mem_cons.1 hls
        exact ih hls _ (within_addRange hn hcontext hword hl h)
    exact hall _ (fun l hl => mem_findingLines hl) [] (by simp) r (List.mem_reverse.1 hr)

end Run

/-- The ranges lie in the text as long as no line number leaves 64 bits. -/
theorem focusRanges_within (findings : List Finding) {n context : Int} (hn : 1 ≤ n)
    (hcontext : 0 ≤ context) (hfits : n + context ≤ maxWord) :
    ∀ r ∈ focusRanges findings n context, r.Within n := by
  refine focusRanges_within_of_anchored (by omega) hcontext (by omega) hn fun l hl => Or.inl ?_
  have := (mem_findingLines hl).2
  omega

end Comparison
end CodeAudit
