import CodeAudit.Proofs.Catalog
import CodeAudit.Proofs.Except
import CodeAudit.Scan

/-!
# Windows that overrun

The end of a window is its first line and its size, and their sum is a word. Nothing keeps the size
of a window from being so large that the sum overflows behind the first lines of a document. Such a
rule ends the whole scan, with all that other rules have found.

**Results.**
* `Matcher.checkedHits_of_not_overruns`, `Matcher.checkedHits_of_overruns`: one rule.
* `exists_checkedScan_iff`, `eq_scan_of_checkedScan`: a scan is given up just when one of its rules
  overruns, and is otherwise the scan in which windows have any size.
-/
namespace CodeAudit

namespace Matcher

/-- Some window of the rule ends behind the greatest word. -/
def Overruns (m : Matcher) (o : ScanOptions) (l : Language) (d : Document) : Prop :=
  m.kind = .window ∧
    ∃ (i : Nat) (line : Text), d.lines[i]? = some line ∧ m.isEligible o l line = true ∧
      maxWord < i + m.size

theorem window_eq_ok {m : Matcher} (hlow : 1 ≤ m.size) {i : Nat} (line : Text) (rest : List Text)
    (hfits : i + m.size ≤ maxWord) :
    m.window i (line :: rest) = .ok (line :: rest.take (m.size.toNat - 1)) := by
  have hwrap : wrap (i + m.size) = i + m.size := by
    apply wrap_of_fits
    rw [fitsWord_iff, minWord_eq]
    omega
  have htake : (line :: rest).take (min (i + m.size) (i + (line :: rest).length) - i : Int).toNat =
      (line :: rest).take m.size.toNat := by
    rw [List.take_eq_take_iff]
    simp only [List.length_cons]
    omega
  rw [window, hwrap, if_neg (by simp only [List.length_cons]; omega), htake,
    show m.size.toNat = m.size.toNat - 1 + 1 by omega, List.take_succ_cons]
  rfl

theorem window_eq_error {m : Matcher} (hsize : m.size ≤ maxWord) {i : Nat} {lines : List Text}
    (hi : (i : Int) ≤ maxWord) (hover : maxWord < i + m.size) :
      m.window i lines = .error .room := by
  have hwrap := wrap_lt_zero hover (by omega)
  rw [window, if_pos (by omega)]

section
variable {m : Matcher} (hlow : 1 ≤ m.size) (o : ScanOptions) (l : Language)
include hlow

theorem checkedWindowHits_eq_ok : ∀ (lines : List Text) (i : Nat),
    (∀ k line, lines[k]? = some line → m.isEligible o l line = true →
      (i + k : Nat) + m.size ≤ maxWord) →
      m.checkedWindowHits o l i lines = .ok (m.windowHits o l (i + 1) lines) := by
  intro lines
  induction lines with
  | nil => exact fun _ _ => rfl
  | cons line rest ih =>
    intro i hfits
    have hrest := ih (i + 1) fun k line hk he => by
      have := hfits (k + 1) line (by simpa using hk) he
      omega
    unfold checkedWindowHits windowHits windowHit?
    by_cases heligible : m.isEligible o l line = true
    · have hwindow := window_eq_ok hlow line rest (by simpa using hfits 0 line rfl heligible)
      rw [if_pos heligible, if_pos heligible, hwindow, hrest]
      simp only [bind, Except.bind, pure, Except.pure]
      cases m.hitIn? o (i + 1) line (line :: rest.take (m.size.toNat - 1)) <;> rfl
    · rw [if_neg heligible, if_neg heligible, hrest]

theorem checkedWindowHits_eq_error (hsize : m.size ≤ maxWord) : ∀ (lines : List Text) (i : Nat),
    ((i + lines.length : Nat) : Int) ≤ maxWord →
    (∃ k line, lines[k]? = some line ∧ m.isEligible o l line = true ∧
      maxWord < (i + k : Nat) + m.size) → m.checkedWindowHits o l i lines = .error .room := by
  intro lines
  induction lines with
  | nil => simp
  | cons line rest ih =>
    intro i hi ⟨k, wide, hk, he, hover⟩
    rw [List.length_cons] at hi
    -- unless the window on this line overruns, there is one behind it that does
    have hrest : ¬ (m.isEligible o l line = true ∧ maxWord < i + m.size) →
        m.checkedWindowHits o l (i + 1) rest = .error .room := by
      intro hnot
      refine ih (i + 1) (by omega) ?_
      cases k with
      | zero =>
        obtain rfl : line = wide := by simpa using hk
        exact absurd ⟨he, hover⟩ hnot
      | succ k => exact ⟨k, wide, by simpa using hk, he, by omega⟩
    unfold checkedWindowHits
    by_cases heligible : m.isEligible o l line = true
    · rw [if_pos heligible]
      by_cases hfits : i + m.size ≤ maxWord
      · rw [window_eq_ok hlow _ _ hfits, hrest (by omega)]
        rfl
      · rw [window_eq_error hsize (by omega) (by omega)]
        rfl
    · rw [if_neg heligible, hrest fun h => heligible h.1]

end

section
variable {m : Matcher} (hm : m.fault? = none) {o : ScanOptions} {l : Language} {d : Document}
include hm

theorem checkedHits_of_not_overruns (h : ¬ m.Overruns o l d) :
    m.checkedHits o l d = .ok (m.hits? o l d) := by
  unfold checkedHits
  cases hk : m.kind with
  | line | predicate | unknown => rfl
  | window =>
    have hlow : 1 ≤ m.size := by
      have := two_le_size hm hk
      omega
    have hfits : ∀ k line, d.lines[k]? = some line → m.isEligible o l line = true →
        ((0 + k : Nat) : Int) + m.size ≤ maxWord := by
      intro k line hline he
      by_contra hover
      exact h ⟨hk, k, line, hline, he, by simpa using hover⟩
    simp only [checkedWindowHits_eq_ok hlow o l d.lines 0 hfits, hits?, hk]
    rfl

theorem checkedHits_of_overruns (hsize : m.size ≤ maxWord)
    (hlines : (d.lines.length : Int) ≤ maxWord)
    (h : m.Overruns o l d) : m.checkedHits o l d = .error .room := by
  obtain ⟨hk, i, line, hline, he, hover⟩ := h
  have hlow : 1 ≤ m.size := by
    have := two_le_size hm hk
    omega
  rw [checkedHits, hk]
  simp only [checkedWindowHits_eq_error hlow o l hsize d.lines 0 (by simpa using hlines)
    ⟨i, line, hline, he, by simpa using hover⟩]
  rfl

end
end Matcher

/-! ## The scan -/

/-- The rule looks at the language, and some window of it overruns. -/
def Rule.Overruns (r : Rule) (o : ScanOptions) (l : Language) (d : Document) : Prop :=
  r.appliesTo l = true ∧ r.matcher.Overruns o l d

section
variable {c : Catalog} (hc : c.Valid) {o : ScanOptions} {d : Document} {l : Language}
include hc

theorem checkedScan_eq_ok (h : ∀ r ∈ c.rules, ¬ r.Overruns o l d) :
    checkedScan c o d l = .ok (scan c o d l) := by
  have hfound : (c.rulesFor l).mapM (fun r => r.checkedFindings o (c.indexOf r.id) d l) =
      .ok ((c.rulesFor l).map fun r => r.findings o (c.indexOf r.id) d l) := by
    refine mapM_eq_ok fun r hr => ?_
    obtain ⟨hmem, happlies⟩ := List.mem_filter.1 hr
    rw [Rule.checkedFindings, Matcher.checkedHits_of_not_overruns
      (r.matcher_fault?_eq_none (hc.faultless r hmem)) fun hover => h r hmem ⟨happlies, hover⟩]
    rfl
  rw [checkedScan, hfound, scan, List.flatMap_def]
  rfl

variable (hsizes : ∀ r ∈ c.rules, r.matcher.size ≤ maxWord)
  (hlines : (d.lines.length : Int) ≤ maxWord)
include hsizes hlines

theorem checkedFindings_of_overruns {r : Rule} (hr : r ∈ c.rules) (h : r.Overruns o l d) (i : Int) :
    r.checkedFindings o i d l = .error .room := by
  rw [Rule.checkedFindings, Matcher.checkedHits_of_overruns
    (r.matcher_fault?_eq_none (hc.faultless r hr)) (hsizes r hr) hlines h.2]
  rfl

theorem checkedScan_eq_error (h : ∃ r ∈ c.rules, r.Overruns o l d) :
    checkedScan c o d l = .error .room := by
  obtain ⟨r, hr, hover⟩ := h
  have hfor : r ∈ c.rulesFor l := List.mem_filter.2 ⟨hr, hover.1⟩
  unfold checkedScan
  cases hfound : (c.rulesFor l).mapM fun r => r.checkedFindings o (c.indexOf r.id) d l with
  | ok found =>
    obtain ⟨fs, hfs⟩ := (forall_of_mapM hfound).1 r hfor
    rw [checkedFindings_of_overruns hc hsizes hlines hr hover] at hfs
    cases hfs
  | error e =>
    -- whichever rule ended the scan, it did so for the same reason
    obtain ⟨s, hs, herror⟩ := exists_of_mapM_eq_error hfound
    obtain ⟨hmem, happlies⟩ := List.mem_filter.1 hs
    by_cases hsover : s.matcher.Overruns o l d
    · rw [checkedFindings_of_overruns hc hsizes hlines hmem ⟨happlies, hsover⟩] at herror
      obtain rfl := Except.error.inj herror
      rfl
    · rw [Rule.checkedFindings, Matcher.checkedHits_of_not_overruns
        (s.matcher_fault?_eq_none (hc.faultless s hmem)) hsover] at herror
      cases herror

theorem exists_checkedScan_iff :
    (∃ s, checkedScan c o d l = .ok s) ↔ ∀ r ∈ c.rules, ¬ r.Overruns o l d := by
  constructor
  · rintro ⟨s, hs⟩ r hr hover
    rw [checkedScan_eq_error hc hsizes hlines ⟨r, hr, hover⟩] at hs
    cases hs
  · exact fun h => ⟨_, checkedScan_eq_ok hc h⟩

/-- A scan that comes to its end is the one in which windows have any size. -/
theorem eq_scan_of_checkedScan {s : Scan} (h : checkedScan c o d l = .ok s) : s = scan c o d l := by
  have hnone := (exists_checkedScan_iff hc hsizes hlines).1 ⟨s, h⟩
  rw [checkedScan_eq_ok hc hnone] at h
  exact (Except.ok.inj h).symm

end
end CodeAudit
