import CodeAudit.Engine
import CodeAudit.Proofs.Remediation.Parts
import CodeAudit.Proofs.Scan.Ranges
import Mathlib.Data.List.Perm.Basic

/-!
# Analysing two texts as one

With rules that look at single lines only, nothing of one text has an influence on what is found and
mended in another one that stands before or behind it. Two texts with a line feed between them are
analysed as the two texts are, the findings of the second one moved down.

**Results.**
* `Rule.findings_append`: the findings of one rule.
* `scan_append`: the findings of a scan.
* `Engine.analyzeAs_append`: the findings and the mended text of an analysis.
-/
namespace CodeAudit

/-- The hit as it is in a text with `k` more lines before it. -/
def Hit.shift (k : Nat) (h : Hit) : Hit := ⟨h.line + k, h.endLine + k⟩

namespace Matcher

section
variable (m : Matcher) (o : ScanOptions) (l : Language)

theorem lineHits_append (as bs : List Text) :
    ∀ n, m.lineHits o l n (as ++ bs) = m.lineHits o l n as ++
      m.lineHits o l (n + as.length) bs := by
  induction as with
  | nil => intro n; rfl
  | cons t as ih =>
    intro n
    simp only [List.cons_append, lineHits, ih, List.length_cons]
    rw [show n + 1 + as.length = n + (as.length + 1) by omega]
    split <;> rfl

theorem lineHit?_shift (k n : Nat) (line : Text) :
    m.lineHit? o l (n + k) line = (m.lineHit? o l n line).map (Hit.shift k) := by
  unfold lineHit?
  split <;> rfl

theorem lineHits_shift (k : Nat) (ls : List Text) :
    ∀ n, m.lineHits o l (n + k) ls = (m.lineHits o l n ls).map (Hit.shift k) := by
  induction ls with
  | nil => intro n; rfl
  | cons t ls ih =>
    intro n
    simp only [lineHits, lineHit?_shift]
    rw [show n + k + 1 = n + 1 + k by omega, ih]
    cases m.lineHit? o l n t <;> rfl

/-- A hit among single lines is one of them. -/
theorem lineHits_range {n : Nat} {ls : List Text} {h : Hit} (hh : h ∈ m.lineHits o l n ls) :
    n ≤ h.line ∧ h.endLine = h.line ∧ h.line < n + ls.length := by
  simp only [lineHits_eq, mem_hitsFrom, lineHit?_eq_some_iff] at hh
  obtain ⟨i, line, hline, -, rfl⟩ := hh
  have := (List.getElem?_eq_some_iff.1 hline).1
  exact ⟨Nat.le_add_right n i, rfl, by simp only; omega⟩

end

end Matcher

/-! ## The lines of both texts -/

namespace Document

theorem lines_append (s t : Text) : lines ⟨s ++ Text.newline :: t⟩ = s.lines ++ t.lines :=
  Text.lines_append_newline s t

theorem slice_self (d : Document) {n : Nat} (hfirst : 1 ≤ n) (hlast : n ≤ d.lineCount) :
    d.slice n n = [d.line n] := by
  rw [slice_eq d (by omega) (Int.le_refl _) (by omega), Int.sub_self]
  rfl

theorem slice_append_left (s t : Text) {n : Nat} (hfirst : 1 ≤ n) (hlast : n < 1 + s.lines.length) :
    slice ⟨s ++ Text.newline :: t⟩ n n = slice ⟨s⟩ n n := by
  have hline : line ⟨s ++ Text.newline :: t⟩ n = line ⟨s⟩ n := by
    unfold line
    rw [lines_append, if_neg (by omega), if_neg (by omega)]
    have hlt : (n : Int).toNat - 1 < s.lines.length := by omega
    simp only [List.getD, List.getElem?_append_left hlt, lines]
  rw [slice_self _ hfirst, slice_self _ hfirst, hline]
  · simp only [lineCount, lines]
    omega
  · simp only [lineCount, lines_append, List.length_append]
    omega

theorem slice_append_right (s t : Text) {n : Nat} (hfirst : 1 ≤ n)
    (hlast : n < 1 + t.lines.length) :
    slice ⟨s ++ Text.newline :: t⟩ (n + s.lines.length : Nat) (n + s.lines.length : Nat) =
      slice ⟨t⟩ n n := by
  have hline : line ⟨s ++ Text.newline :: t⟩ (n + s.lines.length : Nat) = line ⟨t⟩ n := by
    unfold line
    rw [lines_append, if_neg (by omega), if_neg (by omega)]
    have hle : s.lines.length ≤ ((n + s.lines.length : Nat) : Int).toNat - 1 := by omega
    simp only [List.getD, List.getElem?_append_right hle, lines]
    congr 2
    omega
  rw [slice_self _ (by omega), slice_self _ hfirst, hline]
  · simp only [lineCount, lines]
    omega
  · simp only [lineCount, lines_append, List.length_append]
    omega

end Document

/-! ## Findings -/

section
variable (o : ScanOptions) (l : Language) (s t : Text)

/-- A rule that looks at single lines finds in two texts what it finds in each. -/
theorem Rule.findings_append {r : Rule} (hk : r.matcher.kind = .line) (i : Int) :
    r.findings o i ⟨s ++ Text.newline :: t⟩ l =
      r.findings o i ⟨s⟩ l ++ (r.findings o i ⟨t⟩ l).map (Finding.shift s.lines.length) := by
  have hhits : ∀ d, r.matcher.hits? o l d = some (r.matcher.lineHits o l 1 d.lines) := by
    intro d
    unfold Matcher.hits?
    rw [hk]
  unfold Rule.findings
  simp only [hhits, Option.getD_some, Document.lines_append, Matcher.lineHits_append,
    Matcher.lineHits_shift, List.map_append, List.map_map]
  congr 1
  · refine List.map_congr_left fun h hh => ?_
    obtain ⟨hfirst, hend, hlast⟩ := r.matcher.lineHits_range o l hh
    unfold Rule.finding
    rw [hend, Document.slice_append_left s t hfirst hlast]
  · refine List.map_congr_left fun h hh => ?_
    obtain ⟨hfirst, hend, hlast⟩ := r.matcher.lineHits_range o l hh
    simp only [Function.comp_apply, Rule.finding, Finding.shift, Hit.shift]
    rw [hend, Document.slice_append_right s t hfirst hlast]
    simp only [Int.natCast_add]

/-! ## Scans and analyses -/

variable {c : Catalog}

theorem scan_inRange (hc : c.Valid) (d : Document) :
    ∀ f ∈ (scan c o d l).findings, f.InRange d.lines.length :=
  fun _ hf => (scan_findings_range o d l hc hf).1

/-- The findings of the first text stand before those of the second, moved down. -/
theorem pairwise_before_append (hc : c.Valid) :
    ((scan c o ⟨s⟩ l).findings ++
      (scan c o ⟨t⟩ l).findings.map (Finding.shift s.lines.length)).Pairwise Finding.Before := by
  refine List.pairwise_append.2 ⟨pairwise_before_scan o ⟨s⟩ l hc, ?_, ?_⟩
  · rw [List.pairwise_map]
    refine (pairwise_before_scan o ⟨t⟩ l hc).imp fun {a b} hab => ?_
    unfold Finding.Before at hab
    simp only [Finding.Before, Finding.shift]
    omega
  · intro a ha b hb
    obtain ⟨g, hg, rfl⟩ := List.mem_map.1 hb
    have hfirst : a.InRange s.lines.length := scan_inRange o l hc ⟨s⟩ a ha
    have hsecond : g.InRange t.lines.length := scan_inRange o l hc ⟨t⟩ g hg
    unfold Finding.InRange at hfirst hsecond
    simp only [Finding.Before, Finding.shift]
    omega

/-- **The findings of two texts.** -/
theorem scan_append (hc : c.Valid) (hline : ∀ r ∈ c.rules, r.matcher.kind = .line) :
    (scan c o ⟨s ++ Text.newline :: t⟩ l).findings =
      (scan c o ⟨s⟩ l).findings ++
        (scan c o ⟨t⟩ l).findings.map (Finding.shift s.lines.length) := by
  refine Finding.eq_of_perm_of_pairwise_before ?_ (pairwise_before_scan o _ l hc)
    (pairwise_before_append o l s t hc)
  have hsplit : ((c.rulesFor l).flatMap fun r =>
      r.findings o (c.indexOf r.id) ⟨s ++ Text.newline :: t⟩ l) =
        (c.rulesFor l).flatMap fun r => r.findings o (c.indexOf r.id) ⟨s⟩ l ++
          (r.findings o (c.indexOf r.id) ⟨t⟩ l).map (Finding.shift s.lines.length) :=
    List.flatMap_congr fun r hr =>
      Rule.findings_append o l s t (hline r (List.mem_filter.1 hr).1) _
  refine (perm_scan_findings o _ l c).trans ?_
  rw [hsplit]
  refine (List.flatMap_append_perm _ _ _).symm.trans ?_
  rw [← List.map_flatMap]
  exact (perm_scan_findings o ⟨s⟩ l c).symm.append ((perm_scan_findings o ⟨t⟩ l c).symm.map _)

end

namespace Engine

/-- Some line of a text is left when all its findings have been fixed. A text whose lines are all
deleted at some point has none left in the end, since there is nothing to fix in it any more. -/
def KeepsLines (e : Engine) (t : Text) (l : Language) : Prop :=
  mendedLines ⟨t⟩ l (e.analyzeAs t l).findings e.catalog.fix? ≠ []

instance (e : Engine) (t : Text) (l : Language) : Decidable (e.KeepsLines t l) :=
  inferInstanceAs (Decidable (_ ≠ _))

/-- **Two texts are analysed as one.** With rules that look at single lines only, the findings in
two texts with a line feed between them are those of the first and then those of the second, moved
down by the number of lines of the first. The mended text is that of the first, a line feed and that
of the second, as long as the fixes do not delete all lines of one of them. -/
theorem analyzeAs_append (e : Engine) (s t : Text) (l : Language) {rules : List Rule}
    {disabled : List Text} (hbuild : Catalog.build rules disabled = .ok e.catalog)
    (hline : ∀ r ∈ e.catalog.rules, r.matcher.kind = .line) :
    (e.analyzeAs (s ++ Text.newline :: t) l).findings =
      (e.analyzeAs s l).findings ++
        (e.analyzeAs t l).findings.map (Finding.shift (Document.lineCount ⟨s⟩)) ∧
    (e.KeepsLines s l → e.KeepsLines t l →
      (e.analyzeAs (s ++ Text.newline :: t) l).secureCode =
        (e.analyzeAs s l).secureCode ++ Text.newline :: (e.analyzeAs t l).secureCode) := by
  have hc := Catalog.valid_of_build hbuild
  have hfindings := scan_append e.options l s t hc hline
  refine ⟨hfindings, fun hs ht => ?_⟩
  have hlines := mendedLines_append s t l e.catalog.fix? (pairwise_before_scan e.options ⟨s⟩ l hc)
    (pairwise_before_scan e.options ⟨t⟩ l hc) (pairwise_before_append e.options l s t hc)
    (scan_inRange e.options l hc ⟨s⟩) (scan_inRange e.options l hc ⟨t⟩)
  simp only [analyzeAs, resultOf, remediate_eq_unlines]
  rw [hfindings, hlines]
  exact Text.unlines_append hs ht

/-- Two texts of which the first ends in an empty line. The rule puts a note before each line with
an `a`, which moves the second text further down. -/
theorem noted_texts_analysed_as_one :
    let r : Rule :=
      { id := [110], category := .injection, name := [110], severity := .high, languages := [],
        matcher := { kind := .line, pattern := some (.literal [97]) },
        description := [], recommendation := [], fix := some fun lines _ => some ([35] :: lines) }
    let e : Engine :=
      { catalog := ⟨[r], [([110], 0)]⟩, options := {}, weights := .default, minScore := 0 }
    Catalog.build [r] [] = .ok e.catalog ∧ e.KeepsLines [97, 10] .general ∧
      e.KeepsLines [120, 10, 97] .general ∧
      (e.analyzeAs [97, 10, 10, 120, 10, 97] .general).findings.map (·.line) = [1, 4] ∧
      (e.analyzeAs [97, 10, 10, 120, 10, 97] .general).secureCode =
        [35, 10, 97, 10, 10, 120, 10, 35, 10, 97] := by
  intro r e
  have hbuild : Catalog.build [r] [] = .ok e.catalog := rfl
  have hs : e.KeepsLines [97, 10] .general := by decide +kernel
  have ht : e.KeepsLines [120, 10, 97] .general := by decide +kernel
  obtain ⟨hfindings, hsecure⟩ := e.analyzeAs_append [97, 10] [120, 10, 97] .general hbuild
    (by simp [e, r])
  refine ⟨hbuild, hs, ht, ?_, ?_⟩
  · exact (congrArg _ hfindings).trans (by decide +kernel)
  · exact (hsecure hs ht).trans (by decide +kernel)

end Engine

end CodeAudit
