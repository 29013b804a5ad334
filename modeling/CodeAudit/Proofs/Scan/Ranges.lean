import CodeAudit.Proofs.Scan.Hits
import CodeAudit.Proofs.Text.Lines
import CodeAudit.Remediation

/-!
# Where findings lie

The last line of a match in a window is found by counting line feeds in the matched text. A window
holds one line feed fewer than lines, so the count never leads behind the window, and the window
never reaches behind the document.

**Results.**
* `Matcher.hits?_range`: the lines of a hit exist, and there are no more of them than its matcher
  looks at.
* `Draft.range?_eq`, `Document.slice_eq`: what follows for lines in range when they are mended or
  shown.
* `scan_findings_in_range`: all of it, for the findings of a scan.
-/
namespace CodeAudit

namespace Matcher

/-- A window with blanked lines has one line feed fewer than lines. -/
theorem count_newline_windowText (o : ScanOptions) {ls : List Text}
    (h : ∀ l ∈ ls, Text.newline ∉ l) :
    Text.count Text.newline (o.windowText ls) = ls.length - 1 := by
  unfold ScanOptions.windowText
  rw [Text.count_newline_unlines, List.length_map]
  intro l hl
  obtain ⟨x, hx, rfl⟩ := List.mem_map.1 hl
  split
  · exact List.not_mem_nil
  · exact h x hx

/-- The last line of a match in a text is at most as far away as the text has line feeds. -/
theorem lastLine_le (n : Nat) (t : Text) (f : Match) :
    lastLine n (f.text t) ≤ n + Text.count Text.newline t := by
  unfold lastLine Match.text
  have hsub := (Text.dropSuffix_sublist (Text.slice t f.start f.stop) "\n").trans
    (Text.slice_sublist t f.start f.stop)
  have := Text.count_le_of_sublist Text.newline hsub
  omega

/-- The hit of a window lies in the window. -/
theorem windowHit?_range {m : Matcher} {o : ScanOptions} {l : Language} {n : Nat} {line : Text}
    {rest : List Text} {h : Hit} (hlines : ∀ x ∈ line :: rest, Text.newline ∉ x)
    (hh : m.windowHit? o l n line rest = some h) :
    h.line = n ∧ n ≤ h.endLine ∧ h.endLine ≤ n + min (m.size.toNat - 1) rest.length := by
  obtain ⟨f, rfl⟩ := windowHit?_eq_some hh
  have hwindow : ∀ x ∈ line :: rest.take (m.size.toNat - 1), Text.newline ∉ x := by
    intro x hx
    rcases List.mem_cons.1 hx with rfl | hx
    · exact hlines x List.mem_cons_self
    · exact hlines x (List.mem_cons_of_mem line (List.mem_of_mem_take hx))
  have hcount := count_newline_windowText o hwindow
  have hlast := lastLine_le n (o.windowText (line :: rest.take (m.size.toNat - 1))) f
  rw [hcount, List.length_cons, List.length_take] at hlast
  exact ⟨rfl, Nat.le_add_right n _, by simp only; omega⟩

/-- **The range of a hit.** The lines of a hit exist; the hit of a window is shorter than the
window, and all others are single lines. -/
theorem hits?_range {m : Matcher} (o : ScanOptions) (l : Language) (d : Document)
    (hm : m.fault? = none) {h : Hit} (hh : h ∈ (m.hits? o l d).getD []) :
    (1 ≤ h.line ∧ h.line ≤ h.endLine ∧ h.endLine ≤ d.lineCount) ∧
      (m.kind = .window → (h.endLine : Int) - h.line < m.size) ∧
      (m.kind ≠ .window → h.endLine = h.line) := by
  unfold hits? at hh
  unfold Document.lineCount
  cases hk : m.kind with
  | line =>
    simp only [hk, Option.getD_some, lineHits_eq, mem_hitsFrom, lineHit?_eq_some_iff] at hh
    obtain ⟨i, line, hline, -, rfl⟩ := hh
    have := (List.getElem?_eq_some_iff.1 hline).1
    exact ⟨⟨by simp only; omega, Nat.le_refl _, by simp only; omega⟩, by simp, fun _ => rfl⟩
  | window =>
    have hsize := two_le_size hm hk
    simp only [hk, Option.getD_some, windowHits_eq, mem_hitsFrom] at hh
    obtain ⟨i, line, hline, hhit⟩ := hh
    obtain ⟨hlt, hget⟩ := List.getElem?_eq_some_iff.1 hline
    have hlines : ∀ x ∈ line :: d.lines.drop (i + 1), Text.newline ∉ x := by
      rw [← hget, ← List.drop_eq_getElem_cons hlt]
      exact fun x hx => Text.newline_not_mem_lines (List.mem_of_mem_drop hx)
    obtain ⟨hfirst, hle, hlast⟩ := windowHit?_range hlines hhit
    rw [List.length_drop] at hlast
    refine ⟨⟨by omega, by omega, by omega⟩, fun _ => by omega, fun hne => absurd rfl hne⟩
  | predicate =>
    simp only [hk] at hh
    cases hp : m.predicate.bind fun p => p d l with
    | none => simp [hp] at hh
    | some is =>
      simp only [hp, Option.map_some, Option.getD_some, mem_pickLines] at hh
      obtain ⟨i, -, -, rfl, line, hline, -⟩ := hh
      have := (List.getElem?_eq_some_iff.1 hline).1
      exact ⟨⟨by simp only; omega, Nat.le_refl _, by simp only; omega⟩, by simp, fun _ => rfl⟩
  | unknown k => simp [hk] at hh

end Matcher

/-! ## Lines in range, mended and shown -/

namespace Draft

theorem length_spans_apply (fixes : Text → Option Fix) (l : Language) (d : Draft) (f : Finding) :
    (d.apply fixes l f).spans.length = d.spans.length := by
  unfold apply
  split
  · simp only
    split
    · split
      · rfl
      · simp [replace]
    · rfl
  · rfl

/-- Fixes never change how many lines of the document are kept track of. -/
theorem length_spans_foldl (fixes : Text → Option Fix) (l : Language) (fs : List Finding) :
    ∀ d : Draft, (fs.foldl (Draft.apply fixes l) d).spans.length = d.spans.length := by
  induction fs with
  | nil => intro d; rfl
  | cons f fs ih => intro d; rw [List.foldl_cons, ih, length_spans_apply]

/-- Lines in range are looked up; there is nothing to mend only where they are gone. -/
theorem range?_eq {d : Draft} {line endLine : Int} (hfirst : 1 ≤ line) (hle : line ≤ endLine)
    (hlast : endLine ≤ d.spans.length) :
    ∃ a b, d.spans[line.toNat - 1]? = some a ∧ d.spans[endLine.toNat - 1]? = some b ∧
      d.range? line endLine = if b.stop ≤ a.start then none else some ⟨a.start, b.stop⟩ := by
  have ha : line.toNat - 1 < d.spans.length := by omega
  have hb : endLine.toNat - 1 < d.spans.length := by omega
  refine ⟨_, _, List.getElem?_eq_getElem ha, List.getElem?_eq_getElem hb, ?_⟩
  have hin : (line < 1 || endLine < line || (d.spans.length : Int) < endLine) = false := by
    simp only [Bool.or_eq_false_iff, decide_eq_false_iff_not]
    omega
  unfold range?
  rw [hin, List.getElem?_eq_getElem ha, List.getElem?_eq_getElem hb]
  rfl

end Draft

/-- A slice with both ends in range holds the lines with these numbers, all of them. -/
theorem Document.slice_eq (d : Document) {first last : Int} (hfirst : 1 ≤ first)
    (hle : first ≤ last) (hlast : last ≤ d.lineCount) :
    d.slice first last =
      (List.range' first.toNat (last - first + 1).toNat).map fun n : Nat => d.line n := by
  unfold Document.slice Document.lineCount at *
  rw [Int.max_eq_right hfirst, Int.min_eq_right hlast]
  simp only
  rw [if_neg (by omega)]
  apply List.ext_getElem
  · rw [List.length_take, List.length_drop, List.length_map, List.length_range']
    omega
  · intro i hi _
    rw [List.length_take, List.length_drop] at hi
    simp only [List.getElem_take, List.getElem_drop, List.getElem_map, List.getElem_range',
      Document.line]
    have hlt : first.toNat - 1 + i < d.lines.length := by omega
    rw [if_neg (by omega),
      show ((first.toNat + 1 * i : Nat) : Int).toNat - 1 = first.toNat - 1 + i by omega]
    simp [List.getD, hlt]

/-! ## The findings of a scan -/

section
variable {c : Catalog} (o : ScanOptions) (d : Document) (l : Language) {f : Finding}

/-- The lines of a finding are those of a hit of its rule. -/
theorem scan_findings_range (hc : c.Valid) (hf : f ∈ (scan c o d l).findings) :
    (1 ≤ f.line ∧ f.line ≤ f.endLine ∧ f.endLine ≤ d.lineCount) ∧
    ∃ r, c.lookup? f.ruleId = some r ∧
      (r.matcher.kind = .window → f.endLine - f.line < r.matcher.size) ∧
      (r.matcher.kind ≠ .window → f.endLine = f.line) := by
  obtain ⟨r, hr, h, hh, rfl⟩ := (mem_scan_findings o d l f).1 hf
  have hmem := (List.mem_filter.1 hr).1
  obtain ⟨⟨hfirst, hle, hlast⟩, hwindow, hsingle⟩ :=
    Matcher.hits?_range o l d (r.matcher_fault?_eq_none (hc.faultless r hmem)) hh
  have hrange : (1 : Int) ≤ h.line ∧ (h.line : Int) ≤ h.endLine ∧
      (h.endLine : Int) ≤ d.lineCount := by
    omega
  exact ⟨hrange, r, hc.lookup?_eq hmem, hwindow, fun hne => congrArg _ (hsingle hne)⟩

/-- **Findings lie in the document.** The lines of a finding exist; the finding of a window rule is
shorter than its window, and all others are single lines. So mending never passes over a finding as
out of range, whatever was mended before, and no slice taken for it is cut short. -/
theorem scan_findings_in_range {rules : List Rule} {disabled : List Text}
    (hbuild : Catalog.build rules disabled = .ok c) (hf : f ∈ (scan c o d l).findings) :
    (1 ≤ f.line ∧ f.line ≤ f.endLine ∧ f.endLine ≤ d.lineCount) ∧
    (∃ r, c.lookup? f.ruleId = some r ∧
      (r.matcher.kind = .window → f.endLine - f.line < r.matcher.size) ∧
      (r.matcher.kind ≠ .window → f.endLine = f.line)) ∧
    (∀ (fixes : Text → Option Fix) (seen : List Finding),
      let draft := seen.foldl (Draft.apply fixes l) (Draft.ofLines d.lines)
      ∃ a b, draft.spans[f.line.toNat - 1]? = some a ∧ draft.spans[f.endLine.toNat - 1]? = some b ∧
        draft.range? f.line f.endLine =
          if b.stop ≤ a.start then none else some ⟨a.start, b.stop⟩) ∧
    d.slice f.line f.endLine =
      (List.range' f.line.toNat (f.endLine - f.line + 1).toNat).map fun n : Nat => d.line n := by
  obtain ⟨⟨hfirst, hle, hlast⟩, hrule⟩ :=
    scan_findings_range o d l (Catalog.valid_of_build hbuild) hf
  refine ⟨⟨hfirst, hle, hlast⟩, hrule, fun fixes seen => ?_, d.slice_eq hfirst hle hlast⟩
  refine Draft.range?_eq hfirst hle ?_
  rw [Draft.length_spans_foldl, Draft.ofLines, List.length_map, List.length_range]
  exact hlast

end

/-- A window of five lines that is cut off at the end of the document: the match runs through the
last two lines. -/
theorem last_window_in_range :
    let r : Rule :=
      { id := [119], category := .injection, name := [110], severity := .high, languages := [],
        matcher := { kind := .window, pattern := some (.spaced [[97], [98]]), size := 5 },
        description := [], recommendation := [], fix := some fun lines _ => some lines }
    let doc : Document := ⟨[120, 10, 97, 10, 98]⟩
    let c : Catalog := ⟨[r], [([119], 0)]⟩
    Catalog.build [r] [] = .ok c ∧
      ∃ f ∈ (scan c {} doc .general).findings, f.line = 2 ∧ f.endLine = 3 ∧
        f.endLine ≤ doc.lineCount ∧ doc.slice f.line f.endLine = [[97], [98]] := by
  intro r doc c
  have hbuild : Catalog.build [r] [] = .ok c := rfl
  have hf : r.finding {} doc 0 ⟨2, 3⟩ ∈ (scan c {} doc .general).findings := by
    refine (mem_scan_findings {} doc .general _).2
      ⟨r, List.mem_singleton_self r, ⟨2, 3⟩, by decide, ?_⟩
    rw [show c.indexOf r.id = 0 by decide]
  obtain ⟨⟨-, -, hlast⟩, -, -, hslice⟩ := scan_findings_in_range {} doc .general hbuild hf
  exact ⟨hbuild, _, hf, rfl, rfl, hlast, hslice.trans (by decide)⟩

end CodeAudit
