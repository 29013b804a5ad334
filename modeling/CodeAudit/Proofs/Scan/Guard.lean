import CodeAudit.Proofs.Scan.Independence
import Mathlib.Data.List.Basic

/-!
# Guarded lines do not show

A line that looks like binary data is guarded: no hit starts on it, a window shows it as a blank
line, and what a predicate says about it is passed over. Here a document is reduced to what a scan
may see of each line (`ScanOptions.seen`), which is nothing of a guarded one. Lines and windows are
matched against that alone, so the content of a guarded line reaches no match, no exclusion and no
end of a hit. The snippet of a hit is cut from the document itself and is not covered.

**Results.**
* `hits?_congr`: rules for lines and windows hit documents that look alike in the same places.
* `scan_ignores_guarded`: the findings of a scan.
-/
namespace CodeAudit

namespace ScanOptions

/-- The line is longer than lines may be, or has a zero byte among its first 512 bytes. -/
def Guarded (o : ScanOptions) (l : Text) : Prop :=
  o.maxLineLength < l.length ∨ ∃ i < 512, l[i]? = some 0

theorem isGuarded_iff (o : ScanOptions) (l : Text) : o.isGuarded l = true ↔ o.Guarded l := by
  have hzero : (l.take probeLength).any (· == 0) = true ↔ ∃ i < 512, l[i]? = some 0 := by
    rw [List.any_eq_true]
    constructor
    · rintro ⟨b, hb, hzero⟩
      obtain ⟨i, hi⟩ := List.mem_iff_getElem?.1 hb
      rw [List.getElem?_take] at hi
      split at hi
      · rename_i hlt
        rw [beq_iff_eq] at hzero
        exact ⟨i, hlt, by rw [hi, hzero]⟩
      · cases hi
    · rintro ⟨i, hlt, hi⟩
      refine ⟨0, List.mem_iff_getElem?.2 ⟨i, ?_⟩, rfl⟩
      rw [List.getElem?_take]
      exact (if_pos hlt).trans hi
  unfold isGuarded Guarded
  rw [Bool.or_eq_true, decide_eq_true_iff, hzero]

/-- Two documents that have the same number of lines, are guarded in the same places and are equal
in all others. -/
structure Alike (o : ScanOptions) (d d' : Document) : Prop where
  count : d.lines.length = d'.lines.length
  guarded : ∀ (i : Nat) (line line' : Text), d.lines[i]? = some line → d'.lines[i]? = some line' →
    (o.Guarded line ↔ o.Guarded line')
  equal : ∀ (i : Nat) (line line' : Text), d.lines[i]? = some line → d'.lines[i]? = some line' →
    ¬ o.Guarded line → line = line'

/-- What a scan may see of a line. -/
def seen (o : ScanOptions) (line : Text) :
    Option Text := if o.isGuarded line then none else some line

theorem seen_eq_none_iff (o : ScanOptions) (line : Text) :
    o.seen line = none ↔ o.isGuarded line = true := by
  unfold seen
  split <;> simp_all

theorem seen_eq_some_iff (o : ScanOptions) (line shown : Text) :
    o.seen line = some shown ↔ o.isGuarded line = false ∧ line = shown := by
  unfold seen
  split <;> simp_all

/-- Documents are alike when the same is seen of their lines. -/
theorem alike_iff (o : ScanOptions) (d d' : Document) :
    o.Alike d d' ↔ d.lines.map o.seen = d'.lines.map o.seen := by
  constructor
  · intro h
    apply List.ext_getElem (by simp [h.count])
    intro i hi hi'
    simp only [List.length_map] at hi hi'
    rw [List.getElem_map, List.getElem_map]
    have hline := List.getElem?_eq_getElem hi
    have hline' := List.getElem?_eq_getElem hi'
    have hguarded := h.guarded i _ _ hline hline'
    rw [← isGuarded_iff, ← isGuarded_iff] at hguarded
    cases hg : o.isGuarded d.lines[i] with
    | true =>
      rw [(o.seen_eq_none_iff _).2 hg, (o.seen_eq_none_iff _).2 (hguarded.1 hg)]
    | false =>
      have hnot : ¬ o.Guarded d.lines[i] := by
        rw [← isGuarded_iff, hg]
        simp
      rw [h.equal i _ _ hline hline' hnot]
  · intro h
    have hseen : ∀ (i : Nat) (line line' : Text), d.lines[i]? = some line →
        d'.lines[i]? = some line' → o.seen line = o.seen line' := by
      intro i line line' hline hline'
      have hi := congrArg (·[i]?) h
      simp only [List.getElem?_map, hline, hline', Option.map_some, Option.some.injEq] at hi
      exact hi
    refine ⟨by simpa using congrArg List.length h, ?_, ?_⟩
    · intro i line line' hline hline'
      rw [← isGuarded_iff, ← isGuarded_iff, ← seen_eq_none_iff, ← seen_eq_none_iff,
        hseen i line line' hline hline']
    · intro i line line' hline hline' hnot
      rw [← isGuarded_iff, Bool.not_eq_true] at hnot
      have hsome := (o.seen_eq_some_iff line line).2 ⟨hnot, rfl⟩
      rw [hseen i line line' hline hline'] at hsome
      exact ((o.seen_eq_some_iff line' line).1 hsome).2.symm

/-- A window is made of what is seen of its lines. -/
theorem windowText_eq (o : ScanOptions) (lines : List Text) :
    o.windowText lines = Text.unlines ((lines.map o.seen).map fun line => line.getD []) := by
  unfold windowText
  rw [List.map_map]
  congr 1
  apply List.map_congr_left
  intro line _
  simp only [Function.comp_apply, seen]
  split <;> rfl

end ScanOptions

namespace Matcher

variable {o : ScanOptions} (m : Matcher) (l : Language)

/-- No guarded line may start a hit. -/
theorem isEligible_of_seen {line : Text} (h : o.seen line = none) :
    m.isEligible o l line = false := by
  simp [isEligible, (o.seen_eq_none_iff line).1 h]

/-- A line that is seen is known. -/
theorem eq_of_seen {line line' shown : Text} (h : o.seen line = some shown)
    (h' : o.seen line' = some shown) : line = line' := by
  rw [((o.seen_eq_some_iff line shown).1 h).2, ((o.seen_eq_some_iff line' shown).1 h').2]

theorem lineHit?_congr (n : Nat) {line line' : Text} (h : o.seen line = o.seen line') :
    m.lineHit? o l n line = m.lineHit? o l n line' := by
  cases hs : o.seen line with
  | none =>
    rw [hs] at h
    simp [lineHit?, isEligible_of_seen m l hs, isEligible_of_seen m l h.symm]
  | some shown => rw [eq_of_seen hs (h ▸ hs)]

theorem windowHit?_congr (n : Nat) {line line' : Text} {rest rest' : List Text}
    (h : o.seen line = o.seen line') (hrest : rest.map o.seen = rest'.map o.seen) :
    m.windowHit? o l n line rest = m.windowHit? o l n line' rest' := by
  cases hs : o.seen line with
  | none =>
    rw [hs] at h
    simp [windowHit?, isEligible_of_seen m l hs, isEligible_of_seen m l h.symm]
  | some shown =>
    obtain rfl := eq_of_seen hs (h ▸ hs)
    have htext : o.windowText (line :: rest.take (m.size.toNat - 1)) =
        o.windowText (line :: rest'.take (m.size.toNat - 1)) := by
      simp only [ScanOptions.windowText_eq, List.map_cons, List.map_take, hrest]
    simp only [windowHit?, hitIn?, htext]

/-- A walk that looks at lines only as they are seen finds the same in lines that are seen alike. -/
theorem hitsFrom_congr {g : Nat → Text → List Text → Option Hit}
    (hg : ∀ n line line' rest rest', o.seen line = o.seen line' →
      rest.map o.seen = rest'.map o.seen → g n line rest = g n line' rest') (lines : List Text) :
    ∀ (lines' : List Text) (n : Nat), lines.map o.seen = lines'.map o.seen →
      hitsFrom g n lines = hitsFrom g n lines' := by
  induction lines with
  | nil =>
    intro lines' n h
    rw [List.map_eq_nil_iff.1 h.symm]
  | cons line rest ih =>
    intro lines' n h
    cases lines' with
    | nil => cases h
    | cons line' rest' =>
      obtain ⟨hline, hrest⟩ := List.cons.inj h
      rw [hitsFrom, hitsFrom, hg n line line' rest rest' hline hrest, ih rest' (n + 1) hrest]

/-- Whether a rule looks at lines or windows. -/
def readsText (m : Matcher) : Bool := m.kind = .line || m.kind = .window

/-- Rules for lines and windows hit documents that look alike in the same places. -/
theorem hits?_congr {d d' : Document} (hm : m.readsText = true) (h : o.Alike d d') :
    m.hits? o l d = m.hits? o l d' := by
  have hseen := (o.alike_iff d d').1 h
  unfold readsText at hm
  unfold hits?
  cases hk : m.kind with
  | line =>
    simp only [lineHits_eq]
    rw [hitsFrom_congr (fun n line line' _ _ hl _ => lineHit?_congr m l n hl) _ _ 1 hseen]
  | window =>
    simp only [windowHits_eq]
    rw [hitsFrom_congr (fun n line line' rest rest' hl hr => windowHit?_congr m l n hl hr) _ _ 1
      hseen]
  | predicate => simp [hk] at hm
  | unknown k => rfl

end Matcher

/-- The rule of a finding and the lines it is about. -/
def Finding.place (f : Finding) : Text × Int × Int := (f.ruleId, f.line, f.endLine)

/-- The finding without the text of its lines. -/
def Finding.masked (f : Finding) : Finding := { f with snippet := [] }

/-- Whether the rule with an id looks at lines or windows. -/
def Catalog.readsText (c : Catalog) (id : Text) : Bool := (c.lookup? id).any (·.matcher.readsText)

section
variable {c : Catalog} (o : ScanOptions) (l : Language)

theorem Rule.masked_findings {d d' : Document} {r : Rule} (hr : r.matcher.readsText = true)
    (h : o.Alike d d') (i : Int) :
    (r.findings o i d l).map Finding.masked = (r.findings o i d' l).map Finding.masked := by
  unfold Rule.findings
  rw [r.matcher.hits?_congr l hr h, List.map_map, List.map_map]
  rfl

/-- The findings for lines and windows before they are sorted, less their snippets. -/
theorem perm_masked_scan (c : Catalog) (d : Document) :
    (((scan c o d l).findings.filter fun f => c.readsText f.ruleId).map Finding.masked).Perm
      (((c.rulesFor l).filter fun r => c.readsText r.id).flatMap fun r =>
        (r.findings o (c.indexOf r.id) d l).map Finding.masked) := by
  refine (((perm_scan_findings o d l c).filter _).map _).trans ?_
  rw [filter_flatMap_findings, List.map_flatMap]

/-- **Alike documents.** Less their snippets, the findings for lines and windows are the same. -/
theorem masked_scan_eq (hc : c.Valid) {d d' : Document} (h : o.Alike d d') :
    ((scan c o d l).findings.filter fun f => c.readsText f.ruleId).map Finding.masked =
      ((scan c o d' l).findings.filter fun f => c.readsText f.ruleId).map Finding.masked := by
  have hordered : ∀ d : Document, (((scan c o d l).findings.filter fun f =>
      c.readsText f.ruleId).map Finding.masked).Pairwise Finding.Before := by
    intro d
    rw [List.pairwise_map]
    exact (pairwise_before_scan o d l hc).filter _
  refine Finding.eq_of_perm_of_pairwise_before ?_ (hordered d) (hordered d')
  refine (perm_masked_scan o l c d).trans (.trans ?_ (perm_masked_scan o l c d').symm)
  rw [List.flatMap_congr]
  intro r hr
  obtain ⟨hfor, hreads⟩ := List.mem_filter.1 hr
  rw [Catalog.readsText, hc.lookup?_eq (List.mem_filter.1 hfor).1, Option.any_some] at hreads
  exact Rule.masked_findings o l hreads h _

/-- A finding starts on a line that is there and is not guarded. -/
theorem scan_starts_unguarded (hc : c.Valid) (d : Document) {f : Finding}
    (hf : f ∈ (scan c o d l).findings) :
    ∃ i line, f.line = (i + 1 : Nat) ∧ d.lines[i]? = some line ∧ ¬ o.Guarded line := by
  obtain ⟨r, hr, h, hh, rfl⟩ := (mem_scan_findings o d l f).1 hf
  have hgood := r.matcher_fault?_eq_none (hc.faultless r (List.mem_filter.1 hr).1)
  obtain ⟨i, hi, line, hline, hguarded, -⟩ :=
    (Matcher.hits?_line_iff o l d hgood h.line).1 ⟨h, hh, rfl⟩
  refine ⟨i, line, by simp only [Rule.finding, hi], hline, ?_⟩
  rw [← ScanOptions.isGuarded_iff, hguarded]
  simp

/-- **Guarded lines do not show.** Over any catalog that was built, two documents with the same
number of lines, guarded in the same places and equal in all others, have the same findings for
lines and windows, by rule, first and last line, in the same order. No finding of any rule starts on
a guarded line. -/
theorem scan_ignores_guarded {rules : List Rule} {disabled : List Text}
    (hbuild : Catalog.build rules disabled = .ok c) :
    (∀ d d' : Document, o.Alike d d' →
      ((scan c o d l).findings.filter fun f => c.readsText f.ruleId).map Finding.place =
        ((scan c o d' l).findings.filter fun f => c.readsText f.ruleId).map Finding.place) ∧
    ∀ (d : Document), ∀ f ∈ (scan c o d l).findings,
      ∃ i line, f.line = (i + 1 : Nat) ∧ d.lines[i]? = some line ∧ ¬ o.Guarded line := by
  have hc := Catalog.valid_of_build hbuild
  refine ⟨fun d d' h => ?_, fun d f hf => scan_starts_unguarded o l hc d hf⟩
  have hplace : ∀ fs : List Finding, fs.map Finding.place =
      (fs.map Finding.masked).map Finding.place := by
    intro fs
    rw [List.map_map]
    rfl
  rw [hplace, masked_scan_eq o l hc h, ← hplace]

end

/-- A window of three lines whose middle one is guarded. What stands there would end the match on
it, or would keep the rule from hitting at all, but the hit goes from the first line to the last. -/
theorem guarded_middle_ignored :
    let r : Rule :=
      { id := [119], category := .injection, name := [110], severity := .high, languages := [],
        matcher := { kind := .window, pattern := some (.spaced [[97], [98]]),
                     exclude := some (.literal [120]), size := 3 },
        description := [], recommendation := [], fix := some fun lines _ => some lines }
    let d : Document := ⟨[97, 10, 0, 98, 10, 98]⟩
    let d' : Document := ⟨[97, 10, 120, 120, 0, 10, 98]⟩
    let c : Catalog := ⟨[r], [([119], 0)]⟩
    Catalog.build [r] [] = .ok c ∧ ({} : ScanOptions).Alike d d' ∧
      ((scan c {} d' .general).findings.filter fun f => c.readsText f.ruleId).map Finding.place =
        [([119], 1, 3)] := by
  intro r d d' c
  have hbuild : Catalog.build [r] [] = .ok c := rfl
  have halike : ({} : ScanOptions).Alike d d' := (ScanOptions.alike_iff _ d d').2 (by decide)
  refine ⟨hbuild, halike, ?_⟩
  rw [← (scan_ignores_guarded {} .general hbuild).1 d d' halike]
  decide +kernel

end CodeAudit
