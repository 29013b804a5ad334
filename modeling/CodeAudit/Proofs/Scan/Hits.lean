import CodeAudit.Proofs.Catalog
import CodeAudit.Proofs.FindingOrder
import CodeAudit.Proofs.Pattern.Search
import CodeAudit.Scan

/-!
# What a scan reports

The three ways of looking at a document (`lineHits`, `windowHits`, `pickLines`) walk over its lines
and collect hits as they go. `Matcher.HitsAt` says of one line alone whether it is the start of a
hit, and a scan reports exactly those lines, each once for each rule, in strict order.

**Hits.** A line rule looks at the line, a window rule at the lines from there on up to the size of
its window or the end of the document, a predicate at the whole document.

**Results.**
* `Matcher.hits?_line_iff`, `Matcher.hits?_distinct`: the hits of one matcher.
* `scan_reports_hits`: the findings of a scan.
-/
namespace CodeAudit

namespace Matcher

/-- Whether a line that does not look like binary data may start a hit: a comment only where the
rule asks for comments. -/
def Reads (m : Matcher) (l : Language) (line : Text) : Prop :=
  m.comments = true ∨ l.isCommentLine line.trim = false

/-- The pattern, when there is one, has a match in the text that starts within `b` bytes. -/
def MatchWithin (p : Option Pattern) (t : Text) (b : Nat) : Prop :=
  ∃ q, p = some q ∧ ∃ k, k ≤ b ∧ q.MatchesAt t k

/-- The pattern, when there is one, has a match in the text. -/
def HasMatch (p : Option Pattern) (t : Text) : Prop := ∃ q, p = some q ∧ ∃ k, q.MatchesAt t k

/-- The line with index `i` starts a hit. -/
def HitsAt (m : Matcher) (o : ScanOptions) (l : Language) (d : Document) (i : Nat) : Prop :=
  ∃ line, d.lines[i]? = some line ∧ o.isGuarded line = false ∧
    match m.kind with
    | .line => m.Reads l line ∧ HasMatch m.pattern line ∧ ¬ HasMatch m.exclude line
    | .window =>
      m.Reads l line ∧
        MatchWithin m.pattern (o.windowText ((d.lines.drop i).take m.size.toNat)) line.length ∧
        ¬ HasMatch m.exclude (o.windowText ((d.lines.drop i).take m.size.toNat))
    | .predicate => ∃ p is, m.predicate = some p ∧ p d l = some is ∧ (i : Int) ∈ is
    | .unknown _ => False

theorem isEligible_iff (m : Matcher) (o : ScanOptions) (l : Language) (line : Text) :
    m.isEligible o l line = true ↔ o.isGuarded line = false ∧ m.Reads l line := by
  simp [isEligible, Reads]

theorem any_matchesIn_iff (p : Option Pattern) (t : Text) :
    p.any (·.matchesIn t) = true ↔ HasMatch p t := by
  cases p with
  | none => simp [HasMatch]
  | some q => simp [HasMatch, Pattern.matchesIn_iff]

/-! ## Walking over the lines -/

/-- Collects what `g` makes of each line, given its number and the lines behind it. -/
def hitsFrom (g : Nat → Text → List Text → Option Hit) : Nat → List Text → List Hit
  | _, [] => []
  | n, line :: rest =>
    match g n line rest with
    | some h => h :: hitsFrom g (n + 1) rest
    | none => hitsFrom g (n + 1) rest

theorem lineHits_eq (m : Matcher) (o : ScanOptions) (l : Language) (lines : List Text) :
    ∀ n, m.lineHits o l n lines = hitsFrom (fun n line _ => m.lineHit? o l n line) n lines := by
  induction lines with
  | nil => intro n; rfl
  | cons line rest ih =>
    intro n
    cases hg : m.lineHit? o l n line <;> simp only [lineHits, hitsFrom, hg, ih]

theorem windowHits_eq (m : Matcher) (o : ScanOptions) (l : Language) (lines : List Text) :
    ∀ n, m.windowHits o l n lines = hitsFrom (m.windowHit? o l) n lines := by
  induction lines with
  | nil => intro n; rfl
  | cons line rest ih =>
    intro n
    cases hg : m.windowHit? o l n line rest <;> simp only [windowHits, hitsFrom, hg, ih]

theorem mem_hitsFrom (g : Nat → Text → List Text → Option Hit) (h : Hit) (lines : List Text) :
    ∀ n, h ∈ hitsFrom g n lines ↔
      ∃ i line, lines[i]? = some line ∧ g (n + i) line (lines.drop (i + 1)) = some h := by
  induction lines with
  | nil => intro n; simp [hitsFrom]
  | cons line rest ih =>
    intro n
    have hsplit : h ∈ hitsFrom g n (line :: rest) ↔
        g n line rest = some h ∨ h ∈ hitsFrom g (n + 1) rest := by
      rw [hitsFrom]
      cases hg : g n line rest with
      | none => simp
      | some x => simp [eq_comm]
    rw [hsplit, ih]
    constructor
    · rintro (hg | ⟨i, x, hx, hg⟩)
      · exact ⟨0, line, rfl, hg⟩
      · refine ⟨i + 1, x, hx, ?_⟩
        rw [show n + (i + 1) = n + 1 + i by omega]
        exact hg
    · rintro ⟨i, x, hx, hg⟩
      cases i with
      | zero =>
        obtain rfl := Option.some.inj hx
        exact Or.inl hg
      | succ i =>
        refine Or.inr ⟨i, x, hx, ?_⟩
        rw [show n + 1 + i = n + (i + 1) by omega]
        exact hg

/-- Hits that carry the number of the line they start on come in increasing order. -/
theorem pairwise_hitsFrom {g : Nat → Text → List Text → Option Hit}
    (hg : ∀ n line rest h, g n line rest = some h → h.line = n) (lines : List Text) :
    ∀ n, (hitsFrom g n lines).Pairwise fun a b => a.line < b.line := by
  induction lines with
  | nil => intro n; exact .nil
  | cons line rest ih =>
    intro n
    rw [hitsFrom]
    cases hline : g n line rest with
    | none => exact ih (n + 1)
    | some x =>
      refine List.pairwise_cons.2 ⟨fun y hy => ?_, ih (n + 1)⟩
      obtain ⟨i, z, -, hz⟩ := (mem_hitsFrom g y rest (n + 1)).1 hy
      rw [hg _ _ _ _ hline, hg _ _ _ _ hz]
      omega

theorem lineHit?_eq_some_iff (m : Matcher) (o : ScanOptions) (l : Language) (n : Nat) (line : Text)
    (h : Hit) :
    m.lineHit? o l n line = some h ↔
      (o.isGuarded line = false ∧ m.Reads l line ∧ HasMatch m.pattern line ∧
        ¬ HasMatch m.exclude line) ∧ h = ⟨n, n⟩ := by
  have hiff : (m.isEligible o l line && m.pattern.any (·.matchesIn line) && !m.excludes line) =
      true ↔ o.isGuarded line = false ∧ m.Reads l line ∧ HasMatch m.pattern line ∧
        ¬ HasMatch m.exclude line := by
    rw [← any_matchesIn_iff m.exclude, Bool.and_eq_true, Bool.and_eq_true, isEligible_iff,
      any_matchesIn_iff, Bool.not_eq_true', Bool.not_eq_true, excludes, and_assoc, and_assoc]
  unfold lineHit?
  rw [← hiff]
  split
  · rename_i hc
    simp [hc, eq_comm]
  · rename_i hc
    simp [hc]

/-- The window of a well-formed rule holds its first line. -/
theorem window_eq_take {m : Matcher} (hsize : 2 ≤ m.size) (line : Text) (rest : List Text) :
    line :: rest.take (m.size.toNat - 1) = (line :: rest).take m.size.toNat := by
  obtain ⟨k, hk⟩ : ∃ k, m.size.toNat = k + 1 := ⟨m.size.toNat - 1, by omega⟩
  rw [hk, List.take_succ_cons, Nat.add_sub_cancel]

theorem windowHit?_isSome_iff (m : Matcher) (o : ScanOptions) (l : Language) (n : Nat) (line : Text)
    (rest : List Text) (hsize : 2 ≤ m.size) :
    (∃ h, m.windowHit? o l n line rest = some h) ↔
      o.isGuarded line = false ∧ m.Reads l line ∧
        MatchWithin m.pattern (o.windowText ((line :: rest).take m.size.toNat)) line.length ∧
        ¬ HasMatch m.exclude (o.windowText ((line :: rest).take m.size.toNat)) := by
  unfold windowHit? hitIn?
  rw [window_eq_take hsize, ← and_assoc, ← isEligible_iff]
  generalize o.windowText ((line :: rest).take m.size.toNat) = t
  by_cases he : m.isEligible o l line = true
  · simp only [he, if_true, true_and]
    rw [← any_matchesIn_iff m.exclude]
    cases hp : m.pattern with
    | none => simp [MatchWithin]
    | some p =>
      have hwithin := Pattern.exists_find?_start_le_iff p t line.length
      have hmatch : MatchWithin (some p) t line.length ↔
          ∃ f, p.find? t = some f ∧ f.start ≤ line.length := by
        rw [hwithin]
        simp [MatchWithin]
      rw [hmatch]
      simp only [Option.bind_some]
      cases hf : p.find? t with
      | none => simp
      | some f =>
        simp only [Option.some.injEq, exists_eq_left', excludes]
        by_cases hlt : line.length < f.start
        · have hle : ¬ f.start ≤ line.length := by omega
          simp [hlt, hle]
        · have hle : f.start ≤ line.length := by omega
          by_cases hx : m.exclude.any (·.matchesIn t) = true
          · simp [hx]
          · simp [hlt, hle, hx]
  · simp [he]

/-- The lines of a hit are those of what was found in the window. -/
theorem windowHit?_eq_some {m : Matcher} {o : ScanOptions} {l : Language} {n : Nat} {line : Text}
    {rest : List Text} {h : Hit} (hh : m.windowHit? o l n line rest = some h) :
    ∃ f : Match,
      h = ⟨n, lastLine n (f.text (o.windowText (line :: rest.take (m.size.toNat - 1))))⟩ := by
  unfold windowHit? hitIn? at hh
  split at hh
  · dsimp only at hh
    split at hh
    · cases hh
    · split at hh
      · cases hh
      · exact ⟨_, (Option.some.inj hh).symm⟩
  · cases hh

theorem windowHit?_line {m : Matcher} {o : ScanOptions} {l : Language} {n : Nat} {line : Text}
    {rest : List Text} {h : Hit} (hh : m.windowHit? o l n line rest = some h) : h.line = n := by
  obtain ⟨f, rfl⟩ := windowHit?_eq_some hh
  rfl

/-! ## Lines that a predicate names -/

theorem mem_pickLines (o : ScanOptions) (lines : List Text) (h : Hit) (is : List Int) :
    ∀ seen : List Int, h ∈ pickLines o lines seen is ↔
      ∃ i : Nat, (i : Int) ∈ is ∧ (i : Int) ∉ seen ∧ h = ⟨i + 1, i + 1⟩ ∧
        ∃ line, lines[i]? = some line ∧ o.isGuarded line = false := by
  induction is with
  | nil => intro seen; simp [pickLines]
  | cons j rest ih =>
    intro seen
    rw [pickLines]
    split
    · -- The index is passed over, and no hit can come from it.
      rename_i hskip
      rw [ih]
      constructor
      · rintro ⟨i, hi, hseen, heq, hline⟩
        exact ⟨i, List.mem_cons_of_mem _ hi, hseen, heq, hline⟩
      · rintro ⟨i, hi, hseen, heq, line, hline, hg⟩
        refine ⟨i, ?_, hseen, heq, line, hline, hg⟩
        rcases List.mem_cons.1 hi with rfl | hi
        · have hlt := (List.getElem?_eq_some_iff.1 hline).1
          simp only [List.contains_eq_mem, Bool.or_eq_true, decide_eq_true_eq] at hskip
          rcases hskip with (hneg | hout) | hin
          · omega
          · omega
          · exact absurd hin hseen
        · exact hi
    · rename_i htake
      simp only [List.contains_eq_mem, Bool.or_eq_true, decide_eq_true_eq, not_or] at htake
      obtain ⟨⟨hneg, hout⟩, hnew⟩ := htake
      obtain ⟨k, rfl⟩ := Int.eq_ofNat_of_zero_le (show 0 ≤ j by omega)
      have hlt : k < lines.length := by omega
      have hget : lines.getD k [] = lines[k] := by simp [List.getD, hlt]
      have hrest : ∀ i : Nat, ((i : Int) ∈ rest ∧ (i : Int) ∉ (k : Int) :: seen) ∨ i = k ↔
          ((i : Int) ∈ (k : Int) :: rest ∧ (i : Int) ∉ seen) := by
        intro i
        have hcast : (i : Int) = k ↔ i = k := by omega
        simp only [List.mem_cons, not_or, hcast]
        by_cases hik : i = k
        · subst hik
          simp [hnew]
        · simp [hik]
      simp only [Int.toNat_natCast, hget]
      split
      · rename_i hguard
        rw [ih]
        constructor
        · rintro ⟨i, hi, hseen, heq, hline⟩
          obtain ⟨h1, h2⟩ := (hrest i).1 (Or.inl ⟨hi, hseen⟩)
          exact ⟨i, h1, h2, heq, hline⟩
        · rintro ⟨i, hi, hseen, heq, line, hline, hg⟩
          rcases (hrest i).2 ⟨hi, hseen⟩ with ⟨h1, h2⟩ | rfl
          · exact ⟨i, h1, h2, heq, line, hline, hg⟩
          · rw [List.getElem?_eq_getElem hlt, Option.some.injEq] at hline
            rw [hline, hg] at hguard
            cases hguard
      · rename_i hguard
        rw [List.mem_cons, ih]
        constructor
        · rintro (rfl | ⟨i, hi, hseen, heq, hline⟩)
          · refine ⟨k, List.mem_cons_self, hnew, rfl, lines[k], ?_, by simpa using hguard⟩
            exact List.getElem?_eq_getElem hlt
          · obtain ⟨h1, h2⟩ := (hrest i).1 (Or.inl ⟨hi, hseen⟩)
            exact ⟨i, h1, h2, heq, hline⟩
        · rintro ⟨i, hi, hseen, heq, hline⟩
          rcases (hrest i).2 ⟨hi, hseen⟩ with ⟨h1, h2⟩ | rfl
          · exact Or.inr ⟨i, h1, h2, heq, hline⟩
          · exact Or.inl heq

theorem pairwise_pickLines (o : ScanOptions) (lines : List Text) (is : List Int) :
    ∀ seen : List Int, (pickLines o lines seen is).Pairwise fun a b => a.line ≠ b.line := by
  induction is with
  | nil => intro seen; exact .nil
  | cons j rest ih =>
    intro seen
    rw [pickLines]
    split
    · exact ih seen
    · rename_i htake
      simp only [List.contains_eq_mem, Bool.or_eq_true, decide_eq_true_eq, not_or] at htake
      simp only
      split
      · exact ih _
      · refine List.pairwise_cons.2 ⟨fun y hy => ?_, ih _⟩
        obtain ⟨i, -, hseen, rfl, -⟩ := (mem_pickLines o lines y rest _).1 hy
        simp only [List.mem_cons, not_or] at hseen
        simp only
        omega

/-! ## The hits of a matcher -/

section
variable {m : Matcher} (o : ScanOptions) (l : Language) (d : Document)

/-- The lines where the hits of a well-formed matcher start are those that start a hit. -/
theorem hits?_line_iff (hm : m.fault? = none) (n : Nat) :
    (∃ h ∈ (m.hits? o l d).getD [], h.line = n) ↔ ∃ i, n = i + 1 ∧ m.HitsAt o l d i := by
  unfold hits? HitsAt
  cases hk : m.kind with
  | line =>
    simp only [Option.getD_some, lineHits_eq, mem_hitsFrom, lineHit?_eq_some_iff]
    constructor
    · rintro ⟨h, ⟨i, line, hline, hhit, rfl⟩, rfl⟩
      exact ⟨i, by simp only; omega, line, hline, hhit⟩
    · rintro ⟨i, rfl, line, hline, hhit⟩
      exact ⟨⟨1 + i, 1 + i⟩, ⟨i, line, hline, hhit, rfl⟩, by simp only; omega⟩
  | window =>
    have hsize := two_le_size hm hk
    -- The window at line `i` is what the walk sees as its line and the lines behind it.
    have hsome : ∀ {i : Nat} {line : Text}, d.lines[i]? = some line →
        ((∃ h, m.windowHit? o l (1 + i) line (d.lines.drop (i + 1)) = some h) ↔
          o.isGuarded line = false ∧ m.Reads l line ∧
            MatchWithin m.pattern (o.windowText ((d.lines.drop i).take m.size.toNat)) line.length ∧
            ¬ HasMatch m.exclude (o.windowText ((d.lines.drop i).take m.size.toNat))) := by
      intro i line hline
      obtain ⟨hlt, hget⟩ := List.getElem?_eq_some_iff.1 hline
      rw [windowHit?_isSome_iff m o l (1 + i) line _ hsize, List.drop_eq_getElem_cons hlt, hget]
    simp only [Option.getD_some, windowHits_eq, mem_hitsFrom]
    constructor
    · rintro ⟨h, ⟨i, line, hline, hhit⟩, rfl⟩
      refine ⟨i, ?_, line, hline, (hsome hline).1 ⟨h, hhit⟩⟩
      rw [windowHit?_line hhit]
      omega
    · rintro ⟨i, rfl, line, hline, hhit⟩
      obtain ⟨h, hh⟩ := (hsome hline).2 hhit
      refine ⟨h, ⟨i, line, hline, hh⟩, ?_⟩
      rw [windowHit?_line hh]
      omega
  | predicate =>
    simp only
    cases hp : m.predicate with
    | none => simp
    | some p =>
      simp only [Option.bind_some]
      cases hpd : p d l with
      | none => simp [hpd]
      | some is =>
        simp only [Option.map_some, Option.getD_some, mem_pickLines, List.not_mem_nil,
          not_false_eq_true, true_and, Option.some.injEq]
        constructor
        · rintro ⟨h, ⟨i, hi, rfl, line, hline, hg⟩, rfl⟩
          exact ⟨i, rfl, line, hline, hg, p, is, rfl, hpd, hi⟩
        · rintro ⟨i, rfl, line, hline, hg, p', is', rfl, hpd', hi⟩
          rw [hpd, Option.some.injEq] at hpd'
          subst hpd'
          exact ⟨⟨i + 1, i + 1⟩, ⟨i, hi, rfl, line, hline, hg⟩, rfl⟩
  | unknown k => simp

/-- No two hits of a matcher start on one line. -/
theorem hits?_distinct (m : Matcher) :
    ((m.hits? o l d).getD []).Pairwise fun a b => a.line ≠ b.line := by
  unfold hits?
  cases m.kind with
  | line =>
    simp only [Option.getD_some, lineHits_eq]
    refine (pairwise_hitsFrom (fun n line rest h hh => ?_) _ _).imp fun hlt => Nat.ne_of_lt hlt
    rw [((lineHit?_eq_some_iff m o l n line h).1 hh).2]
  | window =>
    simp only [Option.getD_some, windowHits_eq]
    exact (pairwise_hitsFrom (fun n line rest h hh => windowHit?_line hh) _ _).imp
      fun hlt => Nat.ne_of_lt hlt
  | predicate =>
    simp only
    cases m.predicate.bind fun p => p d l with
    | none => exact .nil
    | some is => exact pairwise_pickLines o d.lines is []
  | unknown k => exact .nil

end

end Matcher

/-! ## The findings of a scan -/

section
variable {c : Catalog} (o : ScanOptions) (d : Document) (l : Language)

theorem perm_scan_findings (c : Catalog) :
    (scan c o d l).findings.Perm
      ((c.rulesFor l).flatMap fun r => r.findings o (c.indexOf r.id) d l) :=
  List.mergeSort_perm _ _

theorem mem_scan_findings (f : Finding) :
    f ∈ (scan c o d l).findings ↔ ∃ r ∈ c.rulesFor l, ∃ h ∈ (r.matcher.hits? o l d).getD [],
      f = r.finding o d (c.indexOf r.id) h := by
  rw [(perm_scan_findings o d l c).mem_iff]
  unfold Rule.findings
  simp only [List.mem_flatMap, List.mem_map, eq_comm]

/-- Before they are sorted, no two findings have the same line and the same rule. -/
theorem pairwise_sameKey_flatMap (hc : c.Valid) :
    ((c.rulesFor l).flatMap fun r => r.findings o (c.indexOf r.id) d l).Pairwise
      fun a b => Finding.sameKey a b = false := by
  rw [List.pairwise_flatMap]
  constructor
  · -- Of one rule: the hits start on distinct lines.
    intro r hr
    unfold Rule.findings
    rw [List.pairwise_map]
    refine (Matcher.hits?_distinct o l d r.matcher).imp fun {a b} hab => ?_
    rw [← Bool.not_eq_true, Finding.sameKey_iff]
    simp only [Rule.finding]
    omega
  · -- Of two rules: the places differ.
    have hsub : (c.rulesFor l).Sublist c.rules := List.filter_sublist
    refine (hc.distinct.sublist hsub).imp_of_mem fun {r s} hr hs hne f hf g hg => ?_
    unfold Rule.findings at hf hg
    obtain ⟨a, -, rfl⟩ := List.mem_map.1 hf
    obtain ⟨b, -, rfl⟩ := List.mem_map.1 hg
    have hidx := hc.indexOf_ne (hsub.subset hr) (hsub.subset hs) hne
    rw [← Bool.not_eq_true, Finding.sameKey_iff]
    simp only [Rule.finding]
    exact fun heq => hidx heq.2

theorem pairwise_before_scan (hc : c.Valid) :
    (scan c o d l).findings.Pairwise Finding.Before :=
  Finding.pairwise_before_mergeSort (pairwise_sameKey_flatMap o d l hc)

/-- Findings in strict order with the same line and the same place of the rule are the same. -/
theorem eq_of_mem_of_sameKey {fs : List Finding} (h : fs.Pairwise Finding.Before) {a b : Finding}
    (ha : a ∈ fs) (hb : b ∈ fs) (hline : a.line = b.line) (hidx : a.ruleIndex = b.ruleIndex) :
    a = b := by
  induction fs with
  | nil => cases ha
  | cons x fs ih =>
    obtain ⟨hx, hfs⟩ := List.pairwise_cons.1 h
    unfold Finding.Before at hx
    rcases List.mem_cons.1 ha with hax | hafs <;> rcases List.mem_cons.1 hb with hbx | hbfs
    · rw [hax, hbx]
    · have := hx b hbfs
      rw [← hax] at this
      omega
    · have := hx a hafs
      rw [← hbx] at this
      omega
    · exact ih hfs hafs hbfs

/-- **A scan reports the hits of its rules.** Over any catalog that was built, the findings are in
strict order by line and place of the rule; each comes from a rule for the language at a line that
starts a hit of it; and for each such rule and line there is exactly one finding. -/
theorem scan_reports_hits {rules : List Rule} {disabled : List Text}
    (hbuild : Catalog.build rules disabled = .ok c) :
    (scan c o d l).findings.Pairwise Finding.Before ∧
    (∀ f ∈ (scan c o d l).findings, ∃ (idx : Nat) (r : Rule) (i e : Nat),
      c.rules[idx]? = some r ∧ r.appliesTo l = true ∧ r.matcher.HitsAt o l d i ∧
        f = r.finding o d idx ⟨i + 1, e⟩) ∧
    (∀ (idx : Nat) (r : Rule) (i : Nat), c.rules[idx]? = some r → r.appliesTo l = true →
      r.matcher.HitsAt o l d i →
        ∃ f, (f ∈ (scan c o d l).findings ∧ f.ruleId = r.id ∧ f.line = i + 1) ∧
          ∀ g, g ∈ (scan c o d l).findings ∧ g.ruleId = r.id ∧ g.line = i + 1 → g = f) := by
  have hc := Catalog.valid_of_build hbuild
  have hstrict := pairwise_before_scan o d l hc
  have hsound : ∀ f ∈ (scan c o d l).findings, ∃ (idx : Nat) (r : Rule) (i e : Nat),
      c.rules[idx]? = some r ∧ r.appliesTo l = true ∧ r.matcher.HitsAt o l d i ∧
        f = r.finding o d idx ⟨i + 1, e⟩ := by
    intro f hf
    obtain ⟨r, hr, ⟨n, e⟩, hh, rfl⟩ := (mem_scan_findings o d l f).1 hf
    obtain ⟨hmem, happ⟩ := List.mem_filter.1 hr
    obtain ⟨idx, hidx⟩ := List.mem_iff_getElem?.1 hmem
    obtain ⟨i, rfl, hhit⟩ :=
      (Matcher.hits?_line_iff o l d (r.matcher_fault?_eq_none (hc.faultless r hmem)) n).1
        ⟨_, hh, rfl⟩
    exact ⟨idx, r, i, e, hidx, happ, hhit, by rw [hc.indexOf_eq hidx]⟩
  refine ⟨hstrict, hsound, ?_⟩
  intro idx r i hidx happ hhit
  have hmem := List.mem_of_getElem? hidx
  obtain ⟨h, hh, hline⟩ :=
    (Matcher.hits?_line_iff o l d (r.matcher_fault?_eq_none (hc.faultless r hmem)) (i + 1)).2
      ⟨i, rfl, hhit⟩
  have hf : r.finding o d (c.indexOf r.id) h ∈ (scan c o d l).findings :=
    (mem_scan_findings o d l _).2 ⟨r, List.mem_filter.2 ⟨hmem, happ⟩, h, hh, rfl⟩
  have hfline : (r.finding o d (c.indexOf r.id) h).line = i + 1 := by
    simp only [Rule.finding, hline]
    omega
  refine ⟨r.finding o d (c.indexOf r.id) h, ⟨hf, rfl, hfline⟩, ?_⟩
  rintro g ⟨hg, hid, hgline⟩
  obtain ⟨idx', s, i', e, hidx', -, -, rfl⟩ := hsound g hg
  have hplace : (idx' : Int) = c.indexOf r.id := by
    rw [← hc.indexOf_eq hidx']
    exact congrArg c.indexOf hid
  exact eq_of_mem_of_sameKey hstrict hg hf (hgline.trans hfline.symm) hplace

end

/-- A piece that a line break runs through is reported on the line where it starts. -/
theorem split_piece_reported :
    let r : Rule :=
      { id := [119], category := .injection, name := [110], severity := .high, languages := [],
        matcher := { kind := .window, pattern := some (.spaced [[97], [98]]), size := 2 },
        description := [], recommendation := [], fix := some fun lines _ => some lines }
    let doc : Document := ⟨[120, 10, 97, 10, 98]⟩
    let c : Catalog := ⟨[r], [([119], 0)]⟩
    Catalog.build [r] [] = .ok c ∧ r.matcher.HitsAt {} .general doc 1 ∧
      ∃ f ∈ (scan c {} doc .general).findings, f.ruleId = [119] ∧ f.line = 2 := by
  intro r doc c
  have hbuild : Catalog.build [r] [] = .ok c := rfl
  have hhit : r.matcher.HitsAt {} .general doc 1 := by
    refine ⟨[97], by decide, by decide, Or.inr (by decide), ⟨_, rfl, ?_⟩, ?_⟩
    · exact (Pattern.exists_find?_start_le_iff _ _ _).1 ⟨⟨0, 3, []⟩, by decide, by decide⟩
    · rintro ⟨q, hq, -⟩
      cases hq
  obtain ⟨-, -, hreported⟩ := scan_reports_hits {} doc .general hbuild
  obtain ⟨f, ⟨hf, hid, hline⟩, -⟩ := hreported 0 r 1 rfl rfl hhit
  exact ⟨hbuild, hhit, f, hf, hid, hline⟩

end CodeAudit
