import CodeAudit.Proofs.Scan.Hits
import CodeAudit.Proofs.Scan.Overruns

/-!
# Rules do not disturb each other

A scan sorts the findings of all rules together, and the place of a rule in its catalog decides the
order on one line. Leaving rules out moves the rules behind them to other places. Here a catalog is
looked at through some of its rules only: what a scan reports of those depends on them and their
order, and on nothing else of the catalog. The one thing that rules do to each other is to end the
scan: a window that overruns loses the findings of all rules.

**Results.**
* `Catalog.indexOf_lt_of_filter_eq`: rules that two catalogs share in one order have their places in
  that order in both.
* `scan_filter_eq`: two catalogs report the same of the rules they share.
* `scan_rules_independent`: what disabling, adding and changing a rule does to a scan.
-/
namespace CodeAudit

namespace Catalog

/-- A finding with the place its rule has in the catalog. -/
def renumber (c : Catalog) (f : Finding) : Finding := { f with ruleIndex := c.indexOf f.ruleId }

theorem Valid.pairwise_indexOf {c : Catalog} (h : c.Valid) :
    c.rules.Pairwise fun r s => c.indexOf r.id < c.indexOf s.id := by
  rw [List.pairwise_iff_getElem]
  intro i j hi hj hij
  rw [h.indexOf_eq (List.getElem?_eq_getElem hi), h.indexOf_eq (List.getElem?_eq_getElem hj)]
  omega

/-- Rules that two catalogs share in one order have their places in that order in both. -/
theorem indexOf_lt_of_filter_eq {c c' : Catalog} (hc : c.Valid) (hc' : c'.Valid) {p : Text → Bool}
    (hshared : c.rules.filter (fun r => p r.id) = c'.rules.filter (fun r => p r.id)) {r s : Rule}
    (hr : r ∈ c.rules) (hs : s ∈ c.rules) (hpr : p r.id = true) (hps : p s.id = true)
    (hlt : c.indexOf r.id < c.indexOf s.id) : c'.indexOf r.id < c'.indexOf s.id := by
  -- Both orders are those of the shared rules, so they agree on any two of these.
  have hleft := hc.pairwise_indexOf.filter fun r => p r.id
  have hright := hc'.pairwise_indexOf.filter fun r => p r.id
  rw [← hshared] at hright
  have hagree : ∀ x ∈ c.rules.filter (fun r => p r.id), ∀ y ∈ c.rules.filter (fun r => p r.id),
      c.indexOf x.id < c.indexOf y.id → c'.indexOf x.id < c'.indexOf y.id := by
    apply List.Pairwise.forall_of_forall_of_flip
    · intro x _ hx
      omega
    · refine hright.imp ?_
      intro x y hxy _
      exact hxy
    · refine hleft.imp ?_
      intro x y hxy (hyx : c.indexOf y.id < c.indexOf x.id)
      omega
  exact hagree r (List.mem_filter.2 ⟨hr, hpr⟩) s (List.mem_filter.2 ⟨hs, hps⟩) hlt

/-- Places depend on the ids only. -/
theorem indexOf_congr {c c' : Catalog} (hc : c.Valid) (hc' : c'.Valid)
    (h : c.rules.map (fun r => r.id) = c'.rules.map (fun r => r.id)) (id : Text) :
    c.indexOf id = c'.indexOf id := by
  have hplace : ∀ rules : List Rule,
      rules.findIdx? (·.id == id) = (rules.map (fun r => r.id)).findIdx? (· == id) := by
    intro rules
    rw [List.findIdx?_map]
    rfl
  unfold indexOf
  rw [hc.index?_eq, hc'.index?_eq, hplace, hplace, h]

end Catalog

section
variable {c c' : Catalog} (o : ScanOptions) (d : Document) (l : Language)

theorem ruleId_of_mem_findings {r : Rule} {i : Int} {f : Finding} (h : f ∈ r.findings o i d l) :
    f.ruleId = r.id := by
  obtain ⟨hit, -, rfl⟩ := List.mem_map.1 h
  rfl

/-- The findings of some of the rules are found by their ids. -/
theorem filter_flatMap_findings (p : Text → Bool) (place : Text → Int) (rs : List Rule) :
    (rs.flatMap fun r => r.findings o (place r.id) d l).filter (fun f => p f.ruleId) =
      (rs.filter fun r => p r.id).flatMap fun r => r.findings o (place r.id) d l := by
  induction rs with
  | nil => rfl
  | cons r rs ih =>
    rw [List.flatMap_cons, List.filter_append, ih, List.filter_cons]
    by_cases hp : p r.id = true
    · rw [if_pos hp, List.flatMap_cons, List.filter_eq_self.2]
      intro f hf
      rw [ruleId_of_mem_findings o d l hf, hp]
    · rw [if_neg hp, List.filter_eq_nil_iff.2, List.nil_append]
      intro f hf
      rw [ruleId_of_mem_findings o d l hf]
      exact hp

theorem map_renumber_findings (c : Catalog) (r : Rule) (i : Int) :
    (r.findings o i d l).map c.renumber = r.findings o (c.indexOf r.id) d l := by
  unfold Rule.findings
  rw [List.map_map]
  rfl

/-- The findings of some rules, as another catalog would number them. -/
theorem perm_renumber_scan (c c' : Catalog) (p : Text → Bool) :
    (((scan c o d l).findings.filter fun f => p f.ruleId).map c'.renumber).Perm
      (((c.rules.filter fun r => p r.id).filter (·.appliesTo l)).flatMap
        fun r => r.findings o (c'.indexOf r.id) d l) := by
  have hrules : (c.rulesFor l).filter (fun r => p r.id) =
      (c.rules.filter fun r => p r.id).filter (·.appliesTo l) := by
    simp only [Catalog.rulesFor, List.filter_filter, Bool.and_comm]
  refine (((perm_scan_findings o d l c).filter _).map _).trans ?_
  rw [filter_flatMap_findings, List.map_flatMap, hrules]
  simp only [map_renumber_findings, List.Perm.refl]

/-- The place that a finding carries is that of its rule. -/
theorem renumber_of_mem_scan {f : Finding} (hf : f ∈ (scan c o d l).findings) :
    c.renumber f = f := by
  obtain ⟨r, -, h, -, rfl⟩ := (mem_scan_findings o d l f).1 hf
  rfl

/-- **Shared rules.** Two catalogs that hold the same rules for some ids, in the same order, report
the same of them, up to the places of the rules. -/
theorem scan_filter_eq (hc : c.Valid) (hc' : c'.Valid) (p : Text → Bool)
    (hshared : c.rules.filter (fun r => p r.id) = c'.rules.filter (fun r => p r.id)) :
    ((scan c o d l).findings.filter fun f => p f.ruleId).map c'.renumber =
      (scan c' o d l).findings.filter fun f => p f.ruleId := by
  have hself : ((scan c' o d l).findings.filter fun f => p f.ruleId).map c'.renumber =
      (scan c' o d l).findings.filter fun f => p f.ruleId := by
    rw [List.map_congr_left (g := id), List.map_id]
    exact fun f hf => renumber_of_mem_scan o d l (List.mem_filter.1 hf).1
  refine Finding.eq_of_perm_of_pairwise_before ?_ ?_ ?_
  · rw [← hself]
    refine (perm_renumber_scan o d l c c' p).trans ?_
    rw [hshared]
    exact (perm_renumber_scan o d l c' c' p).symm
  · -- Renumbering keeps the order, since shared rules stand in the same order in both catalogs.
    rw [List.pairwise_map]
    refine ((pairwise_before_scan o d l hc).filter _).imp_of_mem fun {a b} ha hb hab => ?_
    obtain ⟨ha, hpa⟩ := List.mem_filter.1 ha
    obtain ⟨hb, hpb⟩ := List.mem_filter.1 hb
    obtain ⟨r, hr, h, -, rfl⟩ := (mem_scan_findings o d l a).1 ha
    obtain ⟨s, hs, k, -, rfl⟩ := (mem_scan_findings o d l b).1 hb
    rcases hab with hline | ⟨hline, hidx⟩
    · exact Or.inl hline
    · exact Or.inr ⟨hline, Catalog.indexOf_lt_of_filter_eq hc hc' hshared (List.mem_filter.1 hr).1
        (List.mem_filter.1 hs).1 hpa hpb hidx⟩
  · exact (pairwise_before_scan o d l hc').filter _

/-- **Fewer rules.** A catalog with some of the rules of another reports what that one reports of
them. -/
theorem scan_eq_filter (hc : c.Valid) (hc' : c'.Valid) {p : Text → Bool}
    (hsub : c'.rules = c.rules.filter fun r => p r.id) :
    (scan c' o d l).findings =
      ((scan c o d l).findings.filter fun f => p f.ruleId).map c'.renumber := by
  have hkept : ∀ r ∈ c'.rules, p r.id = true := by
    intro r hr
    rw [hsub] at hr
    exact (List.mem_filter.1 hr).2
  rw [scan_filter_eq o d l hc hc' p (by rw [List.filter_eq_self.2 hkept, hsub])]
  refine (List.filter_eq_self.2 fun f hf => ?_).symm
  obtain ⟨r, hr, h, -, rfl⟩ := (mem_scan_findings o d l f).1 hf
  exact hkept r (List.mem_filter.1 hr).1

/-- A list that is accepted without one of its rules and with it: the rule is left out by its id. -/
theorem rules_eq_filter_of_added {pre post : List Rule} {r : Rule} {disabled : List Text}
    (hbuild : Catalog.build (pre ++ post) disabled = .ok c)
    (hbuild' : Catalog.build (pre ++ r :: post) disabled = .ok c') :
    c.rules = c'.rules.filter fun s => s.id != r.id := by
  have hdistinct := (Catalog.wellFormed_of_build hbuild').distinct
  have hother : ∀ s ∈ pre ++ post, r.id ≠ s.id :=
    (List.pairwise_cons.1 ((List.pairwise_middle fun {x y} h => Ne.symm h).1 hdistinct)).1
  have hkept : (pre ++ post).filter (fun s => s.id != r.id) = pre ++ post := by
    rw [List.filter_eq_self]
    intro s hs
    simpa using Ne.symm (hother s hs)
  have hleft : (pre ++ r :: post).filter (fun s => s.id != r.id) = pre ++ post := by
    rw [List.filter_append, List.filter_cons, bne_self_eq_false, if_neg (by simp),
      ← List.filter_append, hkept]
  rw [Catalog.rules_of_build hbuild, Catalog.rules_of_build hbuild', ← hleft]
  simp only [List.filter_filter, Bool.and_comm]

/-- Another rule under the same id changes no place. -/
theorem indexOf_eq_of_replaced {pre post : List Rule} {r r' : Rule} {disabled : List Text}
    (hid : r'.id = r.id) (hbuild : Catalog.build (pre ++ r :: post) disabled = .ok c)
    (hbuild' : Catalog.build (pre ++ r' :: post) disabled = .ok c') (id : Text) :
    c.indexOf id = c'.indexOf id := by
  apply Catalog.indexOf_congr (Catalog.valid_of_build hbuild) (Catalog.valid_of_build hbuild')
  rw [Catalog.rules_of_build hbuild, Catalog.rules_of_build hbuild']
  simp only [List.filter_append, List.filter_cons, hid, List.map_append]
  split
  · simp only [List.map_cons, hid]
  · rfl

/-- Another rule under the same id changes nothing that is reported of the other rules. -/
theorem scan_filter_eq_of_replaced {pre post : List Rule} {r r' : Rule} {disabled : List Text}
    (hid : r'.id = r.id) (hbuild : Catalog.build (pre ++ r :: post) disabled = .ok c)
    (hbuild' : Catalog.build (pre ++ r' :: post) disabled = .ok c') :
    ((scan c' o d l).findings.filter fun f => f.ruleId != r.id) =
      (scan c o d l).findings.filter fun f => f.ruleId != r.id := by
  have hshared : c.rules.filter (fun s => s.id != r.id) =
      c'.rules.filter fun s => s.id != r.id := by
    rw [Catalog.rules_of_build hbuild, Catalog.rules_of_build hbuild', List.filter_filter,
      List.filter_filter]
    simp only [List.filter_append, List.filter_cons, hid, bne_self_eq_false, Bool.false_and,
      Bool.false_eq_true, if_false]
  rw [← scan_filter_eq o d l (Catalog.valid_of_build hbuild) (Catalog.valid_of_build hbuild')
    (fun id => id != r.id) hshared, List.map_congr_left (g := id), List.map_id]
  intro f hf
  rw [id, Catalog.renumber, ← indexOf_eq_of_replaced hid hbuild hbuild']
  exact renumber_of_mem_scan o d l (List.mem_filter.1 hf).1

/-! ## Scans that may be given up -/

/-- Of two catalogs one of which has all the rules of the other: where the scan over it comes to its
end, so does the scan over the other, and where that one does, so does the first unless a rule more
overruns. -/
theorem exists_checkedScan_iff_of_subset (hc : c.Valid) (hc' : c'.Valid)
    (hsizes : ∀ r ∈ c'.rules, r.matcher.size ≤ maxWord) (hlines : (d.lines.length : Int) ≤ maxWord)
    (hsub : ∀ r ∈ c.rules, r ∈ c'.rules) :
    (∃ s, checkedScan c' o d l = .ok s) ↔
      (∃ s, checkedScan c o d l = .ok s) ∧ ∀ r ∈ c'.rules, r ∉ c.rules → ¬ r.Overruns o l d := by
  rw [exists_checkedScan_iff hc' hsizes hlines,
    exists_checkedScan_iff hc (fun r hr => hsizes r (hsub r hr)) hlines]
  refine ⟨fun h => ⟨fun r hr => h r (hsub r hr), fun r hr _ => h r hr⟩,
    fun ⟨hshared, hmore⟩ r hr => ?_⟩
  by_cases hmem : r ∈ c.rules
  · exact hshared r hmem
  · exact hmore r hr hmem

/-- Fewer rules, whichever scan comes to its end. -/
theorem checkedScan_eq_filter (hc : c.Valid) (hc' : c'.Valid)
    (hsizes : ∀ r ∈ c.rules, r.matcher.size ≤ maxWord) (hlines : (d.lines.length : Int) ≤ maxWord)
    {p : Text → Bool} (hsub : c'.rules = c.rules.filter fun r => p r.id) {s s' : Scan}
    (hs : checkedScan c o d l = .ok s) (hs' : checkedScan c' o d l = .ok s') :
    s'.findings = (s.findings.filter fun f => p f.ruleId).map c'.renumber := by
  have hsizes' : ∀ r ∈ c'.rules, r.matcher.size ≤ maxWord := by
    intro r hr
    rw [hsub] at hr
    exact hsizes r (List.mem_filter.1 hr).1
  rw [eq_scan_of_checkedScan hc hsizes hlines hs, eq_scan_of_checkedScan hc' hsizes' hlines hs']
  exact scan_eq_filter o d l hc hc' hsub

theorem size_le_of_build {rules : List Rule} {disabled : List Text}
    (hbuild : Catalog.build rules disabled = .ok c)
    (hsizes : ∀ r ∈ rules, r.matcher.size ≤ maxWord) :
    ∀ r ∈ c.rules, r.matcher.size ≤ maxWord := by
  intro r hr
  rw [Catalog.rules_of_build hbuild] at hr
  exact hsizes r (List.mem_filter.1 hr).1

/-- A rule more is in the catalog, unless it is disabled, and no other is. -/
theorem mem_added_iff {pre post : List Rule} {r : Rule} {disabled : List Text}
    (hbuild : Catalog.build (pre ++ post) disabled = .ok c)
    (hbuild' : Catalog.build (pre ++ r :: post) disabled = .ok c') {x : Rule} (hx : x ∈ c'.rules) :
    x ∉ c.rules ↔ x = r := by
  rw [rules_eq_filter_of_added hbuild hbuild', List.mem_filter]
  constructor
  · intro hout
    have hid : x.id = r.id := by
      by_contra hne
      exact hout ⟨hx, by simpa using hne⟩
    rw [Catalog.rules_of_build hbuild'] at hx
    exact (Catalog.wellFormed_of_build hbuild').eq_of_id_eq (List.mem_filter.1 hx).1 (by simp) hid
  · rintro rfl
    simp

/-- **Rules do not disturb each other, unless one overruns.** Over any document, whether or not
predicates fail: a scan is given up just when some rule overruns. With some ids disabled, it comes
to its end where the one with none disabled does, and reports the same in the same order, less the
findings of the disabled rules and with the places of the others counted anew; where it alone comes
to its end, a disabled rule overruns. With one rule more, anywhere in the list, the findings of the
other rules stay the same up to their places, unless that rule overruns. With any other rule under
the same id, such as one whose predicate fails, they stay the same altogether as long as both scans
come to their end. -/
theorem scan_rules_independent {rules : List Rule} {disabled : List Text}
    (hbuild : Catalog.build rules disabled = .ok c) (hsizes : ∀ r ∈ rules, r.matcher.size ≤ maxWord)
    (hlines : (d.lines.length : Int) ≤ maxWord) :
    ((∃ s, checkedScan c o d l = .ok s) ↔ ∀ r ∈ c.rules, ¬ r.Overruns o l d) ∧
    (∃ all, Catalog.build rules [] = .ok all ∧
      ((∃ s, checkedScan all o d l = .ok s) ↔ (∃ s, checkedScan c o d l = .ok s) ∧
        ∀ r ∈ rules, r.id ∈ disabled → ¬ r.Overruns o l d) ∧
      ∀ s s', checkedScan all o d l = .ok s → checkedScan c o d l = .ok s' →
        s'.findings = (s.findings.filter fun f => !disabled.contains f.ruleId).map c.renumber) ∧
    (∀ (pre post : List Rule) (r : Rule) (more : Catalog), rules = pre ++ post →
      r.matcher.size ≤ maxWord → Catalog.build (pre ++ r :: post) disabled = .ok more →
        ((∃ s, checkedScan more o d l = .ok s) ↔ (∃ s, checkedScan c o d l = .ok s) ∧
          (r ∈ more.rules → ¬ r.Overruns o l d)) ∧
        ∀ s s', checkedScan more o d l = .ok s → checkedScan c o d l = .ok s' →
          s'.findings = (s.findings.filter fun f => f.ruleId != r.id).map c.renumber) ∧
    (∀ (pre post : List Rule) (r r' : Rule) (other : Catalog), rules = pre ++ r :: post →
      r'.id = r.id → r'.matcher.size ≤ maxWord →
        Catalog.build (pre ++ r' :: post) disabled = .ok other →
        ∀ s s', checkedScan c o d l = .ok s → checkedScan other o d l = .ok s' →
          (s'.findings.filter fun f => f.ruleId != r.id) =
            s.findings.filter fun f => f.ruleId != r.id) := by
  have hc := Catalog.valid_of_build hbuild
  have hkept := size_le_of_build hbuild hsizes
  refine ⟨exists_checkedScan_iff hc hkept hlines, ?_, ?_, ?_⟩
  · obtain ⟨all, hall⟩ : ∃ all, Catalog.build rules [] = .ok all :=
      ⟨_, Catalog.build_eq_ok_iff.2 ⟨Catalog.wellFormed_of_build hbuild, by simp, rfl⟩⟩
    have hallrules : all.rules = rules := by
      rw [Catalog.rules_of_build hall]
      simp
    have hrules : c.rules = all.rules.filter fun r => !disabled.contains r.id := by
      rw [hallrules, Catalog.rules_of_build hbuild]
    have ha := Catalog.valid_of_build hall
    refine ⟨all, hall, ?_, fun s s' hs hs' => checkedScan_eq_filter o d l ha hc
      (size_le_of_build hall hsizes) hlines (p := fun id => !disabled.contains id) hrules hs hs'⟩
    rw [exists_checkedScan_iff_of_subset o d l hc ha (size_le_of_build hall hsizes) hlines
      (by rw [hrules]; simp +contextual), hrules, hallrules]
    simp +contextual
  · rintro pre post r more rfl hsize hmore
    have hm := Catalog.valid_of_build hmore
    have hmorekept : ∀ x ∈ more.rules, x.matcher.size ≤ maxWord := by
      refine size_le_of_build hmore ?_
      simpa [or_imp, forall_and, and_left_comm] using And.intro hsize hsizes
    have hfewer := rules_eq_filter_of_added hbuild hmore
    refine ⟨?_, fun s s' hs hs' => checkedScan_eq_filter o d l hm hc hmorekept hlines
      (p := fun id => id != r.id) hfewer hs hs'⟩
    rw [exists_checkedScan_iff_of_subset o d l hc hm hmorekept hlines
      (by rw [hfewer]; simp +contextual)]
    refine and_congr_right fun _ => ⟨fun h hr => h r hr ((mem_added_iff hbuild hmore hr).2 rfl), ?_⟩
    intro h x hx hout
    obtain rfl := (mem_added_iff hbuild hmore hx).1 hout
    exact h hx
  · rintro pre post r r' other rfl hid hsize hother s s' hs hs'
    have hotherkept : ∀ x ∈ other.rules, x.matcher.size ≤ maxWord := by
      refine size_le_of_build hother fun x hx => ?_
      rcases List.mem_append.1 hx with hx | hx
      · exact hsizes x (List.mem_append_left _ hx)
      · rcases List.mem_cons.1 hx with rfl | hx
        · exact hsize
        · exact hsizes x (List.mem_append_right _ (List.mem_cons_of_mem r hx))
    rw [eq_scan_of_checkedScan hc hkept hlines hs,
      eq_scan_of_checkedScan (Catalog.valid_of_build hother) hotherkept hlines hs']
    exact scan_filter_eq_of_replaced o d l hid hbuild hother

end

/-- Three rules hit one line, or would: the predicate of the second fails. Without that one the
third rule moves up to its place, and its finding is otherwise the same. -/
theorem third_rule_moves_up :
    let matcher : Matcher := { kind := .line, pattern := some (.literal [97]) }
    let rule (id : Text) (m : Matcher) : Rule :=
      { id := id, category := .injection, name := [110], severity := .high, languages := [],
        matcher := m, description := [], recommendation := [], fix :=
          some fun lines _ => some lines }
    let rules :=
      [rule [49] matcher, rule [50] { kind := .predicate, predicate := some fun _ _ => none },
      rule [51] matcher]
    let few : Catalog := ⟨[rule [49] matcher, rule [51] matcher], [([51], 1), ([49], 0)]⟩
    let all : Catalog := ⟨rules, [([51], 2), ([50], 1), ([49], 0)]⟩
    let doc : Document := ⟨[97]⟩
    Catalog.build rules [[50]] = .ok few ∧ (∀ r ∈ rules, r.matcher.size ≤ maxWord) ∧
      (doc.lines.length : Int) ≤ maxWord ∧ Catalog.build rules [] = .ok all ∧
      ∃ s s', checkedScan all {} doc .general = .ok s ∧ checkedScan few {} doc .general = .ok s' ∧
        ∃ f ∈ s.findings, f.ruleId = [51] ∧ f.ruleIndex = 2 ∧
          { f with ruleIndex := 1 } ∈ s'.findings := by
  intro matcher rule rules few all doc
  have hbuild : Catalog.build rules [[50]] = .ok few := rfl
  have hsizes : ∀ r ∈ rules, r.matcher.size ≤ maxWord := by simp [rules, rule, matcher, maxWord]
  have hlines : (doc.lines.length : Int) ≤ maxWord := by decide
  obtain ⟨hends, ⟨all', hall, hiff, heq⟩, -⟩ :=
    scan_rules_independent {} doc .general hbuild hsizes hlines
  obtain rfl : all = all' := Except.ok.inj hall
  -- no rule looks at windows
  have hline : ∀ r ∈ rules, ¬ r.Overruns {} .general doc := by
    simp [rules, rule, matcher, Rule.Overruns, Matcher.Overruns]
  obtain ⟨s', hs'⟩ := hends.2 fun r hr => hline r (by simp [few] at hr; simp [rules]; tauto)
  obtain ⟨s, hs⟩ := hiff.2 ⟨⟨s', hs'⟩, fun r hr _ => hline r hr⟩
  have hf : (rule [51] matcher).finding {} doc 2 ⟨1, 1⟩ ∈ s.findings := by
    rw [eq_scan_of_checkedScan (Catalog.valid_of_build hall) hsizes hlines hs]
    refine (mem_scan_findings {} doc .general _).2 ⟨rule [51] matcher, ?_, ⟨1, 1⟩, by decide, rfl⟩
    exact List.mem_of_getElem? (i := 2) rfl
  refine ⟨hbuild, hsizes, hlines, hall, s, s', hs, hs', _, hf, rfl, rfl, ?_⟩
  rw [heq s s' hs hs']
  exact List.mem_map.2 ⟨_, List.mem_filter.2 ⟨hf, by decide⟩, by rfl⟩

/-- A window as wide as can be ends behind the greatest word from the second line on. With its rule
disabled the other rule reports that line, and with it nothing is reported at all. -/
theorem wide_window_ends_scan :
    let rule (id : Text) (m : Matcher) : Rule :=
      { id := id, category := .injection, name := [110], severity := .high, languages := [],
        matcher := m, description := [], recommendation := [], fix :=
          some fun lines _ => some lines }
    let narrow := rule [49] { kind := .line, pattern := some (.literal [97]) }
    let wide := rule [50] { kind := .window, pattern := some (.literal [98]), size := maxWord }
    let few : Catalog := ⟨[narrow], [([49], 0)]⟩
    let all : Catalog := ⟨[narrow, wide], [([50], 1), ([49], 0)]⟩
    let doc : Document := ⟨[120, 10, 97]⟩
    Catalog.build [narrow, wide] [[50]] = .ok few ∧ Catalog.build [narrow, wide] [] = .ok all ∧
      (∃ s, checkedScan few {} doc .general = .ok s ∧ s.findings.map (·.line) = [2]) ∧
      checkedScan all {} doc .general = .error .room := by
  intro rule narrow wide few all doc
  refine ⟨rfl, rfl, ⟨_, rfl, ?_⟩, rfl⟩
  exact congrArg _ (List.mergeSort_singleton (narrow.finding {} doc 0 ⟨2, 2⟩))

end CodeAudit
