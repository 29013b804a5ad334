import CodeAudit.Engine
import CodeAudit.Proofs.Scan.Hits
import CodeAudit.Summary
import Mathlib.Algebra.BigOperators.Group.List.Basic
import Mathlib.Algebra.GroupWithZero.Nat
import Mathlib.Algebra.Ring.Int.Defs
import Mathlib.Data.List.Induction

/-!
# What a summary counts

A summary counts results by language, and their findings by severity and by category. The category
of a finding is not counted as such: it is read off the label of the finding, up to the first colon.
Labels are made from the name of a category and the name of a rule, and no name of a category has a
colon or white space at its ends, so that what is read off is the name again, whatever the rule is
called.

**Results.**
* `lookup_tallied`, `nodup_tallied`, `sum_tallied`: what counting by a key gives, and that each key
  is listed once.
* `bySeverity_eq`, `lookup_byCategory`, `lookup_byLanguage`: the counts of a summary.
* `categoryKey_type`: the category is read off the label of a rule.
* `summary_counts_findings`: the sums of the counts, and how they behave when lists of results are
  put in another order or joined.
-/
namespace CodeAudit

/-! ## Counting by a key -/

namespace Result

variable {α β : Type} [DecidableEq α]

/-- A count as it is listed: not at all when it is zero. -/
def listed (n : Nat) : Option Int := if n = 0 then none else some n

@[simp] theorem getD_listed (n : Nat) : (listed n).getD 0 = n := by
  unfold listed
  split
  · rename_i h
    rw [h]
    rfl
  · rfl

theorem lookup_cons_eq [BEq α] [LawfulBEq α] (b a : α) (n : Int) (m : List (α × Int)) :
    ((b, n) :: m).lookup a = if a = b then some n else m.lookup a := by
  rw [List.lookup_cons]
  by_cases h : a = b
  · simp [h]
  · rw [beq_false_of_ne h, if_neg h]

theorem lookup_tally [BEq α] [LawfulBEq α] (k a : α) (m : List (α × Int)) :
    (tally k m).lookup a = if a = k then some ((m.lookup k).getD 0 + 1) else m.lookup a := by
  induction m with
  | nil => rw [tally, lookup_cons_eq, List.lookup_nil, List.lookup_nil]; rfl
  | cons p m ih =>
    obtain ⟨b, n⟩ := p
    rw [tally]
    by_cases hb : b = k
    · subst hb
      simp only [if_true, lookup_cons_eq, Option.getD_some]
      split <;> rfl
    · have hk : ¬ k = b := fun heq => hb heq.symm
      simp only [if_neg hb, if_neg hk, lookup_cons_eq, ih]
      by_cases ha : a = b
      · rw [if_pos ha, if_pos ha, if_neg (ha ▸ hb)]
      · rw [if_neg ha, if_neg ha]

theorem mem_keys_tally {k a : α} {m : List (α × Int)} :
    a ∈ (tally k m).map Prod.fst ↔ a = k ∨ a ∈ m.map Prod.fst := by
  induction m with
  | nil => simp [tally]
  | cons p m ih =>
    obtain ⟨b, n⟩ := p
    rw [tally]
    split
    · rename_i hb
      simp [hb]
    · rw [List.map_cons, List.mem_cons, ih, List.map_cons, List.mem_cons]
      tauto

theorem nodup_keys_tally {k : α} {m : List (α × Int)} (h : (m.map Prod.fst).Nodup) :
    ((tally k m).map Prod.fst).Nodup := by
  induction m with
  | nil => simp [tally]
  | cons p m ih =>
    obtain ⟨b, n⟩ := p
    obtain ⟨hb, hm⟩ := List.nodup_cons.1 h
    rw [tally]
    split
    · exact h
    · rename_i hne
      refine List.nodup_cons.2 ⟨fun hmem => ?_, ih hm⟩
      rcases mem_keys_tally.1 hmem with rfl | hmem
      · exact hne rfl
      · exact hb hmem

theorem sum_tally (k : α) (m : List (α × Int)) :
    ((tally k m).map Prod.snd).sum = (m.map Prod.snd).sum + 1 := by
  induction m with
  | nil => rfl
  | cons p m ih =>
    obtain ⟨b, n⟩ := p
    rw [tally]
    split
    · simp only [List.map_cons, List.sum_cons]
      omega
    · simp only [List.map_cons, List.sum_cons, ih]
      omega

/-- How many members of a list have each key, in the order in which the keys come up. -/
def tallied (key : β → α) (xs : List β) : List (α × Int) := xs.foldl (fun m x => tally (key x) m) []

theorem tallied_append_singleton (key : β → α) (xs : List β) (x : β) :
    tallied key (xs ++ [x]) = tally (key x) (tallied key xs) := by
  simp [tallied]

/-- The count of a key is the number of members that have it, and a key that none has is not
listed. -/
theorem lookup_tallied [BEq α] [LawfulBEq α] (key : β → α) (xs : List β) (a : α) :
    (tallied key xs).lookup a = listed (xs.countP (key · = a)) := by
  induction xs using List.reverseRecOn with
  | nil => rfl
  | append_singleton xs x ih =>
    rw [tallied_append_singleton, lookup_tally, List.countP_append]
    by_cases ha : a = key x
    · subst ha
      rw [if_pos rfl, ih, getD_listed]
      simp [listed]
    · have hne : ¬ key x = a := fun heq => ha heq.symm
      simp [ha, hne, ih]

/-- Each key is listed once. -/
theorem nodup_tallied (key : β → α) (xs : List β) : ((tallied key xs).map Prod.fst).Nodup := by
  induction xs using List.reverseRecOn with
  | nil => exact .nil
  | append_singleton xs x ih =>
    rw [tallied_append_singleton]
    exact nodup_keys_tally ih

/-- The counts sum up to the length of the list. -/
theorem sum_tallied (key : β → α) (xs : List β) :
    ((tallied key xs).map Prod.snd).sum = xs.length := by
  induction xs using List.reverseRecOn with
  | nil => rfl
  | append_singleton xs x ih =>
    rw [tallied_append_singleton, sum_tally, ih, List.length_append]
    rfl

end Result

/-! ## Categories and severities of findings -/

/-- A category that passes its check is one of the ten. -/
theorem Category.mem_all {c : Category} (h : c.isValid = true) : c ∈ Category.all := by
  obtain ⟨n⟩ := c
  have hn : 1 ≤ n ∧ n ≤ 10 := by simpa [isValid] using h
  refine List.mem_map.2 ⟨(n - 1).toNat, List.mem_range.2 (by omega), ?_⟩
  rw [Category.mk.injEq]
  omega

/-- The names of the ten categories have neither a colon nor white space at their ends. -/
theorem Category.name_plain {c : Category} (h : c.isValid = true) :
    58 ∉ c.name ∧ Text.trim c.name = c.name := by
  have hall : ∀ c ∈ Category.all, 58 ∉ c.name ∧ Text.trim c.name = c.name := by decide +kernel
  exact hall c (mem_all h)

theorem Severity.mem_all {s : Severity} (h : s.isKnown = true) : s ∈ Severity.all := by
  cases s with
  | other _ => cases h
  | _ => decide

/-- The name of the category is read off the label of a rule, whatever the rule is called. -/
theorem Summary.categoryKey_type {r : Rule} (h : r.category.isValid = true) :
    categoryKey r.type = r.category.name := by
  obtain ⟨hcolon, htrim⟩ := Category.name_plain h
  have hlabel : r.type = r.category.name ++ 58 :: 32 :: r.name := by
    rw [Rule.type, List.append_assoc]
    rfl
  have hbefore : ∀ b ∈ r.category.name, (b != 58) = true := by
    intro b hb
    rw [bne_iff_ne]
    rintro rfl
    exact hcolon hb
  rw [categoryKey, hlabel, List.takeWhile_append_of_pos hbefore]
  simpa using htrim

/-- That a result comes from an analysis with a catalog that was built. -/
def Result.Analysed (r : Result) : Prop :=
  ∃ (e : Engine) (rules : List Rule) (disabled : List Text) (t : Text) (l : Language),
    Catalog.build rules disabled = .ok e.catalog ∧ r = e.analyzeAs t l

/-- The findings of an analysis have known severities and labels that start with their
categories. -/
theorem Result.Analysed.finding {r : Result} (h : r.Analysed) {f : Finding} (hf : f ∈ r.findings) :
    f.severity ∈ Severity.all ∧ Summary.categoryKey f.type = f.category.name := by
  obtain ⟨e, rules, disabled, t, l, hbuild, rfl⟩ := h
  obtain ⟨rule, hrule, hit, -, rfl⟩ := (mem_scan_findings e.options ⟨t⟩ l f).1 hf
  have hfault := (Catalog.valid_of_build hbuild).faultless rule (List.mem_filter.1 hrule).1
  obtain ⟨hcategory, hseverity⟩ := Rule.category_severity_of_fault? hfault
  exact ⟨Severity.mem_all hseverity, Summary.categoryKey_type hcategory⟩

/-! ## The counts of a summary -/

namespace Summary

/-- The findings of some results. -/
def findingsOf (results : List Result) : List Finding := results.flatMap Result.findings

theorem bump_map (k : Severity) (count : Severity → Int) (ss : List Severity) :
    bump k (ss.map fun s => (s, count s)) =
      ss.map fun s => (s, if s = k then count s + 1 else count s) := by
  rw [bump, List.map_map]
  refine List.map_congr_left fun s _ => ?_
  simp only [Function.comp_apply]
  split <;> rfl

/-- All known severities are listed, each with the number of findings that have it. -/
theorem bySeverity_eq (results : List Result) :
    (of results).bySeverity =
      Severity.all.map fun s => (s, ((findingsOf results).countP (·.severity = s) : Int)) := by
  change (findingsOf results).foldl (fun m f => bump f.severity m) (Severity.all.map (·, 0)) = _
  induction findingsOf results using List.reverseRecOn with
  | nil => rfl
  | append_singleton fs f ih =>
    rw [List.foldl_append, ih, List.foldl_cons, List.foldl_nil, bump_map]
    refine List.map_congr_left fun s _ => ?_
    rw [List.countP_append]
    by_cases h : s = f.severity
    · simp [h]
    · have hne : ¬ f.severity = s := fun heq => h heq.symm
      simp [h, hne]

theorem lookup_bySeverity (results : List Result) (k : Severity) :
    (of results).bySeverity.lookup k =
      if k ∈ Severity.all then some ((findingsOf results).countP (·.severity = k) : Int)
        else none := by
  rw [bySeverity_eq]
  cases k with
  | other _ => rfl
  | _ => rfl

theorem lookup_byCategory (results : List Result) (name : Text) :
    (of results).byCategory.lookup name =
      Result.listed ((findingsOf results).countP (categoryKey ·.type = name)) :=
  Result.lookup_tallied (fun f : Finding => categoryKey f.type) _ name

theorem lookup_byLanguage (results : List Result) (l : Language) :
    (of results).byLanguage.lookup l = Result.listed (results.countP (·.language = l)) :=
  Result.lookup_tallied Result.language results l

theorem clean_eq (results : List Result) :
    (of results).clean = results.countP (·.findings = []) := by
  change (results.countP Result.isClean : Int) = _
  refine congrArg _ (List.countP_congr fun r _ => ?_)
  simp [Result.isClean]

/-- Where all severities are known, each finding is counted once. -/
theorem sum_countP_severity {fs : List Finding} (h : ∀ f ∈ fs, f.severity ∈ Severity.all) :
    (Severity.all.map fun s => (fs.countP (·.severity = s) : Int)).sum = fs.length := by
  induction fs with
  | nil => rfl
  | cons f fs ih =>
    have hfs := ih fun g hg => h g (List.mem_cons_of_mem f hg)
    have hf := h f List.mem_cons_self
    simp only [Severity.all, List.map_cons, List.map_nil, List.sum_cons, List.sum_nil,
      List.countP_cons, List.length_cons] at hfs ⊢
    cases hs : f.severity with
    | other l =>
      rw [hs] at hf
      simp [Severity.all] at hf
    | _ =>
      simp
      omega

theorem sum_bySeverity {results : List Result}
    (h : ∀ f ∈ findingsOf results, f.severity ∈ Severity.all) :
    ((of results).bySeverity.map Prod.snd).sum = (findingsOf results).length := by
  rw [bySeverity_eq, List.map_map]
  exact sum_countP_severity h

/-- Two summaries with the same counts. -/
structure SameCounts (s t : Summary) : Prop where
  analyses : s.analyses = t.analyses
  vulnerabilities : s.vulnerabilities = t.vulnerabilities
  clean : s.clean = t.clean
  bySeverity : ∀ k, s.bySeverity.lookup k = t.bySeverity.lookup k
  byCategory : ∀ name, s.byCategory.lookup name = t.byCategory.lookup name
  byLanguage : ∀ l, s.byLanguage.lookup l = t.byLanguage.lookup l

/-- The count of a key; zero for a key that is not listed. -/
def count {α : Type} [BEq α] (m : List (α × Int)) (k : α) : Int := (m.lookup k).getD 0

/-- A summary whose counts are those of two others together. -/
structure Joins (u s t : Summary) : Prop where
  analyses : u.analyses = s.analyses + t.analyses
  vulnerabilities : u.vulnerabilities = s.vulnerabilities + t.vulnerabilities
  clean : u.clean = s.clean + t.clean
  bySeverity : ∀ k, count u.bySeverity k = count s.bySeverity k + count t.bySeverity k
  byCategory : ∀ name, count u.byCategory name = count s.byCategory name + count t.byCategory name
  byLanguage : ∀ l, count u.byLanguage l = count s.byLanguage l + count t.byLanguage l

theorem sameCounts_of_perm {results others : List Result} (h : results.Perm others) :
    (of results).SameCounts (of others) := by
  have hfindings : (findingsOf results).Perm (findingsOf others) := h.flatMap_right _
  constructor
  · exact congrArg Nat.cast h.length_eq
  · exact congrArg Nat.cast hfindings.length_eq
  · exact congrArg Nat.cast (h.countP_eq _)
  · intro k
    rw [lookup_bySeverity, lookup_bySeverity, hfindings.countP_eq]
  · intro name
    rw [lookup_byCategory, lookup_byCategory, hfindings.countP_eq]
  · intro l
    rw [lookup_byLanguage, lookup_byLanguage, h.countP_eq]

theorem joins_append (results more : List Result) :
    (of (results ++ more)).Joins (of results) (of more) := by
  have hfindings : findingsOf (results ++ more) = findingsOf results ++ findingsOf more :=
    List.flatMap_append
  constructor
  · exact (congrArg Nat.cast List.length_append).trans (Int.natCast_add _ _)
  · exact (congrArg Nat.cast ((congrArg _ hfindings).trans List.length_append)).trans
      (Int.natCast_add _ _)
  · exact (congrArg Nat.cast List.countP_append).trans (Int.natCast_add _ _)
  · intro k
    unfold count
    rw [lookup_bySeverity, lookup_bySeverity, lookup_bySeverity, hfindings, List.countP_append]
    split <;> simp
  · intro name
    unfold count
    rw [lookup_byCategory, lookup_byCategory, lookup_byCategory, hfindings, List.countP_append]
    simp
  · intro l
    unfold count
    rw [lookup_byLanguage, lookup_byLanguage, lookup_byLanguage, List.countP_append]
    simp

/-- **What a summary counts.** Of results of analyses, with whatever rules, the counts by language
sum up to the number of results, and those by severity and by category each to the number of
findings. The category of a name is listed once, with the number of findings whose category has that
name, and no other name is listed. The clean results are those without findings. All counts are the
same for the results in another order, and those of two lists one after the other are the sums of
theirs. -/
theorem summary_counts_findings {results : List Result} (h : ∀ r ∈ results, r.Analysed) :
    let s := of results
    let findings := results.flatMap Result.findings
    s.analyses = results.length ∧ s.vulnerabilities = findings.length ∧
    (s.byLanguage.map Prod.snd).sum = s.analyses ∧
    (s.bySeverity.map Prod.snd).sum = s.vulnerabilities ∧
    (s.byCategory.map Prod.snd).sum = s.vulnerabilities ∧
    (s.byCategory.map Prod.fst).Nodup ∧
    (∀ name, s.byCategory.lookup name = Result.listed (findings.countP (·.category.name = name))) ∧
    s.clean = results.countP (·.findings = []) ∧
    (∀ others, results.Perm others → s.SameCounts (of others)) ∧
    ∀ more, (of (results ++ more)).Joins s (of more) := by
  intro s findings
  have hfinding : ∀ f ∈ findings, f.severity ∈ Severity.all ∧
      categoryKey f.type = f.category.name := by
    intro f hf
    obtain ⟨r, hr, hf⟩ := List.mem_flatMap.1 hf
    exact (h r hr).finding hf
  refine ⟨rfl, rfl, Result.sum_tallied _ _, sum_bySeverity fun f hf => (hfinding f hf).1,
    Result.sum_tallied _ _, Result.nodup_tallied _ _, ?_, clean_eq results,
    fun others hperm => sameCounts_of_perm hperm, joins_append results⟩
  intro name
  rw [lookup_byCategory]
  refine congrArg _ (List.countP_congr fun f hf => ?_)
  rw [(hfinding f hf).2]

/-- Three results of a rule with a colon in its name, of which one is clean. -/
theorem rule_with_colon_counted :
    let r : Rule :=
      { id := [105], category := .injection, name := "x: y", severity := .high, languages := [],
        matcher := { kind := .line, pattern := some (.literal [97]) },
        description := [], recommendation := [], fix := some fun lines _ => some lines }
    let e : Engine :=
      { catalog := ⟨[r], [([105], 0)]⟩, options := {}, weights := .default, minScore := 0 }
    let results := [e.analyzeAs [97] .general, e.analyzeAs [98] .general,
      e.analyzeAs [120, 97] .java]
    (∀ x ∈ results, x.Analysed) ∧ (of results).vulnerabilities = 2 ∧ (of results).clean = 1 ∧
      (of results).byCategory.lookup (utf8 "Injection") = some 2 ∧
      ((of results).bySeverity.map Prod.snd).sum = 2 := by
  intro r e results
  have hresults : ∀ x ∈ results, x.Analysed := by
    intro x hx
    simp only [results, List.mem_cons, List.not_mem_nil, or_false] at hx
    rcases hx with rfl | rfl | rfl <;> exact ⟨e, [r], [], _, _, rfl, rfl⟩
  obtain ⟨-, hcount, -, hseverity, -, -, hcategory, hclean, -, -⟩ :=
    summary_counts_findings hresults
  have htwo : (of results).vulnerabilities = 2 := hcount.trans (by decide +kernel)
  exact ⟨hresults, htwo, hclean.trans (by decide +kernel),
    (hcategory "Injection").trans (by decide +kernel), hseverity.trans htwo⟩

end Summary

end CodeAudit
