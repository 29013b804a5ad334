import CodeAudit.Finding

/-!
# The order of findings

Scans and remediations put findings in order by line and, on one line, by the place of the rule.

* `Finding.StableOrder`: what it means to be in order, findings with equal keys as they came.
* `stableOrder_mergeSort`: sorting brings any findings into that order.
* `pairwise_before_mergeSort`: findings with distinct keys come out in strict order.
* `eq_of_perm_of_pairwise_before`: there is only one such order.
-/
namespace CodeAudit
namespace Finding

/-- Strictly before: on an earlier line, or on the same line and by an earlier rule. -/
def Before (a b : Finding) : Prop :=
  a.line < b.line ∨ (a.line = b.line ∧ a.ruleIndex < b.ruleIndex)

/-- Whether two findings have the same line and the same place of the rule. -/
def sameKey (a b : Finding) : Bool := a.line == b.line && a.ruleIndex == b.ruleIndex

theorem sameKey_iff (a b : Finding) :
    sameKey a b = true ↔ a.line = b.line ∧ a.ruleIndex = b.ruleIndex := by
  simp [sameKey]

theorem le_iff (a b : Finding) :
    le a b = true ↔ a.line < b.line ∨ (a.line = b.line ∧ a.ruleIndex ≤ b.ruleIndex) := by
  unfold le
  split
  · rename_i h
    simp only [decide_eq_true_eq]
    omega
  · rename_i h
    simp only [decide_eq_true_eq]
    omega

/-- One finding comes no later than another exactly when that one is not strictly before it. -/
theorem le_iff_not_before (a b : Finding) : le a b = true ↔ ¬ Before b a := by
  rw [le_iff]
  unfold Before
  omega

theorem le_trans (a b c : Finding) (hab : le a b = true) (hbc : le b c = true) : le a c = true := by
  rw [le_iff] at *
  omega

theorem le_total (a b : Finding) : (le a b || le b a) = true := by
  rw [Bool.or_eq_true, le_iff, le_iff]
  omega

theorem line_le_of_le {a b : Finding} (h : le a b = true) : a.line ≤ b.line := by
  rw [le_iff] at h
  omega

/-- `ordered` holds the findings of a list in order; those with the same line and the same place of
the rule stand as they stood in the list. -/
structure StableOrder (findings ordered : List Finding) : Prop where
  perm : ordered.Perm findings
  sorted : ordered.Pairwise fun a b => ¬ Before b a
  stable : ∀ f, ordered.filter (sameKey f) = findings.filter (sameKey f)

theorem pairwise_sameKey (f : Finding) (fs : List Finding) :
    (fs.filter (sameKey f)).Pairwise fun a b => le a b = true := by
  apply List.pairwise_of_forall_mem_list
  intro a ha b hb
  have h1 := (sameKey_iff f a).1 (List.mem_filter.1 ha).2
  have h2 := (sameKey_iff f b).1 (List.mem_filter.1 hb).2
  rw [le_iff]
  omega

theorem stableOrder_mergeSort (findings : List Finding) :
    StableOrder findings (findings.mergeSort le) where
  perm := List.mergeSort_perm findings le
  sorted := by
    have h := List.pairwise_mergeSort le_trans le_total findings
    exact h.imp fun hab => (le_iff_not_before _ _).1 hab
  stable f := by
    -- Findings with one key are in order as they came, so sorting keeps them as a sublist.
    have hsub : (findings.filter (sameKey f)).Sublist (findings.mergeSort le) :=
      List.sublist_mergeSort le_trans le_total (pairwise_sameKey f findings) List.filter_sublist
    have hfilter := hsub.filter (sameKey f)
    rw [List.filter_filter] at hfilter
    simp only [Bool.and_self] at hfilter
    have hlen := ((List.mergeSort_perm findings le).filter (sameKey f)).length_eq
    exact (hfilter.eq_of_length hlen.symm).symm

theorem pairwise_before_mergeSort {findings : List Finding}
    (h : findings.Pairwise fun a b => sameKey a b = false) :
    (findings.mergeSort le).Pairwise Before := by
  have hsorted := (stableOrder_mergeSort findings).sorted
  have hdistinct : (findings.mergeSort le).Pairwise fun a b => sameKey a b = false := by
    refine ((List.mergeSort_perm findings le).pairwise_iff fun {a b} hab => ?_).2 h
    rw [← hab, Bool.eq_iff_iff, sameKey_iff, sameKey_iff]
    omega
  refine hsorted.imp₂ (fun a b hab hne => ?_) hdistinct
  have hkey : ¬ (a.line = b.line ∧ a.ruleIndex = b.ruleIndex) := by
    rw [← sameKey_iff, hne]
    simp
  unfold Before at *
  omega

/-- Findings can be put in strict order in one way only. -/
theorem eq_of_perm_of_pairwise_before {as bs : List Finding} (hperm : as.Perm bs)
    (ha : as.Pairwise Before) (hb : bs.Pairwise Before) : as = bs := by
  refine hperm.eq_of_pairwise (fun a b _ _ hab hba => ?_) ha hb
  unfold Before at hab hba
  omega

end Finding
end CodeAudit
