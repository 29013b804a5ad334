import CodeAudit.Score
import Mathlib.Algebra.BigOperators.Group.List.Basic
import Mathlib.Algebra.Ring.Int.Defs
import Mathlib.Data.Int.Order.Basic
import Mathlib.Data.List.Induction

/-!
# What a score adds up to

The weights of findings are added one after the other as 64-bit integers, until a sum reaches 100.
No weight is negative, but a weight may be so great that it does not fit on top of the sum before
it: the sum then wraps to a negative number, which is below 100, and the adding goes on from there.
A score is the exact sum cut off at 100 as long as the sum that first reaches 100 fits in 64 bits.

**Results.**
* `sumFrom_eq_max`, `sumFrom_eq_wrap`, `ofFindings_cases`: a score in terms of the wrapped sums of
  the first findings.
* `ofFindings_eq_min_iff`: when one list of findings gets the exact sum, cut off at 100.
* `neverOverflows_iff`: the weights under which every list does.
* `score_exact_iff_neverOverflows`: all of it, with what follows for longer and for reordered lists.
-/
namespace CodeAudit

namespace Weights

/-- The exact sum of the weights of findings. -/
def exactSum (w : Weights) (fs : List Finding) : Int := (fs.map fun f => w.weight f.severity).sum

/-- A sum below 100 and one more weight always fit in 64 bits. -/
def NeverOverflows (w : Weights) : Prop :=
  ∀ (fs : List Finding) (f : Finding), w.exactSum fs < Score.max →
    w.exactSum fs + w.weight f.severity ≤ maxWord

@[simp] theorem exactSum_nil (w : Weights) : w.exactSum [] = 0 := rfl

@[simp] theorem exactSum_cons (w : Weights) (f : Finding) (fs : List Finding) :
    w.exactSum (f :: fs) = w.weight f.severity + w.exactSum fs := by
  simp [exactSum]

@[simp] theorem exactSum_append (w : Weights) (fs gs : List Finding) :
    w.exactSum (fs ++ gs) = w.exactSum fs + w.exactSum gs := by
  simp [exactSum]

theorem exactSum_perm (w : Weights) {fs gs : List Finding} (h : fs.Perm gs) :
    w.exactSum fs = w.exactSum gs :=
  (h.map _).sum_eq

/-- Weights that pass their check are not negative. -/
theorem weight_nonneg {w : Weights} (hw : w.fault? = none) (s : Severity) : 0 ≤ w.weight s := by
  unfold fault? at hw
  rw [Option.map_eq_none_iff, List.find?_eq_none] at hw
  by_cases hs : s ∈ Severity.all
  · simpa using hw s hs
  · cases s with
    | other _ => exact Int.le_refl 0
    | _ => exact absurd (by decide) hs

variable {w : Weights} (hw : w.fault? = none)
include hw

theorem exactSum_nonneg (fs : List Finding) : 0 ≤ w.exactSum fs := by
  induction fs with
  | nil => exact Int.le_refl 0
  | cons f fs ih =>
    have := weight_nonneg hw f.severity
    rw [exactSum_cons]
    omega

theorem exactSum_le_of_sublist {fs gs : List Finding} (h : fs.Sublist gs) :
    w.exactSum fs ≤ w.exactSum gs := by
  induction h with
  | slnil => exact Int.le_refl 0
  | cons g h ih =>
    have := weight_nonneg hw g.severity
    rw [exactSum_cons]
    omega
  | cons_cons g h ih =>
    rw [exactSum_cons, exactSum_cons]
    omega

end Weights

/-! ## One list of findings -/

namespace Score

/-- Once a wrapped sum of the first findings reaches the greatest score, that is the score. -/
theorem sumFrom_eq_max {w : Weights} {total : Int} (hfits : fitsWord total = true)
    (hlt : total < max)
    {fs p : List Finding} (hp : p <+: fs) (h : max ≤ wrap (total + w.exactSum p)) :
    sumFrom w total (fs.map (·.severity)) = max := by
  induction fs generalizing total p with
  | nil =>
    rw [List.prefix_nil.1 hp, Weights.exactSum_nil, Int.add_zero, wrap_of_fits hfits] at h
    omega
  | cons f fs ih =>
    rw [List.map_cons, sumFrom]
    split
    · rfl
    · rename_i hnext
      cases p with
      | nil =>
        rw [Weights.exactSum_nil, Int.add_zero, wrap_of_fits hfits] at h
        omega
      | cons g p =>
        obtain ⟨rfl, hrest⟩ := List.cons_prefix_cons.1 hp
        refine ih (fitsWord_wrap _) (Int.not_le.1 hnext) hrest ?_
        rwa [wrap_wrap_add, Int.add_assoc, ← Weights.exactSum_cons]

/-- As long as no wrapped sum of the first findings reaches the greatest score, the wrapped sum of
all of them counts, or else zero. -/
theorem sumFrom_eq_wrap {w : Weights} {total : Int} (hfits : fitsWord total = true)
    {fs : List Finding} (h : ∀ p, p <+: fs → wrap (total + w.exactSum p) < max) :
    sumFrom w total (fs.map (·.severity)) = Max.max 0 (wrap (total + w.exactSum fs)) := by
  induction fs generalizing total with
  | nil =>
    rw [List.map_nil, sumFrom, Weights.exactSum_nil, Int.add_zero, wrap_of_fits hfits]
    omega
  | cons f fs ih =>
    have hnext : wrap (total + w.weight f.severity) < max := by
      simpa using h [f] (by simp)
    rw [List.map_cons, sumFrom, if_neg (Int.not_le.2 hnext), ih (fitsWord_wrap _), wrap_wrap_add,
      Int.add_assoc, Weights.exactSum_cons]
    intro p hp
    have := h (f :: p) (List.cons_prefix_cons.2 ⟨rfl, hp⟩)
    rwa [Weights.exactSum_cons, ← Int.add_assoc, ← wrap_wrap_add] at this

/-- What a score is: the greatest one, or what the adding of all weights leaves. -/
theorem ofFindings_cases (w : Weights) (fs : List Finding) :
    (∃ p, p <+: fs ∧ max ≤ wrap (w.exactSum p)) ∧ ofFindings w fs = max ∨
      (∀ p, p <+: fs → wrap (w.exactSum p) < max) ∧
        ofFindings w fs = Max.max 0 (wrap (w.exactSum fs)) := by
  unfold ofFindings ofSeverities
  by_cases h : ∃ p, p <+: fs ∧ max ≤ wrap (w.exactSum p)
  · obtain ⟨p, hp, hmax⟩ := h
    refine Or.inl ⟨⟨p, hp, hmax⟩, sumFrom_eq_max (by decide) (by decide) hp ?_⟩
    rwa [Int.zero_add]
  · have hlt : ∀ p, p <+: fs → wrap (w.exactSum p) < max :=
      fun p hp => Int.not_le.1 fun hmax => h ⟨p, hp, hmax⟩
    refine Or.inr ⟨hlt, ?_⟩
    rw [sumFrom_eq_wrap (by decide), Int.zero_add]
    intro p hp
    rw [Int.zero_add]
    exact hlt p hp

/-- Every score is between 0 and 100. -/
theorem ofFindings_range (w : Weights) (fs : List Finding) :
    0 ≤ ofFindings w fs ∧ ofFindings w fs ≤ max := by
  have hmax : max = 100 := rfl
  rcases ofFindings_cases w fs with ⟨-, h⟩ | ⟨hlt, h⟩
  · omega
  · have := hlt fs (List.prefix_refl fs)
    omega

/-- A list that reaches 100 has a first finding with which it does. -/
theorem exists_first_reaching {w : Weights} {fs : List Finding} (h : max ≤ w.exactSum fs) :
    ∃ p f, p ++ [f] <+: fs ∧ w.exactSum p < max ∧ max ≤ w.exactSum (p ++ [f]) := by
  induction fs using List.reverseRecOn with
  | nil =>
    rw [Weights.exactSum_nil] at h
    exact absurd h (by decide)
  | append_singleton fs f ih =>
    by_cases hlt : w.exactSum fs < max
    · exact ⟨fs, f, List.prefix_refl _, hlt, h⟩
    · obtain ⟨p, g, hp, hbefore, hreach⟩ := ih (Int.not_lt.1 hlt)
      exact ⟨p, g, hp.trans (List.prefix_append fs [f]), hbefore, hreach⟩

section
variable {w : Weights} (hw : w.fault? = none)
include hw

theorem wrap_exactSum_of_le {fs : List Finding} (h : w.exactSum fs ≤ maxWord) :
    wrap (w.exactSum fs) = w.exactSum fs := by
  have := w.exactSum_nonneg hw fs
  apply wrap_of_fits
  rw [fitsWord_iff, minWord_eq]
  omega

/-- The score is the exact sum cut off at 100 unless the sum reaches 100 and no wrapped sum of the
first findings does. -/
theorem ofFindings_eq_min_iff (fs : List Finding) :
    ofFindings w fs = min max (w.exactSum fs) ↔
      w.exactSum fs < max ∨ ∃ p, p <+: fs ∧ max ≤ wrap (w.exactSum p) := by
  have hmax : max = 100 := rfl
  have hword := maxWord_eq
  rcases ofFindings_cases w fs with ⟨⟨p, hp, hreach⟩, h⟩ | ⟨hlt, h⟩
  · have hle := wrap_le (w.exactSum_nonneg hw p)
    have hsum := w.exactSum_le_of_sublist hw hp.sublist
    exact ⟨fun _ => Or.inr ⟨p, hp, hreach⟩, fun _ => by omega⟩
  · have hall := hlt fs (List.prefix_refl fs)
    constructor
    · intro heq
      left
      omega
    · rintro (hsmall | ⟨p, hp, hreach⟩)
      · have hnonneg := w.exactSum_nonneg hw fs
        rw [wrap_exactSum_of_le hw (by omega)] at h
        omega
      · exact absurd (hlt p hp) (Int.not_lt.2 hreach)

/-! ## All lists of findings -/

/-- A great weight on top of a sum below 100 wraps, and the score is lost. -/
theorem ofFindings_eq_zero (hfits : ∀ s, fitsWord (w.weight s) = true) {fs : List Finding}
    {f : Finding}
    (hlt : w.exactSum fs < max) (hgreat : maxWord < w.exactSum fs + w.weight f.severity) :
    ofFindings w (fs ++ [f]) = 0 := by
  have hmax : max = 100 := rfl
  have hword := maxWord_eq
  have hweight := (fitsWord_iff.1 (hfits f.severity)).2
  have hsum : w.exactSum (fs ++ [f]) = w.exactSum fs + w.weight f.severity := by simp
  have hneg : wrap (w.exactSum (fs ++ [f])) < 0 := wrap_lt_zero (by omega) (by omega)
  rcases ofFindings_cases w (fs ++ [f]) with ⟨⟨p, hp, hreach⟩, -⟩ | ⟨-, h⟩
  · rcases List.prefix_concat_iff.1 hp with rfl | hp
    · omega
    · have := w.exactSum_le_of_sublist hw hp.sublist
      rw [wrap_exactSum_of_le hw (by omega)] at hreach
      omega
  · omega

/-- Every list gets its exact sum, cut off at 100, just when no sum below 100 overflows with one
more weight. -/
theorem neverOverflows_iff (hfits : ∀ s, fitsWord (w.weight s) = true) :
    (∀ fs, ofFindings w fs = min max (w.exactSum fs)) ↔ w.NeverOverflows := by
  constructor
  · intro h fs f hlt
    refine Int.not_lt.1 fun hgreat => ?_
    have hmax : max = 100 := rfl
    have hword := maxWord_eq
    have hzero := ofFindings_eq_zero hw hfits hlt hgreat
    rw [h, Weights.exactSum_append, Weights.exactSum_cons, Weights.exactSum_nil, Int.add_zero]
      at hzero
    omega
  · intro h fs
    rw [ofFindings_eq_min_iff hw]
    by_cases hlt : w.exactSum fs < max
    · exact Or.inl hlt
    · obtain ⟨p, f, hp, hbefore, hreach⟩ := exists_first_reaching (Int.not_lt.1 hlt)
      refine Or.inr ⟨p ++ [f], hp, ?_⟩
      have hsum : w.exactSum (p ++ [f]) = w.exactSum p + w.weight f.severity := by simp
      rwa [wrap_exactSum_of_le hw (by rw [hsum]; exact h p f hbefore)]

/-- **Scores are exact just when the weights cannot overflow.** A score is always between 0 and 100.
It is the exact sum of the weights, cut off at 100, for exactly those lists whose sum is below 100
or of which some first findings have a wrapped sum of at least 100. All lists are of that kind just
when no sum below 100 overflows with one more weight, as with weights up to 99 below the largest
word. Then scores do not fall when findings are added, and the order of the findings has no
influence. -/
theorem score_exact_iff_neverOverflows (hfits : ∀ s, fitsWord (w.weight s) = true) :
    (∀ fs, 0 ≤ ofFindings w fs ∧ ofFindings w fs ≤ max) ∧
    (∀ fs, ofFindings w fs = min max (w.exactSum fs) ↔
      w.exactSum fs < max ∨ ∃ p, p <+: fs ∧ max ≤ wrap (w.exactSum p)) ∧
    ((∀ fs, ofFindings w fs = min max (w.exactSum fs)) ↔ w.NeverOverflows) ∧
    ((∀ s, w.weight s + 99 ≤ maxWord) → w.NeverOverflows) ∧
    (w.NeverOverflows → ∀ fs gs,
      (fs.Sublist gs → ofFindings w fs ≤ ofFindings w gs) ∧
        (fs.Perm gs → ofFindings w fs = ofFindings w gs)) := by
  refine ⟨ofFindings_range w, ofFindings_eq_min_iff hw, neverOverflows_iff hw hfits, ?_, ?_⟩
  · intro hsmall fs f hlt
    have := hsmall f.severity
    have hmax : max = 100 := rfl
    omega
  · intro h fs gs
    have hexact := (neverOverflows_iff hw hfits).2 h
    rw [hexact fs, hexact gs]
    refine ⟨fun hsub => ?_, fun hperm => by rw [w.exactSum_perm hperm]⟩
    have := w.exactSum_le_of_sublist hw hsub
    omega

end

/-- The greatest weight that can never overflow, on top of three findings that weigh 33 each. -/
theorem greatest_safe_weight_exact :
    let w : Weights := ⟨9223372036854775708, 33, 0, 0⟩
    let high : Finding := { (default : Finding) with severity := .high }
    let critical : Finding := { (default : Finding) with severity := .critical }
    w.fault? = none ∧ (∀ s, fitsWord (w.weight s) = true) ∧ w.NeverOverflows ∧
      w.exactSum [high, high, high, critical] = maxWord ∧
        ofFindings w [high, high, high, critical] = 100 := by
  intro w high critical
  have hfault : w.fault? = none := by decide
  have hsafe : ∀ s, 0 ≤ w.weight s ∧ w.weight s + 99 ≤ maxWord := by
    intro s
    cases s with
    | other _ => exact (by decide : (0 : Int) ≤ 0 ∧ 0 + 99 ≤ maxWord)
    | _ => decide
  have hfits : ∀ s, fitsWord (w.weight s) = true := by
    intro s
    have := hsafe s
    rw [fitsWord_iff, minWord_eq]
    omega
  obtain ⟨-, -, hiff, hnever, -⟩ := score_exact_iff_neverOverflows hfault hfits
  have hnone := hnever fun s => (hsafe s).2
  exact ⟨hfault, hfits, hnone, by decide, (hiff.2 hnone _).trans (by decide)⟩

/-- A greatest weight on top of a weight of one: the score of both is lost, so that it falls when
the second finding is added, and it is there again when the order is reversed. -/
theorem overflow_loses_score :
    let w : Weights := ⟨maxWord, 0, 0, 1⟩
    let low : Finding := { (default : Finding) with severity := .low }
    let critical : Finding := { (default : Finding) with severity := .critical }
    w.fault? = none ∧ (∀ s, fitsWord (w.weight s) = true) ∧
      ofFindings w [low, critical] = 0 ∧ min max (w.exactSum [low, critical]) = 100 ∧
      ofFindings w [low] = 1 ∧ ofFindings w [critical, low] = 100 := by
  intro w low critical
  refine ⟨by decide, ?_, by decide, by decide, by decide, by decide⟩
  intro s
  cases s with
  | other _ => exact (by decide : fitsWord 0 = true)
  | _ => decide

end Score

end CodeAudit
