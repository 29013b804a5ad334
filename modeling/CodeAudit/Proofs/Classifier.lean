import CodeAudit.Classifier

/-!
# The best score

The language of a text is chosen by going through the scores and keeping the best so far, which
starts as the general language with nothing. The general language has no markers, so it is only
chosen when no score is as great as the least one asked for.

**Results.**
* `le_best`, `best_mem`: the best of some scores is one of them, and none is greater.
* `classify_eq_general_iff`: when a text is in no language but the general one.
-/
namespace CodeAudit

namespace Classifier

theorem le_best (b : Language × Nat) (ss : List (Language × Nat)) :
    b.2 ≤ (best b ss).2 ∧ ∀ s ∈ ss, s.2 ≤ (best b ss).2 := by
  induction ss generalizing b with
  | nil => exact ⟨Nat.le_refl _, nofun⟩
  | cons s ss ih =>
    obtain ⟨hkept, hrest⟩ := ih (if b.2 < s.2 then s else b)
    have hboth : b.2 ≤ (if b.2 < s.2 then s else b).2 ∧ s.2 ≤ (if b.2 < s.2 then s else b).2 := by
      split <;> omega
    rw [best]
    exact ⟨Nat.le_trans hboth.1 hkept, List.forall_mem_cons.2 ⟨Nat.le_trans hboth.2 hkept, hrest⟩⟩

theorem best_mem (b : Language × Nat) (ss : List (Language × Nat)) : best b ss ∈ b :: ss := by
  induction ss generalizing b with
  | nil => exact List.mem_singleton_self b
  | cons s ss ih =>
    have hfrom := ih (if b.2 < s.2 then s else b)
    rw [best]
    split at hfrom <;> grind

@[simp] theorem score_general (t : Text) : score t .general = 0 := by
  unfold score
  split <;> rfl

/-- A text is in the general language just when no language reaches the least score asked for. -/
theorem classify_eq_general_iff {minScore : Int} (h : 0 < minScore) (t : Text) :
    classify minScore t = .general ↔ ∀ l ∈ Language.all, (score t l : Int) < minScore := by
  have hmem := best_mem (.general, 0) (scores t)
  have hle := (le_best (.general, 0) (scores t)).2
  have hscore : (best (.general, 0) (scores t)).2 = score t (best (.general, 0) (scores t)).1 := by
    rcases List.mem_cons.1 hmem with heq | hmem
    · rw [heq, score_general]
    · obtain ⟨l, -, heq⟩ := List.mem_map.1 hmem
      rw [← heq]
  simp only [classify, choose]
  constructor
  · intro hgeneral l hl
    have hbelow := hle (l, score t l) (List.mem_map_of_mem hl)
    split at hgeneral
    · simp only at hbelow
      omega
    · rw [hgeneral, score_general] at hscore
      omega
  · intro hall
    refine if_pos ?_
    rcases List.mem_cons.1 hmem with heq | hmem
    · rw [heq]
      exact h
    · obtain ⟨l, hl, heq⟩ := List.mem_map.1 hmem
      rw [← heq]
      exact hall l hl

end Classifier
end CodeAudit
