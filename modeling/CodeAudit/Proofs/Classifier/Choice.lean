import CodeAudit.Proofs.Classifier

/-!
# Which language a text is given

The scores are gone through in the order in which ties resolve, and the best so far only gives way
to a greater one. So the choice falls on the earliest of the languages with the greatest score.
Every occurrence of a marker counts up to a limit, and so do the tags of a page: no text, however
long or repetitive, scores higher than the sum of what its language's markers can add.

**Results.**
* `Pattern.length_findAllUpTo_le`, `score_le_ceiling`: no score is above the ceiling of its
  language.
* `find?_best`: going through some scores finds the first of the greatest ones.
* `classify_earliest_best`: the choice for any text and any least score, with the ceilings.
-/
namespace CodeAudit

/-! ## Limits -/

/-- No more matches are found than asked for. -/
theorem Pattern.length_findAllFrom_le (p : Pattern) (fuel : Nat) :
    ∀ limit before rest offset last, (p.findAllFrom fuel limit before rest offset last).length ≤
      limit := by
  induction fuel with
  | zero => intros; exact Nat.zero_le _
  | succ fuel ih =>
    intro limit before rest offset last
    cases limit with
    | zero => exact Nat.le_refl 0
    | succ limit =>
      rw [findAllFrom]
      split
      · exact Nat.zero_le _
      · split
        · exact Nat.succ_le_succ (ih limit ..)
        · rename_i i u _ _
          dsimp only
          -- a match without runes is left out where the one before it ended
          generalize hfound : (if last == some i then [] else [(⟨i, u.len, u.marks⟩ : Match)]) =
            found
          have hone : found.length ≤ 1 := by
            rw [← hfound]
            split <;> simp
          split
          · omega
          · rw [List.length_append]
            exact Nat.le_trans (Nat.add_le_add_left (ih (limit + 1 - found.length) ..) _) (by omega)

theorem Pattern.length_findAllUpTo_le (p : Pattern) (limit : Nat) (t : Text) :
    (p.findAllUpTo limit t).length ≤ limit := p.length_findAllFrom_le ..

theorem Marker.score_le (m : Marker) (t : Text) : m.score t ≤ m.weight * m.limit := by
  rw [Marker.score, Nat.mul_comm m.weight]
  exact Nat.mul_le_mul_right _ (m.pattern.length_findAllUpTo_le m.limit t)

namespace Classifier

/-- The highest score of a language: all its markers as often as they count. -/
def ceiling : Language → Nat
  | .html => 40
  | l => (markers l).foldr (fun m n => m.weight * m.limit + n) 0 + if hasBraces l then 5 else 0

theorem foldr_score_le (t : Text) (ms : List Marker) :
    ms.foldr (·.score t + ·) 0 ≤ ms.foldr (fun m n => m.weight * m.limit + n) 0 := by
  induction ms with
  | nil => exact Nat.le_refl 0
  | cons m ms ih => exact Nat.add_le_add (m.score_le t) ih

theorem pageScore_le (t : Text) : pageScore t ≤ 40 := by
  have hdoctype : doctype.score t ≤ 10 := doctype.score_le t
  unfold pageScore tagLimit tagWeight
  split <;> omega

theorem score_le_ceiling (t : Text) (l : Language) : score t l ≤ ceiling l := by
  have hmarkers := foldr_score_le t (markers l)
  have hend : statementEnd.score t ≤ 5 := statementEnd.score_le t
  unfold score
  split
  · exact Nat.zero_le _
  · split
    · exact pageScore_le t
    · rename_i hpage
      have hceiling : ceiling l =
          (markers l).foldr (fun m n => m.weight * m.limit + n) 0 + if hasBraces l then 5
            else 0 := by
        unfold ceiling
        split
        · exact absurd rfl hpage
        · rfl
      rw [hceiling]
      split <;> omega

/-- The ceilings of the languages, in the order in which ties resolve. -/
example : Language.all.map ceiling = [95, 96, 96, 104, 89, 40, 54, 0] := by decide

/-! ## The earliest of the greatest -/

theorem best_eq_self {b : Language × Nat} {ss : List (Language × Nat)} (h : (best b ss).2 ≤ b.2) :
    best b ss = b := by
  induction ss generalizing b with
  | nil => rfl
  | cons s ss ih =>
    have hs := (le_best b (s :: ss)).2 s List.mem_cons_self
    have hkept : ¬ b.2 < s.2 := by omega
    rw [best, if_neg hkept] at h ⊢
    exact ih h

/-- What beats the score at the start is the first of the greatest ones. -/
theorem find?_best {b : Language × Nat} {ss : List (Language × Nat)} (h : b.2 < (best b ss).2) :
    ss.find? (fun s => s.2 = (best b ss).2) = some (best b ss) := by
  induction ss generalizing b with
  | nil => exact absurd h (Nat.lt_irrefl _)
  | cons s ss ih =>
    rw [best] at h ⊢
    by_cases hs : b.2 < s.2
    · rw [if_pos hs] at h ⊢
      by_cases hlater : s.2 < (best s ss).2
      · rw [List.find?_cons_of_neg (by simp only [decide_eq_true_eq]; omega)]
        exact ih hlater
      · have hself := best_eq_self (Nat.le_of_not_lt hlater)
        rw [hself]
        exact List.find?_cons_of_pos (decide_eq_true rfl)
    · rw [if_neg hs] at h ⊢
      rw [List.find?_cons_of_neg (by simp only [decide_eq_true_eq]; omega)]
      exact ih h

theorem snd_best (b : Language × Nat) (ss : List (Language × Nat)) :
    (best b ss).2 = (ss.map Prod.snd).foldl max b.2 := by
  induction ss generalizing b with
  | nil => rfl
  | cons s ss ih =>
    rw [best, ih, List.map_cons, List.foldl_cons]
    congr 1
    split <;> omega

/-- The greatest of all scores is that of the best. -/
theorem max?_scores (t : Text) :
    ((scores t).map Prod.snd).max? = some (best (.general, 0) (scores t)).2 := by
  have hscores : scores t = (.php, score t .php) :: Language.all.tail.map fun l => (l, score t l) :=
    rfl
  rw [snd_best, hscores, List.map_cons, List.max?_cons', List.foldl_cons, Nat.zero_max]

theorem find?_scores (t : Text) (p : Language × Nat → Bool) :
    (scores t).find? p =
      (Language.all.find? fun l => p (l, score t l)).map fun l => (l, score t l) :=
  List.find?_map ..

/-- The general language has no score that could be looked for. -/
theorem find?_languages {t : Text} {best : Nat} (hbest : 0 < best) :
    [.php, .python, .java, .javaScript, .c, .html, .css].find? (fun l => score t l = best) =
      Language.all.find? (fun l => score t l = best) := by
  have hall : Language.all = [.php, .python, .java, .javaScript, .c, .html, .css] ++
      [.general] := rfl
  have hgeneral : [Language.general].find? (fun l => score t l = best) = none := by
    simp only [List.find?_eq_none, List.mem_singleton, decide_eq_true_eq]
    rintro l rfl
    rw [score_general]
    omega
  rw [hall, List.find?_append, hgeneral, Option.or_none]

/-- **The language of a text.** It is the earliest language with the greatest score if that is as
great as the least one asked for, and general otherwise. No score is above the ceiling of its
language, and asking for more can only make a text general. -/
theorem classify_earliest_best {minScore : Int} (h : 1 ≤ minScore) (t : Text) :
    ∃ best : Nat, ((scores t).map Prod.snd).max? = some best ∧
      (minScore ≤ best → [.php, .python, .java, .javaScript, .c, .html, .css].find?
        (fun l => score t l = best) = some (classify minScore t)) ∧
      (best < minScore → classify minScore t = .general) ∧
      (∀ s ∈ scores t, s.2 ≤ ceiling s.1) ∧
      ∀ more, minScore ≤ more → classify more t = classify minScore t ∨
        classify more t = .general := by
  refine ⟨_, max?_scores t, fun hreached => ?_, fun hbelow => if_pos hbelow, ?_,
    fun more hmore => ?_⟩
  · have hbest : 0 < (best (.general, 0) (scores t)).2 := by omega
    have hchosen : classify minScore t = (best (.general, 0) (scores t)).1 := if_neg (by omega)
    have hfound := find?_best (b := (.general, 0)) hbest
    rw [find?_scores] at hfound
    obtain ⟨l, hl, heq⟩ := Option.map_eq_some_iff.1 hfound
    rw [find?_languages hbest, hchosen, hl, ← heq]
  · exact List.forall_mem_map.2 fun l _ => score_le_ceiling t l
  · by_cases hbelow : ((best (.general, 0) (scores t)).2 : Int) < more
    · exact .inr (if_pos hbelow)
    · refine .inl ?_
      have hmoreChosen : classify more t = (best (.general, 0) (scores t)).1 := if_neg hbelow
      rw [hmoreChosen]
      exact (if_neg (by omega)).symm

/-- An opening tag tells its language, while a score of 105 is out of reach for any text. -/
theorem php_tag_classified :
    (1 : Int) ≤ 2 ∧ classify 2 "<?php" ≠ .general ∧ (1 : Int) ≤ 105 ∧
      classify 105 "<?php" = .general := by
  obtain ⟨best, hbest, hfound, -⟩ := classify_earliest_best (by decide : (1 : Int) ≤ 2) "<?php"
  obtain ⟨_, hsame, -, hbelow, hceiling, -⟩ :=
    classify_earliest_best (by decide : (1 : Int) ≤ 105) "<?php"
  obtain rfl := Option.some.inj (hbest.symm.trans hsame)
  obtain ⟨hmem, hgreatest⟩ := List.max?_eq_some_iff.1 hbest
  have hopening : (⟨.read r"<\?php", 10, 1⟩ : Marker).score "<?php" = 10 := by decide +kernel
  have hscore : 10 ≤ score "<?php" .php := by
    have hblank : Text.isBlankText "<?php" = false := by decide
    simp only [score, hblank, markers, phpMarkers, List.foldr_cons, hopening, Bool.false_eq_true,
      if_false]
    omega
  have hphp : score "<?php" .php ≤ best :=
    hgreatest _ (List.mem_map.2 ⟨(.php, _), List.mem_cons_self, rfl⟩)
  have hmost : best ≤ 104 := by
    obtain ⟨s, hs, rfl⟩ := List.mem_map.1 hmem
    obtain ⟨l, hl, rfl⟩ := List.mem_map.1 hs
    exact Nat.le_trans (hceiling _ hs) ((by decide : ∀ l ∈ Language.all, ceiling l ≤ 104) l hl)
  refine ⟨by decide, fun hgeneral => ?_, by decide, hbelow (by omega)⟩
  have hchosen := List.mem_of_find?_eq_some (hfound (by omega))
  rw [hgeneral] at hchosen
  exact absurd hchosen (by decide)

end Classifier
end CodeAudit
