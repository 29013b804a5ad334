import CodeAudit.Proofs.Text.Trimming

/-!
# Searching in valid text

In valid UTF-8 no byte is stray: every byte starts a rune or follows one that does, and which of
both it is can be told from the byte alone. So a piece of valid text that starts with a rune is
found only where a rune starts, and then the rune there is the same. A trimmed text is therefore not
found in the white space before it.

**Results.**
* `readRune_append_of_not_stray`: a rune that is no stray byte is read whatever follows it.
* `isValid_between`: what stands between two ASCII bytes of a valid text is valid.
* `not_prefix_drop_of_blank`, `index?_of_blank`: behind white space, a text is first found where it
  stands.
-/
namespace CodeAudit

/-- A byte that is not part of valid UTF-8, read on its own. -/
def Rune.Stray (r : Rune) : Prop := r.code = replacement ∧ r.width = 1

namespace Text

theorem isValid_iff (t : Text) : t.isValid = true ↔ ∀ r ∈ t.runes, ¬ r.Stray := by
  simp [isValid, Rune.Stray, ← imp_iff_not_or]

section
variable {a : UInt8} {t : Text}

/-- A rune that is no stray byte is read whatever follows it. -/
theorem readRune_append_of_not_stray (h : ¬ (readRune a t).Stray) (u : Text) :
    readRune a (t ++ u) = readRune a t := by
  unfold readRune Rune.Stray Rune.width at *
  rcases t with _ | ⟨b, _ | ⟨c, _ | ⟨d, t⟩⟩⟩ <;>
    simp only [List.nil_append, List.cons_append] at h ⊢ <;> grind

theorem isTail_of_not_stray (h : ¬ (readRune a t).Stray) : isTail a = false := by
  unfold readRune Rune.Stray Rune.width at h
  unfold isTail
  rcases t with _ | ⟨b, _ | ⟨c, _ | ⟨d, t⟩⟩⟩ <;> simp only at h <;> grind [second3, second4]

theorem isTail_of_second3 {b : UInt8} (h : second3 a b = true) : isTail b = true := by
  by_contra hb
  rw [second3_of_isTail (Bool.not_eq_true _ ▸ hb)] at h
  cases h

theorem isTail_of_second4 {b : UInt8} (h : second4 a b = true) : isTail b = true := by
  by_contra hb
  rw [second4_of_isTail (Bool.not_eq_true _ ▸ hb)] at h
  cases h

/-- Every byte of a rune but its first follows another one. -/
theorem isTail_of_mem_tail {b : UInt8} (h : b ∈ (readRune a t).raw.tail) : isTail b = true := by
  unfold readRune at h
  rcases t with _ | ⟨c, _ | ⟨d, _ | ⟨e, t⟩⟩⟩ <;> simp only at h <;>
    grind [isTail_of_second3, isTail_of_second4]

end

/-- What stands between two ASCII bytes of a valid text is valid. -/
theorem isValid_between {s t u : Text} {b c : UInt8} (hb : b < 0x80) (hc : c < 0x80)
    (h : (s ++ b :: (t ++ c :: u)).isValid = true) : t.isValid = true := by
  rw [isValid_iff, runes_append s (isTail_of_lt hb), runes_ascii_cons hb,
    runes_append t (isTail_of_lt hc)] at h
  rw [isValid_iff]
  exact fun r hr => h r (by simp [hr])

/-! ## Where a text is found -/

theorem index?_append {p s t : Text} (hne : p ≠ [])
    (h : ∀ i < s.length, ¬ p <+: (s ++ (p ++ t)).drop i) :
    index? p (s ++ (p ++ t)) = some s.length := by
  induction s with
  | nil =>
    obtain ⟨b, p, rfl⟩ := List.exists_cons_of_ne_nil hne
    have hhere : (b :: p).isPrefixOf (b :: (p ++ t)) = true :=
      List.isPrefixOf_iff_prefix.2 (List.prefix_append (b :: p) t)
    rw [List.nil_append, List.cons_append, index?, if_pos hhere, List.length_nil]
  | cons b s ih =>
    have hhere : ¬ p.isPrefixOf (b :: (s ++ (p ++ t))) = true := by
      rw [List.isPrefixOf_iff_prefix]
      exact h 0 (Nat.zero_lt_succ _)
    rw [List.cons_append, index?, if_neg hhere, ih fun i hi => h (i + 1) (Nat.succ_lt_succ hi)]
    rfl

/-- A text that starts with a rune which is neither stray nor white space is not found in white
space. -/
theorem not_prefix_drop_of_blank {core : Text} {r : Rune} (hcore : core.runes.head? = some r)
    (hstray : ¬ r.Stray)
    (hblank : blankRune r = false) {ls ss : List Rune} (hls : ∀ x ∈ ls, blankRune x = true) :
    ∀ {t : Text}, t.runes = ls ++ ss → ∀ i < (ofRunes ls).length, ¬ core <+: t.drop i := by
  obtain ⟨a, v, rfl⟩ : ∃ a v, core = a :: v := by
    cases core with
    | nil => cases hcore
    | cons a v => exact ⟨a, v, rfl⟩
  rw [runes_cons, List.head?_cons, Option.some.injEq] at hcore
  subst hcore
  induction ls with
  | nil => intro t _ i hi; cases hi
  | cons x ls ih =>
    obtain ⟨hx, hmore⟩ := List.forall_mem_cons.1 hls
    intro t ht i hi hfound
    cases t with
    | nil => cases ht
    | cons b u =>
      rw [runes_cons, List.cons_append, List.cons.injEq] at ht
      obtain ⟨rfl, hrest⟩ := ht
      rcases Nat.lt_or_ge i (readRune b u).width with hin | hbehind
      · cases i with
        | zero =>
          -- found at a rune of the white space, it starts with that rune
          obtain ⟨w, hw⟩ := hfound
          rw [List.drop_zero, List.cons_append, List.cons.injEq] at hw
          obtain ⟨rfl, rfl⟩ := hw
          rw [readRune_append_of_not_stray hstray, hblank] at hx
          cases hx
        | succ i =>
          -- found inside of a rune, it starts with a byte that follows another one
          have hmem : a ∈ (readRune b u).raw.tail := by
            obtain ⟨w, hw⟩ := hfound
            rw [List.drop_succ_cons, List.cons_append] at hw
            have hget : u[i]? = some a := by rw [← List.head?_drop, ← hw, List.head?_cons]
            rw [readRune_raw, List.tail_cons]
            exact List.mem_of_getElem? ((List.getElem?_take_of_lt (by omega)).trans hget)
          have htail := isTail_of_mem_tail hmem
          rw [isTail_of_not_stray hstray] at htail
          cases htail
      · have hpos := width_readRune_pos b u
        have hdrop : (b :: u).drop i = (u.drop ((readRune b u).width - 1)).drop
            (i - (readRune b u).width) := by
          rw [List.drop_drop]
          obtain ⟨k, rfl⟩ : ∃ k, i = k + 1 := ⟨i - 1, by omega⟩
          rw [List.drop_succ_cons]
          congr 1
          omega
        rw [hdrop] at hfound
        rw [ofRunes_cons, List.length_append] at hi
        exact ih hmore hrest _ (by rw [Rune.width] at *; omega) hfound

/-- Behind white space, a text is first found where it stands. -/
theorem index?_of_blank {t lead core rest : Text}
    (hrunes : t.runes = lead.runes ++ (core.runes ++ rest.runes))
    (hvalid : t.isValid = true) (hlead : lead.isBlankText = true)
    (hhead : ∀ r, core.runes.head? = some r → blankRune r = false) (hne : core ≠ []) :
    index? core t = some lead.length := by
  obtain ⟨r, rs, hcore⟩ : ∃ r rs, core.runes = r :: rs := by
    obtain ⟨b, v, rfl⟩ := List.exists_cons_of_ne_nil hne
    exact ⟨_, _, runes_cons b v⟩
  have hfirst : core.runes.head? = some r := by rw [hcore, List.head?_cons]
  have hstray : ¬ r.Stray := (isValid_iff t).1 hvalid r (by rw [hrunes, hcore]; simp)
  have hnot := not_prefix_drop_of_blank hfirst hstray (hhead r hfirst)
    (List.all_eq_true.1 hlead) hrunes
  rw [ofRunes_runes, eq_append_of_runes hrunes] at hnot
  rw [eq_append_of_runes hrunes]
  exact index?_append hne hnot

end Text
end CodeAudit
