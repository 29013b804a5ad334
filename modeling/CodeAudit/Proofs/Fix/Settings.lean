import CodeAudit.Proofs.Fix.Flip

/-!
# Settings

A setting is a name, then separators, then a switch value. It can be divided in one way only, since
neither names nor values have separators. When the value of a setting gives way to one of the other
kind, no setting of the first kind is left there, whatever stands around it: such a setting would
end with the new value, or with a part of the name.

**Results.**
* `Setting.value_eq`: a setting read from another place ends with the same value.
* `Switch`: what the patterns of switches have in common.
* `Switch.seals`: inverted settings hold no setting.
-/
namespace CodeAudit.Builtin

open Pattern

/-- The letters that values of one kind are made of, one of which tells them from values of the
other kind, and those that names start with. -/
structure Letters where
  first : List (Nat × Nat)
  value : List (Nat × Nat)
  mark : List (Nat × Nat)

/-- The separators that give a name its value. -/
def assignMarks : List (Nat × Nat) := [(40, 40), (44, 44), (58, 58), (61, 61)]

/-- A name, separators and a value. -/
structure Setting (k : Letters) (n s v : List Nat) : Prop where
  name_ne : n ≠ []
  name : ∀ c ∈ n, isSeparator c = false
  sep : ∀ c ∈ s, isSeparator c = true
  assigned : ∃ c ∈ s, CodeSet.hasCode assignMarks c = true
  value : switchValue.Piece none v none
  codes : ∀ c ∈ v, CodeSet.hasCode k.value c = true
  mark : ∃ c ∈ v, CodeSet.hasCode k.mark c = true

/-- A value of the other kind: it has a letter that no value of this kind has, and none that tells
them apart. -/
structure Inverse (k : Letters) (v : List Nat) : Prop where
  word : ∀ c ∈ v, isWordCode c = true
  first : ∀ c ∈ v, CodeSet.hasCode k.first c = false
  mark : ∀ c ∈ v, CodeSet.hasCode k.mark c = false
  other : ∃ c ∈ v, CodeSet.hasCode k.value c = false

instance (k : Letters) (v : List Nat) : Decidable (Inverse k v) :=
  decidable_of_iff ((∀ c ∈ v, isWordCode c = true) ∧ (∀ c ∈ v, CodeSet.hasCode k.first c = false) ∧
      (∀ c ∈ v, CodeSet.hasCode k.mark c = false) ∧ ∃ c ∈ v, CodeSet.hasCode k.value c = false)
    ⟨fun h => ⟨h.1, h.2.1, h.2.2.1, h.2.2.2⟩, fun h => ⟨h.word, h.first, h.mark, h.other⟩⟩

theorem isSeparator_of_isWordCode {c : Nat} (h : isWordCode c = true) : isSeparator c = false := by
  rw [isWordCode_eq] at h
  exact CodeSet.hasCode_of_rangesApart (by decide) h

/-! ## One way to divide -/

section

variable {k : Letters} {n s v x t z : List Nat}

theorem Inverse.ne_nil (hv : Inverse k v) : v ≠ [] := by
  obtain ⟨c, hc, -⟩ := hv.other
  exact List.ne_nil_of_mem hc

theorem Setting.value_ne (h : Setting k n s v) : v ≠ [] := value_ne_nil h.value

theorem Setting.sep_ne (h : Setting k n s v) : s ≠ [] := by
  obtain ⟨c, hc, -⟩ := h.assigned
  exact List.ne_nil_of_mem hc

theorem Setting.value_sep (h : Setting k n s v) :
    ∀ c ∈ v, isSeparator c = false := isSeparator_of_mem_value h.value

/-- A setting does not end with separators. -/
theorem Setting.not_ends_with_sep (h : Setting k n s v) (ht : t ≠ [])
    (htsep : ∀ c ∈ t, isSeparator c = true) :
    n ++ (s ++ v) ≠ x ++ t := by
  intro heq
  have hlast : v.getLast? = t.getLast? := by
    have := congrArg List.getLast? heq
    rwa [← List.append_assoc, List.getLast?_append, getLast?_or h.value_ne, List.getLast?_append,
      getLast?_or ht] at this
  have hmem := List.mem_of_getLast? (hlast.trans (List.getLast?_eq_some_getLast ht))
  have := h.value_sep _ hmem
  rw [htsep _ (List.getLast_mem ht)] at this
  cases this

/-- The last separators of a setting, and what stands behind them. -/
theorem Setting.value_eq (h : Setting k n s v) (heq : n ++ (s ++ v) = x ++ (t ++ z)) (ht : t ≠ [])
    (htsep : ∀ c ∈ t, isSeparator c = true) (hz : ∃ c, z.head? = some c ∧ isSeparator c = false) :
    z = v ∧ x ++ t = n ++ s := by
  obtain ⟨c, hzc, hcsep⟩ := hz
  rw [← List.append_assoc, ← List.append_assoc] at heq
  rcases append_eq_append_cases heq with ⟨e, hxt, hv⟩ | ⟨e, he, hns, hz⟩
  · by_cases he : e = []
    · subst he
      exact ⟨hv.symm, by rw [hxt, List.append_nil]⟩
    · -- the separators would end within the value
      have hlast : t.getLast? = e.getLast? := by
        have := congrArg List.getLast? hxt
        rwa [List.getLast?_append, List.getLast?_append, getLast?_or ht, getLast?_or he] at this
      have hmem := List.mem_of_getLast? (hlast.trans (List.getLast?_eq_some_getLast he))
      have := h.value_sep (e.getLast he)
        (by rw [hv]; exact List.mem_append_left z (List.getLast_mem he))
      rw [htsep _ hmem] at this
      cases this
  · obtain ⟨d, e, rfl⟩ := List.exists_cons_of_ne_nil he
    rw [hz, List.cons_append, List.head?_cons, Option.some.injEq] at hzc
    subst hzc
    rcases append_eq_append_cases hns with ⟨f, -, hs⟩ | ⟨f, -, hn, -⟩
    · -- what follows would begin within the separators
      rw [h.sep d (by simp [hs])] at hcsep
      cases hcsep
    · obtain ⟨a, ha⟩ := List.exists_mem_of_ne_nil t ht
      have := h.name a (by simp [hn, ha])
      rw [htsep a ha] at this
      cases this

/-- The end of a setting that is a setting has the same separators, and the end of its name. -/
theorem Setting.name_eq {n' s' v' : List Nat} (h : Setting k n s v) (h' : Setting k n' s' v')
    (heq : n ++ (s ++ v) = x ++ (n' ++ (s' ++ v'))) : n = x ++ n' ∧ s = s' := by
  obtain ⟨c, r, hc⟩ := List.exists_cons_of_ne_nil h'.value_ne
  rw [← List.append_assoc x] at heq
  obtain ⟨-, hns⟩ := h.value_eq heq h'.sep_ne h'.sep
    ⟨c, by rw [hc]; rfl, h'.value_sep c (by rw [hc]; exact List.mem_cons_self)⟩
  rcases append_eq_append_cases hns with ⟨e, hn, hs'⟩ | ⟨e, he, hxn, hs⟩
  · by_cases he : e = []
    · subst he
      exact ⟨by rw [hn, List.append_nil], by rw [hs', List.nil_append]⟩
    · obtain ⟨d, hd⟩ := List.exists_mem_of_ne_nil e he
      have := h.name d (by simp [hn, hd])
      rw [h'.sep d (by simp [hs', hd])] at this
      cases this
  · -- the last code point of the shorter name would be a separator
    have hlast : n'.getLast? = e.getLast? := by
      have := congrArg List.getLast? hxn
      rwa [List.getLast?_append, getLast?_or h'.name_ne, List.getLast?_append, getLast?_or he]
        at this
    have hmem := List.mem_of_getLast? (hlast.trans (List.getLast?_eq_some_getLast he))
    have := h'.name _ hmem
    rw [h.sep _ (by rw [hs]; exact List.mem_append_left s' (List.getLast_mem he))] at this
    cases this

/-- A setting ends with its value, so it is no beginning of a name with separators. -/
theorem Setting.not_beginning {e s' r : List Nat} (h : Setting k n s v)
    (he : ∀ c ∈ e, isSeparator c = false)
    (hs' : ∀ c ∈ s', isSeparator c = true) : e ++ s' ≠ (n ++ (s ++ v)) ++ r := by
  intro heq
  obtain ⟨a, ha⟩ := List.exists_mem_of_ne_nil s h.sep_ne
  obtain ⟨b, hb⟩ := List.exists_mem_of_ne_nil v h.value_ne
  rw [List.append_assoc, List.append_assoc, ← List.append_assoc n] at heq
  rcases append_eq_append_cases heq with ⟨f, -, hs⟩ | ⟨f, -, he', -⟩
  · have := h.value_sep b hb
    rw [hs' b (by simp [hs, hb])] at this
    cases this
  · have := he a (by simp [he', ha])
    rw [h.sep a ha] at this
    cases this

/-- Values of both kinds do not begin alike. -/
theorem Setting.not_inverse {v' rest post : List Nat} (h : Setting k n s v) (hv' : Inverse k v') :
    v ++ rest ≠ v' ++ post := by
  intro heq
  obtain ⟨c, hc, hmark⟩ := h.mark
  obtain ⟨d, hd, hother⟩ := hv'.other
  rcases append_eq_append_cases heq with ⟨e, rfl, -⟩ | ⟨e, -, rfl, -⟩
  · rw [hv'.mark c (List.mem_append_left e hc)] at hmark
    cases hmark
  · rw [h.codes d (List.mem_append_left e hd)] at hother
    cases hother

/-- No setting begins in a name, separators and a value of the other kind, and goes on to that
value. -/
theorem Setting.not_over {e s' v' r z rest post : List Nat} (h : Setting k n s v)
    (hz : z = n ++ (s ++ v))
    (hs' : s' ≠ []) (hsep : ∀ c ∈ s', isSeparator c = true) (hv' : Inverse k v')
    (hover : z = e ++ (s' ++ r)) (heq : v' ++ rest = r ++ post) : False := by
  by_cases hr : r = []
  · subst hr
    rw [List.append_nil] at hover
    exact h.not_ends_with_sep hs' hsep (hz.symm.trans hover)
  · have hhead := head?_eq_of_append_eq heq hv'.ne_nil hr
    obtain ⟨c, v'', hv''⟩ := List.exists_cons_of_ne_nil hv'.ne_nil
    obtain ⟨rfl, -⟩ := h.value_eq (hz.symm.trans hover) hs' hsep
      ⟨c, by rw [hhead, hv'', List.head?_cons],
        isSeparator_of_isWordCode (hv'.word c (by rw [hv'']; exact List.mem_cons_self))⟩
    exact h.not_inverse hv' heq.symm

end

/-! ## Switches -/

/-- A piece `u ++ w` of which, read alone, only `w` is found: it looks the same from outside, and no
piece from further left ends in its name or its separators. -/
structure Inner (p : Pattern) (before : Option Nat) (u w n s : List Nat) : Prop where
  head : wordSide w.head? = wordSide (u ++ w).head?
  before : wordSide u.getLast? = wordSide before
  closed : ∀ {b : Option Nat} {x z f : List Nat}, z ≠ [] → f ≠ [] → n ++ s = z ++ f →
    ¬ p.Piece b (x ++ z) f.head?

/-- A pattern of settings, the values of which are of one kind. -/
structure Switch (p : Pattern) (k : Letters) : Prop where
  edged : p.edged = true
  solid : p.solid = true
  first : p.firstIn k.first = true
  first_sep : CodeSet.rangesApart k.first separators = true
  first_read : CodeSet.hasCode k.first replacement = false
  turns : ∀ s ∈ flipBoolean.switchPairs,
    (∀ c ∈ Text.codes (utf8 s.1), CodeSet.hasCode k.value c = true) →
    Inverse k (Text.codes (utf8 s.2))
  setting : ∀ {b a : Option Nat} {w : List Nat}, p.Piece b w a → ∃ n s v, w = n ++ (s ++ v) ∧
    Setting k n s v
  after : ∀ {b a : Option Nat} {w : List Nat}, p.Piece b w a → wordSide a = false
  alone : ∀ {b a : Option Nat} {w : List Nat}, p.Piece b w a → w.head? ≠ some 0x17F →
    p.Piece none w none
  inner : ∀ {b a : Option Nat} {u w n s v : List Nat}, u ≠ [] → p.Piece b (u ++ w) a →
    ¬ p.Piece none (u ++ w) none → p.Piece u.getLast? w none → w = n ++ (s ++ v) → Setting k n s v →
    Inner p b u w n s

section

variable {p : Pattern} {k : Letters} {b a : Option Nat} {u w n s v v' : List Nat}

theorem alike_of_setting (hset : Setting k n s v) (hw : w = n ++ (s ++ v))
    (hu : u = [] ∨ Inner p b u w n s)
    (hne : v' ≠ []) (hlast : wordSide v'.getLast? = true) : Alike (u ++ w) (n ++ (s ++ v')) := by
  have hnames : (n ++ (s ++ v')).head? = w.head? := by
    rw [hw, List.head?_append, head?_or hset.name_ne, List.head?_append, head?_or hset.name_ne]
  refine ⟨List.append_ne_nil_of_left_ne_nil hset.name_ne _, ?_, ?_⟩
  · rw [hnames]
    rcases hu with rfl | hinner
    · rfl
    · exact hinner.head
  · rw [hw, ← List.append_assoc, ← List.append_assoc, ← List.append_assoc, List.getLast?_append,
      getLast?_or hne, List.getLast?_append, getLast?_or hset.value_ne, hlast,
      wordSide_getLast?_value hset.value]

/-- **Inverted settings.** When the value of a setting gives way to one of the other kind, no
setting is left. -/
theorem Switch.seals (h : Switch p k) (hset : Setting k n s v) (hw : w = n ++ (s ++ v))
    (hu : u = [] ∨ Inner p b u w n s) (hv' : Inverse k v') :
      p.Seals b (u ++ w) (n ++ (s ++ v')) where
  toAlike := alike_of_setting hset hw hu hv'.ne_nil (wordSide_getLast? hv'.ne_nil hv'.word)
  starts := by
    intro x y z rest post b' hr hy hz hpiece
    obtain ⟨n', s', v₁, hdiv, hset'⟩ := h.setting hpiece
    have hz_ne := ne_nil_of_solid h.solid hpiece
    rcases append_eq_append_cases hr with ⟨e, -, hsv⟩ | ⟨e, -, hn, rfl⟩
    · -- a piece starts with none of the separators and with no letter of the new value
      obtain ⟨c, y, rfl⟩ := List.exists_cons_of_ne_nil hy
      have hfirst := hasCode_of_firstIn h.first hpiece (head?_eq_of_append_eq hz hy hz_ne)
      rcases List.mem_append.1 (show c ∈ s ++ v' by rw [hsv]; simp) with hc | hc
      · have := CodeSet.hasCode_of_rangesApart h.first_sep hfirst
        rw [← isSeparator, hset.sep c hc] at this
        cases this
      · rw [hv'.first c hc] at hfirst
        cases hfirst
    · -- a piece that starts in the name goes on to the value
      have he : ∀ c ∈ e, isSeparator c = false :=
        fun c hc => hset.name c (by rw [hn]; exact List.mem_append_right x hc)
      rw [List.append_assoc, List.append_assoc, ← List.append_assoc e] at hz
      rcases append_eq_append_cases hz with ⟨r, hzr, hv⟩ | ⟨r, -, hes, -⟩
      · exact hset'.not_over hdiv hset.sep_ne hset.sep hv' (by rw [hzr, List.append_assoc]) hv
      · exact hset'.not_beginning he hset.sep (by rw [hes, hdiv])
  enters := by
    intro x z rest post b' _ _ hz heq hpiece
    obtain ⟨n', s', v₁, hdiv, hset'⟩ := h.setting hpiece
    rw [List.append_assoc, List.append_assoc, ← List.append_assoc n] at heq
    rcases append_eq_append_cases heq with ⟨r, hzr, hv⟩ | ⟨f, hf, hns, hrest⟩
    · refine absurd hv fun hv => hset'.not_over (e := x ++ n) hdiv hset.sep_ne hset.sep hv' ?_ hv
      rw [hzr]
      simp
    · have hside : rest.head? = f.head? := by rw [hrest, List.head?_append, head?_or hf]
      rcases hu with rfl | hinner
      · refine ⟨f ++ v, f ++ v', List.append_ne_nil_of_left_ne_nil hf v,
          List.append_ne_nil_of_left_ne_nil hf v', ?_, ?_, ?_⟩
        · rw [List.head?_append, head?_or hf, List.head?_append, head?_or hf]
        · rw [List.nil_append, hw, ← List.append_assoc, hns, List.append_assoc]
        · rw [← List.append_assoc, hns, List.append_assoc]
      · rw [hside] at hpiece
        exact absurd hpiece (hinner.closed hz hf hns)

/-- A setting that is written again is a piece where the whole one was. -/
theorem Switch.piece_inner (h : Switch p k) (hpiece : p.Piece b (u ++ w) a)
    (hw : p.Piece u.getLast? w none) (hu : u = [] ∨ Inner p b u w n s) : p.Piece b w a := by
  rcases hu with rfl | hinner
  · exact hpiece
  · exact hw.of_edged h.edged hinner.before (h.after hpiece).symm

end

end CodeAudit.Builtin
