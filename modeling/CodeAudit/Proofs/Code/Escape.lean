import CodeAudit.Proofs.Code.Literal
import CodeAudit.Proofs.Pattern.Cut

/-!
# Backslashes in literals

Inside a literal a backslash takes the byte after it along. Whether a text put between two quotes is
read back as one literal depends on two things: no such quote stands in it that is not taken along,
and no backslash at its end takes the closing quote along. The second is kept when pieces of the
text are replaced, as long as neither the pieces nor what replaces them end in a backslash.

**Results.**
* `closing?_eq_length_iff`: when the closing quote is found behind a text.
* `escaping_replaceAll`, `escaping_weave`: replacing pieces leaves no backslash open that was not.
* `isQuote_and_closing?_of_mem_literalsFrom`: the contents of literals are such texts.
-/
namespace CodeAudit
namespace Code

/-- Whether a backslash waits for a byte behind the text, when one waited before it or not. -/
def escaping (waits : Bool) (t : Text) : Bool := t.foldl (fun waits b => !waits && b == 92) waits

/-- The byte stands in the text and no backslash takes it along. -/
def Bare (q : UInt8) (t : Text) : Prop := ∃ a b, t = a ++ q :: b ∧ escaping false a = false

@[simp] theorem escaping_nil (waits : Bool) : escaping waits [] = waits := rfl

theorem escaping_cons (waits : Bool) (b : UInt8) (t : Text) :
    escaping waits (b :: t) = escaping (!waits && b == 92) t := rfl

theorem escaping_append (waits : Bool) (s t : Text) :
    escaping waits (s ++ t) = escaping (escaping waits s) t := by
  simp [escaping]

/-- Behind a text that ends in another byte than a backslash, no backslash waits. -/
theorem escaping_eq_false {t : Text} (hne : t ≠ []) (hlast : t.getLast? ≠ some 92) (waits : Bool) :
    escaping waits t = false := by
  rw [List.getLast?_eq_some_getLast hne] at hlast
  have hlast : (t.getLast hne == 92) = false := beq_eq_false_iff_ne.2 fun h => hlast (by rw [h])
  rw [← List.dropLast_concat_getLast hne, escaping_append, escaping_cons, escaping_nil, hlast,
    Bool.and_false]

theorem not_bare_of_not_mem {q : UInt8} {t : Text} (h : q ∉ t) : ¬ Bare q t := by
  rintro ⟨a, b, rfl, -⟩
  simp at h

theorem bare_cons {q b : UInt8} (hb : b ≠ 92) (t : Text) : Bare q (b :: t) ↔ b = q ∨ Bare q t := by
  constructor
  · rintro ⟨a, c, h, ha⟩
    cases a with
    | nil => exact Or.inl (List.cons.inj h).1
    | cons x a =>
      rw [List.cons_append, List.cons.injEq] at h
      obtain ⟨rfl, rfl⟩ := h
      rw [escaping_cons] at ha
      refine Or.inr ⟨a, c, rfl, ?_⟩
      rwa [beq_eq_false_iff_ne.2 hb, Bool.and_false] at ha
  · rintro (rfl | ⟨a, c, rfl, ha⟩)
    · exact ⟨[], t, rfl, rfl⟩
    · refine ⟨b :: a, c, rfl, ?_⟩
      rwa [escaping_cons, beq_eq_false_iff_ne.2 hb, Bool.and_false]

theorem bare_escape {q : UInt8} (hq : q ≠ 92) (b : UInt8) (t : Text) :
    Bare q (92 :: b :: t) ↔ Bare q t := by
  constructor
  · rintro ⟨a, c, h, ha⟩
    rcases a with _ | ⟨x, _ | ⟨y, a⟩⟩
    · exact absurd (List.cons.inj h).1.symm hq
    · obtain ⟨rfl, -⟩ := List.cons.inj h
      cases ha
    · simp only [List.cons_append, List.cons.injEq] at h
      obtain ⟨rfl, rfl, rfl⟩ := h
      exact ⟨a, c, rfl, ha⟩
  · rintro ⟨a, c, rfl, ha⟩
    exact ⟨92 :: b :: a, c, rfl, ha⟩

/-- The quote behind a text closes the literal exactly when no quote stands bare in the text and no
backslash takes the closing one along. -/
theorem closing?_eq_length_iff {q : UInt8} (hq : q ≠ 92) (t rest : Text) :
    closing? q (t ++ q :: rest) = some t.length ↔ ¬ Bare q t ∧ escaping false t = false := by
  induction hn : t.length using Nat.strongRecOn generalizing t with
  | ind n ih =>
    subst hn
    cases t with
    | nil => simp [closing?.eq_def, not_bare_of_not_mem]
    | cons b t =>
      rw [List.cons_append, closing?.eq_def]
      simp only
      by_cases hbq : b = q
      · subst hbq
        simp [bare_cons hq]
      rw [if_neg hbq]
      by_cases hb : b = 92
      · subst hb
        rw [if_pos rfl]
        cases t with
        | nil => simp [escaping_cons]
        | cons c t =>
          have hih := ih t.length (by simp only [List.length_cons]; omega) t rfl
          simp only [List.cons_append, Option.map_eq_some_iff, List.length_cons, Nat.add_left_inj,
            Nat.add_assoc, Nat.reduceAdd, exists_eq_right, bare_escape hq]
          rw [hih]
          rfl
      · have hih := ih t.length (by simp) t rfl
        rw [if_neg hb, bare_cons hb, escaping_cons]
        simp only [Option.map_eq_some_iff, List.length_cons, Nat.add_left_inj, exists_eq_right,
          hih, hbq, false_or, Bool.not_false, Bool.true_and, beq_eq_false_iff_ne.2 hb]

/-! ## Literals of a line -/

/-- A literal starts with a quote, and the same quote closes it. -/
theorem isQuote_and_closing?_of_mem_literalsFrom {t : Text} {l : Literal} : ∀ {i skip : Nat},
    l ∈ literalsFrom i skip t → isQuote l.quote = true ∧
      ∃ rest, closing? l.quote (l.content ++ l.quote :: rest) = some l.content.length := by
  induction t with
  | nil => simp [literalsFrom]
  | cons b t ih =>
    intro i skip h
    cases skip with
    | succ skip => exact ih h
    | zero =>
      unfold literalsFrom at h
      split at h
      · rename_i hb
        split at h
        · cases h
        · rename_i n hn
          rcases List.mem_cons.1 h with rfl | h
          · obtain ⟨rest, heq, hlen⟩ := eq_of_closing? hn
            refine ⟨hb, rest, ?_⟩
            rw [hlen, ← heq]
            exact hn
          · exact ih h
      · exact ih h

theorem ne_backslash_of_isQuote {q : UInt8} (h : isQuote q = true) : q ≠ 92 := by
  rintro rfl
  cases h

/-- The content of a literal leaves no backslash open. -/
theorem escaping_content {line : Text} {l : Literal} (h : l ∈ literals line) :
    escaping false l.content = false := by
  obtain ⟨hquote, rest, hclosing⟩ := isQuote_and_closing?_of_mem_literalsFrom h
  exact ((closing?_eq_length_iff (ne_backslash_of_isQuote hquote) _ _).1 hclosing).2

/-- A text between two quotes is read as one literal exactly when the quote behind it closes the
literal. -/
theorem literalAt?_content_iff {q : UInt8} (hq : isQuote q = true) (t rest : Text) :
    (∃ l, literalAt? (q :: (t ++ q :: rest)) = some l ∧ l.content = t) ↔
      ¬ Bare q t ∧ escaping false t = false := by
  rw [← closing?_eq_length_iff (ne_backslash_of_isQuote hq) t rest, literalAt?, literals,
    literalsFrom, if_pos hq]
  cases hn : closing? q (t ++ q :: rest) with
  | none => simp
  | some n =>
    obtain ⟨-, -, hlen⟩ := eq_of_closing? hn
    simp only [List.head?_cons, if_true, Option.some.injEq, exists_eq_left']
    constructor
    · intro h
      rw [h] at hlen
      exact hlen.symm
    · rintro rfl
      exact List.take_left

/-! ## Replacing pieces -/

theorem replaceGo_skip (p w : Text) (limit k : Nat) (t : Text) :
    Text.replaceGo p w limit k t = Text.replaceGo p w limit 0 (t.drop k) := by
  induction k generalizing t with
  | zero => rfl
  | succ k ih =>
    cases t with
    | nil => simp [Text.replaceGo]
    | cons b t => exact ih t

section

variable {p w : Text} (hp : p ≠ []) (hplast : p.getLast? ≠ some 92) (hw : w ≠ [])
  (hwlast : w.getLast? ≠ some 92)
include hp hplast hw hwlast

theorem escaping_replaceGo (t : Text) : ∀ (limit : Nat) (waits : Bool),
    escaping waits (Text.replaceGo p w limit 0 t) = escaping waits t := by
  induction hn : t.length using Nat.strongRecOn generalizing t with
  | ind n ih =>
    subst hn
    intro limit waits
    cases t with
    | nil => cases limit <;> rfl
    | cons b t =>
      cases limit with
      | zero => rfl
      | succ limit =>
        rw [Text.replaceGo]
        split
        · -- both the piece and what replaces it settle what waited before them
          rename_i hprefix
          obtain ⟨u, hu⟩ := List.isPrefixOf_iff_prefix.1 hprefix
          obtain ⟨c, p', rfl⟩ := List.exists_cons_of_ne_nil hp
          rw [List.cons_append, List.cons.injEq] at hu
          obtain ⟨rfl, rfl⟩ := hu
          rw [replaceGo_skip, List.length_cons, Nat.add_sub_cancel, List.drop_left, escaping_append,
            escaping_eq_false hw hwlast, ih u.length
              (by simp only [List.length_cons, List.length_append]; omega) u rfl,
            ← List.cons_append, escaping_append, escaping_eq_false hp hplast]
        · rw [escaping_cons, escaping_cons, ih t.length (by simp) t rfl]

theorem escaping_replaceAll (t : Text) (waits : Bool) :
    escaping waits (Text.replaceAll p w t) = escaping waits t := by
  rw [Text.replaceAll]
  split
  · rfl
  · exact escaping_replaceGo hp hplast hw hwlast t _ waits

end

/-- A rune other than a backslash does not end in the byte of one. -/
theorem getLast?_raw_ne {t : Text} {r : Rune} (hr : r ∈ t.runes) (hcode : r.code ≠ 92) :
    r.raw.getLast? ≠ some 92 := by
  intro hlast
  have := Text.eq_of_mem_raw hr (b := 92) (by decide) (List.mem_of_getLast? hlast)
  rw [this] at hcode
  exact hcode rfl

theorem getLast?_ofRunes_ne {t : Text} {w : List Rune} (hw : ∀ r ∈ w, r ∈ t.runes)
    (hlast : (w.map Rune.code).getLast? ≠ some 92) : (Text.ofRunes w).getLast? ≠ some 92 := by
  rcases List.eq_nil_or_concat w with rfl | ⟨w', r, rfl⟩
  · simp
  · have hr : r ∈ t.runes := hw r (by simp)
    have hraw := getLast?_raw_ne hr (by simpa using hlast)
    have hne : r.raw ≠ [] := by
      have := Text.width_pos_of_mem_runes hr
      rw [Rune.width] at this
      exact List.length_pos_iff.1 this
    rw [List.concat_eq_append, Text.ofRunes_append, Text.ofRunes_cons, Text.ofRunes_nil,
      List.append_nil, List.getLast?_append]
    cases h : r.raw.getLast? with
    | none => exact absurd (List.getLast?_eq_none_iff.1 h) hne
    | some b => rwa [h] at hraw

theorem escaping_weave {p : Pattern} {t w : Text} (hsolid : p.solid = true)
    (hlast : p.lastIn (Pattern.allBut 92) = true) (hw : w ≠ [])
    (hwlast : w.getLast? ≠ some 92) {before : Option Nat} {rs rest : List Rune}
    {cuts : List (List Rune × List Rune)} (h : p.Cut before rs cuts rest)
    (hrs : ∀ r ∈ rs, r ∈ t.runes) :
    ∀ waits, escaping waits (Pattern.weave (fun _ => w) cuts rest) =
      escaping waits (Text.ofRunes rs) := by
  induction h with
  | rest => intro waits; rfl
  | @piece before gap v rs rest cuts _ hpiece _ ih =>
    intro waits
    have hv : ∀ r ∈ v, r ∈ t.runes := fun r hr => hrs r (by simp [hr])
    have hne : Text.ofRunes v ≠ [] := by
      obtain ⟨r, v', rfl⟩ := List.exists_cons_of_ne_nil
        (show v ≠ [] from fun h => Pattern.ne_nil_of_solid hsolid hpiece (by rw [h, List.map_nil]))
      have := Text.width_pos_of_mem_runes (hv r List.mem_cons_self)
      rw [Rune.width] at this
      rw [Text.ofRunes_cons]
      exact List.append_ne_nil_of_left_ne_nil (List.length_pos_iff.1 this) _
    have hvlast := getLast?_ofRunes_ne hv fun h =>
      Pattern.ne_of_hasCode_allBut (by decide) (Pattern.hasCode_of_lastIn hlast hpiece h) rfl
    rw [Pattern.weave_cons, escaping_append, escaping_append, escaping_eq_false hw hwlast,
      ih fun r hr => hrs r (by simp [hr]), Text.ofRunes_append, Text.ofRunes_append,
      escaping_append, escaping_append, escaping_eq_false hne hvlast]

/-- Replacing the matches of a pattern by one text leaves no backslash open that was not. -/
theorem escaping_replaceBy {p : Pattern} {w : Text} (hsolid : p.solid = true)
    (hlast : p.lastIn (Pattern.allBut 92) = true) (hw : w ≠ []) (hwlast : w.getLast? ≠ some 92)
    (t : Text) (waits : Bool) :
    escaping waits (p.replaceBy (fun _ => w) t) = escaping waits t := by
  obtain ⟨cuts, rest, hcut, -, -, hreplace⟩ := Pattern.exists_cut hsolid t
  rw [hreplace fun _ => w, escaping_weave hsolid hlast hw hwlast hcut fun r hr => hr,
    Text.ofRunes_runes]

end Code
end CodeAudit
