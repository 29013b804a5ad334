import CodeAudit.Builtin.Basic
import CodeAudit.Proofs.Pattern.Replacement
import CodeAudit.Proofs.Pattern.Words

/-!
# Inverting the last switch value

The fixes of switches look for the last switch value in a text and invert it, if it is spelled in
one of the usual ways. Where a text ends with a value behind a separator, that is the last one,
since no value goes over a separator.

**Results.**
* `Pattern.Cut.ends_with`: the last piece of a cut.
* `flipLastToken_eq`: inverting a value at the end.
* `Pattern.replaceBy?_eq_some`, `Pattern.replaceBy?_eq_none`: replacements that may fail.
-/
namespace CodeAudit

namespace Pattern

variable {p : Pattern}

/-! ## The last match -/

theorem Cut.eq_nil (hsolid : p.solid = true) {before : Option Nat} {rs rest : List Rune}
    {cuts : List (List Rune × List Rune)} (hcut : p.Cut before rs cuts rest) (hrs : rs = []) :
    cuts = [] ∧ rest = [] := by
  cases hcut with
  | rest => exact ⟨rfl, hrs⟩
  | @piece _ gap w rs _ _ _ hpiece _ =>
    obtain ⟨-, hwrs⟩ := List.append_eq_nil_iff.1 hrs
    have hw := (List.append_eq_nil_iff.1 hwrs).1
    exact absurd (by rw [hw, List.map_nil]) (ne_nil_of_solid hsolid hpiece)

theorem eq_concat_of_append {α : Type} {us gap e : List α} {r : α} (h : us ++ [r] = gap ++ e)
    (he : e ≠ []) :
    ∃ f, e = f ++ [r] := by
  rcases List.eq_nil_or_concat e with rfl | ⟨f, x, rfl⟩
  · exact absurd rfl he
  · rw [List.concat_eq_append, ← List.append_assoc] at h
    obtain ⟨-, hx⟩ := List.append_inj' h rfl
    exact ⟨f, by rw [List.concat_eq_append, hx]⟩

/-- Pieces that no separator stands in, and of which none is a proper beginning of another: when a
piece stands behind a separator at the end of the text, it is the last one that is found. -/
theorem Cut.ends_with (hsolid : p.solid = true) {sep : Nat → Bool}
    (hsep : ∀ {b a w}, p.Piece b w a → ∀ c ∈ w, sep c = false)
    (hfree : ∀ {b a b' a' w w'}, p.Piece b w a → p.Piece b' w' a' → w <+: w' → w = w')
    {before : Option Nat} {rs rest : List Rune} {cuts : List (List Rune × List Rune)}
    (hcut : p.Cut before rs cuts rest) : ∀ {us vs : List Rune} {r : Rune}, rs = (us ++ [r]) ++ vs →
      sep r.code = true → p.Piece (some r.code) (vs.map Rune.code) none →
      ∃ cuts' gap, cuts = cuts' ++ [(gap, vs)] ∧ rest = [] ∧
        us ++ [r] = (cuts'.flatMap fun c => c.1 ++ c.2) ++ gap := by
  have hbehind : ∀ (before : Option Nat) (us : List Rune) (r : Rune),
      codeBehind before (us ++ [r]) = some r.code := by
    intro before us r
    rw [codeBehind_append]
    rfl
  induction hcut with
  | @rest before rs hclear =>
    intro us vs r hrs _ hvs
    have hne : vs ≠ [] := fun h => ne_nil_of_solid hsolid hvs (by rw [h, List.map_nil])
    refine absurd ⟨vs, [], rfl, ?_⟩ (hclear (us ++ [r]) vs hrs hne)
    rw [hbehind]
    exact hvs
  | @piece before gap w rs rest cuts hclear hpiece hcut ih =>
    intro us vs r hrs hr hvs
    have hr_not : r ∉ w := by
      intro hmem
      rw [hsep hpiece r.code (List.mem_map_of_mem hmem)] at hr
      cases hr
    rcases append_eq_append_cases hrs with ⟨e, hgap, hw⟩ | ⟨e, he, rfl, hvs_eq⟩
    · by_cases he : e = []
      · -- the piece starts where the value does
        subst he
        rw [List.append_nil] at hgap
        rw [List.nil_append] at hw
        have hsame := hfree hpiece hvs ⟨rs.map Rune.code, by rw [← hw, List.map_append]⟩
        obtain ⟨rfl, rfl⟩ := List.append_inj (hw.trans (List.append_nil vs).symm)
          (by simpa using congrArg List.length hsame)
        obtain ⟨rfl, rfl⟩ := hcut.eq_nil hsolid rfl
        exact ⟨[], gap, rfl, rfl, hgap⟩
      · -- the piece starts further left, and ends before the separator
        obtain ⟨f, rfl⟩ := eq_concat_of_append hgap he
        rcases append_eq_append_cases hw with ⟨g, hg, hrs⟩ | ⟨g, -, hg, -⟩
        · have hne : g ≠ [] := by
            rintro rfl
            rw [List.append_nil] at hg
            exact hr_not (by simp [← hg])
          obtain ⟨g, rfl⟩ := eq_concat_of_append hg hne
          obtain ⟨cuts', gap', rfl, rfl, hgap'⟩ := ih hrs hr hvs
          refine ⟨(gap, w) :: cuts', gap', rfl, rfl, ?_⟩
          rw [hgap, hg, hgap', List.flatMap_cons, List.append_assoc, List.append_assoc]
        · exact absurd (by simp [hg]) hr_not
    · refine absurd ⟨vs, [], ?_, ?_⟩ (hclear (us ++ [r]) e rfl he)
      · rw [hvs_eq, List.append_nil]
      · rw [hbehind]
        exact hvs

theorem Placed.ends_with {offset : Nat} {ms : List Match} {cuts : List (List Rune × List Rune)}
    {gap v : List Rune} (h : Placed offset ms (cuts ++ [(gap, v)])) : ∃ ms' m, ms = ms' ++ [m] ∧
      m.start = offset + (Text.ofRunes ((cuts.flatMap fun c => c.1 ++ c.2) ++ gap)).length ∧
      m.len = (Text.ofRunes v).length := by
  induction cuts generalizing offset ms with
  | nil =>
    cases h with
    | @cons _ m _ _ _ _ hstart hlen h =>
      cases h
      exact ⟨[], m, rfl, hstart, hlen⟩
  | cons c cuts ih =>
    cases h with
    | @cons _ m _ g w _ hstart hlen h =>
      obtain ⟨ms', m', rfl, hstart', hlen'⟩ := ih h
      refine ⟨m :: ms', m', rfl, ?_, hlen'⟩
      rw [hstart', Match.stop, hstart, hlen]
      simp only [List.flatMap_cons, List.append_assoc, Text.ofRunes_append, List.length_append]
      omega

/-! ## Replacements that may fail -/

theorem replaceBy?_eq_some {f : Text → Option Text} {g : Text → Text} {t : Text}
    (h : ∀ m ∈ p.findAll t, f (m.text t) = some (g (m.text t))) :
    p.replaceBy? f t = some (p.replaceBy (fun m => g (m.text t)) t) := by
  have hwritten : ∀ (ms : List Match) (last : Nat),
      replaceBy?.go t last (ms.zip (ms.map fun m => g (m.text t))) =
        rebuild (fun m => g (m.text t)) t last ms := by
    intro ms
    induction ms with
    | nil => intro last; rfl
    | cons m ms ih =>
      intro last
      rw [List.map_cons, List.zip_cons_cons, replaceBy?.go, rebuild, ih]
  have hall : ∀ ms : List Match, (∀ m ∈ ms, f (m.text t) = some (g (m.text t))) →
      ms.mapM (fun m => f (m.text t)) = some (ms.map fun m => g (m.text t)) := by
    intro ms
    induction ms with
    | nil => intro _; rfl
    | cons m ms ih =>
      intro h
      obtain ⟨hm, hms⟩ := List.forall_mem_cons.1 h
      rw [List.mapM_cons, hm, ih hms]
      rfl
  simp only [replaceBy?, hall _ h]
  exact congrArg some (hwritten _ 0)

theorem replaceBy?_eq_none {f : Text → Option Text} {t : Text} {m : Match} (hm : m ∈ p.findAll t)
    (h : f (m.text t) = none) : p.replaceBy? f t = none := by
  have hall : ∀ ms : List Match, m ∈ ms → ms.mapM (fun m => f (m.text t)) = none := by
    intro ms
    induction ms with
    | nil => intro hm; cases hm
    | cons x ms ih =>
      intro hm
      rw [List.mapM_cons]
      rcases List.mem_cons.1 hm with rfl | hm
      · rw [h]
        rfl
      · rw [ih hm]
        cases f (x.text t) <;> rfl
  simp only [replaceBy?, hall _ hm]
  rfl

end Pattern

namespace Builtin

open Pattern

/-! ## Switch values -/

/-- A switch value, wherever it stands. -/
def switchValue : Pattern := .read r"(?i)(true|false|on|off|0|1)"

theorem booleanToken_eq :
    booleanToken = .seq (.anchor .wordEdge) (.seq switchValue (.anchor .wordEdge)) := by
  decide +kernel

/-- What may stand between the name of a switch and its value: blanks, quotes, and a mark. -/
def separators : List (Nat × Nat) :=
  [(9, 10), (12, 13), (32, 32), (34, 34), (39, 40), (44, 44), (58, 58), (61, 61)]

def isSeparator (c : Nat) : Bool := CodeSet.hasCode separators c

theorem shape_switchValue :
    switchValue.solid = true ∧ switchValue.anchors = [] ∧ switchValue.prefixFree = true ∧
    switchValue.firstIn wordRanges = true ∧ switchValue.lastIn wordRanges = true ∧
    switchValue.codesIn [(48, 49), (65, 90), (97, 122), (383, 383)] = true := by decide +kernel

theorem isWordCode_of_isSeparator {c : Nat} (h : isSeparator c = true) : isWordCode c = false := by
  rw [isWordCode_eq]
  exact CodeSet.hasCode_of_rangesApart (by decide) h

section

variable {b a : Option Nat} {v : List Nat} (hv : switchValue.Piece b v a)
include hv

theorem isSeparator_of_mem_value : ∀ c ∈ v, isSeparator c = false := by
  intro c hc
  exact CodeSet.hasCode_of_rangesApart (by decide)
    (hasCode_of_codesIn shape_switchValue.2.2.2.2.2 hv c hc)

theorem value_ne_nil : v ≠ [] := ne_nil_of_solid shape_switchValue.1 hv

theorem wordSide_head?_value : wordSide v.head? = true := by
  obtain ⟨c, v', hc⟩ := List.exists_cons_of_ne_nil (value_ne_nil hv)
  rw [hc, List.head?_cons, wordSide, Option.any_some, isWordCode_eq]
  exact hasCode_of_firstIn shape_switchValue.2.2.2.1 hv (by rw [hc, List.head?_cons])

theorem wordSide_getLast?_value : wordSide v.getLast? = true := by
  have hlast := List.getLast?_eq_some_getLast (value_ne_nil hv)
  rw [hlast, wordSide, Option.any_some, isWordCode_eq]
  exact hasCode_of_lastIn shape_switchValue.2.2.2.2.1 hv hlast

/-- A value with edges on both sides is found as one. -/
theorem booleanToken_piece {before after : Option Nat} (hbefore : wordSide before = false)
    (hafter : wordSide after = false) : booleanToken.Piece before v after := by
  have hvalue : switchValue.Piece before v after := hv.anywhere shape_switchValue.2.1
  have hne := value_ne_nil hv
  have hstart : wordSide before ≠ wordSide (v.head?.or after) := by
    rw [head?_or hne, hbefore, wordSide_head?_value hv]
    decide
  have hend : wordSide (v.getLast?.or before) ≠ wordSide after := by
    rw [getLast?_or hne, hafter, wordSide_getLast?_value hv]
    decide
  rw [booleanToken_eq]
  exact ⟨[], v, rfl, ⟨rfl, bne_iff_ne.2 hstart⟩, v, [], (List.append_nil v).symm, hvalue, rfl,
    bne_iff_ne.2 hend⟩

end

/-- A text is inverted when it is in the table, and kept otherwise. -/
theorem flipBoolean_cases (t : Text) :
    (∃ s ∈ flipBoolean.switchPairs, utf8 s.1 = t ∧ flipBoolean t = utf8 s.2) ∨
    (∀ s ∈ flipBoolean.switchPairs, utf8 s.1 ≠ t) ∧ flipBoolean t = t := by
  cases h : flipBoolean.switchPairs.find? (fun s => utf8 s.1 == t) with
  | some s =>
    have hkey := List.find?_some h
    exact Or.inl ⟨s, List.mem_of_find?_eq_some h, eq_of_beq hkey, by rw [flipBoolean, h]⟩
  | none =>
    refine Or.inr ⟨fun s hs heq => ?_, by rw [flipBoolean, h]⟩
    have := List.find?_eq_none.1 h s hs
    rw [heq, beq_self_eq_true] at this
    exact this rfl

theorem shape_booleanToken : booleanToken.solid = true ∧ booleanToken.prefixFree = true ∧
    booleanToken.codesIn [(48, 49), (65, 90), (97, 122), (383, 383)] = true := by decide +kernel

/-- **Inverting a value at the end.** Where a text ends with a value behind a separator, that value
is inverted. -/
theorem flipLastToken_eq {t : Text} {us vs : List Rune} {r : Rune}
    (ht : t.runes = (us ++ [r]) ++ vs)
    (hr : isSeparator r.code = true) {b a : Option Nat}
    (hv : switchValue.Piece b (vs.map Rune.code) a) :
    flipLastToken t = Text.ofRunes (us ++ [r]) ++ flipBoolean (Text.ofRunes vs) := by
  obtain ⟨hsolid, hfree, hcodes⟩ := shape_booleanToken
  obtain ⟨cuts, rest, hcut, hplaced, -, -⟩ := exists_cut hsolid t
  obtain ⟨cuts', gap, rfl, rfl, hus⟩ := hcut.ends_with hsolid
    (fun h c hc => CodeSet.hasCode_of_rangesApart (by decide) (hasCode_of_codesIn hcodes h c hc))
    (eq_of_prefixFree hfree) ht hr (booleanToken_piece hv (isWordCode_of_isSeparator hr) rfl)
  obtain ⟨ms, m, hms, hstart, hlen⟩ := hplaced.ends_with
  rw [← hus, Nat.zero_add] at hstart
  have htext : t = Text.ofRunes (us ++ [r]) ++ Text.ofRunes vs := by
    rw [← Text.ofRunes_append, ← ht, Text.ofRunes_runes]
  have htake : t.take m.start = Text.ofRunes (us ++ [r]) := by rw [htext, hstart, List.take_left]
  have hdrop : t.drop m.start = Text.ofRunes vs := by rw [htext, hstart, List.drop_left]
  have hfound : m.text t = Text.ofRunes vs := by
    rw [Match.text, Text.slice, hdrop, Match.stop, Nat.add_sub_cancel_left, hlen, List.take_length]
  have hrest : t.drop m.stop = [] := by
    rw [Match.stop, ← List.drop_drop, hdrop, hlen, List.drop_length]
  simp only [flipLastToken, hms, List.getLast?_append, List.getLast?_singleton, Option.some_or,
    htake, hfound, hrest, List.append_nil]

end Builtin
end CodeAudit
