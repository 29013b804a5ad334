import CodeAudit.Fix.Secret
import CodeAudit.Proofs.Code.Parts
import CodeAudit.Proofs.Pattern.Replacement

/-!
# Redaction outside of literals

`redactOutside` replaces the matches of a pattern in all that stands outside of literals. Put in
their place is a literal again, so that the new text is made of the old literals, of the new ones,
and of the gaps between the matches. For a pattern without conditions no gap holds a match, whatever
has come to stand beside it: so nothing is left to redact.

**Results.**
* `redactOutside_eq`: redaction, told by the parts of a text.
* `Code.Parts.redact`: the parts of a redacted text.
* `redactOutside_eq_self_iff`, `redactOutside_idem`: when there is nothing to redact.
-/
namespace CodeAudit

/-! ## Redaction of the parts -/

section

variable (p : Pattern) (w : Template)

theorem redactFrom_unquoted {s : Text} (hs : Code.Unquoted s) (t : Text) :
    ∀ seg, redactFrom p w none seg (s ++ t) = redactFrom p w none (s.reverse ++ seg) t := by
  induction s with
  | nil => intro seg; rfl
  | cons b s ih =>
    intro seg
    obtain ⟨hb, hs⟩ := List.forall_mem_cons.1 hs
    rw [List.cons_append, redactFrom, if_neg (by simp [hb]), ih hs, List.reverse_cons,
      List.append_assoc, List.singleton_append]

/-- A literal that is not closed is copied. -/
theorem redactFrom_unclosed {q : UInt8} {u : Text} (h : Code.closing? q u = none) :
    ∀ seg, redactFrom p w (some q) seg u = seg.reverse ++ u := by
  fun_induction Code.closing? q u with
  | case1 => intro seg; simp [redactFrom]
  | case2 => cases h
  | case3 => intro seg; simp [redactFrom]
  | case4 c u _ ih =>
    intro seg
    rw [redactFrom.eq_def]
    simp [ih (by simpa using h)]
  | case5 b t hbq hb ih =>
    intro seg
    rw [redactFrom.eq_def]
    simp [hb, hbq, ih (by simpa using h)]

/-- A literal is copied, and behind it redaction starts anew. -/
theorem redactFrom_closed {q : UInt8} (hq : q ≠ 92) {u : Text} {n : Nat}
    (h : Code.closing? q u = some n) :
    ∀ seg, redactFrom p w (some q) seg u =
      seg.reverse ++ u.take (n + 1) ++ redactFrom p w none [] (u.drop (n + 1)) := by
  fun_induction Code.closing? q u generalizing n with
  | case1 => cases h
  | case2 t =>
    intro seg
    obtain rfl := Option.some.inj h
    rw [redactFrom.eq_def]
    simp [hq]
  | case3 => cases h
  | case4 c u _ ih =>
    intro seg
    obtain ⟨m, hm, rfl⟩ := Option.map_eq_some_iff.1 h
    rw [redactFrom.eq_def]
    simp [ih hm]
  | case5 b t hbq hb ih =>
    intro seg
    obtain ⟨m, hm, rfl⟩ := Option.map_eq_some_iff.1 h
    rw [redactFrom.eq_def]
    simp [hb, hbq, ih hm]

theorem redactOutside_eq {t rest tail : Text} {pairs : List (Text × Text)}
    (h : Code.Parts t pairs rest tail) :
    redactOutside p w t =
      (pairs.flatMap fun c => p.replaceAll w c.1 ++ c.2) ++ (p.replaceAll w rest ++ tail) := by
  unfold redactOutside
  induction h with
  | @rest s hs =>
    have := redactFrom_unquoted p w hs [] []
    rw [List.append_nil, List.append_nil] at this
    rw [this, redactFrom, List.reverse_reverse]
    simp
  | @unclosed s u q hs hq hopen =>
    rw [redactFrom_unquoted p w hs, List.append_nil, redactFrom, if_pos hq, List.reverse_reverse,
      redactFrom_unclosed p w hopen]
    simp
  | @literal s c u rest tail q pairs hs hq hclose _ ih =>
    have hsplit : c ++ q :: u = (c ++ [q]) ++ u := by simp
    have hlen : c.length + 1 = (c ++ [q]).length := by simp
    rw [redactFrom_unquoted p w hs, List.append_nil, redactFrom, if_pos hq, List.reverse_reverse,
      redactFrom_closed p w (Code.ne_backslash_of_isQuote hq) hclose, hsplit, hlen, List.take_left,
      List.drop_left, ih]
    simp

end

/-! ## Gaps -/

section

variable {p : Pattern} (hsolid : p.solid = true) (hfree : p.anchors = [])
include hsolid hfree

/-- The gaps of a cut hold no match of their own. -/
theorem Pattern.Cut.not_matchesIn_gap {before : Option Nat} {rs rest : List Rune}
    {cuts : List (List Rune × List Rune)} (hcut : p.Cut before rs cuts rest) :
    ∀ t : Text, t.runes = rs →
      ∀ g ∈ rest :: cuts.map Prod.fst, p.matchesIn (Text.ofRunes g) = false := by
  have hgap : ∀ {before : Option Nat} {gap behind : List Rune}, p.Clear before gap behind →
      (Text.ofRunes gap).runes = gap → p.matchesIn (Text.ofRunes gap) = false := by
    intro before gap behind hclear hruns
    rw [← Bool.not_eq_true, Pattern.matchesIn_iff_occursIn, Text.codes, hruns]
    rintro ⟨g, x, post, hcodes, hpiece⟩
    have hx := List.length_pos_iff.2 (Pattern.ne_nil_of_solid hsolid hpiece)
    have hlen := congrArg List.length hcodes
    simp only [List.length_map, List.length_append] at hlen
    have hbehind : gap.map Rune.code ++ behind.map Rune.code = g ++
        (x ++ (post ++ behind.map Rune.code)) := by
      rw [hcodes, List.append_assoc, List.append_assoc]
    exact hclear.not_piece hbehind (by omega) (hpiece.anywhere hfree)
  induction hcut with
  | @rest before rs hclear =>
    intro t ht g hg
    rw [List.map_nil, List.mem_singleton] at hg
    rw [hg]
    exact hgap hclear (by rw [← ht, Text.ofRunes_runes])
  | @piece before gap w rs rest cuts hclear _ _ ih =>
    intro t ht g hg
    obtain ⟨hruns, hbehind⟩ := Text.runes_split ht
    rw [List.map_cons, List.mem_cons, List.mem_cons] at hg
    rcases hg with rfl | rfl | hg
    · exact ih _ (Text.runes_split hbehind).2 _ List.mem_cons_self
    · exact hgap hclear hruns
    · exact ih _ (Text.runes_split hbehind).2 g (List.mem_cons_of_mem _ hg)

/-- A text with every match replaced is made of gaps without matches and of what is put between
them. -/
theorem Pattern.exists_gaps (k s : Text) :
    ∃ gaps last, p.replaceAll (k.map .text) s = gaps.flatMap (· ++ k) ++ last ∧
    (∀ g ∈ last :: gaps, p.matchesIn g = false ∧ ∀ b ∈ g, b ∈ s) ∧ (gaps = [] → last = s) ∧
      (p.matchesIn s = false → gaps = []) := by
  obtain ⟨cuts, rest, hcut, -, -, hreplace⟩ := exists_cut hsolid s
  have hbytes : s = Text.ofRunes ((cuts.flatMap fun c => c.1 ++ c.2) ++ rest) := by
    rw [← hcut.runes_eq, Text.ofRunes_runes]
  refine ⟨cuts.map fun c => Text.ofRunes c.1, Text.ofRunes rest, ?_, ?_, ?_, ?_⟩
  · rw [replaceAll_text, hreplace fun _ => k, weave, List.flatMap_map]
  · intro g hg
    have hg : g ∈ (rest :: cuts.map Prod.fst).map Text.ofRunes := by simpa using hg
    obtain ⟨gap, hgap, rfl⟩ := List.mem_map.1 hg
    refine ⟨hcut.not_matchesIn_gap hsolid hfree s rfl gap hgap, fun b hb => ?_⟩
    rw [hbytes]
    rcases List.mem_cons.1 hgap with rfl | hgap
    · rw [Text.ofRunes_append]
      exact List.mem_append_right _ hb
    · obtain ⟨c, hc, rfl⟩ := List.mem_map.1 hgap
      obtain ⟨r, hr, hb⟩ := List.mem_flatMap.1 hb
      refine List.mem_flatMap.2 ⟨r, ?_, hb⟩
      simp only [List.mem_append, List.mem_flatMap]
      exact Or.inl ⟨c, hc, Or.inl hr⟩
  · intro hnil
    rw [List.map_eq_nil_iff] at hnil
    rw [hbytes, hnil]
    rfl
  · intro hnone
    rw [List.map_eq_nil_iff]
    rw [← Bool.not_eq_true, matchesIn_iff_occursIn] at hnone
    exact Classical.not_not.1 fun hne => hnone (hcut.occursIn hne)

end

/-! ## The parts of a redacted text -/

/-- The parts of a text before and after redaction: no match is left outside of literals, the
literals are kept, and only the text `k` comes to stand between them. It does where there was a
match. -/
structure Redacted (p : Pattern) (k : Text) (pairs : List (Text × Text)) (rest : Text)
    (pairs' : List (Text × Text)) (rest' : Text) : Prop where
  clean : ∀ s ∈ rest' :: pairs'.map Prod.fst, p.matchesIn s = false
  kept : (pairs.map Prod.snd).Sublist (pairs'.map Prod.snd)
  others : (pairs'.map Prod.snd).filter (· != k) = (pairs.map Prod.snd).filter (· != k)
  longer : (∀ s ∈ rest :: pairs.map Prod.fst, p.matchesIn s = false) ∨ pairs.length < pairs'.length

/-- The text is a literal, wherever it stands. -/
def Code.IsLiteral (k : Text) : Prop :=
  ∃ q c, k = q :: (c ++ [q]) ∧ isQuote q = true ∧ ∀ u, closing? q (c ++ q :: u) = some c.length

section

variable {p : Pattern} {k t s last rest rest' tail lit : Text} {gaps : List Text}
  {pairs pairs' : List (Text × Text)}

theorem redacted_rest (hclean : ∀ g ∈ last :: gaps, p.matchesIn g = false)
    (hsame : gaps = [] → last = s) :
    Redacted p k [] s (gaps.map (·, k)) last where
  clean := by simpa [Function.comp_def] using hclean
  kept := List.nil_sublist _
  others := by simp [Function.comp_def]
  longer := by
    cases gaps with
    | nil => exact Or.inl (by simpa [← hsame rfl] using hclean)
    | cons g gaps => exact Or.inr (by simp)

theorem Redacted.cons (h : Redacted p k pairs rest pairs' rest')
    (hclean : ∀ g ∈ last :: gaps, p.matchesIn g = false) (hsame : gaps = [] → last = s) :
    Redacted p k ((s, lit) :: pairs) rest (gaps.map (·, k) ++ (last, lit) :: pairs') rest' where
  clean := by
    obtain ⟨hlast, hgaps⟩ := List.forall_mem_cons.1 hclean
    obtain ⟨hrest, hpairs⟩ := List.forall_mem_cons.1 h.clean
    refine List.forall_mem_cons.2 ⟨hrest, ?_⟩
    rw [List.map_append, List.map_cons, List.map_map]
    refine List.forall_mem_append.2 ⟨?_, List.forall_mem_cons.2 ⟨hlast, hpairs⟩⟩
    simpa [Function.comp_def] using hgaps
  kept := by
    rw [List.map_append, List.map_cons, List.map_cons]
    exact (h.kept.cons_cons lit).trans (List.sublist_append_right _ _)
  others := by
    simp [Function.comp_def, List.filter_cons, h.others]
  longer := by
    have hle := h.kept.length_le
    rw [List.length_map, List.length_map] at hle
    cases gaps with
    | cons g gaps =>
      refine Or.inr ?_
      simp only [List.length_cons, List.length_append, List.length_map]
      omega
    | nil =>
      obtain rfl := hsame rfl
      rcases h.longer with hall | hlt
      · refine Or.inl fun x hx => ?_
        rw [List.map_cons, List.mem_cons, List.mem_cons] at hx
        rcases hx with rfl | rfl | hx
        · exact hall _ List.mem_cons_self
        · exact hclean _ List.mem_cons_self
        · exact hall x (List.mem_cons_of_mem _ hx)
      · exact Or.inr (by simpa using hlt)

theorem Code.Parts.behind_gaps (hk : IsLiteral k) (h : Parts t pairs rest tail) :
    ∀ gaps : List Text, (∀ g ∈ gaps, Unquoted g) →
      Parts (gaps.flatMap (· ++ k) ++ t) (gaps.map (·, k) ++ pairs) rest tail := by
  obtain ⟨q, c, rfl, hq, hclose⟩ := hk
  intro gaps
  induction gaps with
  | nil => exact fun _ => h
  | cons g gaps ih =>
    intro hgaps
    obtain ⟨hg, hgaps⟩ := List.forall_mem_cons.1 hgaps
    have := Parts.literal hg hq (hclose _) (ih hgaps)
    simpa using this

end

section

variable {p : Pattern} (hsolid : p.solid = true) (hfree : p.anchors = []) {k : Text}
  (hk : Code.IsLiteral k)
include hsolid hfree hk

/-- The parts of a redacted text. -/
theorem Code.Parts.redact {t rest tail : Text} {pairs : List (Text × Text)}
    (h : Parts t pairs rest tail) :
    ∃ pairs' rest', Parts (redactOutside p (k.map .text) t) pairs' rest' tail ∧
      Redacted p k pairs rest pairs' rest' := by
  have hsegment : ∀ s, Unquoted s →
      ∃ gaps last, p.replaceAll (k.map .text) s = gaps.flatMap (· ++ k) ++ last ∧
      (∀ g ∈ gaps, Unquoted g) ∧ Unquoted last ∧ (∀ g ∈ last :: gaps, p.matchesIn g = false) ∧
      (gaps = [] → last = s) := by
    intro s hs
    obtain ⟨gaps, last, heq, hgaps, hsame, -⟩ := Pattern.exists_gaps hsolid hfree k s
    refine ⟨gaps, last, heq, fun g hg b hb => ?_, fun b hb => ?_, fun g hg => (hgaps g hg).1, hsame⟩
    · exact hs b ((hgaps g (List.mem_cons_of_mem _ hg)).2 b hb)
    · exact hs b ((hgaps last List.mem_cons_self).2 b hb)
  rw [redactOutside_eq p _ h]
  induction h with
  | @rest s hs =>
    obtain ⟨gaps, last, heq, hgaps, hlast, hclean, hsame⟩ := hsegment s hs
    refine ⟨_, last, ?_, redacted_rest hclean hsame⟩
    have := (Parts.rest hlast).behind_gaps hk gaps hgaps
    simpa [heq] using this
  | @unclosed s u q hs hq hopen =>
    obtain ⟨gaps, last, heq, hgaps, hlast, hclean, hsame⟩ := hsegment s hs
    refine ⟨_, last, ?_, redacted_rest hclean hsame⟩
    have := (Parts.unclosed hlast hq hopen).behind_gaps hk gaps hgaps
    simpa [heq] using this
  | @literal s c u rest tail q pairs hs hq hclose _ ih =>
    obtain ⟨gaps, last, heq, hgaps, hlast, hclean, hsame⟩ := hsegment s hs
    obtain ⟨pairs', rest', hparts, hredacted⟩ := ih
    refine ⟨_, rest', ?_, hredacted.cons hclean hsame⟩
    have := (Parts.literal hlast hq (closing?_of_closing? hq hclose _) hparts).behind_gaps hk
      gaps hgaps
    simpa [heq] using this

theorem redactOutside_eq_self_iff {t rest tail : Text} {pairs : List (Text × Text)}
    (h : Code.Parts t pairs rest tail) : redactOutside p (k.map .text) t = t ↔
      ∀ s ∈ rest :: pairs.map Prod.fst, p.matchesIn s = false := by
  constructor
  · intro hsame
    obtain ⟨pairs', rest', hparts, hredacted⟩ := h.redact hsolid hfree hk
    rcases hredacted.longer with hall | hlt
    · exact hall
    · -- there are more literals now
      have hlen := congrArg List.length h.map_text_literals
      rw [← hsame, hparts.map_text_literals, List.length_map, List.length_map] at hlen
      omega
  · intro hall
    have hkept : ∀ s ∈ rest :: pairs.map Prod.fst, p.replaceAll (k.map .text) s = s := by
      intro s hs
      obtain ⟨gaps, last, heq, -, hsame, hnone⟩ := Pattern.exists_gaps hsolid hfree k s
      have hnil := hnone (hall s hs)
      rw [heq, hnil, hsame hnil]
      rfl
    have hpairs : (pairs.flatMap fun c => p.replaceAll (k.map .text) c.1 ++ c.2) =
        pairs.flatMap fun c => c.1 ++ c.2 := by
      rw [List.flatMap_def, List.flatMap_def]
      refine congrArg _ (List.map_congr_left fun c hc => ?_)
      rw [hkept c.1 (List.mem_cons_of_mem _ (List.mem_map_of_mem hc))]
    rw [redactOutside_eq p _ h, hkept rest List.mem_cons_self, hpairs]
    exact h.eq.symm

theorem redactOutside_idem (t : Text) :
    redactOutside p (k.map .text) (redactOutside p (k.map .text) t) =
      redactOutside p (k.map .text) t := by
  obtain ⟨pairs, rest, tail, h⟩ := Code.exists_parts t
  obtain ⟨pairs', rest', hparts, hredacted⟩ := h.redact hsolid hfree hk
  exact (redactOutside_eq_self_iff hsolid hfree hk hparts).2 hredacted.clean

end
end CodeAudit
