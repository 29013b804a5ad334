import CodeAudit.Proofs.Pattern.Cut

/-!
# Texts with their matches replaced

When every match of a pattern gives way to something else, the pattern may still match: what is
written may be a piece, or become one together with the text around it. `Pattern.Seals` says of one
replacement that this cannot happen there. A match may keep its beginning; between gaps nothing new
can arise as long as no piece starts in what is written, and none goes on from the kept beginning
into what is new.

**Results.**
* `runes_weave`: the runes of the text that is written.
* `not_matchesIn_weave`: behind sealed replacements the pattern matches nowhere.
* `matchesIn_weave`: a match that is replaced by a piece is matched again.
-/
namespace CodeAudit

/-- The first byte starts a rune wherever it stands, and the last byte is ASCII, so that the text
can stand anywhere. -/
def Text.Standalone (t : Text) : Prop :=
  (∃ b, t.head? = some b ∧ isTail b = false) ∧ ∃ b, t.getLast? = some b ∧ b < 0x80

theorem Text.standalone_of_codes {t : Text} {c d : Nat} (hc : t.codes.head? = some c)
    (hne : c ≠ replacement) (hd : t.codes.getLast? = some d) (hlt : d < 0x80) : t.Standalone :=
  ⟨head?_of_codes hc hne, getLast?_of_codes hd hlt⟩

namespace Pattern

theorem replaceAll_text (p : Pattern) (k t : Text) :
    p.replaceAll (k.map .text) t = p.replaceBy (fun _ => k) t := by
  simp [replaceAll, Template.fill, List.flatMap_map]

/-! ## The runes of the new text -/

theorem runes_weave {f : Text → Text} {rest : List Rune} :
    ∀ {cuts : List (List Rune × List Rune)} {t : Text},
    t.runes = (cuts.flatMap fun c => c.1 ++ c.2) ++ rest →
    (∀ c ∈ cuts, (f (Text.ofRunes c.2)).Standalone) →
    (weave f cuts rest).runes = (cuts.flatMap fun c => c.1 ++ (f (Text.ofRunes c.2)).runes) ++
      rest := by
  intro cuts
  induction cuts with
  | nil =>
    intro t ht _
    rw [List.flatMap_nil] at ht
    simpa [weave] using (Text.runes_split ht).2
  | cons c cuts ih =>
    intro t ht hf
    obtain ⟨gap, w⟩ := c
    simp only [List.flatMap_cons, List.append_assoc] at ht ⊢
    obtain ⟨hgap, hbehind⟩ := Text.runes_split ht
    obtain ⟨⟨a, hhead, ha⟩, b, hlast, hb⟩ := hf (gap, w) List.mem_cons_self
    obtain ⟨s, hs⟩ := List.head?_eq_some_iff.1 hhead
    have hrest := ih (Text.runes_split hbehind).2 fun c hc => hf c (List.mem_cons_of_mem _ hc)
    have hseam : ∀ u, (Text.ofRunes gap ++ (f (Text.ofRunes w) ++ u)).runes =
        (Text.ofRunes gap).runes ++ (f (Text.ofRunes w) ++ u).runes := by
      intro u
      rw [hs, List.cons_append, Text.runes_append _ ha]
    rw [weave_cons, hseam, hgap, Text.runes_append_of_getLast? hlast hb, hrest]

/-! ## Gaps and code points -/

/-- No piece starts in a gap, told by code points. -/
theorem Clear.not_piece {p : Pattern} {before : Option Nat} {gap rest : List Rune}
    (h : p.Clear before gap rest)
    {g x post : List Nat} (hcs : gap.map Rune.code ++ rest.map Rune.code = g ++ (x ++ post))
    (hlt : g.length < gap.length) : ¬ p.Piece (g.getLast?.or before) x post.head? := by
  intro hpiece
  rw [← List.map_append] at hcs
  obtain ⟨gs, xs, hsplit, rfl, hxs⟩ := List.map_eq_append_iff.1 hcs
  obtain ⟨xs, posts, rfl, rfl, rfl⟩ := List.map_eq_append_iff.1 hxs
  rw [List.length_map] at hlt
  rcases List.append_eq_append_iff.1 hsplit with ⟨a, rfl, -⟩ | ⟨a, rfl, ha⟩
  · rw [List.length_append] at hlt
    omega
  · refine h gs a rfl ?_ ⟨xs, posts, ha.symm, ?_⟩
    · rintro rfl
      simp at hlt
    · rwa [codeBehind_eq, codeAhead_eq]

/-- A gap ends before any piece starts. -/
theorem Clear.length_le {p : Pattern} {before : Option Nat} {gap rest : List Rune}
    (h : p.Clear before gap rest)
    {g x post : List Nat} (hcs : gap.map Rune.code ++ rest.map Rune.code = g ++ (x ++ post))
    (hpiece : p.Piece (g.getLast?.or before) x post.head?) : gap.length ≤ g.length :=
  Nat.le_of_not_lt fun hlt => h.not_piece hcs hlt hpiece

/-! ## Sealed replacements -/

/-- To the conditions around them the two look the same. -/
structure Alike (w r : List Nat) : Prop where
  ne : r ≠ []
  head_side : wordSide r.head? = wordSide w.head?
  last_side : wordSide r.getLast? = wordSide w.getLast?

/-- A piece `w` behind the code point `before` may be replaced by `r`: to the conditions it looks
the same from outside, no piece starts in it, and one that goes from further left into it ends where
`r` is still like `w`. -/
structure Seals (p : Pattern) (before : Option Nat) (w r : List Nat) : Prop extends Alike w r where
  starts : ∀ {x y z rest post : List Nat} {b : Option Nat}, r = x ++ y → y ≠ [] →
    y ++ post = z ++ rest → ¬ p.Piece (x.getLast?.or b) z rest.head?
  enters : ∀ {s z rest post : List Nat} {b : Option Nat}, s ≠ [] → s.getLast? = before → z ≠ [] →
    r ++ post = z ++ rest → p.Piece b (s ++ z) rest.head? →
      ∃ v v', v ≠ [] ∧ v' ≠ [] ∧ wordSide v'.head? = wordSide v.head? ∧ w = z ++ v ∧ r = z ++ v'

theorem side_head?_append {x y : List Nat} (u post post' : List Nat) (hx : x ≠ []) (hy : y ≠ [])
    (h : wordSide x.head? = wordSide y.head?) :
    wordSide (u ++ (x ++ post)).head? = wordSide (u ++ (y ++ post')).head? := by
  obtain ⟨c, x, rfl⟩ := List.exists_cons_of_ne_nil hx
  obtain ⟨d, y, rfl⟩ := List.exists_cons_of_ne_nil hy
  cases u with
  | nil => exact h
  | cons b u => rfl

/-- The second of two ways to divide a list divides it behind the first part, or within it. -/
theorem append_eq_append_cases {α : Type} {a b c d : List α} (h : a ++ b = c ++ d) :
    (∃ e, c = a ++ e ∧ b = e ++ d) ∨ ∃ e, e ≠ [] ∧ a = c ++ e ∧ d = e ++ b := by
  rcases List.append_eq_append_iff.1 h with h | ⟨e, ha, hd⟩
  · exact Or.inl h
  · by_cases he : e = []
    · subst he
      exact Or.inl ⟨[], by simpa using ha.symm, by simpa using hd.symm⟩
    · exact Or.inr ⟨e, he, ha, hd⟩

/-- Two ways to divide a list begin alike. -/
theorem head?_eq_of_append_eq {y post z rest : List Nat} (h : y ++ post = z ++ rest) (hy : y ≠ [])
    (hz : z ≠ []) :
    z.head? = y.head? := by
  obtain ⟨a, y, rfl⟩ := List.exists_cons_of_ne_nil hy
  obtain ⟨b, z, rfl⟩ := List.exists_cons_of_ne_nil hz
  simp only [List.cons_append, List.cons.injEq] at h
  rw [List.head?_cons, List.head?_cons, h.1]

theorem getLast?_append_or {x : List Nat} (hx : x ≠ []) (u : List Nat) (o : Option Nat) :
    ((u ++ x).getLast?).or o = x.getLast? := by
  rw [List.getLast?_append, Option.or_assoc, getLast?_or hx]

section

variable {p : Pattern} (hedged : p.edged = true)
include hedged

theorem not_occursIn_of_seals (hsolid : p.solid = true) {r : List Rune → List Nat}
    {before : Option Nat}
    {rs rest : List Rune} {cuts : List (List Rune × List Rune)} (hcut : p.Cut before rs cuts rest)
    (hr : ∀ c ∈ cuts, ∀ {b a}, p.Piece b (c.2.map Rune.code) a →
      p.Seals b (c.2.map Rune.code) (r c.2)) :
    ∀ before' : Option Nat, wordSide before' = wordSide before →
      ¬ p.OccursIn before' ((cuts.flatMap fun c => c.1.map Rune.code ++ r c.2) ++
        rest.map Rune.code) := by
  induction hcut with
  | @rest before rs hclear =>
    rintro before' hbefore ⟨g, x, post, hcs, hpiece⟩
    have hne := ne_nil_of_solid hsolid hpiece
    refine hclear.not_piece (by simpa using hcs) ?_ (hpiece.of_edged hedged (view_or _ hbefore) rfl)
    have hlen := congrArg List.length hcs
    simp only [List.flatMap_nil, List.nil_append, List.length_map, List.length_append] at hlen
    have := List.length_pos_iff.2 hne
    omega
  | @piece before gap w rs rest cuts hclear hpiecew _ ih =>
    rintro before' hbefore ⟨g, x, post, hcs, hpiece⟩
    have hseal := hr (gap, w) List.mem_cons_self hpiecew
    have hw := ne_nil_of_solid hsolid hpiecew
    dsimp only at hseal
    generalize hW : (cuts.flatMap fun c => c.1.map Rune.code ++ r c.2) ++
      rest.map Rune.code = W at ih
    rw [List.flatMap_cons, List.append_assoc, List.append_assoc, hW] at hcs
    rcases append_eq_append_cases hcs with ⟨g', rfl, hg'⟩ | ⟨s, hs, hgap, hx⟩
    · -- the piece starts behind the gap
      rcases append_eq_append_cases hg' with ⟨g'', rfl, hg''⟩ | ⟨y, hy, hwritten, hx⟩
      · refine ih (fun c hc => hr c (List.mem_cons_of_mem _ hc)) (r w).getLast? ?_
          ⟨g'', x, post, hg'', ?_⟩
        · rw [hseal.last_side, codeBehind_eq, List.map_append, getLast?_append_or hw]
        · rwa [← List.append_assoc, List.getLast?_append, Option.or_assoc,
            getLast?_append_or hseal.ne] at hpiece
      · rw [List.getLast?_append, Option.or_assoc] at hpiece
        exact hseal.starts hwritten hy hx.symm hpiece
    · -- the piece starts in the gap, and `s` is the gap from there on: it was there before
      have hlt : g.length < gap.length := by
        rw [← List.length_map Rune.code, hgap, List.length_append]
        have := List.length_pos_iff.2 hs
        omega
      rcases append_eq_append_cases hx with ⟨q, rfl, rfl⟩ | ⟨z, hz, rfl, hbehind⟩
      · have hold : gap.map Rune.code ++ (w ++ rs).map Rune.code =
            g ++ (x ++ (q ++ (w.map Rune.code ++ rs.map Rune.code))) := by
          rw [hgap, List.map_append, List.append_assoc, List.append_assoc]
        refine hclear.not_piece hold hlt (hpiece.of_edged hedged (view_or _ hbefore) ?_)
        exact side_head?_append q _ _ hseal.ne hw hseal.head_side
      · have hlast : s.getLast? = codeBehind before gap := by
          rw [codeBehind_eq, hgap, getLast?_append_or hs]
        obtain ⟨v, v', hv, hv', hside, hwz, hrz⟩ := hseal.enters hs hlast hz hbehind hpiece
        have hold : gap.map Rune.code ++ (w ++ rs).map Rune.code =
            g ++ ((s ++ z) ++ (v ++ rs.map Rune.code)) := by
          rw [hgap, List.map_append, hwz]
          simp
        rw [hrz, List.append_assoc] at hbehind
        rw [← List.append_cancel_left hbehind] at hpiece
        exact hclear.not_piece hold hlt (hpiece.of_edged hedged (view_or _ hbefore)
          (side_head?_append [] _ _ hv' hv hside))

omit hedged in
/-- What follows a match looks the same when the matches there are replaced. -/
theorem Cut.side_head?_eq (hsolid : p.solid = true) {r : List Rune → List Nat} {before : Option Nat}
    {rs rest : List Rune} {cuts : List (List Rune × List Rune)} (hcut : p.Cut before rs cuts rest)
    (hr : ∀ c ∈ cuts, Alike (c.2.map Rune.code) (r c.2)) :
    wordSide ((cuts.flatMap fun c => c.1.map Rune.code ++ r c.2) ++ rest.map Rune.code).head? =
      wordSide (rs.map Rune.code).head? := by
  cases hcut with
  | rest => rfl
  | @piece _ gap w rs _ cuts _ hpiece _ =>
    have halike := hr (gap, w) List.mem_cons_self
    rw [List.flatMap_cons, List.append_assoc, List.append_assoc, List.map_append, List.map_append]
    exact side_head?_append _ _ _ halike.ne (ne_nil_of_solid hsolid hpiece) halike.head_side

/-- A match that is replaced by another piece is matched again, when all replacements look like what
they replace. -/
theorem occursIn_of_kept (hsolid : p.solid = true) {r : List Rune → List Nat} {before : Option Nat}
    {rs rest : List Rune} {cuts : List (List Rune × List Rune)} (hcut : p.Cut before rs cuts rest)
    (hr : ∀ c ∈ cuts, Alike (c.2.map Rune.code) (r c.2)) {c : List Rune × List Rune} (hc : c ∈ cuts)
    (hkept : ∀ {b a}, p.Piece b (c.2.map Rune.code) a → p.Piece b (r c.2) a) :
    ∀ before' : Option Nat, wordSide before' = wordSide before →
      p.OccursIn before' ((cuts.flatMap fun c => c.1.map Rune.code ++ r c.2) ++
        rest.map Rune.code) := by
  induction hcut with
  | rest => cases hc
  | @piece before gap w rs rest cuts hclear hpiecew hcut ih =>
    intro before' hbefore
    obtain ⟨halike, hrest⟩ := List.forall_mem_cons.1 hr
    rw [List.flatMap_cons, List.append_assoc, List.append_assoc]
    rcases List.mem_cons.1 hc with rfl | hc
    · refine ⟨_, _, _, rfl, (hkept hpiecew).of_edged hedged ?_ ?_⟩
      · rw [codeBehind_eq]
        exact (view_or _ hbefore).symm
      · rw [codeAhead_eq, hcut.side_head?_eq hsolid hrest]
    · obtain ⟨g, x, post, hcs, hpiece⟩ := ih hrest hc (r w).getLast? (by
        rw [halike.last_side, codeBehind_eq, List.map_append,
          getLast?_append_or (ne_nil_of_solid hsolid hpiecew)])
      refine ⟨gap.map Rune.code ++ (r w ++ g), x, post, by rw [hcs]; simp, ?_⟩
      rwa [← List.append_assoc, List.getLast?_append, Option.or_assoc, getLast?_append_or halike.ne]

end

/-! ## New texts -/

section

variable {p : Pattern} {f : Text → Text} {t : Text} {rest : List Rune}
  {cuts : List (List Rune × List Rune)}
  (hcut : p.Cut none t.runes cuts rest) (hends : ∀ c ∈ cuts, (f (Text.ofRunes c.2)).Standalone)
include hcut hends

theorem codes_weave : (weave f cuts rest).codes =
    (cuts.flatMap fun c => c.1.map Rune.code ++ (f (Text.ofRunes c.2)).codes) ++
      rest.map Rune.code := by
  simp only [Text.codes, runes_weave hcut.runes_eq hends, List.map_append, List.map_flatMap]

variable (hedged : p.edged = true) (hsolid : p.solid = true)
include hedged hsolid

/-- **Sealed replacements.** When every match gives way to a text that seals it, nothing matches any
more. -/
theorem not_matchesIn_weave (hf : ∀ c ∈ cuts, ∀ {b a}, p.Piece b (c.2.map Rune.code) a →
    p.Seals b (c.2.map Rune.code) (f (Text.ofRunes c.2)).codes) :
    p.matchesIn (weave f cuts rest) = false := by
  rw [← Bool.not_eq_true, matchesIn_iff_occursIn, codes_weave hcut hends]
  exact not_occursIn_of_seals (r := fun w => (f (Text.ofRunes w)).codes) hedged hsolid hcut hf
    none rfl

theorem matchesIn_weave (hf : ∀ c ∈ cuts, Alike (c.2.map Rune.code) (f (Text.ofRunes c.2)).codes)
    {c : List Rune × List Rune} (hc : c ∈ cuts)
    (hkept : ∀ {b a}, p.Piece b (c.2.map Rune.code) a → p.Piece b (f (Text.ofRunes c.2)).codes a) :
    p.matchesIn (weave f cuts rest) = true := by
  rw [matchesIn_iff_occursIn, codes_weave hcut hends]
  exact occursIn_of_kept (r := fun w => (f (Text.ofRunes w)).codes) hedged hsolid hcut hf hc hkept
    none rfl

end

end Pattern
end CodeAudit
