import CodeAudit.Pattern.Replace
import CodeAudit.Proofs.Pattern.Completeness
import CodeAudit.Proofs.Pattern.Shape

/-!
# Texts cut into pieces of a pattern

The matches of a pattern that has no empty pieces cut a text: there is a gap, then a piece, again a
gap, and so on, and a rest. No piece starts in a gap or in the rest, and replacing the matches puts
something else between the gaps.

**Results.**
* `searchFrom_eq_some`, `searchFrom_eq_none`: the leftmost piece, and what stands before it.
* `matchesIn_iff_occursIn`: a pattern matches in a text exactly when some of its code points are a
  piece.
* `exists_cut`: the cut of a text, its matches, and the text with the matches replaced.
* `exists_cut_ends`: the same, with what holds of the runes behind the matches.
-/
namespace CodeAudit
namespace Pattern

/-- A piece starts where the runes do. -/
def Starts (p : Pattern) (before : Option Nat) (rs : List Rune) : Prop :=
  ∃ w post, rs = w ++ post ∧ p.Piece before (w.map Rune.code) (codeAhead post)

/-- No piece starts within a gap, when `rest` follows it. -/
def Clear (p : Pattern) (before : Option Nat) (gap rest : List Rune) : Prop :=
  ∀ g g', gap = g ++ g' → g' ≠ [] → ¬ p.Starts (codeBehind before g) (g' ++ rest)

/-- Some of the code points are a piece, where nothing stands around them all but `before`. -/
def OccursIn (p : Pattern) (before : Option Nat) (cs : List Nat) : Prop :=
  ∃ g w post, cs = g ++ (w ++ post) ∧ p.Piece (g.getLast?.or before) w post.head?

theorem codeBehind_append (before : Option Nat) (rs ss : List Rune) :
    codeBehind before (rs ++ ss) = codeBehind (codeBehind before rs) ss := by
  simp [codeBehind]

theorem codeAhead_eq (rs : List Rune) : codeAhead rs = (rs.map Rune.code).head? := by
  simp [codeAhead]

theorem clear_nil (p : Pattern) (before : Option Nat) (rest : List Rune) :
    p.Clear before [] rest := by
  intro g g' h hne
  exact absurd (List.append_eq_nil_iff.1 h.symm).2 hne

theorem Clear.cons {p : Pattern} {before : Option Nat} {r : Rune} {gap rest : List Rune}
    (hr : ¬ p.Starts before (r :: (gap ++ rest))) (h : p.Clear (some r.code) gap rest) :
    p.Clear before (r :: gap) rest := by
  intro g g' hg hne
  cases g with
  | nil =>
    rw [List.nil_append] at hg
    subst hg
    exact hr
  | cons x g =>
    rw [List.cons_append, List.cons.injEq] at hg
    obtain ⟨rfl, rfl⟩ := hg
    exact h g g' rfl hne

/-! ## Searching -/

section

variable {p : Pattern} {rs : List Rune}

theorem searchFrom_eq_some (hpos : ∀ r ∈ rs, 0 < r.width) : ∀ {before : Option Nat} {offset i : Nat}
    {u : Cursor}, p.searchFrom before rs offset = some (i, u) → ∃ gap w, rs = gap ++ (w ++ u.rest) ∧
      p.Clear before gap (w ++ u.rest) ∧
      p.Piece (codeBehind before gap) (w.map Rune.code) (codeAhead u.rest) ∧
      i = offset + (Text.ofRunes gap).length ∧ u.len = (Text.ofRunes w).length ∧
      u.before = codeBehind before (gap ++ w) := by
  induction rs with
  | nil =>
    intro before offset i u h
    rw [searchFrom] at h
    obtain ⟨x, hx, heq⟩ := Option.map_eq_some_iff.1 h
    obtain ⟨rfl, rfl⟩ := Prod.mk.inj heq
    obtain ⟨w, hw, hpiece, hlen, hbefore⟩ := attempt_eq_some hx
    exact ⟨[], w, hw, clear_nil p before _, hpiece, rfl, hlen, hbefore⟩
  | cons r rs ih =>
    intro before offset i u h
    rw [searchFrom] at h
    split at h
    · rename_i x hx
      obtain ⟨rfl, rfl⟩ := Prod.mk.inj (Option.some.inj h)
      obtain ⟨w, hw, hpiece, hlen, hbefore⟩ := attempt_eq_some hx
      exact ⟨[], w, hw, clear_nil p before _, hpiece, rfl, hlen, hbefore⟩
    · rename_i hnone
      obtain ⟨gap, w, hrs, hclear, hpiece, hi, hlen, hbefore⟩ :=
        ih (fun x hx => hpos x (List.mem_cons_of_mem r hx)) h
      refine ⟨r :: gap, w, by rw [hrs, List.cons_append], hclear.cons ?_, hpiece, ?_, hlen, hbefore⟩
      · rw [← hrs]
        intro hstarts
        have := (attempt_isSome_iff hpos).2 hstarts
        rw [hnone] at this
        cases this
      · rw [hi, Text.ofRunes_cons, List.length_append, Rune.width, Nat.add_assoc]

theorem searchFrom_eq_none (hpos : ∀ r ∈ rs, 0 < r.width) : ∀ {before : Option Nat} {offset : Nat},
    p.searchFrom before rs offset = none → p.Clear before rs [] ∧
      ¬ p.Starts (codeBehind before rs) [] := by
  induction rs with
  | nil =>
    intro before offset h
    rw [searchFrom, Option.map_eq_none_iff] at h
    refine ⟨clear_nil p before [], fun hstarts => ?_⟩
    have := (@attempt_isSome_iff p before [] (by simp)).2 hstarts
    rw [h] at this
    cases this
  | cons r rs ih =>
    intro before offset h
    rw [searchFrom] at h
    split at h
    · cases h
    · rename_i hnone
      obtain ⟨hclear, hend⟩ := ih (fun x hx => hpos x (List.mem_cons_of_mem r hx)) h
      refine ⟨hclear.cons ?_, hend⟩
      rw [List.append_nil]
      intro hstarts
      have := (attempt_isSome_iff hpos).2 hstarts
      rw [hnone] at this
      cases this

end

theorem find?_eq_some_piece {p : Pattern} {t : Text} {m : Match} (h : p.find? t = some m) :
    ∃ gap w post, t.runes = gap ++ (w ++ post) ∧ p.Clear none gap (w ++ post) ∧
      p.Piece (codeBehind none gap) (w.map Rune.code) (codeAhead post) ∧
      m.start = (Text.ofRunes gap).length ∧ m.len = (Text.ofRunes w).length := by
  obtain ⟨⟨i, u⟩, hsearch, rfl⟩ := Option.map_eq_some_iff.1 h
  obtain ⟨gap, w, hrs, hclear, hpiece, hi, hlen, -⟩ :=
    searchFrom_eq_some (fun r hr => Text.width_pos_of_mem_runes hr) hsearch
  exact ⟨gap, w, u.rest, hrs, hclear, hpiece, by rw [hi, Nat.zero_add], hlen⟩

/-- The text of a match that is placed between runes. -/
theorem Match.text_eq {t : Text} {m : Match} {gap w post : List Rune}
    (hruns : t.runes = gap ++ (w ++ post))
    (hstart : m.start = (Text.ofRunes gap).length) (hlen : m.len = (Text.ofRunes w).length) :
    m.text t = Text.ofRunes w := by
  have ht : t = Text.ofRunes gap ++ (Text.ofRunes w ++ Text.ofRunes post) := by
    rw [← Text.ofRunes_append, ← Text.ofRunes_append, ← hruns, Text.ofRunes_runes]
  rw [Match.text, Text.slice, Match.stop, Nat.add_sub_cancel_left, hstart, hlen, ht, List.drop_left,
    List.take_left]

theorem find?_stop_le {p : Pattern} {t : Text} {m : Match} (h : p.find? t = some m) :
    m.stop ≤ t.length := by
  obtain ⟨gap, w, post, hruns, -, -, hstart, hlen⟩ := find?_eq_some_piece h
  have := congrArg List.length (Text.ofRunes_runes t)
  rw [hruns, Text.ofRunes_append, Text.ofRunes_append, List.length_append, List.length_append]
    at this
  rw [Match.stop]
  omega

/-- A pattern matches in a text exactly when some of its code points are a piece. -/
theorem matchesIn_iff_occursIn (p : Pattern) (t : Text) :
    p.matchesIn t = true ↔ p.OccursIn none t.codes := by
  unfold matchesIn
  constructor
  · intro h
    obtain ⟨m, hm⟩ := Option.isSome_iff_exists.1 h
    obtain ⟨gap, w, post, hrs, -, hpiece, -⟩ := find?_eq_some_piece hm
    refine ⟨gap.map Rune.code, w.map Rune.code, post.map Rune.code, ?_, ?_⟩
    · rw [Text.codes, hrs, List.map_append, List.map_append]
    · rwa [codeBehind_eq, codeAhead_eq] at hpiece
  · rintro ⟨g, w, post, hcodes, hpiece⟩
    obtain ⟨gap, rest, hrs, rfl, hrest⟩ := List.map_eq_append_iff.1 hcodes
    obtain ⟨w, post, rfl, rfl, rfl⟩ := List.map_eq_append_iff.1 hrest
    have hstarts : p.Starts (codeBehind none gap) (w ++ post) := by
      refine ⟨w, post, rfl, ?_⟩
      rwa [codeBehind_eq, codeAhead_eq]
    rw [Option.isSome_iff_ne_none]
    intro hnone
    rw [find?, Option.map_eq_none_iff] at hnone
    obtain ⟨hclear, hend⟩ := searchFrom_eq_none (fun r hr => Text.width_pos_of_mem_runes hr) hnone
    rw [hrs] at hclear hend
    by_cases hne : w ++ post = []
    · rw [hne, List.append_nil] at hend
      exact hend (hne ▸ hstarts)
    · refine hclear gap (w ++ post) rfl hne ?_
      rwa [List.append_nil]

/-! ## Cuts -/

/-- The cut of runes by a pattern: gaps, each with the piece behind it, and the rest. -/
inductive Cut (p : Pattern) :
    Option Nat → List Rune → List (List Rune × List Rune) → List Rune → Prop where
  | rest {before : Option Nat} {rs : List Rune} (hclear : p.Clear before rs []) :
    Cut p before rs [] rs
  | piece {before : Option Nat} {gap w rs rest : List Rune} {cuts : List (List Rune × List Rune)}
      (hclear : p.Clear before gap (w ++ rs))
      (hpiece : p.Piece (codeBehind before gap) (w.map Rune.code) (codeAhead rs))
      (hcut : Cut p (codeBehind before (gap ++ w)) rs cuts rest) :
      Cut p before (gap ++ (w ++ rs)) ((gap, w) :: cuts) rest

/-- The matches stand where the pieces of a cut do, the runes of which start at `offset`. -/
inductive Placed : Nat → List Match → List (List Rune × List Rune) → Prop where
  | nil {offset : Nat} : Placed offset [] []
  | cons {offset : Nat} {m : Match} {ms : List Match} {gap w : List Rune}
      {cuts : List (List Rune × List Rune)} (hstart : m.start = offset + (Text.ofRunes gap).length)
      (hlen : m.len = (Text.ofRunes w).length) (h : Placed m.stop ms cuts) :
      Placed offset (m :: ms) ((gap, w) :: cuts)

/-- The gaps of a cut with something else for each piece, and the rest. -/
def weave (f : Text → Text) (cuts : List (List Rune × List Rune)) (rest : List Rune) : Text :=
  (cuts.flatMap fun c => Text.ofRunes c.1 ++ f (Text.ofRunes c.2)) ++ Text.ofRunes rest

theorem weave_cons (f : Text → Text) (gap w rest : List Rune)
    (cuts : List (List Rune × List Rune)) :
    weave f ((gap, w) :: cuts) rest =
      Text.ofRunes gap ++ (f (Text.ofRunes w) ++ weave f cuts rest) := by
  simp [weave]

theorem Cut.runes_eq {p : Pattern} {before : Option Nat} {rs rest : List Rune}
    {cuts : List (List Rune × List Rune)} (h : p.Cut before rs cuts rest) :
    rs = (cuts.flatMap fun c => c.1 ++ c.2) ++ rest := by
  induction h with
  | rest => rfl
  | piece _ _ _ ih =>
    rw [List.flatMap_cons, List.append_assoc, List.append_assoc, ← ih]

theorem Cut.runes_piece {p : Pattern} {t : Text} {before : Option Nat} {rest : List Rune}
    {cuts : List (List Rune × List Rune)} (h : p.Cut before t.runes cuts rest) :
    ∀ c ∈ cuts, (Text.ofRunes c.2).runes = c.2 := by
  intro c hc
  obtain ⟨l₁, l₂, rfl⟩ := List.append_of_mem hc
  have hruns := h.runes_eq
  simp only [List.flatMap_append, List.flatMap_cons, List.append_assoc] at hruns
  exact (Text.runes_split (Text.runes_split (Text.runes_split hruns).2).2).1

theorem Cut.exists_piece {p : Pattern} {before : Option Nat} {rs rest : List Rune}
    {cuts : List (List Rune × List Rune)} (h : p.Cut before rs cuts rest) :
    ∀ c ∈ cuts, ∃ b a, p.Piece b (c.2.map Rune.code) a := by
  induction h with
  | rest => simp
  | piece _ hpiece _ ih => exact List.forall_mem_cons.2 ⟨⟨_, _, hpiece⟩, ih⟩

theorem Cut.occursIn {p : Pattern} {before : Option Nat} {rs rest : List Rune}
    {cuts : List (List Rune × List Rune)} (h : p.Cut before rs cuts rest) (hne : cuts ≠ []) :
    p.OccursIn before (rs.map Rune.code) := by
  cases h with
  | rest => exact absurd rfl hne
  | @piece _ gap w rs _ _ _ hpiece _ =>
    refine ⟨gap.map Rune.code, w.map Rune.code, rs.map Rune.code, by simp, ?_⟩
    rwa [codeBehind_eq, codeAhead_eq] at hpiece

/-- Where a piece of a cut ends, the runes that follow are as `P` says. -/
def Ends (P : List Rune → Prop) (rest : List Rune) : List (List Rune × List Rune) → Prop
  | [] => True
  | _ :: cuts => P ((cuts.flatMap fun c => c.1 ++ c.2) ++ rest) ∧ Ends P rest cuts

/-- The matches from a place on cut what follows it. Neither bound is met, since every match takes
runes. What holds of the runes behind every match that is found holds behind every piece. -/
theorem exists_cut_findAllFrom_ends {p : Pattern} (hp : p.solid = true) {P : List Rune → Prop}
    (hP : ∀ {before rs offset i u}, p.searchFrom before rs offset = some (i, u) → P u.rest) :
    ∀ (fuel limit : Nat) (before : Option Nat) (rs : List Rune) (offset : Nat) (last : Option Nat),
      (∀ r ∈ rs, 0 < r.width) → rs.length < fuel → rs.length < limit →
      ∃ cuts rest, p.Cut before rs cuts rest ∧
        Placed offset (p.findAllFrom fuel limit before rs offset last) cuts ∧ Ends P rest cuts := by
  intro fuel
  induction fuel with
  | zero => intro limit before rs offset last _ hfuel; omega
  | succ fuel ih =>
    intro limit before rs offset last hpos hfuel hlimit
    obtain ⟨limit, rfl⟩ : ∃ k, limit = k + 1 := ⟨limit - 1, by omega⟩
    rw [findAllFrom]
    split
    · rename_i hnone
      exact ⟨[], rs, .rest (searchFrom_eq_none hpos hnone).1, .nil, trivial⟩
    · rename_i i u hsome
      obtain ⟨gap, w, hrs, hclear, hpiece, hi, hlen, hbefore⟩ := searchFrom_eq_some hpos hsome
      have hne : w ≠ [] := fun h => ne_nil_of_solid hp hpiece (by rw [h, List.map_nil])
      obtain ⟨r, w', hw⟩ := List.exists_cons_of_ne_nil hne
      have hwidth := hpos r (by rw [hrs, hw]; simp)
      have hulen : 0 < u.len := by
        rw [hlen, hw, Text.ofRunes_cons, List.length_append]
        rw [Rune.width] at hwidth
        omega
      have hshort : u.rest.length < rs.length := by
        rw [hrs, hw]
        simp only [List.length_append, List.length_cons]
        omega
      rw [if_pos (by omega)]
      have hpos' : ∀ r ∈ u.rest, 0 < r.width := fun r hr => hpos r (by rw [hrs]; simp [hr])
      obtain ⟨cuts, rest, hcut, hplaced, hends⟩ :=
        ih limit u.before u.rest (i + u.len) (some (i + u.len)) hpos' (by omega) (by omega)
      have hbehind := hP hsome
      rw [hcut.runes_eq] at hbehind
      rw [hbefore] at hcut
      refine ⟨(gap, w) :: cuts, rest, ?_, .cons hi hlen hplaced, hbehind, hends⟩
      rw [hrs]
      exact .piece hclear hpiece hcut

theorem length_runes_le (t : Text) : t.runes.length ≤ t.length := by
  have hsum : ∀ rs : List Rune, (∀ r ∈ rs, 0 < r.width) → rs.length ≤ (Text.ofRunes rs).length := by
    intro rs
    induction rs with
    | nil => simp
    | cons r rs ih =>
      intro hpos
      have := hpos r List.mem_cons_self
      have := ih fun x hx => hpos x (List.mem_cons_of_mem r hx)
      rw [Text.ofRunes_cons, List.length_append, List.length_cons]
      rw [Rune.width] at *
      omega
  have := hsum t.runes fun r hr => Text.width_pos_of_mem_runes hr
  rwa [Text.ofRunes_runes] at this

/-- Matches that stand where the pieces do have the pieces as their texts. -/
theorem Placed.rebuild_eq {t : Text} {offset : Nat} {ms : List Match}
    {cuts : List (List Rune × List Rune)} (h : Placed offset ms cuts) (rest : List Rune)
    (ht : t.drop offset = Text.ofRunes ((cuts.flatMap fun c => c.1 ++ c.2) ++ rest)) :
    ms.map (·.text t) = cuts.map (fun c => Text.ofRunes c.2) ∧
      ∀ f : Text → Text, rebuild (fun m => f (m.text t)) t offset ms = weave f cuts rest := by
  induction h with
  | nil => exact ⟨rfl, fun f => by simpa [rebuild, weave] using ht⟩
  | @cons offset m ms gap w cuts hstart hlen _ ih =>
    simp only [List.flatMap_cons, List.append_assoc, Text.ofRunes_append] at ht
    have hgap : Text.slice t offset m.start = Text.ofRunes gap := by
      rw [Text.slice, ht, hstart, Nat.add_sub_cancel_left, List.take_left]
    have hdrop : t.drop m.start = Text.ofRunes w ++ (Text.ofRunes (cuts.flatMap fun c => c.1 ++ c.2)
        ++ Text.ofRunes rest) := by
      rw [hstart, ← List.drop_drop, ht, List.drop_left]
    have htext : m.text t = Text.ofRunes w := by
      rw [Match.text, Text.slice, hdrop, Match.stop, Nat.add_sub_cancel_left, hlen, List.take_left]
    have hstop : t.drop m.stop = Text.ofRunes ((cuts.flatMap fun c => c.1 ++ c.2) ++ rest) := by
      rw [Match.stop, ← List.drop_drop, hdrop, hlen, List.drop_left, Text.ofRunes_append]
    obtain ⟨htexts, hrebuild⟩ := ih hstop
    refine ⟨by rw [List.map_cons, List.map_cons, htext, htexts], fun f => ?_⟩
    rw [rebuild, hgap, htext, hrebuild f]
    simp [weave]

/-- The matches of a pattern without empty pieces cut the text, and what holds behind every match
that is found holds behind every piece. -/
theorem exists_cut_ends {p : Pattern} (hp : p.solid = true) {P : List Rune → Prop}
    (hP : ∀ {before rs offset i u}, p.searchFrom before rs offset = some (i, u) → P u.rest)
    (t : Text) :
    ∃ cuts rest, p.Cut none t.runes cuts rest ∧ Placed 0 (p.findAll t) cuts ∧ Ends P rest cuts ∧
      (p.findAll t).map (·.text t) = cuts.map (fun c => Text.ofRunes c.2) ∧
      ∀ f : Text → Text, p.replaceBy (fun m => f (m.text t)) t = weave f cuts rest := by
  have hle := length_runes_le t
  obtain ⟨cuts, rest, hcut, hplaced, hends⟩ :=
    exists_cut_findAllFrom_ends hp hP (t.runes.length + 2)
    (t.length + 1) none t.runes 0 none (fun r hr => Text.width_pos_of_mem_runes hr) (by omega)
      (by omega)
  refine ⟨cuts, rest, hcut, hplaced, hends, hplaced.rebuild_eq rest ?_⟩
  rw [← hcut.runes_eq, Text.ofRunes_runes, List.drop_zero]

/-- **Cuts.** The matches of a pattern without empty pieces cut the text. -/
theorem exists_cut {p : Pattern} (hp : p.solid = true) (t : Text) : ∃ cuts rest,
    p.Cut none t.runes cuts rest ∧ Placed 0 (p.findAll t) cuts ∧
      (p.findAll t).map (·.text t) = cuts.map (fun c => Text.ofRunes c.2) ∧
      ∀ f : Text → Text, p.replaceBy (fun m => f (m.text t)) t = weave f cuts rest := by
  obtain ⟨cuts, rest, hcut, hplaced, -, htexts, hweave⟩ :=
    exists_cut_ends hp (P := fun _ => True) (fun _ => trivial) t
  exact ⟨cuts, rest, hcut, hplaced, htexts, hweave⟩

end Pattern
end CodeAudit
