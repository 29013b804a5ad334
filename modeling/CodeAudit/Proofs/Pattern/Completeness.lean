import CodeAudit.Proofs.Pattern.Piece

/-!
# No piece is missed

`Pattern.run` keeps one cursor for each place. Where every rune has bytes, the number of bytes
passed tells the place, and what follows from a place does not depend on how it was reached. A
repetition goes on from each place only once, and it remembers the places: from all that it
remembers, rounds lead to places that it remembers.

**Results.**
* `Loop.inv_visit`: continuing a repetition leaves out no place.
* `complete`: behind every piece there is a cursor that comes out.
* `attempt_isSome_iff`: an attempt succeeds exactly where a piece starts.
-/
namespace CodeAudit

/-! ## Places and bytes -/

theorem Text.eq_of_ofRunes_length {a b c d : List Rune} (h : a ++ b = c ++ d)
    (hlen : (ofRunes a).length = (ofRunes c).length) (hpos : ∀ r ∈ a ++ b, 0 < r.width) :
    a = c ∧ b = d := by
  simp only [Rune.width] at hpos
  induction a generalizing c with
  | nil =>
    cases c with
    | nil => exact ⟨rfl, h⟩
    | cons r c =>
      have := hpos r (by rw [h]; exact List.mem_cons_self)
      rw [ofRunes_cons, List.length_append, ofRunes_nil, List.length_nil] at hlen
      omega
  | cons r a ih =>
    cases c with
    | nil =>
      have := hpos r List.mem_cons_self
      rw [ofRunes_cons, List.length_append, ofRunes_nil, List.length_nil] at hlen
      omega
    | cons r' c =>
      rw [List.cons_append, List.cons_append, List.cons.injEq] at h
      obtain ⟨rfl, h⟩ := h
      obtain ⟨rfl, rfl⟩ := ih h (by simpa using hlen) fun x hx => hpos x (List.mem_cons_of_mem r hx)
      exact ⟨rfl, rfl⟩

namespace Cursor

/-- Two cursors stand at one place. -/
structure SamePlace (t u : Cursor) : Prop where
  rest : t.rest = u.rest
  before : t.before = u.before
  len : t.len = u.len

/-- The second cursor stands somewhere behind the first. -/
def Behind (o t : Cursor) : Prop := ∃ w, o.Past w t

theorem Behind.past {o t u : Cursor} {w : List Rune} (h : o.Behind t) (hw : t.Past w u) :
    o.Behind u := by
  obtain ⟨v, hv⟩ := h
  exact ⟨v ++ w, hv.trans hw⟩

theorem Past.samePlace {t u x : Cursor} {w : List Rune} (hu : t.Past w u) (hx : t.Past w x) :
    u.SamePlace x := by
  refine ⟨?_, hu.before.trans hx.before.symm, hu.len.trans hx.len.symm⟩
  exact List.append_cancel_left (hu.rest.symm.trans hx.rest)

theorem Past.of_samePlace {t u x : Cursor} {w : List Rune} (h : t.Past w u) (hx : x.SamePlace u) :
    t.Past w x :=
  ⟨by rw [h.rest, hx.rest], by rw [hx.before, h.before], by rw [hx.len, h.len]⟩

theorem SamePlace.past {t x u : Cursor} {w : List Rune} (hx : x.SamePlace t) (h : t.Past w u) :
    x.Past w u :=
  ⟨by rw [hx.rest, h.rest], by rw [hx.before, h.before], by rw [hx.len, h.len]⟩

theorem Past.split {t x : Cursor} {w v : List Rune} (h : t.Past (w ++ v) x) :
    ∃ u, t.Past w u ∧ u.Past v x := by
  have hrest : t.rest = w ++ (v ++ x.rest) := by rw [h.rest, List.append_assoc]
  refine ⟨t.skip w (v ++ x.rest), past_skip hrest, rfl, ?_, ?_⟩
  · rw [h.before, skip, List.map_append, List.getLast?_append, Option.or_assoc]
  · rw [h.len, skip, Text.ofRunes_append, List.length_append, Nat.add_assoc]

theorem Past.len_lt {t u : Cursor} {w : List Rune} (h : t.Past w u) (hne : w ≠ [])
    (hpos : ∀ r ∈ t.rest, 0 < r.width) : t.len < u.len := by
  cases w with
  | nil => exact absurd rfl hne
  | cons r w =>
    have := hpos r (by rw [h.rest]; exact List.mem_cons_self)
    rw [h.len, Text.ofRunes_cons, List.length_append]
    rw [Rune.width] at this
    omega

theorem Past.ne_nil {t u : Cursor} {w : List Rune} (h : t.Past w u) (hlt : t.len < u.len) :
    w ≠ [] := by
  rintro rfl
  have := h.len
  simp at this
  omega

section

variable {o : Cursor} (hpos : ∀ r ∈ o.rest, 0 < r.width)
include hpos

/-- Where the runes have bytes, the number of bytes passed gives the place. -/
theorem Behind.samePlace {t u : Cursor} (ht : o.Behind t) (hu : o.Behind u) (hlen : t.len = u.len) :
    t.SamePlace u := by
  obtain ⟨w, hw⟩ := ht
  obtain ⟨v, hv⟩ := hu
  have hwv : w = v := by
    refine (Text.eq_of_ofRunes_length (hw.rest.symm.trans hv.rest) ?_ ?_).1
    · have := hw.len
      have := hv.len
      omega
    · rw [← hw.rest]
      exact hpos
  subst hwv
  exact hw.samePlace hv

theorem Behind.rest_pos {t : Cursor} (ht : o.Behind t) : ∀ r ∈ t.rest, 0 < r.width := by
  obtain ⟨w, hw⟩ := ht
  intro r hr
  exact hpos r (by rw [hw.rest]; exact List.mem_append_right w hr)

omit hpos in
theorem exists_mem_keepFirst {ts : List Cursor} {t : Cursor} (ht : t ∈ ts) : ∀ seen : Places,
    seen.contains t.len = true ∨ ∃ u ∈ keepFirst seen ts, u.len = t.len := by
  induction ts with
  | nil => cases ht
  | cons x ts ih =>
    intro seen
    rw [keepFirst]
    rcases List.mem_cons.1 ht with rfl | ht
    · split
      · rename_i hseen
        exact Or.inl hseen
      · exact Or.inr ⟨t, List.mem_cons_self, rfl⟩
    · split
      · exact ih ht seen
      · rcases ih ht (seen.insert x.len) with hseen | ⟨u, hu, hlen⟩
        · rw [Places.contains_insert, Bool.or_eq_true, beq_iff_eq] at hseen
          rcases hseen with hx | hseen
          · exact Or.inr ⟨x, List.mem_cons_self, hx⟩
          · exact Or.inl hseen
        · exact Or.inr ⟨u, List.mem_cons_of_mem x hu, hlen⟩

omit hpos in
theorem contains_foldl_insert (us : List Cursor) (n : Nat) : ∀ seen : Places,
    (us.foldl (fun seen u => seen.insert u.len) seen).contains n = true ↔
      seen.contains n = true ∨ ∃ u ∈ us, u.len = n := by
  induction us with
  | nil => simp
  | cons x us ih =>
    intro seen
    rw [List.foldl_cons, ih, Places.contains_insert]
    simp only [Bool.or_eq_true, beq_iff_eq, List.mem_cons, or_and_right, exists_or, exists_eq_left]
    rw [or_comm (a := x.len = n), or_assoc]

omit hpos in
theorem subset_spread {s : CodeSet} {seen : Places} {marks : List (Nat × Nat)} {rs : List Rune} :
    ∀ {before : Option Nat} {len : Nat} {acc : List Cursor},
      acc ⊆ spread s seen marks rs before len acc := by
  induction rs with
  | nil =>
    intro before len acc
    rw [spread]
    split
    · exact List.Subset.refl acc
    · exact List.subset_cons_self _ acc
  | cons r rs ih =>
    intro before len acc
    rw [spread]
    split
    · exact List.Subset.refl acc
    · split
      · exact List.Subset.trans (List.subset_cons_self _ acc) ih
      · exact List.subset_cons_self _ acc

omit hpos in
/-- Runes of the set lead to a place in the spread, or over one that was seen. -/
theorem exists_mem_spread {s : CodeSet} {seen : Places} {w : List Rune}
    (hw : ∀ r ∈ w, s.contains r.code = true) : ∀ {t u : Cursor} (acc : List Cursor), t.Past w u →
    (∃ v v' x, w = v ++ v' ∧ t.Past v x ∧ seen.contains x.len = true) ∨
      ∃ x ∈ spread s seen t.marks t.rest t.before t.len acc, t.Past w x := by
  induction w with
  | nil =>
    intro t u acc _
    by_cases hseen : seen.contains t.len = true
    · exact Or.inl ⟨[], [], t, rfl, past_nil rfl rfl rfl, hseen⟩
    · refine Or.inr ⟨t, ?_, past_nil rfl rfl rfl⟩
      obtain ⟨before, rest, len, marks⟩ := t
      cases rest with
      | nil => simp [spread, hseen]
      | cons r rs =>
        simp only [spread, if_neg hseen]
        split
        · exact subset_spread List.mem_cons_self
        · exact List.mem_cons_self
  | cons r w ih =>
    intro t u acc h
    by_cases hseen : seen.contains t.len = true
    · exact Or.inl ⟨[], r :: w, t, rfl, past_nil rfl rfl rfl, hseen⟩
    · obtain ⟨m, hm, hmu⟩ := Past.split (w := [r]) h
      have hrest : t.rest = r :: m.rest := hm.rest
      have hr := hw r List.mem_cons_self
      have hskip := past_skip (w := [r]) hrest
      have hplace := hskip.samePlace hm
      rcases ih (fun x hx => hw x (List.mem_cons_of_mem r hx)) (t :: acc) (hplace.past hmu) with
        ⟨v, v', x, rfl, hv, hx⟩ | ⟨x, hx, hpast⟩
      · exact Or.inl ⟨r :: v, v', x, rfl, hskip.trans hv, hx⟩
      · refine Or.inr ⟨x, ?_, hskip.trans hpast⟩
        obtain ⟨before, rest, len, marks⟩ := t
        obtain rfl : rest = r :: m.rest := hrest
        simpa [spread, hseen, hr, skip, Rune.width] using hx

/-- From a place that was seen, runes of the set lead only to places that were seen. -/
def ClosedUnder (o : Cursor) (s : CodeSet) (seen : Places) : Prop :=
  ∀ t u w, o.Behind t → seen.contains t.len = true → t.Past w u →
    (∀ r ∈ w, s.contains r.code = true) → seen.contains u.len = true

theorem exists_mem_spreadAll {s : CodeSet} {ts : List Cursor}
    (hts : ∀ t ∈ ts, o.Behind t) {t u : Cursor}
    {w : List Rune} (ht : t ∈ ts) (hu : t.Past w u) (hw : ∀ r ∈ w, s.contains r.code = true) :
    ∀ {seen : Places}, ClosedUnder o s seen →
      seen.contains u.len = true ∨ ∃ x ∈ spreadAll s seen ts, x.len = u.len := by
  induction ts with
  | nil => cases ht
  | cons x ts ih =>
    intro seen hclosed
    rw [spreadAll_cons]
    -- what the first cursor reaches was seen or is in its spread
    have hfirst : ∀ {y : Cursor} {v : List Rune}, x.Past v y → (∀ r ∈ v, s.contains r.code = true) →
        seen.contains y.len = true ∨
          ∃ z ∈ spread s seen x.marks x.rest x.before x.len [], z.len = y.len := by
      intro y v hy hv
      rcases exists_mem_spread hv [] hy with ⟨v₁, v₂, z, rfl, hz, hseen⟩ | ⟨z, hz, hpast⟩
      · obtain ⟨m, hm, hmy⟩ := hy.split
        have hbehind := (hts x List.mem_cons_self).past hz
        refine Or.inl (hclosed z y v₂ hbehind hseen ((hz.samePlace hm).past hmy) ?_)
        exact fun r hr => hv r (List.mem_append_right v₁ hr)
      · exact Or.inr ⟨z, hz, (hpast.samePlace hy).len⟩
    rcases List.mem_cons.1 ht with rfl | ht
    · rcases hfirst hu hw with hseen | ⟨z, hz, hlen⟩
      · exact Or.inl hseen
      · exact Or.inr ⟨z, List.mem_append_left _ hz, hlen⟩
    · have hclosed' : ClosedUnder o s ((spread s seen x.marks x.rest x.before x.len []).foldl
          (fun seen u => seen.insert u.len) seen) := by
        intro a b v ha hseen hb hv
        rw [contains_foldl_insert] at hseen ⊢
        rcases hseen with hseen | ⟨z, hz, hlen⟩
        · exact Or.inl (hclosed a b v ha hseen hb hv)
        · rcases mem_spread hz with hz | ⟨v', hpast, hv'⟩
          · cases hz
          · have hxz : x.Past v' z := ⟨hpast.rest, hpast.before, hpast.len⟩
            have hplace := ((hts x List.mem_cons_self).past hxz).samePlace hpos ha hlen
            refine hfirst (hxz.trans (hplace.past hb)) fun r hr => ?_
            rcases List.mem_append.1 hr with hr | hr
            · exact hv' r.code (List.mem_map_of_mem hr)
            · exact hv r hr
      rcases ih (fun y hy => hts y (List.mem_cons_of_mem x hy)) ht hclosed'
        with hseen | ⟨z, hz, hlen⟩
      · rw [contains_foldl_insert] at hseen
        rcases hseen with hseen | ⟨z, hz, hlen⟩
        · exact Or.inl hseen
        · exact Or.inr ⟨z, List.mem_append_left _ hz, hlen⟩
      · exact Or.inr ⟨z, List.mem_append_right _ hz, hlen⟩

end

end Cursor

/-! ### Repetitions -/

section

variable {o : Cursor} {P : Option Nat → List Nat → Option Nat → Prop}

/-- The places seen by a repetition: each of them lets a cursor out, and a round from one leads to
another. -/
structure Loop.Inv (o : Cursor) (P : Option Nat → List Nat → Option Nat → Prop) (l : Loop) :
    Prop where
  out : ∀ t, o.Behind t → l.seen.contains t.len = true → ∃ u ∈ l.out, u.len = t.len
  next : ∀ t u w, o.Behind t → l.seen.contains t.len = true → w ≠ [] → t.Past w u →
    P t.before (w.map Rune.code) u.ahead → l.seen.contains u.len = true

/-- A later state of a repetition: what was seen stays seen. -/
def Loop.Le (l l' : Loop) : Prop := ∀ n, l.seen.contains n = true → l'.seen.contains n = true

/-- From a place that was seen, rounds lead only to places that were seen. -/
theorem Loop.Inv.rounds {l : Loop} (hl : l.Inv o P) {before after : Option Nat} {c : List Nat}
    (h : Rounds P before c after) : ∀ {t u : Cursor} {w : List Rune}, o.Behind t →
    l.seen.contains t.len = true → t.Past w u → t.before = before → w.map Rune.code = c →
    u.ahead = after → l.seen.contains u.len = true := by
  induction h with
  | done =>
    intro t u w _ hseen hpast _ hw _
    obtain rfl := List.map_eq_nil_iff.1 hw
    rw [hpast.len, Text.ofRunes_nil, List.length_nil, Nat.add_zero]
    exact hseen
  | round hne hround _ ih =>
    intro t u w ht hseen hpast hbefore hw hafter
    obtain ⟨w₁, w₂, rfl, rfl, rfl⟩ := List.map_eq_append_iff.1 hw
    obtain ⟨m, hm, hmu⟩ := hpast.split
    subst hbefore hafter
    have hne : w₁ ≠ [] := fun h => hne (by rw [h, List.map_nil])
    rw [← hmu.ahead_eq] at hround
    exact ih (ht.past hm) (hl.next t m w₁ ht hseen hne hm hround) hmu hm.before rfl rfl

variable (hpos : ∀ r ∈ o.rest, 0 < r.width) {body : List Cursor → List Cursor}
  (hsound : ∀ t, ∀ u ∈ body [t], t.Leads P u)
  (hcomplete : ∀ t u w, o.Behind t → t.Past w u → P t.before (w.map Rune.code) u.ahead →
    ∃ x ∈ body [t], t.Past w x)
include hpos hsound hcomplete

/-- Continuing a repetition at a place makes the place seen. The bound on the number of rounds is
never met, since every round shortens what is left of the text. -/
theorem Loop.inv_visit : ∀ (fuel : Nat) (t : Cursor) (l : Loop), o.Behind t → t.rest.length < fuel →
    l.Inv o P → (visit body fuel t l).Inv o P ∧ l.Le (visit body fuel t l) ∧
      (visit body fuel t l).seen.contains t.len = true := by
  intro fuel
  induction fuel with
  | zero => intro t l _ hfuel; omega
  | succ fuel ih =>
    intro t l ht hfuel hl
    rw [visit]
    split
    · rename_i hseen
      exact ⟨hl, fun n hn => hn, hseen⟩
    · have hfold : ∀ us : List Cursor, (∀ u ∈ us, u ∈ body [t]) → ∀ l : Loop, l.Inv o P →
          let l' := us.foldl (fun l u => if t.len < u.len then visit body fuel u l else l) l
          l'.Inv o P ∧ l.Le l' ∧ ∀ u ∈ us, t.len < u.len → l'.seen.contains u.len = true := by
        intro us
        induction us with
        | nil => intro _ l hl; exact ⟨hl, fun n hn => hn, by simp⟩
        | cons x us ihus =>
          intro hus l hl
          simp only [List.foldl_cons]
          have hstep : let l₁ := if t.len < x.len then visit body fuel x l else l
              l₁.Inv o P ∧ l.Le l₁ ∧ (t.len < x.len → l₁.seen.contains x.len = true) := by
            by_cases hlt : t.len < x.len
            · simp only [if_pos hlt]
              obtain ⟨w, hpast, -⟩ := hsound t x (hus x List.mem_cons_self)
              have hne := hpast.ne_nil hlt
              have hshort : x.rest.length < fuel := by
                have := congrArg List.length hpast.rest
                rw [List.length_append] at this
                have := List.length_pos_iff.2 hne
                omega
              obtain ⟨h₁, h₂, h₃⟩ := ih x l (ht.past hpast) hshort hl
              exact ⟨h₁, h₂, fun _ => h₃⟩
            · simp only [if_neg hlt]
              exact ⟨hl, fun n hn => hn, fun h => absurd h hlt⟩
          obtain ⟨hinv, hle, hx⟩ := hstep
          obtain ⟨hinv', hle', hus'⟩ := ihus (fun u hu => hus u (List.mem_cons_of_mem x hu)) _ hinv
          refine ⟨hinv', fun n hn => hle' n (hle n hn), fun u hu hlt => ?_⟩
          rcases List.mem_cons.1 hu with rfl | hu
          · exact hle' _ (hx hlt)
          · exact hus' u hu hlt
      obtain ⟨hinv, hle, hnext⟩ := hfold (body [t]) (fun u hu => hu) l hl
      refine ⟨⟨?_, ?_⟩, ?_, ?_⟩
      · intro x hx hseen
        rw [Places.contains_insert, Bool.or_eq_true, beq_iff_eq] at hseen
        rcases hseen with hlen | hseen
        · exact ⟨t, List.mem_cons_self, hlen⟩
        · obtain ⟨u, hu, hlen⟩ := hinv.out x hx hseen
          exact ⟨u, List.mem_cons_of_mem t hu, hlen⟩
      · intro x u w hx hseen hne hpast hP
        rw [Places.contains_insert, Bool.or_eq_true, beq_iff_eq] at hseen ⊢
        rcases hseen with hlen | hseen
        · -- a round from the place itself was continued before
          have hplace := ht.samePlace hpos hx hlen
          have htu := hplace.past hpast
          rw [← hplace.before] at hP
          obtain ⟨y, hy, hpasty⟩ := hcomplete t u w ht htu hP
          have hlt := hpasty.len_lt hne (ht.rest_pos hpos)
          rw [← (hpasty.samePlace htu).len]
          exact Or.inr (hnext y hy hlt)
        · exact Or.inr (hinv.next x u w hx hseen hne hpast hP)
      · intro n hn
        rw [Places.contains_insert, hle n hn, Bool.or_true]
      · rw [Places.contains_insert, beq_self_eq_true, Bool.true_or]

theorem Loop.inv_foldl_visit (ts : List Cursor) (hts : ∀ t ∈ ts, o.Behind t) : ∀ l :
    Loop, l.Inv o P → let l' := ts.foldl (fun l t => visit body (t.rest.length + 1) t l) l
    l'.Inv o P ∧ l.Le l' ∧ ∀ t ∈ ts, l'.seen.contains t.len = true := by
  induction ts with
  | nil => intro l hl; exact ⟨hl, fun n hn => hn, by simp⟩
  | cons x ts ih =>
    intro l hl
    obtain ⟨hinv, hle, hx⟩ :=
      inv_visit hpos hsound hcomplete (x.rest.length + 1) x l (hts x List.mem_cons_self)
        (Nat.lt_succ_self _) hl
    obtain ⟨hinv', hle', hts'⟩ := ih (fun t ht => hts t (List.mem_cons_of_mem x ht)) _ hinv
    refine ⟨hinv', fun n hn => hle' n (hle n hn), fun t ht => ?_⟩
    rcases List.mem_cons.1 ht with rfl | ht
    · exact hle' _ hx
    · exact hts' t ht

end

namespace Pattern

theorem behind_of_mem_run {o : Cursor} {p : Pattern} {ts : List Cursor}
    (hts : ∀ t ∈ ts, o.Behind t) :
    ∀ u ∈ p.run ts, o.Behind u := by
  intro u hu
  obtain ⟨t, ht, w, hpast, -⟩ := p.sound hu
  exact (hts t ht).past hpast

/-- Behind every piece that starts at a cursor that goes in, a cursor comes out. -/
theorem complete {o : Cursor} (hpos : ∀ r ∈ o.rest, 0 < r.width) (p : Pattern) :
    ∀ {ts : List Cursor} {t u : Cursor} {w : List Rune}, (∀ t ∈ ts, o.Behind t) → t ∈ ts →
      t.Past w u → p.Piece t.before (w.map Rune.code) u.ahead → ∃ x ∈ p.run ts, t.Past w x := by
  induction p with
  | empty =>
    intro ts t u w _ ht _ hw
    obtain rfl := List.map_eq_nil_iff.1 hw
    exact ⟨t, ht, Cursor.past_nil rfl rfl rfl⟩
  | one s =>
    intro ts t u w _ ht hpast hw
    obtain ⟨c, hc, hs⟩ := hw
    obtain ⟨r, rfl, rfl⟩ := List.map_eq_singleton_iff.1 hc
    obtain ⟨x, hx, hpastx⟩ := Cursor.step_of_past hpast hs
    exact ⟨x, List.mem_filterMap.2 ⟨t, ht, hx⟩, hpastx⟩
  | many s =>
    intro ts t u w hts ht hpast hw
    have hw' : ∀ r ∈ w, s.contains r.code = true := fun r hr => hw _ (List.mem_map_of_mem hr)
    have hclosed : Cursor.ClosedUnder o s .none := fun _ _ _ _ h => by
      simp [Places.contains_none] at h
    rcases Cursor.exists_mem_spreadAll hpos hts ht hpast hw' hclosed with hseen | ⟨x, hx, hlen⟩
    · simp [Places.contains_none] at hseen
    · have hbehind := behind_of_mem_run (p := .many s) hts x hx
      exact ⟨x, hx, hpast.of_samePlace (hbehind.samePlace hpos ((hts t ht).past hpast) hlen)⟩
  | seq p q ihp ihq =>
    intro ts t u w hts ht hpast hw
    obtain ⟨c, d, hcd, hp, hq⟩ := hw
    obtain ⟨w₁, w₂, rfl, rfl, rfl⟩ := List.map_eq_append_iff.1 hcd
    obtain ⟨m, hm, hmu⟩ := hpast.split
    rw [← hmu.ahead_eq] at hp
    obtain ⟨x, hx, hpastx⟩ := ihp hts ht hm hp
    have hplace := hpastx.samePlace hm
    rw [← hpastx.before] at hq
    obtain ⟨y, hy, hpasty⟩ := ihq (behind_of_mem_run hts) hx (hplace.past hmu) hq
    exact ⟨y, hy, hpastx.trans hpasty⟩
  | alt p q ihp ihq =>
    intro ts t u w hts ht hpast hw
    have hself : ∀ x ∈ [t], o.Behind x := by
      intro x hx
      obtain rfl := List.mem_singleton.1 hx
      exact hts x ht
    obtain ⟨x, hx, hpastx⟩ : ∃ x ∈ p.run [t] ++ q.run [t], t.Past w x := by
      rcases hw with hw | hw
      · obtain ⟨x, hx, hpastx⟩ := ihp hself List.mem_cons_self hpast hw
        exact ⟨x, List.mem_append_left _ hx, hpastx⟩
      · obtain ⟨x, hx, hpastx⟩ := ihq hself List.mem_cons_self hpast hw
        exact ⟨x, List.mem_append_right _ hx, hpastx⟩
    have hmem : x ∈ ts.flatMap fun t => p.run [t] ++ q.run [t] := List.mem_flatMap.2 ⟨t, ht, hx⟩
    rcases Cursor.exists_mem_keepFirst hmem .none with hseen | ⟨y, hy, hlen⟩
    · simp [Places.contains_none] at hseen
    · have hbehind := behind_of_mem_run (p := .alt p q) hts y hy
      exact ⟨y, hy, hpastx.of_samePlace (hbehind.samePlace hpos ((hts t ht).past hpastx) hlen)⟩
  | star p ih =>
    intro ts t u w hts ht hpast hw
    have hsound : ∀ t, ∀ u ∈ p.run [t], t.Leads p.Piece u := by
      intro t u hu
      obtain ⟨x, hx, hleads⟩ := p.sound hu
      obtain rfl := List.mem_singleton.1 hx
      exact hleads
    have hcomplete : ∀ t u w, o.Behind t → t.Past w u → p.Piece t.before (w.map Rune.code) u.ahead →
        ∃ x ∈ p.run [t], t.Past w x := by
      intro t u w htb hpast hw
      refine ih (fun x hx => ?_) List.mem_cons_self hpast hw
      obtain rfl := List.mem_singleton.1 hx
      exact htb
    have hempty : (⟨.none, []⟩ : Loop).Inv o p.Piece :=
      ⟨fun _ _ h => by simp [Places.contains_none] at h,
        fun _ _ _ _ h => by simp [Places.contains_none] at h⟩
    obtain ⟨hinv, -, hseen⟩ := Loop.inv_foldl_visit hpos hsound hcomplete ts hts _ hempty
    have hu := hinv.rounds hw (hts t ht) (hseen t ht) hpast rfl rfl rfl
    obtain ⟨x, hx, hlen⟩ := hinv.out u ((hts t ht).past hpast) hu
    have hmem : x ∈ (Pattern.star p).run ts := List.mem_reverse.2 hx
    have hbehind := behind_of_mem_run hts x hmem
    exact ⟨x, hmem, hpast.of_samePlace (hbehind.samePlace hpos ((hts t ht).past hpast) hlen)⟩
  | mark n =>
    intro ts t u w _ ht _ hw
    obtain rfl := List.map_eq_nil_iff.1 hw
    exact ⟨_, List.mem_map_of_mem ht, Cursor.past_nil rfl rfl rfl⟩
  | anchor a =>
    intro ts t u w _ ht hpast hw
    obtain ⟨hw, hholds⟩ := hw
    obtain rfl := List.map_eq_nil_iff.1 hw
    have hahead : t.ahead = u.ahead := by simpa using hpast.ahead_eq
    refine ⟨t, List.mem_filter.2 ⟨ht, ?_⟩, Cursor.past_nil rfl rfl rfl⟩
    rw [Cursor.holds_eq, hahead]
    exact hholds

/-- **Attempts.** An attempt succeeds exactly where a piece starts. -/
theorem attempt_isSome_iff {p : Pattern} {before : Option Nat} {rest : List Rune}
    (hpos : ∀ r ∈ rest, 0 < r.width) : (p.attempt before rest).isSome = true ↔
      ∃ w post, rest = w ++ post ∧ p.Piece before (w.map Rune.code) (codeAhead post) := by
  constructor
  · intro h
    obtain ⟨u, hu⟩ := Option.isSome_iff_exists.1 h
    obtain ⟨w, hrest, hw, -⟩ := attempt_eq_some hu
    exact ⟨w, u.rest, hrest, hw⟩
  · rintro ⟨w, post, hrest, hw⟩
    let t : Cursor := ⟨before, rest, 0, []⟩
    have hself : ∀ x ∈ [t], t.Behind x := by
      intro x hx
      obtain rfl := List.mem_singleton.1 hx
      exact ⟨[], Cursor.past_nil rfl rfl rfl⟩
    obtain ⟨x, hx, -⟩ := p.complete (o := t) hpos hself List.mem_cons_self
      (Cursor.past_skip (t := t) hrest) hw
    rw [attempt, List.isSome_head?]
    exact List.ne_nil_of_mem hx

end Pattern
end CodeAudit
