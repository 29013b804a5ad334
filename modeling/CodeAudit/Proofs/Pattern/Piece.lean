import CodeAudit.Proofs.Pattern.Search
import CodeAudit.Proofs.Text.Runes

/-!
# The pieces of a pattern

A pattern describes pieces of text. `Pattern.Piece` says which, one clause for each way to write a
pattern, with the code points on both sides of the piece, which the conditions on places look at.
`Pattern.run` finds the pieces by carrying cursors along, and drops a cursor where another one
stands already. Nothing is lost by this: the cursors that come out stand behind just the pieces that
start at those that went in. This module has the one half, `CodeAudit.Proofs.Pattern.Completeness`
the other.

**Results.**
* `sound`: behind every cursor that comes out there is a piece.
* `attempt_eq_some`: what an attempt finds is a piece.
-/
namespace CodeAudit

/-- Whether a condition holds between two code points; there is none at an end of the text. -/
def Anchor.holdsAt (before after : Option Nat) : Anchor → Bool
  | .textStart => before.isNone
  | .textEnd => after.isNone
  | .lineStart => before.all (· == 10)
  | .lineEnd => after.all (· == 10)
  | .wordEdge => before.any isWordCode != after.any isWordCode
  | .notWordEdge => !(before.any isWordCode != after.any isWordCode)

/-- Pieces of a kind one after another, none of them empty, between two code points. -/
inductive Rounds (P : Option Nat → List Nat → Option Nat → Prop) :
    Option Nat → List Nat → Option Nat → Prop where
  | done {before after : Option Nat} : Rounds P before [] after
  | round {before after : Option Nat} {u v : List Nat} (hne : u ≠ [])
      (hu : P before u (v.head?.or after)) (hv : Rounds P (u.getLast?.or before) v after) :
      Rounds P before (u ++ v) after

namespace Pattern

/-- The code points are a piece of the pattern when `before` and `after` stand next to them. -/
def Piece : Pattern → Option Nat → List Nat → Option Nat → Prop
  | .empty, _, w, _ => w = []
  | .one s, _, w, _ => ∃ c, w = [c] ∧ s.contains c = true
  | .many s, _, w, _ => ∀ c ∈ w, s.contains c = true
  | .seq p q, before, w, after =>
    ∃ u v, w = u ++ v ∧ p.Piece before u (v.head?.or after) ∧ q.Piece (u.getLast?.or before) v after
  | .alt p q, before, w, after => p.Piece before w after ∨ q.Piece before w after
  | .star p, before, w, after => Rounds p.Piece before w after
  | .mark _, _, w, _ => w = []
  | .anchor a, before, w, after => w = [] ∧ a.holdsAt before after = true

end Pattern

/-! ## Places -/

namespace Cursor

/-- The code point behind a cursor's place. -/
def ahead (t : Cursor) : Option Nat := t.rest.head?.map Rune.code

theorem holds_eq (t : Cursor) (a : Anchor) : t.holds a = a.holdsAt t.before t.ahead := by
  cases a <;> cases h : t.rest <;> simp [holds, Anchor.holdsAt, ahead, atWordEdge, h]

/-- The second cursor stands behind the runes `w` that follow the first one. -/
structure Past (t : Cursor) (w : List Rune) (u : Cursor) : Prop where
  rest : t.rest = w ++ u.rest
  before : u.before = (w.map Rune.code).getLast?.or t.before
  len : u.len = t.len + (Text.ofRunes w).length

/-- Runes of a kind lead from the first cursor to the second. -/
def Leads (P : Option Nat → List Nat → Option Nat → Prop) (t u : Cursor) : Prop :=
  ∃ w, t.Past w u ∧ P t.before (w.map Rune.code) u.ahead

theorem past_nil {t u : Cursor} (hrest : u.rest = t.rest) (hbefore : u.before = t.before)
    (hlen : u.len = t.len) : t.Past [] u :=
  ⟨by simp [hrest], by simp [hbefore], by simp [hlen]⟩

theorem Past.trans {t u x : Cursor} {w v : List Rune} (h : t.Past w u) (h' : u.Past v x) :
    t.Past (w ++ v) x := by
  refine ⟨?_, ?_, ?_⟩
  · rw [h.rest, h'.rest, List.append_assoc]
  · rw [h'.before, h.before, List.map_append, List.getLast?_append, Option.or_assoc]
  · rw [h'.len, h.len, Text.ofRunes_append, List.length_append, Nat.add_assoc]

theorem Past.ahead_eq {t u : Cursor} {w : List Rune} (h : t.Past w u) :
    t.ahead = (w.map Rune.code).head?.or u.ahead := by
  rw [ahead, ahead, h.rest]
  cases w <;> simp

/-- The cursor behind some runes. -/
def skip (t : Cursor) (w rest : List Rune) : Cursor :=
  ⟨(w.map Rune.code).getLast?.or t.before, rest, t.len + (Text.ofRunes w).length, t.marks⟩

theorem past_skip {t : Cursor} {w rest : List Rune} (h : t.rest = w ++ rest) :
    t.Past w (t.skip w rest) :=
  ⟨h, rfl, rfl⟩

theorem step_eq_some {s : CodeSet} {t u : Cursor} (h : step s t = some u) :
    ∃ r, t.Past [r] u ∧ s.contains r.code = true := by
  unfold step at h
  split at h
  · cases h
  · rename_i r rs hrest
    split at h
    · rename_i hs
      obtain rfl := Option.some.inj h
      exact ⟨r, ⟨hrest, rfl, by simp [Rune.width]⟩, hs⟩
    · cases h

theorem step_of_past {s : CodeSet} {t u : Cursor} {r : Rune} (h : t.Past [r] u)
    (hs : s.contains r.code = true) : ∃ x, step s t = some x ∧ t.Past [r] x := by
  refine ⟨_, ?_, past_skip h.rest⟩
  have hrest : t.rest = r :: u.rest := h.rest
  simp [step, hrest, hs, skip, Rune.width]

end Cursor

theorem Rounds.append {P : Option Nat → List Nat → Option Nat → Prop} {before after : Option Nat}
    {w v : List Nat} (hw : Rounds P before w (v.head?.or after)) (hne : v ≠ [])
    (hv : P (w.getLast?.or before) v after) : Rounds P before (w ++ v) after := by
  generalize ha : v.head?.or after = a at hw
  induction hw with
  | done => simpa using Rounds.round hne (v := []) (by simpa using hv) .done
  | round hu hp _ ih =>
    subst ha
    rw [List.append_assoc]
    refine .round hu ?_ (ih ?_ rfl)
    · rw [List.head?_append, Option.or_assoc]
      exact hp
    · rwa [List.getLast?_append, Option.or_assoc] at hv

/-! ## What comes out is a piece -/

namespace Cursor

theorem mem_of_mem_keepFirst {seen : Places} {ts : List Cursor} {u : Cursor}
    (h : u ∈ keepFirst seen ts) : u ∈ ts := by
  induction ts generalizing seen with
  | nil => exact h
  | cons t ts ih =>
    rw [keepFirst] at h
    split at h
    · exact List.mem_cons_of_mem t (ih h)
    · rcases List.mem_cons.1 h with rfl | h
      · exact List.mem_cons_self
      · exact List.mem_cons_of_mem t (ih h)

theorem mem_spread {s : CodeSet} {seen : Places} {marks : List (Nat × Nat)} {u : Cursor}
    {rs : List Rune} :
    ∀ {before : Option Nat} {len : Nat} {acc : List Cursor},
      u ∈ spread s seen marks rs before len acc →
        u ∈ acc ∨ (⟨before, rs, len, marks⟩ : Cursor).Leads (Pattern.many s).Piece u := by
  induction rs with
  | nil =>
    intro before len acc h
    rw [spread] at h
    split at h
    · exact Or.inl h
    · rcases List.mem_cons.1 h with rfl | h
      · exact Or.inr ⟨[], past_nil rfl rfl rfl, by simp [Pattern.Piece]⟩
      · exact Or.inl h
  | cons r rs ih =>
    intro before len acc h
    have hhere : ∀ {u}, u ∈ (⟨before, r :: rs, len, marks⟩ : Cursor) :: acc →
        u ∈ acc ∨ (⟨before, r :: rs, len, marks⟩ : Cursor).Leads (Pattern.many s).Piece u := by
      intro u hu
      rcases List.mem_cons.1 hu with rfl | hu
      · exact Or.inr ⟨[], past_nil rfl rfl rfl, by simp [Pattern.Piece]⟩
      · exact Or.inl hu
    rw [spread] at h
    split at h
    · exact Or.inl h
    · split at h
      · rename_i hs
        rcases ih h with h | ⟨w, hpast, hw⟩
        · exact hhere h
        · have hr : (⟨before, r :: rs, len, marks⟩ : Cursor).Past [r]
              ⟨some r.code, rs, len + r.width, marks⟩ := ⟨rfl, rfl, by simp [Rune.width]⟩
          refine Or.inr ⟨[r] ++ w, hr.trans hpast, ?_⟩
          intro c hc
          rw [List.map_append, List.mem_append] at hc
          rcases hc with hc | hc
          · rw [List.map_singleton, List.mem_singleton] at hc
            rw [hc]
            exact hs
          · exact hw c hc
      · exact hhere h

theorem spreadAll_cons (s : CodeSet) (seen : Places) (t : Cursor) (ts : List Cursor) :
    spreadAll s seen (t :: ts) = spread s seen t.marks t.rest t.before t.len [] ++
      spreadAll s ((spread s seen t.marks t.rest t.before t.len []).foldl
        (fun seen u => seen.insert u.len) seen) ts := by
  cases ts with
  | nil => simp [spreadAll]
  | cons x ts => rfl

theorem mem_spreadAll {s : CodeSet} {seen : Places} {ts : List Cursor} {u : Cursor}
    (h : u ∈ spreadAll s seen ts) : ∃ t ∈ ts, t.Leads (Pattern.many s).Piece u := by
  induction ts generalizing seen with
  | nil => cases h
  | cons t ts ih =>
    rw [spreadAll_cons, List.mem_append] at h
    rcases h with h | h
    · rcases mem_spread h with h | h
      · cases h
      · exact ⟨t, List.mem_cons_self, h⟩
    · obtain ⟨x, hx, hlead⟩ := ih h
      exact ⟨x, List.mem_cons_of_mem t hx, hlead⟩

end Cursor

/-- What a repetition lets out satisfies whatever holds where it starts and is kept by a round. -/
theorem Loop.forall_visit {body : List Cursor → List Cursor} {R : Cursor → Prop}
    (hR : ∀ t, R t → ∀ u ∈ body [t], t.len < u.len → R u) : ∀ (fuel : Nat) (t : Cursor) (l : Loop),
    R t → (∀ u ∈ l.out, R u) → ∀ u ∈ (visit body fuel t l).out, R u := by
  intro fuel
  induction fuel with
  | zero => intro t l _ hl; exact hl
  | succ fuel ih =>
    intro t l ht hl
    rw [visit]
    split
    · exact hl
    · have hfold : ∀ (us : List Cursor), (∀ u ∈ us, t.len < u.len → R u) → ∀ l : Loop,
          (∀ u ∈ l.out, R u) → ∀ u ∈ (us.foldl
            (fun l u => if t.len < u.len then visit body fuel u l else l) l).out, R u := by
        intro us
        induction us with
        | nil => intro _ l hl; exact hl
        | cons x us ihus =>
          intro hus l hl
          rw [List.foldl_cons]
          refine ihus (fun u hu => hus u (List.mem_cons_of_mem x hu)) _ ?_
          split
          · rename_i hlt
            exact ih x l (hus x List.mem_cons_self hlt) hl
          · exact hl
      intro u hu
      rcases List.mem_cons.1 hu with rfl | hu
      · exact ht
      · exact hfold (body [t]) (hR t ht) l hl u hu

namespace Pattern

/-- A cursor that comes out of a pattern stands behind a piece that starts at one that went in. -/
theorem sound (p : Pattern) : ∀ {ts : List Cursor} {u : Cursor}, u ∈ p.run ts →
    ∃ t ∈ ts, t.Leads p.Piece u := by
  induction p with
  | empty => intro ts u h; exact ⟨u, h, [], Cursor.past_nil rfl rfl rfl, rfl⟩
  | one s =>
    intro ts u h
    obtain ⟨t, ht, hstep⟩ := List.mem_filterMap.1 h
    obtain ⟨r, hpast, hs⟩ := Cursor.step_eq_some hstep
    exact ⟨t, ht, [r], hpast, r.code, rfl, hs⟩
  | many s => intro ts u h; exact Cursor.mem_spreadAll h
  | seq p q ihp ihq =>
    intro ts x h
    obtain ⟨u, hu, v, hpastv, hv⟩ := ihq h
    obtain ⟨t, ht, w, hpastw, hw⟩ := ihp hu
    refine ⟨t, ht, w ++ v, hpastw.trans hpastv, _, _, List.map_append, ?_, ?_⟩
    · rw [← hpastv.ahead_eq]
      exact hw
    · rw [← hpastw.before]
      exact hv
  | alt p q ihp ihq =>
    intro ts u h
    obtain ⟨t, ht, h⟩ := List.mem_flatMap.1 (Cursor.mem_of_mem_keepFirst h)
    refine ⟨t, ht, ?_⟩
    rcases List.mem_append.1 h with h | h
    · obtain ⟨x, hx, w, hpast, hw⟩ := ihp h
      obtain rfl := List.mem_singleton.1 hx
      exact ⟨w, hpast, Or.inl hw⟩
    · obtain ⟨x, hx, w, hpast, hw⟩ := ihq h
      obtain rfl := List.mem_singleton.1 hx
      exact ⟨w, hpast, Or.inr hw⟩
  | star p ih =>
    intro ts u h
    -- a round behind rounds is one round more
    have hR : ∀ t, (∃ o ∈ ts, o.Leads (Rounds p.Piece) t) → ∀ u ∈ p.run [t], t.len < u.len →
        ∃ o ∈ ts, o.Leads (Rounds p.Piece) u := by
      rintro t ⟨o, ho, w, hpastw, hw⟩ u hu hlt
      obtain ⟨x, hx, v, hpastv, hv⟩ := ih hu
      obtain rfl := List.mem_singleton.1 hx
      refine ⟨o, ho, w ++ v, hpastw.trans hpastv, ?_⟩
      rw [List.map_append]
      refine Rounds.append ?_ ?_ ?_
      · rw [← hpastv.ahead_eq]
        exact hw
      · rintro hnil
        have hlen := hpastv.len
        rw [List.map_eq_nil_iff.1 hnil, Text.ofRunes_nil, List.length_nil] at hlen
        omega
      · rw [← hpastw.before]
        exact hv
    have hfold : ∀ (us : List Cursor), (∀ t ∈ us, t ∈ ts) → ∀ l : Loop,
        (∀ u ∈ l.out, ∃ o ∈ ts, o.Leads (Rounds p.Piece) u) →
        ∀ u ∈ (us.foldl (fun l t => Loop.visit p.run (t.rest.length + 1) t l) l).out,
          ∃ o ∈ ts, o.Leads (Rounds p.Piece) u := by
      intro us
      induction us with
      | nil => intro _ l hl; exact hl
      | cons t us ihus =>
        intro hus l hl
        rw [List.foldl_cons]
        refine ihus (fun x hx => hus x (List.mem_cons_of_mem t hx)) _ ?_
        exact Loop.forall_visit hR _ t l
          ⟨t, hus t List.mem_cons_self, [], Cursor.past_nil rfl rfl rfl, .done⟩ hl
    exact hfold ts (fun t ht => ht) _ (by simp) u (List.mem_reverse.1 h)
  | mark n =>
    intro ts u h
    obtain ⟨t, ht, rfl⟩ := List.mem_map.1 h
    exact ⟨t, ht, [], Cursor.past_nil rfl rfl rfl, rfl⟩
  | anchor a =>
    intro ts u h
    obtain ⟨hu, hholds⟩ := List.mem_filter.1 h
    rw [Cursor.holds_eq] at hholds
    exact ⟨u, hu, [], Cursor.past_nil rfl rfl rfl, rfl, hholds⟩

/-! ## One attempt -/

/-- The code point in front of a list of runes. -/
def codeAhead (rs : List Rune) : Option Nat := rs.head?.map Rune.code

theorem codeBehind_eq (before : Option Nat) (rs : List Rune) :
    codeBehind before rs = (rs.map Rune.code).getLast?.or before := by
  induction rs generalizing before with
  | nil => rfl
  | cons r rs ih =>
    rw [codeBehind, List.foldl_cons, ← codeBehind, ih, List.map_cons, List.getLast?_cons]
    cases (rs.map Rune.code).getLast? <;> rfl

/-- What an attempt finds is a piece. -/
theorem attempt_eq_some {p : Pattern} {before : Option Nat} {rest : List Rune} {u : Cursor}
    (h : p.attempt before rest = some u) : ∃ w, rest = w ++ u.rest ∧
      p.Piece before (w.map Rune.code) (codeAhead u.rest) ∧ u.len = (Text.ofRunes w).length ∧
      u.before = codeBehind before w := by
  obtain ⟨t, ht, w, hpast, hw⟩ := p.sound (List.mem_of_head? h)
  obtain rfl := List.mem_singleton.1 ht
  refine ⟨w, hpast.rest, hw, ?_, ?_⟩
  · rw [hpast.len, Nat.zero_add]
  · rw [codeBehind_eq, hpast.before]

end Pattern
end CodeAudit
