import CodeAudit.Proofs.Pattern.Piece
import CodeAudit.Pattern.Reader

/-!
# What can be told from the way a pattern is written

Each function here looks at a pattern alone, and what it says then holds of every piece, between any
two code points.

**Results.**
* `Piece.congr`: a piece stays one between other code points that its conditions do not tell apart.
* `ne_nil_of_solid`, `hasCode_of_codesIn`, `exists_mem_of_hasIn`, `hasCode_of_firstIn`,
  `hasCode_of_lastIn`: pieces are not empty, have only code points of some ranges, have one of them,
  start or end with one.
* `side_ne_of_edgeFirst`, `side_ne_of_edgeLast`, `Piece.of_backAnchored`: word edges at the start
  and at the end.
-/
namespace CodeAudit

/-! ## The sides of a piece -/

/-- Whether a code point, if there is one, belongs to a word. -/
def wordSide (c : Option Nat) : Bool := c.any isWordCode

theorem head?_or {w : List Nat} (hne : w ≠ []) (o : Option Nat) : w.head?.or o = w.head? := by
  rw [List.head?_eq_some_head hne, Option.some_or]

theorem getLast?_or {w : List Nat} (hne : w ≠ []) (o : Option Nat) :
    w.getLast?.or o = w.getLast? := by
  rw [List.getLast?_eq_some_getLast hne, Option.some_or]

theorem wordSide_head? {w : List Nat} (hne : w ≠ []) (hw : ∀ c ∈ w, isWordCode c = true) :
    wordSide w.head? = true := by
  obtain ⟨c, w, rfl⟩ := List.exists_cons_of_ne_nil hne
  exact hw c List.mem_cons_self

theorem wordSide_getLast? {w : List Nat} (hne : w ≠ []) (hw : ∀ c ∈ w, isWordCode c = true) :
    wordSide w.getLast? = true := by
  rw [List.getLast?_eq_some_getLast hne]
  exact hw _ (List.getLast_mem hne)

/-- The conditions cannot tell code points apart that `view` shows alike. -/
def Anchor.Through {α : Type} (view : Option Nat → α) (a : Anchor) : Prop :=
  ∀ {before before' after after' : Option Nat}, view before = view before' →
    view after = view after' → a.holdsAt before after = true → a.holdsAt before' after' = true

/-- Word edges tell words from the rest and nothing else. -/
theorem Anchor.through_wordSide : Anchor.wordEdge.Through wordSide := by
  intro before before' after after' hbefore hafter h
  have hside : ∀ b a, Anchor.wordEdge.holdsAt b a = (wordSide b != wordSide a) := fun _ _ => rfl
  rw [hside] at h ⊢
  rw [← hbefore, ← hafter]
  exact h

section

variable {α : Type} {view : Option Nat → α} {before before' after after' : Option Nat}

theorem view_or (o : Option Nat) (h : view before = view before') :
    view (o.or before) = view (o.or before') := by
  cases o with
  | none => exact h
  | some c => rfl

theorem Rounds.congr {P : Option Nat → List Nat → Option Nat → Prop}
    (hP : ∀ {before before' after after' : Option Nat} {w : List Nat}, P before w after →
      view before = view before' → view after = view after' → P before' w after')
    {w : List Nat} (h : Rounds P before w after) (hbefore : view before = view before')
    (hafter : view after = view after') : Rounds P before' w after' := by
  induction h generalizing before' with
  | done => exact .done
  | round hne hu _ ih =>
    exact .round hne (hP hu hbefore (view_or _ hafter)) (ih (view_or _ hbefore) hafter)

namespace Pattern

/-- The conditions on places in a pattern. -/
def anchors : Pattern → List Anchor
  | .seq p q | .alt p q => p.anchors ++ q.anchors
  | .star p => p.anchors
  | .anchor a => [a]
  | _ => []

variable (view) in
theorem Piece.congr {p : Pattern} {w : List Nat} (hp : ∀ a ∈ p.anchors, a.Through view)
    (h : p.Piece before w after) (hbefore : view before = view before')
    (hafter : view after = view after') :
    p.Piece before' w after' := by
  induction p generalizing before before' w after after' with
  | empty | one | many | mark => exact h
  | seq p q ihp ihq =>
    obtain ⟨u, v, rfl, hu, hv⟩ := h
    refine ⟨u, v, rfl, ihp ?_ hu hbefore (view_or _ hafter), ihq ?_ hv (view_or _ hbefore) hafter⟩
    · exact fun a ha => hp a (List.mem_append_left _ ha)
    · exact fun a ha => hp a (List.mem_append_right _ ha)
  | alt p q ihp ihq =>
    rcases h with h | h
    · exact Or.inl (ihp (fun a ha => hp a (List.mem_append_left _ ha)) h hbefore hafter)
    · exact Or.inr (ihq (fun a ha => hp a (List.mem_append_right _ ha)) h hbefore hafter)
  | star p ih => exact Rounds.congr (P := p.Piece) (ih hp) h hbefore hafter
  | anchor a => exact ⟨h.1, hp a List.mem_cons_self hbefore hafter h.2⟩

end Pattern
end

namespace Pattern

variable {p : Pattern} {before before' after after' : Option Nat} {w : List Nat}

/-- Whether word edges are the only conditions. -/
def edged (p : Pattern) : Bool := p.anchors.all (· == .wordEdge)

/-- Where word edges are the only conditions, it does not matter which word or other code points
stand at the sides. -/
theorem Piece.of_edged (hp : p.edged = true) (h : p.Piece before w after)
    (hbefore : wordSide before = wordSide before') (hafter : wordSide after = wordSide after') :
    p.Piece before' w after' := by
  refine h.congr wordSide (fun a ha => ?_) hbefore hafter
  rw [eq_of_beq (List.all_eq_true.1 hp a ha)]
  exact Anchor.through_wordSide

/-- A pattern without conditions has the same pieces everywhere. -/
theorem Piece.anywhere (hp : p.anchors = []) (h : p.Piece before w after) :
    p.Piece before' w after' :=
  h.congr (fun _ => ()) (by simp [hp]) rfl rfl

/-! ## Pieces that are not empty -/

/-- Whether no piece is empty. -/
def solid : Pattern → Bool
  | .one _ => true
  | .seq p q => p.solid || q.solid
  | .alt p q => p.solid && q.solid
  | _ => false

theorem ne_nil_of_solid (hp : p.solid = true) (h : p.Piece before w after) : w ≠ [] := by
  induction p generalizing before w after with
  | one s =>
    obtain ⟨c, rfl, -⟩ := h
    exact List.cons_ne_nil c []
  | seq p q ihp ihq =>
    obtain ⟨u, v, rfl, hu, hv⟩ := h
    rw [solid, Bool.or_eq_true] at hp
    rcases hp with hp | hp
    · exact List.append_ne_nil_of_left_ne_nil (ihp hp hu) v
    · exact List.append_ne_nil_of_right_ne_nil u (ihq hp hv)
  | alt p q ihp ihq =>
    rw [solid, Bool.and_eq_true] at hp
    rcases h with h | h
    · exact ihp hp.1 h
    · exact ihq hp.2 h
  | empty | many | star | mark | anchor => cases hp

end Pattern

/-! ## The code points of a piece -/

/-- Whether the set is a part of the ranges, as far as can be told range by range. -/
def CodeSet.within (ranges : List (Nat × Nat)) (s : CodeSet) : Bool :=
  !s.negated && s.ranges.all fun r => ranges.any fun q => q.1 ≤ r.1 && r.2 ≤ q.2

theorem CodeSet.hasCode_of_within {ranges : List (Nat × Nat)} {s : CodeSet}
    (hs : s.within ranges = true)
    {c : Nat} (h : s.contains c = true) : hasCode ranges c = true := by
  simp only [within, Bool.and_eq_true, Bool.not_eq_true', List.all_eq_true, List.any_eq_true,
    decide_eq_true_eq] at hs
  simp only [contains, hs.1, bne_iff_ne, ne_eq, Bool.not_eq_false, List.any_eq_true,
    Bool.and_eq_true, decide_eq_true_eq] at h
  obtain ⟨r, hr, hc⟩ := h
  obtain ⟨q, hq, hle⟩ := hs.2 r hr
  rw [hasCode, List.any_eq_true]
  refine ⟨q, hq, ?_⟩
  simp only [Bool.and_eq_true, decide_eq_true_eq]
  omega

/-- Whether no code point is in ranges of both lists. -/
def CodeSet.rangesApart (rs qs : List (Nat × Nat)) : Bool :=
  rs.all fun r => qs.all fun q => r.2 < q.1 || q.2 < r.1

theorem CodeSet.hasCode_of_rangesApart {rs qs : List (Nat × Nat)}
    (h : rangesApart rs qs = true) {c : Nat} (hc : hasCode rs c = true) : hasCode qs c = false := by
  simp only [rangesApart, List.all_eq_true, Bool.or_eq_true, decide_eq_true_eq] at h
  rw [← Bool.not_eq_true]
  intro hq
  simp only [hasCode, List.any_eq_true, Bool.and_eq_true, decide_eq_true_eq] at hc hq
  obtain ⟨r, hr, hrc⟩ := hc
  obtain ⟨q, hq, hqc⟩ := hq
  have := h r hr q hq
  omega

theorem CodeSet.lt_of_hasCode {rs : List (Nat × Nat)} {k : Nat} (h : ∀ r ∈ rs, r.2 < k) {c : Nat}
    (hc : hasCode rs c = true) : c < k := by
  simp only [hasCode, List.any_eq_true, Bool.and_eq_true, decide_eq_true_eq] at hc
  obtain ⟨r, hr, hrc⟩ := hc
  have := h r hr
  omega

theorem CodeSet.eq_of_hasCode {c d : Nat} (h : hasCode [(c, c)] d = true) : d = c := by
  simp only [hasCode, List.any_cons, List.any_nil, Bool.or_false, Bool.and_eq_true,
    decide_eq_true_eq] at h
  omega

namespace Pattern

variable {p : Pattern} {before before' after : Option Nat} {w : List Nat}

/-- Whether all code points of pieces are in the ranges. -/
def codesIn (ranges : List (Nat × Nat)) : Pattern → Bool
  | .one s | .many s => s.within ranges
  | .seq p q | .alt p q => p.codesIn ranges && q.codesIn ranges
  | .star p => p.codesIn ranges
  | _ => true

theorem hasCode_of_codesIn {ranges : List (Nat × Nat)} (hp : p.codesIn ranges = true)
    (h : p.Piece before w after) : ∀ c ∈ w, CodeSet.hasCode ranges c = true := by
  induction p generalizing before w after with
  | empty => simp [show w = [] from h]
  | mark => simp [show w = [] from h]
  | anchor => simp [h.1]
  | one s =>
    obtain ⟨c, rfl, hc⟩ := h
    intro d hd
    rw [List.mem_singleton.1 hd]
    exact CodeSet.hasCode_of_within hp hc
  | many s => exact fun c hc => CodeSet.hasCode_of_within hp (h c hc)
  | seq p q ihp ihq =>
    obtain ⟨u, v, rfl, hu, hv⟩ := h
    rw [codesIn, Bool.and_eq_true] at hp
    intro c hc
    rcases List.mem_append.1 hc with hc | hc
    · exact ihp hp.1 hu c hc
    · exact ihq hp.2 hv c hc
  | alt p q ihp ihq =>
    rw [codesIn, Bool.and_eq_true] at hp
    rcases h with h | h
    · exact ihp hp.1 h
    · exact ihq hp.2 h
  | star p ih =>
    change Rounds p.Piece before w after at h
    induction h with
    | done => simp
    | round _ hu _ ihv =>
      intro c hc
      rcases List.mem_append.1 hc with hc | hc
      · exact ih hp hu c hc
      · exact ihv c hc

/-- All code points but one. -/
def allBut (c : Nat) : List (Nat × Nat) := [(0, c - 1), (c + 1, 0x10FFFF)]

theorem ne_of_hasCode_allBut {c d : Nat} (hc : 0 < c) (h : CodeSet.hasCode (allBut c) d = true) :
    d ≠ c := by
  simp only [CodeSet.hasCode, allBut, List.any_cons, List.any_nil, Bool.or_false, Bool.or_eq_true,
    Bool.and_eq_true, decide_eq_true_eq] at h
  omega

theorem isWordCode_eq (c : Nat) : isWordCode c = CodeSet.hasCode wordRanges c := by
  rw [Bool.eq_iff_iff]
  simp only [isWordCode, CodeSet.hasCode, wordRanges, List.any_cons, List.any_nil, Bool.or_false,
    Bool.or_eq_true, Bool.and_eq_true, decide_eq_true_eq, beq_iff_eq]
  omega

theorem isWordCode_of_codesIn (hp : p.codesIn wordRanges = true) (h : p.Piece before w after) :
    ∀ c ∈ w, isWordCode c = true := by
  intro c hc
  rw [isWordCode_eq]
  exact hasCode_of_codesIn hp h c hc

/-- Whether every piece has a code point of the ranges. -/
def hasIn (ranges : List (Nat × Nat)) : Pattern → Bool
  | .one s => s.within ranges
  | .seq p q => p.hasIn ranges || q.hasIn ranges
  | .alt p q => p.hasIn ranges && q.hasIn ranges
  | _ => false

theorem exists_mem_of_hasIn {ranges : List (Nat × Nat)} (hp : p.hasIn ranges = true)
    (h : p.Piece before w after) :
    ∃ c ∈ w, CodeSet.hasCode ranges c = true := by
  induction p generalizing before w after with
  | one s =>
    obtain ⟨c, rfl, hc⟩ := h
    exact ⟨c, List.mem_singleton_self c, CodeSet.hasCode_of_within hp hc⟩
  | seq p q ihp ihq =>
    obtain ⟨u, v, rfl, hu, hv⟩ := h
    rw [hasIn, Bool.or_eq_true] at hp
    rcases hp with hp | hp
    · obtain ⟨c, hc, hin⟩ := ihp hp hu
      exact ⟨c, List.mem_append_left v hc, hin⟩
    · obtain ⟨c, hc, hin⟩ := ihq hp hv
      exact ⟨c, List.mem_append_right u hc, hin⟩
  | alt p q ihp ihq =>
    rw [hasIn, Bool.and_eq_true] at hp
    rcases h with h | h
    · exact ihp hp.1 h
    · exact ihq hp.2 h
  | empty | many | star | mark | anchor => cases hp

/-- Whether all pieces start with code points of the ranges. -/
def firstIn (ranges : List (Nat × Nat)) : Pattern → Bool
  | .one s | .many s => s.within ranges
  | .seq p q => p.firstIn ranges && (p.solid || q.firstIn ranges)
  | .alt p q => p.firstIn ranges && q.firstIn ranges
  | .star p => p.firstIn ranges
  | _ => true

/-- Whether all pieces end with code points of the ranges. -/
def lastIn (ranges : List (Nat × Nat)) : Pattern → Bool
  | .one s | .many s => s.within ranges
  | .seq p q => q.lastIn ranges && (q.solid || p.lastIn ranges)
  | .alt p q => p.lastIn ranges && q.lastIn ranges
  | .star p => p.lastIn ranges
  | _ => true

theorem hasCode_of_firstIn {ranges : List (Nat × Nat)} (hp : p.firstIn ranges = true)
    (h : p.Piece before w after) {c : Nat} (hc : w.head? = some c) :
      CodeSet.hasCode ranges c = true := by
  induction p generalizing before w after with
  | empty => simp [show w = [] from h] at hc
  | mark => simp [show w = [] from h] at hc
  | anchor => simp [h.1] at hc
  | one s =>
    obtain ⟨d, rfl, hd⟩ := h
    obtain rfl := Option.some.inj hc
    exact CodeSet.hasCode_of_within hp hd
  | many s => exact CodeSet.hasCode_of_within hp (h c (List.mem_of_head? hc))
  | seq p q ihp ihq =>
    obtain ⟨u, v, rfl, hu, hv⟩ := h
    rw [firstIn, Bool.and_eq_true, Bool.or_eq_true] at hp
    cases u with
    | cons d u => exact ihp hp.1 hu hc
    | nil =>
      rcases hp.2 with hsolid | hq
      · exact absurd rfl (ne_nil_of_solid hsolid hu)
      · exact ihq hq hv hc
  | alt p q ihp ihq =>
    rw [firstIn, Bool.and_eq_true] at hp
    rcases h with h | h
    · exact ihp hp.1 h hc
    · exact ihq hp.2 h hc
  | star p ih =>
    change Rounds p.Piece before w after at h
    cases h with
    | done => cases hc
    | @round _ _ u v hne hu _ =>
      obtain ⟨d, u, rfl⟩ := List.exists_cons_of_ne_nil hne
      exact ih hp hu hc

theorem hasCode_of_lastIn {ranges : List (Nat × Nat)} (hp : p.lastIn ranges = true)
    (h : p.Piece before w after) {c : Nat} (hc : w.getLast? = some c) :
      CodeSet.hasCode ranges c = true := by
  induction p generalizing before w after with
  | empty => simp [show w = [] from h] at hc
  | mark => simp [show w = [] from h] at hc
  | anchor => simp [h.1] at hc
  | one s =>
    obtain ⟨d, rfl, hd⟩ := h
    obtain rfl := Option.some.inj hc
    exact CodeSet.hasCode_of_within hp hd
  | many s => exact CodeSet.hasCode_of_within hp (h c (List.mem_of_getLast? hc))
  | seq p q ihp ihq =>
    obtain ⟨u, v, rfl, hu, hv⟩ := h
    rw [lastIn, Bool.and_eq_true, Bool.or_eq_true] at hp
    rw [List.getLast?_append] at hc
    cases hlast : v.getLast? with
    | some d =>
      rw [hlast] at hc
      exact ihq hp.1 hv (hlast.trans hc)
    | none =>
      rw [hlast] at hc
      rcases hp.2 with hsolid | hp
      · exact absurd (List.getLast?_eq_none_iff.1 hlast) (ne_nil_of_solid hsolid hv)
      · exact ihp hp hu hc
  | alt p q ihp ihq =>
    rw [lastIn, Bool.and_eq_true] at hp
    rcases h with h | h
    · exact ihp hp.1 h hc
    · exact ihq hp.2 h hc
  | star p ih =>
    change Rounds p.Piece before w after at h
    induction h with
    | done => cases hc
    | @round _ _ u v _ hu _ ihv =>
      rw [List.getLast?_append] at hc
      cases hlast : v.getLast? with
      | some d =>
        rw [hlast] at hc
        exact ihv (hlast.trans hc)
      | none =>
        rw [hlast] at hc
        exact ih hp hu hc

theorem head?_of_firstIn {c : Nat} (hsolid : p.solid = true) (hp : p.firstIn [(c, c)] = true)
    (h : p.Piece before w after) : w.head? = some c := by
  obtain ⟨d, w, rfl⟩ := List.exists_cons_of_ne_nil (ne_nil_of_solid hsolid h)
  rw [List.head?_cons, CodeSet.eq_of_hasCode (hasCode_of_firstIn hp h rfl)]

theorem getLast?_of_lastIn {c : Nat} (hsolid : p.solid = true) (hp : p.lastIn [(c, c)] = true)
    (h : p.Piece before w after) : w.getLast? = some c := by
  have hlast := List.getLast?_eq_some_getLast (ne_nil_of_solid hsolid h)
  rw [hlast, CodeSet.eq_of_hasCode (hasCode_of_lastIn hp h hlast)]

/-! ## Edges at the start and at the end -/

/-- Whether the pattern starts with a word edge. -/
def edgeFirst : Pattern → Bool
  | .anchor a => a == .wordEdge
  | .seq p _ => p.edgeFirst
  | .alt p q => p.edgeFirst && q.edgeFirst
  | _ => false

/-- A pattern that starts with a word edge has pieces only where one of the code points on the two
sides of their start belongs to a word. -/
theorem side_ne_of_edgeFirst (hp : p.edgeFirst = true) (h : p.Piece before w after) :
    wordSide before ≠ wordSide (w.head?.or after) := by
  induction p generalizing before w after with
  | anchor a =>
    obtain ⟨rfl, hedge⟩ := h
    rw [edgeFirst, beq_iff_eq] at hp
    subst hp
    simpa [Anchor.holdsAt, wordSide] using hedge
  | seq p q ihp _ =>
    obtain ⟨u, v, rfl, hu, -⟩ := h
    have := ihp hp hu
    rwa [← Option.or_assoc, ← List.head?_append] at this
  | alt p q ihp ihq =>
    rw [edgeFirst, Bool.and_eq_true] at hp
    rcases h with h | h
    · exact ihp hp.1 h
    · exact ihq hp.2 h
  | empty | one | many | star | mark => cases hp

/-- Whether the pattern ends with a word edge. -/
def edgeLast : Pattern → Bool
  | .anchor a => a == .wordEdge
  | .seq _ q => q.edgeLast
  | .alt p q => p.edgeLast && q.edgeLast
  | _ => false

theorem side_ne_of_edgeLast (hp : p.edgeLast = true) (h : p.Piece before w after) :
    wordSide (w.getLast?.or before) ≠ wordSide after := by
  induction p generalizing before w after with
  | anchor a =>
    obtain ⟨rfl, hedge⟩ := h
    rw [edgeLast, beq_iff_eq] at hp
    subst hp
    simpa [Anchor.holdsAt, wordSide] using hedge
  | seq p q _ ihq =>
    obtain ⟨u, v, rfl, -, hv⟩ := h
    have := ihq hp hv
    rwa [← Option.or_assoc, ← List.getLast?_append] at this
  | alt p q ihp ihq =>
    rw [edgeLast, Bool.and_eq_true] at hp
    rcases h with h | h
    · exact ihp hp.1 h
    · exact ihq hp.2 h
  | empty | one | many | star | mark => cases hp

/-- Whether conditions stand behind a code point of the piece only. -/
def backAnchored : Pattern → Bool
  | .seq p q => p.anchors.isEmpty && (p.solid || q.backAnchored)
  | p => p.anchors.isEmpty

/-- Conditions that stand behind a code point of the piece do not see what is before it. -/
theorem Piece.of_backAnchored (hp : p.backAnchored = true) (h : p.Piece before w after) :
    p.Piece before' w after := by
  induction p generalizing before before' w after with
  | seq p q _ ihq =>
    obtain ⟨u, v, rfl, hu, hv⟩ := h
    rw [backAnchored, Bool.and_eq_true, List.isEmpty_iff, Bool.or_eq_true] at hp
    refine ⟨u, v, rfl, hu.anywhere hp.1, ?_⟩
    rcases hp.2 with hsolid | hq
    · have hne := ne_nil_of_solid hsolid hu
      rwa [getLast?_or hne] at hv ⊢
    · exact ihq hq hv
  | empty | one | many | star | alt | mark | anchor => exact h.anywhere (List.isEmpty_iff.1 hp)

end Pattern
end CodeAudit
