import CodeAudit.Proofs.Pattern.Shape

/-!
# Patterns without loops, and patterns taken apart

A pattern without loops has finitely many words: sequences of sets, one for each code point of a
piece. Whether a piece can be the beginning of another one is told from the words alone. A longer
pattern is a row of parts; a piece of it is made of pieces of the parts, and the row may be cut
anywhere.

**Results.**
* `exists_fits`, `piece_of_fits`: pieces and words.
* `eq_of_prefixFree`: no piece is a proper beginning of another one.
* `exists_split`: a piece, cut between two parts of its pattern.
* `exists_branch`, `piece_of_branch`: the pieces of a choice.
-/
namespace CodeAudit

/-- Whether no code point is in both sets, as far as can be told range by range. -/
def CodeSet.disjoint (s t : CodeSet) :
    Bool := !s.negated && !t.negated && rangesApart s.ranges t.ranges

theorem CodeSet.not_contains_of_disjoint {s t : CodeSet} (h : s.disjoint t = true) {c : Nat}
    (hs : s.contains c = true) : t.contains c = false := by
  simp only [disjoint, Bool.and_eq_true, Bool.not_eq_true'] at h
  obtain ⟨⟨hsn, htn⟩, hapart⟩ := h
  rw [contains, hsn, Bool.bne_false] at hs
  rw [contains, htn, Bool.bne_false]
  exact hasCode_of_rangesApart hapart hs

namespace Pattern

variable {p : Pattern} {before after before' after' : Option Nat} {w w' : List Nat}
  {x y : List CodeSet}

/-! ## Words -/

/-- The code points are in the sets, one by one. -/
def Fits : List CodeSet → List Nat → Prop
  | [], [] => True
  | s :: x, c :: w => s.contains c = true ∧ Fits x w
  | _, _ => False

theorem Fits.length_eq (h : Fits x w) : x.length = w.length := by
  induction x generalizing w with
  | nil =>
    cases w with
    | nil => rfl
    | cons => cases h
  | cons s x ih =>
    cases w with
    | nil => cases h
    | cons c w => rw [List.length_cons, List.length_cons, ih h.2]

theorem Fits.append (hx : Fits x w) (hy : Fits y w') : Fits (x ++ y) (w ++ w') := by
  induction x generalizing w with
  | nil =>
    cases w with
    | nil => exact hy
    | cons => cases hx
  | cons s x ih =>
    cases w with
    | nil => cases hx
    | cons c w => exact ⟨hx.1, ih hx.2⟩

theorem Fits.exists_append (h : Fits (x ++ y) w) : ∃ u v, w = u ++ v ∧ Fits x u ∧ Fits y v := by
  induction x generalizing w with
  | nil => exact ⟨[], w, rfl, trivial, h⟩
  | cons s x ih =>
    cases w with
    | nil => cases h
    | cons c w =>
      obtain ⟨u, v, rfl, hu, hv⟩ := ih h.2
      exact ⟨c :: u, v, rfl, ⟨h.1, hu⟩, hv⟩

theorem Fits.cut {u n : List Nat} (hx : Fits x (u ++ n)) :
    Fits (x.take u.length) u ∧ Fits (x.drop u.length) n := by
  have hlen := hx.length_eq
  rw [← List.take_append_drop u.length x] at hx
  obtain ⟨u', n', heq, hu, hn⟩ := hx.exists_append
  have hu_len := hu.length_eq
  rw [List.length_append] at hlen
  rw [List.length_take, hlen] at hu_len
  obtain ⟨rfl, rfl⟩ := List.append_inj heq (by omega)
  exact ⟨hu, hn⟩

theorem Fits.head? (h : Fits x w) {s : CodeSet} (hs : x.head? = some s) :
    ∃ c, w.head? = some c ∧ s.contains c = true := by
  obtain ⟨x, rfl⟩ := List.head?_eq_some_iff.1 hs
  cases w with
  | nil => cases h
  | cons c w => exact ⟨c, rfl, h.1⟩

theorem Fits.getLast? (h : Fits x w) {s : CodeSet} (hs : x.getLast? = some s) :
    ∃ c, w.getLast? = some c ∧ s.contains c = true := by
  obtain ⟨x, rfl⟩ := List.getLast?_eq_some_iff.1 hs
  obtain ⟨u, v, rfl, -, hv⟩ := h.exists_append
  match v, hv with
  | [c], hv => exact ⟨c, by simp, hv.1⟩

theorem Fits.hasCode {ranges : List (Nat × Nat)} (h : Fits x w)
    (hx : ∀ s ∈ x, s.within ranges = true) :
    ∀ c ∈ w, CodeSet.hasCode ranges c = true := by
  induction x generalizing w with
  | nil =>
    cases w with
    | nil => simp
    | cons => cases h
  | cons s x ih =>
    cases w with
    | nil => simp
    | cons c w =>
      obtain ⟨hs, hx⟩ := List.forall_mem_cons.1 hx
      exact List.forall_mem_cons.2 ⟨CodeSet.hasCode_of_within hs h.1, ih h.2 hx⟩

/-- Whether the pattern has no loops. -/
def loopless : Pattern → Bool
  | .seq p q | .alt p q => p.loopless && q.loopless
  | .many _ | .star _ => false
  | _ => true

/-- The words of a pattern without loops. -/
def words : Pattern → List (List CodeSet)
  | .one s => [[s]]
  | .seq p q => p.words.flatMap fun x => q.words.map (x ++ ·)
  | .alt p q => p.words ++ q.words
  | .many _ | .star _ => []
  | _ => [[]]

theorem exists_fits (hp : p.loopless = true) (h : p.Piece before w after) :
    ∃ x ∈ p.words, Fits x w := by
  induction p generalizing before w after with
  | empty => exact ⟨[], by simp [words], by simp [show w = [] from h, Fits]⟩
  | mark => exact ⟨[], by simp [words], by simp [show w = [] from h, Fits]⟩
  | anchor => exact ⟨[], by simp [words], by simp [h.1, Fits]⟩
  | one s =>
    obtain ⟨c, rfl, hc⟩ := h
    exact ⟨[s], by simp [words], hc, trivial⟩
  | many | star => cases hp
  | seq p q ihp ihq =>
    obtain ⟨u, v, rfl, hu, hv⟩ := h
    rw [loopless, Bool.and_eq_true] at hp
    obtain ⟨x, hx, hxu⟩ := ihp hp.1 hu
    obtain ⟨y, hy, hyv⟩ := ihq hp.2 hv
    exact ⟨x ++ y, List.mem_flatMap.2 ⟨x, hx, List.mem_map_of_mem hy⟩, hxu.append hyv⟩
  | alt p q ihp ihq =>
    rw [loopless, Bool.and_eq_true] at hp
    rcases h with h | h
    · obtain ⟨x, hx, hxw⟩ := ihp hp.1 h
      exact ⟨x, List.mem_append_left _ hx, hxw⟩
    · obtain ⟨x, hx, hxw⟩ := ihq hp.2 h
      exact ⟨x, List.mem_append_right _ hx, hxw⟩

/-- Without conditions, all that fits a word is a piece. -/
theorem piece_of_fits (hfree : p.anchors = []) (hx : x ∈ p.words) (h : Fits x w) :
    p.Piece before w after := by
  induction p generalizing before w after x with
  | empty | mark =>
    obtain rfl := List.mem_singleton.1 hx
    exact List.eq_nil_of_length_eq_zero h.length_eq.symm
  | anchor => cases hfree
  | one s =>
    obtain rfl := List.mem_singleton.1 hx
    cases w with
    | nil => cases h
    | cons c w =>
      obtain rfl := List.eq_nil_of_length_eq_zero h.2.length_eq.symm
      exact ⟨c, rfl, h.1⟩
  | many | star => cases hx
  | seq p q ihp ihq =>
    rw [anchors, List.append_eq_nil_iff] at hfree
    obtain ⟨y, hy, hx⟩ := List.mem_flatMap.1 hx
    obtain ⟨z, hz, rfl⟩ := List.mem_map.1 hx
    obtain ⟨u, v, rfl, hu, hv⟩ := h.exists_append
    exact ⟨u, v, rfl, ihp hfree.1 hy hu, ihq hfree.2 hz hv⟩
  | alt p q ihp ihq =>
    rw [anchors, List.append_eq_nil_iff] at hfree
    rcases List.mem_append.1 hx with hx | hx
    · exact Or.inl (ihp hfree.1 hx h)
    · exact Or.inr (ihq hfree.2 hx h)

/-- Whether two words differ where both have a set. -/
def apart : List CodeSet → List CodeSet → Bool
  | s :: x, t :: y => s.disjoint t || apart x y
  | _, _ => false

theorem not_prefix_of_apart (h : apart x y = true) (hx : Fits x w) (hy : Fits y w') :
    ¬ w <+: w' := by
  rintro ⟨e, rfl⟩
  induction x generalizing y w with
  | nil => cases h
  | cons s x ih =>
    cases y with
    | nil => cases h
    | cons t y =>
      cases w with
      | nil => cases hx
      | cons c w =>
        rw [apart, Bool.or_eq_true] at h
        rcases h with h | h
        · have := CodeSet.not_contains_of_disjoint h hx.1
          rw [hy.1] at this
          cases this
        · exact ih h hx.2 hy.2

/-- Whether two words of the pattern have the same length or differ. -/
def prefixFree (p : Pattern) : Bool :=
  p.loopless && p.words.all fun x => p.words.all fun y => x.length == y.length || apart x y

theorem eq_of_prefixFree (hp : p.prefixFree = true) (h : p.Piece before w after)
    (h' : p.Piece before' w' after') (hbegin : w <+: w') : w = w' := by
  simp only [prefixFree, Bool.and_eq_true, List.all_eq_true, Bool.or_eq_true, beq_iff_eq] at hp
  obtain ⟨x, hx, hxw⟩ := exists_fits hp.1 h
  obtain ⟨y, hy, hyw⟩ := exists_fits hp.1 h'
  rcases hp.2 x hx y hy with hlen | hapart
  · exact hbegin.eq_of_length (by rw [← hxw.length_eq, ← hyw.length_eq, hlen])
  · exact absurd hbegin (not_prefix_of_apart hapart hxw hyw)

/-! ## Rows of parts -/

/-- The parts of a pattern in a row. -/
def spine : Pattern → List Pattern
  | .seq p q => p.spine ++ q.spine
  | p => [p]

/-- The pattern of parts in a row. -/
def chain : List Pattern → Pattern
  | [] => .empty
  | [p] => p
  | p :: ps => .seq p (chain ps)

theorem piece_chain_cons (p : Pattern) (ps : List Pattern) :
    (chain (p :: ps)).Piece before w after ↔
      ∃ u v, w = u ++ v ∧ p.Piece before u (v.head?.or after) ∧
        (chain ps).Piece (u.getLast?.or before) v after := by
  cases ps with
  | nil =>
    constructor
    · exact fun h => ⟨w, [], (List.append_nil w).symm, h, rfl⟩
    · rintro ⟨u, v, rfl, hu, hv⟩
      obtain rfl : v = [] := hv
      rw [List.append_nil]
      exact hu
  | cons q ps => exact Iff.rfl

theorem piece_chain_append (ps qs : List Pattern) :
    (chain (ps ++ qs)).Piece before w after ↔
      ∃ u v, w = u ++ v ∧ (chain ps).Piece before u (v.head?.or after) ∧
        (chain qs).Piece (u.getLast?.or before) v after := by
  induction ps generalizing before w with
  | nil =>
    constructor
    · exact fun h => ⟨[], w, rfl, rfl, h⟩
    · rintro ⟨u, v, rfl, hu, hv⟩
      obtain rfl : u = [] := hu
      exact hv
  | cons p ps ih =>
    rw [List.cons_append, piece_chain_cons]
    constructor
    · rintro ⟨u, v, rfl, hu, hv⟩
      obtain ⟨v₁, v₂, rfl, hv₁, hv₂⟩ := ih.1 hv
      refine ⟨u ++ v₁, v₂, (List.append_assoc ..).symm,
        (piece_chain_cons p ps).2 ⟨u, v₁, rfl, ?_, hv₁⟩, ?_⟩
      · rwa [List.head?_append, Option.or_assoc] at hu
      · rwa [List.getLast?_append, Option.or_assoc]
    · rintro ⟨u, v, rfl, hu, hv⟩
      obtain ⟨u₁, u₂, rfl, hu₁, hu₂⟩ := (piece_chain_cons p ps).1 hu
      refine ⟨u₁, u₂ ++ v, List.append_assoc .., ?_, ih.2 ⟨u₂, v, rfl, hu₂, ?_⟩⟩
      · rwa [List.head?_append, Option.or_assoc]
      · rwa [List.getLast?_append, Option.or_assoc] at hv

theorem piece_iff_chain_spine (p : Pattern) :
    p.Piece before w after ↔ (chain p.spine).Piece before w after := by
  induction p generalizing before w after with
  | seq p q ihp ihq =>
    rw [spine, piece_chain_append]
    simp only [← ihp, ← ihq]
    rfl
  | empty | one | many | alt | star | mark | anchor => exact Iff.rfl

/-- The first parts of a pattern. -/
def front (k : Nat) (p : Pattern) : Pattern := chain (p.spine.take k)

/-- The parts of a pattern behind the first ones. -/
def back (k : Nat) (p : Pattern) : Pattern := chain (p.spine.drop k)

/-- A piece of a pattern is a piece of its first parts and one of the others. -/
theorem exists_split (k : Nat) (h : p.Piece before w after) :
    ∃ u v, w = u ++ v ∧ (p.front k).Piece before u (v.head?.or after) ∧
      (p.back k).Piece (u.getLast?.or before) v after := by
  rw [piece_iff_chain_spine, ← List.take_append_drop k p.spine] at h
  exact (piece_chain_append _ _).1 h

/-- The patterns among which a pattern chooses. -/
def branches : Pattern → List Pattern
  | .alt p q => p.branches ++ q.branches
  | p => [p]

theorem exists_branch (h : p.Piece before w after) : ∃ q ∈ p.branches, q.Piece before w after := by
  induction p generalizing before w after with
  | alt p q ihp ihq =>
    rcases h with h | h
    · obtain ⟨r, hr, hpiece⟩ := ihp h
      exact ⟨r, List.mem_append_left _ hr, hpiece⟩
    · obtain ⟨r, hr, hpiece⟩ := ihq h
      exact ⟨r, List.mem_append_right _ hr, hpiece⟩
  | empty | one | many | seq | star | mark | anchor => exact ⟨_, List.mem_singleton_self _, h⟩

theorem piece_of_branch {q : Pattern} (hq : q ∈ p.branches) (h : q.Piece before w after) :
    p.Piece before w after := by
  induction p with
  | alt p r ihp ihr =>
    rcases List.mem_append.1 hq with hq | hq
    · exact Or.inl (ihp hq)
    · exact Or.inr (ihr hq)
  | empty | one | many | seq | star | mark | anchor =>
    obtain rfl := List.mem_singleton.1 hq
    exact h

end Pattern
end CodeAudit
