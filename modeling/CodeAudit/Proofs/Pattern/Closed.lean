import CodeAudit.Proofs.Pattern.Replacement

/-!
# Patterns that end at a mark

A pattern of calls ends with an opening bracket, which it has nowhere else. Where its first match
ends can then be told without looking at what follows, as long as no condition does: the text up to
there has the same first match whatever comes behind it.

**Results.**
* `eq_append_of_closedBy`: the mark of a piece is at its end, and only there.
* `Piece.of_frontAnchored`: conditions at the start do not look behind a piece.
* `find?_take_append`: the first match, when the text behind it is another one.
-/
namespace CodeAudit
namespace Pattern

variable {p : Pattern} {before after after' : Option Nat} {w : List Nat}

/-- Whether all pieces end with the code point, and have it nowhere else. -/
def closedBy (c : Nat) : Pattern → Bool
  | .one s => s.within [(c, c)]
  | .seq p q => p.codesIn (allBut c) && q.closedBy c
  | .alt p q => p.closedBy c && q.closedBy c
  | _ => false

theorem eq_append_of_closedBy {c : Nat} (hc : 0 < c) (hp : p.closedBy c = true)
    (h : p.Piece before w after) :
    ∃ u, w = u ++ [c] ∧ c ∉ u := by
  induction p generalizing before w after with
  | one s =>
    obtain ⟨d, rfl, hd⟩ := h
    refine ⟨[], ?_, List.not_mem_nil⟩
    rw [CodeSet.eq_of_hasCode (CodeSet.hasCode_of_within hp hd)]
    rfl
  | seq p q _ ihq =>
    obtain ⟨u, v, rfl, hu, hv⟩ := h
    rw [closedBy, Bool.and_eq_true] at hp
    obtain ⟨x, rfl, hx⟩ := ihq hp.2 hv
    refine ⟨u ++ x, by rw [List.append_assoc], fun hmem => ?_⟩
    rcases List.mem_append.1 hmem with hmem | hmem
    · exact ne_of_hasCode_allBut hc (hasCode_of_codesIn hp.1 hu c hmem) rfl
    · exact hx hmem
  | alt p q ihp ihq =>
    rw [closedBy, Bool.and_eq_true] at hp
    rcases h with h | h
    · exact ihp hp.1 h
    · exact ihq hp.2 h
  | empty | many | star | mark | anchor => cases hp

/-- Whether conditions stand at the start only. -/
def frontAnchored : Pattern → Bool
  | .anchor _ => true
  | .seq p q => p.frontAnchored && q.anchors.isEmpty
  | p => p.anchors.isEmpty

theorem Piece.of_frontAnchored (hp : p.frontAnchored = true) (h : p.Piece before w after)
    (hafter : w.head?.or after = w.head?.or after') : p.Piece before w after' := by
  induction p generalizing before w after after' with
  | anchor a =>
    obtain ⟨rfl, ha⟩ := h
    refine ⟨rfl, ?_⟩
    rw [List.head?_nil, Option.none_or, Option.none_or] at hafter
    rwa [← hafter]
  | seq p q ihp _ =>
    obtain ⟨u, v, rfl, hu, hv⟩ := h
    rw [frontAnchored, Bool.and_eq_true, List.isEmpty_iff] at hp
    refine ⟨u, v, rfl, ihp hp.1 hu ?_, hv.anywhere hp.2⟩
    rwa [← Option.or_assoc, ← Option.or_assoc, ← List.head?_append]
  | empty | one | many | star | alt | mark => exact h.anywhere (List.isEmpty_iff.1 hp)

/-- The first one of a code point in a list is not behind any other. -/
theorem prefix_of_first {c : Nat} {x y r s : List Nat} (hx : c ∉ x)
    (h : x ++ c :: s = y ++ c :: r) :
    x ++ [c] <+: y ++ [c] := by
  rcases append_eq_append_cases h with ⟨e, rfl, he⟩ | ⟨e, hne, rfl, he⟩
  · cases e with
    | nil => exact ⟨[], by simp⟩
    | cons d e =>
      obtain ⟨rfl, -⟩ := List.cons.inj he
      exact ⟨e ++ [c], by simp⟩
  · obtain ⟨d, e, rfl⟩ := List.exists_cons_of_ne_nil hne
    obtain ⟨rfl, -⟩ := List.cons.inj he
    simp at hx

/-- Behind a match that ends with an ASCII code point the text may go on as it likes. -/
theorem runes_take_append {c : Nat} (hascii : c < 0x80) {t : Text} {m : Match}
    {gap w post : List Rune} {x : List Nat}
    (hruns : t.runes = gap ++ (w ++ post)) (hw : w.map Rune.code = x ++ [c])
    (hstart : m.start = (Text.ofRunes gap).length) (hlen : m.len = (Text.ofRunes w).length)
    (u : Text) :
    Text.runes (t.take m.stop ++ u) = gap ++ (w ++ u.runes) := by
  have hstop : m.stop = (Text.ofRunes (gap ++ w)).length := by
    rw [Match.stop, hstart, hlen, Text.ofRunes_append, List.length_append]
  have htake : t.take m.stop = Text.ofRunes (gap ++ w) := by
    rw [← Text.ofRunes_runes t, hruns, ← List.append_assoc, Text.ofRunes_append _ post, hstop,
      List.take_left]
  obtain ⟨v, ⟨r, hv, hr⟩⟩ : ∃ v r, w = v ++ [r] ∧ r.code = c := by
    obtain ⟨v, y, rfl, -, hy⟩ := List.map_eq_append_iff.1 hw
    obtain ⟨r, hr, hrc⟩ := List.map_eq_singleton_iff.1 hy
    exact ⟨v, r, by rw [hr], hrc⟩
  obtain ⟨b, hb, hraw⟩ := Text.eq_of_code_lt (t := t) (r := r) (by rw [hruns, hv]; simp) (by omega)
  have hlast : (Text.ofRunes (gap ++ w)).getLast? = some b := by
    rw [hv, hraw]
    simp
  have hsplit : t.runes = (gap ++ w) ++ post := by rw [hruns, List.append_assoc]
  rw [htake, Text.runes_append_of_getLast? hlast hb, (Text.runes_split hsplit).1, List.append_assoc]

/-- The first match of a pattern that ends at a mark does not depend on what follows it. -/
theorem find?_take_append {c : Nat} (hc : 0 < c) (hascii : c < 0x80)
    (hfront : p.frontAnchored = true)
    (hclosed : p.closedBy c = true) {t : Text} {m : Match} (h : p.find? t = some m) (u : Text) :
    ∃ m', p.find? (t.take m.stop ++ u) = some m' ∧ m'.stop = m.stop := by
  have hfree : ∀ {b a a' : Option Nat} {v : List Nat}, p.Piece b v a → p.Piece b v a' := by
    intro b a a' v hv
    obtain ⟨y, rfl, -⟩ := eq_append_of_closedBy hc hclosed hv
    exact hv.of_frontAnchored hfront (by rw [head?_or (by simp), head?_or (by simp)])
  obtain ⟨gap, w, post, hruns, hclear, hpiece, hstart, hlen⟩ := find?_eq_some_piece h
  obtain ⟨x, hx, hxc⟩ := eq_append_of_closedBy hc hclosed hpiece
  have hnew := runes_take_append hascii hruns hx hstart hlen u
  rw [codeBehind_eq] at hpiece
  obtain ⟨m', hm'⟩ : ∃ m', p.find? (t.take m.stop ++ u) = some m' := by
    rw [← Option.isSome_iff_exists, ← matchesIn, matchesIn_iff_occursIn, Text.codes, hnew]
    exact ⟨gap.map Rune.code, w.map Rune.code, u.runes.map Rune.code, by simp, hfree hpiece⟩
  obtain ⟨gap', w', post', hruns', hclear', hpiece', hstart', hlen'⟩ := find?_eq_some_piece hm'
  obtain ⟨x', hx', hxc'⟩ := eq_append_of_closedBy hc hclosed hpiece'
  rw [hnew] at hruns'
  rw [codeBehind_eq] at hpiece'
  have hcodes := congrArg (List.map Rune.code) hruns'
  simp only [List.map_append, hx, hx', List.append_assoc, List.singleton_append] at hcodes
  have hle : gap'.length ≤ gap.length := by
    have hcs : gap'.map Rune.code ++ (w' ++ post').map Rune.code =
        gap.map Rune.code ++ (w.map Rune.code ++ u.runes.map Rune.code) := by
      rw [← List.map_append, ← hruns', List.map_append, List.map_append]
    simpa using hclear'.length_le hcs (hfree hpiece)
  have hge : gap.length ≤ gap'.length := by
    rcases append_eq_append_cases hcodes with ⟨e, he, -⟩ | ⟨e, -, hgap, he⟩
    · have := congrArg List.length he
      simp only [List.length_append, List.length_map] at this
      omega
    · -- the piece ends before the other one does, so it was there from the beginning
      rw [← List.append_assoc] at he
      obtain ⟨z, hz⟩ := prefix_of_first hxc' he
      have hcs : gap.map Rune.code ++ (w ++ post).map Rune.code =
          gap'.map Rune.code ++ (w'.map Rune.code ++ (z ++ post.map Rune.code)) := by
        rw [List.map_append, hgap, hx, hx', ← List.append_assoc (x' ++ [c]), hz]
        simp
      simpa using hclear.length_le hcs (hfree hpiece')
  obtain ⟨rfl, htail⟩ := List.append_inj hruns' (by omega)
  have htails := List.append_cancel_left hcodes
  have hwlen : w.length = w'.length := by
    have := (prefix_of_first hxc htails).length_le
    have := (prefix_of_first hxc' htails.symm).length_le
    have hwx := congrArg List.length hx
    have hwx' := congrArg List.length hx'
    rw [List.length_map] at hwx hwx'
    omega
  obtain ⟨rfl, -⟩ := List.append_inj htail hwlen
  refine ⟨m', hm', ?_⟩
  rw [Match.stop, Match.stop, hstart, hstart', hlen, hlen']

end Pattern
end CodeAudit
