import CodeAudit.Code.Expression

/-!
# Literals and operands are pieces of their text

What a reader of literals or operands returns is a piece of the text it was given: the quotes and
the content of a literal stand where its offsets say, and an operand stands at the beginning.

**Results.**
* `eq_of_closing?`: the quote that closes a literal is there.
* `slice_of_mem_literals`, `eq_of_literalAt?`: a literal is two equal quotes with its content
  between them.
* `eq_of_operand?`: an operand is what its text starts with.
-/
namespace CodeAudit.Code

theorem eq_of_closing? {q : UInt8} {t : Text} {n : Nat} (h : closing? q t = some n) :
    ∃ rest, t = t.take n ++ q :: rest ∧ (t.take n).length = n := by
  fun_induction closing? q t generalizing n with
  | case1 => cases h
  | case2 t =>
    obtain rfl := Option.some.inj h
    exact ⟨t, rfl, rfl⟩
  | case3 => cases h
  | case4 c u hq ih =>
    -- the byte behind a backslash is passed over
    obtain ⟨m, hm, rfl⟩ := Option.map_eq_some_iff.1 h
    obtain ⟨rest, heq, hlen⟩ := ih hm
    refine ⟨rest, ?_, ?_⟩
    · simpa using heq
    · simpa using hlen
  | case5 b t hq hb ih =>
    obtain ⟨m, hm, rfl⟩ := Option.map_eq_some_iff.1 h
    obtain ⟨rest, heq, hlen⟩ := ih hm
    refine ⟨rest, ?_, ?_⟩
    · simpa using heq
    · simpa using hlen

/-! ## Literals -/

/-- The text of a literal, quotes included. -/
def Literal.text (l : Literal) : Text := l.quote :: l.content ++ [l.quote]

/-- The literal stands in a text at offset `i`. -/
structure Literal.StandsIn (l : Literal) (t : Text) (i : Nat) : Prop where
  stop_eq : l.stop = l.start + l.text.length
  start_eq : ∃ k, l.start = i + k ∧ l.text <+: t.drop k

theorem Literal.StandsIn.cons {l : Literal} {t : Text} {i : Nat} (h : l.StandsIn t (i + 1))
    (b : UInt8) :
    l.StandsIn (b :: t) i := by
  obtain ⟨k, hstart, htext⟩ := h.start_eq
  exact ⟨h.stop_eq, k + 1, by omega, htext⟩

theorem standsIn_of_mem_literalsFrom {t : Text} {l : Literal} : ∀ {i skip : Nat},
    l ∈ literalsFrom i skip t → l.StandsIn t i := by
  induction t with
  | nil => simp [literalsFrom]
  | cons b t ih =>
    intro i skip h
    cases skip with
    | succ skip => exact (ih h).cons b
    | zero =>
      unfold literalsFrom at h
      split at h
      · split at h
        · cases h
        · rename_i n hn
          rcases List.mem_cons.1 h with rfl | h
          · obtain ⟨rest, heq, hlen⟩ := eq_of_closing? hn
            refine ⟨?_, 0, rfl, rest, ?_⟩
            · simp only [Literal.text, List.cons_append, List.length_cons, List.length_append, hlen,
                List.length_nil]
              omega
            · simpa [Literal.text] using heq.symm
          · exact (ih h).cons b
      · exact (ih h).cons b

theorem Literal.start_lt_stop {l : Literal} (h : l.stop = l.start + l.text.length) :
    l.start < l.stop := by
  rw [h]
  simp [Literal.text]

/-- A literal of a line is two equal quotes with its content between them. -/
theorem slice_of_mem_literals {line : Text} {l : Literal} (h : l ∈ literals line) :
    line.slice l.start l.stop = l.text ∧ l.start < l.stop ∧ l.stop ≤ line.length := by
  obtain ⟨hstop, k, hstart, rest, htext⟩ := standsIn_of_mem_literalsFrom h
  obtain rfl : l.start = k := by omega
  have hlen := congrArg List.length htext
  rw [List.length_append, List.length_drop] at hlen
  refine ⟨?_, Literal.start_lt_stop hstop, ?_⟩
  · rw [Text.slice, ← htext, hstop, Nat.add_sub_cancel_left, List.take_left]
  · have := Literal.start_lt_stop hstop
    omega

theorem mem_literals_of_literalAt? {t : Text} {l : Literal} (h : literalAt? t = some l) :
    l ∈ literals t := by
  unfold literalAt? at h
  split at h
  · rename_i m hm
    split at h
    · obtain rfl := Option.some.inj h
      exact List.mem_of_head? hm
    · cases h
  · cases h

/-- The literal at the beginning of a text is what the text starts with. -/
theorem eq_of_literalAt? {t : Text} {l : Literal} (h : literalAt? t = some l) :
    t = l.text ++ t.drop l.text.length ∧ l.start = 0 ∧ l.stop = l.text.length := by
  unfold literalAt? at h
  split at h
  · rename_i m hm
    split at h
    · rename_i hstart
      obtain rfl := Option.some.inj h
      obtain ⟨hstop, k, hk, rest, htext⟩ := standsIn_of_mem_literalsFrom (List.mem_of_head? hm)
      obtain rfl : k = 0 := by omega
      rw [List.drop_zero] at htext
      refine ⟨?_, hstart, by omega⟩
      rw [← htext, List.drop_left]
    · cases h
  · cases h

/-! ## Operands -/

/-- An operand is not empty, and it is what its text starts with. -/
theorem eq_of_operand? {arrow : Bool} {t e : Text} (h : operand? arrow t = some e) :
    t = e ++ t.drop e.length ∧ e ≠ [] := by
  unfold operand? at h
  split at h
  · cases h
  · rename_i n hn
    split at h
    · cases h
    · rename_i b u htake
      split at h
      · obtain rfl := Option.some.inj h
        obtain ⟨rest, hrest⟩ := List.take_prefix n t
        rw [htake] at hrest
        refine ⟨?_, List.cons_ne_nil b u⟩
        rw [← hrest, List.drop_left]
      · cases h

end CodeAudit.Code
