import CodeAudit.Proofs.Code.Escape

/-!
# Inside and outside of literals

A line is made of literals and of what stands between them, where no quote is. What follows a quote
that is not closed belongs to neither. `Parts` says how a text is taken apart, and the readers of
literals are described by it.

**Results.**
* `exists_parts`: every text is taken apart.
* `Parts.map_text_literals`: the literals are those parts that stand between quotes.
-/
namespace CodeAudit
namespace Code

/-- No quote stands in the text. -/
def Unquoted (s : Text) : Prop := ∀ b ∈ s, isQuote b = false

/-- A text is made of pairs of an unquoted text and a literal behind it, of an unquoted rest, and of
a tail that is empty or starts with a quote that is not closed. -/
inductive Parts : Text → List (Text × Text) → Text → Text → Prop where
  | rest {s : Text} (hs : Unquoted s) : Parts s [] s []
  | unclosed {s u : Text} {q : UInt8} (hs : Unquoted s) (hq : isQuote q = true)
    (hopen : closing? q u = none) :
      Parts (s ++ q :: u) [] s (q :: u)
  | literal {s c u rest tail : Text} {q : UInt8} {pairs : List (Text × Text)} (hs : Unquoted s)
      (hq : isQuote q = true) (hclose : closing? q (c ++ q :: u) = some c.length)
      (h : Parts u pairs rest tail) :
      Parts (s ++ q :: (c ++ q :: u)) ((s, q :: (c ++ [q])) :: pairs) rest tail

/-- What follows a literal does not matter for where it ends. -/
theorem closing?_of_closing? {q : UInt8} (hq : isQuote q = true) {c u : Text}
    (h : closing? q (c ++ q :: u) = some c.length) (v : Text) :
      closing? q (c ++ q :: v) = some c.length := by
  rw [closing?_eq_length_iff (ne_backslash_of_isQuote hq)] at h ⊢
  exact h

/-- The first quote of a text, if it has one. -/
theorem unquoted_or_exists_quote (t : Text) :
    Unquoted t ∨ ∃ s q u, t = s ++ q :: u ∧ Unquoted s ∧ isQuote q = true := by
  induction t with
  | nil => exact Or.inl (by simp [Unquoted])
  | cons b t ih =>
    by_cases hb : isQuote b = true
    · exact Or.inr ⟨[], b, t, rfl, by simp [Unquoted], hb⟩
    rw [Bool.not_eq_true] at hb
    rcases ih with h | ⟨s, q, u, rfl, hs, hq⟩
    · exact Or.inl (List.forall_mem_cons.2 ⟨hb, h⟩)
    · exact Or.inr ⟨b :: s, q, u, rfl, List.forall_mem_cons.2 ⟨hb, hs⟩, hq⟩

theorem exists_parts (t : Text) : ∃ pairs rest tail, Parts t pairs rest tail := by
  induction hn : t.length using Nat.strongRecOn generalizing t with
  | ind n ih =>
    rcases unquoted_or_exists_quote t with ht | ⟨s, q, u, rfl, hs, hq⟩
    · exact ⟨[], t, [], .rest ht⟩
    cases hclose : closing? q u with
    | none => exact ⟨[], s, q :: u, .unclosed hs hq hclose⟩
    | some k =>
      obtain ⟨v, hu, hlen⟩ := eq_of_closing? hclose
      have hlt : v.length < n := by
        rw [← hn, List.length_append, List.length_cons, hu]
        simp only [List.length_append, List.length_cons]
        omega
      obtain ⟨pairs, rest, tail, h⟩ := ih _ hlt v rfl
      rw [hu] at hclose ⊢
      exact ⟨_, _, _, .literal hs hq (hlen.symm ▸ hclose) h⟩

variable {t rest tail : Text} {pairs : List (Text × Text)}

theorem Parts.eq (h : Parts t pairs rest tail) :
    t = (pairs.flatMap fun c => c.1 ++ c.2) ++ (rest ++ tail) := by
  induction h with
  | rest => simp
  | unclosed => simp
  | literal _ _ _ _ ih =>
    rw [List.flatMap_cons, List.append_assoc, ← ih]
    simp

/-! ## The literals of a text -/

theorem literalsFrom_skip (t : Text) :
    ∀ i skip, literalsFrom i skip t = literalsFrom (i + skip) 0 (t.drop skip) := by
  induction t with
  | nil => intro i skip; simp [literalsFrom]
  | cons b t ih =>
    intro i skip
    cases skip with
    | zero => rfl
    | succ skip =>
      rw [literalsFrom, ih, List.drop_succ_cons, show i + 1 + skip = i + (skip + 1) by omega]

theorem literalsFrom_unquoted {s : Text} (hs : Unquoted s) (t : Text) :
    ∀ i, literalsFrom i 0 (s ++ t) = literalsFrom (i + s.length) 0 t := by
  induction s with
  | nil => intro i; rfl
  | cons b s ih =>
    intro i
    obtain ⟨hb, hs⟩ := List.forall_mem_cons.1 hs
    rw [List.cons_append, literalsFrom, if_neg (by simp [hb]), ih hs, List.length_cons,
      show i + 1 + s.length = i + (s.length + 1) by omega]

theorem Parts.map_text_literalsFrom (h : Parts t pairs rest tail) :
    ∀ i, (literalsFrom i 0 t).map Literal.text = pairs.map Prod.snd := by
  induction h with
  | @rest s hs =>
    intro i
    have := literalsFrom_unquoted hs [] i
    rw [List.append_nil] at this
    rw [this]
    rfl
  | unclosed hs hq hopen =>
    intro i
    rw [literalsFrom_unquoted hs, literalsFrom, if_pos hq, hopen]
    rfl
  | @literal s c u rest tail q pairs hs hq hclose _ ih =>
    intro i
    rw [literalsFrom_unquoted hs, literalsFrom, if_pos hq, hclose]
    simp only [List.map_cons, List.take_left, Literal.text, List.cons_append,
      literalsFrom_skip _ _ (c.length + 1)]
    rw [show (c ++ q :: u).drop (c.length + 1) = u by simp [List.drop_append], ih]

/-- The literals of a text, as they stand in it. -/
theorem Parts.map_text_literals (h : Parts t pairs rest tail) :
    (literals t).map Literal.text = pairs.map Prod.snd := h.map_text_literalsFrom 0

end Code
end CodeAudit
