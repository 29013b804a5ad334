import CodeAudit.Proofs.Code.Escape
import CodeAudit.Proofs.Fix.Joining

/-!
# The new literal of a query

A query with placeholders is written as one literal. Its quote is the one of the first literal, or
the other kind when the text holds that anywhere. A backslash is left open nowhere in the text,
since it is put together from contents of literals and placeholders; so the literal is read back as
it was meant, unless the quote had to be changed and the other kind stands bare in the text. A quote
behind a backslash forces the change all the same, though it would do no harm.

**Results.**
* `Quotable`: what all queries have that are found in a line.
* `quotable_of_joinedAt?`, `quotable_of_interpolatedAt?`: the two ways in which a query is found.
* `bound_literal_read_iff`: when the new literal is read back with the text of the query.
-/
namespace CodeAudit
namespace Query

/-- The other one of the two quotes. -/
def otherQuote (q : UInt8) : UInt8 := if q == 34 then 39 else 34

/-- The query starts in its line, has a double or single quote, and leaves no backslash open. -/
structure Quotable (q : Query) (line : Text) : Prop where
  start_le : q.start ≤ line.length
  quote : q.quote = 34 ∨ q.quote = 39
  escaping : Code.escaping false q.sql = false

/-! ## Placeholders -/

theorem placeholder_ne_nil (l : Language) : placeholder l ≠ [] := by
  unfold placeholder
  split <;> decide +kernel

theorem getLast?_placeholder_ne (l : Language) : (placeholder l).getLast? ≠ some 92 := by
  unfold placeholder
  split <;> decide +kernel

theorem escaping_unquotePlaceholders (sql : Text) (l : Language) :
    Code.escaping false (unquotePlaceholders sql (placeholder l)) = Code.escaping false sql := by
  have hquoted : ∀ q : UInt8, q ≠ 92 → ([q] ++ placeholder l ++ [q]).getLast? ≠ some 92 := by
    intro q hq
    rw [List.getLast?_append]
    simpa using hq
  rw [unquotePlaceholders,
    Code.escaping_replaceAll (by simp) (hquoted 34 (by decide)) (placeholder_ne_nil l)
      (getLast?_placeholder_ne l),
    Code.escaping_replaceAll (by simp) (hquoted 39 (by decide)) (placeholder_ne_nil l)
      (getLast?_placeholder_ne l)]

/-! ## Joined queries -/

/-- What a joint adds to a query leaves no backslash open. -/
theorem escaping_sql_of_reads {dots : Bool} {j : Joint} {rest : Text} (h : j.Reads dots rest)
    (l : Language) :
    Code.escaping false (j.sql (placeholder l)) = false := by
  obtain ⟨lead, op, gap, item⟩ := j
  have hitem := h.item
  cases item with
  | literal q c => exact Code.escaping_content (Code.mem_literals_of_literalAt? hitem.2)
  | operand e =>
    exact Code.escaping_eq_false (placeholder_ne_nil l) (getLast?_placeholder_ne l) false

theorem escaping_sql_of_readsAll {dots : Bool} {js : List Joint} {rest : Text}
    (h : Joint.ReadsAll dots js rest) (l : Language) :
    Code.escaping false (js.flatMap (Joint.sql (placeholder l))) = false := by
  induction js with
  | nil => rfl
  | cons j js ih =>
    rw [List.flatMap_cons, Code.escaping_append, escaping_sql_of_reads h.1 l, ih h.2]

theorem quotable_of_joinedAt? {line : Text} {l : Language} {lit : Code.Literal} {q : Query}
    (hlit : lit ∈ Code.literals line) (h : joinedAt? line l lit = some q) : q.Quotable line := by
  obtain ⟨js, hjs⟩ := assembled_of_joinedAt? hlit h
  refine ⟨Nat.le_trans (Nat.le_of_lt hjs.start_lt) hjs.stop_le, ?_, ?_⟩
  · -- back quotes are passed over
    have hquote := (Code.isQuote_and_closing?_of_mem_literalsFrom hlit).1
    rw [hjs.quote_eq]
    unfold joinedAt? at h
    split at h
    · cases h
    · rename_i hcond
      simp only [Bool.or_eq_true, beq_iff_eq, not_or] at hcond
      simp only [Code.isQuote, Bool.or_eq_true, beq_iff_eq] at hquote
      rcases hquote with (h34 | h39) | h96
      · exact Or.inl h34
      · exact Or.inr h39
      · exact absurd h96 hcond.1.1
  · rw [hjs.sql_eq, escaping_unquotePlaceholders, Code.escaping_append, Code.escaping_content hlit]
    exact escaping_sql_of_readsAll hjs.reads l

/-! ## Interpolated queries -/

/-- The query is made of one literal, with placeholders for all pieces of a pattern. -/
structure Filled (q : Query) (lit : Code.Literal) (l : Language) (p : Pattern) : Prop where
  start_le : q.start ≤ lit.start
  quote_eq : q.quote = lit.quote
  sql_eq : q.sql = p.replaceBy (fun _ => placeholder l) lit.content

/-- The last step of reading an interpolated query: it must have values, quotes around placeholders
go, and a double quote takes the place of a back quote. -/
theorem quotable_of_filled {line : Text} {l : Language} {lit : Code.Literal} {raw q : Query}
    {p : Pattern}
    (hlit : lit ∈ Code.literals line) (hraw : raw.Filled lit l p) (hsolid : p.solid = true)
    (hlast : p.lastIn (Pattern.allBut 92) = true)
    (h : (if raw.args.isEmpty = true then none else
      some { raw with
        sql := unquotePlaceholders raw.sql (placeholder l)
        quote := if (raw.quote == 96) = true then 34 else raw.quote }) = some q) :
          q.Quotable line := by
  obtain ⟨-, hlt, hle⟩ := Code.slice_of_mem_literals hlit
  have hquote := (Code.isQuote_and_closing?_of_mem_literalsFrom hlit).1
  have hstart := hraw.start_le
  split at h
  · cases h
  obtain rfl := Option.some.inj h
  refine ⟨?_, ?_, ?_⟩
  · simp only
    omega
  · simp only [Code.isQuote, Bool.or_eq_true, beq_iff_eq] at hquote
    simp only [hraw.quote_eq]
    rcases hquote with (h34 | h39) | h96
    · simp [h34]
    · simp [h39]
    · simp [h96]
  · simp only
    rw [escaping_unquotePlaceholders, hraw.sql_eq,
      Code.escaping_replaceBy hsolid hlast (placeholder_ne_nil l) (getLast?_placeholder_ne l)]
    exact Code.escaping_content hlit

theorem quotable_of_interpolatedAt? {line : Text} {l : Language} {lit : Code.Literal} {q : Query}
    (hlit : lit ∈ Code.literals line) (h : interpolatedAt? line l lit = some q) :
      q.Quotable line := by
  unfold interpolatedAt? at h
  simp only at h
  split at h
  · cases h
  -- whatever the fields look like, they give way to placeholders
  split at h
  · exact quotable_of_filled (p := formattedField) hlit ⟨Nat.sub_le _ _, rfl, rfl⟩
      (by decide +kernel) (by decide +kernel) h
  split at h
  · exact quotable_of_filled (p := templateField) hlit ⟨Nat.le_refl _, rfl, rfl⟩ (by decide +kernel)
      (by decide +kernel) h
  split at h
  · exact quotable_of_filled (p := variableField) hlit ⟨Nat.le_refl _, rfl, rfl⟩ (by decide +kernel)
      (by decide +kernel) h
  split at h
  · obtain ⟨raw, hraw, h⟩ := Option.bind_eq_some_iff.1 h
    obtain ⟨⟨args, n⟩, -, rfl⟩ := Option.map_eq_some_iff.1 hraw
    exact quotable_of_filled (p := percentVerb) hlit ⟨Nat.le_refl _, rfl, rfl⟩ (by decide +kernel)
      (by decide +kernel) h
  · obtain ⟨raw, hraw, h⟩ := Option.bind_eq_some_iff.1 h
    obtain ⟨⟨args, n⟩, -, rfl⟩ := Option.map_eq_some_iff.1 hraw
    exact quotable_of_filled (p := emptyField) hlit ⟨Nat.le_refl _, rfl, rfl⟩ (by decide +kernel)
      (by decide +kernel) h

/-! ## The new literal -/

theorem chooseQuote_eq {q : UInt8} (hq : q = 34 ∨ q = 39) (sql : Text) :
    chooseQuote q sql = if q ∈ sql then otherQuote q else q := by
  have hplain : (if q == 96 then (34 : UInt8) else q) = q := by rcases hq with rfl | rfl <;> rfl
  simp only [chooseQuote, hplain, otherQuote, List.any_beq']
  split <;> simp_all

/-- A query that is found is written as one literal, which is read back with the text of the query,
unless the text holds both quotes, and the one that the query did not have stands bare in it. -/
theorem bound_literal_read_iff {line : Text} {l : Language} {q : Query}
    (h : concatenation? line l = some q ∨ interpolation? line l = some q) :
    ∃ (code : Text) (more : List Text), bind line q l =
      note l line.indent (noteText l) :: code :: more ∧
      ((∃ lit, Code.literalAt? (code.drop q.start) = some lit ∧ lit.content = q.sql) ↔
        ¬ (q.quote ∈ q.sql ∧ Code.Bare (otherQuote q.quote) q.sql)) := by
  have hq : q.Quotable line := by
    rcases h with h | h
    · obtain ⟨lit, hlit, h⟩ := List.exists_of_findSome?_eq_some h
      exact quotable_of_joinedAt? hlit h
    · obtain ⟨lit, hlit, h⟩ := List.exists_of_findSome?_eq_some h
      exact quotable_of_interpolatedAt? hlit h
  obtain ⟨values, more, hbind, -⟩ := bind_eq line q l
  refine ⟨_, more, hbind, ?_⟩
  have hchosen := chooseQuote_eq hq.quote q.sql
  have hdrop : (line.take q.start ++ q.boundLiteral ++ values ++ line.drop q.stop).drop q.start =
      chooseQuote q.quote q.sql ::
        (q.sql ++ chooseQuote q.quote q.sql :: (values ++ line.drop q.stop)) := by
    rw [List.append_assoc, List.append_assoc, List.drop_append_of_le_length (by simp [hq.start_le]),
      List.drop_eq_nil_of_le (List.length_take_le ..)]
    simp [boundLiteral]
  have hisQuote : Code.isQuote (chooseQuote q.quote q.sql) = true := by
    rw [hchosen]
    rcases hq.quote with hquote | hquote <;> rw [hquote] <;> split <;> rfl
  rw [hdrop, Code.literalAt?_content_iff hisQuote, hchosen]
  by_cases hmem : q.quote ∈ q.sql
  · simp [hmem, hq.escaping]
  · simp [hmem, hq.escaping, Code.not_bare_of_not_mem]

/-- The quotes of a name stand behind backslashes, and there are no single quotes: the literal gets
those. -/
theorem switched_quote_read_back :
    let line : Text := r#"q("select \"id\" from t where name=" + name)"#
    ∃ q code more, concatenation? line .javaScript = some q ∧
      bind line q .javaScript = note .javaScript [] (noteText .javaScript) :: code :: more ∧
      ∃ lit, Code.literalAt? (code.drop q.start) = some lit ∧ lit.content = q.sql := by
  intro line
  have hq : concatenation? line .javaScript =
      some ⟨2, 43, 34, r#"select \"id\" from t where name=?"#, [utf8 "name"]⟩ := by decide +kernel
  obtain ⟨code, more, hbind, hread⟩ := bound_literal_read_iff (Or.inl hq)
  refine ⟨_, code, more, hq, hbind, hread.2 ?_⟩
  rintro ⟨-, hbare⟩
  exact Code.not_bare_of_not_mem (by decide +kernel) hbare

/-- The same quotes and a value between single quotes: the single quotes that take the place of the
double ones end the literal too early. -/
theorem switched_quote_cut_short :
    let line : Text := r#"q("select \"id\" from t where kind='a' and name=" + name)"#
    let q : Query := ⟨2, 56, 34, r#"select \"id\" from t where kind='a' and name=?"#, [utf8 "name"]⟩
    let code : Text := r#"q('select \"id\" from t where kind='a' and name=?', [name])"#
    let lit : Code.Literal := ⟨0, 34, 39, r#"select \"id\" from t where kind="#⟩
    concatenation? line .javaScript = some q ∧
      bind line q .javaScript = [note .javaScript [] (noteText .javaScript), code] ∧
      Code.literalAt? (code.drop q.start) = some lit ∧ lit.content ≠ q.sql := by
  decide +kernel

end Query
end CodeAudit
