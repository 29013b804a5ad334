import CodeAudit.Fix.Query
import CodeAudit.Proofs.Code.Literal
import CodeAudit.Proofs.Text.Lines
import Mathlib.Algebra.Group.Nat.Defs
import Mathlib.Data.List.TakeWhile

/-!
# Joined queries are taken apart without a rest

A query assembled by joining is replaced by one literal. What is replaced must be just what was
read: a literal, and behind it pieces that are joined to it. Each piece is a joint: blanks, an
operator, blanks, and then a literal or an operand. The values of the new query are the operands of
the joints in order, and its text has one placeholder for each of them.

**Joints.** `Joint.Reads` says what a joint is, given the text behind it, with the readers of single
literals and operands only.

**Results.**
* `joinStep?_eq_some`: one step reads one joint from the beginning of its text.
* `joinSteps_eq`: all steps together read joints until no joint follows, since every step goes on.
* `bind_eq`: the new literal takes the place of the query, and the line around it stays.
* `concatenation_joined`: what this makes of a query found in any line.
-/
namespace CodeAudit

/-- What is joined: a literal, by its quote and its content, or an operand. -/
inductive Joined where
  | literal (quote : UInt8) (content : Text)
  | operand (expr : Text)
  deriving DecidableEq, Repr

/-- A joined piece with the operator before it and the blanks around that. -/
structure Joint where
  lead : Text
  operator : UInt8
  gap : Text
  item : Joined
  deriving DecidableEq, Repr

namespace Joint

/-- The text of a joined piece. -/
def itemText : Joined → Text
  | .literal q c => q :: c ++ [q]
  | .operand e => e

/-- The text of a joint. -/
def text (j : Joint) : Text := j.lead ++ j.operator :: (j.gap ++ itemText j.item)

/-- The operand of a joint, if it has one. -/
def operand? (j : Joint) : Option Text :=
  match j.item with
  | .literal _ _ => none
  | .operand e => some e

/-- What a joint adds to the query: the content of a literal, or a placeholder for an operand. -/
def sql (placeholder : Text) (j : Joint) : Text :=
  match j.item with
  | .literal _ c => c
  | .operand _ => placeholder

/-- The step that reads a joint. -/
def step (j : Joint) : JoinStep :=
  match j.item with
  | .literal _ c => .content j.text.length c
  | .operand e => .operand j.text.length e

@[simp] theorem len_step (j : Joint) : j.step.len = j.text.length := by
  unfold step
  split <;> rfl

@[simp] theorem sql_step (j : Joint) (placeholder : Text) :
    j.step.sql placeholder = j.sql placeholder := by
  unfold step sql
  split <;> rfl

@[simp] theorem arg?_step (j : Joint) : j.step.arg? = j.operand? := by
  unfold step operand?
  split <;> rfl

theorem text_length_pos (j : Joint) : 0 < j.text.length := by
  simp only [text, List.length_append, List.length_cons]
  omega

/-- The joined piece is read from the text that starts with it. -/
def ItemReads (dots : Bool) (item : Joined) (rest : Text) : Prop :=
  match item with
  | .literal q c => Code.isStringQuote q = true ∧
      Code.literalAt? (itemText item ++ rest) = some ⟨0, c.length + 2, q, c⟩
  | .operand e => Code.operand? dots (itemText item ++ rest) = some e

/-- The joint is blanks, an operator, blanks and a piece that is read from there when `rest`
follows. A point is an operator where `dots` says so. -/
structure Reads (dots : Bool) (j : Joint) (rest : Text) : Prop where
  lead : ∀ b ∈ j.lead, Text.isSpaceOrTab b = true
  operator : j.operator = 43 ∨ dots = true ∧ j.operator = 46
  gap : ∀ b ∈ j.gap, Text.isSpaceOrTab b = true
  item : ItemReads dots j.item rest

/-- Joints one after another, each read with all that follows it. -/
def ReadsAll (dots : Bool) : List Joint → Text → Prop
  | [], _ => True
  | j :: js, rest => j.Reads dots (js.flatMap text ++ rest) ∧ ReadsAll dots js rest

end Joint

namespace Query

/-! ## One step -/

theorem take_blanks (t : Text) : t.take (blanks t) = t.takeWhile Text.isSpaceOrTab :=
  (List.prefix_iff_eq_take.1 (List.takeWhile_prefix _)).symm

theorem blanks_le (t : Text) : blanks t ≤ t.length := (List.takeWhile_prefix _).length_le

theorem isSpaceOrTab_of_mem_blanks {t : Text} :
    ∀ b ∈ t.take (blanks t), Text.isSpaceOrTab b = true := by
  intro b hb
  rw [take_blanks] at hb
  exact List.mem_takeWhile_imp hb

theorem itemReads_literal (dots : Bool) {v : Text} {lit : Code.Literal}
    (h : Code.literalAt? v = some lit) (hquote : v.head?.any Code.isStringQuote = true) :
    let item := Joined.literal lit.quote lit.content
    v = Joint.itemText item ++ v.drop lit.stop ∧ Joint.ItemReads dots item (v.drop lit.stop) ∧
      (Joint.itemText item).length = lit.stop := by
  obtain ⟨htext, hstart, hstop⟩ := Code.eq_of_literalAt? h
  rw [← hstop] at htext
  refine ⟨htext, ⟨?_, ?_⟩, hstop.symm⟩
  · rw [htext] at hquote
    simpa [Code.Literal.text] using hquote
  · obtain ⟨start, stop, quote, content⟩ := lit
    have hlen : stop = content.length + 2 := by simpa [Code.Literal.text] using hstop
    obtain rfl : start = 0 := hstart
    rw [← hlen, ← h]
    exact congrArg Code.literalAt? htext.symm

theorem itemReads_operand {dots : Bool} {v e : Text} (h : Code.operand? dots v = some e) :
    v = Joint.itemText (.operand e) ++ v.drop e.length ∧
      Joint.ItemReads dots (.operand e) (v.drop e.length) := by
  obtain ⟨htext, -⟩ := Code.eq_of_operand? h
  refine ⟨htext, ?_⟩
  rw [Joint.ItemReads, Joint.itemText, ← htext]
  exact h

/-- Blanks, an operator and blanks before a piece that can be read make a joint. -/
theorem reads_joint {dots : Bool} {t u rest : Text} {op : UInt8} {item : Joined}
    (ht : t.drop (blanks t) = op :: u) (hop : op = 43 ∨ dots = true ∧ op = 46)
    (hu : u.drop (blanks u) = Joint.itemText item ++ rest)
    (hitem : Joint.ItemReads dots item rest) :
    let j : Joint := ⟨t.take (blanks t), op, u.take (blanks u), item⟩
    t = j.text ++ rest ∧ j.Reads dots rest ∧
      j.text.length = blanks t + 1 + blanks u + (Joint.itemText item).length := by
  intro j
  refine ⟨?_, ⟨isSpaceOrTab_of_mem_blanks, hop, isSpaceOrTab_of_mem_blanks, hitem⟩, ?_⟩
  · calc t = t.take (blanks t) ++ op :: u := by rw [← ht, List.take_append_drop]
      _ = t.take (blanks t) ++ op :: (u.take (blanks u) ++ (Joint.itemText item ++ rest)) := by
        rw [← hu, List.take_append_drop]
      _ = j.text ++ rest := by simp [j, Joint.text]
  · simp only [j, Joint.text, List.length_append, List.length_cons,
      List.length_take_of_le (blanks_le t), List.length_take_of_le (blanks_le u)]
    omega

/-- What a step reads is a joint at the beginning of its text. -/
theorem joinStep?_eq_some {dots : Bool} {t : Text} {s : JoinStep} (h : joinStep? dots t = some s) :
    ∃ (j : Joint) (rest : Text), s = j.step ∧ t = j.text ++ rest ∧ j.Reads dots rest := by
  unfold joinStep? at h
  simp only at h
  split at h
  · cases h
  rename_i op u ht
  split at h
  · cases h
  rename_i hop
  have hop : op = 43 ∨ dots = true ∧ op = 46 := by simpa [or_iff_not_imp_left] using hop
  split at h
  · cases h
  split at h
  · rename_i hquote
    obtain ⟨lit, hlit, rfl⟩ := Option.map_eq_some_iff.1 h
    obtain ⟨htext, hitem, hstop⟩ := itemReads_literal dots hlit hquote
    obtain ⟨hjoint, hreads, hlen⟩ := reads_joint ht hop htext hitem
    refine ⟨_, _, ?_, hjoint, hreads⟩
    simp only [Joint.step, hlen, hstop]
  · obtain ⟨e, he, rfl⟩ := Option.map_eq_some_iff.1 h
    obtain ⟨htext, hitem⟩ := itemReads_operand he
    obtain ⟨hjoint, hreads, hlen⟩ := reads_joint ht hop htext hitem
    refine ⟨_, _, ?_, hjoint, hreads⟩
    simp only [Joint.step, hlen, Joint.itemText]

/-- Every step goes on, and not beyond the text. -/
theorem len_of_joinStep? {dots : Bool} {t : Text} {s : JoinStep} (h : joinStep? dots t = some s) :
    0 < s.len ∧ s.len ≤ t.length := by
  obtain ⟨j, rest, rfl, rfl, -⟩ := joinStep?_eq_some h
  rw [Joint.len_step, List.length_append]
  exact ⟨j.text_length_pos, Nat.le_add_right _ _⟩

/-! ## All steps -/

theorem joinStep?_nil (dots : Bool) : joinStep? dots [] = none := rfl

/-- The steps read joints until no joint follows: they never stop for having taken too many
steps. -/
theorem joinSteps_eq (dots : Bool) : ∀ {fuel : Nat} {t : Text}, t.length ≤ fuel →
    ∃ (js : List Joint) (rest : Text), joinSteps dots fuel t = js.map Joint.step ∧
      t = js.flatMap Joint.text ++ rest ∧ Joint.ReadsAll dots js rest ∧
        joinStep? dots rest = none := by
  intro fuel
  induction fuel with
  | zero =>
    intro t ht
    obtain rfl := List.length_eq_zero_iff.1 (Nat.le_zero.1 ht)
    exact ⟨[], [], rfl, rfl, trivial, joinStep?_nil dots⟩
  | succ fuel ih =>
    intro t ht
    rw [joinSteps]
    cases hs : joinStep? dots t with
    | none => exact ⟨[], t, rfl, rfl, trivial, hs⟩
    | some s =>
      have hlen := len_of_joinStep? hs
      obtain ⟨j, behind, rfl, rfl, hreads⟩ := joinStep?_eq_some hs
      have hdrop : (j.text ++ behind).drop j.step.len = behind := by
        rw [Joint.len_step, List.drop_left]
      have hfuel : behind.length ≤ fuel := by
        rw [Joint.len_step] at hlen
        rw [List.length_append] at ht
        omega
      obtain ⟨js, rest, hsteps, rfl, hall, hnone⟩ := ih hfuel
      refine ⟨j :: js, rest, ?_, ?_, ⟨hreads, hall⟩, hnone⟩
      · simp only [hdrop, hsteps, List.map_cons]
      · rw [List.flatMap_cons, List.append_assoc]

theorem foldr_len_steps (js : List Joint) :
    (js.map Joint.step).foldr (·.len + ·) 0 = (js.flatMap Joint.text).length := by
  induction js with
  | nil => rfl
  | cons j js ih =>
    rw [List.map_cons, List.foldr_cons, ih, Joint.len_step, List.flatMap_cons, List.length_append]

theorem sql_steps (placeholder : Text) (js : List Joint) :
    (js.map Joint.step).flatMap (JoinStep.sql placeholder) =
      js.flatMap (Joint.sql placeholder) := by
  rw [List.flatMap_map]
  simp

theorem args_steps (js : List Joint) :
    (js.map Joint.step).filterMap JoinStep.arg? = js.filterMap Joint.operand? := by
  rw [List.filterMap_map]
  congr
  funext j
  exact j.arg?_step

/-! ## The query -/

/-- The query stands in a line where a literal and joints behind it do, and it is made of them: its
values are the operands, and its text has the contents of the literals with a placeholder for each
operand. -/
structure Assembled (q : Query) (line : Text) (l : Language) (first : Code.Literal)
    (js : List Joint) :
    Prop where
  start_lt : q.start < q.stop
  stop_le : q.stop ≤ line.length
  mem_literals : first ∈ Code.literals line
  start_eq : q.start = first.start
  quote_eq : q.quote = first.quote
  slice_eq : line.slice q.start q.stop = first.text ++ js.flatMap Joint.text
  reads : Joint.ReadsAll (l == .php) js (line.drop q.stop)
  args_eq : q.args = js.filterMap Joint.operand?
  args_ne : q.args ≠ []
  sql_eq : q.sql =
    unquotePlaceholders (first.content ++ js.flatMap (Joint.sql (placeholder l))) (placeholder l)
  /-- No joint follows. -/
  ended : joinStep? (l == .php) (line.drop q.stop) = none

theorem assembled_of_joinedAt? {line : Text} {l : Language} {lit : Code.Literal} {q : Query}
    (hlit : lit ∈ Code.literals line) (h : joinedAt? line l lit = some q) :
    ∃ js, q.Assembled line l lit js := by
  unfold joinedAt? at h
  split at h
  · cases h
  obtain ⟨js, rest, hsteps, hdrop, hreads, hnone⟩ :=
    joinSteps_eq (l == .php) (show (line.drop lit.stop).length ≤ line.length by
      rw [List.length_drop]; omega)
  simp only [hsteps, args_steps, sql_steps, foldr_len_steps] at h
  split at h
  · cases h
  rename_i hargs
  obtain rfl := Option.some.inj h
  obtain ⟨hslice, hlt, hle⟩ := Code.slice_of_mem_literals hlit
  have hlen := congrArg List.length hdrop
  rw [List.length_drop, List.length_append] at hlen
  have hrest : line.drop (lit.stop + (js.flatMap Joint.text).length) = rest := by
    rw [← List.drop_drop, hdrop, List.drop_left]
  have htail : line.slice lit.stop (lit.stop + (js.flatMap Joint.text).length)
      = js.flatMap Joint.text := by
    rw [Text.slice, hdrop, Nat.add_sub_cancel_left, List.take_left]
  refine ⟨js, ?_, ?_, hlit, rfl, rfl, ?_, ?_, rfl, by simpa using hargs, rfl, ?_⟩
  · simp only
    omega
  · simp only
    omega
  · simp only
    rw [← Text.slice_append_slice line (Nat.le_of_lt hlt) (Nat.le_add_right _ _), hslice, htail]
  · simp only [hrest]
    exact hreads
  · simp only [hrest]
    exact hnone

/-! ## The new line -/

/-- The literal that takes the place of a query. -/
def boundLiteral (q : Query) : Text :=
  chooseQuote q.quote q.sql :: q.sql ++ [chooseQuote q.quote q.sql]

/-- The line keeps all that stands before and behind the query. The values are the next argument
behind the new literal, or they are declared on lines of their own. -/
theorem bind_eq (line : Text) (q : Query) (l : Language) :
    ∃ (values : Text) (more : List Text),
      bind line q l = note l line.indent (noteText l) ::
        (line.take q.start ++ q.boundLiteral ++ values ++ line.drop q.stop) :: more ∧
      (values = utf8 ", " ++ paramsExpr q.args l ∧ more = [] ∨
        values = [] ∧ more = (paramLines q.args l).map (line.indent ++ ·)) := by
  unfold bind
  simp only
  split
  · refine ⟨utf8 ", " ++ paramsExpr q.args l, [], ?_, Or.inl ⟨rfl, rfl⟩⟩
    simp [boundHead, boundLiteral]
  · refine ⟨[], _, ?_, Or.inr ⟨rfl, rfl⟩⟩
    simp [boundHead, boundLiteral]

/-- A query that is found is assembled from a literal and joints of its line, and binding its values
replaces just these. In any text every step goes on, and the steps end where no joint follows. -/
theorem concatenation_joined (line : Text) (l : Language) :
    (∀ q, concatenation? line l = some q →
      (∃ first js, q.Assembled line l first js) ∧
      ∃ (values : Text) (more : List Text),
        bind line q l = note l line.indent (noteText l) ::
          (line.take q.start ++ q.boundLiteral ++ values ++ line.drop q.stop) :: more ∧
        (values = utf8 ", " ++ paramsExpr q.args l ∧ more = [] ∨
          values = [] ∧ more = (paramLines q.args l).map (line.indent ++ ·))) ∧
    (∀ t s, joinStep? (l == .php) t = some s → 0 < s.len ∧ s.len ≤ t.length) ∧
    ∀ (t : Text) (fuel : Nat), t.length ≤ fuel →
      joinStep? (l == .php) (t.drop ((joinSteps (l == .php) fuel t).foldr (·.len + ·) 0)) =
        none := by
  refine ⟨fun q hq => ⟨?_, bind_eq line q l⟩, fun t s hs => len_of_joinStep? hs,
    fun t fuel hfuel => ?_⟩
  · obtain ⟨lit, hlit, hjoined⟩ := List.exists_of_findSome?_eq_some hq
    exact ⟨lit, assembled_of_joinedAt? hlit hjoined⟩
  · obtain ⟨js, rest, hsteps, rfl, -, hnone⟩ := joinSteps_eq (l == .php) hfuel
    rw [hsteps, foldr_len_steps, List.drop_left]
    exact hnone

/-- A quoted value, a literal that only closes the quote, and a call with an argument: two values,
and a placeholder without quotes around it. -/
theorem joined_call_taken_apart :
    let line : Text := "q(\"delete from t where a='\" . $r['x'] . \"'\" . f(1))"
    ∃ q, concatenation? line .php = some q ∧ (∃ first js, q.Assembled line .php first js) ∧
      q.args = [utf8 "$r['x']", utf8 "f(1)"] ∧ q.sql = utf8 "delete from t where a=??" ∧
      line.take q.start = utf8 "q(" ∧ line.drop q.stop = utf8 ")" := by
  intro line
  have hliterals : Code.literals line = [⟨2, 27, 34, utf8 "delete from t where a='"⟩,
      ⟨33, 36, 39, utf8 "x"⟩, ⟨40, 43, 34, utf8 "'"⟩] := by decide +kernel
  have hstatement : statement.matchesIn (utf8 "delete from t where a='") = true := by decide +kernel
  have hsteps : joinSteps true line.length (line.drop 27) =
      [.operand 10 (utf8 "$r['x']"), .content 6 (utf8 "'"), .operand 7 (utf8 "f(1)")] := by
        decide +kernel
  have hplain : isFormatted line 2 = false := by decide +kernel
  have hq : concatenation? line .php = some ⟨2, 50, 34, utf8 "delete from t where a=??",
      [utf8 "$r['x']", utf8 "f(1)"]⟩ := by
    rw [concatenation?, hliterals, List.findSome?_cons, joinedAt?]
    simp only [hstatement, hplain, show (Language.php == Language.php) = true from rfl, hsteps]
    decide +kernel
  exact ⟨_, hq, ((concatenation_joined line .php).1 _ hq).1, rfl, rfl, by decide +kernel,
    by decide +kernel⟩

end Query
end CodeAudit
