import CodeAudit.Code.Expression
import CodeAudit.Proofs.Text.Lines
import CodeAudit.Proofs.Text.Trimming

/-!
# Argument lists

An argument list is split at its top-level commas. A reader of it goes through modes: outside of
literals, in a literal, or behind a backslash there, and in all of them at some depth of brackets,
which may be negative. A comma is a top-level one where the reader is outside of literals at depth
0. The pieces between these commas are trimmed, and the white space that goes with it is read
without any change of mode. So the arguments can be put together again, and they are split at the
same commas.

**Modes.** `Mode.next` is one step of the reader, `Mode.after` a whole text, and `Mode.Whole` says
that a text has no top-level comma.

**Results.**
* `arguments_eq`: the arguments are the trimmed pieces, without a blank one at the end.
* `Listed.arguments_join`: what comes out when arguments are joined and split again.
* `arguments_rejoin`: the same arguments, unless the last of them is empty.
-/
namespace CodeAudit.Code

/-- A quote that opens a string literal. -/
structure Quote where
  byte : UInt8
  isQuote : isStringQuote byte = true
  deriving DecidableEq

/-- An opening bracket. -/
def isOpening (b : UInt8) : Bool := b == 40 || b == 91 || b == 123

/-- A closing bracket. -/
def isClosing (b : UInt8) : Bool := b == 41 || b == 93 || b == 125

/-- Where a reader of arguments is: outside of literals, in a literal, or behind a backslash in
it. -/
inductive Mode where
  | plain (depth : Int)
  | quoted (quote : Quote) (depth : Int)
  | escaped (quote : Quote) (depth : Int)
  deriving DecidableEq

namespace Mode

/-- Outside of literals and brackets, where a list starts. -/
def top : Mode := plain 0

/-- The mode behind a byte. -/
def next : Mode → UInt8 → Mode
  | plain d, b =>
    if h : isStringQuote b = true then quoted ⟨b, h⟩ d
    else if isOpening b then plain (d + 1)
    else if isClosing b then plain (d - 1)
    else plain d
  | quoted q d, b => if b = 92 then escaped q d else if b = q.byte then plain d else quoted q d
  | escaped q d, _ => quoted q d

/-- The mode behind a text. -/
def after (m : Mode) (t : Text) : Mode := t.foldl next m

/-- No comma of the text is a top-level one. -/
def Whole (m : Mode) (t : Text) : Prop := ∀ pre post, t = pre ++ 44 :: post → m.after pre ≠ top

@[simp] theorem after_nil (m : Mode) : m.after [] = m := rfl

@[simp] theorem after_cons (m : Mode) (b : UInt8) (t : Text) :
    m.after (b :: t) = (m.next b).after t := rfl

theorem after_append (m : Mode) (s t : Text) :
    m.after (s ++ t) = (m.after s).after t := List.foldl_append

theorem whole_nil (m : Mode) : m.Whole [] := by
  intro pre post h
  simp at h

theorem whole_cons {m : Mode} {b : UInt8} {t : Text} :
    m.Whole (b :: t) ↔ ¬ (b = 44 ∧ m = top) ∧ (m.next b).Whole t := by
  constructor
  · intro h
    refine ⟨?_, fun pre post ht => h (b :: pre) post (by rw [ht, List.cons_append])⟩
    rintro ⟨rfl, rfl⟩
    exact h [] t rfl rfl
  · rintro ⟨hb, ht⟩ pre post heq
    cases pre with
    | nil =>
      obtain ⟨rfl, rfl⟩ := List.cons.inj heq
      exact fun hm => hb ⟨rfl, hm⟩
    | cons c pre =>
      obtain ⟨rfl, rfl⟩ := List.cons.inj heq
      exact ht pre post rfl

theorem whole_append {m : Mode} {s t : Text} :
    m.Whole (s ++ t) ↔ m.Whole s ∧ (m.after s).Whole t := by
  induction s generalizing m with
  | nil => simp [whole_nil]
  | cons b s ih => rw [List.cons_append, whole_cons, ih, whole_cons, after_cons, and_assoc]

/-- The first top-level comma of a text, if it has one. -/
theorem whole_or_exists_comma (m : Mode) (t : Text) :
    m.Whole t ∨ ∃ p u, t = p ++ 44 :: u ∧ m.Whole p ∧ m.after p = top := by
  induction t generalizing m with
  | nil => exact Or.inl (whole_nil m)
  | cons b t ih =>
    by_cases hb : b = 44 ∧ m = top
    · obtain ⟨rfl, rfl⟩ := hb
      exact Or.inr ⟨[], t, rfl, whole_nil top, rfl⟩
    rcases ih (m.next b) with h | ⟨p, u, rfl, hp, hclosed⟩
    · exact Or.inl (whole_cons.2 ⟨hb, h⟩)
    · exact Or.inr ⟨b :: p, u, rfl, whole_cons.2 ⟨hb, hp⟩, hclosed⟩

/-! ## The reader of arguments -/

/-- The arguments of what is left of a list, `piece` being read, last byte first. -/
def read : Mode → Text → Text → List Text
  | plain d, piece, t => argumentsFrom none d piece t
  | quoted q d, piece, t => argumentsFrom (some q.byte) d piece t
  | escaped q d, piece, [] => argumentsFrom (some q.byte) d piece []
  | escaped q d, piece, c :: t => argumentsFrom (some q.byte) d (c :: piece) t

/-- The argument that the last piece stands for. -/
def lastArgument (piece : Text) :
    List Text := if (Text.trim piece).isEmpty then [] else [Text.trim piece]

theorem read_nil (m : Mode) (piece : Text) : m.read piece [] = lastArgument piece.reverse := by
  cases m <;> simp [read, argumentsFrom, lastArgument]

/-- One step of the reader. -/
theorem read_cons (m : Mode) (piece : Text) (b : UInt8) (t : Text) :
    m.read piece (b :: t) = if b = 44 ∧ m = top then Text.trim piece.reverse :: arguments t
      else (m.next b).read (b :: piece) t := by
  cases m with
  | plain d =>
    by_cases hcomma : b = 44 ∧ plain d = top
    · obtain ⟨rfl, hd⟩ := hcomma
      cases hd
      rw [if_pos ⟨rfl, rfl⟩]
      rfl
    have hcut : (b == 44 && d == 0) = false := by
      rw [Bool.and_eq_false_iff]
      simpa [top, ← imp_iff_not_or] using hcomma
    rw [if_neg hcomma, read, argumentsFrom]
    by_cases hquote : isStringQuote b = true
    · rw [if_pos hquote, next, dif_pos hquote, read]
    · rw [if_neg hquote, next, dif_neg hquote, hcut, if_neg Bool.false_ne_true]
      change (if isOpening b = true then _ else if isClosing b = true then _ else _) = _
      by_cases hopening : isOpening b = true
      · rw [if_pos hopening, if_pos hopening, read]
      by_cases hclosing : isClosing b = true
      · rw [if_neg hopening, if_pos hclosing, if_neg hopening, if_pos hclosing, read]
      · rw [if_neg hopening, if_neg hclosing, if_neg hopening, if_neg hclosing, read]
  | quoted q d =>
    rw [if_neg (by simp [top]), read, argumentsFrom.eq_def, next]
    dsimp only
    by_cases hb : b = 92
    · rw [if_pos hb, if_pos hb]
      cases t <;> rfl
    · rw [if_neg hb, if_neg hb]
      by_cases hq : b = q.byte
      · rw [if_pos hq, if_pos hq, read]
      · rw [if_neg hq, if_neg hq, read]
  | escaped q d =>
    rw [if_neg (by simp [top])]
    rfl

/-- A text without top-level commas is read into the piece. -/
theorem read_append {m : Mode} {p : Text} (h : m.Whole p) (piece t : Text) :
    m.read piece (p ++ t) = (m.after p).read (p.reverse ++ piece) t := by
  induction p generalizing m piece with
  | nil => rfl
  | cons b p ih =>
    obtain ⟨hb, hp⟩ := whole_cons.1 h
    rw [List.cons_append, read_cons, if_neg hb, ih hp, after_cons, List.reverse_cons,
      List.append_assoc]
    rfl

/-! ## White space -/

/-- A byte that a reader of arguments passes over, in whatever mode. -/
def isIdle (b : UInt8) :
    Bool := !(isStringQuote b || isOpening b || isClosing b || b == 44 || b == 92)

theorem not_blank_of_not_isIdle {b : UInt8} (h : isIdle b = false) :
    b < 0x80 ∧ isBlank b.toNat = false := by
  simp only [isIdle, isStringQuote, isOpening, isClosing, Bool.not_eq_false', Bool.or_eq_true,
    beq_iff_eq] at h
  rcases h with ((((rfl | rfl) | (rfl | rfl) | rfl) | (rfl | rfl) | rfl) | rfl) | rfl <;> decide

theorem isIdle_of_blank {t : Text} (h : t.isBlankText = true) : ∀ b ∈ t, isIdle b = true := by
  intro b hb
  by_contra hidle
  rw [Bool.not_eq_true] at hidle
  obtain ⟨hascii, hnot⟩ := not_blank_of_not_isIdle hidle
  rw [Text.isBlank_of_mem_isBlankText h hb hascii] at hnot
  cases hnot

theorem next_eq_plain_iff {b : UInt8} (hb : isIdle b = true) (m : Mode) (d : Int) :
    m.next b = plain d ↔ m = plain d := by
  simp only [isIdle, Bool.not_eq_true', Bool.or_eq_false_iff, beq_eq_false_iff_ne] at hb
  obtain ⟨⟨⟨⟨hquote, hopening⟩, hclosing⟩, -⟩, hback⟩ := hb
  cases m with
  | plain e => simp [next, hquote, hopening, hclosing]
  | quoted q e =>
    have hq : b ≠ q.byte := by
      rintro rfl
      rw [q.isQuote] at hquote
      cases hquote
    simp [next, hback, hq]
  | escaped q e => simp [next]

theorem after_eq_plain_iff {t : Text} (ht : ∀ b ∈ t, isIdle b = true) (m : Mode) (d : Int) :
    m.after t = plain d ↔ m = plain d := by
  induction t generalizing m with
  | nil => rfl
  | cons b t ih =>
    obtain ⟨hb, ht⟩ := List.forall_mem_cons.1 ht
    rw [after_cons, ih ht, next_eq_plain_iff hb]

section
variable {t lead core trail : Text} (h : Text.Trims t lead core trail)
include h

/-- Trimming neither takes top-level commas away nor makes any. -/
theorem whole_core (ht : top.Whole t) : top.Whole core := by
  rw [h.text_eq, whole_append, (after_eq_plain_iff (isIdle_of_blank h.lead_blank) top 0).2 rfl,
    ← top, whole_append] at ht
  exact ht.2.1

/-- A text is trimmed outside of its literals when it ends outside of them. -/
theorem after_core (ht : top.after t = top) : top.after core = top := by
  rw [h.text_eq, after_append, (after_eq_plain_iff (isIdle_of_blank h.lead_blank) top 0).2 rfl,
    ← top, after_append] at ht
  exact (after_eq_plain_iff (isIdle_of_blank h.trail_blank) _ 0).1 ht

end

end Mode

/-! ## Pieces -/

open Mode

/-- A list is cut into pieces at its top-level commas. -/
inductive Pieces : Text → List Text → Prop where
  | last {p : Text} (hwhole : top.Whole p) : Pieces p [p]
  | cons {p t : Text} {ps : List Text} (hwhole : top.Whole p) (hclosed : top.after p = top)
    (h : Pieces t ps) :
      Pieces (p ++ 44 :: t) (p :: ps)

theorem Pieces.exists_cons {t : Text} {ps : List Text} (h : Pieces t ps) :
    ∃ p qs, ps = p :: qs := by
  cases h with
  | last => exact ⟨_, _, rfl⟩
  | cons => exact ⟨_, _, rfl⟩

/-- Behind the first piece there is nothing or a comma, so its runes are read as they are without
what follows. -/
theorem Pieces.exists_behind {t p : Text} {ps : List Text} (h : Pieces t (p :: ps)) :
    ∃ u, t = p ++ u ∧ ∀ s : Text, (s ++ u).runes = s.runes ++ u.runes := by
  cases h with
  | last => exact ⟨[], (List.append_nil _).symm, fun s => by simp [Text.runes, Text.runesFrom]⟩
  | @cons _ u => exact ⟨44 :: u, rfl, fun s => Text.runes_append s (by decide) u⟩

theorem exists_pieces (t : Text) : ∃ ps, Pieces t ps := by
  induction hn : t.length using Nat.strongRecOn generalizing t with
  | ind n ih =>
    rcases whole_or_exists_comma top t with h | ⟨p, u, rfl, hp, hclosed⟩
    · exact ⟨[t], .last h⟩
    · have hlt : u.length < n := by
        rw [← hn, List.length_append, List.length_cons]
        omega
      obtain ⟨ps, hps⟩ := ih _ hlt u rfl
      exact ⟨p :: ps, .cons hp hclosed hps⟩

/-- The arguments that pieces stand for; a blank piece at the end stands for none. -/
def argumentsOf : List Text → List Text
  | [] => []
  | [p] => lastArgument p
  | p :: q :: ps => Text.trim p :: argumentsOf (q :: ps)

/-- **Arguments.** The arguments of a list are its trimmed pieces. -/
theorem arguments_eq {t : Text} {ps : List Text} (h : Pieces t ps) :
    arguments t = argumentsOf ps := by
  induction h with
  | @last p hwhole =>
    have hread := read_append hwhole [] []
    rw [List.append_nil, List.append_nil, read_nil, List.reverse_reverse] at hread
    exact hread
  | @cons p t ps hwhole hclosed h ih =>
    have hread := read_append hwhole [] (44 :: t)
    rw [hclosed, read_cons, if_pos ⟨rfl, rfl⟩, List.append_nil, List.reverse_reverse, ih] at hread
    obtain ⟨q, qs, rfl⟩ := h.exists_cons
    exact hread

example : arguments "a), b, (c, ',' d" = [utf8 "a), b, (c", utf8 "',' d"] := by decide +kernel

/-- A space in front of a list belongs to its first piece. -/
theorem Pieces.space {t p : Text} {ps : List Text} (h : Pieces t (p :: ps)) :
    Pieces (32 :: t) ((32 :: p) :: ps) := by
  have hspace : top.next 32 = top := by decide
  have hwhole : ∀ {q : Text}, top.Whole q → top.Whole (32 :: q) := fun hq =>
    whole_cons.2 ⟨by simp, by rwa [hspace]⟩
  cases h with
  | last hp => exact .last (hwhole hp)
  | cons hp hclosed h => exact .cons (hwhole hp) (by rwa [after_cons, hspace]) h

theorem arguments_space (t : Text) : arguments (32 :: t) = arguments t := by
  obtain ⟨ps, h⟩ := exists_pieces t
  obtain ⟨p, qs, rfl⟩ := h.exists_cons
  have htrim : Text.trim (32 :: p) = Text.trim p := Text.trim_blank_cons (by decide) (by decide) p
  rw [arguments_eq h.space, arguments_eq h]
  cases qs with
  | nil => rw [argumentsOf, argumentsOf, lastArgument, lastArgument, htrim]
  | cons q qs => rw [argumentsOf, argumentsOf, htrim]

/-! ## Arguments that are joined again -/

/-- Texts that can stand in a list one after another: without white space around them and without
top-level commas, and all but the last end outside of literals and brackets. -/
inductive Listed : List Text → Prop where
  | nil : Listed []
  | last {a : Text} (hwhole : top.Whole a) (htrim : Text.trim a = a) : Listed [a]
  | cons {a : Text} {as : List Text} (hwhole : top.Whole a) (hclosed : top.after a = top)
    (htrim : Text.trim a = a)
      (h : Listed as) : Listed (a :: as)

theorem listed_lastArgument {p : Text} (hwhole : top.Whole p) : Listed (lastArgument p) := by
  obtain ⟨lead, trail, h⟩ := Text.exists_trims p
  unfold lastArgument
  split
  · exact .nil
  · exact .last (whole_core h hwhole) (Text.trim_trim p)

/-- The arguments of a list can stand in a list. -/
theorem Pieces.listed {t : Text} {ps : List Text} (h : Pieces t ps) : Listed (argumentsOf ps) := by
  induction h with
  | last hwhole => exact listed_lastArgument hwhole
  | @cons p t ps hwhole hclosed h ih =>
    obtain ⟨q, qs, rfl⟩ := h.exists_cons
    obtain ⟨lead, trail, htrims⟩ := Text.exists_trims p
    exact .cons (whole_core htrims hwhole) (after_core htrims hclosed) (Text.trim_trim p) ih

theorem arguments_single {a : Text} (hwhole : top.Whole a) (htrim : Text.trim a = a) :
    arguments a = if [a].getLast? = some [] then [] else [a] := by
  rw [arguments_eq (.last hwhole), argumentsOf, lastArgument, htrim]
  simp [List.isEmpty_iff]

theorem arguments_join_cons {a : Text} {as : List Text} (hwhole : top.Whole a)
    (hclosed : top.after a = top) (htrim : Text.trim a = a) (hne : as ≠ []) :
    arguments (Text.join ", " (a :: as)) = a :: arguments (Text.join ", " as) := by
  have hsep : utf8 ", " = [44, 32] := by decide +kernel
  obtain ⟨ps, hps⟩ := exists_pieces (32 :: Text.join ", " as)
  have hpieces := Pieces.cons hwhole hclosed hps
  obtain ⟨q, qs, rfl⟩ := hps.exists_cons
  have hjoin : Text.join ", " (a :: as) = a ++ 44 :: 32 :: Text.join ", " as := by
    rw [Text.join_cons_of_ne_nil _ _ hne, hsep]
    simp
  rw [hjoin, arguments_eq hpieces, argumentsOf, htrim, ← arguments_eq hps, arguments_space]

/-- Texts that can stand in a list are its arguments once they are joined, without an empty one at
the end. -/
theorem Listed.arguments_join {as : List Text} (h : Listed as) :
    arguments (Text.join ", " as) = if as.getLast? = some [] then as.dropLast else as := by
  induction h with
  | nil => rfl
  | last hwhole htrim => exact arguments_single hwhole htrim
  | @cons a as hwhole hclosed htrim h ih =>
    by_cases hne : as = []
    · subst hne
      exact arguments_single hwhole htrim
    · rw [arguments_join_cons hwhole hclosed htrim hne, ih, List.getLast?_cons_of_ne_nil hne,
        List.dropLast_cons_of_ne_nil hne]
      split <;> rfl

theorem Listed.arguments_join_eq_self_iff {as : List Text} (h : Listed as) :
    arguments (Text.join ", " as) = as ↔ as.getLast? ≠ some [] := by
  rw [h.arguments_join]
  split
  · rename_i hlast
    refine iff_of_false (fun heq => ?_) (fun hne => hne hlast)
    -- one argument is lost
    have hne : as ≠ [] := by
      intro hnil
      rw [hnil] at hlast
      cases hlast
    have hlen := congrArg List.length heq
    rw [List.length_dropLast] at hlen
    have := List.length_pos_of_ne_nil hne
    omega
  · rename_i hlast
    exact iff_of_true rfl hlast

/-- **Joining and splitting.** The arguments of any list are its trimmed pieces. Joined by commas
they are split into the same arguments again, whatever literals and brackets they have, exactly
unless the last of them is empty. -/
theorem arguments_rejoin (t : Text) : ∃ ps, Pieces t ps ∧ arguments t = argumentsOf ps ∧
    (arguments (Text.join ", " (arguments t)) = arguments t ↔
      (arguments t).getLast? ≠ some []) := by
  obtain ⟨ps, h⟩ := exists_pieces t
  have hlisted : Listed (arguments t) := by
    rw [arguments_eq h]
    exact h.listed
  exact ⟨ps, h, arguments_eq h, hlisted.arguments_join_eq_self_iff⟩

end CodeAudit.Code
