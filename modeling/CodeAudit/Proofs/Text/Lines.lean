import CodeAudit.Text.Basic

/-!
# Lines of a text

Splitting a text at its line feeds and joining lines with line feeds undo each other, as long as no
line holds a line feed itself and there is at least one line.

**Results.**
* `lines_append_newline`: two texts with a line feed between them have the lines of both.
* `lines_unlines`, `unlines_append`: lines joined and split again, and lines joined in two parts.
* `lines_around`: a piece of a text touches no lines but those it stands on.
* `count_newline_unlines`: a text of lines has one line feed fewer than lines.
-/
namespace CodeAudit
namespace Text

theorem splitOn_append_sep (sep : UInt8) (s t : Text) :
    splitOn sep (s ++ sep :: t) = splitOn sep s ++ splitOn sep t := by
  induction s with
  | nil => simp [splitOn]
  | cons b s ih =>
    by_cases hb : b = sep
    · simp only [List.cons_append, splitOn, hb, if_true, ih]
    · simp only [List.cons_append, splitOn, hb, if_false, ih]
      cases hs : splitOn sep s with
      | nil => exact absurd hs (splitOn_ne_nil sep s)
      | cons l ls => rfl

theorem splitOn_of_not_mem {sep : UInt8} {t : Text} (h : sep ∉ t) : splitOn sep t = [t] := by
  induction t with
  | nil => rfl
  | cons b t ih =>
    obtain ⟨hb, ht⟩ := not_or.1 (mt List.mem_cons.2 h)
    rw [splitOn, if_neg (Ne.symm hb), ih ht]

theorem sep_not_mem_splitOn (sep : UInt8) (t : Text) : ∀ l ∈ splitOn sep t, sep ∉ l := by
  induction t with
  | nil => simp [splitOn]
  | cons b t ih =>
    rw [splitOn]
    split
    · intro l hl
      rcases List.mem_cons.1 hl with rfl | hl
      · exact List.not_mem_nil
      · exact ih l hl
    · rename_i hb
      cases hs : splitOn sep t with
      | nil => exact absurd hs (splitOn_ne_nil sep t)
      | cons x ls =>
        rw [hs] at ih
        intro l hl
        rcases List.mem_cons.1 hl with rfl | hl
        · intro hmem
          rcases List.mem_cons.1 hmem with heq | hmem
          · exact hb heq.symm
          · exact ih x List.mem_cons_self hmem
        · exact ih l (List.mem_cons_of_mem x hl)

theorem join_cons_of_ne_nil (sep l : Text) {ls : List Text} (h : ls ≠ []) :
    join sep (l :: ls) = l ++ sep ++ join sep ls := by
  cases ls with
  | nil => exact absurd rfl h
  | cons x ls => rfl

/-! ## Lines -/

theorem lines_ne_nil (t : Text) : t.lines ≠ [] := splitOn_ne_nil newline t

theorem newline_not_mem_lines {t l : Text} (h : l ∈ t.lines) : newline ∉ l :=
  sep_not_mem_splitOn newline t l h

/-- Two texts with a line feed between them have the lines of both. -/
theorem lines_append_newline (s t : Text) : lines (s ++ newline :: t) = s.lines ++ t.lines :=
  splitOn_append_sep newline s t

theorem unlines_cons (l : Text) {ls : List Text} (h : ls ≠ []) :
    unlines (l :: ls) = l ++ newline :: unlines ls := by
  unfold unlines
  rw [join_cons_of_ne_nil _ l h, List.append_assoc]
  rfl

theorem unlines_append {as bs : List Text} (ha : as ≠ []) (hb : bs ≠ []) :
    unlines (as ++ bs) = unlines as ++ newline :: unlines bs := by
  induction as with
  | nil => exact absurd rfl ha
  | cons a as ih =>
    cases as with
    | nil => exact unlines_cons a hb
    | cons x as =>
      rw [List.cons_append, unlines_cons a (by simp), ih (by simp), unlines_cons a (by simp),
        List.append_assoc, List.cons_append]

/-- A line cut in two leaves the first part behind the lines before it, and the second in front of
those after. -/
theorem unlines_append_cons (before : List Text) (s t : Text) (behind : List Text) :
    unlines (before ++ (s ++ t) :: behind) = unlines (before ++ [s]) ++ unlines (t :: behind) := by
  induction before with
  | nil =>
    cases behind with
    | nil => rfl
    | cons b behind => simp [unlines, join]
  | cons b before ih =>
    have hne : ∀ (x : Text) (xs : List Text), before ++ x :: xs ≠ [] := fun x xs =>
      List.append_ne_nil_of_right_ne_nil before (List.cons_ne_nil x xs)
    rw [List.cons_append, unlines_cons _ (hne _ _), ih, List.cons_append, unlines_cons _ (hne _ _),
      List.append_assoc]
    rfl

theorem unlines_cons_eq (s : Text) (behind : List Text) :
    unlines (s :: behind) = s ++ unlines ([] :: behind) := by
  have h := unlines_append_cons [] s [] behind
  rwa [List.append_nil] at h

theorem lines_unlines {ls : List Text} (hne : ls ≠ []) (h : ∀ l ∈ ls, newline ∉ l) :
    lines (unlines ls) = ls := by
  induction ls with
  | nil => exact absurd rfl hne
  | cons l ls ih =>
    cases ls with
    | nil => exact splitOn_of_not_mem (h l (by simp))
    | cons x ls =>
      have hl : lines l = [l] := splitOn_of_not_mem (h l (by simp))
      rw [unlines_cons l (by simp), lines_append_newline, hl,
        ih (by simp) fun y hy => h y (List.mem_cons_of_mem l hy)]
      rfl

/-! ## The lines that a piece of a text takes up -/

/-- What a text ends with, from its last line feed on. -/
def lastLine (t : Text) : Text := t.lines.getLastD []

/-- What a text starts with, up to its first line feed. -/
def firstLine (t : Text) : Text := t.lines.headD []

/-- What stands in front of the last line of a text has its lines, whatever follows. -/
theorem lines_append_eq_left (s t : Text) :
    lines (s ++ t) = s.lines.dropLast ++ lines (lastLine s ++ t) := by
  by_cases h : newline ∈ s
  · -- reversed, because the last line feed of the text is the one that counts
    obtain ⟨after, before, hs, hafter⟩ := List.eq_append_cons_of_mem (List.mem_reverse.2 h)
    have hs : s = before.reverse ++ newline :: after.reverse := by
      rw [← List.reverse_reverse s, hs]
      simp
    have hlast : lines after.reverse = [after.reverse] :=
      splitOn_of_not_mem (mt List.mem_reverse.1 hafter)
    have hlines : lines s = lines before.reverse ++ [after.reverse] := by
      rw [hs, lines_append_newline, hlast]
    rw [lastLine, hlines, List.dropLast_concat, List.getLastD_concat, ← lines_append_newline]
    simp [hs]
  · have hlines : lines s = [s] := splitOn_of_not_mem h
    rw [lastLine, hlines]
    rfl

theorem lines_append_eq_right (s t : Text) :
    lines (s ++ t) = lines (s ++ firstLine t) ++ t.lines.tail := by
  by_cases h : newline ∈ t
  · obtain ⟨before, after, ht, hbefore⟩ := List.eq_append_cons_of_mem h
    have hlines : lines t = before :: lines after := by
      rw [ht, lines_append_newline, show lines before = [before] from splitOn_of_not_mem hbefore]
      rfl
    rw [firstLine, hlines, List.headD_cons, List.tail_cons, ← lines_append_newline]
    simp [ht]
  · have hlines : lines t = [t] := splitOn_of_not_mem h
    rw [firstLine, hlines]
    simp

/-- A piece of a text changes the lines it stands on, and leaves those before and after it. -/
theorem lines_around (s mid t : Text) : lines (s ++ mid ++ t) =
    s.lines.dropLast ++ lines (lastLine s ++ mid ++ firstLine t) ++ t.lines.tail := by
  rw [List.append_assoc, lines_append_eq_left, ← List.append_assoc, lines_append_eq_right,
    List.append_assoc s.lines.dropLast]

/-- The lines that end in front of byte `i`. -/
def linesBefore (t : Text) (i : Nat) : List Text := (lines (t.take i)).dropLast

/-- The lines that start behind byte `j`. -/
def linesAfter (t : Text) (j : Nat) : List Text := (lines (t.drop j)).tail

/-- The lines that the bytes of a text from `i` to `j` stand on. -/
def linesAt (t : Text) (i j : Nat) : List Text :=
  lines (lastLine (t.take i) ++ slice t i j ++ firstLine (t.drop j))

theorem take_append_slice_append_drop (t : Text) {i j : Nat} (h : i ≤ j) :
    t.take i ++ slice t i j ++ t.drop j = t := by
  have hdrop : t.drop j = (t.drop i).drop (j - i) := by
    rw [List.drop_drop, Nat.add_sub_of_le h]
  rw [slice, hdrop, List.append_assoc, List.take_append_drop, List.take_append_drop]

theorem slice_append_slice (t : Text) {a b c : Nat} (hab : a ≤ b) (hbc : b ≤ c) :
    t.slice a b ++ t.slice b c = t.slice a c := by
  unfold slice
  have hlen : c - a = b - a + (c - b) := by omega
  rw [hlen, List.take_add, List.drop_drop, Nat.add_sub_cancel' hab]

theorem lines_eq_linesAt (t : Text) {i j : Nat} (h : i ≤ j) :
    t.lines = t.linesBefore i ++ t.linesAt i j ++ t.linesAfter j := by
  conv => lhs; rw [← take_append_slice_append_drop t h]
  exact lines_around _ _ _

/-! ## Counting line feeds -/

theorem count_append (b : UInt8) (s t : Text) : count b (s ++ t) = count b s + count b t :=
  List.countP_append

theorem count_eq_zero_of_not_mem {b : UInt8} {t : Text} (h : b ∉ t) : count b t = 0 := by
  unfold count
  rw [List.countP_eq_zero]
  intro c hc heq
  rw [beq_iff_eq] at heq
  exact h (heq ▸ hc)

theorem count_le_of_sublist {s t : Text} (b : UInt8) (h : s.Sublist t) : count b s ≤ count b t :=
  h.countP_le

theorem dropSuffix_sublist (t p : Text) : (dropSuffix t p).Sublist t := by
  unfold dropSuffix
  split
  · exact List.take_sublist _ t
  · exact List.Sublist.refl t

theorem slice_sublist (t : Text) (i j : Nat) : (slice t i j).Sublist t :=
  (List.take_sublist _ _).trans (List.drop_sublist i t)

theorem count_newline_unlines {ls : List Text} (h : ∀ l ∈ ls, newline ∉ l) :
    count newline (unlines ls) = ls.length - 1 := by
  induction ls with
  | nil => rfl
  | cons l ls ih =>
    have hl := count_eq_zero_of_not_mem (h l (by simp))
    cases ls with
    | nil => exact hl
    | cons x ls =>
      have hcons : count newline (newline :: unlines (x :: ls)) =
          count newline (unlines (x :: ls)) + 1 := by
        simp [count]
      rw [unlines_cons l (by simp), count_append, hl, hcons,
        ih fun y hy => h y (List.mem_cons_of_mem l hy)]
      simp

end Text
end CodeAudit
