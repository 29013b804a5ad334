import CodeAudit.Proofs.Fix.Redaction

/-!
# Two readers of literals

String literals are read in two places. `redactOutside` goes through a line once and keeps track of
the quote it is in, while `literals` lists the literals of a line with their offsets. Both read the
same literals: redaction is what comes out when the line is cut at the offsets of the list, the
literals are copied and everything else is replaced piece by piece.

**Results.**
* `Code.Parts.stitch`: cutting a line at its listed literals cuts it into its parts.
* `redactOutside_stitches_literals`: both readers agree, on every line and for every pattern and
  replacement.
-/
namespace CodeAudit
namespace Code

/-- The line from offset `i` on, where literals are copied and `f` is applied to each piece before
and between them. The tail behind the last literal is one more piece as far as its first quote,
where a literal is not closed: from there on it is copied. -/
def stitch (f : Text → Text) (line : Text) : Nat → List Literal → Text
  | i, [] =>
    let tail := line.drop i
    f (tail.takeWhile (!isQuote ·)) ++ tail.dropWhile (!isQuote ·)
  | i, l :: ls => f (line.slice i l.start) ++ line.slice l.start l.stop ++ stitch f line l.stop ls

/-- What a line has before its first quote is one piece, and nothing is done to the rest. -/
theorem stitch_nil (f : Text → Text) (before : Text) {s tail : Text} (hs : Unquoted s)
    (htail : tail.takeWhile (!isQuote ·) = []) :
    stitch f (before ++ (s ++ tail)) before.length [] = f s ++ tail := by
  have hpos : ∀ b ∈ s, (!isQuote b) = true := fun b hb => by rw [hs b hb]; rfl
  have hrest := List.takeWhile_append_dropWhile (p := (!isQuote ·)) (l := tail)
  rw [htail, List.nil_append] at hrest
  simp only [stitch, List.drop_left, List.takeWhile_append_of_pos hpos,
    List.dropWhile_append_of_pos hpos, htail, hrest, List.append_nil]

theorem slice_left (a b c : Text) : (a ++ (b ++ c)).slice a.length (a ++ b).length = b := by
  rw [Text.slice, List.drop_left, List.length_append, Nat.add_sub_cancel_left, List.take_left]

/-- A literal `w` of the line is copied, and `s` before it is one piece. -/
theorem stitch_cons (f : Text → Text) (before s w u : Text) {l : Literal}
    (hstart : l.start = (before ++ s).length)
    (hstop : l.stop = (before ++ s ++ w).length) (ls : List Literal) :
    stitch f (before ++ (s ++ (w ++ u))) before.length (l :: ls) =
      f s ++ w ++ stitch f (before ++ s ++ w ++ u) (before ++ s ++ w).length ls := by
  have hwhole : before ++ (s ++ (w ++ u)) = before ++ s ++ (w ++ u) := (List.append_assoc ..).symm
  rw [stitch, hstart, hstop, slice_left, hwhole, slice_left, List.append_assoc (before ++ s) w u]

/-- The first literal of a text and those behind it. -/
theorem literalsFrom_literal {s c u : Text} {q : UInt8} (hs : Unquoted s) (hq : isQuote q = true)
    (hclose : closing? q (c ++ q :: u) = some c.length) (i : Nat) :
    literalsFrom i 0 (s ++ q :: (c ++ q :: u)) =
      ⟨i + s.length, i + s.length + c.length + 2, q, c⟩ :: literalsFrom
        (i + s.length + c.length + 2) 0 u := by
  have hbehind : (c ++ q :: u).drop (c.length + 1) = u := by simp [List.drop_append]
  rw [literalsFrom_unquoted hs, literalsFrom, if_pos hq, hclose]
  dsimp only
  rw [List.take_left, literalsFrom_skip _ _ (c.length + 1), hbehind]
  congr 2
  omega

/-- Cutting a text at its listed literals cuts it into its parts, wherever it stands in a line. -/
theorem Parts.stitch {t rest tail : Text} {pairs : List (Text × Text)} (h : Parts t pairs rest tail)
    (f : Text → Text) : ∀ before : Text, Code.stitch f (before ++ t) before.length
      (literalsFrom before.length 0 t) =
      (pairs.flatMap fun c => f c.1 ++ c.2) ++ (f rest ++ tail) := by
  induction h with
  | @rest s hs =>
    intro before
    have hnone := literalsFrom_unquoted hs [] before.length
    have hstitch := stitch_nil f before hs (List.takeWhile_nil ..)
    rw [List.append_nil] at hnone hstitch
    rw [hnone, literalsFrom, hstitch]
    rfl
  | @unclosed s u q hs hq hopen =>
    intro before
    rw [literalsFrom_unquoted hs, literalsFrom, if_pos hq, hopen]
    exact stitch_nil f before hs (List.takeWhile_cons_of_neg (by simp [hq]))
  | @literal s c u rest tail q pairs hs hq hclose _ ih =>
    intro before
    have hquoted : q :: (c ++ q :: u) = q :: (c ++ [q]) ++ u := by simp
    have hstop : before.length + s.length + c.length + 2 =
        (before ++ s ++ q :: (c ++ [q])).length := by
      simp only [List.length_append, List.length_cons, List.length_nil]
      omega
    rw [literalsFrom_literal hs hq hclose, hquoted,
      stitch_cons f before s _ u (List.length_append ..).symm hstop, hstop, ih, List.flatMap_cons]
    simp only [List.append_assoc]

/-- A line is made of its listed literals and of the pieces between them. -/
theorem stitch_id (line : Text) : stitch id line 0 (literals line) = line := by
  obtain ⟨pairs, rest, tail, h⟩ := exists_parts line
  exact (h.stitch id []).trans h.eq.symm

/-- A quote behind a backslash closes nothing, and a quote that is not closed ends the pieces. -/
example : stitch (fun _ => "x") "a='\\'' + b + \"c" 0 (literals "a='\\'' + b + \"c") =
    "x'\\''x\"c" := by decide

end Code

/-- **The two readers agree.** Redacting a line outside of its literals is the same as copying each
literal that is listed for it and replacing the matches in every piece before, between and behind
them, as far as the quote of a literal that is not closed. Literals and pieces are all of the
line. -/
theorem redactOutside_stitches_literals (p : Pattern) (w : Template) (line : Text) :
    redactOutside p w line = Code.stitch (p.replaceAll w) line 0 (Code.literals line) ∧
      Code.stitch id line 0 (Code.literals line) = line := by
  obtain ⟨pairs, rest, tail, h⟩ := Code.exists_parts line
  refine ⟨?_, Code.stitch_id line⟩
  rw [redactOutside_eq p w h]
  exact (h.stitch (p.replaceAll w) []).symm

end CodeAudit
