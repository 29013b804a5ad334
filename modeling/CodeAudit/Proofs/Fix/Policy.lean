import CodeAudit.Builtin.Misconfiguration
import CodeAudit.Proofs.Markup.Hidden
import CodeAudit.Proofs.Markup.Placement
import CodeAudit.Proofs.Pattern.Cut
import CodeAudit.Proofs.Pattern.Shape
import CodeAudit.Proofs.Text.Lines
import Mathlib.Data.List.TakeWhile

/-!
# The policy of a page

A page without a content security policy is flagged at the first line on which a head tag is found,
and the fix of that line puts a policy element behind the tag. The tag is found by a pattern, line
by line, while the policy is looked for among the elements of the page, whoever builds it. So the
fix helps when the page is read as the pattern takes it to be: a head tag that is read as such, with
nothing before it but what may come before the head of a page, is enough. A head tag inside a
comment or a raw text is not: the element is put in there as well, and the page stays flagged.

**Results.**
* `missingPolicyBy_replaceLine`: the fix leaves the first head tag on its line.
* `Opening.metasOf_of_reads`, `Opening.metasOf_of_hides`: the elements of the page after the fix.
* `mended_page_flagged`: whether the page is still flagged.
-/
namespace CodeAudit

/-! ## Text up to the end of a match -/

namespace Pattern

section
variable {p : Pattern} {line : Text} {m : Match} (h : p.find? line = some m)
include h

theorem exists_runes_of_find? : ∃ gap w before after, line.take m.stop = Text.ofRunes (gap ++ w) ∧
    (Text.ofRunes (gap ++ w)).runes = gap ++ w ∧ p.Piece before (w.map Rune.code) after := by
  obtain ⟨gap, w, post, hrunes, -, hpiece, hstart, hlen⟩ := find?_eq_some_piece h
  rw [← List.append_assoc] at hrunes
  have hline : line = Text.ofRunes (gap ++ w) ++ Text.ofRunes post := by
    rw [← Text.ofRunes_append, ← hrunes, Text.ofRunes_runes]
  have hstop : m.stop = (Text.ofRunes (gap ++ w)).length := by
    rw [Text.ofRunes_append, List.length_append, Match.stop, hstart, hlen]
  refine ⟨gap, w, _, _, ?_, (Text.runes_split hrunes).1, hpiece⟩
  conv => lhs; rw [hline, hstop]
  exact List.take_left

/-- Up to the end of a match, a line ends with the last character of the match. -/
theorem getLast?_take_stop (hsolid : p.solid = true) (hlast : p.lastIn [(62, 62)] = true) :
    (line.take m.stop).getLast? = some 62 := by
  obtain ⟨gap, w, before, after, htake, hrunes, hpiece⟩ := exists_runes_of_find? h
  have hcode := getLast?_of_lastIn hsolid hlast hpiece
  rw [List.getLast?_map, Option.map_eq_some_iff] at hcode
  obtain ⟨r, hr, hcode⟩ := hcode
  obtain ⟨ws, rfl⟩ := List.getLast?_eq_some_iff.1 hr
  have hmem : r ∈ (Text.ofRunes (gap ++ (ws ++ [r]))).runes := by
    rw [hrunes]
    simp
  obtain ⟨b, -, rfl⟩ := Text.eq_of_code_lt hmem (hcode ▸ by decide)
  obtain rfl : b = 62 := UInt8.toNat_inj.1 hcode
  rw [htake, Text.ofRunes_append, Text.ofRunes_append, ← List.append_assoc]
  exact List.getLast?_concat

/-- A pattern that does not look around matches as before when only the text behind its match
changes. -/
theorem matchesIn_take_stop_append (hfree : p.anchors = [])
    (hlast : (line.take m.stop).getLast? = some 62)
    (t : Text) : p.matchesIn (line.take m.stop ++ t) = true := by
  obtain ⟨gap, w, before, after, htake, hrunes, hpiece⟩ := exists_runes_of_find? h
  rw [matchesIn_iff_occursIn, Text.codes, Text.runes_append_of_getLast? hlast (by decide),
    htake, hrunes]
  refine ⟨gap.map Rune.code, w.map Rune.code, t.runes.map Rune.code, ?_, hpiece.anywhere hfree⟩
  rw [List.map_append, List.map_append, List.append_assoc]

end

end Pattern

/-! ## Blank texts -/

namespace Text

theorem blankRune_of_trim_isEmpty {t : Text} (h : (trim t).isEmpty = true) {r : Rune}
    (hr : r ∈ t.runes) :
    blankRune r = true := by
  -- no rune is empty, so none is left after trimming
  have hnone : ((t.runes.dropWhile blankRune).reverse.dropWhile blankRune).reverse = [] := by
    refine List.eq_nil_iff_forall_not_mem.2 fun s hs => ?_
    have hmem : s ∈ t.runes := (List.dropWhile_sublist _).subset
      (List.mem_reverse.1 ((List.dropWhile_sublist _).subset (List.mem_reverse.1 hs)))
    have hraw : s.raw = [] := List.flatMap_eq_nil_iff.1 (List.isEmpty_iff.1 h) s hs
    have hpos := width_pos_of_mem_runes hmem
    rw [Rune.width, hraw] at hpos
    exact absurd hpos (Nat.lt_irrefl 0)
  rw [List.reverse_eq_nil_iff, List.dropWhile_eq_nil_iff] at hnone
  have hdrop : t.runes.dropWhile blankRune = [] := by
    cases hd : t.runes.dropWhile blankRune with
    | nil => rfl
    | cons s rest =>
      have hblank := hnone s (by rw [hd]; simp)
      have hhead := List.head?_dropWhile_not blankRune t.runes
      rw [hd] at hhead
      exact absurd hblank (by simpa using hhead)
  exact List.dropWhile_eq_nil_iff.1 hdrop r hr

theorem isBlank_of_trim_isEmpty {t : Text} (h : (trim t).isEmpty = true) {b : UInt8} (hb : b ∈ t)
    (hascii : b < 0x80) : isBlank b.toNat = true := by
  rw [← ofRunes_runes t] at hb
  obtain ⟨r, hr, hbr⟩ := List.mem_flatMap.1 hb
  have hblank := blankRune_of_trim_isEmpty h hr
  rwa [eq_of_mem_raw hr hascii hbr] at hblank

end Text

namespace Builtin

open Markup Pattern

/-! ## The policy element -/

/-- The policy element as it is read. -/
def policyTag : Tag :=
  ⟨"meta", [("http-equiv", "Content-Security-Policy"), ("content", "default-src 'self'")], false⟩

theorem declaresPolicy_policyTag : declaresPolicy policyTag = true := by decide +kernel

theorem readTag?_policyElement : readTag? (109 :: policyElement.drop 2) = some (policyTag, []) := by
  decide +kernel

theorem readToken?_policyElement (sections : Bool) (t : Text) :
    readToken? sections (policyElement ++ t) = some (.start policyTag, ⟨t, []⟩) := by
  have halone : readToken? sections (policyElement ++ []) = some (.start policyTag, ⟨[], []⟩) := by
    rw [List.append_nil]
    refine (readToken?_of_opensMarkup (u := 109 :: policyElement.drop 2) (by decide +kernel)).trans
      ?_
    rw [markup?, if_neg (by decide), if_neg (by decide), if_neg (by decide), readTag?_policyElement]
    rfl
  exact (readToken?_start_local halone).2 t (Nat.zero_le _)

theorem slips_policyElement : Slips policyElement :=
  slips_tag (b := 109) (z := policyElement.drop 2) (by decide) (by decide) (by decide +kernel)

/-! ## The head tag on its line -/

theorem shape_headTag :
    headTag.solid = true ∧ headTag.anchors = [] ∧ headTag.lastIn [(62, 62)] = true := by
  decide +kernel

/-! ## The fix of the flagged line -/

/-- The document with a line replaced by others. -/
def replaceLine (d : Document) (i : Nat) (new : List Text) : Document :=
  ⟨Text.unlines (d.lines.take i ++ (new ++ d.lines.drop (i + 1)))⟩

/-- A text around a head tag: all up to the end of the tag, white space that stays behind it, the
white space that goes in front of the policy element, and the rest. -/
structure Opening where
  head : Text
  blank : Text
  gap : Text
  rest : Text

/-- The text as it is. -/
def Opening.text (o : Opening) : Text := o.head ++ (o.blank ++ o.rest)

/-- The text with the policy element. -/
def Opening.mended (o : Opening) :
    Text := o.head ++ (o.blank ++ (o.gap ++ (policyElement ++ o.rest)))

/-- A document around the head tag that is found on a line. -/
def opening (d : Document) (i : Nat) (line : Text) (m : Match) : Opening :=
  let head := Text.unlines (d.lines.take i ++ [line.take m.stop])
  let after := line.drop m.stop
  let behind := d.lines.drop (i + 1)
  if (Text.trim after).isEmpty then
    ⟨head, after, Text.newline :: (line.indent ++ "  "), Text.unlines ([] :: behind)⟩
  else ⟨head, [], [], Text.unlines (after :: behind)⟩

theorem missingPolicyBy_eq_singleton {metas : Text → List Tag} {d : Document} {l : Language}
    {i : Nat} :
    missingPolicyBy metas d l = [(i : Int)] ↔
      d.lines.findIdx? headTag.matchesIn = some i ∧ (metas d.text).any declaresPolicy = false := by
  unfold missingPolicyBy
  cases d.lines.findIdx? headTag.matchesIn with
  | none => simp
  | some j =>
    cases (metas d.text).any declaresPolicy with
    | true => simp
    | false =>
      simp only [Bool.false_eq_true, if_false, List.cons.injEq, and_true, Option.some.injEq]
      omega

section
variable {d : Document} {l : Language} {i : Nat} {line : Text} (hline : d.lines[i]? = some line)
include hline

theorem lines_eq : d.lines = d.lines.take i ++ line :: d.lines.drop (i + 1) := by
  obtain ⟨hlt, rfl⟩ := List.getElem?_eq_some_iff.1 hline
  rw [List.getElem_cons_drop, List.take_append_drop]

theorem text_eq_unlines :
    d.text = Text.unlines (d.lines.take i ++ line :: d.lines.drop (i + 1)) := by
  rw [← lines_eq hline]
  exact (Text.unlines_lines d.text).symm

theorem replaceLine_self : replaceLine d i [line] = d := by
  cases d
  exact congrArg Document.mk (text_eq_unlines hline).symm

theorem text_opening (m : Match) : d.text = (opening d i line m).text := by
  rw [text_eq_unlines hline, ← List.take_append_drop m.stop line, Text.unlines_append_cons,
    List.take_append_drop, opening]
  split
  · rw [Text.unlines_cons_eq]
    rfl
  · rfl

end

theorem insertPolicy_of_isNote {line : Text} (hnote : isNote line = true) (l : Language) :
    insertPolicy [line] l = some [line] := by
  simp [insertPolicy, insertPolicy.go, hnote]

/-- The lines that the fix makes of the line with the head tag. -/
def policyLines (line : Text) (m : Match) : List Text :=
  if (Text.trim (line.drop m.stop)).isEmpty then [line, line.indent ++ "  " ++ policyElement]
  else [line.take m.stop ++ policyElement ++ line.drop m.stop]

theorem insertPolicy_of_find? {line : Text} {m : Match} (hnote : isNote line = false)
    (hm : headTag.find? line = some m) (l : Language) :
    insertPolicy [line] l = some (policyLines line m) := by
  simp only [insertPolicy, insertPolicy.go, hnote, hm, policyLines, Bool.false_eq_true, if_false]

theorem text_mended (d : Document) (i : Nat) (line : Text) (m : Match) :
    (replaceLine d i (policyLines line m)).text = (opening d i line m).mended := by
  unfold replaceLine policyLines opening Opening.mended
  dsimp only
  split
  · conv => lhs; rw [← List.take_append_drop m.stop line]
    rw [List.cons_append, Text.unlines_append_cons, List.take_append_drop, List.singleton_append,
      Text.unlines_cons _ (List.cons_ne_nil _ _), Text.unlines_cons_eq]
    simp only [List.append_assoc, List.cons_append]
  · rw [List.append_assoc, List.singleton_append, Text.unlines_append_cons,
      ← List.nil_append ((_ ++ _) :: _), Text.unlines_append_cons]
    rfl

section
variable {line : Text} {m : Match} (hm : headTag.find? line = some m)
include hm

theorem matchesIn_policyLines :
    ∃ x more, policyLines line m = x :: more ∧ headTag.matchesIn x = true := by
  obtain ⟨hsolid, hfree, hlast⟩ := shape_headTag
  have hmatches := matchesIn_take_stop_append hm hfree (getLast?_take_stop hm hsolid hlast)
  unfold policyLines
  split
  · exact ⟨line, _, rfl, Option.isSome_iff_exists.2 ⟨m, hm⟩⟩
  · exact ⟨_, [], rfl, by rw [List.append_assoc]; exact hmatches _⟩

omit hm in
theorem newline_not_mem_policyLines (hline : Text.newline ∉ line) (m : Match) :
    ∀ x ∈ policyLines line m, Text.newline ∉ x := by
  have hindent : Text.newline ∉ line.indent := fun h => hline ((List.takeWhile_sublist _).subset h)
  have hpolicy : Text.newline ∉ policyElement := by decide +kernel
  have hspaces : Text.newline ∉ utf8 "  " := by decide
  have htake : Text.newline ∉ line.take m.stop := fun h => hline (List.mem_of_mem_take h)
  have hdrop : Text.newline ∉ line.drop m.stop := fun h => hline (List.mem_of_mem_drop h)
  unfold policyLines
  split
  · simp [hline, hindent, hspaces, hpolicy]
  · simp [htake, hdrop, hpolicy]

end

/-- The fix leaves the first head tag on its line. -/
theorem missingPolicyBy_replaceLine {metas : Text → List Tag} {d : Document} {l : Language}
    {i : Nat}
    {line : Text} (h : missingPolicyBy metas d l = [(i : Int)]) (hline : d.lines[i]? = some line)
    {m : Match}
    (hm : headTag.find? line = some m) :
    missingPolicyBy metas (replaceLine d i (policyLines line m)) l =
      if (metas (opening d i line m).mended).any declaresPolicy then [] else [(i : Int)] := by
  obtain ⟨hidx, -⟩ := missingPolicyBy_eq_singleton.1 h
  obtain ⟨x, more, hnew, hmatches⟩ := matchesIn_policyLines hm
  have hlines : (replaceLine d i (policyLines line m)).lines =
      d.lines.take i ++ (policyLines line m ++ d.lines.drop (i + 1)) := by
    refine Text.lines_unlines (by simp [hnew]) fun y hy => ?_
    obtain hy | hy := List.mem_append.1 hy
    · exact Text.newline_not_mem_lines (List.mem_of_mem_take hy)
    obtain hy | hy := List.mem_append.1 hy
    · exact newline_not_mem_policyLines (Text.newline_not_mem_lines (List.mem_of_getElem? hline)) m
        y hy
    · exact Text.newline_not_mem_lines (List.mem_of_mem_drop hy)
  have hfirst : (replaceLine d i (policyLines line m)).lines.findIdx? headTag.matchesIn =
      some i := by
    obtain ⟨hlt, -, hbefore⟩ := List.findIdx?_eq_some_iff_getElem.1 hidx
    have hnone : (d.lines.take i).findIdx? headTag.matchesIn = none := by
      rw [List.findIdx?_eq_none_iff]
      intro y hy
      obtain ⟨j, hj, rfl⟩ := List.mem_take_iff_getElem.1 hy
      exact Bool.eq_false_iff.2 (hbefore j (by omega))
    rw [hlines, hnew, List.findIdx?_append, hnone, List.cons_append, List.findIdx?_cons, hmatches,
      if_pos rfl, List.length_take, Nat.min_eq_left (Nat.le_of_lt hlt)]
    simp
  rw [missingPolicyBy, hfirst, text_mended]

/-! ## Head tags that are read -/

namespace Opening

variable (o : Opening) (c : Construction)

/-- The head tag is read as a start tag, the next piece of a reading. -/
structure Reads (r : Reading) (tag : Tag) : Prop where
  reaches : c.Reaches (.start o.text) r
  next : r.source.next (c.sections r.pieces) = some (.start tag, ⟨o.blank ++ o.rest, []⟩)
  name : tagName tag.name = "head"

/-- The head tag ends inside a comment, or inside a raw text that a reading comes upon. -/
structure Hides (r : Reading) (y : Text) : Prop where
  reaches : c.Reaches (.start o.text) r
  rest : r.source.rest = y ++ (o.blank ++ o.rest)
  nonempty : y ≠ []
  inside : (∃ s, r.source.next (c.sections r.pieces) = some (.comment, s) ∧
      s.rest.length < (o.blank ++ o.rest).length) ∨
    r.source.rawTag ≠ [] ∧ y.length ≤ rawLength r.source.rawTag r.source.rest

/-- The white space between the head tag and the policy element. -/
def white : List Markup.Piece :=
  if o.blank ++ o.gap = [] then [] else [(.text (o.blank ++ o.gap), o.blank ++ o.gap)]

/-- The reading behind the policy element, when the head tag was read as the next piece of a
reading. -/
def behind (r : Reading) (tag : Tag) : Reading where
  pieces := r.pieces ++ (.start tag, taken r.source.rest (o.blank ++ o.rest)) ::
    (o.white ++ [(.start policyTag, policyElement)])
  source := ⟨o.rest, []⟩

variable {o c}

theorem isWhite_of_mem_white (hgap : isSpaceText o.gap = true)
    (hblank : isSpaceText o.blank = true) :
    ∀ x ∈ o.white, IsWhite x := by
  intro x hx
  unfold white at hx
  split at hx
  · cases hx
  · obtain rfl := List.mem_singleton.1 hx
    exact ⟨_, rfl, by rw [isSpaceText_append, hblank, hgap, Bool.and_self]⟩

/-- White space and the policy element are read as such, whatever was read before. -/
theorem finish_policyElement (hgap : isSpaceText o.gap = true) (hblank : isSpaceText o.blank = true)
    (pieces : List Markup.Piece) :
    c.finish ⟨pieces, ⟨o.blank ++ (o.gap ++ (policyElement ++ o.rest)), []⟩⟩ =
      c.finish ⟨pieces ++ (o.white ++ [(.start policyTag, policyElement)]), ⟨o.rest, []⟩⟩ := by
  have hpolicy : ∀ pieces, c.next? ⟨pieces, ⟨policyElement ++ o.rest, []⟩⟩ =
      some ⟨pieces ++ [(.start policyTag, policyElement)], ⟨o.rest, []⟩⟩ := fun pieces => by
    refine Construction.next?_eq_some_iff.2
      ⟨_, _, readToken?_policyElement (c.sections pieces) o.rest, ?_⟩
    rw [Construction.put_of_rawTag, taken_append]
  rw [← List.append_assoc, white]
  split
  · rename_i hnil
    rw [hnil, List.nil_append, List.nil_append, Construction.finish_of_next? (hpolicy _)]
  · rename_i hne
    have hspace : isSpaceText (o.blank ++ o.gap) = true := by
      rw [isSpaceText_append, hblank, hgap, Bool.and_self]
    have hopens : textLength (policyElement ++ o.rest) = 0 :=
      textLength_eq_zero_iff.2 (.inr ⟨109 :: (policyElement.drop 2 ++ o.rest), rfl, rfl⟩)
    rw [Construction.finish_of_next? (Construction.next?_space hspace hne hopens pieces),
      Construction.finish_of_next? (hpolicy _), List.append_assoc]

/-- **A head tag that is read**: the page is built from its pieces with the policy element put
in. -/
theorem metasOf_of_reads (hgap : isSpaceText o.gap = true) (hblank : isSpaceText o.blank = true)
    {r : Reading}
    {tag : Tag} (h : o.Reads c r tag) :
    c.metasOf o.mended = c.metas (c.finish (o.behind r tag)) := by
  have hreaches := Construction.reaches_start_local h.reaches h.next
    (by simp only [List.length_append]; omega :
      (o.blank ++ o.rest).length ≤ (o.blank ++ (o.gap ++ (policyElement ++ o.rest))).length)
  have hfinish := Construction.finish_of_reaches hreaches
  rw [finish_policyElement hgap hblank, List.append_assoc, List.singleton_append] at hfinish
  exact congrArg c.metas hfinish

/-- At the beginning of a page the policy element belongs to its head. -/
theorem any_metasOf_of_prolog (hc : c.Lawful) (hgap : isSpaceText o.gap = true)
    (hblank : isSpaceText o.blank = true) {r : Reading} {tag : Tag} (h : o.Reads c r tag)
    (hprolog : ∀ x ∈ r.pieces, IsProlog x) : (c.metasOf o.mended).any declaresPolicy = true := by
  obtain ⟨later, hlater⟩ := c.exists_finish_eq (o.behind r tag)
  have hmem : policyTag ∈ c.metas (c.finish (o.behind r tag)) := by
    have hhead := hc.head hprolog (isWhite_of_mem_white hgap hblank) h.name
      (by decide +kernel : tagName policyTag.name = "meta")
      (taken r.source.rest (o.blank ++ o.rest)) policyElement later
    rw [hlater, behind]
    simpa only [List.append_assoc, List.cons_append, List.nil_append] using hhead
  rw [metasOf_of_reads hgap hblank h]
  exact List.any_eq_true.2 ⟨policyTag, hmem, declaresPolicy_policyTag⟩

/-- **A head tag that is hidden**: the policy element is hidden with it. -/
theorem metasOf_of_hides (hc : c.Lawful) (hgap : isSpaceText o.gap = true)
    (hblank : isFlat false o.blank = true) (hhead : o.head.getLast? = some 62) {r : Reading}
    {y : Text}
    (h : o.Hides c r y) : c.metasOf o.mended = c.metasOf o.text := by
  have htag := Construction.not_mem_rawTag_of_reaches h.reaches List.not_mem_nil
  have hslips := slips_of_isFlat hblank
  have hslips' := (slips_of_isFlat (isFlat_of_isSpaceText hgap)).append slips_policyElement
  obtain ⟨pieces, ⟨rest, rawTag⟩⟩ := r
  obtain rfl : rest = y ++ (o.blank ++ o.rest) := h.rest
  obtain ⟨x, hx⟩ := Construction.rest_suffix_of_reaches h.reaches
  have hxy : x ++ y = o.head := List.append_cancel_right ((List.append_assoc x y _).trans hx)
  have hy : y.getLast? = some 62 := by
    have hlast := List.getLast?_eq_some_getLast h.nonempty
    rw [← hxy, List.getLast?_append, hlast, Option.some_or] at hhead
    exact hlast.trans hhead
  have hle : (o.blank ++ o.rest).length ≤
      (o.blank ++ (o.gap ++ policyElement ++ o.rest)).length := by
    simp only [List.length_append]
    omega
  have hreaches := Construction.reaches_local (List.mem_of_getLast? hy) h.reaches rfl hle hx.symm
    List.not_mem_nil
  have hfinish :
    c.metas (c.finish ⟨pieces, ⟨y ++ (o.blank ++ (o.gap ++ policyElement ++ o.rest)), rawTag⟩⟩) =
      c.metas (c.finish ⟨pieces, ⟨y ++ (o.blank ++ o.rest), rawTag⟩⟩) := by
    obtain ⟨s, hnext, hlt⟩ | ⟨hne, hraw⟩ := h.inside
    · exact Construction.metas_comment_insert hc hy hslips hslips' htag hnext hlt
    · exact Construction.metas_raw_insert hc hy hslips hslips' htag hne hraw
  have hmended : o.mended = x ++ (y ++ (o.blank ++ (o.gap ++ policyElement ++ o.rest))) := by
    rw [Opening.mended, ← hxy]
    simp only [List.append_assoc]
  rw [Construction.metasOf, Construction.metasOf, Construction.finish_of_reaches h.reaches,
    ← hfinish, ← Construction.finish_of_reaches hreaches, hmended]
  rfl

end Opening

/-! ## The page after the fix -/

theorem isSpaceText_indent (line : Text) : isSpaceText line.indent = true :=
  List.all_eq_true.2 fun b hb => by
    have hspace : Text.isSpaceOrTab b = true := List.all_eq_true.1 List.all_takeWhile b hb
    obtain h | h := Bool.or_eq_true_iff.1 hspace <;> rw [eq_of_beq h] <;> rfl

theorem isSpaceText_gap (d : Document) (i : Nat) (line : Text) (m : Match) :
    isSpaceText (opening d i line m).gap = true := by
  unfold opening
  dsimp only
  split
  · change isSpaceText ([Text.newline] ++ (line.indent ++ utf8 "  ")) = true
    rw [isSpaceText_append, isSpaceText_append, isSpaceText_indent]
    decide
  · rfl

theorem getLast?_head (d : Document) (i : Nat) {line : Text} {m : Match}
    (hm : headTag.find? line = some m) :
    (opening d i line m).head.getLast? = some 62 := by
  obtain ⟨hsolid, -, hlast⟩ := shape_headTag
  have hhead : (opening d i line m).head = Text.unlines (d.lines.take i ++ [line.take m.stop]) := by
    unfold opening
    dsimp only
    split <;> rfl
  have hline := Text.unlines_append_cons (d.lines.take i) [] (line.take m.stop) []
  rw [List.nil_append] at hline
  rw [hhead, hline, List.getLast?_append]
  exact Option.or_eq_some_iff.2 (.inl (getLast?_take_stop hm hsolid hlast))

theorem isFlat_blank (d : Document) (i : Nat) (line : Text) (m : Match) :
    isFlat false (opening d i line m).blank = true := by
  unfold opening
  dsimp only
  split
  · rename_i hblank
    exact isFlat_of_not_mem (fun hb => absurd (Text.isBlank_of_trim_isEmpty hblank hb (by decide))
      (by decide)) fun hb => absurd (Text.isBlank_of_trim_isEmpty hblank hb (by decide)) (by decide)
  · rfl

/-- **The page after the fix** of its flagged line, for any construction. It is flagged on that line
or not at all. A note stays as it is. Where a head tag is read, with no blanks behind it but those
of markup, the page is built from its pieces with the policy element put in behind the tag, and it
is not flagged when nothing came before but what may come before the head of a page. Where the head
tag is inside a comment or a raw text, it is flagged. -/
theorem mended_page_flagged {c : Construction} (hc : c.Lawful) {d : Document} {l : Language}
    {i : Nat} (h : missingPolicyBy c.metasOf d l = [(i : Int)]) :
    ∃ line new, d.lines[i]? = some line ∧ insertPolicy [line] l = some new ∧
      (missingPolicyBy c.metasOf (replaceLine d i new) l = [] ∨
        missingPolicyBy c.metasOf (replaceLine d i new) l = [(i : Int)]) ∧
      (isNote line = true → replaceLine d i new = d) ∧
      (isNote line = false → ∃ m, headTag.find? line = some m ∧ d.text = (opening d i line m).text ∧
        (replaceLine d i new).text = (opening d i line m).mended ∧
        (isSpaceText (opening d i line m).blank = true →
          ∀ r tag, (opening d i line m).Reads c r tag →
          (missingPolicyBy c.metasOf (replaceLine d i new) l = [] ↔
            (c.metas (c.finish ((opening d i line m).behind r tag))).any declaresPolicy = true) ∧
          ((∀ x ∈ r.pieces, IsProlog x) → missingPolicyBy c.metasOf (replaceLine d i new) l = [])) ∧
        ∀ r y, (opening d i line m).Hides c r y →
          missingPolicyBy c.metasOf (replaceLine d i new) l = [(i : Int)]) := by
  obtain ⟨hidx, hnone⟩ := missingPolicyBy_eq_singleton.1 h
  obtain ⟨hlt, hmatches, -⟩ := List.findIdx?_eq_some_iff_getElem.1 hidx
  have hline : d.lines[i]? = some d.lines[i] := List.getElem?_eq_getElem hlt
  obtain ⟨m, hm⟩ := Option.isSome_iff_exists.1 hmatches
  generalize d.lines[i] = line at hline hm
  cases hnote : isNote line with
  | true =>
    have hself := replaceLine_self hline
    exact ⟨line, [line], hline, insertPolicy_of_isNote hnote l, .inr (hself.symm ▸ h),
      fun _ => hself, fun hcode => absurd (hnote.symm.trans hcode) (by decide)⟩
  | false =>
    have hflags := missingPolicyBy_replaceLine h hline hm
    have hgap := isSpaceText_gap d i line m
    rw [text_opening hline m] at hnone
    refine ⟨line, policyLines line m, hline, insertPolicy_of_find? hnote hm l, ?_,
      fun hcomment => absurd (hnote.symm.trans hcomment) Bool.false_ne_true, fun _ => ⟨m, hm,
        text_opening hline m, text_mended d i line m,
          fun hblank r tag hreads => ⟨?_, fun hprolog => ?_⟩,
        fun r y hhides => ?_⟩⟩
    · rw [hflags]
      exact ite_eq_or_eq ..
    · rw [hflags, Opening.metasOf_of_reads hgap hblank hreads]
      simp
    · rw [hflags, Opening.any_metasOf_of_prolog hc hgap hblank hreads hprolog, if_pos rfl]
    · rw [hflags, Opening.metasOf_of_hides hc hgap (isFlat_blank d i line m)
        (getLast?_head d i hm) hhides, hnone, if_neg Bool.false_ne_true]

theorem missingPolicy_eq : missingPolicy = missingPolicyBy Page.construction.metasOf :=
  congrArg missingPolicyBy metas_eq_metasOf

/-- A head tag that opens the page, with a blank behind it: the page is no longer flagged. -/
theorem bare_head_mended : missingPolicy ⟨"<head> \n</head>"⟩ .html = [0] ∧
    ∃ new, insertPolicy [utf8 "<head> "] .html = some new ∧
      missingPolicy (replaceLine ⟨"<head> \n</head>"⟩ 0 new) .html = [] := by
  have hflag : missingPolicy ⟨"<head> \n</head>"⟩ .html = [((0 : Nat) : Int)] := by decide +kernel
  refine ⟨hflag, ?_⟩
  rw [missingPolicy_eq] at hflag ⊢
  obtain ⟨line, new, hline, hnew, -, -, hcode⟩ := mended_page_flagged Page.lawful_construction hflag
  obtain rfl : utf8 "<head> " = line := Option.some.inj (Eq.trans (by decide +kernel) hline)
  obtain ⟨m, hm, -, -, hreads, -⟩ := hcode (by decide +kernel)
  obtain rfl : (⟨0, 6, []⟩ : Match) = m := Option.some.inj (Eq.trans (by decide +kernel) hm)
  have htag : (opening ⟨"<head> \n</head>"⟩ 0 "<head> " ⟨0, 6, []⟩).Reads Page.construction
      (Reading.start "<head> \n</head>") ⟨"head", [], false⟩ := ⟨.refl, rfl, by decide +kernel⟩
  exact ⟨new, hnew, (hreads (by decide +kernel) _ _ htag).2 fun _ hx => nomatch hx⟩

/-- A head tag in a comment: the policy element goes into the comment, and the page is flagged as
before. -/
theorem commented_head_stays_flagged :
    missingPolicy ⟨"<!-- <head> -->\n<html><head></head></html>"⟩ .html = [0] ∧
      ∃ new, insertPolicy [utf8 "<!-- <head> -->"] .html = some new ∧
        missingPolicy (replaceLine ⟨"<!-- <head> -->\n<html><head></head></html>"⟩ 0 new) .html =
          [0] :=
  ⟨by decide +kernel, [utf8 "<!-- <head>" ++ policyElement ++ utf8 " -->"], by decide +kernel, by
    decide +kernel⟩

end Builtin
end CodeAudit
