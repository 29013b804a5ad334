import CodeAudit.Fix.Call
import CodeAudit.Proofs.Code.Arguments
import CodeAudit.Proofs.Text.Validity
import Mathlib.Data.List.Forall2

/-!
# The first argument of a call is replaced where it stands

A fix that changes the first argument of a call has the argument as a text, without the offset it
was read from, and looks for that text between the brackets of the call. In a line of valid UTF-8 it
finds the argument itself: between the bracket and the argument there is only white space, and no
piece of white space starts like the argument does.

**Results.**
* `Call.find?_eq_some`: where the brackets of a call are, and that its arguments stand between them.
* `Call.FirstArgument.firstArg?_eq`, `Call.FirstArgument.index?_eq`: the first argument of a call,
  and where it is found.
* `Fix.go_eq`: what becomes of a line with a call.
* `Fix.wrapFirstArg_replaces_argument`: what becomes of the lines of any fragment.
-/
namespace CodeAudit

/-! ## Brackets -/

namespace Code

/-- The bracket that closes another one is there. -/
theorem getElem?_of_closingFrom {op cl : UInt8} {quote : Option UInt8} {depth n : Nat} {t : Text}
    (h : closingFrom op cl quote depth t = some n) : t[n]? = some cl := by
  fun_induction closingFrom op cl quote depth t generalizing n with
  | case1 => cases h
  | case2 depth b t ih | case5 q depth b t hq hb ih | case6 depth b t hb ih | case7 depth t hb ih
  | case9 depth t hdepth hb hop ih | case10 depth b t hb hop hcl ih =>
    obtain ⟨m, hm, rfl⟩ := Option.map_eq_some_iff.1 h
    exact ih hm
  | case3 => cases h
  | case4 q depth c u hq ih =>
    -- the byte behind a backslash is passed over
    obtain ⟨m, hm, rfl⟩ := Option.map_eq_some_iff.1 h
    exact ih hm
  | case8 depth t hdepth hb hop =>
    obtain rfl := Option.some.inj h
    rfl

/-- The round bracket that closes the one at the beginning of a text. -/
theorem eq_of_closingBracket? {u : Text} {n : Nat} (h : closingBracket? (40 :: u) = some n) :
    ∃ k rest, n = k + 1 ∧ u = u.take k ++ 41 :: rest := by
  rw [closingBracket?, closingFrom, if_neg (by decide), if_pos rfl] at h
  obtain ⟨k, hk, rfl⟩ := Option.map_eq_some_iff.1 h
  obtain ⟨hlt, hget⟩ := List.getElem?_eq_some_iff.1 (getElem?_of_closingFrom hk)
  refine ⟨k, u.drop (k + 1), rfl, ?_⟩
  conv => lhs; rw [← List.take_append_drop k u, List.drop_eq_getElem_cons hlt, hget]
  rfl

end Code

namespace Call

/-- What stands between the brackets of a call of a line. -/
def inside (c : Call) (line : Text) : Text := line.slice (c.opening + 1) c.closing

theorem find?_eq_some {p : Pattern} {line : Text} {c : Call} (h : find? p line = some c) :
    ∃ head rest, line = head ++ 40 :: (c.inside line ++ 41 :: rest) ∧ c.opening = head.length ∧
      c.args = Code.arguments (c.inside line) := by
  obtain ⟨m, -, h⟩ := Option.bind_eq_some_iff.1 h
  split at h
  · cases h
  dsimp only at h
  split at h
  · cases h
  rename_i hhead
  rw [bne_iff_ne, not_not] at hhead
  obtain ⟨u, hu⟩ := List.head?_eq_some_iff.1 hhead
  obtain ⟨n, hn, h⟩ := Option.bind_eq_some_iff.1 h
  obtain rfl := Option.some.inj h
  rw [hu] at hn
  obtain ⟨k, rest, rfl, hrest⟩ := Code.eq_of_closingBracket? hn
  have hlt : m.stop - 1 < line.length := by
    have := congrArg List.length hu
    rw [List.length_drop, List.length_cons] at this
    omega
  have hinside : line.slice (m.stop - 1 + 1) (m.stop - 1 + (k + 1)) = u.take k := by
    rw [Text.slice, ← List.drop_drop, hu, List.drop_succ_cons, List.drop_zero]
    congr 1
    omega
  refine ⟨line.take (m.stop - 1), rest, ?_, ?_, ?_⟩
  · rw [inside, hinside, ← hrest, ← hu, List.take_append_drop]
  · dsimp only
    rw [List.length_take]
    omega
  · rw [inside, hinside, hu]
    rfl

/-- The first piece between the brackets of a call is taken apart into an argument and the white
space around it. -/
structure FirstArgument (c : Call) (line lead arg trail : Text) : Prop where
  piece : ∃ more, Code.Pieces (c.inside line) ((lead ++ (arg ++ trail)) :: more)
  trims : Text.Trims (lead ++ (arg ++ trail)) lead arg trail

theorem exists_firstArgument (c : Call) (line : Text) :
    ∃ lead arg trail, c.FirstArgument line lead arg trail := by
  obtain ⟨ps, h⟩ := Code.exists_pieces (c.inside line)
  obtain ⟨first, more, rfl⟩ := h.exists_cons
  obtain ⟨lead, trail, htrims⟩ := Text.exists_trims first
  rw [htrims.text_eq] at h
  refine ⟨lead, _, trail, ⟨more, h⟩, ?_⟩
  rwa [← htrims.text_eq]

section
variable {c : Call} {line lead arg trail : Text} (h : c.FirstArgument line lead arg trail)
include h

/-- The argument of a call that is not blank is its first one. -/
theorem FirstArgument.firstArg?_eq (hargs : c.args = Code.arguments (c.inside line)) :
    c.firstArg? = if arg.isEmpty then none else some arg := by
  obtain ⟨more, hpieces⟩ := h.piece
  rw [Code.arguments_eq hpieces] at hargs
  rw [firstArg?, hargs]
  cases more with
  | nil =>
    rw [Code.argumentsOf, Code.Mode.lastArgument, h.trims.trim_eq]
    by_cases harg : arg.isEmpty = true
    · rw [if_pos harg, if_pos harg]
    · rw [if_neg harg, if_neg harg]
      exact if_neg harg
  | cons q qs => rw [Code.argumentsOf, h.trims.trim_eq]

theorem FirstArgument.arg_eq (hargs : c.args = Code.arguments (c.inside line))
    {lead' arg' trail' : Text} (h' : c.FirstArgument line lead' arg' trail') : arg' = arg := by
  have hsame := (h'.firstArg?_eq hargs).symm.trans (h.firstArg?_eq hargs)
  by_cases harg : arg.isEmpty = true <;> by_cases harg' : arg'.isEmpty = true
  · rw [List.isEmpty_iff.1 harg, List.isEmpty_iff.1 harg']
  · rw [if_pos harg, if_neg harg'] at hsame
    cases hsame
  · rw [if_neg harg, if_pos harg'] at hsame
    cases hsame
  · rw [if_neg harg, if_neg harg'] at hsame
    exact Option.some.inj hsame

/-- Behind the argument there is white space, and then a comma or the end of the list. -/
theorem FirstArgument.exists_rest : ∃ rest :
    Text, (c.inside line).runes = lead.runes ++ (arg.runes ++ rest.runes) := by
  obtain ⟨more, hpieces⟩ := h.piece
  obtain ⟨behind, hinside, hrunes⟩ := hpieces.exists_behind
  refine ⟨trail ++ behind, ?_⟩
  rw [hinside, hrunes, hrunes, h.trims.runes_eq]
  simp only [List.append_assoc]

/-- In valid text the argument is first found where it stands. -/
theorem FirstArgument.index?_eq (hvalid : (c.inside line).isValid = true) (hne : arg ≠ []) :
    Text.index? arg (c.inside line) = some lead.length := by
  obtain ⟨rest, hrunes⟩ := h.exists_rest
  exact Text.index?_of_blank hrunes hvalid h.trims.lead_blank h.trims.head_not_blank hne

end

end Call

/-! ## The fix -/

namespace Fix

variable {p : Pattern} {line : Text} (wrap : Text → Language → Option Text) (l : Language)

/-- What becomes of a line with a call: another text stands where its first argument was. -/
theorem go_eq (hvalid : line.isValid = true) {c : Call} (hcall : Call.find? p line = some c)
    {lead arg trail : Text}
    (hfirst : c.FirstArgument line lead arg trail) : ∃ head rest, c.opening = head.length ∧
      line = head ++ 40 :: (lead ++ (arg ++ rest)) ∧
      wrapFirstArg.go p wrap line l = if arg.isEmpty then none
        else (wrap arg l).map fun w => head ++ 40 :: (lead ++ (w ++ rest)) := by
  obtain ⟨head, behind, hcalled, hopening, hargs⟩ := Call.find?_eq_some hcall
  have hinside : (c.inside line).isValid = true := by
    rw [hcalled] at hvalid
    exact Text.isValid_between (by decide) (by decide) hvalid
  obtain ⟨rest, hrunes⟩ := hfirst.exists_rest
  have hline : line = head ++ 40 :: lead ++ (arg ++ (rest ++ 41 :: behind)) := by
    conv => lhs; rw [hcalled, Text.eq_append_of_runes hrunes]
    simp
  refine ⟨head, rest ++ 41 :: behind, hopening, by simpa using hline, ?_⟩
  have hgo : wrapFirstArg.go p wrap line l = c.firstArg?.bind fun a =>
      (Text.index? a (c.inside line)).bind fun i => (wrap a l).bind fun w =>
        some (line.take (c.opening + 1 + i) ++ w ++ line.drop (c.opening + 1 + i + a.length)) := by
    rw [wrapFirstArg.go, hcall]
    rfl
  rw [hgo, hfirst.firstArg?_eq hargs]
  by_cases harg : arg.isEmpty = true
  · rw [if_pos harg, if_pos harg, Option.bind_none]
  · have hstart : c.opening + 1 + lead.length = (head ++ 40 :: lead).length := by
      rw [hopening, List.length_append, List.length_cons]
      omega
    rw [if_neg harg, if_neg harg, Option.bind_some, hfirst.index?_eq hinside (by simpa using harg),
      Option.bind_some, hstart]
    cases wrap arg l with
    | none => rfl
    | some w =>
      rw [Option.bind_some, Option.map_some, hline, List.take_left, ← List.drop_drop,
        List.drop_left, List.drop_left]
      simp

/-- What a changed first argument makes of a line. The line is kept when it is a note, or when there
is no argument or no other text for it. Else the other text stands in the place of the argument, and
all around it is kept: what comes before the bracket, the bracket, the white space behind it, and
what follows the argument. -/
inductive Wraps (p : Pattern) (wrap : Text → Language → Option Text) (l : Language) (line : Text) :
    Text → Prop where
  | kept (h : isNote line = true ∨ ∀ c lead arg trail, Call.find? p line = some c →
      c.FirstArgument line lead arg trail → arg = [] ∨ wrap arg l = none) : Wraps p wrap l line line
  | replaced {c : Call} {head lead arg trail rest w : Text} (hnote : isNote line = false)
      (hcall : Call.find? p line = some c) (hfirst : c.FirstArgument line lead arg trail)
      (hne : arg ≠ [])
      (hwrap : wrap arg l = some w) (hopening : c.opening = head.length)
      (hline : line = head ++ 40 :: (lead ++ (arg ++ rest))) :
      Wraps p wrap l line (head ++ 40 :: (lead ++ (w ++ rest)))

theorem wraps_go (hvalid : line.isValid = true) (hnote : isNote line = false) :
    Wraps p wrap l line ((wrapFirstArg.go p wrap line l).getD line) := by
  cases hcall : Call.find? p line with
  | none =>
    have hgo : wrapFirstArg.go p wrap line l = none := by
      rw [wrapFirstArg.go, hcall]
      rfl
    rw [hgo]
    exact .kept (Or.inr fun c _ _ _ hsome => by rw [hcall] at hsome; cases hsome)
  | some c =>
    obtain ⟨lead, arg, trail, hfirst⟩ := c.exists_firstArgument line
    obtain ⟨head, rest, hopening, hline, hgo⟩ := go_eq wrap l hvalid hcall hfirst
    obtain ⟨-, -, -, -, hargs⟩ := Call.find?_eq_some hcall
    by_cases hchange : arg = [] ∨ wrap arg l = none
    · have hnone : wrapFirstArg.go p wrap line l = none := by
        rw [hgo]
        rcases hchange with rfl | hwrap
        · rfl
        · rw [hwrap, Option.map_none, ite_self]
      rw [hnone]
      refine .kept (Or.inr fun c' lead' arg' trail' hcall' hfirst' => ?_)
      obtain rfl := Option.some.inj (hcall.symm.trans hcall')
      rwa [hfirst.arg_eq hargs hfirst']
    · rw [not_or] at hchange
      obtain ⟨w, hwrap⟩ := Option.ne_none_iff_exists'.1 hchange.2
      rw [hgo, if_neg (by simpa using hchange.1), hwrap]
      exact .replaced hnote hcall hfirst hchange.1 hwrap hopening hline

/-- **First arguments.** In lines of valid UTF-8 a fix of first arguments changes nothing but the
first argument of the call that its pattern finds, whatever it is made into. -/
theorem wrapFirstArg_replaces_argument (p : Pattern) (fragment : List Text)
    (hvalid : ∀ line ∈ fragment, line.isValid = true) :
    ∃ out, wrapFirstArg p wrap fragment l = some out ∧
      List.Forall₂ (Wraps p wrap l) fragment out := by
  refine ⟨_, rfl, ?_⟩
  rw [mapCode, List.forall₂_map_right_iff, List.forall₂_same]
  intro line hline
  by_cases hnote : isNote line = true
  · rw [if_pos hnote]
    exact .kept (Or.inl hnote)
  · rw [if_neg hnote]
    exact wraps_go wrap l (hvalid line hline) (Bool.not_eq_true _ ▸ hnote)

/-- White space of several bytes before an argument that has brackets, quotes and a comma, a note
with a call in it, and a call without arguments. -/
theorem padded_argument_replaced :
    let p := Pattern.spaced [utf8 "eval", utf8 "("]
    let wrap : Text → Language → Option Text := fun arg _ => some ("int(" ++ arg ++ ")")
    let fragment : List Text :=
      [utf8 "# SECURITY: eval(x)", utf8 "x = eval (\u2003f(a, \")\")\u2003, f(a))", utf8 "eval( )"]
    (∀ line ∈ fragment, line.isValid = true) ∧
      wrapFirstArg p wrap fragment .python = some [utf8 "# SECURITY: eval(x)",
        utf8 "x = eval (\u2003int(f(a, \")\"))\u2003, f(a))", utf8 "eval( )"] ∧
      ∃ out, wrapFirstArg p wrap fragment .python = some out ∧
        List.Forall₂ (Wraps p wrap .python) fragment out := by
  intro p wrap fragment
  have hvalid : ∀ line ∈ fragment, line.isValid = true := by decide +kernel
  exact ⟨hvalid, by decide +kernel, wrapFirstArg_replaces_argument wrap .python p fragment hvalid⟩

end Fix
end CodeAudit
