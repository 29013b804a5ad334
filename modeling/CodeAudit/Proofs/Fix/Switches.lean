import CodeAudit.Builtin.Authentication
import CodeAudit.Builtin.Misconfiguration
import CodeAudit.Proofs.Fix.Inversion

/-!
# The switches of two rules

Two rules look for switches in the wrong position, and their fixes invert them. Their patterns are
rows of parts: a name, separators, a value. They match in any letter case, with a long s for an s as
well, while values are inverted only when they are spelled in one of the usual ways. So a line comes
back without a switch in the wrong position exactly when all its values are spelled so, and every
match can be found again when it is read alone; the latter fails at most for names that start with a
long s.

**Results.**
* `exists_setting`, `switch_of_shape`: settings, told from the parts of a pattern.
* `inner_of_names`: what is found of a match that is read alone.
* `switch_debugSwitch`, `switch_cookieSwitch`: the patterns of the two rules.
* `switches_inverted_iff`: the lines on which all switches are inverted.
-/
namespace CodeAudit.Builtin

open Pattern

/-! ## Rows of parts -/

/-- What names are made of: letters, also those that are folded to letters, dots and underscores. -/
def nameRanges :
    List (Nat × Nat) := [(46, 46), (65, 90), (95, 95), (97, 122), (0x17F, 0x17F), (0x212A, 0x212A)]

/-- Whether the first parts of a pattern are a name, the next ones separators, and the others a
value. -/
def settingAt (k : Letters) (i j : Nat) (q : Pattern) : Bool :=
  (q.front i).solid && (q.front i).codesIn nameRanges &&
    ((q.back i).front j).codesIn separators && ((q.back i).front j).hasIn assignMarks &&
    ((q.back i).back j).loopless && ((q.back i).back j).words.all (switchValue.words.contains ·) &&
    ((q.back i).back j).codesIn k.value && ((q.back i).back j).hasIn k.mark

theorem exists_setting {k : Letters} {q : Pattern} {i j : Nat}
    (hq : settingAt k i j q = true) {b a : Option Nat}
    {w : List Nat} (h : q.Piece b w a) : ∃ n s v, w = n ++ (s ++ v) ∧ Setting k n s v ∧
      (q.front i).Piece b n ((s ++ v).head?.or a) := by
  simp only [settingAt, Bool.and_eq_true, List.all_eq_true, List.contains_iff_mem] at hq
  obtain ⟨⟨⟨⟨⟨⟨⟨hname, hnameCodes⟩, hsep⟩, hassign⟩, hloopless⟩, hwords⟩, hvalue⟩, hmark⟩ := hq
  obtain ⟨n, r, rfl, hn, hr⟩ := exists_split i h
  obtain ⟨s, v, rfl, hs, hv⟩ := exists_split j hr
  obtain ⟨x, hx, hfits⟩ := exists_fits hloopless hv
  refine ⟨n, s, v, rfl, ?_, hn⟩
  exact {
    name_ne := ne_nil_of_solid hname hn
    name := fun c hc => CodeSet.hasCode_of_rangesApart (by decide)
      (hasCode_of_codesIn hnameCodes hn c hc)
    sep := hasCode_of_codesIn hsep hs
    assigned := exists_mem_of_hasIn hassign hs
    value := piece_of_fits shape_switchValue.2.1 (hwords x hx) hfits
    codes := hasCode_of_codesIn hvalue hv
    mark := exists_mem_of_hasIn hmark hv }

/-- Whether all a pattern chooses from are rows of this kind, with an edge at the end, and at the
start either an edge or no condition. -/
def switchShape (k : Letters) (parts : List (Nat × Nat)) (p : Pattern) : Bool :=
  p.edged && p.solid && p.firstIn k.first && p.edgeLast && p.branches.all fun q =>
    (q.edgeFirst || q.backAnchored) && parts.any fun ij => settingAt k ij.1 ij.2 q

/-- Whether names start with letters of words, or with a long s. -/
def wordFirst (k : Letters) : Bool :=
  k.first.all fun r => r == (0x17F, 0x17F) || wordRanges.any fun q => q.1 ≤ r.1 && r.2 ≤ q.2

section

variable {k : Letters} {p : Pattern} {parts : List (Nat × Nat)} (hp : switchShape k parts p = true)
  {b a : Option Nat} {w : List Nat} (h : p.Piece b w a)
include hp h

theorem setting_of_shape : ∃ n s v, w = n ++ (s ++ v) ∧ Setting k n s v := by
  simp only [switchShape, Bool.and_eq_true, List.all_eq_true, List.any_eq_true] at hp
  obtain ⟨q, hq, hpiece⟩ := exists_branch h
  obtain ⟨-, ij, -, hij⟩ := hp.2 q hq
  obtain ⟨n, s, v, hw, hset, -⟩ := exists_setting hij hpiece
  exact ⟨n, s, v, hw, hset⟩

theorem after_of_shape : wordSide a = false := by
  obtain ⟨n, s, v, rfl, hset⟩ := setting_of_shape hp h
  simp only [switchShape, Bool.and_eq_true] at hp
  have hside := side_ne_of_edgeLast hp.1.2 h
  rw [← List.append_assoc, getLast?_append_or hset.value_ne, wordSide_getLast?_value hset.value]
    at hside
  simpa using hside

/-- A match that starts with a letter of a word is one at an end of the text as well. -/
theorem alone_of_shape (hk : wordFirst k = true) (hfirst : w.head? ≠ some 0x17F) :
    p.Piece none w none := by
  have hafter := after_of_shape hp h
  simp only [switchShape, Bool.and_eq_true, Bool.or_eq_true, List.all_eq_true] at hp
  obtain ⟨⟨⟨⟨hedged, hsolid⟩, hp_first⟩, -⟩, hbranches⟩ := hp
  have hne := ne_nil_of_solid hsolid h
  have hword : wordSide w.head? = true := by
    obtain ⟨c, w, rfl⟩ := List.exists_cons_of_ne_nil hne
    have hc := hasCode_of_firstIn hp_first h rfl
    rw [List.head?_cons, wordSide, Option.any_some, isWordCode_eq]
    simp only [wordFirst, CodeSet.hasCode, List.all_eq_true, List.any_eq_true, Bool.or_eq_true,
      Bool.and_eq_true, beq_iff_eq, decide_eq_true_eq] at hc hk ⊢
    obtain ⟨r, hr, hrc⟩ := hc
    rcases hk r hr with rfl | ⟨q, hq, hqr⟩
    · exact absurd (by rw [List.head?_cons, Nat.le_antisymm hrc.2 hrc.1]) hfirst
    · exact ⟨q, hq, by omega⟩
  obtain ⟨q, hq, hpiece⟩ := exists_branch h
  rcases (hbranches q hq).1 with hedge | hback
  · have hside := side_ne_of_edgeFirst hedge hpiece
    rw [head?_or hne, hword] at hside
    have hbefore : wordSide b = false := by simpa using hside
    exact h.of_edged hedged hbefore hafter
  · have hmoved : q.Piece none w a := hpiece.of_backAnchored hback
    exact (piece_of_branch hq hmoved).of_edged hedged rfl hafter

end

/-! ## Names that end with other names -/

/-- Whether behind the first set of a name there are only words, and its end is no value. -/
def endsApart (k : Letters) (y : List CodeSet) : Bool :=
  y.tail.all (·.within wordRanges) &&
    match y.reverse with
    | t :: s :: _ => s.disjoint ⟨false, k.value⟩ && t.disjoint ⟨false, k.mark⟩
    | _ => false

/-- Whether a name that another one ends with stands behind a word there, and starts with a word
itself or has an end that is no value. -/
def innerNames (k : Letters) (names : List (List CodeSet)) : Bool :=
  names.all fun x => names.all fun y =>
    x.length ≤ y.length || apart (x.drop (x.length - y.length)) y ||
      (x.take (x.length - y.length)).getLast?.any (·.within wordRanges) &&
        (y.head?.any (·.within wordRanges) || endsApart k y)

/-- A name that is no word at its start, and has an end that is no value. -/
structure EndsApart (k : Letters) (n : List Nat) : Prop where
  tail : ∀ c ∈ n.tail, isWordCode c = true
  ends : ∃ n' c d, n = n' ++ [c, d] ∧ CodeSet.hasCode k.value c = false ∧
    CodeSet.hasCode k.mark d = false

section

variable {k : Letters} {x y : List CodeSet} {u n : List Nat}

theorem endsApart_of_fits (hy : endsApart k y = true) (hn : Fits y n) : EndsApart k n := by
  rw [endsApart, Bool.and_eq_true, List.all_eq_true] at hy
  refine ⟨?_, ?_⟩
  · match y, n, hn with
    | [], [], _ => simp
    | s :: y, c :: n, hn =>
      intro d hd
      rw [isWordCode_eq]
      exact hn.2.hasCode hy.1 d hd
  · obtain ⟨-, hends⟩ := hy
    split at hends
    · rename_i t s r hr
      rw [Bool.and_eq_true] at hends
      obtain rfl : y = r.reverse ++ [s, t] := by
        rw [← List.reverse_reverse y, hr]
        simp
      obtain ⟨n', v, rfl, -, hv⟩ := hn.exists_append
      match v, hv with
      | [c, d], hv =>
        refine ⟨n', c, d, rfl, ?_, ?_⟩
        · simpa [CodeSet.contains, CodeSet.hasCode] using CodeSet.not_contains_of_disjoint
            hends.1 hv.1
        · simpa [CodeSet.contains, CodeSet.hasCode] using CodeSet.not_contains_of_disjoint
            hends.2 hv.2.1
    · cases hends

/-- A name whose end is no value is not the end of a setting, and within it no word ends. -/
theorem EndsApart.closed {p : Pattern} {parts : List (Nat × Nat)}
    (hp : switchShape k parts p = true)
    {s : List Nat} (hn : EndsApart k n) (hs : ∀ c ∈ s, isSeparator c = true) {b : Option Nat}
    {x z f : List Nat}
    (hz : z ≠ []) (heq : n ++ s = z ++ f) : ¬ p.Piece b (x ++ z) f.head? := by
  intro hpiece
  obtain ⟨n', s', v, hdiv, hset⟩ := setting_of_shape hp hpiece
  have hside := after_of_shape hp hpiece
  rcases append_eq_append_cases heq with ⟨e, hze, hse⟩ | ⟨e, he, hne, hfe⟩
  · by_cases he : e = []
    · -- the whole name would be the end of a setting
      subst he
      rw [List.append_nil] at hze
      subst hze
      obtain ⟨r, c, d, rfl, hc, hd⟩ := hn.ends
      have hends : (x ++ r) ++ [c, d] = (n' ++ s') ++ v := by
        rw [List.append_assoc, List.append_assoc, hdiv]
      obtain ⟨m, hm, hmark⟩ := hset.mark
      rcases append_eq_append_cases hends with ⟨y, -, hcd⟩ | ⟨y, -, -, hv⟩
      · match y, hcd with
        | [], hcd =>
          rw [List.nil_append] at hcd
          have := hset.codes c (by simp [← hcd])
          rw [hc] at this
          cases this
        | [_], hcd =>
          rw [List.singleton_append, List.cons.injEq] at hcd
          rw [← hcd.2, List.mem_singleton] at hm
          rw [hm, hd] at hmark
          cases hmark
        | [_, _], hcd =>
          simp only [List.cons_append, List.nil_append, List.cons.injEq] at hcd
          exact hset.value_ne hcd.2.2.symm
        | _ :: _ :: _ :: _, hcd => simp at hcd
      · have := hset.codes c (by simp [hv])
        rw [hc] at this
        cases this
    · -- the setting would end with separators
      refine hset.not_ends_with_sep (x := x ++ n) he (fun c hc => hs c (by simp [hse, hc])) ?_
      rw [← hdiv, hze, List.append_assoc]
  · obtain ⟨c, z, rfl⟩ := List.exists_cons_of_ne_nil hz
    obtain ⟨d, e, rfl⟩ := List.exists_cons_of_ne_nil he
    have hword := hn.tail d (by rw [hne]; simp)
    rw [hfe, List.cons_append, List.head?_cons, wordSide, Option.any_some, hword] at hside
    cases hside

theorem side_of_innerNames {names : List (List CodeSet)} (hnames : innerNames k names = true)
    (hx : x ∈ names) (hy : y ∈ names) (hxn : Fits x (u ++ n)) (hyn : Fits y n) (hu : u ≠ []) :
    wordSide u.getLast? = true ∧ (wordSide n.head? = true ∨ EndsApart k n) := by
  have hlen : x.length - y.length = u.length := by
    rw [hxn.length_eq, hyn.length_eq, List.length_append]
    omega
  obtain ⟨hxu, hxn⟩ := hxn.cut
  have hpos := List.length_pos_iff.2 hu
  simp only [innerNames, List.all_eq_true, Bool.or_eq_true, Bool.and_eq_true, decide_eq_true_eq,
    Option.any_eq_true] at hnames
  rcases hnames x hx y hy with (hle | hapart) | ⟨⟨s, hs, hword⟩, hname⟩
  · omega
  · rw [hlen] at hapart
    exact absurd (List.prefix_refl n) (not_prefix_of_apart hapart hxn hyn)
  · rw [hlen] at hs
    obtain ⟨c, hc, hcs⟩ := hxu.getLast? hs
    refine ⟨?_, ?_⟩
    · rw [hc, wordSide, Option.any_some, isWordCode_eq]
      exact CodeSet.hasCode_of_within hword hcs
    · rcases hname with ⟨t, ht, htword⟩ | hends
      · obtain ⟨d, hd, hdt⟩ := hyn.head? ht
        rw [hd, wordSide, Option.any_some, isWordCode_eq]
        exact Or.inl (CodeSet.hasCode_of_within htword hdt)
      · exact Or.inr (endsApart_of_fits hends hyn)

end

section

variable {k : Letters} {p : Pattern} {parts : List (Nat × Nat)} (hp : switchShape k parts p = true)
  (hk : wordFirst k = true)
include hp hk

/-- A match that starts with a long s behind a word is not found as a whole when it is read alone.
What is found of it then starts with a long s behind a word as well. -/
theorem inner_of_names (hedge : p.edgeFirst = true) {i j : Nat} (hparts : settingAt k i j p = true)
    (hloopless : (p.front i).loopless = true) (hnames : innerNames k (p.front i).words = true)
    {b a : Option Nat}
    {u w n s v : List Nat} (hu : u ≠ []) (hpiece : p.Piece b (u ++ w) a)
    (hnot : ¬ p.Piece none (u ++ w) none)
    (hfound : p.Piece u.getLast? w none) (hw : w = n ++ (s ++ v)) (hset : Setting k n s v) :
    Inner p b u w n s := by
  obtain ⟨N, S, V, hdiv, hSet, hN⟩ := exists_setting hparts hpiece
  obtain ⟨n', s', v', hdiv', hset', hn'⟩ := exists_setting hparts hfound
  obtain ⟨hsame, -⟩ := hset.name_eq hset' (x := []) (by rw [← hw, hdiv', List.nil_append])
  rw [List.nil_append] at hsame
  subst hsame
  obtain ⟨rfl, -⟩ := hSet.name_eq hset (by rw [← hdiv, hw])
  obtain ⟨x, hx, hxn⟩ := exists_fits hloopless hN
  obtain ⟨y, hy, hyn⟩ := exists_fits hloopless hn'
  obtain ⟨hlast, hname⟩ := side_of_innerNames hnames hx hy hxn hyn hu
  have hw_head : wordSide w.head? = false := by
    have hside := side_ne_of_edgeFirst hedge hfound
    rw [hlast, Option.or_none] at hside
    simpa using hside
  have hhead : wordSide (u ++ w).head? = false := by
    have hfirst : (u ++ w).head? = some 0x17F :=
      Classical.not_not.1 fun hne => hnot (alone_of_shape hp hpiece hk hne)
    rw [hfirst]
    decide
  have hbefore : wordSide b = true := by
    have hside := side_ne_of_edgeFirst hedge hpiece
    rw [head?_or (List.append_ne_nil_of_left_ne_nil hu w), hhead] at hside
    simpa using hside
  refine ⟨by rw [hw_head, hhead], by rw [hlast, hbefore], fun hz _ heq => ?_⟩
  rcases hname with hword | hends
  · rw [hw, List.head?_append, head?_or hset.name_ne, hword] at hw_head
    cases hw_head
  · exact hends.closed hp hset.sep hz heq

/-- A pattern of this shape is one of switches, when it is told what can be found of matches that
are read alone. -/
theorem switch_of_shape (hsep : CodeSet.rangesApart k.first separators = true)
    (hread : CodeSet.hasCode k.first replacement = false)
    (hturns : ∀ s ∈ flipBoolean.switchPairs,
      (∀ c ∈ Text.codes (utf8 s.1), CodeSet.hasCode k.value c = true) →
      Inverse k (Text.codes (utf8 s.2)))
    (hinner : ∀ {b a : Option Nat} {u w n s v : List Nat}, u ≠ [] → p.Piece b (u ++ w) a →
      ¬ p.Piece none (u ++ w) none → p.Piece u.getLast? w none → w = n ++ (s ++ v) →
      Setting k n s v → Inner p b u w n s) : Switch p k := by
  refine ⟨?_, ?_, ?_, hsep, hread, hturns, setting_of_shape hp, after_of_shape hp,
    fun h => alone_of_shape hp h hk, hinner⟩
  all_goals
    simp only [switchShape, Bool.and_eq_true] at hp
    simp only [hp]

/-- When no name starts with a long s, every match is found as a whole. -/
theorem inner_of_first (hfirst : CodeSet.hasCode k.first 0x17F = false) {b a : Option Nat}
    {u w n s : List Nat}
    (hpiece : p.Piece b (u ++ w) a) (hnot : ¬ p.Piece none (u ++ w) none) : Inner p b u w n s := by
  refine absurd (alone_of_shape hp hpiece hk fun hhead => ?_) hnot
  simp only [switchShape, Bool.and_eq_true] at hp
  have := hasCode_of_firstIn hp.1.1.2 hpiece hhead
  rw [hfirst] at this
  cases this

end

/-! ## The two patterns -/

/-- Letters of switches that are on where they should be off. -/
def debugLetters : Letters where
  first := [(68, 68), (100, 100)]
  value := [(49, 49), (69, 69), (78, 79), (82, 82), (84, 85), (101, 101), (110, 111), (114, 114),
    (116, 117)]
  mark := [(49, 49), (78, 78), (84, 84), (110, 110), (116, 116)]

/-- Letters of switches that are off where they should be on. -/
def cookieLetters : Letters where
  first := [(72, 72), (83, 83), (104, 104), (115, 115), (0x17F, 0x17F)]
  value := [(48, 48), (65, 65), (69, 70), (76, 76), (79, 79), (83, 83), (97, 97), (101, 102),
    (108, 108), (111, 111), (115, 115), (0x17F, 0x17F)]
  mark := [(48, 48), (70, 70), (102, 102)]

theorem shape_debugSwitch :
    switchShape debugLetters [(6, 3), (14, 5)] debugSwitch = true := by decide +kernel

theorem shape_cookieSwitch : switchShape cookieLetters [(4, 5)] cookieSwitch = true ∧
    cookieSwitch.edgeFirst = true ∧ settingAt cookieLetters 4 5 cookieSwitch = true ∧
    (cookieSwitch.front 4).loopless = true ∧
      innerNames cookieLetters (cookieSwitch.front 4).words = true := by
  decide +kernel

theorem switch_debugSwitch : Switch debugSwitch debugLetters :=
  switch_of_shape shape_debugSwitch (by decide) (by decide) (by decide) (by decide +kernel)
    fun _ hpiece hnot _ _ _ => inner_of_first shape_debugSwitch (by decide) (by decide) hpiece hnot

theorem switch_cookieSwitch : Switch cookieSwitch cookieLetters := by
  obtain ⟨hshape, hedge, hparts, hloopless, hnames⟩ := shape_cookieSwitch
  exact switch_of_shape hshape (by decide) (by decide) (by decide) (by decide +kernel)
    (inner_of_names hshape (by decide) hedge hparts hloopless hnames)

/-! ## The two rules -/

/-- The rule looks for switches on lines, and its fix inverts them below a note. -/
structure InvertsSwitches (r : Rule) (p : Pattern) : Prop where
  pattern : r.matcher.pattern = some p
  letters : ∃ k, Switch p k
  fix : ∃ text : Text, r.fix = some (.withNote text (flipLast p)) ∧
    ∀ (l : Language) (new : Text), p.matchesIn (note l new.indent text) = false

theorem invertsSwitches_debugModeEnabled : InvertsSwitches debugModeEnabled debugSwitch := by
  refine ⟨rfl, ⟨_, switch_debugSwitch⟩, _, rfl, ?_⟩
  exact switch_debugSwitch.not_matchesIn_note (c := 100) (by decide +kernel) (by decide +kernel)
    (by decide) (by decide)

theorem invertsSwitches_insecureCookie : InvertsSwitches insecureCookie cookieSwitch := by
  refine ⟨rfl, ⟨_, switch_cookieSwitch⟩, _, rfl, ?_⟩
  exact switch_cookieSwitch.not_matchesIn_note (c := 115) (by decide +kernel) (by decide +kernel)
    (by decide) (by decide)

/-- The match is found again in its own text, and its value is spelled in one of the usual ways. -/
def Invertible (p : Pattern) (t : Text) : Prop := p.matchesIn t = true ∧ Spelled t

instance (p : Pattern) (t : Text) :
    Decidable (Invertible p t) := inferInstanceAs (Decidable (_ ∧ _))

theorem InvertsSwitches.clean_iff {r : Rule} {p : Pattern} (h : InvertsSwitches r p) {line : Text}
    (hline : isNote line = false) (l : Language) : ∃ fix, r.fix = some fix ∧
      ((∃ out, fix [line] l = some out ∧ ∀ x ∈ out, p.matchesIn x = false) ↔
        ∀ m ∈ p.findAll line, Invertible p (m.text line)) := by
  obtain ⟨text, hfix, hnote⟩ := h.fix
  obtain ⟨k, hswitch⟩ := h.letters
  refine ⟨_, hfix, ?_⟩
  by_cases hread : ∀ m ∈ p.findAll line, p.matchesIn (m.text line) = true
  · obtain ⟨new, hnew, hclean⟩ := hswitch.flipLast_eq_some hline l hread
    obtain ⟨out, hout, hmem, hlines⟩ := Fix.withNote_line text hnew
    constructor
    · rintro ⟨out', hout', hnone⟩ m hm
      obtain rfl : out = out' := Option.some.inj (hout.symm.trans hout')
      exact ⟨hread m hm, hclean.1 (hnone new hmem) m hm⟩
    · intro hall
      refine ⟨out, hout, fun x hx => ?_⟩
      rcases hlines x hx with rfl | rfl
      · exact hclean.2 fun m hm => (hall m hm).2
      · exact hnote l new
  · -- a match that is not found again makes the fix fail
    refine iff_of_false ?_ fun hall => hread fun m hm => (hall m hm).1
    simp only [Classical.not_forall, Bool.not_eq_true, exists_prop] at hread
    obtain ⟨m, hm, hlost⟩ := hread
    rintro ⟨out, hout, -⟩
    rw [Fix.withNote, flipLast_eq_none hline l hm hlost, Option.bind_none] at hout
    cases hout

/-- **Inverted switches.** The fix of a rule for switches leaves no switch in the wrong position on
a line exactly when every match is found again in its own text and has its value spelled in one of
the usual ways. Only a match that starts with a long s may not be found again. -/
theorem switches_inverted_iff {r : Rule} {p : Pattern}
    (hr : (r = insecureCookie ∧ p = cookieSwitch) ∨ (r = debugModeEnabled ∧ p = debugSwitch))
    {line : Text}
    (hline : isNote line = false) (l : Language) : ∃ fix, r.matcher.pattern = some p ∧
      r.fix = some fix ∧ ((∃ out, fix [line] l = some out ∧ ∀ x ∈ out, p.matchesIn x = false) ↔
        ∀ m ∈ p.findAll line, Invertible p (m.text line)) ∧
      ∀ m ∈ p.findAll line, (m.text line).codes.head? ≠ some 0x17F →
        p.matchesIn (m.text line) = true := by
  have h : InvertsSwitches r p := by
    rcases hr with ⟨hr, hp⟩ | ⟨hr, hp⟩
    · rw [hr, hp]
      exact invertsSwitches_insecureCookie
    · rw [hr, hp]
      exact invertsSwitches_debugModeEnabled
  obtain ⟨fix, hfix, hclean⟩ := h.clean_iff hline l
  obtain ⟨k, hswitch⟩ := h.letters
  exact ⟨fix, h.pattern, hfix, hclean, fun m hm hfirst => hswitch.matchesIn_alone hm hfirst⟩

/-- Two switches on one line are both inverted. -/
theorem debug_output_switched_off :
    (debugSwitch.findAll "debug=True, 'display_errors', ON").length = 2 ∧
    ∃ fix, debugModeEnabled.fix = some fix ∧ ∃ out,
      fix ["debug=True, 'display_errors', ON"] .python = some out ∧
        ∀ x ∈ out, debugSwitch.matchesIn x = false := by
  have hline : isNote "debug=True, 'display_errors', ON" = false := by decide +kernel
  have hall : ∀ m ∈ debugSwitch.findAll "debug=True, 'display_errors', ON",
      Invertible debugSwitch (m.text "debug=True, 'display_errors', ON") := by decide +kernel
  obtain ⟨fix, -, hfix, hclean, -⟩ := switches_inverted_iff (Or.inr ⟨rfl, rfl⟩) hline .python
  exact ⟨by decide +kernel, fix, hfix, hclean.2 hall⟩

/-- A value in an unusual letter case is matched, and kept by the fix. -/
theorem unusual_spelling_kept :
    isNote "debug = tRUE" = false ∧ debugSwitch.matchesIn "debug = tRUE" = true ∧
    ∃ fix, debugModeEnabled.fix = some fix ∧
      fix ["debug = tRUE"] .python = some [utf8 "debug = tRUE"] := by
  have hkept : flipLast debugSwitch ["debug = tRUE"] .python = some [utf8 "debug = tRUE"] := by
    decide +kernel
  exact ⟨by decide +kernel, by decide +kernel, _, rfl, Fix.withNote_line_of_eq hkept⟩

end CodeAudit.Builtin
