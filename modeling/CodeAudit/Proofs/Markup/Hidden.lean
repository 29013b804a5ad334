import CodeAudit.Proofs.Markup.Locality

/-!
# Text put into comments and raw text

A comment or a raw text that reaches beyond a closing bracket goes on from there in one way:
whatever stands before the bracket, no dash and no name is half read. So a text that closes nothing
can be put behind the bracket, and the page is read as before, whoever builds it.

**Results.**
* `slips_of_isFlat`, `slips_tag`: texts that close nothing.
* `readToken?_comment`, `rawLength_insert`: comments and raw texts beyond a bracket.
* `mem_rawContent`: character references do not swallow a bracket.
* `Construction.metas_comment_insert`, `Construction.metas_raw_insert`: the page with more text in
  one of them.
-/
namespace CodeAudit.Markup

/-! ## Texts that close nothing -/

/-- No dashes were read just now. -/
def ScriptMode.Flat : ScriptMode → Prop
  | .plain => True
  | .escaped dashes => dashes = 0
  | .doubled dashes => dashes = 0

/-- The text makes no difference to a comment or a raw text it stands in. -/
structure Slips (z : Text) : Prop where
  comment (t : Text) : afterComment 0 false (z ++ t) = afterComment 0 false t
  raw (tag : Text) (i : Nat) (t : Text) : rawEnd tag i (z ++ t) = rawEnd tag (i + z.length) t
  script {mode : ScriptMode} (h : mode.Flat) (i : Nat) (t : Text) :
    scriptEnd mode 0 i (z ++ t) = scriptEnd mode 0 (i + z.length) t

theorem Slips.append {y z : Text} (hy : Slips y) (hz : Slips z) : Slips (y ++ z) where
  comment t := by rw [List.append_assoc, hy.comment, hz.comment]
  raw tag i t := by rw [List.append_assoc, hy.raw, hz.raw, List.length_append, Nat.add_assoc]
  script h i t := by rw [List.append_assoc, hy.script h, hz.script h, List.length_append,
    Nat.add_assoc]

/-- Whether a text opens no markup, holds no two dashes in a row and does not end in one, given
whether a dash comes before it. -/
def isFlat : Bool → Text → Bool
  | dash, [] => !dash
  | dash, b :: t => if b == 45 then !dash && isFlat true t else b != 60 && isFlat false t

/-- The mode after a dash, or after another byte that changes nothing. -/
def ScriptMode.after : ScriptMode → Bool → ScriptMode
  | .plain, _ => .plain
  | .escaped _, dash => .escaped dash.toNat
  | .doubled _, dash => .doubled dash.toNat

theorem ScriptMode.Flat.after {mode : ScriptMode} (h : mode.Flat) : mode.after false = mode := by
  cases mode with
  | plain => rfl
  | escaped dashes | doubled dashes =>
    cases h
    rfl

/-- One byte of such a text. -/
theorem isFlat_cons {dash : Bool} {b : UInt8} {t : Text} (h : isFlat dash (b :: t) = true) :
    b ≠ 60 ∧ (b = 45 → dash = false) ∧ isFlat (b == 45) t = true := by
  rw [isFlat] at h
  by_cases hb : b = 45
  · subst hb
    simpa using h
  · rw [if_neg (by simpa using hb)] at h
    rw [beq_false_of_ne hb]
    simpa [hb] using h

theorem afterComment_flat {dash : Bool} {z : Text} (h : isFlat dash z = true) (t : Text) :
    afterComment dash.toNat false (z ++ t) = afterComment 0 false t := by
  induction z generalizing dash with
  | nil =>
    cases dash with
    | false => rfl
    | true => cases h
  | cons b z ih =>
    obtain ⟨-, hdash, hz⟩ := isFlat_cons h
    have hnext := ih hz
    rw [List.cons_append, afterComment_cons]
    by_cases hb : b = 45
    · rw [if_pos (beq_iff_eq.2 hb), hdash hb]
      rwa [beq_iff_eq.2 hb] at hnext
    · have hfew : ¬ 2 ≤ dash.toNat := Nat.not_le.2 (Nat.lt_succ_of_le (Bool.toNat_le dash))
      rw [beq_false_of_ne hb] at hnext ⊢
      simpa [hfew] using hnext

theorem rawEnd_flat {dash : Bool} {z : Text} (h : isFlat dash z = true) (tag : Text) (i : Nat)
    (t : Text) :
    rawEnd tag i (z ++ t) = rawEnd tag (i + z.length) t := by
  induction z generalizing dash i with
  | nil => rfl
  | cons b z ih =>
    obtain ⟨hb, -, hz⟩ := isFlat_cons h
    rw [List.cons_append, rawEnd, beq_false_of_ne hb, Bool.false_and,
      if_neg Bool.false_ne_true, ih hz, List.length_cons]
    congr 1
    omega

theorem scriptStep?_flat {dash : Bool} {b : UInt8} (hb : b ≠ 60) (hdash : b = 45 → dash = false)
    (mode : ScriptMode) (t : Text) :
    scriptStep? (mode.after dash) b t = some (mode.after (b == 45), 0) := by
  have hfew : ¬ 2 ≤ dash.toNat := Nat.not_le.2 (Nat.lt_succ_of_le (Bool.toNat_le dash))
  by_cases h45 : b = 45
  · cases hdash h45
    subst h45
    cases mode <;> rfl
  · rw [beq_false_of_ne h45]
    cases mode <;> simp [scriptStep?, ScriptMode.after, hb, h45, hfew]

theorem scriptEnd_flat {dash : Bool} {z : Text} (h : isFlat dash z = true) (mode : ScriptMode)
    (i : Nat) (t : Text) :
    scriptEnd (mode.after dash) 0 i (z ++ t) = scriptEnd (mode.after false) 0 (i + z.length) t := by
  induction z generalizing dash i with
  | nil =>
    cases dash with
    | false => rfl
    | true => cases h
  | cons b z ih =>
    obtain ⟨hb, hdash, hz⟩ := isFlat_cons h
    rw [List.cons_append, scriptEnd_cons, scriptStep?_flat hb hdash]
    refine (ih hz (i + 1)).trans ?_
    rw [List.length_cons]
    congr 1
    omega

theorem slips_of_isFlat {z : Text} (h : isFlat false z = true) : Slips z where
  comment t := afterComment_flat h t
  raw tag i t := rawEnd_flat h tag i t
  script {mode} hflat i t := by
    have hend := scriptEnd_flat h mode i t
    rwa [hflat.after] at hend

theorem isFlat_of_not_mem {z : Text} (hdash : 45 ∉ z) (hopens : 60 ∉ z) :
    isFlat false z = true := by
  induction z with
  | nil => rfl
  | cons b z ih =>
    obtain ⟨hb, hdash⟩ := not_or.1 (mt List.mem_cons.2 hdash)
    obtain ⟨hb', hopens⟩ := not_or.1 (mt List.mem_cons.2 hopens)
    rw [isFlat, if_neg (by simpa using Ne.symm hb), ih hdash hopens, bne_iff_ne.2 (Ne.symm hb'),
      Bool.and_self]

theorem isFlat_of_isSpaceText {z : Text} (h : isSpaceText z = true) : isFlat false z = true :=
  isFlat_of_not_mem (fun hb => absurd (List.all_eq_true.1 h _ hb) (by decide))
    fun hb => absurd (List.all_eq_true.1 h _ hb) (by decide)

theorem startsWithWord_cons (b a : UInt8) (t word : Text) :
    startsWithWord (b :: t) (a :: word) = (Text.asciiLower b == a && startsWithWord t word) := by
  simp [startsWithWord, lowerAscii]

/-- **A tag** that opens no script and ends no element slips through, brackets and all. -/
theorem slips_tag {b : UInt8} {z : Text} (hletter : isLetter b = true)
    (hscript : Text.asciiLower b ≠ 115)
    (h : isFlat false (b :: z) = true) : Slips (60 :: b :: z) := by
  have hflat := slips_of_isFlat h
  have hslash : Text.asciiLower b ≠ 47 := by
    unfold isLetter at hletter
    unfold Text.asciiLower
    grind
  have hend : ∀ tag t, isRawEnd tag (b :: t) = false := fun tag t => by
    rw [isRawEnd, startsWithWord_cons, beq_false_of_ne hslash, Bool.false_and, Bool.false_and]
  have hb : b ≠ 33 ∧ b ≠ 47 := by
    constructor <;>
    · rintro rfl
      exact absurd hletter (by decide)
  have hword : ∀ t, startsWithWord (b :: t) "script" = false := fun t => by
    refine (startsWithWord_cons b 115 t [99, 114, 105, 112, 116]).trans ?_
    rw [beq_false_of_ne hscript, Bool.false_and]
  refine ⟨fun t => ?_, fun tag i t => ?_, fun {mode} hmode i t => ?_⟩
  · exact hflat.comment t
  · rw [List.cons_append, rawEnd, List.cons_append, hend, Bool.and_false, if_neg Bool.false_ne_true,
      ← List.cons_append, hflat.raw]
    congr 1
    simp only [List.length_cons]
    omega
  · have hstep : scriptStep? mode 60 (b :: z ++ t) = some (mode, 0) := by
      have hdash : Text.startsWith (b :: (z ++ t)) "!--" = false := by
        change List.isPrefixOf [33, 45, 45] (b :: (z ++ t)) = false
        rw [List.isPrefixOf_cons_cons, beq_false_of_ne hb.1.symm, Bool.false_and]
      cases mode with
      | plain => simp [scriptStep?, hdash, hend]
      | escaped dashes =>
        cases hmode
        simp [scriptStep?, hend, hword, hb.2, hletter]
      | doubled dashes =>
        cases hmode
        simp [scriptStep?, hend]
    rw [List.cons_append, scriptEnd_cons, hstep]
    refine (hflat.script hmode (i + 1) t).trans ?_
    congr 1
    simp only [List.length_cons]
    omega

/-! ## Beyond a closing bracket -/

/-- The text ends with a closing bracket, if it is not empty. -/
def Sealed (y : Text) : Prop := ∀ b, y.getLast? = some b → b = 62

theorem sealed_of_getLast? {y : Text} (h : y.getLast? = some 62) : Sealed y := fun _ hb =>
  Option.some.inj (hb.symm.trans h)

theorem Sealed.mem {y : Text} (h : Sealed y) (hne : y ≠ []) : 62 ∈ y := by
  rw [← h _ (List.getLast?_eq_some_getLast hne)]
  exact List.getLast_mem hne

theorem Sealed.tail {b : UInt8} {y : Text} (h : Sealed (b :: y)) : Sealed y := fun c hc =>
  h c (by rw [List.getLast?_cons, hc, Option.getD_some])

theorem Sealed.ne_nil {b : UInt8} {y : Text} (h : Sealed (b :: y)) (hb : b ≠ 62) : y ≠ [] := by
  rintro rfl
  exact hb (h b rfl)

/-- A comment ends before the bracket, or it goes on behind it with no dashes read. -/
theorem afterComment_sealed {y : Text} (hy : Sealed y) (hne : y ≠ []) (dashes : Nat)
    (beginning : Bool) :
    (∃ w, ∀ t, afterComment dashes beginning (y ++ t) = w ++ t) ∨
      ∀ t, afterComment dashes beginning (y ++ t) = afterComment 0 false t := by
  fun_induction afterComment dashes beginning y with
  | case1 => exact absurd rfl hne
  | case2 dashes beginning b u hb ih =>
    have hstep := fun t => (afterComment_cons dashes beginning b (u ++ t)).trans (if_pos hb)
    simp only [List.cons_append, hstep]
    exact ih hy.tail (hy.ne_nil (eq_of_beq hb ▸ by decide))
  | case3 dashes beginning b u hb h62 =>
    refine .inl ⟨u, fun t => ?_⟩
    rw [List.cons_append, afterComment_cons, if_neg hb, if_pos h62]
  | case4 dashes beginning b hb h62 h33 =>
    exact absurd rfl (hy.ne_nil (eq_of_beq (Bool.and_eq_true_iff.1 h33).1 ▸ by decide))
  | case5 dashes beginning b hb h62 h33 b' v hb' =>
    refine .inl ⟨v, fun t => ?_⟩
    rw [List.cons_append, afterComment_cons, if_neg hb, if_neg h62, if_pos h33]
    exact if_pos hb'
  | case6 dashes beginning b hb h62 h33 b' v hb' h45 ih =>
    have hstep : ∀ t, afterComment dashes beginning (b :: (b' :: v) ++ t) =
        afterComment 1 false (v ++ t) :=
      fun t => by
        rw [List.cons_append, afterComment_cons, if_neg hb, if_neg h62, if_pos h33]
        exact (if_neg hb').trans (if_pos h45)
    simp only [hstep]
    exact ih hy.tail.tail (hy.tail.ne_nil (eq_of_beq h45 ▸ by decide))
  | case7 dashes beginning b hb h62 h33 b' v hb' h45 ih =>
    have hstep : ∀ t, afterComment dashes beginning (b :: (b' :: v) ++ t) =
        afterComment 0 false (v ++ t) :=
      fun t => by
        rw [List.cons_append, afterComment_cons, if_neg hb, if_neg h62, if_pos h33]
        exact (if_neg hb').trans (if_neg h45)
    simp only [hstep]
    exact ih hy.tail.tail (hy.tail.ne_nil fun h => hb' (beq_iff_eq.2 h))
  | case8 dashes beginning b u hb h62 h33 ih =>
    have hstep : ∀ t, afterComment dashes beginning (b :: u ++ t) = afterComment 0 false (u ++ t) :=
      fun t => by
      rw [List.cons_append, afterComment_cons, if_neg hb, if_neg h62, if_neg h33]
    by_cases hu : u = []
    · subst hu
      exact .inr hstep
    · simp only [hstep]
      exact ih hy.tail hu

theorem rawEnd_sealed {tag y : Text} (htag : 62 ∉ tag) (hy : Sealed y) {i : Nat} {R : Text}
    (h : i + y.length ≤ rawEnd tag i (y ++ R)) (t : Text) :
    rawEnd tag i (y ++ t) = rawEnd tag (i + y.length) t := by
  induction y generalizing i with
  | nil => rfl
  | cons b y ih =>
    rw [List.length_cons, List.cons_append, rawEnd] at h
    split at h
    · omega
    · rename_i hstop
      have hstop' : ¬ (b == 60 && isRawEnd tag (y ++ t)) = true := fun hend => hstop <| by
        have hb := (Bool.and_eq_true_iff.1 hend).1
        have hmem := hy.tail.mem (hy.ne_nil (eq_of_beq hb ▸ by decide))
        rwa [isRawEnd_congr hmem t R htag] at hend
      rw [List.cons_append, rawEnd, if_neg hstop', ih hy.tail (by omega), List.length_cons]
      congr 1
      omega

theorem length_lt_of_startsWith {w word R : Text} (hw : 62 ∈ w) (hword : 62 ∉ word)
    (h : Text.startsWith (w ++ R) word = true) : word.length < w.length := by
  rw [startsWith_congr hw R [] hword, List.append_nil] at h
  have hpre := List.isPrefixOf_iff_prefix.1 h
  refine Nat.lt_of_le_of_ne hpre.length_le fun hlength => ?_
  exact hword (hpre.eq_of_length hlength ▸ hw)

/-- A script is read on byte by byte, except for the words that a left bracket may open. -/
theorem scriptStep?_cases {mode mode' : ScriptMode} {skip : Nat} {b : UInt8} {t : Text}
    (h : scriptStep? mode b t = some (mode', skip)) :
    (skip = 0 ∧ (b ≠ 45 → mode'.Flat)) ∨ b = 60 ∧
      ((skip = 3 ∧ Text.startsWith t "!--" = true) ∨
        (skip = 7 ∧ mode' = .doubled 0 ∧ startsWithWord t "script" = true) ∨
        (skip = 8 ∧ mode' = .escaped 0 ∧ isRawEnd "script" t = true)) := by
  cases mode with
  | plain =>
    simp only [scriptStep?] at h
    split_ifs at h <;> cases h <;> simp_all [ScriptMode.Flat]
  | escaped dashes =>
    simp only [scriptStep?] at h
    split_ifs at h <;> cases h <;> simp_all [ScriptMode.Flat]
  | doubled dashes =>
    simp only [scriptStep?] at h
    split_ifs at h <;> cases h <;> simp_all [ScriptMode.Flat]

/-- The bytes that need no look end at the bracket at the latest, and then no dashes were read. -/
theorem scriptStep?_sealed {mode mode' : ScriptMode} {skip : Nat} {b : UInt8} {y R : Text}
    (hy : Sealed (b :: y)) (h : scriptStep? mode b (y ++ R) = some (mode', skip)) :
    skip ≤ y.length ∧ (skip = y.length → mode'.Flat) := by
  obtain ⟨rfl, hflat⟩ | ⟨rfl, hword⟩ := scriptStep?_cases h
  · refine ⟨Nat.zero_le _, fun hlength => hflat ?_⟩
    rintro rfl
    exact hy.ne_nil (by decide) (List.length_eq_zero_iff.1 hlength.symm)
  · have hmem := hy.tail.mem (hy.ne_nil (by decide))
    obtain ⟨rfl, hstarts⟩ | ⟨rfl, rfl, hstarts⟩ | ⟨rfl, rfl, hends⟩ := hword
    · have hlt : 3 < y.length := length_lt_of_startsWith hmem (by decide) hstarts
      exact ⟨Nat.le_of_lt hlt, fun heq => absurd heq (Nat.ne_of_lt hlt)⟩
    · exact ⟨(startsWithWord_congr hmem R R (by decide)).2 hstarts, fun _ => rfl⟩
    · exact ⟨(startsWithWord_congr hmem R R (by decide)).2 (Bool.and_eq_true_iff.1 hends).1,
        fun _ => rfl⟩

theorem scriptEnd_sealed {mode : ScriptMode} {skip i : Nat} {y R : Text} (hy : Sealed y)
    (hskip : skip ≤ y.length) (hflat : skip = y.length → mode.Flat)
    (h : i + y.length ≤ scriptEnd mode skip i (y ++ R)) :
    ∃ mode', mode'.Flat ∧
      ∀ t, scriptEnd mode skip i (y ++ t) = scriptEnd mode' 0 (i + y.length) t := by
  induction y generalizing mode skip i with
  | nil =>
    obtain rfl := Nat.le_zero.1 hskip
    exact ⟨mode, hflat rfl, fun _ => rfl⟩
  | cons b y ih =>
    have hshift : i + (b :: y).length = i + 1 + y.length := by
      rw [List.length_cons]
      omega
    rw [hshift] at h ⊢
    cases skip with
    | succ skip =>
      simp only [List.cons_append, scriptEnd] at h ⊢
      exact ih hy.tail (Nat.le_of_succ_le_succ hskip) (fun heq => hflat (congrArg (· + 1) heq)) h
    | zero =>
      rw [List.cons_append, scriptEnd_cons] at h
      cases hstep : scriptStep? mode b (y ++ R) with
      | none =>
        rw [hstep] at h
        dsimp only at h
        omega
      | some next =>
        obtain ⟨mode', skip⟩ := next
        have hstep' : ∀ t, scriptStep? mode b (y ++ t) = some (mode', skip) := fun t =>
          (scriptStep?_congr (fun hb : b = 60 => hy.tail.mem (hy.ne_nil (hb ▸ by decide))) mode t
            R).trans hstep
        obtain ⟨hskip', hflat'⟩ := scriptStep?_sealed hy hstep
        rw [hstep] at h
        simp only [List.cons_append, scriptEnd_cons, hstep']
        exact ih hy.tail hskip' hflat' h

/-! ## More text -/

theorem rawEnd_add (tag : Text) (i k : Nat) (t : Text) :
    rawEnd tag (i + k) t = rawEnd tag i t + k := by
  induction t generalizing i with
  | nil => rfl
  | cons b t ih =>
    rw [rawEnd, rawEnd]
    split
    · rfl
    · rw [← ih (i + 1), Nat.add_right_comm]

theorem scriptEnd_add (mode : ScriptMode) (skip i k : Nat) (t : Text) :
    scriptEnd mode skip (i + k) t = scriptEnd mode skip i t + k := by
  induction t generalizing mode skip i with
  | nil => rw [scriptEnd, scriptEnd]
  | cons b t ih =>
    cases skip with
    | succ skip =>
      rw [scriptEnd, scriptEnd, ← ih mode skip (i + 1), Nat.add_right_comm]
    | zero =>
      rw [scriptEnd_cons, scriptEnd_cons]
      split
      · rfl
      · rw [← ih _ _ (i + 1), Nat.add_right_comm]

theorem length_le_afterBracket {y : Text} (h : 62 ∈ y) (R : Text) :
    R.length ≤ (afterBracket (y ++ R)).length := by
  induction y with
  | nil => exact absurd h List.not_mem_nil
  | cons b y ih =>
    by_cases hb : b = 62
    · subst hb
      exact (List.suffix_append y R).length_le
    · have hskip : afterBracket (b :: y ++ R) = afterBracket (y ++ R) := by
        simp [afterBracket, hb]
      rw [hskip]
      exact ih (List.mem_of_ne_of_mem (Ne.symm hb) h)

/-- What a declaration does when it reads beyond a closing bracket: it is a comment with dashes. -/
theorem readDeclaration_comment {sections : Bool} {y R : Text} (hy : Sealed y) (hne : y ≠ [])
    (h : (readDeclaration sections (y ++ R)).1 = .comment)
    (hlt : (readDeclaration sections (y ++ R)).2.length < R.length) (t : Text) :
    readDeclaration sections (y ++ t) = (.comment, afterComment 0 false t) := by
  have hmem := hy.mem hne
  have hbracket := length_le_afterBracket hmem R
  unfold readDeclaration at h hlt
  split_ifs at h hlt with hlength hdashes hdoctype hsection
  · have hpos := List.length_pos_iff.2 hne
    rw [List.length_append] at hlength
    dsimp only [List.length_nil] at hlt
    omega
  · have hlong : 2 < y.length := length_lt_of_startsWith hmem (by decide) hdashes
    have hdrop : ∀ u : Text, (y ++ u).drop 2 = y.drop 2 ++ u := fun u =>
      List.drop_append_of_le_length (Nat.le_of_lt hlong)
    have hsealed : Sealed (y.drop 2) :=
      fun b hb => hy b (by rwa [List.getLast?_drop, if_neg (by omega)] at hb)
    have hlength' : ¬ (y ++ t).length < 2 := by
      rw [List.length_append]
      omega
    rw [readDeclaration, if_neg hlength', startsWith_congr hmem t R (by decide),
      if_pos hdashes, hdrop]
    have hne' : y.drop 2 ≠ [] := List.ne_nil_of_length_pos (by rw [List.length_drop]; omega)
    obtain ⟨w, hends⟩ | hgoes := afterComment_sealed hsealed hne' 0 true
    · rw [hdrop, hends, List.length_append] at hlt
      omega
    · rw [hgoes]
  · exact absurd hlt (Nat.not_lt.2 hbracket)

section
variable {sections : Bool} {y R : Text} {s : Source} (hy : y.getLast? = some 62)
  (hlt : s.rest.length < R.length)
include hy hlt

/-- **A comment** beyond a closing bracket is the rest of one, whatever follows the bracket. -/
theorem readToken?_comment (h : readToken? sections (y ++ R) = some (.comment, s)) (t : Text) :
    readToken? sections (y ++ t) = some (.comment, ⟨afterComment 0 false t, []⟩) := by
  have hsealed := sealed_of_getLast? hy
  obtain ⟨-, htoken, -⟩ | ⟨b, u, hx, hopens, hmarkup⟩ := readToken?_cases h
  · cases htoken
  obtain ⟨y, rfl⟩ : ∃ v, y = 60 :: b :: v := by
    cases y with
    | nil => cases hy
    | cons c y =>
      obtain rfl : c = 60 := (List.cons.inj hx).1
      cases y with
      | nil => exact absurd rfl (hsealed.ne_nil (by decide))
      | cons c y => exact ⟨y, by rw [(List.cons.inj (List.cons.inj hx).2).1]⟩
  obtain rfl : y ++ R = u := (List.cons.inj (List.cons.inj hx).2).2
  have htail := hsealed.tail.tail
  have hne : y ≠ [] := hsealed.tail.ne_nil fun hb => by
    subst hb
    cases hopens
  have hbracket := length_le_afterBracket (htail.mem hne) R
  refine (readToken?_of_opensMarkup (u := b :: y ++ t) hopens).trans ?_
  rw [List.cons_append, markup?]
  rw [markup?] at hmarkup
  -- all other comments end with the first bracket
  split_ifs at hmarkup ⊢ with h47 h33 h63
  · cases y with
    | nil => exact absurd rfl hne
    | cons c v =>
      rw [List.cons_append, closing?] at hmarkup
      split_ifs at hmarkup with h62 hletter
      · obtain ⟨-, rfl⟩ := Prod.mk.inj (Option.some.inj hmarkup)
        exact absurd hlt (Nat.not_lt.2 (List.suffix_append v R).length_le)
      · obtain ⟨_, _, heq⟩ := Option.map_eq_some_iff.1 hmarkup
        cases heq
      · obtain ⟨-, rfl⟩ := Prod.mk.inj (Option.some.inj hmarkup)
        exact absurd hlt (Nat.not_lt.2 hbracket)
  · obtain ⟨hcomment, rfl⟩ := Prod.mk.inj (Option.some.inj hmarkup)
    rw [readDeclaration_comment htail hne hcomment hlt t]
  · obtain ⟨-, rfl⟩ := Prod.mk.inj (Option.some.inj hmarkup)
    subst h63
    exact absurd hlt (Nat.not_lt.2 hbracket)
  · obtain ⟨_, _, heq⟩ := Option.map_eq_some_iff.1 hmarkup
    cases heq

theorem Source.next_comment {tag : Text} (htag : 62 ∉ tag)
    (h : Source.next sections ⟨y ++ R, tag⟩ = some (.comment, s)) (t : Text) :
    Source.next sections ⟨y ++ t, tag⟩ = some (.comment, ⟨afterComment 0 false t, []⟩) := by
  by_cases hnil : tag = []
  · subst hnil
    exact readToken?_comment hy hlt h t
  by_cases hzero : rawLength tag (y ++ R) = 0
  · have hzero' : rawLength tag (y ++ t) = 0 :=
      rawLength_local (c := []) (List.mem_of_getLast? hy) htag hzero t
    rw [next_of_rawLength_eq_zero hzero] at h
    rw [next_of_rawLength_eq_zero hzero']
    exact readToken?_comment hy hlt h t
  · rw [next_of_rawLength_ne_zero hnil hzero] at h
    cases h

end

section
variable {y blank z post : Text} (hy : y.getLast? = some 62) (hblank : Slips blank) (hz : Slips z)
include hy hblank hz

/-- **A raw text** beyond a closing bracket takes in all that is put into it. -/
theorem rawLength_insert {tag : Text} (htag : 62 ∉ tag)
    (h : y.length ≤ rawLength tag (y ++ (blank ++ post))) :
    y.length + blank.length ≤ rawLength tag (y ++ (blank ++ post)) ∧
      rawLength tag (y ++ (blank ++ (z ++ post))) =
        rawLength tag (y ++ (blank ++ post)) + z.length := by
  have hsealed := sealed_of_getLast? hy
  rw [← Nat.zero_add y.length] at h
  unfold rawLength at h ⊢
  split_ifs at h ⊢ with hplain hscript
  · simp only [List.length_append]
    omega
  · have hflat : ScriptMode.plain.Flat := trivial
    obtain ⟨mode, hmode, hend⟩ := scriptEnd_sealed hsealed (Nat.zero_le _) (fun _ => hflat) h
    rw [hend, hend, hblank.script hmode, hblank.script hmode, hz.script hmode, Nat.zero_add]
    exact ⟨le_scriptEnd .., scriptEnd_add ..⟩
  · have hend := rawEnd_sealed htag hsealed h
    rw [hend, hend, hblank.raw, hblank.raw, hz.raw, Nat.zero_add]
    exact ⟨le_rawEnd .., rawEnd_add ..⟩

end

/-! ## Character references -/

theorem readDigits_bytes {value? : UInt8 → Option Nat} (hvalue : value? 62 = none)
    (base n len : Nat) (t : Text) :
    ∃ k, (readDigits value? base n len t).2 = len + k ∧ 62 ∉ t.take k := by
  induction t generalizing n len with
  | nil => exact ⟨0, rfl, List.not_mem_nil⟩
  | cons b t ih =>
    rw [readDigits]
    split
    · rename_i d hd
      obtain ⟨k, hk, hmem⟩ := ih (n * base + d) (len + 1)
      refine ⟨k + 1, by omega, ?_⟩
      rw [List.take_succ_cons, List.mem_cons, not_or]
      refine ⟨?_, hmem⟩
      rintro rfl
      rw [hvalue] at hd
      cases hd
    · by_cases hb : b = 59
      · subst hb
        exact ⟨1, rfl, by simp⟩
      · exact ⟨0, by simp [hb], List.not_mem_nil⟩

theorem numericReference?_bytes {t : Text} {code len : Nat}
    (h : numericReference? t = some (code, len)) :
    ∃ k, len = k + 2 ∧ 62 ∉ t.take k := by
  have hlen : ∀ {n l : Nat}, (if l ≤ 3 then none else some (referenceCode n, l)) =
      some (code, len) → len = l := fun h => by
    split at h
    · cases h
    · exact (Prod.mk.inj (Option.some.inj h)).2.symm
  have hhex : ∀ {b : UInt8} {u : Text}, b ≠ 62 → len = (readDigits hexValue? 16 0 3 u).2 →
      ∃ k, len = k + 2 ∧ 62 ∉ (b :: u).take k := fun {b u} hb hlen => by
    obtain ⟨k, hk, hmem⟩ := readDigits_bytes (by decide : hexValue? 62 = none) 16 0 3 u
    refine ⟨k + 1, by omega, ?_⟩
    rw [List.take_succ_cons, List.mem_cons, not_or]
    exact ⟨Ne.symm hb, hmem⟩
  unfold numericReference? at h
  split at h
  · cases h
  dsimp only at h
  split at h
  · exact hhex (by decide) (hlen h)
  · exact hhex (by decide) (hlen h)
  · obtain ⟨k, hk, hmem⟩ := readDigits_bytes (by decide : decimalValue? 62 = none) 10 0 2 t
    exact ⟨k, (hlen h).trans (hk.trans (Nat.add_comm 2 k)), hmem⟩

theorem namedReference?_bytes {inValue : Bool} {t : Text} {codes : List Nat} {len : Nat}
    (h : namedReference? inValue t = some (codes, len)) : ∃ k, len = k + 1 ∧ 62 ∉ t.take k := by
  unfold namedReference? at h
  extract_lets word after closed name at h
  have hname : name <+: t ∧ 62 ∉ name := by
    have hword : word <+: t := List.takeWhile_prefix _
    have hbracket : 62 ∉ word := fun hmem =>
      absurd (List.all_eq_true.1 (List.all_takeWhile (l := t)) 62 hmem) (by decide)
    by_cases hclosed : closed = true
    · have heq : name = word ++ [59] := if_pos hclosed
      obtain ⟨rest, hrest⟩ : ∃ rest, after = 59 :: rest := by
        cases hafter : after with
        | nil => simp [closed, hafter] at hclosed
        | cons b rest =>
          obtain rfl : b = 59 := by simpa [closed, hafter] using hclosed
          exact ⟨rest, rfl⟩
      rw [heq]
      refine ⟨⟨rest, ?_⟩, by simpa using hbracket⟩
      rw [List.append_assoc, List.singleton_append, ← hrest]
      exact List.prefix_iff_eq_append.1 hword
    · have heq : name = word := if_neg hclosed
      rw [heq]
      exact ⟨hword, hbracket⟩
  have htake : ∀ n, n ≤ name.length → 62 ∉ t.take n := fun n hn hmem => by
    obtain ⟨rest, hrest⟩ := hname.1
    rw [← hrest, List.take_append_of_le_length hn] at hmem
    exact hname.2 (List.mem_of_mem_take hmem)
  split at h
  · cases h
  split at h
  · obtain ⟨-, rfl⟩ := Prod.mk.inj (Option.some.inj h)
    exact ⟨_, rfl, htake _ (Nat.le_refl _)⟩
  split at h
  · cases h
  obtain ⟨n, hn, hfound⟩ := List.exists_of_findSome?_eq_some h
  split at hfound
  · cases hfound
  obtain ⟨_, -, heq⟩ := Option.map_eq_some_iff.1 hfound
  obtain ⟨-, rfl⟩ := Prod.mk.inj heq
  have hlt := List.mem_range.1 (List.mem_reverse.1 hn)
  exact ⟨n, rfl, htake n (by omega)⟩

/-- A reference does not reach beyond a closing bracket. -/
theorem reference?_bytes {inValue : Bool} {t data : Text} {len : Nat}
    (h : resolveFrom.reference? inValue t = some (data, len)) : 62 ∉ t.take (len - 1) := by
  unfold resolveFrom.reference? at h
  split at h
  · obtain ⟨⟨code, len'⟩, hnumeric, heq⟩ := Option.map_eq_some_iff.1 h
    obtain ⟨-, rfl⟩ := Prod.mk.inj heq
    obtain ⟨k, rfl, hmem⟩ := numericReference?_bytes hnumeric
    change 62 ∉ List.take (k + 1) _
    rw [List.take_succ_cons, List.mem_cons, not_or]
    exact ⟨by decide, hmem⟩
  · obtain ⟨⟨codes, len'⟩, hnamed, heq⟩ := Option.map_eq_some_iff.1 h
    obtain ⟨-, rfl⟩ := Prod.mk.inj heq
    obtain ⟨k, rfl, hmem⟩ := namedReference?_bytes hnamed
    exact hmem

theorem mem_resolveFrom {inValue : Bool} {skip : Nat} {t : Text} (h : 62 ∈ t.drop skip) :
    62 ∈ resolveFrom inValue skip t := by
  induction t generalizing skip with
  | nil => simp at h
  | cons b t ih =>
    cases skip with
    | succ skip =>
      rw [resolveFrom]
      exact ih h
    | zero =>
      rw [resolveFrom]
      split
      · rename_i hb
        have ht : 62 ∈ t := List.mem_of_ne_of_mem (by rw [hb]; decide) h
        split
        · rename_i data len href
          refine List.mem_append_right _ (ih ?_)
          rw [← List.take_append_drop (len - 1) t, List.mem_append] at ht
          exact ht.resolve_left (reference?_bytes href)
        · exact List.mem_cons_of_mem _ (ih ht)
      · obtain rfl | ht := List.mem_cons.1 h
        · exact List.mem_cons_self
        · exact List.mem_cons_of_mem _ (ih ht)

/-- A closing bracket in the text of an element is still there when its references are resolved. -/
theorem mem_rawContent {t : Text} (h : 62 ∈ t) (tag : Text) : 62 ∈ rawContent tag t := by
  unfold rawContent
  split
  · exact mem_resolveFrom h
  · exact h

/-! ## The page with more text -/

namespace Construction

theorem hasInk_of_mem {t : Text} (h : 62 ∈ t) : HasInk t := ⟨62, h, by decide, by decide⟩

variable {c : Construction}

/-- Pieces that a construction makes the same of, whatever comes later, do not change how a page is
read on. -/
theorem finish_alike {xs ys : List Piece} (h : ∀ later, c.Alike (xs ++ later) (ys ++ later))
    (s : Source) :
    c.Alike (c.finish ⟨xs, s⟩) (c.finish ⟨ys, s⟩) := by
  induction hlength : s.rest.length using Nat.strongRecOn generalizing xs ys s with
  | ind n ih =>
    have hsections : c.sections xs = c.sections ys := by
      simpa only [List.append_nil] using (h []).sections
    cases hread : s.next (c.sections xs) with
    | none =>
      have hnext : c.next? ⟨xs, s⟩ = none := Option.map_eq_none_iff.2 hread
      have hnext' : c.next? ⟨ys, s⟩ = none := Option.map_eq_none_iff.2 (hsections ▸ hread)
      rw [finish_of_next?_eq_none hnext, finish_of_next?_eq_none hnext']
      simpa only [List.append_nil] using h []
    | some next =>
      obtain ⟨token, s'⟩ := next
      have hnext := next?_eq_some_iff (c := c) (r := ⟨xs, s⟩).2 ⟨token, s', hread, rfl⟩
      have hnext' := next?_eq_some_iff (c := c) (r := ⟨ys, s⟩).2 ⟨token, s', hsections ▸ hread, rfl⟩
      have hraw := (h [(token, taken s.rest s'.rest)]).notRaw
      rw [finish_of_next? hnext, finish_of_next? hnext', put, put]
      dsimp only
      rw [hraw]
      refine ih _ ?_ (fun later => ?_) _ rfl
      · have hlt := length_of_next? hnext'
        rw [put] at hlt
        exact hlength ▸ hlt
      · simpa only [List.append_assoc] using h ([(token, taken s.rest s'.rest)] ++ later)

/-- Two sources whose next pieces are alike and leave the same behind. -/
theorem metas_finish_congr {pieces : List Piece} {s s' : Source} {rest : Text}
    {token token' : Token} (h : s.next (c.sections pieces) = some (token, ⟨rest, []⟩))
    (h' : s'.next (c.sections pieces) = some (token', ⟨rest, []⟩))
    (halike : ∀ y z later,
      c.Alike (pieces ++ (token, y) :: later) (pieces ++ (token', z) :: later)) :
    c.metas (c.finish ⟨pieces, s⟩) = c.metas (c.finish ⟨pieces, s'⟩) := by
  have hnext := next?_eq_some_iff (c := c) (r := ⟨pieces, s⟩).2 ⟨token, ⟨rest, []⟩, h, rfl⟩
  have hnext' := next?_eq_some_iff (c := c) (r := ⟨pieces, s'⟩).2 ⟨token', ⟨rest, []⟩, h', rfl⟩
  rw [finish_of_next? hnext, finish_of_next? hnext', put_of_rawTag, put_of_rawTag]
  refine (finish_alike (fun later => ?_) _).metas
  rw [List.append_assoc, List.append_assoc]
  exact halike _ _ later

section
variable {pieces : List Piece} {y blank z post tag : Text} (hc : c.Lawful)
  (hy : y.getLast? = some 62) (hblank : Slips blank) (hz : Slips z) (htag : 62 ∉ tag)
include hc hy hblank hz htag

/-- **Text put into a comment** changes no page. -/
theorem metas_comment_insert {s : Source}
    (h : Source.next (c.sections pieces) ⟨y ++ (blank ++ post), tag⟩ = some (.comment, s))
    (hlt : s.rest.length < (blank ++ post).length) :
    c.metas (c.finish ⟨pieces, ⟨y ++ (blank ++ (z ++ post)), tag⟩⟩) =
      c.metas (c.finish ⟨pieces, ⟨y ++ (blank ++ post), tag⟩⟩) := by
  have hnext := Source.next_comment hy hlt htag h
  have hafter : afterComment 0 false (blank ++ (z ++ post)) =
      afterComment 0 false (blank ++ post) := by
    rw [hblank.comment, hz.comment, hblank.comment]
  exact metas_finish_congr (hafter ▸ hnext _) (hnext _) fun y z later => hc.comment pieces later y z

/-- **Text put into a raw text** changes no page. -/
theorem metas_raw_insert (hne : tag ≠ []) (h : y.length ≤ rawLength tag (y ++ (blank ++ post))) :
    c.metas (c.finish ⟨pieces, ⟨y ++ (blank ++ (z ++ post)), tag⟩⟩) =
      c.metas (c.finish ⟨pieces, ⟨y ++ (blank ++ post), tag⟩⟩) := by
  obtain ⟨hle, hlength⟩ := rawLength_insert hy hblank hz htag h
  obtain ⟨k, hk⟩ := Nat.exists_eq_add_of_le hle
  have hmem := List.mem_of_getLast? hy
  have hpos := List.length_pos_of_mem hmem
  have hnext : Source.next (c.sections pieces) ⟨y ++ (blank ++ post), tag⟩ = _ :=
    Source.next_of_rawLength_ne_zero hne (by omega)
  have hnext' : Source.next (c.sections pieces) ⟨y ++ (blank ++ (z ++ post)), tag⟩ = _ :=
    Source.next_of_rawLength_ne_zero hne (by omega)
  have hdrop : (y ++ (blank ++ (z ++ post))).drop (y.length + blank.length + k + z.length) =
      (y ++ (blank ++ post)).drop (y.length + blank.length + k) := by
    have hshift : y.length + blank.length + k + z.length =
        y.length + (blank.length + (z.length + k)) := by
      omega
    rw [hshift, Nat.add_assoc, List.drop_length_add_append, List.drop_length_add_append,
      List.drop_length_add_append, List.drop_length_add_append, List.drop_length_add_append]
  -- both texts hold the bracket, so neither is blank
  have hink : ∀ (t : Text) {n : Nat}, y.length ≤ n → HasInk (rawContent tag ((y ++ t).take n)) := by
    intro t n hn
    refine hasInk_of_mem (mem_rawContent ?_ tag)
    rw [List.take_append, List.take_of_length_le hn]
    exact List.mem_append_left _ hmem
  rw [hlength, hk, hdrop] at hnext'
  rw [hk] at hnext
  exact metas_finish_congr hnext' hnext fun y z later =>
    hc.text (hink _ (by omega)) (hink _ (by omega)) pieces later y z

end

end Construction
end CodeAudit.Markup
