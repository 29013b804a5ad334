import CodeAudit.Proofs.Markup.Closed

/-!
# Markup is read from its own bytes

A piece of markup that ends before the end of a text is the same whatever follows it. A tag, a
comment or a declaration ends with its own bracket; a text ends where markup opens, which takes a
few bytes to tell, and all of them come before the next closing bracket.

**Results.**
* `readToken?_start_local`: start tags.
* `Source.next_local`: any piece, when a closing bracket follows.
* `Construction.reaches_local`: all pieces up to a place behind which a closing bracket follows.
* `Construction.reaches_start_local`: all pieces up to a start tag.
* `Construction.next?_space`: white space before markup is a piece of its own.
-/
namespace CodeAudit.Markup

/-! ## Texts -/

/-- How a script is read on after a byte, and how many bytes need no look; none at its end tag. -/
def scriptStep? (mode : ScriptMode) (b : UInt8) (t : Text) : Option (ScriptMode × Nat) :=
  match mode with
  | .plain =>
    if b == 60 then
      if Text.startsWith t "!--" then some (.escaped 2, 3)
      else if isRawEnd "script" t then none
      else some (.plain, 0)
    else some (.plain, 0)
  | .escaped dashes =>
    if b == 45 then some (.escaped (min 2 (dashes + 1)), 0)
    else if b == 62 && 2 ≤ dashes then some (.plain, 0)
    else if b == 60 then
      if isRawEnd "script" t then none
      else if t.head? == some 47 then some (.escaped 0, 0)
      else if t.head?.any isLetter then
        if startsWithWord t "script" && (t[6]?).any endsName then some (.doubled 0, 7)
        else some (.escaped 0, 0)
      else some (.plain, 0)
    else some (.escaped 0, 0)
  | .doubled dashes =>
    if b == 45 then some (.doubled (min 2 (dashes + 1)), 0)
    else if b == 62 && 2 ≤ dashes then some (.plain, 0)
    else if b == 60 && isRawEnd "script" t then some (.escaped 0, 8)
    else some (.doubled 0, 0)

theorem scriptEnd_cons (mode : ScriptMode) (i : Nat) (b : UInt8) (t : Text) :
    scriptEnd mode 0 i (b :: t) =
      match scriptStep? mode b t with
      | none => i
      | some (mode', skip) => scriptEnd mode' skip (i + 1) t := by
  cases mode <;> simp only [scriptEnd, scriptStep?] <;> split_ifs <;> rfl

theorem scriptStep?_congr {b : UInt8} {w : Text} (hw : b = 60 → 62 ∈ w) (mode : ScriptMode)
    (R R' : Text) :
    scriptStep? mode b (w ++ R) = scriptStep? mode b (w ++ R') := by
  by_cases hb : b = 60
  · have hmem := hw hb
    have hne := List.ne_nil_of_mem hmem
    have hhead : (w ++ R).head? = (w ++ R').head? := by
      rw [List.head?_append_of_ne_nil _ hne, List.head?_append_of_ne_nil _ hne]
    have hend : isRawEnd "script" (w ++ R) = isRawEnd "script" (w ++ R') :=
      isRawEnd_congr hmem R R' (by decide)
    obtain ⟨hstarts, hlength⟩ := startsWithWord_congr hmem R R' (by decide : 62 ∉ utf8 "script")
    have hword : (startsWithWord (w ++ R) "script" && ((w ++ R)[6]?).any endsName) =
        (startsWithWord (w ++ R') "script" && ((w ++ R')[6]?).any endsName) := by
      cases h : startsWithWord (w ++ R) "script" with
      | false => rw [← hstarts, h, Bool.false_and, Bool.false_and]
      | true =>
        have hlt : 6 < w.length := hlength h
        rw [← hstarts, h, List.getElem?_append_left hlt, List.getElem?_append_left hlt]
    have hdash := startsWith_congr hmem R R' (by decide : 62 ∉ utf8 "!--")
    unfold scriptStep?
    rw [hhead, hend, hword, hdash]
  · have hbeq : (b == 60) = false := beq_false_of_ne hb
    cases mode <;> simp only [scriptStep?, hbeq, Bool.false_and, Bool.false_eq_true, if_false]

theorem le_scriptEnd (mode : ScriptMode) (skip i : Nat) (t : Text) :
    i ≤ scriptEnd mode skip i t := by
  induction t generalizing mode skip i with
  | nil => exact Nat.le_of_eq (scriptEnd.eq_1 ..).symm
  | cons b t ih =>
    cases skip with
    | succ skip =>
      rw [scriptEnd]
      exact Nat.le_of_succ_le (ih ..)
    | zero =>
      rw [scriptEnd_cons]
      split
      · exact Nat.le_refl i
      · exact Nat.le_of_succ_le (ih ..)

theorem le_rawEnd (tag : Text) (i : Nat) (t : Text) : i ≤ rawEnd tag i t := by
  induction t generalizing i with
  | nil => exact Nat.le_refl i
  | cons b t ih =>
    rw [rawEnd]
    split
    · exact Nat.le_refl i
    · exact Nat.le_of_succ_le (ih _)

section
variable {b R c tag : Text} (hb : 62 ∈ b)
include hb

theorem textLength_local (h : textLength (c ++ (b ++ R)) = c.length) (R' : Text) :
    textLength (c ++ (b ++ R')) = c.length := by
  induction c with
  | nil =>
    cases b with
    | nil => exact absurd hb List.not_mem_nil
    | cons y b =>
      rw [List.nil_append, List.cons_append, textLength] at h ⊢
      split at h
      · rename_i hopens
        obtain ⟨hy, hopens⟩ := Bool.and_eq_true_iff.1 hopens
        have hb' : b ≠ [] := by
          rintro rfl
          exact absurd (List.mem_singleton.1 hb) (eq_of_beq hy ▸ by decide)
        unfold opensMarkup at hopens ⊢
        rw [List.head?_append_of_ne_nil _ hb'] at hopens ⊢
        rw [if_pos (Bool.and_eq_true_iff.2 ⟨hy, hopens⟩)]
        rfl
      · exact absurd h (Nat.succ_ne_zero _)
  | cons y c ih =>
    rw [List.cons_append, textLength] at h ⊢
    split at h
    · exact absurd h.symm (Nat.succ_ne_zero _)
    · rename_i hopens
      have hne : c ++ b ≠ [] := List.append_ne_nil_of_right_ne_nil c (List.ne_nil_of_mem hb)
      unfold opensMarkup at hopens ⊢
      rw [← List.append_assoc, List.head?_append_of_ne_nil _ hne] at hopens
      rw [← List.append_assoc, List.head?_append_of_ne_nil _ hne, if_neg hopens, List.append_assoc,
        ih (Nat.succ.inj h)]
      rfl

theorem rawEnd_local (htag : 62 ∉ tag) {i : Nat} (h : rawEnd tag i (c ++ (b ++ R)) = i + c.length)
    (R' : Text) :
    rawEnd tag i (c ++ (b ++ R')) = i + c.length := by
  induction c generalizing i with
  | nil =>
    cases b with
    | nil => exact absurd hb List.not_mem_nil
    | cons y b =>
      rw [List.nil_append, List.cons_append, rawEnd] at h ⊢
      split at h
      · rename_i hstop
        obtain ⟨hy, hstop⟩ := Bool.and_eq_true_iff.1 hstop
        have hb' : 62 ∈ b := List.mem_of_ne_of_mem (eq_of_beq hy ▸ by decide) hb
        rw [isRawEnd_congr hb' R R' htag] at hstop
        rw [if_pos (Bool.and_eq_true_iff.2 ⟨hy, hstop⟩)]
        rfl
      · have hle := le_rawEnd tag (i + 1) (b ++ R)
        rw [h, List.length_nil] at hle
        omega
  | cons y c ih =>
    rw [List.cons_append, rawEnd] at h ⊢
    split at h
    · rw [List.length_cons] at h
      omega
    · rename_i hstop
      rw [← List.append_assoc, isRawEnd_congr (List.mem_append_right c hb) R R' htag] at hstop
      rw [← List.append_assoc, if_neg hstop, List.append_assoc]
      rw [List.length_cons] at h ⊢
      rw [ih (by omega)]
      omega

theorem scriptEnd_local {mode : ScriptMode} {skip i : Nat}
    (h : scriptEnd mode skip i (c ++ (b ++ R)) = i + c.length) (R' : Text) :
    scriptEnd mode skip i (c ++ (b ++ R')) = i + c.length := by
  induction c generalizing mode skip i with
  | nil =>
    cases b with
    | nil => exact absurd hb List.not_mem_nil
    | cons y b =>
      cases skip with
      | succ skip =>
        have hle := le_scriptEnd mode skip (i + 1) (b ++ R)
        rw [List.nil_append, List.cons_append, scriptEnd, List.length_nil] at h
        omega
      | zero =>
        have hcongr := scriptStep?_congr (b := y)
          (fun hy => List.mem_of_ne_of_mem (by rw [hy]; decide) hb) mode R R'
        rw [List.nil_append, List.cons_append, scriptEnd_cons] at h ⊢
        rw [← hcongr]
        cases hstep : scriptStep? mode y (b ++ R) with
        | none => rfl
        | some next =>
          have hle := le_scriptEnd next.1 next.2 (i + 1) (b ++ R)
          rw [hstep] at h
          exact absurd (Nat.le_trans hle (Nat.le_of_eq h)) (Nat.not_succ_le_self i)
  | cons y c ih =>
    rw [List.length_cons] at h ⊢
    cases skip with
    | succ skip =>
      rw [List.cons_append, scriptEnd] at h ⊢
      rw [ih (by omega)]
      omega
    | zero =>
      have hcongr := scriptStep?_congr (b := y) (fun _ => List.mem_append_right c hb) mode R R'
      rw [List.append_assoc, List.append_assoc] at hcongr
      rw [List.cons_append, scriptEnd_cons] at h ⊢
      rw [← hcongr]
      cases hstep : scriptStep? mode y (c ++ (b ++ R)) with
      | none =>
        rw [hstep] at h
        exact h
      | some next =>
        rw [hstep] at h
        exact (ih (h.trans (by omega))).trans (by omega)

end

/-! ## Pieces of markup -/

theorem rawLength_local {tag b c R : Text} (hb : 62 ∈ b) (htag : 62 ∉ tag)
    (h : rawLength tag (c ++ (b ++ R)) = c.length) (R' : Text) :
    rawLength tag (c ++ (b ++ R')) = c.length := by
  unfold rawLength at h ⊢
  split at h
  · have hpos := List.length_pos_of_mem hb
    simp only [List.length_append] at h
    omega
  · rw [if_neg ‹_›]
    split at h
    · rw [if_pos ‹_›]
      have hlocal := scriptEnd_local hb (i := 0) (h.trans (Nat.zero_add _).symm) R'
      rw [hlocal, Nat.zero_add]
    · rw [if_neg ‹_›]
      have hlocal := rawEnd_local hb htag (i := 0) (h.trans (Nat.zero_add _).symm) R'
      rw [hlocal, Nat.zero_add]

/-- An end tag, given the text after its slash. -/
def closing? : Text → Option (Token × Source)
  | [] => some (.text [60, 47], ⟨[], []⟩)
  | b :: v =>
    if b = 62 then some (.comment, ⟨v, []⟩)
    else if isLetter b then (readTag? (b :: v)).map fun (tag, rest) => (.stop tag.name, ⟨rest, []⟩)
    else some (.comment, ⟨afterBracket (b :: v), []⟩)

/-- A piece of markup other than text, given the text after its opening bracket. -/
def markup? (sections : Bool) : Text → Option (Token × Source)
  | [] => none
  | b :: u =>
    if b = 47 then closing? u
    else if b = 33 then some ((readDeclaration sections u).1, ⟨(readDeclaration sections u).2, []⟩)
    else if b = 63 then some (.comment, ⟨afterBracket (b :: u), []⟩)
    else (readTag? (b :: u)).map fun (tag, rest) =>
      (.start tag, ⟨rest, if rawElements.contains tag.name then tag.name else []⟩)

theorem textLength_eq_zero_iff {t : Text} :
    textLength t = 0 ↔ t = [] ∨ ∃ u, t = 60 :: u ∧ opensMarkup u = true := by
  cases t with
  | nil => simp [textLength]
  | cons b u =>
    rw [textLength]
    by_cases hopens : (b == 60 && opensMarkup u) = true
    · obtain ⟨hb, hu⟩ := Bool.and_eq_true_iff.1 hopens
      simp [eq_of_beq hb, hu]
    · rw [if_neg hopens]
      simp only [Nat.succ_ne_zero, reduceCtorEq, List.cons.injEq, false_or, false_iff]
      rintro ⟨v, ⟨rfl, rfl⟩, hv⟩
      exact hopens (by rw [hv]; rfl)

theorem readToken?_of_textLength {sections : Bool} {t : Text} (hpos : textLength t ≠ 0) :
    readToken? sections t =
      some (.text (resolveText (t.take (textLength t))), ⟨t.drop (textLength t), []⟩) := by
  obtain ⟨n, hn⟩ := Nat.exists_eq_succ_of_ne_zero hpos
  unfold readToken?
  rw [hn]

theorem readToken?_of_opensMarkup {sections : Bool} {u : Text} (hopens : opensMarkup u = true) :
    readToken? sections (60 :: u) = markup? sections u := by
  have hzero : textLength (60 :: u) = 0 := textLength_eq_zero_iff.2 (.inr ⟨u, rfl, hopens⟩)
  unfold readToken?
  rw [hzero]
  dsimp only
  split
  · rename_i v heq
    obtain ⟨rfl, rfl⟩ := List.cons.inj heq
    change _ = closing? v
    split
    · rfl
    · rfl
    · rename_i b v h62
      exact (if_neg h62).symm
  · rename_i v heq
    obtain ⟨rfl, rfl⟩ := List.cons.inj heq
    rfl
  · rename_i v heq
    obtain ⟨rfl, rfl⟩ := List.cons.inj heq
    rfl
  · rename_i h47 h33 h63 heq
    obtain ⟨rfl, rfl⟩ := List.cons.inj heq
    cases u with
    | nil => cases hopens
    | cons b v =>
      rw [markup?, if_neg fun h : b = 47 => h47 v (h ▸ rfl), if_neg fun h :
        b = 33 => h33 v (h ▸ rfl), if_neg fun h : b = 63 => h63 v (h ▸ rfl)]
  · contradiction

theorem closing?_ne_start (u : Text) (tag : Tag) (s : Source) :
    closing? u ≠ some (.start tag, s) := by
  intro h
  cases u with
  | nil => cases h
  | cons b v =>
    rw [closing?] at h
    split at h
    · cases h
    split at h
    · obtain ⟨⟨_, _⟩, _, heq⟩ := Option.map_eq_some_iff.1 h
      cases heq
    · cases h

theorem readDeclaration_ne_start (sections : Bool) (u : Text) (tag : Tag) :
    (readDeclaration sections u).1 ≠ .start tag := by
  unfold readDeclaration
  split_ifs <;> exact nofun

theorem closing?_local {c t raw : Text} {token : Token}
    (h : closing? (c ++ t) = some (token, ⟨t, raw⟩)) (hne : t ≠ []) :
    62 ∈ c ∧ ∀ t', t.length ≤ t'.length → closing? (c ++ t') = some (token, ⟨t', raw⟩) := by
  cases c with
  | nil =>
    -- a piece is not empty
    cases t with
    | nil => exact absurd rfl hne
    | cons b v =>
      rw [List.nil_append, closing?] at h
      split at h
      · obtain ⟨-, hs⟩ := Prod.mk.inj (Option.some.inj h)
        exact absurd (Source.mk.inj hs).1.symm (List.cons_ne_self b v)
      split at h
      · obtain ⟨⟨tag, rest⟩, htag, heq⟩ := Option.map_eq_some_iff.1 h
        obtain ⟨-, hs⟩ := Prod.mk.inj heq
        obtain ⟨rfl, -⟩ := Source.mk.inj hs
        exact absurd (readTag?_local (c := []) htag).1 List.not_mem_nil
      · obtain ⟨-, hs⟩ := Prod.mk.inj (Option.some.inj h)
        exact absurd (afterBracket_local (c := []) (Source.mk.inj hs).1 hne).1 List.not_mem_nil
  | cons b c =>
    rw [List.cons_append, closing?] at h
    split at h
    · rename_i hb
      obtain ⟨rfl, hs⟩ := Prod.mk.inj (Option.some.inj h)
      obtain ⟨hrest, rfl⟩ := Source.mk.inj hs
      obtain rfl : c = [] := List.append_cancel_right hrest
      exact ⟨hb ▸ List.mem_cons_self, fun t' _ => if_pos hb⟩
    rename_i hb
    split at h
    · rename_i hletter
      obtain ⟨⟨tag, rest⟩, htag, heq⟩ := Option.map_eq_some_iff.1 h
      obtain ⟨rfl, hs⟩ := Prod.mk.inj heq
      obtain ⟨rfl, rfl⟩ := Source.mk.inj hs
      obtain ⟨hmem, hlocal⟩ := readTag?_local (c := b :: c) htag
      refine ⟨hmem, fun t' hle => ?_⟩
      rw [List.cons_append, closing?, if_neg hb, if_pos hletter, ← List.cons_append, hlocal t' hle]
      rfl
    · rename_i hletter
      obtain ⟨rfl, hs⟩ := Prod.mk.inj (Option.some.inj h)
      obtain ⟨hrest, rfl⟩ := Source.mk.inj hs
      obtain ⟨hmem, hlocal⟩ := afterBracket_local (c := b :: c) hrest hne
      refine ⟨hmem, fun t' _ => ?_⟩
      rw [List.cons_append, closing?, if_neg hb, if_neg hletter, ← List.cons_append, hlocal t']

/-- Markup that ends with its own bracket is the same whatever follows it; only a start tag is known
to do so at the end of the text. -/
theorem markup?_local {sections : Bool} {b : UInt8} {c t raw : Text} {token : Token}
    (h : markup? sections (b :: c ++ t) = some (token, ⟨t, raw⟩))
    (hne : t = [] → ∃ tag, token = .start tag) :
    62 ∈ b :: c ∧ ∀ t', t.length ≤ t'.length →
      markup? sections (b :: c ++ t') = some (token, ⟨t', raw⟩) := by
  rw [List.cons_append, markup?] at h
  split at h
  · rename_i hb
    have hne' : t ≠ [] := fun ht => by
      obtain ⟨tag, rfl⟩ := hne ht
      exact closing?_ne_start _ _ _ h
    obtain ⟨hmem, hlocal⟩ := closing?_local h hne'
    refine ⟨List.mem_cons_of_mem _ hmem, fun t' hle => ?_⟩
    rw [List.cons_append, markup?, if_pos hb, hlocal t' hle]
  rename_i h47
  split at h
  · rename_i hb
    obtain ⟨htoken, hs⟩ := Prod.mk.inj (Option.some.inj h)
    obtain ⟨hrest, rfl⟩ := Source.mk.inj hs
    have hne' : t ≠ [] := fun ht => by
      obtain ⟨tag, rfl⟩ := hne ht
      exact readDeclaration_ne_start _ _ _ htoken
    obtain ⟨hmem, hlocal⟩ := readDeclaration_local (Prod.ext htoken hrest) hne'
    refine ⟨List.mem_cons_of_mem _ hmem, fun t' hle => ?_⟩
    rw [List.cons_append, markup?, if_neg h47, if_pos hb, hlocal t' hle]
  rename_i h33
  split at h
  · rename_i hb
    obtain ⟨rfl, hs⟩ := Prod.mk.inj (Option.some.inj h)
    obtain ⟨hrest, rfl⟩ := Source.mk.inj hs
    have hne' : t ≠ [] := fun ht => by
      obtain ⟨tag, htag⟩ := hne ht
      cases htag
    obtain ⟨hmem, hlocal⟩ := afterBracket_local (c := b :: c) hrest hne'
    refine ⟨hmem, fun t' _ => ?_⟩
    rw [List.cons_append, markup?, if_neg h47, if_neg h33, if_pos hb, ← List.cons_append, hlocal t']
  · rename_i h63
    obtain ⟨⟨tag, rest⟩, htag, heq⟩ := Option.map_eq_some_iff.1 h
    obtain ⟨rfl, hs⟩ := Prod.mk.inj heq
    obtain ⟨rfl, rfl⟩ := Source.mk.inj hs
    obtain ⟨hmem, hlocal⟩ := readTag?_local (c := b :: c) htag
    refine ⟨hmem, fun t' hle => ?_⟩
    rw [List.cons_append, markup?, if_neg h47, if_neg h33, if_neg h63, ← List.cons_append,
      hlocal t' hle]
    rfl

theorem closing?_suffix {u : Text} {token : Token} {s : Source} (h : closing? u = some (token, s)) :
    s.rest <:+ u := by
  cases u with
  | nil =>
    obtain ⟨-, rfl⟩ := Prod.mk.inj (Option.some.inj h)
    exact List.suffix_rfl
  | cons b v =>
    rw [closing?] at h
    split at h
    · obtain ⟨-, rfl⟩ := Prod.mk.inj (Option.some.inj h)
      exact List.suffix_cons ..
    split at h
    · obtain ⟨⟨tag, rest⟩, htag, heq⟩ := Option.map_eq_some_iff.1 h
      obtain ⟨-, rfl⟩ := Prod.mk.inj heq
      exact readTag?_suffix htag
    · obtain ⟨-, rfl⟩ := Prod.mk.inj (Option.some.inj h)
      exact afterBracket_suffix _

theorem readTag?_length {t rest : Text} {tag : Tag} (h : readTag? t = some (tag, rest)) :
    rest.length < t.length := by
  obtain ⟨attrs, hattrs, -⟩ := readTag?_eq_some_iff.1 h
  exact Nat.lt_of_lt_of_le (readAttrs?_length hattrs)
    ((dropSpace_suffix _).trans (List.dropWhile_suffix _)).length_le

theorem markup?_suffix {sections : Bool} {b : UInt8} {u : Text} {token : Token} {s : Source}
    (h : markup? sections (b :: u) = some (token, s)) : s.rest <:+ u := by
  rw [markup?] at h
  split at h
  · exact closing?_suffix h
  split at h
  · obtain ⟨-, rfl⟩ := Prod.mk.inj (Option.some.inj h)
    exact readDeclaration_suffix ..
  split at h
  · rename_i hb
    obtain ⟨-, rfl⟩ := Prod.mk.inj (Option.some.inj h)
    subst hb
    exact afterBracket_suffix u
  · obtain ⟨⟨tag, rest⟩, htag, heq⟩ := Option.map_eq_some_iff.1 h
    obtain ⟨-, rfl⟩ := Prod.mk.inj heq
    refine (List.suffix_cons_iff.1 (readTag?_suffix htag)).resolve_left fun hrest => ?_
    exact absurd (hrest ▸ readTag?_length htag) (Nat.lt_irrefl _)

/-- A piece read outside raw text is a text, or starts with a bracket that opens markup. -/
theorem readToken?_cases {sections : Bool} {x : Text} {token : Token} {s : Source}
    (h : readToken? sections x = some (token, s)) :
    (textLength x ≠ 0 ∧ token = .text (resolveText (x.take (textLength x))) ∧
        s = ⟨x.drop (textLength x), []⟩) ∨
      ∃ b u, x = 60 :: b :: u ∧ opensMarkup (b :: u) = true ∧
        markup? sections (b :: u) = some (token, s) := by
  by_cases hzero : textLength x = 0
  · obtain rfl | ⟨u, rfl, hopens⟩ := textLength_eq_zero_iff.1 hzero
    · cases h
    · rw [readToken?_of_opensMarkup hopens] at h
      cases u with
      | nil => cases h
      | cons b u => exact .inr ⟨b, u, rfl, hopens, h⟩
  · rw [readToken?_of_textLength hzero] at h
    obtain ⟨rfl, rfl⟩ := Prod.mk.inj (Option.some.inj h)
    exact .inl ⟨hzero, rfl, rfl⟩

/-- A piece of markup that opens in a text leaves its first two bytes behind. -/
theorem readToken?_markup_local {sections : Bool} {b : UInt8} {u c t raw : Text} {token : Token}
    (hx : 60 :: b :: u = c ++ t) (hopens : opensMarkup (b :: u) = true)
    (h : markup? sections (b :: u) = some (token, ⟨t, raw⟩))
    (hne : t = [] → ∃ tag, token = .start tag) :
    62 ∈ c ∧ ∀ t', t.length ≤ t'.length →
      readToken? sections (c ++ t') = some (token, ⟨t', raw⟩) := by
  have hsuffix := markup?_suffix h
  obtain ⟨c', rfl, hu⟩ := exists_cons_of_suffix hx (hsuffix.trans (List.suffix_cons ..))
  obtain ⟨c'', rfl, rfl⟩ := exists_cons_of_suffix hu hsuffix
  obtain ⟨hmem, hlocal⟩ := markup?_local h hne
  refine ⟨List.mem_cons_of_mem _ hmem, fun t' hle => ?_⟩
  exact (readToken?_of_opensMarkup (u := b :: c'' ++ t') hopens).trans (hlocal t' hle)

/-- **A start tag** is the same whatever follows it, even at the end of a text. -/
theorem readToken?_start_local {sections : Bool} {c t raw : Text} {tag : Tag}
    (h : readToken? sections (c ++ t) = some (.start tag, ⟨t, raw⟩)) :
    62 ∈ c ∧ ∀ t', t.length ≤ t'.length →
      readToken? sections (c ++ t') = some (.start tag, ⟨t', raw⟩) := by
  obtain ⟨-, htoken, -⟩ | ⟨b, u, hx, hopens, hmarkup⟩ := readToken?_cases h
  · cases htoken
  · exact readToken?_markup_local hx.symm hopens hmarkup fun _ => ⟨tag, rfl⟩

theorem readToken?_local {sections : Bool} {c b R R' raw : Text} {token : Token} (hb : 62 ∈ b)
    (h : readToken? sections (c ++ (b ++ R)) = some (token, ⟨b ++ R, raw⟩))
    (hle : R.length ≤ R'.length) :
    readToken? sections (c ++ (b ++ R')) = some (token, ⟨b ++ R', raw⟩) := by
  have hne : b ++ R ≠ [] := List.append_ne_nil_of_left_ne_nil (List.ne_nil_of_mem hb) R
  obtain ⟨hpos, rfl, hs⟩ | ⟨y, u, hx, hopens, hmarkup⟩ := readToken?_cases h
  · obtain ⟨hrest, rfl⟩ := Source.mk.inj hs
    have hlength : textLength (c ++ (b ++ R)) = c.length := by
      have := congrArg List.length hrest
      have := List.length_pos_iff.2 hne
      simp only [List.length_drop, List.length_append] at *
      omega
    have hlength' := textLength_local hb hlength R'
    rw [readToken?_of_textLength (hlength'.trans hlength.symm ▸ hpos), hlength, hlength',
      List.take_left, List.take_left, List.drop_left]
  · exact (readToken?_markup_local hx.symm hopens hmarkup fun h => absurd h hne).2 _
      (by simp only [List.length_append]; omega)

theorem Source.next_of_rawLength_eq_zero {sections : Bool} {tag x : Text}
    (h : rawLength tag x = 0) :
    Source.next sections ⟨x, tag⟩ = readToken? sections x := by
  cases tag with
  | nil => rfl
  | cons b tag =>
    unfold Source.next
    dsimp only
    rw [h]
    rfl

theorem Source.next_of_rawLength_ne_zero {sections : Bool} {tag x : Text} (htag : tag ≠ [])
    (h : rawLength tag x ≠ 0) :
    Source.next sections ⟨x, tag⟩ =
      some (.text (rawContent tag (x.take (rawLength tag x))), ⟨x.drop (rawLength tag x), []⟩) := by
  cases tag with
  | nil => exact absurd rfl htag
  | cons b tag =>
    unfold Source.next
    dsimp only
    split
    · exact absurd ‹_› h
    · rfl

/-- **A piece** before a closing bracket is the same whatever follows that bracket. -/
theorem Source.next_local {sections : Bool} {c b R R' tag raw : Text} {token : Token} (hb : 62 ∈ b)
    (htag : 62 ∉ tag) (h : Source.next sections ⟨c ++ (b ++ R), tag⟩ = some (token, ⟨b ++ R, raw⟩))
    (hle : R.length ≤ R'.length) :
    Source.next sections ⟨c ++ (b ++ R'), tag⟩ = some (token, ⟨b ++ R', raw⟩) := by
  by_cases hnil : tag = []
  · subst hnil
    exact readToken?_local hb h hle
  by_cases hzero : rawLength tag (c ++ (b ++ R)) = 0
  · have hzero' : rawLength tag (c ++ (b ++ R')) = 0 := by
      rw [← List.append_assoc] at hzero ⊢
      exact rawLength_local (c := []) (List.mem_append_right c hb) htag hzero R'
    rw [next_of_rawLength_eq_zero hzero] at h
    rw [next_of_rawLength_eq_zero hzero']
    exact readToken?_local hb h hle
  · rw [next_of_rawLength_ne_zero hnil hzero] at h
    obtain ⟨rfl, hs⟩ := Prod.mk.inj (Option.some.inj h)
    obtain ⟨hrest, rfl⟩ := Source.mk.inj hs
    have hlength : rawLength tag (c ++ (b ++ R)) = c.length := by
      have hrest := congrArg List.length hrest
      have hpos := List.length_pos_of_mem hb
      simp only [List.length_drop, List.length_append] at hrest
      omega
    have hlength' := rawLength_local hb htag hlength R'
    rw [next_of_rawLength_ne_zero hnil (hlength'.trans hlength.symm ▸ hzero), hlength, hlength',
      List.take_left, List.take_left, List.drop_left]

/-- **A start tag** is the same whatever follows it, also where raw text may come first. -/
theorem Source.next_start_local {sections : Bool} {c t raw rawTag : Text} {tag : Tag}
    (htag : 62 ∉ rawTag) (h : Source.next sections ⟨c ++ t, rawTag⟩ = some (.start tag, ⟨t, raw⟩)) :
    62 ∈ c ∧ ∀ t', t.length ≤ t'.length →
      Source.next sections ⟨c ++ t', rawTag⟩ = some (.start tag, ⟨t', raw⟩) := by
  by_cases hnil : rawTag = []
  · subst hnil
    exact readToken?_start_local h
  by_cases hzero : rawLength rawTag (c ++ t) = 0
  · rw [next_of_rawLength_eq_zero hzero] at h
    obtain ⟨hmem, hlocal⟩ := readToken?_start_local h
    refine ⟨hmem, fun t' hle => ?_⟩
    have hzero' : rawLength rawTag (c ++ t') = 0 := rawLength_local (c := []) hmem htag hzero t'
    rw [next_of_rawLength_eq_zero hzero', hlocal t' hle]
  · rw [next_of_rawLength_ne_zero hnil hzero] at h
    cases h

/-! ## Readings -/

theorem rawTag_of_readToken? {sections : Bool} {x : Text} {token : Token} {s : Source}
    (h : readToken? sections x = some (token, s)) : s.rawTag = [] ∨ s.rawTag ∈ rawElements := by
  obtain ⟨-, -, rfl⟩ | ⟨b, u, -, -, hmarkup⟩ := readToken?_cases h
  · exact .inl rfl
  rw [markup?] at hmarkup
  split at hmarkup
  · cases u with
    | nil =>
      obtain ⟨-, rfl⟩ := Prod.mk.inj (Option.some.inj hmarkup)
      exact .inl rfl
    | cons b v =>
      rw [closing?] at hmarkup
      split at hmarkup
      · obtain ⟨-, rfl⟩ := Prod.mk.inj (Option.some.inj hmarkup)
        exact .inl rfl
      split at hmarkup
      · obtain ⟨_, _, heq⟩ := Option.map_eq_some_iff.1 hmarkup
        obtain ⟨-, rfl⟩ := Prod.mk.inj heq
        exact .inl rfl
      · obtain ⟨-, rfl⟩ := Prod.mk.inj (Option.some.inj hmarkup)
        exact .inl rfl
  split at hmarkup
  · obtain ⟨-, rfl⟩ := Prod.mk.inj (Option.some.inj hmarkup)
    exact .inl rfl
  split at hmarkup
  · obtain ⟨-, rfl⟩ := Prod.mk.inj (Option.some.inj hmarkup)
    exact .inl rfl
  · obtain ⟨⟨tag, rest⟩, -, heq⟩ := Option.map_eq_some_iff.1 hmarkup
    obtain ⟨-, rfl⟩ := Prod.mk.inj heq
    dsimp only
    split
    · exact .inr (List.contains_iff_mem.1 ‹_›)
    · exact .inl rfl

/-- The names of elements with raw text hold no bracket. -/
theorem not_mem_of_mem_rawElements {tag : Text} (h : tag ∈ rawElements) : 62 ∉ tag := by
  revert tag
  decide

theorem not_mem_rawTag_of_next {sections : Bool} {s s' : Source} {token : Token}
    (h : s.next sections = some (token, s')) : 62 ∉ s'.rawTag := by
  have hread : ∀ {x : Text}, readToken? sections x = some (token, s') → 62 ∉ s'.rawTag :=
    fun h => by
    obtain hnil | hmem := rawTag_of_readToken? h
    · rw [hnil]
      exact List.not_mem_nil
    · exact not_mem_of_mem_rawElements hmem
  obtain ⟨x, tag⟩ := s
  by_cases hzero : rawLength tag x = 0
  · exact hread (Source.next_of_rawLength_eq_zero hzero ▸ h)
  by_cases htag : tag = []
  · subst htag
    exact hread h
  · rw [Source.next_of_rawLength_ne_zero htag hzero] at h
    obtain ⟨-, rfl⟩ := Prod.mk.inj (Option.some.inj h)
    exact List.not_mem_nil

namespace Construction

variable {c : Construction}

theorem not_mem_rawTag_of_next? {r r' : Reading} (h : c.next? r = some r') :
    62 ∉ r'.source.rawTag := by
  obtain ⟨token, s, hnext, rfl⟩ := next?_eq_some_iff.1 h
  rw [put]
  dsimp only
  split
  · exact List.not_mem_nil
  · exact not_mem_rawTag_of_next hnext

theorem not_mem_rawTag_of_reaches {r r' : Reading} (h : c.Reaches r r')
    (htag : 62 ∉ r.source.rawTag) :
    62 ∉ r'.source.rawTag := by
  cases h with
  | refl => exact htag
  | tail _ hnext => exact not_mem_rawTag_of_next? hnext

theorem next?_local {pieces : List Piece} {x b R R' tag : Text} {m : Reading} (hb : 62 ∈ b)
    (htag : 62 ∉ tag)
    (h : c.next? ⟨pieces, ⟨x ++ (b ++ R), tag⟩⟩ = some m) (hm : m.source.rest = b ++ R)
    (hle : R.length ≤ R'.length) :
    c.next? ⟨pieces, ⟨x ++ (b ++ R'), tag⟩⟩ = some ⟨m.pieces, ⟨b ++ R', m.source.rawTag⟩⟩ := by
  obtain ⟨token, ⟨rest, raw⟩, hnext, rfl⟩ := next?_eq_some_iff.1 h
  obtain rfl : rest = b ++ R := (rest_put ..).symm.trans hm
  refine next?_eq_some_iff.2 ⟨token, ⟨b ++ R', raw⟩, Source.next_local hb htag hnext hle, ?_⟩
  simp only [put, taken_append]
  split <;> rfl

/-- **All pieces** up to a place are the same whatever follows the next closing bracket. -/
theorem reaches_local {r r' : Reading} {b R R' : Text} (hb : 62 ∈ b) (h : c.Reaches r r')
    (hr' : r'.source.rest = b ++ R) (hle : R.length ≤ R'.length) {x : Text}
    (hr : r.source.rest = x ++ (b ++ R)) (htag : 62 ∉ r.source.rawTag) :
    c.Reaches ⟨r.pieces, ⟨x ++ (b ++ R'), r.source.rawTag⟩⟩
      ⟨r'.pieces, ⟨b ++ R', r'.source.rawTag⟩⟩ := by
  induction h using Relation.ReflTransGen.head_induction_on generalizing x with
  | refl =>
    obtain rfl : x = [] := List.append_cancel_right (hr.symm.trans hr')
    exact .refl
  | @head r m hstep hreaches ih =>
    have hsuffix := rest_suffix_of_next? hstep
    rw [hr] at hsuffix
    obtain ⟨x₀, x₁, rfl, hm⟩ := exists_append_of_suffix hsuffix
      (hr' ▸ rest_suffix_of_reaches hreaches)
    obtain ⟨pieces, rest, tag⟩ := r
    obtain rfl : rest = x₀ ++ x₁ ++ (b ++ R) := hr
    have hnext := next?_local (x := x₀) (b := x₁ ++ b) (R := R) (List.mem_append_right x₁ hb) htag
      (by simpa only [List.append_assoc] using hstep) (hm.trans (List.append_assoc ..).symm) hle
    simp only [List.append_assoc] at hnext ⊢
    exact .head hnext (ih hm (not_mem_rawTag_of_next? hstep))

/-- **All up to a start tag** is the same whatever follows it. -/
theorem reaches_start_local {r : Reading} {tag : Tag} {head R : Text}
    (h : c.Reaches (.start (head ++ R)) r)
    (hnext : r.source.next (c.sections r.pieces) = some (.start tag, ⟨R, []⟩)) {R' : Text}
    (hle : R.length ≤ R'.length) :
    c.Reaches (.start (head ++ R'))
      ⟨r.pieces ++ [(.start tag, taken r.source.rest R)], ⟨R', []⟩⟩ := by
  have htag := not_mem_rawTag_of_reaches h List.not_mem_nil
  obtain ⟨x, hx⟩ : R <:+ r.source.rest := (Source.next_suffix hnext).1
  obtain ⟨y, hy⟩ := rest_suffix_of_reaches h
  obtain ⟨pieces, ⟨rest, rawTag⟩⟩ := r
  subst hx
  obtain rfl : y ++ x = head := List.append_cancel_right ((List.append_assoc y x R).trans hy)
  obtain ⟨hmem, hlocal⟩ := Source.next_start_local htag hnext
  have hreaches := reaches_local hmem h rfl hle (x := y) (List.append_assoc y x R) List.not_mem_nil
  rw [← List.append_assoc] at hreaches
  refine hreaches.tail (next?_eq_some_iff.2 ⟨_, _, hlocal R' hle, ?_⟩)
  rw [put_of_rawTag, taken_append, taken_append]

end Construction

/-! ## White space -/

theorem isSpaceText_append (t u : Text) : isSpaceText (t ++ u) = (isSpaceText t && isSpaceText u) :=
  List.all_append

theorem not_mem_of_isSpaceText {t : Text} (h : isSpaceText t = true) {b : UInt8}
    (hb : isSpace b = false) :
    b ∉ t := fun hmem =>
  absurd (List.all_eq_true.1 h b hmem) (Bool.eq_false_iff.1 hb)

theorem textLength_append_of_space {t : Text} (h : isSpaceText t = true) (u : Text) :
    textLength (t ++ u) = t.length + textLength u := by
  induction t with
  | nil => exact (Nat.zero_add _).symm
  | cons b t ih =>
    obtain ⟨hb, ht⟩ := Bool.and_eq_true_iff.1 h
    have hbracket : ¬ (b == 60 && opensMarkup (t ++ u)) = true := by
      intro hopens
      rw [eq_of_beq (Bool.and_eq_true_iff.1 hopens).1] at hb
      exact absurd hb (by decide)
    rw [List.cons_append, textLength, if_neg hbracket, ih ht, List.length_cons]
    omega

theorem resolveFrom_eq_self {inValue : Bool} {t : Text} (h : 38 ∉ t) :
    resolveFrom inValue 0 t = t := by
  induction t with
  | nil => rfl
  | cons b t ih =>
    obtain ⟨hb, ht⟩ := not_or.1 (mt List.mem_cons.2 h)
    rw [resolveFrom, if_neg (Ne.symm hb), ih ht]

/-- **White space** before markup is a piece of its own. -/
theorem Construction.next?_space {c : Construction} {t u : Text} (h : isSpaceText t = true)
    (ht : t ≠ []) (hu : textLength u = 0) (pieces : List Piece) :
    c.next? ⟨pieces, ⟨t ++ u, []⟩⟩ = some ⟨pieces ++ [(.text t, t)], ⟨u, []⟩⟩ := by
  have hlength : textLength (t ++ u) = t.length := by
    rw [textLength_append_of_space h, hu, Nat.add_zero]
  have hread : readToken? (c.sections pieces) (t ++ u) = some (.text t, ⟨u, []⟩) := by
    rw [readToken?_of_textLength (hlength ▸ Nat.ne_of_gt (List.length_pos_iff.2 ht)), hlength,
      List.take_left, List.drop_left, resolveText,
      resolveFrom_eq_self (not_mem_of_isSpaceText h (by decide))]
  refine next?_eq_some_iff.2 ⟨_, _, hread, ?_⟩
  rw [put_of_rawTag, taken_append]

end CodeAudit.Markup
