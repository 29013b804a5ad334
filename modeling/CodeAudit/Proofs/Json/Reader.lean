import CodeAudit.Json.Reader

/-!
# What a reader makes of a longer text

A reader that sees only the beginning of a text reads from it what it would read from the whole
text, as soon as the value is settled there. An object, an array or a string is settled at its last
byte; a number needs one byte behind it, since the digits `12` may go on. And a beginning that is
malformed is not mended by what follows it.

**Relation (`Extends`).** What is read from a text and what is read from a longer one. Every reader
has its lemma, and `Extends.bind` puts them together. The readers of values, items and members call
each other; they are taken together along the fuel, which is enough as long as it is twice the
length of the text.

**Results.**
* `extends_readString`, `extends_readNumber`, `extends_readWord`: the single tokens.
* `valuesExtend_succ`, `itemsExtend_succ`, `membersExtend_succ`: one round of values, items and
  members.
* `read_extends`: all rounds.
* `extends_readFirst`: the first value of a text.
-/
namespace CodeAudit.Json

/-- What a reader makes of a text, `short`, and of the text with more behind it, `long`. A value
that is settled is read again, and what is malformed remains so. -/
structure Extends {α : Type} (settled : α → Text → Prop) (t more : Text)
    (short long : Except Fault (α × Text)) : Prop where
  le : ∀ {a rest}, short = .ok (a, rest) → rest.length ≤ t.length
  ok : ∀ {a rest}, short = .ok (a, rest) → settled a rest → long = .ok (a, rest ++ more)
  malformed : short = .error .malformed → long = .error .malformed

/-- Something that is settled wherever it ends. -/
def Anywhere {α : Type} (_ : α) (_ : Text) : Prop := True

/-- Something that is settled by what follows it. -/
def Followed {α : Type} (_ : α) (rest : Text) : Prop := rest ≠ []

theorem eq_nil_of_not_followed {α : Type} {a : α} {rest : Text} (h : ¬ Followed a rest) :
    rest = [] :=
  Classical.not_not.1 h

/-- A compound value is settled at its end, every other one by what follows it. -/
def Settled (j : Json) (rest : Text) : Prop := j.isCompound = true ∨ rest ≠ []

namespace Extends

variable {α β : Type} {settled : α → Text → Prop} {settled' : β → Text → Prop} {t u more : Text}
  {short long : Except Fault (α × Text)}

theorem read {a : α} {rest : Text} (h : rest.length ≤ t.length) :
    Extends settled t more (.ok (a, rest)) (.ok (a, rest ++ more)) where
  le heq := by cases heq; exact h
  ok heq _ := by cases heq; rfl
  malformed heq := nomatch heq

theorem unsettled {a : α} {rest : Text} (h : rest.length ≤ t.length) (hopen : ¬ settled a rest) :
    Extends settled t more (.ok (a, rest)) long where
  le heq := by cases heq; exact h
  ok heq hdone := by cases heq; exact absurd hdone hopen
  malformed heq := nomatch heq

theorem incomplete : Extends settled t more (.error .incomplete) long :=
  ⟨nofun, nofun, nofun⟩

theorem broken : Extends settled t more (.error .malformed) (.error .malformed) :=
  ⟨nofun, nofun, fun _ => rfl⟩

theorem ite {c : Prop} [Decidable c] {short' long' : Except Fault (α × Text)}
    (hpos : Extends settled t more short long) (hneg : Extends settled t more short' long') :
    Extends settled t more (if c then short else short') (if c then long else long') := by
  by_cases h : c
  · rwa [if_pos h, if_pos h]
  · rwa [if_neg h, if_neg h]

/-- A text that comes later in another one. -/
theorem later (h : Extends settled u more short long) (hle : u.length ≤ t.length) :
    Extends settled t more short long :=
  ⟨fun heq => Nat.le_trans (h.le heq) hle, h.ok, h.malformed⟩

/-- What is settled anywhere is settled in every other sense. -/
theorem anywhere (h : Extends Anywhere t more short long) : Extends settled t more short long :=
  ⟨h.le, fun heq _ => h.ok heq trivial, h.malformed⟩

theorem map (f : α → β) (h : Extends (fun a => settled' (f a)) t more short long) :
    Extends settled' t more (short.map fun p => (f p.1, p.2)) (long.map fun p => (f p.1, p.2)) := by
  match short, h with
  | .ok (a, rest), h =>
    refine ⟨fun heq => ?_, fun heq hdone => ?_, nofun⟩
    · cases heq
      exact h.le rfl
    · cases heq
      rw [h.ok rfl hdone]
      rfl
  | .error .malformed, h => rw [h.malformed rfl]; exact broken
  | .error .incomplete, _ => exact incomplete

/-- One reader behind another. Where the first is not settled, neither is the second. -/
theorem bind {next : α × Text → Except Fault (β × Text)} (h : Extends settled t more short long)
    (hnext : ∀ a u, settled a u → Extends settled' u more (next (a, u)) (next (a, u ++ more)))
    (hopen : ∀ a u long, ¬ settled a u → Extends settled' u more (next (a, u)) long) :
    Extends settled' t more (short >>= next) (long >>= next) := by
  match short, h with
  | .ok (a, u), h =>
    refine Extends.later (u := u) ?_ (h.le rfl)
    by_cases hdone : settled a u
    · rw [h.ok rfl hdone]
      exact hnext a u hdone
    · exact hopen a u _ hdone
  | .error .malformed, h => rw [h.malformed rfl]; exact broken
  | .error .incomplete, _ => exact incomplete

end Extends

variable (t more : Text)

theorem skipSpace_append {t rest : Text} {b : UInt8} (h : skipSpace t = b :: rest) :
    skipSpace (t ++ more) = b :: (rest ++ more) := by
  unfold skipSpace at h ⊢
  rw [List.dropWhile_append, h]
  rfl

theorem length_lt_of_skipSpace {t rest : Text} {b : UInt8} (h : skipSpace t = b :: rest) :
    rest.length < t.length := by
  have hle : (skipSpace t).length ≤ t.length := (List.dropWhile_sublist _).length_le
  rw [h] at hle
  exact hle

/-! ## Tokens -/

theorem extends_readString (st : StringState) (s : StringSoFar) :
    Extends Anywhere t more (readString st s t) (readString st s (t ++ more)) := by
  induction t generalizing st s with
  | nil =>
    simp only [readString]
    exact .incomplete
  | cons b t ih =>
    have hle : t.length ≤ (b :: t).length := Nat.le_succ _
    rw [List.cons_append]
    cases st with
    | plain =>
      simp only [readString]
      split
      · exact .read hle
      split
      · exact (ih _ _).later hle
      split
      · exact .broken
      · exact (ih _ _).later hle
    | escape =>
      simp only [readString]
      split
      · exact (ih _ _).later hle
      split
      · exact (ih _ _).later hle
      · exact .broken
    | code n v =>
      simp only [readString]
      split
      · exact .broken
      split
      · exact (ih _ _).later hle
      · exact (ih _ _).later hle

theorem dropWhile_append_of_ne_nil {t : Text} {p : UInt8 → Bool} (h : t.dropWhile p ≠ []) :
    (t ++ more).takeWhile p = t.takeWhile p ∧ (t ++ more).dropWhile p = t.dropWhile p ++ more := by
  induction t with
  | nil => exact absurd rfl h
  | cons b t ih =>
    rw [List.cons_append]
    by_cases hb : p b = true
    · rw [List.dropWhile_cons_of_pos hb] at h ⊢
      rw [List.takeWhile_cons_of_pos hb, List.takeWhile_cons_of_pos hb,
        List.dropWhile_cons_of_pos hb]
      simp [ih h]
    · simp [hb]

theorem extends_readDigits : Extends Followed t more (readDigits t) (readDigits (t ++ more)) := by
  cases t with
  | nil => exact .incomplete
  | cons b t =>
    have hle : ((b :: t).dropWhile Text.isDigit).length ≤ (b :: t).length :=
      (List.dropWhile_sublist _).length_le
    rw [List.cons_append]
    simp only [readDigits]
    split
    · by_cases hend : (b :: t).dropWhile Text.isDigit = []
      · exact .unsettled hle (not_not_intro hend)
      · obtain ⟨htake, hdrop⟩ := dropWhile_append_of_ne_nil more hend
        rw [← List.cons_append, htake, hdrop]
        exact .read hle
    · exact .broken

theorem readWhole_of_ne {b : UInt8} (hb : b ≠ 48) (t : Text) :
    readWhole (b :: t) = readDigits (b :: t) := by
  unfold readWhole
  split
  · rename_i heq
    exact absurd (List.cons.inj heq).1 hb
  · rfl

theorem extends_readWhole : Extends Followed t more (readWhole t) (readWhole (t ++ more)) := by
  cases t with
  | nil => exact .incomplete
  | cons b t =>
    rw [List.cons_append]
    by_cases hb : b = 48
    · subst hb
      exact .read (Nat.le_succ _)
    · rw [readWhole_of_ne hb, readWhole_of_ne hb]
      exact extends_readDigits (b :: t) more

theorem readFraction_of_ne {b : UInt8} (hb : b ≠ 46) (t : Text) :
    readFraction (b :: t) = .ok ([], b :: t) := by
  unfold readFraction
  split
  · rename_i heq
    exact absurd (List.cons.inj heq).1 hb
  · rfl

theorem extends_readFraction :
    Extends Followed t more (readFraction t) (readFraction (t ++ more)) := by
  cases t with
  | nil => exact .unsettled (Nat.le_refl _) (not_not_intro rfl)
  | cons b t =>
    rw [List.cons_append]
    by_cases hb : b = 46
    · subst hb
      exact .later (.map (46 :: ·) (extends_readDigits t more)) (Nat.le_succ _)
    · rw [readFraction_of_ne hb, readFraction_of_ne hb]
      exact .read (Nat.le_refl _)

theorem extends_readExponent :
    Extends Followed t more (readExponent t) (readExponent (t ++ more)) := by
  cases t with
  | nil => exact .unsettled (Nat.le_refl _) (not_not_intro rfl)
  | cons b t =>
    rw [List.cons_append]
    simp only [readExponent]
    split
    · cases t with
      | nil => exact .incomplete
      | cons c t =>
        simp only [List.cons_append]
        split
        · exact .later (.map (b :: c :: ·) (extends_readDigits t more)) (Nat.le_add_right _ 2)
        · exact .later (.map (b :: ·) (extends_readDigits (c :: t) more)) (Nat.le_succ _)
    · exact .read (Nat.le_refl _)

/-- A number behind its sign. -/
def readUnsigned (sign t : Text) : Except Fault (Json × Text) := do
  let (whole, t) ← readWhole t
  let (fraction, t) ← readFraction t
  let (exponent, t) ← readExponent t
  return (.number (sign ++ whole ++ fraction ++ exponent), t)

theorem readNumber_of_ne {b : UInt8} (hb : b ≠ 45) (t : Text) :
    readNumber (b :: t) = readUnsigned [] (b :: t) := by
  unfold readNumber
  split
  rename_i sign u hsign
  split at hsign
  · rename_i heq
    exact absurd (List.cons.inj heq).1 hb
  · cases hsign
    rfl

theorem not_settled_number (digits : Text) : ¬ Settled (.number digits) [] := by
  simp [Settled, isCompound]

theorem extends_readUnsigned (sign : Text) :
    Extends Settled t more (readUnsigned sign t) (readUnsigned sign (t ++ more)) := by
  -- without a byte behind it a part may be the last one, and the number is not settled
  refine (extends_readWhole t more).bind (fun whole u _ => ?_) fun whole u long hu => ?_
  · refine (extends_readFraction u more).bind (fun fraction v _ => ?_) fun fraction v long hv => ?_
    · refine (extends_readExponent v more).bind (fun exponent w _ => .read (Nat.le_refl _))
        fun exponent w long hw => ?_
      obtain rfl := eq_nil_of_not_followed hw
      exact .unsettled (Nat.le_refl _) (not_settled_number _)
    · obtain rfl := eq_nil_of_not_followed hv
      exact .unsettled (Nat.le_refl _) (not_settled_number _)
  · obtain rfl := eq_nil_of_not_followed hu
    exact .unsettled (Nat.le_refl _) (not_settled_number _)

theorem extends_readNumber : Extends Settled t more (readNumber t) (readNumber (t ++ more)) := by
  cases t with
  | nil => exact .incomplete
  | cons b t =>
    by_cases hb : b = 45
    · subst hb
      exact (extends_readUnsigned t more [45]).later (Nat.le_succ _)
    · rw [List.cons_append, readNumber_of_ne hb, readNumber_of_ne hb]
      exact extends_readUnsigned (b :: t) more []

theorem extends_readWord (word : Text) (j : Json) :
    Extends Anywhere t more (readWord word j t) (readWord word j (t ++ more)) := by
  unfold readWord Text.startsWith
  simp only [List.isPrefixOf_iff_prefix]
  split
  · rename_i hstart
    obtain ⟨u, rfl⟩ := hstart
    rw [if_pos (List.append_assoc word u more ▸ List.prefix_append _ _), List.append_assoc,
      List.drop_left, List.drop_left]
    exact .read (by simp)
  split
  · exact .incomplete
  · rename_i hstart hwhole
    have hlonger : ¬ word <+: t ++ more := fun h =>
      (List.prefix_or_prefix_of_prefix h (List.prefix_append t more)).elim hstart hwhole
    have hshorter : ¬ t ++ more <+: word := fun h => hwhole ((List.prefix_append t more).trans h)
    rw [if_neg hlonger, if_neg hshorter]
    exact .broken

/-! ## Values -/

/-- Values are read from a longer text as from the text itself, as long as there is fuel enough for
that. -/
def ValuesExtend (fuel enough : Nat) : Prop :=
  ∀ (depth : Nat) (t more : Text), 2 * t.length < fuel →
    Extends Settled t more (readValue fuel depth t) (readValue enough depth (t ++ more))

/-- The same of the items of an array. -/
def ItemsExtend (fuel enough : Nat) : Prop :=
  ∀ (depth : Nat) (items : List Json) (t more : Text), 2 * t.length + 1 < fuel →
    Extends Anywhere t more (readItems fuel depth items t)
      (readItems enough depth items (t ++ more))

/-- The same of the members of an object. -/
def MembersExtend (fuel enough : Nat) : Prop :=
  ∀ (depth : Nat) (members : List (Text × Json)) (t more : Text), 2 * t.length + 1 < fuel →
    Extends Anywhere t more (readMembers fuel depth members t)
      (readMembers enough depth members (t ++ more))

section Step

variable {fuel enough : Nat}

/-- A compound value, whose first byte is read: it ends at once, or its parts follow. -/
theorem extends_opened {depth : Nat} {u more : Text} {close : UInt8} {empty : Json}
    {parts parts' : Text → Except Fault (Json × Text)}
    (hparts : ∀ v, v.length ≤ u.length → Extends Anywhere v more (parts v) (parts' (v ++ more))) :
    Extends Settled u more
      (if depth = maxDepth then .error .malformed
        else match skipSpace u with
          | [] => .error .incomplete
          | c :: v => if c = close then .ok (empty, v) else parts (c :: v))
      (if depth = maxDepth then .error .malformed
        else match skipSpace (u ++ more) with
          | [] => .error .incomplete
          | c :: v => if c = close then .ok (empty, v) else parts' (c :: v)) := by
  refine .ite .broken ?_
  cases hskip : skipSpace u with
  | nil => exact .incomplete
  | cons c v =>
    have hlt := length_lt_of_skipSpace hskip
    rw [skipSpace_append more hskip]
    exact .ite (.read (Nat.le_of_lt hlt)) ((hparts (c :: v) hlt).anywhere.later hlt)

theorem valuesExtend_succ (hitems : ItemsExtend fuel enough)
    (hmembers : MembersExtend fuel enough) :
    ValuesExtend (fuel + 1) (enough + 1) := by
  intro depth t more hfuel
  simp only [readValue]
  cases hskip : skipSpace t with
  | nil => exact .incomplete
  | cons b u =>
    have hlt := length_lt_of_skipSpace hskip
    have hle := Nat.le_of_lt hlt
    have hword (word : Text) (j : Json) : Extends Settled t more (readWord word j (b :: u))
        (readWord word j (b :: (u ++ more))) :=
      (extends_readWord (b :: u) more word j).anywhere.later hlt
    rw [skipSpace_append more hskip]
    refine .ite (.later ?_ hle) <| .ite (hword _ _) <| .ite (hword _ _) <| .ite (hword _ _) <|
      .ite ((extends_readNumber (b :: u) more).later hlt) <| .ite (.later ?_ hle) <|
      .ite (.later ?_ hle) .broken
    · exact .map Json.string (extends_readString u more .plain {}).anywhere
    · exact extends_opened fun v hv => hitems _ _ _ _ (by omega)
    · exact extends_opened fun v hv => hmembers _ _ _ _ (by omega)

theorem itemsExtend_succ (hvalues : ValuesExtend fuel enough) (hitems : ItemsExtend fuel enough) :
    ItemsExtend (fuel + 1) (enough + 1) := by
  intro depth items t more hfuel
  have hitem := hvalues depth t more (by omega)
  simp only [readItems]
  match hread : readValue fuel depth t with
  | .error .incomplete => exact .incomplete
  | .error .malformed =>
    rw [hitem.malformed hread]
    exact .broken
  | .ok (j, u) =>
    have hle := hitem.le hread
    cases hskip : skipSpace u with
    | nil =>
      simp only [hskip]
      exact .incomplete
    | cons b v =>
      have hlt := length_lt_of_skipSpace hskip
      -- a byte behind the item settles it
      have hu : u ≠ [] := List.ne_nil_of_length_pos (by omega)
      rw [hitem.ok hread (.inr hu)]
      simp only [hskip, skipSpace_append more hskip]
      exact .ite (.read (by omega)) <|
        .ite ((hitems _ _ v more (by omega)).later (by omega)) .broken

theorem membersExtend_succ (hvalues : ValuesExtend fuel enough)
    (hmembers : MembersExtend fuel enough) :
    MembersExtend (fuel + 1) (enough + 1) := by
  intro depth members t more hfuel
  simp only [readMembers]
  cases hskip : skipSpace t with
  | nil => exact .incomplete
  | cons q u =>
    have hu := length_lt_of_skipSpace hskip
    rw [skipSpace_append more hskip]
    refine .ite .broken ?_
    have hname := extends_readString u more .plain {}
    match hread : readString .plain {} u with
    | .error .incomplete => exact .incomplete
    | .error .malformed =>
      rw [hname.malformed hread]
      exact .broken
    | .ok (name, v) =>
      have hv := hname.le hread
      rw [hname.ok hread trivial]
      simp only
      cases hskip : skipSpace v with
      | nil => exact .incomplete
      | cons colon w =>
        have hw := length_lt_of_skipSpace hskip
        rw [skipSpace_append more hskip]
        refine .ite .broken ?_
        have hvalue := hvalues depth w more (by omega)
        match hread : readValue fuel depth w with
        | .error .incomplete => exact .incomplete
        | .error .malformed =>
          rw [hvalue.malformed hread]
          exact .broken
        | .ok (j, x) =>
          have hx := hvalue.le hread
          cases hskip : skipSpace x with
          | nil =>
            simp only [hskip]
            exact .incomplete
          | cons b y =>
            have hy := length_lt_of_skipSpace hskip
            have hne : x ≠ [] := List.ne_nil_of_length_pos (by omega)
            rw [hvalue.ok hread (.inr hne)]
            simp only [hskip, skipSpace_append more hskip]
            exact .ite (.read (by omega)) <|
              .ite ((hmembers _ _ y more (by omega)).later (by omega)) .broken

end Step

theorem read_extends (fuel : Nat) : ∀ {enough : Nat}, fuel ≤ enough →
    ValuesExtend fuel enough ∧ ItemsExtend fuel enough ∧ MembersExtend fuel enough := by
  induction fuel with
  | zero =>
    intro enough _
    exact ⟨fun _ _ _ => nofun, fun _ _ _ _ => nofun, fun _ _ _ _ => nofun⟩
  | succ fuel ih =>
    intro enough hle
    obtain ⟨enough, rfl⟩ : ∃ n, enough = n + 1 := ⟨enough - 1, by omega⟩
    obtain ⟨hvalues, hitems, hmembers⟩ := ih (Nat.le_of_succ_le_succ hle)
    exact ⟨valuesExtend_succ hitems hmembers, itemsExtend_succ hvalues hitems,
      membersExtend_succ hvalues hmembers⟩

/-- The first value of a text is also the first value of a longer one, once it is settled, and no
continuation mends a malformed text. -/
theorem extends_readFirst : Extends Settled t more (readFirst t) (readFirst (t ++ more)) := by
  have hfuel : 2 * t.length + 2 ≤ 2 * (t ++ more).length + 2 := by
    rw [List.length_append]
    omega
  exact (read_extends _ hfuel).1 0 t more (by omega)

end CodeAudit.Json
