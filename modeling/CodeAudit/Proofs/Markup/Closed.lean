import CodeAudit.Proofs.Markup.Reading

/-!
# Markup that ends with its own bracket

A tag, a comment or a declaration ends with a closing bracket of its own. Where it does so before
the end of a text, it is the same whatever follows that bracket.

**Results.**
* `readTag?_local`: tags.
* `afterComment_local`, `readSection_local`: comments and marked sections.
* `readDeclaration_local`: declarations.
-/
namespace CodeAudit.Markup

/-! ## Parts of tags -/

/-- A tail of a text that has another tail in turn is cut off in front of that one. -/
theorem exists_append_of_suffix {c t r : Text} (hr : r <:+ c ++ t) (ht : t <:+ r) :
    ∃ c₀ c₁, c = c₀ ++ c₁ ∧ r = c₁ ++ t := by
  obtain ⟨c₁, rfl⟩ := ht
  obtain ⟨c₀, h⟩ := hr
  exact ⟨c₀, c₁, List.append_cancel_right (by rw [← h, List.append_assoc]), rfl⟩

theorem head?_append_congr {t t' : Text} (h : t'.head? = t.head?) (c : Text) :
    (c ++ t').head? = (c ++ t).head? := by
  cases c with
  | nil => exact h
  | cons b c => rfl

theorem dropWhile_local {f : UInt8 → Bool} {c t t' : Text} (h : (c ++ t).dropWhile f = t)
    (hhead : t'.head? = t.head?) :
    (c ++ t').dropWhile f = t' ∧ (c ++ t').takeWhile f = (c ++ t).takeWhile f := by
  induction c with
  | nil =>
    cases t with
    | nil => simp_all
    | cons b u =>
      have hb : f b = false := by
        by_contra hb
        rw [List.nil_append, List.dropWhile_cons_of_pos (by simpa using hb)] at h
        have hlength := congrArg List.length h
        have hle := (List.dropWhile_suffix f (l := u)).length_le
        simp only [List.length_cons] at hlength
        omega
      cases t' with
      | nil => simp at hhead
      | cons b' u' =>
        obtain rfl : b' = b := by simpa using hhead
        simp [hb]
  | cons b c ih =>
    have hb : f b = true := by
      by_contra hb
      rw [List.cons_append, List.dropWhile_cons_of_neg hb] at h
      have hlength := congrArg List.length h
      simp only [List.length_cons, List.length_append] at hlength
      omega
    rw [List.cons_append, List.dropWhile_cons_of_pos hb] at h
    simp only [List.cons_append, List.dropWhile_cons_of_pos hb, List.takeWhile_cons_of_pos hb, ih h,
      and_self]

theorem dropSpace_local {c t t' : Text} (h : dropSpace (c ++ t) = t) (hhead : t'.head? = t.head?) :
    dropSpace (c ++ t') = t' :=
  (dropWhile_local h hhead).1

theorem readKey_cons_equals (u : Text) :
    readKey (61 :: u) = (61 :: u.takeWhile (!endsKey ·), u.dropWhile (!endsKey ·)) := rfl

theorem readKey_of_head?_ne {t : Text} (h : t.head? ≠ some 61) :
    readKey t = (t.takeWhile (!endsKey ·), t.dropWhile (!endsKey ·)) := by
  unfold readKey
  split
  · exact absurd rfl h
  · rfl

theorem readKey_local {c t t' key : Text} (h : readKey (c ++ t) = (key, t))
    (hhead : t'.head? = t.head?) :
    readKey (c ++ t') = (key, t') := by
  by_cases hequals : (c ++ t).head? = some 61
  · cases c with
    | nil =>
      obtain ⟨u, rfl⟩ : ∃ u, t = 61 :: u := by
        cases t <;> simp_all
      rw [List.nil_append, readKey_cons_equals] at h
      have hlength := congrArg List.length (Prod.mk.inj h).2
      have hle := (List.dropWhile_suffix (!endsKey ·) (l := u)).length_le
      simp only [List.length_cons] at hlength
      omega
    | cons b c =>
      obtain rfl : b = 61 := by simpa using hequals
      rw [List.cons_append, readKey_cons_equals] at h ⊢
      obtain ⟨hkey, hrest⟩ := Prod.mk.inj h
      obtain ⟨hdrop, htake⟩ := dropWhile_local hrest hhead
      rw [hdrop, htake, hkey]
  · have hequals' : (c ++ t').head? ≠ some 61 := head?_append_congr hhead c ▸ hequals
    rw [readKey_of_head?_ne hequals] at h
    obtain ⟨hkey, hrest⟩ := Prod.mk.inj h
    obtain ⟨hdrop, htake⟩ := dropWhile_local hrest hhead
    rw [readKey_of_head?_ne hequals', hdrop, htake, hkey]

theorem valueAfter?_local {c t t' value : Text} (h : valueAfter? (c ++ t) = some (value, t))
    (hhead : t'.head? = t.head?) : valueAfter? (c ++ t') = some (value, t') := by
  cases c with
  | nil =>
    cases t with
    | nil => cases h
    | cons q v =>
      obtain ⟨v', rfl⟩ : ∃ v', t' = q :: v' := by
        cases t' <;> simp_all
      rw [List.nil_append, valueAfter?] at h ⊢
      split at h
      · obtain ⟨rfl, -⟩ := Prod.mk.inj (Option.some.inj h)
        rw [if_pos ‹_›]
      split at h
      · -- a quoted value takes at least its first quote
        split at h
        · cases h
        · rename_i w hw
          obtain ⟨-, rfl⟩ := Prod.mk.inj (Option.some.inj h)
          have hle := (hw ▸ List.dropWhile_suffix (· != q) : _ <:+ v).length_le
          simp only [List.length_cons] at hle
          omega
      · obtain ⟨rfl, hrest⟩ := Prod.mk.inj (Option.some.inj h)
        obtain ⟨hdrop, htake⟩ := dropWhile_local (c := []) hrest hhead
        rw [if_neg ‹_›, if_neg ‹_›]
        exact congrArg some (Prod.ext htake hdrop)
  | cons q c =>
    rw [List.cons_append, valueAfter?] at h ⊢
    split at h
    · obtain ⟨-, hrest⟩ := Prod.mk.inj (Option.some.inj h)
      have hlength := congrArg List.length hrest
      simp only [List.length_cons, List.length_append] at hlength
      omega
    rw [if_neg ‹_›]
    split at h
    · rw [if_pos ‹_›]
      split at h
      · cases h
      · rename_i y w hw
        obtain ⟨rfl, rfl⟩ := Prod.mk.inj (Option.some.inj h)
        obtain ⟨c₀, c₁, rfl, hc₁⟩ := exists_append_of_suffix (c := c)
          (hw ▸ List.dropWhile_suffix (· != q)) (List.suffix_cons y w)
        obtain rfl : c₁ = [y] := List.append_cancel_right (hc₁.symm.trans rfl)
        rw [List.append_assoc] at hw ⊢
        rw [List.append_assoc]
        obtain ⟨hdrop, htake⟩ := dropWhile_local hw (rfl : ([y] ++ t').head? = (y :: w).head?)
        rw [hdrop, htake]
        rfl
    · rw [if_neg ‹_›]
      obtain ⟨rfl, hrest⟩ := Prod.mk.inj (Option.some.inj h)
      obtain ⟨hdrop, htake⟩ := dropWhile_local (c := q :: c) hrest hhead
      exact congrArg some (Prod.ext htake hdrop)

theorem valueFrom?_local {c t t' value : Text} (h : valueFrom? (c ++ t) = some (value, t))
    (hhead : t'.head? = t.head?) : valueFrom? (c ++ t') = some (value, t') := by
  cases c with
  | nil =>
    cases t with
    | nil => cases h
    | cons b u =>
      obtain ⟨u', rfl⟩ : ∃ u', t' = b :: u' := by
        cases t' <;> simp_all
      rw [List.nil_append, valueFrom?] at h ⊢
      split at h
      · have hlength := congrArg List.length (Prod.mk.inj (Option.some.inj h)).2
        simp only [List.length_cons] at hlength
        omega
      split at h
      · have hle := ((valueAfter?_suffix h).trans (dropSpace_suffix u)).length_le
        simp only [List.length_cons] at hle
        omega
      · obtain ⟨rfl, -⟩ := Prod.mk.inj (Option.some.inj h)
        rw [if_neg ‹_›, if_neg ‹_›]
  | cons b c =>
    rw [List.cons_append, valueFrom?] at h ⊢
    split at h
    · obtain ⟨rfl, hrest⟩ := Prod.mk.inj (Option.some.inj h)
      obtain rfl : c = [] := List.append_cancel_right hrest
      rw [if_pos ‹_›]
      rfl
    rw [if_neg ‹_›]
    split at h
    · rw [if_pos ‹_›]
      obtain ⟨c₀, c₁, rfl, hrest⟩ := exists_append_of_suffix (dropSpace_suffix _)
        (valueAfter?_suffix h)
      rw [hrest] at h
      rw [List.append_assoc] at hrest ⊢
      rw [dropSpace_local hrest (head?_append_congr hhead c₁)]
      exact valueAfter?_local h hhead
    · have hlength := congrArg List.length (Prod.mk.inj (Option.some.inj h)).2
      simp only [List.length_cons, List.length_append] at hlength
      omega

theorem readValue?_local {c t t' value : Text} (h : readValue? (c ++ t) = some (value, t))
    (hhead : t'.head? = t.head?) : readValue? (c ++ t') = some (value, t') := by
  rw [readValue?_eq] at h ⊢
  obtain ⟨c₀, c₁, rfl, hrest⟩ := exists_append_of_suffix (dropSpace_suffix _) (valueFrom?_suffix h)
  have hrest' : dropSpace (c₀ ++ c₁ ++ t') = c₁ ++ t' := by
    rw [List.append_assoc] at hrest ⊢
    exact dropSpace_local hrest (head?_append_congr hhead c₁)
  rw [hrest] at h
  rw [hrest']
  exact valueFrom?_local h hhead

/-! ## Tags -/

theorem readAttrs?_cons (fuel : Nat) (acc : List (Text × Text)) (b : UInt8) (u : Text) :
    readAttrs? (fuel + 1) acc (b :: u) =
      if b = 62 then some (acc.reverse, u)
      else (readValue? (readKey (b :: u)).2).bind fun value =>
        readAttrs? fuel (if (readKey (b :: u)).1.isEmpty then acc
          else (lowerAscii (readKey (b :: u)).1, resolveValue value.1) :: acc)
            (dropSpace value.2) := by
  by_cases hb : b = 62
  · subst hb
    rfl
  · rw [if_neg hb, readAttrs?]
    · rfl
    · exact List.cons_ne_nil b u
    · intro v hv
      exact hb (List.cons.inj hv).1

/-- The closing bracket is not part of what follows a tag. -/
theorem readAttrs?_length {fuel : Nat} {acc attrs : List (Text × Text)} {t rest : Text}
    (h : readAttrs? fuel acc t = some (attrs, rest)) : rest.length < t.length := by
  induction fuel generalizing acc t with
  | zero => cases h
  | succ fuel ih =>
    cases t with
    | nil => cases h
    | cons b u =>
      rw [readAttrs?_cons] at h
      split at h
      · obtain ⟨-, rfl⟩ := Prod.mk.inj (Option.some.inj h)
        exact Nat.lt_succ_self _
      · obtain ⟨⟨value, v⟩, hvalue, hrest⟩ := Option.bind_eq_some_iff.1 h
        have hle := ((dropSpace_suffix v).trans ((readValue?_suffix hvalue).trans
          (readKey_suffix _))).length_le
        exact Nat.lt_of_lt_of_le (ih hrest) hle

theorem readAttrs?_mono {fuel fuel' : Nat} {acc attrs : List (Text × Text)} {t rest : Text}
    (h : readAttrs? fuel acc t = some (attrs, rest)) (hle : fuel ≤ fuel') :
    readAttrs? fuel' acc t = some (attrs, rest) := by
  induction fuel generalizing fuel' acc t with
  | zero => cases h
  | succ fuel ih =>
    obtain ⟨fuel', rfl⟩ : ∃ k, fuel' = k + 1 := ⟨fuel' - 1, by omega⟩
    cases t with
    | nil => cases h
    | cons b u =>
      rw [readAttrs?_cons] at h ⊢
      split at h
      · rw [if_pos ‹_›, h]
      · rw [if_neg ‹_›]
        obtain ⟨⟨value, v⟩, hvalue, hrest⟩ := Option.bind_eq_some_iff.1 h
        exact Option.bind_eq_some_iff.2 ⟨(value, v), hvalue, ih hrest (by omega)⟩

theorem readAttrs?_local {fuel : Nat} {acc attrs : List (Text × Text)} {c t : Text}
    (h : readAttrs? fuel acc (c ++ t) = some (attrs, t)) :
    62 ∈ c ∧ ∀ t', readAttrs? fuel acc (c ++ t') = some (attrs, t') := by
  induction fuel generalizing acc c with
  | zero => cases h
  | succ fuel ih =>
    cases c with
    | nil => exact absurd (readAttrs?_length h) (Nat.lt_irrefl _)
    | cons b c =>
      simp only [List.cons_append, readAttrs?_cons] at h ⊢
      split at h
      · rename_i hb
        obtain ⟨rfl, hrest⟩ := Prod.mk.inj (Option.some.inj h)
        obtain rfl : c = [] := List.append_cancel_right hrest
        exact ⟨hb ▸ List.mem_cons_self, fun t' => if_pos hb⟩
      · rename_i hb
        obtain ⟨⟨value, v⟩, hvalue, hrest⟩ := Option.bind_eq_some_iff.1 h
        dsimp only at hrest
        -- the closing bracket is still to come behind the key, the value and the space after it
        have hv := (dropSpace_suffix v).trans (readValue?_suffix hvalue)
        obtain ⟨c₁, k₁, hc, hkey⟩ := exists_append_of_suffix (c := b :: c) (readKey_suffix _)
          ((readAttrs?_suffix hrest).trans hv)
        have hsplit : ∀ u : Text, b :: (c ++ u) = c₁ ++ (k₁ ++ u) := fun u => by
          rw [← List.cons_append, hc, List.append_assoc]
        rw [List.cons_append] at hkey
        rw [hsplit] at hkey hrest hvalue
        rw [hkey] at hvalue
        obtain ⟨c₂, k₂, rfl, rfl⟩ := exists_append_of_suffix (readValue?_suffix hvalue)
          ((readAttrs?_suffix hrest).trans (dropSpace_suffix v))
        obtain ⟨c₃, k₃, rfl, hspace⟩ :=
          exists_append_of_suffix (dropSpace_suffix _) (readAttrs?_suffix hrest)
        rw [hspace] at hrest
        obtain ⟨hmem, hlocal⟩ := ih hrest
        refine ⟨hc ▸ List.mem_append_right _
          (List.mem_append_right _ (List.mem_append_right _ hmem)), fun t' => ?_⟩
        have hhead : (k₃ ++ t').head? = (k₃ ++ t).head? := by
          rw [List.head?_append_of_ne_nil _ (List.ne_nil_of_mem hmem),
            List.head?_append_of_ne_nil _ (List.ne_nil_of_mem hmem)]
        rw [if_neg hb, hsplit]
        simp only [List.append_assoc] at hkey hvalue hspace hlocal ⊢
        rw [readKey_local (Prod.ext rfl hkey) (head?_append_congr (head?_append_congr hhead c₃) c₂)]
        refine Option.bind_eq_some_iff.2
          ⟨_, readValue?_local hvalue (head?_append_congr hhead c₃), ?_⟩
        dsimp only
        rw [dropSpace_local hspace hhead]
        exact hlocal t'

theorem drop_length_takeWhile (f : UInt8 → Bool) (t : Text) :
    t.drop (t.takeWhile f).length = t.dropWhile f := by
  calc t.drop (t.takeWhile f).length
      = (t.takeWhile f ++ t.dropWhile f).drop (t.takeWhile f).length := by
        rw [List.takeWhile_append_dropWhile]
    _ = t.dropWhile f := List.drop_left

theorem readTag?_eq_some_iff {t rest : Text} {tag : Tag} :
    readTag? t = some (tag, rest) ↔ ∃ attrs,
      readAttrs? (t.length + 1) [] (dropSpace (t.dropWhile (!endsName ·))) = some (attrs, rest) ∧
        tag = ⟨lowerAscii (t.takeWhile (!endsName ·)), attrs,
          t[t.length - rest.length - 2]? == some 47⟩ := by
  rw [← drop_length_takeWhile]
  constructor
  · intro h
    obtain ⟨⟨attrs, u⟩, hattrs, htag⟩ := Option.bind_eq_some_iff.1 h
    obtain ⟨rfl, rfl⟩ := Prod.mk.inj (Option.some.inj htag)
    exact ⟨attrs, hattrs, rfl⟩
  · rintro ⟨attrs, hattrs, rfl⟩
    exact Option.bind_eq_some_iff.2 ⟨(attrs, rest), hattrs, rfl⟩

/-- A tag is read from its own bytes, the last of which is its closing bracket. -/
theorem readTag?_local {c t : Text} {tag : Tag} (h : readTag? (c ++ t) = some (tag, t)) :
    62 ∈ c ∧ ∀ t', t.length ≤ t'.length → readTag? (c ++ t') = some (tag, t') := by
  obtain ⟨attrs, hattrs, htag⟩ := readTag?_eq_some_iff.1 h
  obtain ⟨c₁, k₁, rfl, hname⟩ := exists_append_of_suffix (List.dropWhile_suffix (!endsName ·))
    ((readAttrs?_suffix hattrs).trans (dropSpace_suffix _))
  rw [hname] at hattrs
  obtain ⟨c₂, k₂, rfl, hspace⟩ := exists_append_of_suffix (dropSpace_suffix _)
    (readAttrs?_suffix hattrs)
  rw [hspace] at hattrs
  obtain ⟨hmem, hlocal⟩ := readAttrs?_local hattrs
  have hmem' : 62 ∈ c₁ ++ (c₂ ++ k₂) := List.mem_append_right _ (List.mem_append_right _ hmem)
  refine ⟨hmem', fun t' hle => ?_⟩
  have hhead : (k₂ ++ t').head? = (k₂ ++ t).head? := by
    rw [List.head?_append_of_ne_nil _ (List.ne_nil_of_mem hmem),
      List.head?_append_of_ne_nil _ (List.ne_nil_of_mem hmem)]
  -- the byte before the closing bracket stands in the tag itself
  have hlength : (c₁ ++ (c₂ ++ k₂)).length - 2 < (c₁ ++ (c₂ ++ k₂)).length := by
    have hpos := List.length_pos_of_mem hmem'
    omega
  have hslash : ∀ u : Text,
      (c₁ ++ (c₂ ++ k₂) ++ u)[(c₁ ++ (c₂ ++ k₂) ++ u).length - u.length - 2]? =
      (c₁ ++ (c₂ ++ k₂))[(c₁ ++ (c₂ ++ k₂)).length - 2]? := fun u => by
    rw [List.length_append, Nat.add_sub_cancel, List.getElem?_append_left hlength]
  rw [hslash] at htag
  simp only [List.append_assoc] at hname hspace
  obtain ⟨hdrop, htake⟩ := dropWhile_local hname (head?_append_congr hhead c₂)
  refine readTag?_eq_some_iff.2 ⟨attrs, ?_, ?_⟩
  · simp only [List.append_assoc]
    rw [hdrop, dropSpace_local hspace hhead]
    exact readAttrs?_mono (hlocal t') (by simp only [List.length_append]; omega)
  · rw [hslash, htag]
    simp only [List.append_assoc, htake]

/-! ## Comments, brackets and sections -/

theorem exists_cons_of_suffix {b : UInt8} {u c t : Text} (h : b :: u = c ++ t) (hsuffix : t <:+ u) :
    ∃ c', c = b :: c' ∧ u = c' ++ t := by
  cases c with
  | nil =>
    have hle := hsuffix.length_le
    rw [← List.nil_append t, ← h, List.length_cons] at hle
    omega
  | cons b' c =>
    obtain ⟨rfl, rfl⟩ := List.cons.inj h
    exact ⟨c, rfl, rfl⟩

theorem afterBracket_local {c t : Text} (h : afterBracket (c ++ t) = t) (hne : t ≠ []) :
    62 ∈ c ∧ ∀ t', afterBracket (c ++ t') = t' := by
  unfold afterBracket at h ⊢
  have hsuffix := List.dropWhile_suffix (· != 62) (l := c ++ t)
  have hstop := List.head?_dropWhile_not (· != 62) (c ++ t)
  cases hdrop : (c ++ t).dropWhile (· != 62) with
  | nil => exact absurd (hdrop ▸ h).symm hne
  | cons b w =>
    rw [hdrop] at h hsuffix hstop
    obtain rfl : w = t := h
    obtain rfl : b = 62 := by simpa using hstop
    obtain ⟨c₀, c₁, rfl, hc₁⟩ := exists_append_of_suffix hsuffix (List.suffix_cons 62 w)
    obtain rfl : c₁ = [62] := List.append_cancel_right (hc₁.symm.trans rfl)
    refine ⟨by simp, fun t' => ?_⟩
    rw [List.append_assoc] at hdrop ⊢
    rw [(dropWhile_local hdrop (rfl : ([62] ++ t').head? = (62 :: w).head?)).1]
    rfl

theorem afterComment_cons (dashes : Nat) (beginning : Bool) (b : UInt8) (u : Text) :
    afterComment dashes beginning (b :: u) =
      if b == 45 then afterComment (dashes + 1) beginning u
      else if b == 62 && (2 ≤ dashes || beginning) then u
      else if b == 33 && 2 ≤ dashes then
        match u with
        | [] => []
        | b' :: v =>
          if b' == 62 then v else if b' == 45 then afterComment 1 false v
            else afterComment 0 false v
      else afterComment 0 false u :=
  afterComment.eq_def ..

theorem afterComment_local {dashes : Nat} {beginning : Bool} {x t : Text}
    (h : afterComment dashes beginning x = t) (hne : t ≠ []) {c : Text} (hx : x = c ++ t) :
    62 ∈ c ∧ ∀ t', afterComment dashes beginning (c ++ t') = t' := by
  fun_induction afterComment dashes beginning x generalizing c with
  | case1 => exact absurd h.symm hne
  | case2 dashes beginning b u hb ih =>
    obtain ⟨c', rfl, rfl⟩ := exists_cons_of_suffix hx (h ▸ afterComment_suffix ..)
    obtain ⟨hmem, hlocal⟩ := ih h rfl
    refine ⟨List.mem_cons_of_mem _ hmem, fun t' => ?_⟩
    rw [List.cons_append, afterComment_cons, if_pos hb, hlocal]
  | case3 dashes beginning b u hb h62 =>
    subst h
    obtain ⟨c', rfl, hu⟩ := exists_cons_of_suffix hx List.suffix_rfl
    obtain rfl : c' = [] := List.append_cancel_right hu.symm
    refine ⟨?_, fun t' => ?_⟩
    · rw [eq_of_beq (Bool.and_eq_true_iff.1 h62).1]
      exact List.mem_cons_self
    · rw [List.cons_append, afterComment_cons, if_neg hb, if_pos h62]
      rfl
  | case4 => exact absurd h.symm hne
  | case5 dashes beginning b hb h62 h33 b' v hb' =>
    subst h
    obtain ⟨c', rfl, hu⟩ := exists_cons_of_suffix hx (List.suffix_cons ..)
    obtain ⟨c'', rfl, hv⟩ := exists_cons_of_suffix hu List.suffix_rfl
    obtain rfl : c'' = [] := List.append_cancel_right hv.symm
    refine ⟨?_, fun t' => ?_⟩
    · rw [eq_of_beq hb']
      simp
    · rw [List.cons_append, afterComment_cons, if_neg hb, if_neg h62, if_pos h33]
      exact if_pos hb'
  | case6 dashes beginning b hb h62 h33 b' v hb' h45 ih =>
    have hv : t <:+ v := h ▸ afterComment_suffix ..
    obtain ⟨c', rfl, hu⟩ := exists_cons_of_suffix hx (hv.trans (List.suffix_cons ..))
    obtain ⟨c'', rfl, rfl⟩ := exists_cons_of_suffix hu hv
    obtain ⟨hmem, hlocal⟩ := ih h rfl
    refine ⟨List.mem_cons_of_mem _ (List.mem_cons_of_mem _ hmem), fun t' => ?_⟩
    rw [List.cons_append, afterComment_cons, if_neg hb, if_neg h62, if_pos h33]
    exact ((if_neg hb').trans (if_pos h45)).trans (hlocal t')
  | case7 dashes beginning b hb h62 h33 b' v hb' h45 ih =>
    have hv : t <:+ v := h ▸ afterComment_suffix ..
    obtain ⟨c', rfl, hu⟩ := exists_cons_of_suffix hx (hv.trans (List.suffix_cons ..))
    obtain ⟨c'', rfl, rfl⟩ := exists_cons_of_suffix hu hv
    obtain ⟨hmem, hlocal⟩ := ih h rfl
    refine ⟨List.mem_cons_of_mem _ (List.mem_cons_of_mem _ hmem), fun t' => ?_⟩
    rw [List.cons_append, afterComment_cons, if_neg hb, if_neg h62, if_pos h33]
    exact ((if_neg hb').trans (if_neg h45)).trans (hlocal t')
  | case8 dashes beginning b u hb h62 h33 ih =>
    obtain ⟨c', rfl, rfl⟩ := exists_cons_of_suffix hx (h ▸ afterComment_suffix ..)
    obtain ⟨hmem, hlocal⟩ := ih h rfl
    refine ⟨List.mem_cons_of_mem _ hmem, fun t' => ?_⟩
    rw [List.cons_append, afterComment_cons, if_neg hb, if_neg h62, if_neg h33, hlocal]

theorem readSection_local {brackets : Nat} {acc x data t : Text}
    (h : readSection brackets acc x = (data, t)) (hne : t ≠ []) {c : Text} (hx : x = c ++ t) :
    62 ∈ c ∧ ∀ t', readSection brackets acc (c ++ t') = (data, t') := by
  fun_induction readSection brackets acc x generalizing c with
  | case1 => exact absurd (Prod.mk.inj h).2.symm hne
  | case2 brackets acc b u hb ih =>
    obtain ⟨c', rfl, rfl⟩ := exists_cons_of_suffix hx
      (h ▸ readSection_suffix .. : (data, t).2 <:+ u)
    obtain ⟨hmem, hlocal⟩ := ih h rfl
    refine ⟨List.mem_cons_of_mem _ hmem, fun t' => ?_⟩
    rw [List.cons_append, readSection, if_pos hb, hlocal]
  | case3 brackets acc b u hb h62 =>
    obtain ⟨rfl, rfl⟩ := Prod.mk.inj h
    obtain ⟨c', rfl, hu⟩ := exists_cons_of_suffix hx List.suffix_rfl
    obtain rfl : c' = [] := List.append_cancel_right hu.symm
    refine ⟨?_, fun t' => ?_⟩
    · rw [eq_of_beq (Bool.and_eq_true_iff.1 h62).1]
      exact List.mem_cons_self
    · rw [List.cons_append, readSection, if_neg hb, if_pos h62]
      rfl
  | case4 brackets acc b u hb h62 ih =>
    obtain ⟨c', rfl, rfl⟩ := exists_cons_of_suffix hx
      (h ▸ readSection_suffix .. : (data, t).2 <:+ u)
    obtain ⟨hmem, hlocal⟩ := ih h rfl
    refine ⟨List.mem_cons_of_mem _ hmem, fun t' => ?_⟩
    rw [List.cons_append, readSection, if_neg hb, if_neg h62, hlocal]

/-! ## Words in front of a closing bracket -/

section
variable {w word tag : Text} (hw : 62 ∈ w) (R R' : Text)
include hw

theorem startsWith_congr (hword : 62 ∉ word) :
    Text.startsWith (w ++ R) word = Text.startsWith (w ++ R') word := by
  unfold Text.startsWith
  induction word generalizing w with
  | nil => rfl
  | cons a word ih =>
    cases w with
    | nil => exact absurd hw List.not_mem_nil
    | cons b w =>
      simp only [List.cons_append, List.isPrefixOf_cons_cons]
      by_cases hab : a = b
      · have hb : b ≠ 62 := fun h => hword (hab ▸ h ▸ List.mem_cons_self)
        rw [ih (List.mem_of_ne_of_mem hb.symm hw) fun h => hword (List.mem_cons_of_mem _ h)]
      · rw [beq_false_of_ne hab, Bool.false_and, Bool.false_and]

theorem startsWithWord_congr (hword : 62 ∉ word) :
    startsWithWord (w ++ R) word = startsWithWord (w ++ R') word ∧
      (startsWithWord (w ++ R) word = true → word.length < w.length) := by
  induction word generalizing w with
  | nil => exact ⟨rfl, fun _ => List.length_pos_of_mem hw⟩
  | cons a word ih =>
    cases w with
    | nil => exact absurd hw List.not_mem_nil
    | cons b w =>
      have hcons : ∀ u : Text, startsWithWord (b :: w ++ u) (a :: word) =
          (Text.asciiLower b == a && startsWithWord (w ++ u) word) := fun u => by
        simp [startsWithWord, lowerAscii]
      by_cases hab : Text.asciiLower b = a
      · have hb : b ≠ 62 := by
          rintro rfl
          exact hword (hab ▸ List.mem_cons_self)
        obtain ⟨hcongr, hlength⟩ := ih (List.mem_of_ne_of_mem hb.symm hw)
          fun h => hword (List.mem_cons_of_mem _ h)
        simp only [hcons, hab, BEq.rfl, Bool.true_and, hcongr, List.length_cons, true_and]
        intro h
        exact Nat.succ_lt_succ (hlength (hcongr.trans h))
      · simp only [hcons, beq_false_of_ne hab, Bool.false_and, true_and]
        exact nofun

theorem isRawEnd_congr (htag : 62 ∉ tag) : isRawEnd tag (w ++ R) = isRawEnd tag (w ++ R') := by
  have hword : (62 : UInt8) ∉ 47 :: tag := by simpa using htag
  obtain ⟨hcongr, hlength⟩ := startsWithWord_congr hw R R' hword
  unfold isRawEnd
  rw [hcongr]
  cases hstarts : startsWithWord (w ++ R') (47 :: tag) with
  | false => rfl
  | true =>
    have hlt := hlength (hcongr.trans hstarts)
    rw [List.length_cons] at hlt
    rw [List.getElem?_append_left hlt, List.getElem?_append_left hlt]

end

/-! ## Declarations -/

theorem drop_append_of_suffix {n : Nat} {c t : Text} (h : t <:+ (c ++ t).drop n) (hne : t ≠ [])
    (u : Text) :
    (c ++ u).drop n = c.drop n ++ u := by
  refine List.drop_append_of_le_length ?_
  have hle := h.length_le
  have hpos := List.length_pos_iff.2 hne
  simp only [List.length_drop, List.length_append] at hle
  omega

theorem readDeclaration_local {sections : Bool} {c t : Text} {token : Token}
    (h : readDeclaration sections (c ++ t) = (token, t)) (hne : t ≠ []) :
    62 ∈ c ∧ ∀ t', t.length ≤ t'.length → readDeclaration sections (c ++ t') = (token, t') := by
  have hlength : ¬ (c ++ t).length < 2 := fun hlt => by
    rw [readDeclaration, if_pos hlt] at h
    exact hne (Prod.mk.inj h).2.symm
  have hlength' : ∀ t' : Text, t.length ≤ t'.length → ¬ (c ++ t').length < 2 := fun t' hle => by
    simp only [List.length_append] at hlength ⊢
    omega
  rw [readDeclaration, if_neg hlength] at h
  split at h
  · rename_i hdashes
    obtain ⟨rfl, hrest⟩ := Prod.mk.inj h
    have hdrop := drop_append_of_suffix (n := 2) (hrest ▸ afterComment_suffix ..) hne
    rw [hdrop] at hrest
    obtain ⟨hmem, hlocal⟩ := afterComment_local hrest hne rfl
    have hmem' := List.mem_of_mem_drop hmem
    refine ⟨hmem', fun t' hle => ?_⟩
    rw [readDeclaration, if_neg (hlength' t' hle), startsWith_congr hmem' t' t (by decide),
      if_pos hdashes, hdrop, hlocal]
  rename_i hdashes
  split at h
  · rename_i hdoctype
    obtain ⟨rfl, hrest⟩ := Prod.mk.inj h
    have hdrop := drop_append_of_suffix (n := 7) (hrest ▸ afterBracket_suffix _) hne
    rw [hdrop] at hrest
    obtain ⟨hmem, hlocal⟩ := afterBracket_local hrest hne
    have hmem' := List.mem_of_mem_drop hmem
    refine ⟨hmem', fun t' hle => ?_⟩
    rw [readDeclaration, if_neg (hlength' t' hle), startsWith_congr hmem' t' t (by decide),
      if_neg hdashes,
      (startsWithWord_congr hmem' t' t (by decide)).1, if_pos hdoctype, hdrop, hlocal]
  rename_i hdoctype
  split at h
  · rename_i hsection
    obtain ⟨rfl, hrest⟩ := Prod.mk.inj h
    have hdrop := drop_append_of_suffix (n := 7) (hrest ▸ readSection_suffix ..) hne
    rw [hdrop] at hrest
    have hdata : readSection 0 [] (c.drop 7 ++ t) = ((readSection 0 [] (c.drop 7 ++ t)).1, t) :=
      Prod.ext rfl hrest
    obtain ⟨hmem, hlocal⟩ := readSection_local hdata hne rfl
    have hmem' := List.mem_of_mem_drop hmem
    refine ⟨hmem', fun t' hle => ?_⟩
    rw [readDeclaration, if_neg (hlength' t' hle), startsWith_congr hmem' t' t (by decide),
      if_neg hdashes, (startsWithWord_congr hmem' t' t (by decide)).1, if_neg hdoctype,
      startsWith_congr hmem' t' t (by decide), if_pos hsection, hdrop, hlocal]
    rw [hdrop]
  · rename_i hsection
    obtain ⟨rfl, hrest⟩ := Prod.mk.inj h
    obtain ⟨hmem, hlocal⟩ := afterBracket_local hrest hne
    refine ⟨hmem, fun t' hle => ?_⟩
    rw [readDeclaration, if_neg (hlength' t' hle), startsWith_congr hmem t' t (by decide),
      if_neg hdashes, (startsWithWord_congr hmem t' t (by decide)).1, if_neg hdoctype,
      startsWith_congr hmem t' t (by decide), if_neg hsection, hlocal]

end CodeAudit.Markup
