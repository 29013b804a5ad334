import CodeAudit.Edit.Script

/-!
# Scripts lead from one list to the other

A script is found by cutting two lists into pieces, finding scripts for the pieces, joining these
and moving steps about. Here none of the steps matters but what a script spells: the list it starts
from and the list it leads to. Every cut divides both lists, and no joining or moving of steps
changes either of them. Where the lists are cut only decides how long the script is.

**Shared runs.** `commonPrefix`, `commonSuffix`, `firstOccurrence?` and `halfMatch?` find runs that
are really there.

**Results.**
* `Grain.spells_tidy`: joining and moving steps changes neither list.
* `Grain.spells_script`: the script between two lists leads from one to the other.
-/
namespace CodeAudit

variable {α : Type}

namespace Edit

/-! ## What a script spells -/

/-- The script starts from one list and leads to the other. -/
def Spells (a b : List α) (script : List (Edit α)) : Prop := before script = a ∧ after script = b

/-- What is asked of a script between two lists: it leads from the one to the other, and no step of
it is empty. -/
structure Valid (a b : List α) (script : List (Edit α)) : Prop where
  spells : Spells a b script
  nonempty : ∀ e ∈ script, e.items ≠ []

@[simp]
theorem before_append (s t : List (Edit α)) : before (s ++ t) = before s ++ before t := by
  simp [before]

@[simp]
theorem after_append (s t : List (Edit α)) : after (s ++ t) = after s ++ after t := by
  simp [after]

theorem before_cons (e : Edit α) (s : List (Edit α)) :
    before (e :: s) = (if e.kind = .added then [] else e.items) ++ before s := rfl

theorem after_cons (e : Edit α) (s : List (Edit α)) :
    after (e :: s) = (if e.kind = .removed then [] else e.items) ++ after s := rfl

@[simp]
theorem before_nil : before ([] : List (Edit α)) = [] := rfl

@[simp]
theorem after_nil : after ([] : List (Edit α)) = [] := rfl

@[simp]
theorem before_equal (items : List α) (s : List (Edit α)) :
    before (equal items :: s) = items ++ before s := rfl

@[simp]
theorem after_equal (items : List α) (s : List (Edit α)) :
    after (equal items :: s) = items ++ after s := rfl

@[simp]
theorem before_added (items : List α) (s : List (Edit α)) :
    before (added items :: s) = before s := rfl

@[simp]
theorem after_added (items : List α) (s : List (Edit α)) :
    after (added items :: s) = items ++ after s := rfl

@[simp]
theorem before_removed (items : List α) (s : List (Edit α)) :
    before (removed items :: s) = items ++ before s := rfl

@[simp]
theorem after_removed (items : List α) (s : List (Edit α)) :
    after (removed items :: s) = after s := rfl

theorem Spells.append {a b c d : List α} {s t : List (Edit α)} (hs : Spells a b s)
    (ht : Spells c d t) : Spells (a ++ c) (b ++ d) (s ++ t) := by
  obtain ⟨rfl, rfl⟩ := hs
  obtain ⟨rfl, rfl⟩ := ht
  exact ⟨before_append s t, after_append s t⟩

/-- Steps may stand for others that spell the same, in any script. -/
theorem Spells.within {s t : List (Edit α)} (h : Spells (before s) (after s) t)
    (l r : List (Edit α)) : Spells (before (l ++ s ++ r)) (after (l ++ s ++ r)) (l ++ t ++ r) := by
  simp only [Spells, before_append, after_append]
  exact ⟨by rw [h.1], by rw [h.2]⟩

theorem spells_equal (a : List α) : Spells a a [equal a] := by
  simp [Spells]

theorem kind_of_isEqual {e : Edit α} (h : e.isEqual = true) : e.kind = .equal := by
  simpa [isEqual] using h

theorem eq_equal_of_isEqual {e : Edit α} (h : e.isEqual = true) : e = equal e.items := by
  obtain ⟨kind, items⟩ := e
  obtain rfl : kind = .equal := kind_of_isEqual h
  rfl

/-! ## Steps in place of others -/

theorem spells_extendEqual {a b : List α} {done : List (Edit α)} (items : List α)
    (h : Spells a b done.reverse) :
    Spells (a ++ items) (b ++ items) (extendEqual items done).reverse := by
  obtain ⟨rfl, rfl⟩ := h
  cases done with
  | nil => exact spells_equal items
  | cons e done =>
    rw [extendEqual]
    split
    · rename_i he
      simp [Spells, before_cons, after_cons, equal, kind_of_isEqual he]
    · simp [Spells, before_cons, after_cons, equal]

/-- A removal and an addition lose a run that they share at either end; the equal runs around them
get it. -/
theorem spells_replacement {a b : List α} {done : List (Edit α)} (hd : Spells a b done.reverse)
    {old new : List α} (items : List α) {n m : Nat} (hstart : new.take n = old.take n)
    (hend : (new.drop n).drop ((new.drop n).length - m)
      = (old.drop n).drop ((old.drop n).length - m)) :
    Spells (a ++ old ++ items) (b ++ new ++ items)
      (equal ((new.drop n).drop ((new.drop n).length - m) ++ items)
        :: added ((new.drop n).take ((new.drop n).length - m))
        :: removed ((old.drop n).take ((old.drop n).length - m))
        :: if n = 0 then done else extendEqual (new.take n) done).reverse := by
  have hhead : Spells (a ++ old.take n) (b ++ new.take n)
      (if n = 0 then done else extendEqual (new.take n) done).reverse := by
    split
    · rename_i hn
      simpa [hn] using hd
    · rw [← hstart]
      exact spells_extendEqual _ hd
  have htail : Spells (old.drop n ++ items) (new.drop n ++ items)
      [removed ((old.drop n).take ((old.drop n).length - m)),
        added ((new.drop n).take ((new.drop n).length - m)),
        equal ((new.drop n).drop ((new.drop n).length - m) ++ items)] := by
    refine ⟨?_, ?_⟩
    · simp only [before_removed, before_added, before_equal, before_nil, List.append_nil]
      rw [hend, ← List.append_assoc, List.take_append_drop]
    · simp only [after_removed, after_added, after_equal, after_nil, List.append_nil]
      rw [← List.append_assoc, List.take_append_drop]
  have h := hhead.append htail
  simp only [List.append_assoc, List.reverse_cons, List.cons_append, List.nil_append] at h ⊢
  rwa [← List.append_assoc (old.take n), List.take_append_drop, ← List.append_assoc (new.take n),
    List.take_append_drop] at h

/-- A change that ends in the equal run before it may stand before that run. -/
theorem spells_moved_left (kind : EditKind) (e x f : List α) :
    Spells (before [⟨kind, e ++ x⟩, equal (e ++ f)]) (after [⟨kind, e ++ x⟩, equal (e ++ f)])
      [equal e, ⟨kind, x ++ e⟩, equal f] := by
  cases kind <;> simp [Spells, before_cons, after_cons, equal]

/-- A change that starts with the equal run behind it may stand behind that run. -/
theorem spells_moved_right (kind : EditKind) (e x f : List α) :
    Spells (before [equal (e ++ f), ⟨kind, x ++ f⟩]) (after [equal (e ++ f), ⟨kind, x ++ f⟩])
      [equal e, ⟨kind, f ++ x⟩, equal f] := by
  cases kind <;> simp [Spells, before_cons, after_cons, equal]

theorem spells_kept (l : List α) : Spells l l (if l.isEmpty then [] else [equal l]) := by
  split
  · rename_i hl
    simp [Spells, List.isEmpty_iff.1 hl]
  · exact spells_equal l

/-- A script for the middle and the two shared ends around it. -/
theorem spells_ends {search : List α → List α → List (Edit α)}
    (hsearch : ∀ a b, Spells a b (search a b)) {a b : List α} {n m : Nat}
    (hstart : a.take n = b.take n)
    (hend : (a.drop n).drop ((a.drop n).length - m) = (b.drop n).drop ((b.drop n).length - m)) :
    Spells a b ((if (a.take n).isEmpty then [] else [equal (a.take n)])
      ++ search ((a.drop n).take ((a.drop n).length - m)) ((b.drop n).take ((b.drop n).length - m))
      ++ if ((a.drop n).drop ((a.drop n).length - m)).isEmpty then []
        else [equal ((a.drop n).drop ((a.drop n).length - m))]) := by
  have hspells :=
    ((spells_kept (a.take n)).append (hsearch ((a.drop n).take ((a.drop n).length - m))
    ((b.drop n).take ((b.drop n).length - m)))).append
      (spells_kept ((a.drop n).drop ((a.drop n).length - m)))
  refine ⟨hspells.1.trans ?_, hspells.2.trans ?_⟩
  · rw [List.append_assoc, List.take_append_drop, List.take_append_drop]
  · rw [hstart, hend, List.append_assoc, List.take_append_drop, List.take_append_drop]

end Edit

/-! ## Shared runs -/

section
variable [DecidableEq α]

theorem take_commonPrefix (s t : List α) :
    s.take (commonPrefix s t) = t.take (commonPrefix s t) := by
  induction s generalizing t with
  | nil => cases t <;> rfl
  | cons a s ih =>
    cases t with
    | nil => rfl
    | cons b t =>
      rw [commonPrefix]
      split
      · rename_i hab
        rw [List.take_succ_cons, List.take_succ_cons, ih, hab]
      · rfl

theorem commonPrefix_le (s t : List α) :
    commonPrefix s t ≤ s.length ∧ commonPrefix s t ≤ t.length := by
  induction s generalizing t with
  | nil => cases t <;> simp [commonPrefix]
  | cons a s ih =>
    cases t with
    | nil => simp [commonPrefix]
    | cons b t =>
      have := ih t
      rw [commonPrefix]
      split
      · simp only [List.length_cons]
        omega
      · simp

theorem drop_commonSuffix (s t : List α) :
    s.drop (s.length - commonSuffix s t) = t.drop (t.length - commonSuffix s t) := by
  have h := take_commonPrefix s.reverse t.reverse
  rw [List.take_reverse, List.take_reverse] at h
  exact List.reverse_inj.1 h

theorem commonSuffix_le (s t : List α) :
    commonSuffix s t ≤ s.length ∧ commonSuffix s t ≤ t.length := by
  simpa [commonSuffix] using commonPrefix_le s.reverse t.reverse

theorem take_of_startsWithList {t p : List α} (h : startsWithList t p = true) :
    t.take p.length = p := by
  have hlen : commonPrefix t p = p.length := by simpa [startsWithList] using h
  have := take_commonPrefix t p
  rwa [hlen, List.take_length] at this

/-- Around its first occurrence a list is what stands before and behind it. -/
theorem eq_of_firstOccurrence? (p : List α) (t : List α) : ∀ {n i : Nat},
    firstOccurrence? p n t = some i →
      n ≤ i ∧ t = t.take (i - n) ++ p ++ t.drop (i - n + p.length) := by
  induction t with
  | nil =>
    intro n i h
    rw [firstOccurrence?] at h
    split at h
    · rename_i hp
      obtain rfl := Option.some.inj h
      simp [List.isEmpty_iff.1 hp]
    · cases h
  | cons a t ih =>
    intro n i h
    rw [firstOccurrence?] at h
    split at h
    · rename_i hp
      obtain rfl := Option.some.inj h
      have htake := take_of_startsWithList hp
      refine ⟨Nat.le_refl n, ?_⟩
      rw [Nat.sub_self, List.take_zero, List.nil_append, Nat.zero_add]
      conv => lhs; rw [← List.take_append_drop p.length (a :: t), htake]
    · obtain ⟨hle, heq⟩ := ih h
      refine ⟨by omega, ?_⟩
      rw [show i - n = i - (n + 1) + 1 by omega, List.take_succ_cons,
        show i - (n + 1) + 1 + p.length = i - (n + 1) + p.length + 1 by omega, List.drop_succ_cons,
        List.cons_append, List.cons_append, ← heq]

theorem occurrences_le (p t : List α) :
    ∀ {n j : Nat}, j ∈ occurrences p n t → j ≤ n + t.length := by
  induction t with
  | nil =>
    intro n j hj
    rw [occurrences] at hj
    split at hj
    · simp at hj
      omega
    · cases hj
  | cons a t ih =>
    intro n j hj
    rw [occurrences] at hj
    have hrest : j ∈ occurrences p (n + 1) t → j ≤ n + (a :: t).length := by
      intro hj
      have := ih hj
      simp only [List.length_cons]
      omega
    split at hj
    · rcases List.mem_cons.1 hj with rfl | hj
      · omega
      · exact hrest hj
    · exact hrest hj

/-! ## Half matches -/

/-- The cut divides both lists around the shared run. -/
def HalfMatch.Fits (left right : List α) (h : HalfMatch α) : Prop :=
  left = h.beforeLeft ++ h.shared ++ h.afterLeft ∧ right = h.beforeRight ++ h.shared ++ h.afterRight

theorem HalfMatch.fits_around {long short : List α} {i j : Nat} (hi : i ≤ long.length)
    (hj : j ≤ short.length) : (HalfMatch.around long short i j).Fits long short := by
  have hp := take_commonPrefix (long.drop i) (short.drop j)
  have hs := drop_commonSuffix (long.take i) (short.take j)
  have hsle := commonSuffix_le (long.take i) (short.take j)
  rw [List.length_take, List.length_take, Nat.min_eq_left hi, Nat.min_eq_left hj] at hs hsle
  unfold HalfMatch.Fits HalfMatch.around
  simp only
  generalize commonPrefix (long.drop i) (short.drop j) = p at hp
  generalize commonSuffix (long.take i) (short.take j) = s at hs hsle
  -- A list cut `s` places before and `p` places behind one of its places.
  have hcut : ∀ (l : List α) (k : Nat), s ≤ k → k ≤ l.length →
      (l.drop (k - s)).take (s + p) = (l.take k).drop (k - s) ++ (l.drop k).take p ∧
        l = l.take (k - s) ++ (l.drop (k - s)).take (s + p) ++ l.drop (k + p) := by
    intro l k hsk hk
    refine ⟨?_, ?_⟩
    · rw [List.take_add, List.drop_drop, Nat.sub_add_cancel hsk, List.drop_take,
        show k - (k - s) = s by omega]
    · rw [show k + p = k - s + (s + p) by omega, ← List.drop_drop, List.append_assoc,
        List.take_append_drop, List.take_append_drop]
  obtain ⟨hlong, hleft⟩ := hcut long i hsle.1 hi
  obtain ⟨hshort, hright⟩ := hcut short j hsle.2 hj
  rw [hs, hp, ← hshort] at hlong
  exact ⟨hlong ▸ hleft, hright⟩

theorem fits_of_seedMatch? {long short : List α} {i : Nat} (hi : i ≤ long.length) {h : HalfMatch α}
    (hh : seedMatch? long short i = some h) : h.Fits long short := by
  unfold seedMatch? at hh
  obtain ⟨hfound, -⟩ := Option.filter_eq_some_iff.1 hh
  refine List.foldlRecOn (motive := fun best => ∀ b, best = some b → b.Fits long short) _ _ ?_ ?_ h
    hfound
  · intro b hb
    cases hb
  · intro best hbest j hj b hb
    have hle : j ≤ short.length := by simpa using occurrences_le _ short hj
    have haround : (HalfMatch.around long short i j).Fits long short := HalfMatch.fits_around hi hle
    simp only at hb
    split at hb
    · split at hb
      · exact Option.some.inj hb ▸ haround
      · exact hbest b hb
    · split at hb
      · cases hb
      · exact Option.some.inj hb ▸ haround

omit [DecidableEq α] in
theorem HalfMatch.longer?_eq {x y : Option (HalfMatch α)} {h : HalfMatch α}
    (hh : HalfMatch.longer? x y = some h) : x = some h ∨ y = some h := by
  cases x <;> cases y <;> simp only [HalfMatch.longer?] at hh
  · cases hh
  · exact Or.inr hh
  · exact Or.inl hh
  · split at hh
    · exact Or.inl hh
    · exact Or.inr hh

theorem fits_of_halfMatch? {left right : List α} {h : HalfMatch α}
    (hh : halfMatch? left right = some h) : h.Fits left right := by
  have hfind : ∀ {long short : List α} {h : HalfMatch α},
      halfMatch?.find? long short = some h → h.Fits long short := by
    intro long short h hh
    unfold halfMatch?.find? at hh
    split at hh
    · cases hh
    · rename_i hlen
      simp only [Bool.or_eq_true, decide_eq_true_eq] at hlen
      rcases HalfMatch.longer?_eq hh with hh | hh
      · exact fits_of_seedMatch? (by omega) hh
      · exact fits_of_seedMatch? (by omega) hh
  unfold halfMatch? at hh
  split at hh
  · exact hfind hh
  · obtain ⟨h', hh', rfl⟩ := Option.map_eq_some_iff.1 hh
    exact (hfind hh').symm

end

/-! ## Joining and moving steps -/

/-- The joined items are those of the steps, and no step of a kind means no item of it. -/
structure Pending.Sound (p : Pending α) : Prop where
  spells : Edit.Spells p.removed p.added p.steps.reverse
  removed : p.removals = 0 → p.removed = []
  added : p.additions = 0 → p.added = []

theorem Pending.sound_empty : ({} : Pending α).Sound :=
  ⟨⟨rfl, rfl⟩, fun _ => rfl, fun _ => rfl⟩

namespace Grain

open Edit

theorem spells_finish {a b : List α} {done : List (Edit α)} (h : Spells a b done.reverse) :
    Spells a b (finish done) := by
  cases done with
  | nil => exact h
  | cons e done =>
    rw [finish]
    split
    · rename_i he
      obtain ⟨rfl, rfl⟩ := h
      simp [Spells, before_cons, after_cons, List.isEmpty_iff.1 he]
    · exact h

variable [DecidableEq α]

theorem sound_defer {p : Pending α} (hp : p.Sound) {e : Edit α} (he : e.isEqual = false) :
    ((plain α).defer p e).Sound := by
  obtain ⟨kind, items⟩ := e
  obtain ⟨⟨hbefore, hafter⟩, hremoved, hadded⟩ := hp
  cases kind with
  | equal => simp [isEqual] at he
  | added =>
    refine ⟨⟨?_, ?_⟩, hremoved, fun h => by simp [defer] at h⟩
    · simp [defer, hbefore, before_cons]
    · simp [defer, hafter, after_cons, plain]
  | removed =>
    refine ⟨⟨?_, ?_⟩, fun h => by simp [defer] at h, hadded⟩
    · simp [defer, hbefore, before_cons, plain]
    · simp [defer, hafter, after_cons]

theorem spells_settle {a b : List α} {done : List (Edit α)} (hd : Spells a b done.reverse)
    {p : Pending α} (hp : p.Sound) (items : List α) :
    Spells (a ++ p.removed ++ items) (b ++ p.added ++ items)
      ((plain α).settle done p items).reverse := by
  obtain ⟨⟨hbefore, hafter⟩, hremoved, hadded⟩ := hp
  unfold settle
  split
  · split
    · rename_i hsteps
      rw [hsteps] at hbefore hafter
      rw [← hbefore, ← hafter]
      simp only [List.reverse_nil, before_nil, after_nil, List.append_nil]
      have h := spells_extendEqual items hd
      cases done <;> exact h
    · rw [← hbefore, ← hafter]
      obtain ⟨rfl, rfl⟩ := hd
      simp [Spells]
  split
  · rename_i h
    rw [hremoved h]
    obtain ⟨rfl, rfl⟩ := hd
    simp [Spells]
  split
  · rename_i h
    rw [hadded h]
    obtain ⟨rfl, rfl⟩ := hd
    simp [Spells]
  · exact spells_replacement hd items (take_commonPrefix _ _) (drop_commonSuffix _ _)

theorem spells_gather (script : List (Edit α)) : ∀ {a b : List α} {done : List (Edit α)}
    {p : Pending α}, Spells a b done.reverse → p.Sound →
      Spells (a ++ p.removed ++ before script) (b ++ p.added ++ after script)
        ((plain α).gather done p script).reverse := by
  induction script with
  | nil => intro a b done p hd hp; exact spells_settle hd hp []
  | cons e script ih =>
    intro a b done p hd hp
    rw [gather]
    split
    · rename_i he
      have h := ih (spells_settle hd hp e.items) Pending.sound_empty
      rw [eq_equal_of_isEqual he, before_equal, after_equal]
      simpa [equal] using h
    · rename_i he
      have h := ih hd (sound_defer hp (Bool.eq_false_iff.2 he))
      obtain ⟨kind, items⟩ := e
      cases kind with
      | equal => simp [isEqual] at he
      | added => simpa [defer, plain, before_cons, after_cons] using h
      | removed => simpa [defer, plain, before_cons, after_cons] using h

theorem spells_shift {a b : List α} (done rest : List (Edit α))
    (h : Spells a b (done.reverse ++ rest)) : Spells a b (shift done rest).1 := by
  obtain ⟨rfl, rfl⟩ := h
  fun_induction shift done rest with
  | case1 e done c f rest heq hc c' ih =>
    simp only [Bool.and_eq_true] at heq
    have hdrop := drop_commonSuffix c.items e.items
    rw [beq_iff_eq.1 hc, Nat.sub_self, List.drop_zero] at hdrop
    have hitems : c.items.take (c.items.length - e.items.length) ++ e.items = c.items := by
      conv => rhs; rw [← List.take_append_drop (c.items.length - e.items.length) c.items, hdrop]
    have hmoved := (spells_moved_left c.kind e.items
      (c.items.take (c.items.length - e.items.length)) f.items).within done.reverse rest
    rw [hitems, ← eq_equal_of_isEqual heq.1, ← eq_equal_of_isEqual heq.2] at hmoved
    simp only [List.reverse_cons, List.append_assoc, List.cons_append, List.nil_append]
      at hmoved ih ⊢
    rwa [hmoved.1, hmoved.2]
  | case2 e done c f rest heq _ hc c' ih =>
    simp only [Bool.and_eq_true] at heq
    have hitems : f.items ++ c.items.drop f.items.length = c.items := by
      conv => rhs; rw [← List.take_append_drop f.items.length c.items, take_of_startsWithList hc]
    have hmoved := (spells_moved_right c.kind e.items
      (c.items.drop f.items.length) f.items).within done.reverse rest
    rw [hitems, ← eq_equal_of_isEqual heq.1, ← eq_equal_of_isEqual heq.2] at hmoved
    simp only [List.reverse_cons, List.append_assoc, List.cons_append, List.nil_append]
      at hmoved ih ⊢
    rwa [hmoved.1, hmoved.2]
  | case3 e done c f rest heq _ hc ih => simpa using ih
  | case4 e done c f rest heq ih => simpa using ih
  | case5 c rest ih => simpa using ih
  | case6 => exact ⟨rfl, rfl⟩

theorem spells_tidyFor {a b : List α} (fuel : Nat) : ∀ {script : List (Edit α)},
    Spells a b script → Spells a b ((plain α).tidyFor fuel script) := by
  induction fuel with
  | zero => intro script h; exact h
  | succ fuel ih =>
    intro script h
    have hgather : Spells a b ((plain α).gather [] {} script).reverse := by
      have hnil : Spells [] [] ([] : List (Edit α)).reverse := ⟨rfl, rfl⟩
      simpa [h.1, h.2] using spells_gather script hnil Pending.sound_empty
    have hmoved := spells_shift [] _ (spells_finish hgather)
    rw [tidyFor]
    simp only
    split
    · exact ih hmoved
    · exact hmoved

/-- Joining and moving steps changes neither list. -/
theorem spells_tidy {a b : List α} {script : List (Edit α)} (h : Spells a b script) :
    Spells a b ((plain α).tidy script) :=
  spells_tidyFor _ h

/-! ## Finding a script -/

theorem spells_replaceAll (a b : List α) : Spells a b ((plain α).replaceAll a b) := by
  simp [Spells, replaceAll, plain]

theorem spells_of_inside? {a b : List α} {script : List (Edit α)}
    (h : (plain α).inside? a b = some script) : Spells a b script := by
  unfold inside? at h
  split at h
  · obtain ⟨i, hi, rfl⟩ := Option.map_eq_some_iff.1 h
    obtain ⟨-, heq⟩ := eq_of_firstOccurrence? b a hi
    refine ⟨?_, by simp [plain]⟩
    simpa [plain] using heq.symm
  · obtain ⟨i, hi, rfl⟩ := Option.map_eq_some_iff.1 h
    obtain ⟨-, heq⟩ := eq_of_firstOccurrence? a b hi
    refine ⟨by simp [plain], ?_⟩
    simpa [plain] using heq.symm

/-- A script put together from scripts for the pieces is one for the whole, wherever the cut is. -/
theorem spells_between {deep shallow : List α → List α → List (Edit α)}
    {coarse : List α → List α → Option (List (Edit α))} (hdeep : ∀ a b, Spells a b (deep a b))
    (hshallow : ∀ a b, Spells a b (shallow a b))
    (hcoarse : ∀ a b s, coarse a b = some s → Spells a b s) (a b : List α) :
    Spells a b ((plain α).between deep shallow coarse a b) := by
  unfold between
  split
  · rename_i ha
    simp [Spells, plain, List.isEmpty_iff.1 ha]
  split
  · rename_i hb
    simp [Spells, plain, List.isEmpty_iff.1 hb]
  split
  · rename_i hinside
    exact spells_of_inside? hinside
  split
  · exact spells_replaceAll a b
  split
  · rename_i h hhalf
    obtain ⟨ha, hb⟩ := fits_of_halfMatch? hhalf
    have hspells := (hdeep h.beforeLeft h.beforeRight).append
      ((spells_equal h.shared).append (hdeep h.afterLeft h.afterRight))
    rw [← List.append_assoc, ← List.append_assoc, ← ha, ← hb] at hspells
    exact hspells
  split
  · rename_i hs
    exact hcoarse a b _ hs
  split
  · rename_i x y _
    have hspells := (hshallow (a.take x) (b.take y)).append (hshallow (a.drop x) (b.drop y))
    rwa [List.take_append_drop, List.take_append_drop] at hspells
  · exact spells_replaceAll a b

theorem spells_trimmed {search : List α → List α → List (Edit α)}
    (hsearch : ∀ a b, Spells a b (search a b)) (a b : List α) :
    Spells a b ((plain α).trimmed search a b) := by
  unfold trimmed
  split
  · rename_i hab
    exact hab ▸ spells_kept a
  · exact spells_tidy (spells_ends hsearch (take_commonPrefix a b) (drop_commonSuffix _ _))

theorem spells_scriptFor {coarse : List α → List α → Option (List (Edit α))}
    (hcoarse : ∀ a b s, coarse a b = some s → Spells a b s) (fuel : Nat) (a b : List α) :
    Spells a b ((plain α).scriptFor fuel coarse a b) := by
  induction fuel generalizing coarse a b with
  | zero => exact spells_replaceAll a b
  | succ fuel ih =>
    have hnone : ∀ a b s, (none : Option (List (Edit α))) = some s → Spells a b s := by
      intro a b s h
      cases h
    exact spells_trimmed (spells_between (ih hcoarse) (ih hnone) hcoarse) a b

/-- The script between two lists leads from one to the other. -/
theorem spells_script (a b : List α) : Spells a b ((plain α).script a b) :=
  spells_scriptFor (fun _ _ _ h => by cases h) _ a b

-- It may hold a step that spells nothing: joining steps can use up one of them whole.
example : removed [] ∈ (plain Nat).script [0, 1, 1, 1, 0, 1, 1] [1, 0, 0, 0, 1, 1, 1, 1, 0] := by
  decide +kernel

end Grain

end CodeAudit
