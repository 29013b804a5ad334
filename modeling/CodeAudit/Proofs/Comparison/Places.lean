import CodeAudit.Proofs.Comparison.Chunks

/-!
# Sections follow the kept lines

The chunks say which lines of the given text are kept and where each of them is in the mended text.
These places increase with the lines. A section is cut out of the mended text from just behind the
last kept line before its range to the first kept line after it, so it has the kept lines of its
range, none of the others, and all that was written between them.

**Places.** `Kept` says of the chunks alone what `equalPositions` computes
(`getElem?_equalPositions`).

**Results.**
* `Kept.lt`: places increase with the lines.
* `placeBefore_le_iff`, `lt_placeFrom_iff`: on which side of a cut the place of a kept line is.
* `placeBefore_le_placeFrom`: the cuts come in order by themselves.
* `follows_of_sectionOf`: what this makes of a section.
* `chunks_self`: a text compared with itself is one chunk.
* `sections_follow_kept_lines`: the sections of any comparison, along any differ.
* `follows_of`: the same along the scripts that comparisons are made with.
-/
namespace CodeAudit

namespace Comparison

open Edit

/-- Line `i` of the given text is kept as line `p` of the mended one, both counted from 0: it stands
in a run that is kept, behind as many lines as the chunks before have in either text. -/
def Kept (chunks : List (Edit Text)) (i p : Nat) : Prop :=
  ∃ pre items post j, chunks = pre ++ equal items :: post ∧ j < items.length ∧
    i = (before pre).length + j ∧ p = (after pre).length + j

/-! ## Kept lines -/

theorem kept_cons_iff {e : Edit Text} {chunks : List (Edit Text)} {i p : Nat} :
    Kept (e :: chunks) i p ↔
      (e.kind = .equal ∧ i < e.items.length ∧ p = i) ∨
        ∃ j q, Kept chunks j q ∧ i = (before [e]).length + j ∧ p = (after [e]).length + q := by
  constructor
  · rintro ⟨pre, items, post, j, heq, hj, rfl, rfl⟩
    cases pre with
    | nil =>
      obtain ⟨rfl, rfl⟩ := List.cons.inj heq
      exact Or.inl ⟨rfl, by simpa [equal] using hj, by simp⟩
    | cons d pre =>
      obtain ⟨rfl, rfl⟩ := List.cons.inj heq
      refine Or.inr ⟨_, _, ⟨pre, items, post, j, rfl, hj, rfl, rfl⟩, ?_, ?_⟩
      · simp [before_cons, Nat.add_assoc]
      · simp [after_cons, Nat.add_assoc]
  · rintro (⟨hkind, hi, rfl⟩ | ⟨j, q, ⟨pre, items, post, k, rfl, hk, rfl, rfl⟩, rfl, rfl⟩)
    · obtain ⟨kind, items⟩ := e
      cases hkind
      exact ⟨[], items, chunks, p, rfl, hi, by simp, by simp⟩
    · refine ⟨e :: pre, items, post, k, rfl, hk, ?_, ?_⟩
      · simp [before_cons, Nat.add_assoc]
      · simp [after_cons, Nat.add_assoc]

theorem not_kept_nil {i p : Nat} : ¬ Kept [] i p := by
  rintro ⟨pre, items, post, j, heq, -⟩
  simp at heq

theorem Kept.lt_before {chunks : List (Edit Text)} {i p : Nat} (h : Kept chunks i p) :
    i < (before chunks).length := by
  obtain ⟨pre, items, post, j, rfl, hj, rfl, -⟩ := h
  simp
  omega

/-- Places increase with the lines. -/
theorem Kept.lt {chunks : List (Edit Text)} {i j p q : Nat} (hi : Kept chunks i p)
    (hj : Kept chunks j q) (hlt : i < j) : p < q := by
  induction chunks generalizing i j p q with
  | nil => exact absurd hi not_kept_nil
  | cons e chunks ih =>
    rcases kept_cons_iff.1 hi with ⟨hkind, hilt, rfl⟩ | ⟨i', p', hi', rfl, rfl⟩ <;>
      rcases kept_cons_iff.1 hj with ⟨hkind', hjlt, rfl⟩ | ⟨j', q', hj', rfl, rfl⟩
    · exact hlt
    · have hafter : (after [e]).length = e.items.length := by simp [after, hkind]
      omega
    · -- a line behind the chunk is not before one inside of it
      have hbefore : (before [e]).length = e.items.length := by simp [before, hkind']
      omega
    · have := ih hi' hj' (by omega)
      omega

/-! ## The table of places -/

/-- The places of the lines of one chunk, from line `s` of the mended text on. -/
def ownPlaces (s : Nat) (e : Edit Text) : List (Option Nat) :=
  match e.kind with
  | .equal => (List.range e.items.length).map fun i => some (s + i)
  | .removed => List.replicate e.items.length none
  | .added => []

theorem positionsFrom_cons (s : Nat) (e : Edit Text) (chunks : List (Edit Text)) :
    positionsFrom s (e :: chunks) = ownPlaces s e ++
      positionsFrom (s + (after [e]).length) chunks := by
  obtain ⟨kind, items⟩ := e
  cases kind <;> simp [positionsFrom, ownPlaces, after]

theorem length_ownPlaces (s : Nat) (e : Edit Text) :
    (ownPlaces s e).length = (before [e]).length := by
  obtain ⟨kind, items⟩ := e
  cases kind <;> simp [ownPlaces, before]

theorem getElem?_ownPlaces {s i q : Nat} {e : Edit Text} :
    (ownPlaces s e)[i]? = some (some q) ↔ e.kind = .equal ∧ i < e.items.length ∧ q = s + i := by
  obtain ⟨kind, items⟩ := e
  cases kind with
  | equal =>
    by_cases hi : i < items.length
    · simp [ownPlaces, hi, eq_comm]
    · simp [ownPlaces, hi]
  | removed => simp [ownPlaces, List.getElem?_replicate]
  | added => simp [ownPlaces]

theorem getElem?_positionsFrom (chunks : List (Edit Text)) : ∀ {s i q : Nat},
    (positionsFrom s chunks)[i]? = some (some q) ↔ ∃ p, q = s + p ∧ Kept chunks i p := by
  induction chunks with
  | nil => simp [positionsFrom, not_kept_nil]
  | cons e chunks ih =>
    intro s i q
    rw [positionsFrom_cons]
    simp only [kept_cons_iff]
    by_cases hi : i < (before [e]).length
    · rw [List.getElem?_append_left (by rwa [length_ownPlaces]), getElem?_ownPlaces]
      constructor
      · rintro ⟨hkind, hlt, rfl⟩
        exact ⟨i, rfl, Or.inl ⟨hkind, hlt, rfl⟩⟩
      · rintro ⟨p, rfl, ⟨hkind, hlt, rfl⟩ | ⟨j, r, -, hj, -⟩⟩
        · exact ⟨hkind, hlt, rfl⟩
        · omega
    · rw [List.getElem?_append_right (by rw [length_ownPlaces]; omega), length_ownPlaces, ih]
      constructor
      · rintro ⟨p, rfl, h⟩
        exact ⟨(after [e]).length + p, by omega, Or.inr ⟨_, p, h, by omega, rfl⟩⟩
      · rintro ⟨p, rfl, ⟨hkind, hlt, -⟩ | ⟨j, r, h, rfl, rfl⟩⟩
        · -- the chunk has no more lines than it takes up in the given text
          have hbefore : (before [e]).length = e.items.length := by simp [before, hkind]
          omega
        · exact ⟨r, by omega, by simpa using h⟩

/-- The table of places holds just the kept lines. -/
theorem getElem?_equalPositions {chunks : List (Edit Text)} {n i p : Nat} :
    (equalPositions chunks n)[i]? = some (some p) ↔ i < n ∧ Kept chunks i p := by
  have hkept : (positionsFrom 0 chunks)[i]? = some (some p) ↔ Kept chunks i p := by
    rw [getElem?_positionsFrom]
    simp
  rw [← hkept]
  unfold equalPositions
  by_cases hi : i < ((positionsFrom 0 chunks).take n).length
  · rw [List.getElem?_append_left hi]
    have hlt : i < n := by
      rw [List.length_take] at hi
      omega
    rw [List.getElem?_take_of_lt hlt, and_iff_right hlt]
  · -- behind the chunks there are no places
    rw [List.getElem?_append_right (Nat.not_lt.1 hi), List.getElem?_replicate]
    rw [List.length_take, Nat.lt_min, not_and_or, Nat.not_lt, Nat.not_lt] at hi
    constructor
    · intro h
      split at h <;> simp at h
    · rintro ⟨hn, h⟩
      have := (List.getElem?_eq_some_iff.1 h).1
      omega

/-! ## Cuts -/

/-- The places of later lines are greater. -/
def Increasing (positions : List (Option Nat)) : Prop :=
  ∀ ⦃i j p q : Nat⦄, positions[i]? = some (some p) → positions[j]? = some (some q) → i < j → p < q

theorem increasing_equalPositions (chunks : List (Edit Text)) (n : Nat) :
    Increasing (equalPositions chunks n) := by
  intro i j p q hi hj hlt
  exact (getElem?_equalPositions.1 hi).2.lt (getElem?_equalPositions.1 hj).2 hlt

section Cuts

variable {positions : List (Option Nat)}

theorem placeBefore_succ (positions : List (Option Nat)) (k : Nat) :
    placeBefore positions (k + 1) =
      match positions[k]? with
      | some (some p) => p + 1
      | _ => placeBefore positions k := by
  unfold placeBefore
  rw [List.take_add_one, List.reverse_append]
  cases positions[k]? with
  | none => simp
  | some place => cases place <;> simp

theorem placeBefore_cases (positions : List (Option Nat)) (k : Nat) :
    (∃ j p, j < k ∧ positions[j]? = some (some p) ∧ placeBefore positions k = p + 1 ∧
      ∀ i q, i < k → positions[i]? = some (some q) → i ≤ j) ∨
    (placeBefore positions k = 0 ∧ ∀ i q, i < k → positions[i]? ≠ some (some q)) := by
  induction k with
  | zero => exact Or.inr ⟨by simp [placeBefore], by simp⟩
  | succ k ih =>
    rw [placeBefore_succ]
    by_cases hk : ∃ p, positions[k]? = some (some p)
    · obtain ⟨p, hp⟩ := hk
      rw [hp]
      exact Or.inl ⟨k, p, Nat.lt_succ_self k, hp, rfl, fun i _ hi _ => Nat.le_of_lt_succ hi⟩
    · -- line `k` is not kept, so nothing changes
      have hskip : (match positions[k]? with
          | some (some p) => p + 1
          | _ => placeBefore positions k) = placeBefore positions k := by
        split
        · rename_i p hp
          exact absurd ⟨p, hp⟩ hk
        · rfl
      have hlt : ∀ i q, i < k + 1 → positions[i]? = some (some q) → i < k := by
        intro i q hi hq
        rcases Nat.lt_or_eq_of_le (Nat.le_of_lt_succ hi) with hi | rfl
        · exact hi
        · exact absurd ⟨q, hq⟩ hk
      rw [hskip]
      rcases ih with ⟨j, p, hj, hp, heq, hlast⟩ | ⟨heq, hnone⟩
      · exact Or.inl ⟨j, p, by omega, hp, heq, fun i q hi hq => hlast i q (hlt i q hi hq) hq⟩
      · exact Or.inr ⟨heq, fun i q hi hq => hnone i q (hlt i q hi hq) hq⟩

theorem placeFrom_cases (positions : List (Option Nat)) (k count : Nat) :
    (∃ j p, k ≤ j ∧ positions[j]? = some (some p) ∧ placeFrom positions k count = p ∧
      ∀ i q, k ≤ i → positions[i]? = some (some q) → j ≤ i) ∨
    (placeFrom positions k count = count ∧ ∀ i q, k ≤ i → positions[i]? ≠ some (some q)) := by
  unfold placeFrom
  cases hfind : (positions.drop k).findSome? id with
  | none =>
    refine Or.inr ⟨rfl, fun i q hi hq => ?_⟩
    have hmem : some q ∈ positions.drop k := by
      apply List.mem_of_getElem? (i := i - k)
      rw [List.getElem?_drop, Nat.add_sub_cancel' hi, hq]
    exact nomatch List.findSome?_eq_none_iff.1 hfind (some q) hmem
  | some p =>
    obtain ⟨pre, place, post, hsplit, rfl, hpre⟩ := List.findSome?_eq_some_iff.1 hfind
    have hat : ∀ i, k ≤ i → positions[i]? = (pre ++ some p :: post)[i - k]? := by
      intro i hi
      rw [← show positions.drop k = pre ++ some p :: post from hsplit, List.getElem?_drop,
        Nat.add_sub_cancel' hi]
    refine Or.inl ⟨k + pre.length, p, Nat.le_add_right _ _, ?_, rfl, fun i q hi hq => ?_⟩
    · rw [hat _ (Nat.le_add_right _ _)]
      simp
    · by_contra hlt
      rw [hat i hi, List.getElem?_append_left (by omega)] at hq
      exact nomatch hpre (some q) (List.mem_of_getElem? hq)

theorem placeBefore_le_iff (h : Increasing positions) {i p : Nat}
    (hi : positions[i]? = some (some p)) (k : Nat) : placeBefore positions k ≤ p ↔ k ≤ i := by
  obtain ⟨j, q, hjk, hj, heq, hlast⟩ | ⟨heq, hnone⟩ := placeBefore_cases positions k
  · rw [heq]
    constructor
    · intro hlt
      by_contra hik
      have hij := hlast i p (Nat.not_le.1 hik) hi
      rcases Nat.lt_or_eq_of_le hij with hij | rfl
      · have := h hi hj hij
        omega
      · rw [hi] at hj
        cases hj
        omega
    · intro hki
      exact h hj hi (by omega)
  · rw [heq]
    refine iff_of_true (Nat.zero_le p) ?_
    by_contra hik
    exact hnone i p (Nat.not_le.1 hik) hi

theorem lt_placeFrom_iff (h : Increasing positions) {i p count : Nat}
    (hi : positions[i]? = some (some p)) (hp : p < count) (k : Nat) :
    p < placeFrom positions k count ↔ i < k := by
  obtain ⟨j, q, hkj, hj, heq, hfirst⟩ | ⟨heq, hnone⟩ := placeFrom_cases positions k count
  · rw [heq]
    constructor
    · intro hlt
      by_contra hki
      have hji := hfirst i p (Nat.not_lt.1 hki) hi
      rcases Nat.lt_or_eq_of_le hji with hji | rfl
      · have := h hj hi hji
        omega
      · rw [hi] at hj
        cases hj
        omega
    · intro hik
      exact h hi hj (by omega)
  · rw [heq]
    refine iff_of_true hp ?_
    by_contra hki
    exact hnone i p (Nat.not_lt.1 hki) hi

/-- The cuts come in order by themselves. -/
theorem placeBefore_le_placeFrom (h : Increasing positions) {count : Nat}
    (hcount : ∀ p, some p ∈ positions → p < count) {k m : Nat} (hkm : k ≤ m) :
    placeBefore positions k ≤ placeFrom positions m count := by
  obtain ⟨j, q, hjk, hj, heq, -⟩ | ⟨heq, -⟩ := placeBefore_cases positions k
  · rw [heq]
    exact (lt_placeFrom_iff h hj (hcount q (List.mem_of_getElem? hj)) m).2 (by omega)
  · rw [heq]
    exact Nat.zero_le _

end Cuts

/-! ## Sections -/

end Comparison

/-- The section shows a range of the given text and what became of it in the mended text, which the
chunks lead to: of the kept lines, just those of the range. -/
structure Section.Follows (s : Section) (chunks : List (Edit Text)) (given secure : Text) :
    Prop where
  given_eq : s.given =
    (given.lines.drop (s.startLine - 1).toNat).take (s.endLine - (s.startLine - 1)).toNat
  secure_eq : s.secure =
    (secure.lines.drop (s.secureStartLine - 1).toNat).take
      (s.secureEndLine - (s.secureStartLine - 1)).toNat
  kept_iff : ∀ i p, Comparison.Kept chunks i p → (s.secureStartLine - 1 ≤ p ∧ p < s.secureEndLine ↔
    s.startLine ≤ i + 1 ∧ i + 1 ≤ s.endLine)
  /-- The section ends at the first kept line behind its range, which comes after its start by
  itself. -/
  secureEndLine_eq : s.secureEndLine = Comparison.placeFrom
    (Comparison.equalPositions chunks given.lines.length) s.endLine.toNat secure.lines.length
  ordered : s.secureStartLine - 1 ≤ Comparison.placeFrom
    (Comparison.equalPositions chunks given.lines.length) s.endLine.toNat secure.lines.length

namespace Comparison

open Edit

theorem follows_of_sectionOf {given secure : Text} {chunks : List (Edit Text)}
    (h : Spells given.lines secure.lines chunks) {r : FocusRange} {s : Section}
    (hs : sectionOf given.lines secure.lines (equalPositions chunks given.lines.length) r = .ok s) :
    s.Follows chunks given secure := by
  obtain ⟨⟨hstop, hone, hle, -⟩, -, rfl⟩ := sectionOf_eq_ok hs
  have hinc := increasing_equalPositions chunks given.lines.length
  have hcount : ∀ p, some p ∈ equalPositions chunks given.lines.length →
      p < secure.lines.length := by
    intro p hp
    rw [← h.2]
    exact lt_of_mem_equalPositions hp
  have hordered := placeBefore_le_placeFrom hinc hcount
    (show (r.start - 1).toNat ≤ r.stop.toNat by omega)
  have hend : secureStop (equalPositions chunks given.lines.length) r secure.lines.length =
      placeFrom (equalPositions chunks given.lines.length) r.stop.toNat secure.lines.length :=
    Nat.max_eq_right hordered
  refine ⟨rfl, ?_, fun i p hkept => ?_, congrArg Int.ofNat hend, by simp only [cutSection]; omega⟩
  · simp [cutSection]
  · have hi : (equalPositions chunks given.lines.length)[i]? = some (some p) := by
      rw [getElem?_equalPositions, ← h.1]
      exact ⟨hkept.lt_before, hkept⟩
    have hbefore := placeBefore_le_iff hinc hi (r.start - 1).toNat
    have hfrom := lt_placeFrom_iff hinc hi (hcount p (List.mem_of_getElem? hi)) r.stop.toNat
    simp only [cutSection, hend]
    omega

end Comparison

/-! ## A text compared with itself -/

theorem Grain.script_self {α : Type} [DecidableEq α] {a : List α} (h : a ≠ []) :
    (Grain.plain α).script a a = [Edit.equal a] := by
  simp [script, scriptWith, scriptFor, trimmed, h, plain]

namespace NumberedLines

/-- The number of a line is its place in the table, and in any that continues it. -/
theorem number_eq_idxOf (ls : List Text) : ∀ {table later : List Text},
    (number table ls).1 <+: later → (number table ls).2 = ls.map later.idxOf := by
  induction ls with
  | nil => intro table later _; rfl
  | cons l ls ih =>
    intro table later h
    rw [number] at h ⊢
    split at h
    · rename_i i hi
      obtain ⟨more, rfl⟩ := (number_table table ls).trans h
      obtain ⟨hlt, hl, -⟩ := List.idxOf?_eq_some_iff.1 hi
      have hmem : l ∈ table := hl ▸ List.getElem_mem hlt
      have hidx : table.idxOf l = i := by rw [List.idxOf_eq_getD_idxOf?, hi, Option.getD_some]
      change i :: (number table ls).2 = _
      rw [List.map_cons, ih h, List.idxOf_append_of_mem hmem, hidx]
    · rename_i hi
      obtain ⟨more, rfl⟩ := (number_table (table ++ [l]) ls).trans h
      have hmem : l ∉ table := by simpa using hi
      have hidx : (table ++ [l] ++ more).idxOf l = table.length := by
        rw [List.append_assoc, List.idxOf_append_of_notMem hmem]
        simp
      change table.length :: (number (table ++ [l]) ls).2 = _
      rw [List.map_cons, ih h, hidx]

theorem given_eq_secure (t : Text) : (of t t).given = (of t t).secure := by
  unfold of
  simp only
  rw [number_eq_idxOf _ (number_table _ _), number_eq_idxOf _ List.prefix_rfl]

end NumberedLines

namespace Comparison

open Edit

/-- A text compared with itself is one chunk, along any differ that finds nothing to change between
equal lists. -/
theorem chunks_self {diff : Differ} (hself : ∀ a, a ≠ [] → diff a a = [equal a]) (t : Text) :
    chunksAlong diff t t = [equal t.lines] := by
  have hne : (NumberedLines.of t t).given ≠ [] := by
    intro h
    have := (NumberedLines.map_line_of t t).1
    rw [h] at this
    exact Text.lines_ne_nil t this.symm
  have hscript : diff (NumberedLines.of t t).given (NumberedLines.of t t).secure
      = [equal (NumberedLines.of t t).given] := by
    rw [← NumberedLines.given_eq_secure, hself _ hne]
  have hdiff : Differ.ValidOn diff t t := by
    refine ⟨?_, ?_⟩
    · rw [hscript, ← NumberedLines.given_eq_secure]
      exact spells_equal _
    · rw [hscript]
      exact List.forall_mem_singleton.2 hne
  have hitems := (spells_chunks hdiff).1
  rw [chunksAlong, lineScript, hscript, List.map_singleton, List.map_singleton] at hitems ⊢
  rw [← hitems]
  simp [chunk, Edit.map, equal, before]

/-- A section of a text compared with itself shows the same lines twice. -/
theorem secure_eq_given_of_sectionOf {t : Text} {r : FocusRange} {s : Section}
    (hs : sectionOf t.lines t.lines (equalPositions [equal t.lines] t.lines.length) r = .ok s) :
    s.secure = s.given := by
  have h : s.Follows [equal t.lines] t t := follows_of_sectionOf (spells_equal t.lines) hs
  obtain ⟨⟨hstop, hone, hle, hcount⟩, hlast, hs'⟩ := sectionOf_eq_ok hs
  have hordered := placeBefore_le_secureStop (equalPositions [equal t.lines] t.lines.length) r
    t.lines.length
  have hkept : ∀ i < t.lines.length, s.secureStartLine - 1 ≤ i ∧ i < s.secureEndLine ↔
      s.startLine ≤ i + 1 ∧ i + 1 ≤ s.endLine := fun i hi =>
    h.kept_iff i i ⟨[], t.lines, [], i, rfl, hi, by simp, by simp⟩
  have hstart : s.startLine = r.start ∧ s.endLine = r.stop := by rw [hs']; exact ⟨rfl, rfl⟩
  have hsecure : 0 ≤ s.secureStartLine - 1 ∧ s.secureStartLine - 1 ≤ s.secureEndLine ∧
      s.secureEndLine ≤ t.lines.length := by
    rw [hs']
    simp only [cutSection]
    omega
  rw [h.secure_eq, h.given_eq]
  rcases Int.lt_or_le (s.startLine - 1) s.endLine with hlines | hnone
  · -- both have the first and the last line of the other
    have hmem := hkept (s.startLine - 1).toNat (by omega)
    have hmem' := hkept (s.endLine - 1).toNat (by omega)
    have hsame : s.secureStartLine = s.startLine ∧ s.secureEndLine = s.endLine := by
      have := hkept (s.secureStartLine - 1).toNat (by omega)
      have := hkept (s.secureEndLine - 1).toNat (by omega)
      omega
    rw [hsame.1, hsame.2]
  · -- a line that only the second had would be a line of the first
    have hempty : s.secureEndLine ≤ s.secureStartLine - 1 := by
      by_contra hlt
      have := hkept (s.secureStartLine - 1).toNat (by omega)
      omega
    have hright : (s.secureEndLine - (s.secureStartLine - 1)).toNat = 0 := by omega
    have hleft : (s.endLine - (s.startLine - 1)).toNat = 0 := by omega
    rw [hright, hleft, List.take_zero, List.take_zero]

/-! ## The comparison -/

section
variable {diff : Differ} {given secure : Text} {findings : List Finding} {context : Int}
  {c : Comparison} {s : Section}

theorem follows_of_along (hspells : Spells given.lines secure.lines (chunksAlong diff given secure))
    (hc : along diff given secure findings context = .ok c) (hs : s ∈ c.sections) :
    s.Follows c.chunks given secure := by
  obtain ⟨r, -, hsection⟩ := exists_range_of_mem_sections hc hs
  rw [(along_eq_ok hc).2]
  exact follows_of_sectionOf hspells hsection

theorem secure_eq_given_of_along (hself : ∀ a, a ≠ [] → diff a a = [equal a])
    (hc : along diff given given findings context = .ok c) (hs : s ∈ c.sections) :
    s.secure = s.given := by
  obtain ⟨r, -, hsection⟩ := exists_range_of_mem_sections hc hs
  rw [positionsAlong, chunks_self hself] at hsection
  exact secure_eq_given_of_sectionOf hsection

/-- The sections of a comparison, where the script between the lines has no empty step. -/
theorem follows_of (hne : ∀ e ∈ (Grain.plain Nat).script (NumberedLines.of given secure).given
      (NumberedLines.of given secure).secure, e.items ≠ [])
    (hc : of given secure findings context = .ok c) (hs : s ∈ c.sections) :
    s.Follows c.chunks given secure :=
  follows_of_along (spells_chunks (validOn_plain hne)) hc hs

/-- A text compared with itself shows the same lines twice. -/
theorem secure_eq_given_of (hc : of given given findings context = .ok c) (hs : s ∈ c.sections) :
    s.secure = s.given :=
  secure_eq_given_of_along (fun _ => Grain.script_self) hc hs

end

/-- **Sections follow the kept lines.** Take any differ whose script between the lines leads from
the one text to the other without an empty step, and is a single equal step between equal lists.
Then every section follows the kept lines, and where the texts are the same it shows the same lines
twice. There is a comparison unless a line number leaves 64 bits. -/
theorem sections_follow_kept_lines (diff : Differ) (given secure : Text) (findings : List Finding)
    (context : Int) (hdiff : Differ.ValidOn diff given secure)
    (hself : ∀ a, a ≠ [] → diff a a = [equal a]) :
    (∀ c, along diff given secure findings context = .ok c → ∀ s ∈ c.sections,
      s.Follows c.chunks given secure ∧ (secure = given → s.secure = s.given)) ∧
    (given.lines.length + (if context < 0 then defaultContext else context) ≤ maxWord →
      ∃ c, along diff given secure findings context = .ok c) := by
  have hspells := spells_chunks hdiff
  refine ⟨fun c hc s hs => ⟨follows_of_along hspells hc hs, ?_⟩, exists_along findings hspells.2⟩
  rintro rfl
  exact secure_eq_given_of_along hself hc hs

/-- A line that becomes two, next to kept lines and before a line that is removed: the section of
the second line ends before the third, which is kept. -/
theorem rewritten_line_followed :
    let given : Text := "a\nb\nc\nd\ne"
    let secure : Text := "a\nx\ny\nc\ne\nf"
    let findings := [{ (default : Finding) with line := 2 }]
    Differ.ValidOn (Grain.plain Nat).script given secure ∧
      (∀ a, a ≠ [] → (Grain.plain Nat).script a a = [equal a]) ∧
      ∃ c, of given secure findings 0 = .ok c ∧
        c.sections.map (·.secure) = [[utf8 "x", utf8 "y"]] ∧
        ∀ s ∈ c.sections, s.Follows c.chunks given secure := by
  intro given secure findings
  have hdiff : Differ.ValidOn (Grain.plain Nat).script given secure :=
    validOn_plain (by decide +kernel)
  have hself : ∀ a, a ≠ [] → (Grain.plain Nat).script a a = [equal a] := fun _ => Grain.script_self
  obtain ⟨hall, hexists⟩ := sections_follow_kept_lines _ given secure findings 0 hdiff hself
  obtain ⟨c, hc⟩ := hexists (by decide +kernel)
  have hsecure : (of given secure findings 0).toOption.map (·.sections.map (·.secure)) =
      some [[utf8 "x", utf8 "y"]] := by decide +kernel
  rw [show of given secure findings 0 = .ok c from hc] at hsecure
  exact ⟨hdiff, hself, c, hc, Option.some.inj hsecure, fun s hs => (hall c hc s hs).1⟩

end Comparison
end CodeAudit
