import CodeAudit.Proofs.Comparison.Ranges
import CodeAudit.Proofs.Edit.Script
import CodeAudit.Proofs.Except
import CodeAudit.Proofs.Text.Lines

/-!
# Sections of a comparison

A section shows a range of lines of the given text and the lines of the mended text that belong to
it. Both are cut out of their texts by line numbers, and with a cut outside of its text the whole
comparison is given up. The lines of the mended text come from places that the chunks give.

**Results.**
* `lt_of_mem_equalPositions`: the places lie in the text that the chunks lead to.
* `sectionOf_eq_ok`, `sectionOf_eq_error`: what a range needs to have a section, and what becomes of
  a range that has none.
* `exists_along_iff`, `exists_range_of_along_eq_error`: there is a comparison just when every range
  has a section.
* `exists_along`: every cut can be made where the chunks lead to the mended text and the line
  numbers fit in 64 bits.
-/
namespace CodeAudit

/-- The section shows lines that the texts have: at least one of the given text, which has `n`
lines, and maybe none of the mended one, which has `m`. -/
structure Section.InRange (n m : Nat) (s : Section) : Prop where
  one_le : 1 ≤ s.startLine
  start_le : s.startLine ≤ s.endLine
  end_le : s.endLine ≤ n
  secure_nonneg : 0 ≤ s.secureStartLine - 1
  secure_start_le : s.secureStartLine - 1 ≤ s.secureEndLine
  secure_end_le : s.secureEndLine ≤ m

namespace Comparison

open Edit

/-! ## Places in the mended text -/

theorem lt_of_mem_positionsFrom {chunks : List (Edit Text)} : ∀ {s p : Nat},
    some p ∈ positionsFrom s chunks → p < s + (after chunks).length := by
  induction chunks with
  | nil => intro s p h; cases h
  | cons e chunks ih =>
    intro s p h
    obtain ⟨kind, items⟩ := e
    cases kind with
    | equal =>
      have hafter : after (⟨.equal, items⟩ :: chunks) = items ++ after chunks :=
        after_equal items chunks
      rw [hafter, List.length_append]
      rcases List.mem_append.1 h with h | h
      · obtain ⟨i, hi, hp⟩ := List.mem_map.1 h
        obtain rfl := Option.some.inj hp
        have : i < items.length := List.mem_range.1 hi
        omega
      · have hlt : p < s + items.length + (after chunks).length := ih h
        omega
    | removed =>
      rcases List.mem_append.1 h with h | h
      · cases List.eq_of_mem_replicate h
      · exact ih h
    | added =>
      have hafter : after (⟨.added, items⟩ :: chunks) = items ++ after chunks :=
        after_added items chunks
      have hlt : p < s + items.length + (after chunks).length := ih h
      rw [hafter, List.length_append]
      omega

theorem lt_of_mem_equalPositions {chunks : List (Edit Text)} {n p : Nat}
    (h : some p ∈ equalPositions chunks n) : p < (after chunks).length := by
  rcases List.mem_append.1 h with h | h
  · simpa using lt_of_mem_positionsFrom (List.mem_of_mem_take h)
  · cases List.eq_of_mem_replicate h

/-- The place where the lines of the mended text that belong to a range end. -/
def secureStop (positions : List (Option Nat)) (r : FocusRange) (count : Nat) : Nat :=
  max (placeBefore positions (r.start - 1).toNat) (placeFrom positions r.stop.toNat count)

theorem placeBefore_le_secureStop (positions : List (Option Nat)) (r : FocusRange) (count : Nat) :
    placeBefore positions (r.start - 1).toNat ≤ secureStop positions r count :=
  Nat.le_max_left _ _

theorem secureStop_le {positions : List (Option Nat)} {count : Nat}
    (h : ∀ p, some p ∈ positions → p < count) (r : FocusRange) :
    secureStop positions r count ≤ count := by
  refine Nat.max_le.2 ⟨?_, ?_⟩
  · unfold placeBefore
    split
    · rename_i p hp
      obtain ⟨q, hq, rfl⟩ := List.exists_of_findSome?_eq_some hp
      exact h p (List.mem_of_mem_take (List.mem_reverse.1 hq))
    · exact Nat.zero_le count
  · unfold placeFrom
    cases hp : (positions.drop r.stop.toNat).findSome? id with
    | none => exact Nat.le_refl count
    | some p =>
      obtain ⟨q, hq, rfl⟩ := List.exists_of_findSome?_eq_some hp
      exact Nat.le_of_lt (h p (List.mem_of_mem_drop hq))

/-! ## Cuts -/

theorem slice_eq_ok_iff {ls part : List Text} {first last : Int} :
    slice ls first last = .ok part ↔ (0 ≤ first ∧ first ≤ last ∧ last ≤ ls.length) ∧
      part = (ls.drop first.toNat).take (last - first).toNat := by
  unfold slice
  split_ifs with hstop hstart
  · simp only [Bool.or_eq_true, decide_eq_true_eq] at hstop
    simp only [false_iff, not_and]
    omega
  · simp only [Bool.or_eq_true, decide_eq_true_eq] at hstart
    simp only [false_iff, not_and]
    omega
  · simp only [Bool.or_eq_true, decide_eq_true_eq, not_or, Int.not_lt] at hstop hstart
    rw [and_iff_right (by omega), Except.ok.injEq, eq_comm]

/-- The section of a range whose cuts can be made. -/
def cutSection (given secure : List Text) (positions : List (Option Nat)) (r : FocusRange) :
    Section where
  startLine := r.start
  endLine := r.stop
  secureStartLine := placeBefore positions (r.start - 1).toNat + 1
  secureEndLine := secureStop positions r secure.length
  findingLines := r.lines
  given := (given.drop (r.start - 1).toNat).take (r.stop - (r.start - 1)).toNat
  secure := (secure.drop (placeBefore positions (r.start - 1).toNat)).take
    (secureStop positions r secure.length - placeBefore positions (r.start - 1).toNat)

section
variable {given secure : List Text} {positions : List (Option Nat)} {r : FocusRange} {s : Section}
  {o : Overrun}

theorem sectionOf_of_slice {part : List Text} (hstop : 0 ≤ r.stop)
    (hgiven : slice given (r.start - 1) r.stop = .ok part) :
    sectionOf given secure positions r =
      if secureStop positions r secure.length ≤ secure.length
      then .ok (cutSection given secure positions r)
      else .error (.stop (secureStop positions r secure.length) secure.length) := by
  have hrange : secureRange positions r.start r.stop secure.length =
      .ok (placeBefore positions (r.start - 1).toNat, secureStop positions r secure.length) :=
    if_neg (Int.not_lt.2 hstop)
  have hordered := placeBefore_le_secureStop positions r secure.length
  obtain rfl := (slice_eq_ok_iff.1 hgiven).2
  unfold sectionOf
  rw [hrange]
  dsimp only [bind, Except.bind]
  rw [hgiven]
  dsimp only
  by_cases hle : secureStop positions r secure.length ≤ secure.length
  · have hsecure : slice secure (placeBefore positions (r.start - 1).toNat)
        (secureStop positions r secure.length) = .ok _ := slice_eq_ok_iff.2 ⟨by omega, rfl⟩
    rw [if_pos hle, hsecure]
    simp [cutSection, pure, Except.pure]
  · have hsecure : slice secure (placeBefore positions (r.start - 1).toNat)
        (secureStop positions r secure.length) =
          .error (.stop (secureStop positions r secure.length) secure.length) := by
      refine if_pos ?_
      simp only [Bool.or_eq_true, decide_eq_true_eq]
      omega
    rw [if_neg hle, hsecure]

/-- What a section shows, and that its range can be cut out of both texts. -/
theorem sectionOf_eq_ok (h : sectionOf given secure positions r = .ok s) :
    (0 ≤ r.stop ∧ 1 ≤ r.start ∧ r.start - 1 ≤ r.stop ∧ r.stop ≤ given.length) ∧
      secureStop positions r secure.length ≤ secure.length ∧
        s = cutSection given secure positions r := by
  have hstop : 0 ≤ r.stop := by
    by_contra hneg
    have hrange : secureRange positions r.start r.stop secure.length = .error (.index r.stop) :=
      if_pos (Int.not_le.1 hneg)
    unfold sectionOf at h
    rw [hrange] at h
    cases h
  cases hslice : slice given (r.start - 1) r.stop with
  | error o =>
    have hrange : secureRange positions r.start r.stop secure.length = .ok _ :=
      if_neg (Int.not_lt.2 hstop)
    unfold sectionOf at h
    rw [hrange] at h
    dsimp only [bind, Except.bind] at h
    rw [hslice] at h
    cases h
  | ok part =>
    rw [sectionOf_of_slice hstop hslice] at h
    obtain ⟨hfirst, hle, hlast⟩ := (slice_eq_ok_iff.1 hslice).1
    split_ifs at h with hcount
    exact ⟨⟨hstop, by omega, hle, hlast⟩, hcount, (Except.ok.inj h).symm⟩

theorem exists_sectionOf (hr : r.Within given.length)
    (hcount : secureStop positions r secure.length ≤ secure.length) :
    ∃ s, sectionOf given secure positions r = .ok s := by
  obtain ⟨hone, hstart, hstop⟩ := hr
  have hslice : slice given (r.start - 1) r.stop = .ok _ := slice_eq_ok_iff.2 ⟨by omega, rfl⟩
  rw [sectionOf_of_slice (by omega) hslice, if_pos hcount]
  exact ⟨_, rfl⟩

/-- A range that stops before the text is given up where the kept lines behind it are looked for,
and one in the text where the mended text has too few lines. -/
theorem sectionOf_eq_error (hr : 0 ≤ r.stop → r.Within given.length)
    (h : sectionOf given secure positions r = .error o) :
    (r.stop < 0 ∧ o = .index r.stop) ∨
      (r.Within given.length ∧ secure.length < secureStop positions r secure.length ∧
        o = .stop (secureStop positions r secure.length) secure.length) := by
  by_cases hstop : 0 ≤ r.stop
  · obtain ⟨hone, hstart, hlast⟩ := hr hstop
    have hslice : slice given (r.start - 1) r.stop = .ok _ := slice_eq_ok_iff.2 ⟨by omega, rfl⟩
    rw [sectionOf_of_slice hstop hslice] at h
    split_ifs at h with hcount
    exact .inr ⟨hr hstop, Nat.not_le.1 hcount, (Except.error.inj h).symm⟩
  · have hrange : secureRange positions r.start r.stop secure.length = .error (.index r.stop) :=
      if_pos (Int.not_le.1 hstop)
    unfold sectionOf at h
    rw [hrange] at h
    exact .inl ⟨Int.not_le.1 hstop, (Except.error.inj h).symm⟩

theorem inRange_of_sectionOf (hr : r.Within given.length)
    (h : sectionOf given secure positions r = .ok s) : s.InRange given.length secure.length := by
  obtain ⟨-, hcount, rfl⟩ := sectionOf_eq_ok h
  have hle := placeBefore_le_secureStop positions r secure.length
  obtain ⟨hone, hrange, hstop⟩ := hr
  constructor <;> simp only [cutSection] <;> omega

end

/-! ## The comparison -/

section
variable {diff : Differ} {given secure : Text} {findings : List Finding} {context : Int}

/-- The chunks of a comparison. -/
def chunksAlong (diff : Differ) (given secure : Text) : List (Edit Text) :=
  (lineScript diff given secure).map chunk

/-- The places of the kept lines. -/
def positionsAlong (diff : Differ) (given secure : Text) : List (Option Nat) :=
  equalPositions (chunksAlong diff given secure) given.lines.length

/-- The ranges that a comparison shows. -/
def rangesOf (given : Text) (findings : List Finding) (context : Int) : List FocusRange :=
  focusRanges findings given.lines.length (if context < 0 then defaultContext else context)

/-- What the sections of a comparison are shown with. -/
def withSections (diff : Differ) (given secure : Text) (sections : List Section) : Comparison where
  chunks := chunksAlong diff given secure
  patch := Patch.between given secure
  sections := sections
  added := countLines .added (chunksAlong diff given secure)
  removed := countLines .removed (chunksAlong diff given secure)

theorem along_eq : along diff given secure findings context =
    (rangesOf given findings context).mapM
        (sectionOf given.lines secure.lines (positionsAlong diff given secure)) >>=
      fun sections => .ok (withSections diff given secure sections) := rfl

theorem along_eq_ok {c : Comparison} (h : along diff given secure findings context = .ok c) :
    (rangesOf given findings context).mapM
        (sectionOf given.lines secure.lines (positionsAlong diff given secure)) = .ok c.sections ∧
      c = withSections diff given secure c.sections := by
  rw [along_eq] at h
  cases hsections : (rangesOf given findings context).mapM
      (sectionOf given.lines secure.lines (positionsAlong diff given secure)) with
  | error o =>
    rw [hsections] at h
    cases h
  | ok sections =>
    rw [hsections] at h
    obtain rfl := Except.ok.inj h
    exact ⟨rfl, rfl⟩

/-- There is a comparison just when every range has a section. -/
theorem exists_along_iff :
    (∃ c, along diff given secure findings context = .ok c) ↔
      ∀ r ∈ rangesOf given findings context, ∃ s,
        sectionOf given.lines secure.lines (positionsAlong diff given secure) r = .ok s := by
  constructor
  · rintro ⟨c, hc⟩
    exact (forall_of_mapM (along_eq_ok hc).1).1
  · intro h
    obtain ⟨sections, hsections⟩ := exists_mapM h
    rw [along_eq, hsections]
    exact ⟨_, rfl⟩

theorem exists_range_of_mem_sections {c : Comparison}
    (h : along diff given secure findings context = .ok c) {s : Section} (hs : s ∈ c.sections) :
    ∃ r ∈ rangesOf given findings context,
      sectionOf given.lines secure.lines (positionsAlong diff given secure) r = .ok s :=
  (forall_of_mapM (along_eq_ok h).1).2 s hs

theorem exists_range_of_along_eq_error {o : Overrun}
    (h : along diff given secure findings context = .error o) :
    ∃ r ∈ rangesOf given findings context,
      sectionOf given.lines secure.lines (positionsAlong diff given secure) r = .error o := by
  rw [along_eq] at h
  cases hsections : (rangesOf given findings context).mapM
      (sectionOf given.lines secure.lines (positionsAlong diff given secure)) with
  | error o' =>
    rw [hsections] at h
    obtain rfl := Except.error.inj h
    exact exists_of_mapM_eq_error hsections
  | ok sections =>
    rw [hsections] at h
    cases h

theorem one_le_length_lines (t : Text) : (1 : Int) ≤ t.lines.length := by
  have := List.length_pos_iff.2 (Text.lines_ne_nil t)
  omega

/-- Where the chunks lead to the mended text, so do the lines that belong to a range. -/
theorem secureStop_le_of_after {chunks : List (Edit Text)} {secure : Text}
    (hafter : after chunks = secure.lines) (n : Nat) (r : FocusRange) :
    secureStop (equalPositions chunks n) r secure.lines.length ≤ secure.lines.length := by
  refine secureStop_le (fun p hp => ?_) r
  rw [← hafter]
  exact lt_of_mem_equalPositions hp

/-- Every cut can be made, as long as the chunks lead to the mended text and no line number leaves
64 bits. -/
theorem exists_along (findings : List Finding)
    (hafter : after (chunksAlong diff given secure) = secure.lines)
    (hfits : given.lines.length + (if context < 0 then defaultContext else context) ≤ maxWord) :
    ∃ c, along diff given secure findings context = .ok c := by
  have hcontext : 0 ≤ if context < 0 then defaultContext else context := by
    split
    · decide
    · omega
  rw [exists_along_iff]
  intro r hr
  exact exists_sectionOf (focusRanges_within findings (one_le_length_lines given) hcontext
    hfits r hr) (secureStop_le_of_after hafter _ r)

end

end Comparison
end CodeAudit
