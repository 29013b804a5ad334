import CodeAudit.Proofs.Comparison.Places

/-!
# Kept lines correspond to equal lines

The table of places is a partial map from the lines of the given text to those of the mended one.
Its entries are counted off chunk by chunk, without a look at the texts, so an entry is only worth
something when the chunks have the lines of both texts. Then it leads from a line to one that reads
the same.

**Results.**
* `Kept.getElem?_eq`: a kept line and the line at its place are the same line of their run.
* `corresponds_equalPositions`: the table of any chunks that lead from the one text to the other.
* `equalPositions_correspond`: the table of a comparison along any differ.
* `corresponds_of`: the same along the scripts that comparisons are made with.
-/
namespace CodeAudit
namespace Comparison

open Edit

/-- Line `i` of the given text stands in a run that is kept. -/
def InKeptRun (chunks : List (Edit Text)) (i : Nat) : Prop :=
  ∃ pre items post, chunks = pre ++ equal items :: post ∧
    (before pre).length ≤ i ∧ i < (before pre).length + items.length

/-- The places lead from lines of the given text to equal lines of the mended one, in order, and
from no other lines than those that stand in a kept run. -/
structure Corresponds (positions : List (Option Nat)) (chunks : List (Edit Text))
    (given secure : List Text) :
    Prop where
  length_eq : positions.length = given.length
  increasing : Increasing positions
  lt_length : ∀ i p : Nat, positions[i]? = some (some p) → p < secure.length
  same_line : ∀ i p : Nat, positions[i]? = some (some p) → secure[p]? = given[i]?
  defined_iff : ∀ i : Nat, (∃ p, positions[i]? = some (some p)) ↔ InKeptRun chunks i

theorem exists_kept_iff {chunks : List (Edit Text)} {i : Nat} :
    (∃ p, Kept chunks i p) ↔ InKeptRun chunks i := by
  constructor
  · rintro ⟨p, pre, items, post, j, hchunks, hj, rfl, -⟩
    exact ⟨pre, items, post, hchunks, Nat.le_add_right _ _, Nat.add_lt_add_left hj _⟩
  · rintro ⟨pre, items, post, hchunks, hle, hlt⟩
    exact ⟨_, pre, items, post, i - (before pre).length, hchunks, by omega, by omega, rfl⟩

/-- A kept line and the line at its place are the same line of their run. -/
theorem Kept.getElem?_eq {chunks : List (Edit Text)} {i p : Nat} (h : Kept chunks i p) :
    (after chunks)[p]? = (before chunks)[i]? := by
  obtain ⟨pre, items, post, j, rfl, hj, rfl, rfl⟩ := h
  have hitem : ∀ front back : List Text, (front ++ (items ++ back))[front.length + j]? =
      items[j]? := by
    intro front back
    rw [List.getElem?_append_right (Nat.le_add_right _ _), Nat.add_sub_cancel_left,
      List.getElem?_append_left hj]
  rw [after_append, before_append, after_equal, before_equal, hitem, hitem]

theorem length_equalPositions (chunks : List (Edit Text)) (n : Nat) :
    (equalPositions chunks n).length = n := by
  simp only [equalPositions, List.length_append, List.length_take, List.length_replicate]
  omega

/-- Chunks that lead from the one text to the other place its kept lines at equal lines. -/
theorem corresponds_equalPositions {given secure : List Text} {chunks : List (Edit Text)}
    (h : Spells given secure chunks) :
    Corresponds (equalPositions chunks given.length) chunks given secure := by
  obtain ⟨rfl, rfl⟩ := h
  refine ⟨length_equalPositions _ _, increasing_equalPositions _ _, ?_, ?_, ?_⟩
  · intro i p hp
    exact lt_of_mem_equalPositions (List.mem_of_getElem? hp)
  · intro i p hp
    exact (getElem?_equalPositions.1 hp).2.getElem?_eq
  · intro i
    simp only [getElem?_equalPositions, ← exists_kept_iff]
    -- a kept line is a line of the given text
    exact exists_congr fun p => and_iff_right_of_imp Kept.lt_before

/-- The places of a comparison, where the script between the lines has no empty step. -/
theorem corresponds_of {given secure : Text}
    (hne : ∀ e ∈ (Grain.plain Nat).script (NumberedLines.of given secure).given
      (NumberedLines.of given secure).secure, e.items ≠ []) :
    Corresponds (positionsAlong (Grain.plain Nat).script given secure)
      (chunksAlong (Grain.plain Nat).script given secure) given.lines secure.lines :=
  corresponds_equalPositions (spells_chunks (validOn_plain hne))

/-- **Correspondence.** Along any differ whose script between the lines leads from the one text to
the other without an empty step, the places of a comparison lead from the lines of the kept runs,
and from no others, to equal lines of the mended text, in the same order. -/
theorem equalPositions_correspond (diff : Differ) (given secure : Text)
    (hdiff : Differ.ValidOn diff given secure) :
    let chunks := (lineScript diff given secure).map chunk
    Corresponds (equalPositions chunks given.lines.length) chunks given.lines secure.lines :=
  corresponds_equalPositions (spells_chunks hdiff)

/-- Blank and repeated lines, and a line break at the end of both texts: the two empty lines that
end the given text are kept on both sides of what was added. -/
theorem blank_lines_correspond :
    let given : Text := "x\n\ny\nx\n\n"
    let secure : Text := "\nx\n\nz\nx\n"
    let chunks := (lineScript (Grain.plain Nat).script given secure).map chunk
    Differ.ValidOn (Grain.plain Nat).script given secure ∧
      equalPositions chunks given.lines.length = [none, some 0, none, some 1, some 2, some 5] ∧
      Corresponds (equalPositions chunks given.lines.length) chunks given.lines secure.lines := by
  intro given secure chunks
  have hdiff : Differ.ValidOn (Grain.plain Nat).script given secure :=
    validOn_plain (by decide +kernel)
  exact ⟨hdiff, by decide +kernel, equalPositions_correspond _ given secure hdiff⟩

end Comparison
end CodeAudit
