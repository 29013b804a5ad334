import CodeAudit.Proofs.Comparison.Sections

/-!
# Chunks of a comparison

Two texts are compared line by line: both get a line break at their end, each distinct line becomes
a number, a script is found between the numbers, and every step of it is turned back into text,
which is split into lines again. Nothing is gained or lost on the way as long as the script leads
from the one list of numbers to the other and no step is empty. An empty step would be shown as one
empty line, since a text without a line break is one line. How the script is found does not matter.

**Numbers.** `NumberedLines.map_line_of`: every number stands for one line of the texts, and the
numbers of a text stand for its lines in order.

**Results.**
* `spells_chunks`: the chunks lead from the lines of the given text to those of the mended one.
* `chunks_reconstruct`: the same of a whole comparison, with its counts.
* `reconstructs_of`: the same along the scripts that comparisons are made with.
-/
namespace CodeAudit

namespace Edit

variable {α β : Type}

/-! ## Scripts on other items -/

theorem Spells.map {a b : List α} {script : List (Edit α)} (h : Spells a b script)
    {f : Edit α → Edit β} {g : α → β} (hf : ∀ e ∈ script, f e = e.map (List.map g)) :
    Spells (a.map g) (b.map g) (script.map f) := by
  obtain ⟨rfl, rfl⟩ := h
  induction script with
  | nil => exact ⟨rfl, rfl⟩
  | cons e script ih =>
    obtain ⟨hbefore, hafter⟩ := ih fun d hd => hf d (List.mem_cons_of_mem e hd)
    have he := hf e List.mem_cons_self
    simp only [Spells, List.map_cons, before_cons, after_cons, he, hbefore, hafter, Edit.map,
      List.map_append]
    constructor <;> split <;> rfl

/-- What a step of a script holds comes from one of the lists. -/
theorem Spells.mem {a b : List α} {script : List (Edit α)} (h : Spells a b script) {e : Edit α}
    (he : e ∈ script) {x : α} (hx : x ∈ e.items) : x ∈ a ∨ x ∈ b := by
  obtain ⟨rfl, rfl⟩ := h
  by_cases hk : e.kind = .added
  · exact Or.inr (List.mem_flatMap.2 ⟨e, he, by simpa [hk] using hx⟩)
  · exact Or.inl (List.mem_flatMap.2 ⟨e, he, by simpa [hk] using hx⟩)

end Edit

/-! ## Lines with their line breaks -/

namespace Text

theorem utf8_newline : utf8 "\n" = [newline] := by decide +kernel

theorem dropSuffix_append (s p : Text) : dropSuffix (s ++ p) p = s := by
  have h : endsWith (s ++ p) p = true := by
    rw [endsWith, List.isSuffixOf_iff_suffix]
    exact List.suffix_append s p
  rw [dropSuffix, if_pos h, List.length_append, Nat.add_sub_cancel, List.take_left]

theorem flatMap_newline {ls : List Text} (h : ls ≠ []) :
    ls.flatMap (· ++ [newline]) = unlines ls ++ [newline] := by
  induction ls with
  | nil => exact absurd rfl h
  | cons l ls ih =>
    cases ls with
    | nil => simp [unlines, join]
    | cons x ls => rw [List.flatMap_cons, ih (by simp), unlines_cons l (by simp)]; simp

end Text

theorem Edit.brokenLines_append_newline (t : Text) :
    brokenLines (t ++ [Text.newline]) = t.lines.map (· ++ [Text.newline]) := by
  have hlines : Text.lines (t ++ [Text.newline]) = t.lines ++ [[]] := Text.lines_append_newline t []
  simp [brokenLines, hlines]

/-! ## Numbers of lines -/

namespace NumberedLines

theorem number_table (table ls : List Text) : table <+: (number table ls).1 := by
  induction ls generalizing table with
  | nil => exact List.prefix_rfl
  | cons l ls ih =>
    rw [number]
    split
    · exact ih table
    · exact (List.prefix_append table [l]).trans (ih (table ++ [l]))

/-- The numbers lead back to the lines, in the table they were given in and in any that continues
it. -/
theorem map_getD_number (ls : List Text) : ∀ {table later : List Text},
    (number table ls).1 <+: later → (number table ls).2.map (fun i => later.getD i []) = ls := by
  have hget : ∀ {table later : List Text} {i : Nat} {l : Text}, table <+: later →
      table[i]? = some l → later.getD i [] = l := by
    intro table later i l hlater hi
    obtain ⟨hlt, hl⟩ := List.getElem?_eq_some_iff.1 hi
    rw [List.getD_eq_getElem?_getD, List.prefix_iff_getElem?.1 hlater i hlt, hl]
    rfl
  induction ls with
  | nil => intro table later _; rfl
  | cons l ls ih =>
    intro table later h
    rw [number] at h ⊢
    split at h
    · rename_i i hi
      obtain ⟨hlt, hl, -⟩ := List.idxOf?_eq_some_iff.1 hi
      have hfound : table[i]? = some l := by rw [List.getElem?_eq_getElem hlt, hl]
      rw [List.map_cons, ih h, hget ((number_table table ls).trans h) hfound]
    · have hnew : (table ++ [l])[table.length]? = some l := by simp
      rw [List.map_cons, ih h, hget ((number_table (table ++ [l]) ls).trans h) hnew]

/-- The line with a number, with its line break. -/
def brokenLine (n : NumberedLines) (i : Nat) : Text := n.table.getD i []

/-- The line with a number, without its line break. -/
def line (n : NumberedLines) (i : Nat) : Text := (n.brokenLine i).dropLast

theorem map_brokenLine_of (given secure : Text) :
    (of given secure).given.map (of given secure).brokenLine
        = given.lines.map (· ++ [Text.newline]) ∧
      (of given secure).secure.map (of given secure).brokenLine
        = secure.lines.map (· ++ [Text.newline]) := by
  unfold of
  rw [Text.utf8_newline, Edit.brokenLines_append_newline, Edit.brokenLines_append_newline]
  exact ⟨map_getD_number _ (number_table _ _), map_getD_number _ List.prefix_rfl⟩

/-- The numbers of a text stand for its lines in order. -/
theorem map_line_of (given secure : Text) :
    (of given secure).given.map (of given secure).line = given.lines ∧
      (of given secure).secure.map (of given secure).line = secure.lines := by
  have hline : ∀ (n : NumberedLines) {numbers : List Nat} {t : Text},
      numbers.map n.brokenLine = t.lines.map (· ++ [Text.newline]) →
        numbers.map n.line = t.lines := by
    intro n numbers t h
    calc numbers.map n.line
        = (numbers.map n.brokenLine).map List.dropLast := by rw [List.map_map]; rfl
      _ = t.lines := by simp [h, Function.comp_def]
  obtain ⟨hgiven, hsecure⟩ := map_brokenLine_of given secure
  exact ⟨hline _ hgiven, hline _ hsecure⟩

/-- A number of either text stands for a line that ends in its only line break. -/
theorem brokenLine_of_mem {given secure : Text} {i : Nat}
    (h : i ∈ (of given secure).given ∨ i ∈ (of given secure).secure) :
    (of given secure).brokenLine i = (of given secure).line i ++ [Text.newline] ∧
      Text.newline ∉ (of given secure).line i := by
  have hline : ∀ (n : NumberedLines) {numbers : List Nat} {t : Text}, i ∈ numbers →
      numbers.map n.brokenLine = t.lines.map (· ++ [Text.newline]) →
        n.brokenLine i = n.line i ++ [Text.newline] ∧ Text.newline ∉ n.line i := by
    intro n numbers t hi heq
    have hmem : n.brokenLine i ∈ numbers.map n.brokenLine := List.mem_map_of_mem hi
    rw [heq] at hmem
    obtain ⟨l, hl, hbroken⟩ := List.mem_map.1 hmem
    rw [line, ← hbroken, List.dropLast_concat]
    exact ⟨rfl, Text.newline_not_mem_lines hl⟩
  obtain ⟨hgiven, hsecure⟩ := map_brokenLine_of given secure
  rcases h with h | h
  · exact hline _ h hgiven
  · exact hline _ h hsecure

/-- The text of some lines has just these lines, apart from the break at its end. -/
theorem lines_text {given secure : Text} {numbers : List Nat} (hne : numbers ≠ [])
    (h : ∀ i ∈ numbers, i ∈ (of given secure).given ∨ i ∈ (of given secure).secure) :
    Text.lines (Text.dropSuffix ((of given secure).text numbers) "\n")
      = numbers.map (of given secure).line := by
  have htext : (of given secure).text numbers
      = (numbers.map (of given secure).line).flatMap (· ++ [Text.newline]) := by
    have hbroken : numbers.map (of given secure).brokenLine
        = (numbers.map (of given secure).line).map (· ++ [Text.newline]) := by
      rw [List.map_map]
      exact List.map_congr_left fun i hi => (brokenLine_of_mem (h i hi)).1
    calc (of given secure).text numbers
        = (numbers.map (of given secure).brokenLine).flatten := rfl
      _ = ((numbers.map (of given secure).line).map (· ++ [Text.newline])).flatten := by
        rw [hbroken]
  have hlines : numbers.map (of given secure).line ≠ [] := by simpa using hne
  rw [htext, Text.flatMap_newline hlines, Text.utf8_newline, Text.dropSuffix_append]
  apply Text.lines_unlines hlines
  intro l hl
  obtain ⟨i, hi, rfl⟩ := List.mem_map.1 hl
  exact (brokenLine_of_mem (h i hi)).2

end NumberedLines

/-! ## Chunks -/

namespace Comparison

open Edit

/-- The script that the differ finds between the lines of two texts is one that was asked for. -/
def Differ.ValidOn (diff : Differ) (given secure : Text) : Prop :=
  Valid (NumberedLines.of given secure).given (NumberedLines.of given secure).secure
    (diff (NumberedLines.of given secure).given (NumberedLines.of given secure).secure)

/-- The script that comparisons are made with leads from one text to the other, whatever they
are. -/
theorem validOn_plain {given secure : Text}
    (h : ∀ e ∈ (Grain.plain Nat).script (NumberedLines.of given secure).given
      (NumberedLines.of given secure).secure, e.items ≠ []) :
    Differ.ValidOn (Grain.plain Nat).script given secure :=
  ⟨Grain.spells_script _ _, h⟩

/-- The chunks lead from the lines of the one text to those of the other. -/
theorem spells_chunks {diff : Differ} {given secure : Text} (h : Differ.ValidOn diff given secure) :
    Spells given.lines secure.lines (chunksAlong diff given secure) := by
  obtain ⟨hgiven, hsecure⟩ := NumberedLines.map_line_of given secure
  rw [chunksAlong, lineScript, List.map_map, ← hgiven, ← hsecure]
  apply h.spells.map
  intro e he
  have hlines := NumberedLines.lines_text (h.nonempty e he) fun i hi => h.spells.mem he hi
  simp only [Function.comp_apply, chunk, Edit.map]
  rw [hlines]

/-! ## Counts -/

/-- What is added makes the second text longer, what is removed the first. -/
theorem length_after_add_removed (chunks : List (Edit Text)) :
    (after chunks).length + countLines .removed chunks
      = (before chunks).length + countLines .added chunks := by
  induction chunks with
  | nil => rfl
  | cons e chunks ih =>
    obtain ⟨kind, items⟩ := e
    cases kind <;> simp [countLines, before_cons, after_cons] at ih ⊢ <;> omega

/-- A comparison holds both texts, and counts the lines in which they differ. -/
structure Reconstructs (c : Comparison) (given secure : Text) : Prop where
  before_eq : before c.chunks = given.lines
  after_eq : after c.chunks = secure.lines
  added_eq : c.added = ((c.chunks.filter (·.kind = .added)).flatMap (·.items)).length
  removed_eq : c.removed = ((c.chunks.filter (·.kind = .removed)).flatMap (·.items)).length
  difference : (c.added : Int) - c.removed = (secure.lines.length : Int) - given.lines.length

theorem reconstructs_of_along {diff : Differ} {given secure : Text} {findings : List Finding}
    {context : Int} {c : Comparison}
    (hspells : Spells given.lines secure.lines (chunksAlong diff given secure))
    (h : along diff given secure findings context = .ok c) : c.Reconstructs given secure := by
  obtain ⟨hbefore, hafter⟩ := hspells
  have hcounts := length_after_add_removed (chunksAlong diff given secure)
  rw [hbefore, hafter] at hcounts
  rw [(along_eq_ok h).2]
  exact ⟨hbefore, hafter, rfl, rfl, by simp only [withSections]; omega⟩

/-- The comparison of two texts holds both, where the script between their lines has no empty
step. -/
theorem reconstructs_of {given secure : Text} {findings : List Finding} {context : Int}
    {c : Comparison} (hne : ∀ e ∈ (Grain.plain Nat).script (NumberedLines.of given secure).given
      (NumberedLines.of given secure).secure, e.items ≠ [])
    (h : of given secure findings context = .ok c) : c.Reconstructs given secure :=
  reconstructs_of_along (spells_chunks (validOn_plain hne)) h

/-- **Reconstruction.** Along any differ whose script between the lines leads from the one text to
the other without an empty step, a comparison holds both texts; and there is one unless a line
number leaves 64 bits. -/
theorem chunks_reconstruct (diff : Differ) (given secure : Text) (findings : List Finding)
    (context : Int) (hdiff : Differ.ValidOn diff given secure) :
    (∀ c, along diff given secure findings context = .ok c → c.Reconstructs given secure) ∧
      (given.lines.length + (if context < 0 then defaultContext else context) ≤ maxWord →
        ∃ c, along diff given secure findings context = .ok c) := by
  have hspells := spells_chunks hdiff
  exact ⟨fun c hc => reconstructs_of_along hspells hc, exists_along findings hspells.2⟩

/-- Repeated and blank lines, and a line break at the end of both texts. -/
theorem repeated_lines_reconstructed :
    Differ.ValidOn (Grain.plain Nat).script "x\n\nx\ny\n" "\nx\nz\n\n" ∧
      ∃ c, of "x\n\nx\ny\n" "\nx\nz\n\n" [] 3 = .ok c ∧
        c.Reconstructs "x\n\nx\ny\n" "\nx\nz\n\n" := by
  have hdiff : Differ.ValidOn (Grain.plain Nat).script "x\n\nx\ny\n" "\nx\nz\n\n" :=
    validOn_plain (by decide +kernel)
  obtain ⟨hall, hexists⟩ := chunks_reconstruct _ "x\n\nx\ny\n" "\nx\nz\n\n" [] 3 hdiff
  obtain ⟨c, hc⟩ := hexists (by decide +kernel)
  exact ⟨hdiff, c, hc, hall c hc⟩

end Comparison
end CodeAudit
