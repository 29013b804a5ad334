import CodeAudit.Proofs.Remediation.Blocks
import CodeAudit.Proofs.Text.Lines

/-!
# Mending a document in two parts

A document is cut between two lines, and every finding lies in one of the two parts. Then each part
is mended as if it stood alone: fixes of the first part do not reach the second, however many lines
they add or delete, and fixes of the second part do not see the first.

**Blocks.** `Block.mend` is looked at from both sides of the cut: the blocks behind it stay as they
are (`mend_append`), and blocks that stand further down are mended alike (`mend_shift`).

**Results.**
* `remediate_eq_unlines`: the text of a remediation is that of `mendedLines`.
* `mendedLines_append`: the lines of both parts are mended apart.
-/
namespace CodeAudit

/-- The finding as it is in a text with `k` more lines before it. -/
def Finding.shift (k : Nat) (f : Finding) : Finding :=
  { f with line := f.line + k, endLine := f.endLine + k }

/-- Whether the lines of a finding exist in a document of `n` lines. -/
def Finding.InRange (n : Nat) (f : Finding) : Prop :=
  1 ≤ f.line ∧ f.line ≤ f.endLine ∧ f.endLine ≤ n

theorem Finding.InRange.shift {n : Nat} {f : Finding} (h : f.InRange n) (k : Nat) :
    (f.shift k).InRange (k + n) := by
  unfold Finding.InRange at h
  simp only [Finding.InRange, Finding.shift]
  omega

namespace Block

/-- The block as it is in a text with `k` more lines before it. -/
def shift (k : Nat) (b : Block) : Block := ⟨b.origin.map (· + k), b.content⟩

theorem contents_map_shift (k : Nat) (bs : List Block) :
    contents (bs.map (shift k)) = contents bs := by
  simp only [contents, List.flatMap_map, shift]

theorem origins_map_shift (k : Nat) (bs : List Block) :
    origins (bs.map (shift k)) = (origins bs).map (· + k) := by
  simp only [origins, List.flatMap_map, List.map_flatMap, shift]

theorem map_shift_singles (k : Nat) (ts : List Text) :
    ∀ n, (singles n ts).map (shift k) = singles (n + k) ts := by
  induction ts with
  | nil => intro n; rfl
  | cons t ts ih =>
    intro n
    simp only [singles, List.map_cons, ih]
    rw [show n + k + 1 = n + 1 + k by omega]
    rfl

theorem meets_shift (k : Nat) (line endLine : Int) (b : Block) :
    meets (line + k) (endLine + k) (shift k b) = meets line endLine b := by
  simp only [meets, shift, List.any_map]
  congr 1
  funext i
  simp only [Function.comp_apply, Int.natCast_add, Int.add_le_add_iff_right]

theorem filter_meets_map_shift (k : Nat) (line endLine : Int) (bs : List Block) :
    (bs.map (shift k)).filter (meets (line + k) (endLine + k)) =
      (bs.filter (meets line endLine)).map (shift k) := by
  rw [List.filter_map]
  congr 1
  exact List.filter_congr fun b _ => meets_shift k line endLine b

theorem substitute_map (g : Block → Block) {p q : Block → Bool} (h : ∀ b, p (g b) = q b)
    (new : Block)
    (bs : List Block) : substitute p (g new) (bs.map g) = (substitute q new bs).map g := by
  induction bs with
  | nil => rfl
  | cons b bs ih =>
    simp only [List.map_cons, substitute, h]
    split
    · simp only [List.map_cons, List.filter_map]
      congr 2
      exact List.filter_congr fun x _ => by simp only [Function.comp_apply, h]
    · simp only [List.map_cons, ih]

/-- Where the same contents meet two findings of one rule and merging goes through `g`, so does
mending. -/
theorem mend_comm (g : List Block → List Block) (fixes : Text → Option Fix) (l : Language)
    {n n' : Nat} {f f' : Finding} {bs : List Block} (hrule : f'.ruleId = f.ruleId)
    (hf : f.InRange n)
    (hf' : f'.InRange n')
    (hmet : contents ((g bs).filter (meets f'.line f'.endLine)) =
      contents (bs.filter (meets f.line f.endLine)))
    (hmerge : ∀ out, merge f'.line f'.endLine out (g bs) = g (merge f.line f.endLine out bs)) :
    mend n' fixes l (g bs) f' = g (mend n fixes l bs f) := by
  unfold Finding.InRange at hf hf'
  unfold mend
  rw [hrule]
  cases fixes f.ruleId with
  | none => rfl
  | some fix =>
    simp only
    rw [if_pos hf', if_pos hf, hmet]
    split
    · rfl
    · cases fix (contents (bs.filter (meets f.line f.endLine))) l with
      | none => rfl
      | some out =>
        simp only
        split
        · rfl
        · exact hmerge out

/-- Blocks that stand further down are mended alike. -/
theorem mend_shift (k n : Nat) (fixes : Text → Option Fix) (l : Language) (bs : List Block)
    {f : Finding} (hf : f.InRange n) :
    mend (k + n) fixes l (bs.map (shift k)) (f.shift k) = (mend n fixes l bs f).map (shift k) := by
  refine mend_comm (List.map (shift k)) fixes l rfl hf (hf.shift k) ?_ fun out => ?_
  · simp only [Finding.shift]
    rw [filter_meets_map_shift, contents_map_shift]
  · unfold merge
    simp only [Finding.shift]
    rw [filter_meets_map_shift, origins_map_shift]
    exact substitute_map (shift k) (meets_shift k f.line f.endLine) ⟨_, out⟩ bs

/-! ## Both sides of a cut -/

theorem substitute_append_of_behind (p : Block → Bool) (new : Block) (as : List Block)
    {bs : List Block} (h : bs.filter p = []) :
    substitute p new (as ++ bs) = substitute p new as ++ bs := by
  have hnone : ∀ b ∈ bs, p b = false := by
    intro b hb
    simpa using List.filter_eq_nil_iff.1 h b hb
  have hrest : bs.filter (!p ·) = bs := List.filter_eq_self.2 fun b hb => by simp [hnone b hb]
  induction as with
  | nil =>
    have := substitute_append p new bs [] h
    simpa [substitute] using this
  | cons a as ih =>
    simp only [List.cons_append, substitute]
    split
    · rw [List.filter_append, hrest, List.cons_append]
    · rw [ih, List.cons_append]

section
variable {f : Finding} {n N : Nat}

/-- No block of lines outside the range of a finding meets it. -/
theorem filter_meets_eq_nil (hf : f.InRange n) {bs : List Block}
    (h : ∀ i ∈ origins bs, (i : Int) < f.line ∨ f.endLine < i) :
    bs.filter (meets f.line f.endLine) = [] := by
  unfold Finding.InRange at hf
  obtain ⟨a, ha⟩ := Int.eq_ofNat_of_zero_le (show 0 ≤ f.line by omega)
  obtain ⟨b, hb⟩ := Int.eq_ofNat_of_zero_le (show 0 ≤ f.endLine by omega)
  rw [ha, hb] at h ⊢
  refine filter_meets_behind a b bs fun i hi => ?_
  have := h i hi
  omega

/-- Blocks behind the range of a finding stay as they are. -/
theorem mend_append (fixes : Text → Option Fix) (l : Language) (as : List Block) {bs : List Block}
    (hf : f.InRange n) (hnN : n ≤ N) (hbs : ∀ i ∈ origins bs, n < i) :
    mend N fixes l (as ++ bs) f = mend n fixes l as f ++ bs := by
  have hf' : f.InRange N := by unfold Finding.InRange at *; omega
  have hnone : bs.filter (meets f.line f.endLine) = [] := by
    refine filter_meets_eq_nil hf fun i hi => Or.inr ?_
    have := hbs i hi
    unfold Finding.InRange at hf
    omega
  have hmet : (as ++ bs).filter (meets f.line f.endLine) = as.filter (meets f.line f.endLine) := by
    rw [List.filter_append, hnone, List.append_nil]
  refine mend_comm (· ++ bs) fixes l rfl hf hf' (congrArg contents hmet) fun out => ?_
  unfold merge
  rw [hmet]
  exact substitute_append_of_behind _ _ as hnone

/-- Blocks before the range of a finding stay as they are. -/
theorem mend_append_right (fixes : Text → Option Fix) (l : Language) {as : List Block}
    (bs : List Block) (hf : f.InRange n) (has : ∀ i ∈ origins as, (i : Int) < f.line) :
    mend n fixes l (as ++ bs) f = as ++ mend n fixes l bs f := by
  have hnone : as.filter (meets f.line f.endLine) = [] :=
    filter_meets_eq_nil hf fun i hi => Or.inl (has i hi)
  have hmet : (as ++ bs).filter (meets f.line f.endLine) = bs.filter (meets f.line f.endLine) := by
    rw [List.filter_append, hnone, List.nil_append]
  refine mend_comm (as ++ ·) fixes l rfl hf hf (congrArg contents hmet) fun out => ?_
  unfold merge
  rw [hmet]
  exact substitute_append _ _ as bs hnone

end

theorem foldl_mend_append (fixes : Text → Option Fix) (l : Language) {n N : Nat} (hnN : n ≤ N)
    {bs : List Block} (hbs : ∀ i ∈ origins bs, n < i) (fs : List Finding)
    (hfs : ∀ f ∈ fs, f.InRange n) : ∀ as : List Block,
      fs.foldl (mend N fixes l) (as ++ bs) = fs.foldl (mend n fixes l) as ++ bs := by
  induction fs with
  | nil => intro as; rfl
  | cons f fs ih =>
    intro as
    rw [List.foldl_cons, List.foldl_cons, mend_append fixes l as (hfs f (by simp)) hnN hbs]
    exact ih (fun g hg => hfs g (by simp [hg])) _

theorem foldl_mend_shift (fixes : Text → Option Fix) (l : Language) {k n : Nat} {as : List Block}
    (has : ∀ i ∈ origins as, i ≤ k) (fs : List Finding) (hfs : ∀ f ∈ fs, f.InRange n) :
    ∀ bs : List Block, (fs.map (Finding.shift k)).foldl (mend (k + n) fixes l)
        (as ++ bs.map (shift k)) = as ++ (fs.foldl (mend n fixes l) bs).map (shift k) := by
  induction fs with
  | nil => intro bs; rfl
  | cons f fs ih =>
    intro bs
    have hf := hfs f (by simp)
    have hbefore : ∀ i ∈ origins as, (i : Int) < (f.shift k).line := by
      intro i hi
      have := has i hi
      unfold Finding.InRange at hf
      simp only [Finding.shift]
      omega
    rw [List.map_cons, List.foldl_cons, List.foldl_cons,
      mend_append_right fixes l _ (hf.shift k) hbefore, mend_shift k n fixes l bs hf]
    exact ih (fun g hg => hfs g (by simp [hg])) _

/-- The lines of two parts are mended apart. -/
theorem contents_foldl_mend_append (fixes : Text → Option Fix) (l : Language) {as bs : List Text}
    (hne : as ≠ []) {fs gs : List Finding} (hsorted : fs.Pairwise fun f g => f.line ≤ g.line)
    (hfs : ∀ f ∈ fs, f.InRange as.length) (hgs : ∀ g ∈ gs, g.InRange bs.length) :
    contents ((fs ++ gs.map (Finding.shift as.length)).foldl (mend (as ++ bs).length fixes l)
        (singles 1 (as ++ bs))) =
      contents (fs.foldl (mend as.length fixes l) (singles 1 as)) ++
        contents (gs.foldl (mend bs.length fixes l) (singles 1 bs)) := by
  have hbehind : ∀ i ∈ origins (singles (1 + as.length) bs), as.length < i := by
    intro i hi
    rw [origins_singles, List.mem_range'_1] at hi
    omega
  have hbefore : ∀ i ∈ origins (fs.foldl (mend as.length fixes l) (singles 1 as)), i ≤
      as.length := by
    intro i hi
    rw [(contents_mend_eq as hne fixes l fs hsorted).2, List.mem_range'_1] at hi
    omega
  rw [List.foldl_append, List.length_append, singles_append,
    foldl_mend_append fixes l (Nat.le_add_right _ _) hbehind fs hfs, ← map_shift_singles,
    foldl_mend_shift fixes l hbefore gs hgs, contents_append, contents_map_shift]

end Block

/-! ## The mended text -/

/-- The lines of a document as the fixes of all findings leave them. -/
def mendedLines (d : Document) (l : Language) (findings : List Finding)
    (fixes : Text → Option Fix) :
    List Text :=
  ((findings.mergeSort Finding.le).foldl (Draft.apply fixes l) (Draft.ofLines d.lines)).lines

/-- Without findings nothing is split and joined, but that would make no difference. -/
theorem remediate_eq_unlines (d : Document) (l : Language) (findings : List Finding)
    (fixes : Text → Option Fix) :
    remediate d l findings fixes = Text.unlines (mendedLines d l findings fixes) := by
  unfold remediate mendedLines
  cases findings with
  | nil =>
    rw [List.mergeSort_nil]
    exact (Text.unlines_lines d.text).symm
  | cons f fs => rfl

section
variable {findings : List Finding}

/-- Findings in strict order are taken as they come. -/
theorem mendedLines_eq_contents (d : Document) (l : Language) (fixes : Text → Option Fix)
    (hsorted : findings.Pairwise Finding.Before) :
    mendedLines d l findings fixes =
      Block.contents (findings.foldl (Block.mend d.lines.length fixes l)
        (Block.singles 1 d.lines)) := by
  have hle : findings.Pairwise fun f g => Finding.le f g = true := by
    refine hsorted.imp fun {f g} hfg => (Finding.le_iff f g).2 ?_
    unfold Finding.Before at hfg
    omega
  have hline : findings.Pairwise fun f g => f.line ≤ g.line := hle.imp Finding.line_le_of_le
  unfold mendedLines
  rw [List.mergeSort_of_pairwise hle]
  exact (Block.contents_mend_eq d.lines (Text.lines_ne_nil d.text) fixes l findings hline).1

/-- **Two parts.** The lines on both sides of a line feed are mended apart. -/
theorem mendedLines_append (s t : Text) (l : Language) (fixes : Text → Option Fix)
    {others : List Finding} (hf : findings.Pairwise Finding.Before)
    (ho : others.Pairwise Finding.Before)
    (happend : (findings ++ others.map (Finding.shift s.lines.length)).Pairwise Finding.Before)
    (hfr : ∀ f ∈ findings, f.InRange s.lines.length)
    (hor : ∀ f ∈ others, f.InRange t.lines.length) :
    mendedLines ⟨s ++ Text.newline :: t⟩ l (findings ++ others.map (Finding.shift s.lines.length))
        fixes = mendedLines ⟨s⟩ l findings fixes ++ mendedLines ⟨t⟩ l others fixes := by
  have hline : findings.Pairwise fun f g => f.line ≤ g.line := by
    refine hf.imp fun {f g} hfg => ?_
    unfold Finding.Before at hfg
    omega
  have hlines : Document.lines ⟨s ++ Text.newline :: t⟩ = s.lines ++ t.lines :=
    Text.lines_append_newline s t
  rw [mendedLines_eq_contents _ l fixes happend, mendedLines_eq_contents _ l fixes hf,
    mendedLines_eq_contents _ l fixes ho, hlines]
  exact Block.contents_foldl_mend_append fixes l (Text.lines_ne_nil s) hline hfr hor

end

end CodeAudit
