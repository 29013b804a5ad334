import CodeAudit.Proofs.FindingOrder
import CodeAudit.Remediation

/-!
# Remediation as a rewriting of blocks

`remediate` keeps one list of lines and a span into it for every line of the document; each
replacement collapses the spans it meets and shifts those behind it. Here the same rewriting is
described without spans, so that what a fix gets to see no longer depends on index arithmetic.

**Blocks.** The document starts as one block for each of its lines. A fix sees the contents of all
blocks that meet the lines of its finding, and those blocks become one block that holds its output.

**Simulation (`Tracks`).** Findings come in the order of their lines, so when only findings from
line `c` on are left, the lines from `c` on that were ever touched are all in one block, the current
one, and every line behind it is still a block of its own. Only the spans from `c` on have to be
right, and they are.

**Results.**
* `contents_mend_eq`: the lines of the draft are the contents of the blocks, after any findings.
* `remediate_eq_blocks`: the text of `remediate` is the contents of the blocks; the blocks keep the
  lines of the document in order, and a line in no finding's range stays as it is, in its place.
-/
namespace CodeAudit

/-- Adjacent lines of a document, by their numbers from 1, and what they have become. -/
structure Block where
  origin : List Nat
  content : List Text
  deriving DecidableEq, Repr

namespace Block

/-- Whether a line of the block lies in a range of lines. -/
def meets (line endLine : Int) (b : Block) : Bool :=
  b.origin.any fun i => decide (line ≤ i) && decide ((i : Int) ≤ endLine)

/-- One block for each line, the first of which has number `n`. -/
def singles : Nat → List Text → List Block
  | _, [] => []
  | n, t :: ts => ⟨[n], [t]⟩ :: singles (n + 1) ts

/-- What the blocks hold, in their order. -/
def contents (bs : List Block) : List Text := bs.flatMap content

/-- The lines of the document that the blocks stand for, in their order. -/
def origins (bs : List Block) : List Nat := bs.flatMap origin

/-- Puts one block in the place of all blocks that satisfy `p`. -/
def substitute (p : Block → Bool) (new : Block) : List Block → List Block
  | [] => []
  | b :: bs => if p b then new :: bs.filter (!p ·) else b :: substitute p new bs

/-- Makes one block of all blocks that meet a range of lines. -/
def merge (line endLine : Int) (out : List Text) (bs : List Block) : List Block :=
  substitute (meets line endLine) ⟨origins (bs.filter (meets line endLine)), out⟩ bs

/-- Applies the fix of a finding to the blocks of a document with `n` lines. -/
def mend (n : Nat) (fixes : Text → Option Fix) (l : Language) (bs : List Block) (f : Finding) :
    List Block :=
  match fixes f.ruleId with
  | none => bs
  | some fix =>
    if 1 ≤ f.line ∧ f.line ≤ f.endLine ∧ f.endLine ≤ n then
      let met := contents (bs.filter (meets f.line f.endLine))
      if met = [] then bs
      else match fix met l with
        | none => bs
        | some out => if out = met then bs else merge f.line f.endLine out bs
    else bs

/-! ## Blocks of single lines -/

theorem contents_append (as bs : List Block) :
    contents (as ++ bs) = contents as ++ contents bs := by
  simp [contents]

theorem contents_cons (b : Block) (bs : List Block) :
    contents (b :: bs) = b.content ++ contents bs := by
  simp [contents]

theorem origins_append (as bs : List Block) : origins (as ++ bs) = origins as ++ origins bs := by
  simp [origins]

theorem origins_cons (b : Block) (bs : List Block) :
    origins (b :: bs) = b.origin ++ origins bs := by
  simp [origins]

theorem contents_singles (ts : List Text) : ∀ n, contents (singles n ts) = ts := by
  induction ts with
  | nil => intro n; rfl
  | cons t ts ih => intro n; rw [singles, contents_cons, ih]; rfl

theorem origins_singles (ts : List Text) :
    ∀ n, origins (singles n ts) = List.range' n ts.length := by
  induction ts with
  | nil => intro n; rfl
  | cons t ts ih => intro n; rw [singles, origins_cons, ih]; rfl

theorem singles_append (as bs : List Text) :
    ∀ n, singles n (as ++ bs) = singles n as ++ singles (n + as.length) bs := by
  induction as with
  | nil => intro n; rfl
  | cons t as ih =>
    intro n
    simp only [List.cons_append, singles, ih, List.length_cons]
    rw [show n + 1 + as.length = n + (as.length + 1) by omega]

/-- The blocks from line `m + 1` on, cut behind line `m + k`. -/
theorem singles_drop_split (lines : List Text) (m k : Nat) (h : m + k ≤ lines.length) :
    singles (m + 1) (lines.drop m) =
      singles (m + 1) ((lines.drop m).take k) ++ singles (m + k + 1) (lines.drop (m + k)) := by
  have hcut : lines.drop m = (lines.drop m).take k ++ lines.drop (m + k) := by
    rw [← List.drop_drop, List.take_append_drop]
  have hlen : ((lines.drop m).take k).length = k := by
    rw [List.length_take, List.length_drop]; omega
  conv => lhs; rw [hcut, singles_append, hlen]
  rw [show m + 1 + k = m + k + 1 by omega]

/-! ## Blocks that meet a range -/

theorem meets_iff (a b : Nat) (x : Block) :
    meets a b x = true ↔ ∃ i ∈ x.origin, a ≤ i ∧ i ≤ b := by
  simp [meets]

theorem filter_meets_behind (a b : Nat) (bs : List Block) (h : ∀ i ∈ origins bs, i < a ∨ b < i) :
    bs.filter (meets a b) = [] := by
  rw [List.filter_eq_nil_iff]
  intro x hx hm
  obtain ⟨i, hi, ha, hb⟩ := (meets_iff a b x).1 hm
  have := h i (List.mem_flatMap.2 ⟨x, hx, hi⟩)
  omega

theorem filter_not_meets_behind (a b : Nat) (bs : List Block)
    (h : ∀ i ∈ origins bs, i < a ∨ b < i) : bs.filter (!meets a b ·) = bs := by
  rw [List.filter_eq_self]
  intro x hx
  have := List.filter_eq_nil_iff.1 (filter_meets_behind a b bs h) x hx
  simpa using this

theorem filter_meets_singles (a b : Nat) (ts : List Text) :
    ∀ n, a ≤ n → n + ts.length ≤ b + 1 →
      (singles n ts).filter (meets a b) = singles n ts ∧
        (singles n ts).filter (!meets a b ·) = [] := by
  induction ts with
  | nil => intro n _ _; exact ⟨rfl, rfl⟩
  | cons t ts ih =>
    intro n ha hb
    rw [List.length_cons] at hb
    have hm : meets a b ⟨[n], [t]⟩ = true := (meets_iff a b _).2 ⟨n, by simp, ha, by omega⟩
    obtain ⟨h1, h2⟩ := ih (n + 1) (by omega) (by omega)
    simp only [singles, List.filter_cons, hm, if_true, h1, Bool.not_true, Bool.false_eq_true,
      if_false, h2, and_self]

theorem substitute_append (p : Block → Bool) (new : Block) (as bs : List Block)
    (h : as.filter p = []) : substitute p new (as ++ bs) = as ++ substitute p new bs := by
  induction as with
  | nil => rfl
  | cons a as ih =>
    have hp : p a = false := by
      have := List.filter_eq_nil_iff.1 h a (by simp)
      simpa using this
    rw [List.filter_cons, hp] at h
    simp only [Bool.false_eq_true, if_false] at h
    simp only [List.cons_append, substitute, hp, Bool.false_eq_true, if_false, ih h]

/-! ## The simulation -/

/-- Where the blocks and the draft of a document stand when only findings from line `c` on are
left: some blocks `before`, the current block `cur`, which holds the lines from `c` to `m` and
perhaps some before them, and the untouched lines behind line `m`. -/
structure Tracks (lines : List Text) (c : Nat) (bs : List Block) (d : Draft) (before : List Block)
    (cur : Block) (m : Nat) : Prop where
  blocks : bs = before ++ cur :: singles (m + 1) (lines.drop m)
  front : ∃ k, k < c ∧ origins before = List.range' 1 k ∧ cur.origin = List.range' (k + 1) (m - k)
  low : c ≤ m
  high : m ≤ lines.length
  text : d.lines = contents bs
  spans_length : d.spans.length = lines.length
  /-- The spans of the current block, as far as they are still looked up. -/
  held : ∀ i, c ≤ i → i ≤ m →
    d.spans[i - 1]? = some ⟨(contents before).length, (contents before).length + cur.content.length⟩
  /-- The spans of the untouched lines. -/
  free : ∀ i, m < i → i ≤ lines.length →
    d.spans[i - 1]? = some
      ⟨(contents before).length + cur.content.length + (i - m - 1),
        (contents before).length + cur.content.length + (i - m)⟩

theorem tracks_ofLines (t : Text) (ts : List Text) :
    Tracks (t :: ts) 1 (singles 1 (t :: ts)) (Draft.ofLines (t :: ts)) [] ⟨[1], [t]⟩ 1 where
  blocks := rfl
  front := ⟨0, by omega, rfl, rfl⟩
  low := Nat.le_refl 1
  high := by simp
  text := (contents_singles (t :: ts) 1).symm
  spans_length := by simp [Draft.ofLines]
  held i hc hm := by
    obtain rfl : i = 1 := by omega
    simp [Draft.ofLines, contents]
  free i hm hn := by
    have hlt : i - 1 < (t :: ts).length := by omega
    simp only [Draft.ofLines, List.getElem?_map, List.getElem?_range hlt, contents,
      List.flatMap_nil, List.length_nil, List.length_singleton, Option.map_some,
      Option.some.injEq, Span.mk.injEq]
    omega

/-- The point of view moves to a later line: if that line is not in the current block, the lines up
to it are passed and it becomes the current block itself. -/
theorem Tracks.advance {lines : List Text} {c m : Nat} {bs before : List Block} {d : Draft}
    {cur : Block} (h : Tracks lines c bs d before cur m) {a : Nat} (hca : c ≤ a)
    (han : a ≤ lines.length) : ∃ before' cur' m', Tracks lines a bs d before' cur' m' := by
  obtain ⟨k, hk, hbo, hco⟩ := h.front
  by_cases ham : a ≤ m
  · exact ⟨before, cur, m, { h with
      front := ⟨k, by omega, hbo, hco⟩
      low := ham
      held := fun i hi hm => h.held i (by omega) hm }⟩
  · have hma : m + (a - 1 - m) = a - 1 := by omega
    obtain ⟨t, ht⟩ : ∃ t, lines.drop (a - 1) = t :: lines.drop a := by
      have hlt : a - 1 < lines.length := by omega
      refine ⟨lines[a - 1], ?_⟩
      rw [List.drop_eq_getElem_cons hlt, show a - 1 + 1 = a by omega]
    have hsplit := singles_drop_split lines m (a - 1 - m) (by omega)
    rw [hma, ht, show a - 1 + 1 = a by omega, singles] at hsplit
    have hpassed : ((lines.drop m).take (a - 1 - m)).length = a - 1 - m := by
      rw [List.length_take, List.length_drop]; omega
    have hlen : (contents (before ++ cur ::
        singles (m + 1) ((lines.drop m).take (a - 1 - m)))).length =
          (contents before).length + cur.content.length + (a - 1 - m) := by
      rw [contents_append, contents_cons, contents_singles, List.length_append, List.length_append,
        hpassed]
      omega
    refine ⟨before ++ cur :: singles (m + 1) ((lines.drop m).take (a - 1 - m)), ⟨[a], [t]⟩, a, ?_⟩
    have hlow := h.low
    exact {
      blocks := by rw [h.blocks, hsplit]; simp
      front := by
        refine ⟨a - 1, by omega, ?_, ?_⟩
        · rw [origins_append, origins_cons, origins_singles, hbo, hco, hpassed,
            show k + 1 = 1 + k by omega, show m + 1 = 1 + k + (m - k) by omega,
            List.range'_append_1, List.range'_append_1]
          congr 1
          omega
        · rw [show a - 1 + 1 = a by omega, show a - (a - 1) = 1 by omega]
          rfl
      low := Nat.le_refl a
      high := han
      text := h.text
      spans_length := h.spans_length
      held := by
        intro i hai hia
        rw [h.free i (by omega) (by omega), hlen]
        simp only [List.length_singleton, Option.some.injEq, Span.mk.injEq]
        omega
      free := by
        intro i hai hin
        rw [h.free i (by omega) hin, hlen]
        simp only [List.length_singleton, Option.some.injEq, Span.mk.injEq]
        omega }

/-! ## One finding, seen from its own line -/

section
variable {lines : List Text} {a m : Nat} {bs before : List Block} {d : Draft} {cur : Block}

theorem Tracks.before_lt (h : Tracks lines a bs d before cur m) (b : Nat) :
    ∀ i ∈ origins before, i < a ∨ b < i := by
  obtain ⟨k, hk, hbo, -⟩ := h.front
  intro i hi
  rw [hbo, List.mem_range'_1] at hi
  omega

theorem Tracks.cur_meets (h : Tracks lines a bs d before cur m) {b : Nat} (hab : a ≤ b) :
    meets a b cur = true := by
  obtain ⟨k, hk, -, hco⟩ := h.front
  have hlow := h.low
  refine (meets_iff a b cur).2 ⟨a, ?_, Nat.le_refl a, hab⟩
  rw [hco, List.mem_range'_1]
  omega

/-- Of the untouched lines, exactly those up to line `b` meet the range. -/
theorem Tracks.split_untouched (h : Tracks lines a bs d before cur m) {b : Nat}
    (hbn : b ≤ lines.length) :
    singles (m + 1) (lines.drop m) = singles (m + 1) ((lines.drop m).take (b - m)) ++
      singles (m + (b - m) + 1) (lines.drop (m + (b - m))) ∧
    (singles (m + 1) ((lines.drop m).take (b - m))).filter (meets a b) =
      singles (m + 1) ((lines.drop m).take (b - m)) ∧
    (singles (m + 1) ((lines.drop m).take (b - m))).filter (!meets a b ·) = [] ∧
    ∀ i ∈ origins (singles (m + (b - m) + 1) (lines.drop (m + (b - m)))), i < a ∨ b < i := by
  have hlow := h.low
  have hhigh := h.high
  have htaken : ((lines.drop m).take (b - m)).length = b - m := by
    rw [List.length_take, List.length_drop]; omega
  refine ⟨singles_drop_split lines m (b - m) (by omega), ?_⟩
  by_cases hbm : b ≤ m
  · rw [show b - m = 0 by omega]
    refine ⟨rfl, rfl, fun i hi => ?_⟩
    rw [origins_singles, List.mem_range'_1] at hi
    omega
  · obtain ⟨h1, h2⟩ := filter_meets_singles a b ((lines.drop m).take (b - m)) (m + 1) (by omega)
      (by omega)
    refine ⟨h1, h2, fun i hi => ?_⟩
    rw [origins_singles, List.mem_range'_1] at hi
    omega

theorem Tracks.filter_meets (h : Tracks lines a bs d before cur m) {b : Nat} (hab : a ≤ b)
    (hbn : b ≤ lines.length) :
    bs.filter (meets a b) = cur :: singles (m + 1) ((lines.drop m).take (b - m)) := by
  obtain ⟨hsplit, hmet, -, hbehind⟩ := h.split_untouched hbn
  rw [h.blocks, hsplit, List.filter_append, filter_meets_behind a b before (h.before_lt b),
    List.filter_cons, h.cur_meets hab, if_pos rfl, List.filter_append, hmet,
    filter_meets_behind a b _ hbehind, List.append_nil, List.nil_append]

theorem Tracks.merge_eq (h : Tracks lines a bs d before cur m) {b : Nat} (hab : a ≤ b)
    (hbn : b ≤ lines.length) (out : List Text) :
    merge a b out bs = before ++ ⟨cur.origin ++ List.range' (m + 1) (b - m), out⟩ ::
      singles (m + (b - m) + 1) (lines.drop (m + (b - m))) := by
  obtain ⟨hsplit, -, hnot, hbehind⟩ := h.split_untouched hbn
  have hhigh := h.high
  have htaken : ((lines.drop m).take (b - m)).length = b - m := by
    rw [List.length_take, List.length_drop]; omega
  unfold merge
  rw [h.filter_meets hab hbn, origins_cons, origins_singles, htaken, h.blocks, hsplit,
    substitute_append _ _ _ _ (filter_meets_behind a b before (h.before_lt b)), substitute,
    if_pos (h.cur_meets hab), List.filter_append, hnot, filter_not_meets_behind a b _ hbehind,
    List.nil_append]

theorem Tracks.range_eq (h : Tracks lines a bs d before cur m) {b : Nat} (hab : a ≤ b)
    (hbn : b ≤ lines.length) :
    d.range? a b =
      if cur.content.length + (b - m) = 0 then none
      else some ⟨(contents before).length,
        (contents before).length + cur.content.length + (b - m)⟩ := by
  obtain ⟨k, hk, -, -⟩ := h.front
  have hlow := h.low
  have hstart := h.held a (Nat.le_refl a) hlow
  have hstop : ∃ s, d.spans[b - 1]? = some
      ⟨s, (contents before).length + cur.content.length + (b - m)⟩ := by
    by_cases hbm : b ≤ m
    · rw [show b - m = 0 by omega]
      exact ⟨_, h.held b hab hbm⟩
    · exact ⟨_, h.free b (by omega) hbn⟩
  obtain ⟨s, hs⟩ := hstop
  have hin : ((a : Int) < 1 || (b : Int) < a || (d.spans.length : Int) < b) = false := by
    rw [h.spans_length]
    simp only [Bool.or_eq_false_iff, decide_eq_false_iff_not]
    omega
  unfold Draft.range?
  rw [hin]
  simp only [Bool.false_eq_true, if_false, Int.toNat_natCast, hstart, hs]
  congr 1
  rw [eq_iff_iff]
  omega

/-- The lines a fix gets to see are the contents of the blocks that meet its range. -/
theorem Tracks.fragment_eq (h : Tracks lines a bs d before cur m) {b : Nat} (hab : a ≤ b)
    (hbn : b ≤ lines.length) :
    (d.lines.drop (contents before).length).take (cur.content.length + (b - m)) =
      contents (bs.filter (meets a b)) := by
  have hhigh := h.high
  rw [h.filter_meets hab hbn, h.text, h.blocks, contents_append, List.drop_left, contents_cons,
    contents_singles, contents_cons, contents_singles, List.take_length_add_append]

/-- Replacing the lines in the draft and merging the blocks stay in step. -/
theorem Tracks.replace (h : Tracks lines a bs d before cur m) {b : Nat} (hab : a ≤ b)
    (hbn : b ≤ lines.length) (hsome : cur.content.length + (b - m) ≠ 0) (out : List Text) :
    Tracks lines a (merge a b out bs)
      (d.replace (contents before).length
        ((contents before).length + cur.content.length + (b - m)) out)
      before ⟨cur.origin ++ List.range' (m + 1) (b - m), out⟩ (m + (b - m)) := by
  obtain ⟨k, hk, hbo, hco⟩ := h.front
  have hlow := h.low
  have hhigh := h.high
  exact {
    blocks := h.merge_eq hab hbn out
    front := by
      refine ⟨k, hk, hbo, ?_⟩
      simp only
      rw [hco, show m + 1 = k + 1 + (m - k) by omega, List.range'_append_1]
      congr 1
      omega
    low := by omega
    high := by omega
    text := by
      rw [h.merge_eq hab hbn out, contents_append, contents_cons, contents_singles]
      unfold Draft.replace
      simp only
      rw [h.text, h.blocks, contents_append, List.take_left, contents_cons, contents_singles,
        Nat.add_assoc, List.drop_length_add_append, List.drop_length_add_append, List.drop_drop,
        List.append_assoc]
    spans_length := by simp [Draft.replace, h.spans_length]
    held := by
      intro i hai him
      unfold Draft.replace
      simp only [List.getElem?_map]
      by_cases hm : i ≤ m
      · rw [h.held i hai hm]
        simp only [Option.map_some, Span.collapse, Option.some.injEq]
        rw [if_pos]
        simp only [Bool.or_eq_true, Bool.and_eq_true, decide_eq_true_eq, beq_iff_eq]
        omega
      · rw [h.free i (by omega) (by omega)]
        simp only [Option.map_some, Span.collapse, Option.some.injEq]
        rw [if_pos]
        simp only [Bool.or_eq_true, Bool.and_eq_true, decide_eq_true_eq, beq_iff_eq]
        omega
    free := by
      intro i hmi hin
      unfold Draft.replace
      simp only [List.getElem?_map]
      rw [h.free i (by omega) hin]
      simp only [Option.map_some, Span.collapse, Option.some.injEq]
      rw [if_neg, if_pos]
      · simp only [Span.mk.injEq]
        omega
      · omega
      · simp only [Bool.or_eq_true, Bool.and_eq_true, decide_eq_true_eq, beq_iff_eq]
        omega }

/-- A finding in range whose rule is known: draft and blocks do the same with its fix. -/
theorem Tracks.apply_at (h : Tracks lines a bs d before cur m) (fixes : Text → Option Fix)
    (l : Language) (f : Finding) {b : Nat} (hline : f.line = a) (hend : f.endLine = b)
    (hab : a ≤ b) (hbn : b ≤ lines.length) :
    ∃ cur' m', Tracks lines a (mend lines.length fixes l bs f) (Draft.apply fixes l d f) before
      cur' m' := by
  obtain ⟨k, hk, -, -⟩ := h.front
  have hin : (1 : Int) ≤ a ∧ (a : Int) ≤ b ∧ (b : Int) ≤ (lines.length : Int) := by omega
  unfold mend Draft.apply
  rw [hline, hend]
  cases hfix : fixes f.ruleId with
  | none => exact ⟨cur, m, h⟩
  | some fix =>
    simp only [if_pos hin]
    have hmet : (contents (bs.filter (meets a b))).length = cur.content.length + (b - m) := by
      have hhigh := h.high
      rw [h.filter_meets hab hbn, contents_cons, contents_singles, List.length_append,
        List.length_take, List.length_drop]
      omega
    by_cases hsome : cur.content.length + (b - m) = 0
    · rw [hsome, List.length_eq_zero_iff] at hmet
      rw [h.range_eq hab hbn, if_pos hsome, if_pos hmet]
      exact ⟨cur, m, h⟩
    · have hne : contents (bs.filter (meets a b)) ≠ [] := by
        intro hnil
        rw [hnil] at hmet
        exact hsome hmet.symm
      rw [h.range_eq hab hbn, if_neg hsome, if_neg hne]
      simp only
      rw [show (contents before).length + cur.content.length + (b - m) - (contents before).length =
        cur.content.length + (b - m) by omega, h.fragment_eq hab hbn]
      cases fix (contents (bs.filter (meets a b))) l with
      | none => exact ⟨cur, m, h⟩
      | some out =>
        simp only
        split
        · exact ⟨cur, m, h⟩
        · exact ⟨_, _, h.replace hab hbn hsome out⟩

end

/-- One finding, seen from any earlier line. -/
theorem Tracks.apply {lines : List Text} {c m : Nat} {bs before : List Block} {d : Draft}
    {cur : Block} (h : Tracks lines c bs d before cur m) (fixes : Text → Option Fix) (l : Language)
    (f : Finding) (hc : 1 ≤ f.line → (c : Int) ≤ f.line) :
    ∃ c' before' cur' m', (c' = c ∨ (c' : Int) = f.line) ∧
      Tracks lines c' (mend lines.length fixes l bs f) (Draft.apply fixes l d f) before' cur'
        m' := by
  by_cases hin : 1 ≤ f.line ∧ f.line ≤ f.endLine ∧ f.endLine ≤ (lines.length : Int)
  · obtain ⟨a, ha⟩ := Int.eq_ofNat_of_zero_le (show 0 ≤ f.line by omega)
    obtain ⟨b, hb⟩ := Int.eq_ofNat_of_zero_le (show 0 ≤ f.endLine by omega)
    have hca := hc hin.1
    obtain ⟨before', cur', m', h'⟩ := h.advance (a := a) (by omega) (by omega)
    obtain ⟨cur'', m'', h''⟩ := h'.apply_at fixes l f ha hb (by omega) (by omega)
    exact ⟨a, before', cur'', m'', Or.inr ha.symm, h''⟩
  · have hmend : mend lines.length fixes l bs f = bs := by
      unfold mend
      split
      · rfl
      · rw [if_neg hin]
    have hrange : d.range? f.line f.endLine = none := by
      unfold Draft.range?
      rw [if_pos]
      rw [h.spans_length]
      simp only [Bool.or_eq_true, decide_eq_true_eq]
      omega
    have happly : Draft.apply fixes l d f = d := by
      unfold Draft.apply
      rw [hrange]
      cases fixes f.ruleId <;> rfl
    rw [hmend, happly]
    exact ⟨c, before, cur, m, Or.inl rfl, h⟩

/-- All findings, in the order of their lines. -/
theorem Tracks.foldl_apply {lines : List Text} (fixes : Text → Option Fix) (l : Language)
    (fs : List Finding) :
    ∀ {c m : Nat} {bs before : List Block} {d : Draft} {cur : Block},
      Tracks lines c bs d before cur m → fs.Pairwise (fun f g => f.line ≤ g.line) →
      (∀ f ∈ fs, 1 ≤ f.line → (c : Int) ≤ f.line) →
      ∃ c' before' cur' m', Tracks lines c' (fs.foldl (mend lines.length fixes l) bs)
        (fs.foldl (Draft.apply fixes l) d) before' cur' m' := by
  induction fs with
  | nil => intro c m bs before d cur h _ _; exact ⟨c, before, cur, m, h⟩
  | cons f fs ih =>
    intro c m bs before d cur h hsorted hc
    obtain ⟨hf, hfs⟩ := List.pairwise_cons.1 hsorted
    obtain ⟨c', before', cur', m', hc', h'⟩ := h.apply fixes l f (hc f (by simp))
    refine ih h' hfs fun g hg hg1 => ?_
    rcases hc' with rfl | hc'
    · exact hc g (by simp [hg]) hg1
    · rw [hc']
      exact hf g hg

/-- The blocks always keep the lines of the document in order. -/
theorem Tracks.origins_eq {lines : List Text} {c m : Nat} {bs before : List Block} {d : Draft}
    {cur : Block} (h : Tracks lines c bs d before cur m) :
    origins bs = List.range' 1 lines.length := by
  obtain ⟨k, hk, hbo, hco⟩ := h.front
  have hlow := h.low
  have hhigh := h.high
  rw [h.blocks, origins_append, origins_cons, origins_singles, hbo, hco, List.length_drop,
    show k + 1 = 1 + k by omega, show m + 1 = 1 + k + (m - k) by omega, List.range'_append_1,
    List.range'_append_1]
  congr 1
  omega

/-- **Simulation.** Over findings in the order of their lines, the draft holds the contents of the
blocks, which keep the lines of the document in order. -/
theorem contents_mend_eq (lines : List Text) (hne : lines ≠ []) (fixes : Text → Option Fix)
    (l : Language) (fs : List Finding) (hsorted : fs.Pairwise (fun f g => f.line ≤ g.line)) :
    (fs.foldl (Draft.apply fixes l) (Draft.ofLines lines)).lines =
        contents (fs.foldl (mend lines.length fixes l) (singles 1 lines)) ∧
      origins (fs.foldl (mend lines.length fixes l) (singles 1 lines)) =
        List.range' 1 lines.length := by
  cases lines with
  | nil => exact absurd rfl hne
  | cons t ts =>
    obtain ⟨c, before, cur, m, h⟩ := (tracks_ofLines t ts).foldl_apply fixes l fs hsorted
      (fun f _ hf => hf)
    exact ⟨h.text, h.origins_eq⟩

/-! ## Lines that no finding is about -/

theorem mem_substitute_of_not {p : Block → Bool} {new b : Block} (hp : p b = false) :
    ∀ {bs : List Block}, b ∈ bs → b ∈ substitute p new bs := by
  intro bs hb
  induction bs with
  | nil => cases hb
  | cons x bs ih =>
    unfold substitute
    split
    · rename_i hx
      rcases List.mem_cons.1 hb with rfl | hb
      · rw [hp] at hx; cases hx
      · exact List.mem_cons_of_mem _ (List.mem_filter.2 ⟨hb, by simp [hp]⟩)
    · rcases List.mem_cons.1 hb with rfl | hb
      · exact List.mem_cons_self
      · exact List.mem_cons_of_mem _ (ih hb)

/-- A block that does not meet the lines of a finding stays. -/
theorem mem_mend_of_not_meets (n : Nat) (fixes : Text → Option Fix) (l : Language)
    {bs : List Block} {f : Finding} {b : Block} (hb : b ∈ bs)
    (hm : meets f.line f.endLine b = false) : b ∈ mend n fixes l bs f := by
  unfold mend
  split
  · exact hb
  · split
    · simp only
      split
      · exact hb
      · split
        · exact hb
        · split
          · exact hb
          · exact mem_substitute_of_not hm hb
    · exact hb

theorem mem_foldl_mend (n : Nat) (fixes : Text → Option Fix) (l : Language) {b : Block}
    (fs : List Finding) (hm : ∀ f ∈ fs, meets f.line f.endLine b = false) :
    ∀ {bs : List Block}, b ∈ bs → b ∈ fs.foldl (mend n fixes l) bs := by
  induction fs with
  | nil => intro bs hb; exact hb
  | cons f fs ih =>
    intro bs hb
    have hf := mem_mend_of_not_meets n fixes l hb (hm f (by simp))
    exact ih (fun g hg => hm g (by simp [hg])) hf

theorem mem_singles {t : Text} (ts : List Text) :
    ∀ (n i : Nat), ts[i]? = some t → ⟨[n + i], [t]⟩ ∈ singles n ts := by
  induction ts with
  | nil => intro n i h; simp at h
  | cons u ts ih =>
    intro n i h
    cases i with
    | zero =>
      simp only [List.getElem?_cons_zero, Option.some.injEq] at h
      simp [singles, h]
    | succ i =>
      have := ih (n + 1) i (by simpa using h)
      rw [show n + 1 + i = n + (i + 1) by omega] at this
      exact List.mem_cons_of_mem _ this

/-- A block of one line stands between the blocks of the lines before it and of those behind it. -/
theorem split_at_single {bs : List Block} {n i : Nat} {out : List Text}
    (ho : origins bs = List.range' 1 n) (hb : ⟨[i + 1], out⟩ ∈ bs) :
    ∃ before after, bs = before ++ ⟨[i + 1], out⟩ :: after ∧ origins before = List.range' 1 i ∧
      origins after = List.range' (i + 2) (n - (i + 1)) := by
  obtain ⟨before, after, rfl⟩ := List.append_of_mem hb
  rw [origins_append, origins_cons] at ho
  have hlen := congrArg List.length ho
  simp only [List.length_append, List.length_cons, List.length_nil, List.length_range'] at hlen
  have hat : (List.range' 1 n)[(origins before).length]? = some (i + 1) := by
    rw [← ho, List.getElem?_append_right (Nat.le_refl _)]
    simp
  rw [List.getElem?_range' (by omega), Option.some.injEq] at hat
  have hi : (origins before).length = i := by omega
  have hcut : List.range' 1 n = List.range' 1 i ++
      ([i + 1] ++ List.range' (i + 2) (n - (i + 1))) := by
    rw [show n = i + (1 + (n - (i + 1))) by omega, ← List.range'_append_1, ← List.range'_append_1,
      show 1 + i = i + 1 by omega, show i + (1 + (n - (i + 1))) - (i + 1) = n - (i + 1) by omega]
    rfl
  rw [hcut] at ho
  obtain ⟨h1, h2⟩ := List.append_inj ho (by rw [hi, List.length_range'])
  obtain ⟨-, h3⟩ := List.append_inj h2 rfl
  exact ⟨before, after, rfl, h1, h3⟩

end Block

/-- **Remediation is a rewriting of blocks.** The findings are taken in stable order, each as
`Block.mend` says, and the text is that of the blocks in the end. The blocks stand for the lines of
the document in order, and a line in no finding's range is still a block of its own, unchanged,
between what the lines before it and those behind it have become. -/
theorem remediate_eq_blocks (doc : Document) (l : Language) (findings : List Finding)
    (fixes : Text → Option Fix) :
    ∃ ordered, Finding.StableOrder findings ordered ∧ ∃ bs,
      bs = ordered.foldl (Block.mend doc.lineCount fixes l) (Block.singles 1 doc.lines) ∧
      remediate doc l findings fixes = Text.unlines (Block.contents bs) ∧
      (findings = [] → remediate doc l findings fixes = doc.text) ∧
      Block.origins bs = List.range' 1 doc.lineCount ∧
      ∀ (i : Nat) (line : Text), doc.lines[i]? = some line →
        (∀ f ∈ findings, ¬ (f.line ≤ i + 1 ∧ i + 1 ≤ f.endLine)) →
        ∃ before after, bs = before ++ ⟨[i + 1], [line]⟩ :: after ∧
          Block.origins before = List.range' 1 i ∧
          Block.origins after = List.range' (i + 2) (doc.lineCount - (i + 1)) := by
  have hstable := Finding.stableOrder_mergeSort findings
  have hsorted : (findings.mergeSort Finding.le).Pairwise fun f g => f.line ≤ g.line := by
    refine hstable.sorted.imp fun {f g} hfg => ?_
    exact Finding.line_le_of_le ((Finding.le_iff_not_before f g).2 hfg)
  obtain ⟨htext, horigins⟩ := Block.contents_mend_eq doc.lines
    (Text.splitOn_ne_nil Text.newline doc.text) fixes l _ hsorted
  refine ⟨findings.mergeSort Finding.le, hstable, _, rfl, ?_, ?_, horigins, ?_⟩
  · unfold remediate
    cases findings with
    | nil =>
      simp only [List.isEmpty_nil, if_true, List.mergeSort_nil, List.foldl_nil,
        Block.contents_singles]
      exact (Text.unlines_lines doc.text).symm
    | cons f fs =>
      simp only [List.isEmpty_cons, Bool.false_eq_true, if_false]
      rw [htext]
      rfl
  · rintro rfl
    rfl
  · intro i line hline hout
    refine Block.split_at_single horigins ?_
    have hmem := Block.mem_singles doc.lines 1 i hline
    rw [show 1 + i = i + 1 by omega] at hmem
    refine Block.mem_foldl_mend _ fixes l _ (fun f hf => ?_) hmem
    have := hout f (hstable.perm.mem_iff.1 hf)
    simp only [Block.meets, List.any_cons, List.any_nil, Bool.or_false, Bool.and_eq_false_iff,
      decide_eq_false_iff_not]
    omega

/-- Of four lines the middle two are deleted by one rule, and a later rule finds nothing left to fix
on the third; the fourth line stays. -/
theorem last_line_kept_behind_deletion :
    let doc : Document := ⟨[97, 10, 98, 10, 99, 10, 100]⟩
    let findings : List Finding :=
      [{ (default : Finding) with ruleId := [50], line := 3, endLine := 3 },
        { (default : Finding) with ruleId := [49], line := 2, endLine := 3 }]
    let fixes : Text → Option Fix := fun id =>
      if id = [49] then some fun _ _ => some [] else some fun lines _ => some (lines ++ lines)
    (∀ f ∈ findings, ¬ (f.line ≤ (3 : Nat) + 1 ∧ (3 : Nat) + 1 ≤ f.endLine)) ∧
      ∃ bs before after, bs = before ++ ⟨[4], [[100]]⟩ :: after ∧
        Block.origins before = [1, 2, 3] ∧ Block.origins after = [] ∧
        remediate doc .general findings fixes = Text.unlines (Block.contents bs) := by
  intro doc findings fixes
  have hout : ∀ f ∈ findings, ¬ (f.line ≤ (3 : Nat) + 1 ∧ (3 : Nat) + 1 ≤ f.endLine) := by decide
  obtain ⟨ordered, -, bs, -, htext, -, -, hkeep⟩ :=
    remediate_eq_blocks doc .general findings fixes
  obtain ⟨before, after, hbs, hbefore, hafter⟩ := hkeep 3 [100] (by decide) hout
  exact ⟨hout, bs, before, after, hbs, hbefore, hafter, htext⟩

end CodeAudit
