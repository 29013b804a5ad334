import CodeAudit.Remediation
import Mathlib.Data.List.Induction

/-!
# The spans of a draft

A draft keeps a span for every line of the document it was made from. Replacements may come in any
order, may delete lines and may hit lines that were replaced before. The spans always tile the lines
of the draft: they lie in it one behind the other, two of them are the same or apart, and no line is
left out.

**Step (`Draft.Tiled.replace`).** A span that meets the replaced lines lies within them, because the
range starts with one span and ends with another. So each span is before the range, in it or behind
it (`Span.place_collapse`), and a span without lines counts as in it where it stands at its
beginning and as behind it at its end.

**Results.**
* `Draft.Tiled`: the invariant, and what follows from it for two spans.
* `tiled_foldl_edit`, `tiled_foldl_apply`: it holds after any edits, and after the fixes of any
  findings.
* `spans_tile_lines`: the tiling, spelled out.
-/
namespace CodeAudit

/-- Where a span is when the lines from `first` to `last` are replaced by `n` lines, and what it
becomes. -/
inductive Span.Place (first last n : Nat) (s : Span) : Span → Prop where
  | before (hstart : s.start < first) (hstop : s.stop ≤ first) : s.Place first last n s
  | within (hfirst : first ≤ s.start) (hstart : s.start < last) (hstop : s.stop ≤ last) :
      s.Place first last n ⟨first, first + n⟩
  | behind (hlast : last ≤ s.start) :
      s.Place first last n ⟨s.start + n - (last - first), s.stop + n - (last - first)⟩

/-- A span that is not cut by the ends of the range is before it, in it or behind it. -/
theorem Span.place_collapse {first last : Nat} (n : Nat) {s : Span} (hs : s.start ≤ s.stop)
    (hwhole : s.start < last → first < s.stop → first ≤ s.start ∧ s.stop ≤ last) :
    s.Place first last n (s.collapse first last n) := by
  have hmeets : ((s.start < last && first < s.stop) ||
      (s.start == s.stop && first ≤ s.start && s.start < last)) =
      true ↔ s.start < last ∧ (first < s.stop ∨ s.start = s.stop ∧ first ≤ s.start) := by
    simp only [Bool.or_eq_true, Bool.and_eq_true, decide_eq_true_eq, beq_iff_eq]
    omega
  unfold Span.collapse
  by_cases hmet : s.start < last ∧ (first < s.stop ∨ s.start = s.stop ∧ first ≤ s.start)
  · rw [if_pos (hmeets.2 hmet)]
    exact .within (by omega) (by omega) (by omega)
  rw [if_neg (mt hmeets.1 hmet)]
  by_cases hbehind : last ≤ s.start
  · rw [if_pos hbehind]
    exact .behind hbehind
  · rw [if_neg hbehind]
    exact .before (by omega) (by omega)

section
variable {first last n : Nat} {s t s' t' : Span}

/-- A span in range stays in range. -/
theorem Span.Place.valid (h : s.Place first last n s') (hrange : first < last) {length : Nat}
    (hlast : last ≤ length) (hs : s.start ≤ s.stop ∧ s.stop ≤ length) :
    s'.start ≤ s'.stop ∧ s'.stop ≤ length + n - (last - first) := by
  cases h with
  | before => omega
  | within => simp only; omega
  | behind => simp only; omega

/-- A span that ends before another does so afterwards, or both have become the new lines. -/
theorem Span.Place.ordered (hs : s.Place first last n s') (ht : t.Place first last n t')
    (hrange : first < last)
    (hvalid : s.start ≤ s.stop) (hst : s.stop ≤ t.start) : s' = t' ∨ s'.stop ≤ t'.start := by
  cases hs with
  | before hstart hstop =>
    cases ht with
    | before => exact .inr hst
    | within => exact .inr hstop
    | behind => exact .inr (by simp only; omega)
  | within =>
    cases ht with
    | before => omega
    | within => exact .inl rfl
    | behind => exact .inr (by simp only; omega)
  | behind =>
    cases ht with
    | before => omega
    | within => omega
    | behind => exact .inr (by simp only; omega)

/-- A line before the range stays in its span. -/
theorem Span.Place.covers_before (h : s.Place first last n s') (hrange : first < last) {k : Nat}
    (hk : k < first) (hs : s.start ≤ k ∧ k < s.stop) : s'.start ≤ k ∧ k < s'.stop := by
  cases h with
  | before => exact hs
  | within => omega
  | behind => omega

/-- A line behind the range stays in its span as both move. -/
theorem Span.Place.covers_behind (h : s.Place first last n s') (hrange : first < last) {k : Nat}
    (hk : last ≤ k) (hs : s.start ≤ k ∧ k < s.stop) :
    s'.start ≤ k + n - (last - first) ∧ k + n - (last - first) < s'.stop := by
  cases h with
  | before => omega
  | within => omega
  | behind => simp only; omega

/-- The span that the range starts with becomes the new lines. -/
theorem Span.Place.eq_new (h : s.Place s.start last n s') (hrange : s.start < last) :
    s' = ⟨s.start, s.start + n⟩ := by
  cases h with
  | before => omega
  | within => rfl
  | behind => omega

end

namespace Draft

/-- The spans tile the lines: they are in range, each is the same as the next or ends before it, and
every line is in one of them. -/
structure Tiled (d : Draft) : Prop where
  valid : ∀ s ∈ d.spans, s.start ≤ s.stop ∧ s.stop ≤ d.lines.length
  ordered : d.spans.Pairwise fun s t => s = t ∨ s.stop ≤ t.start
  covered : ∀ k < d.lines.length, ∃ s ∈ d.spans, s.start ≤ k ∧ k < s.stop

theorem tiled_ofLines (lines : List Text) : (ofLines lines).Tiled where
  valid s hs := by
    obtain ⟨i, hi, rfl⟩ := List.mem_map.1 hs
    exact ⟨Nat.le_succ i, List.mem_range.1 hi⟩
  ordered := by
    rw [ofLines, List.pairwise_map]
    exact List.pairwise_lt_range.imp fun hlt => .inr hlt
  covered k hk := ⟨⟨k, k + 1⟩, List.mem_map.2 ⟨k, List.mem_range.2 hk, rfl⟩, Nat.le_refl k,
    Nat.lt_succ_self k⟩

variable {d : Draft}

/-- Two spans are the same or one ends before the other. -/
theorem Tiled.eq_or_apart (h : d.Tiled) {s t : Span} (hs : s ∈ d.spans) (ht : t ∈ d.spans) :
    s = t ∨ s.stop ≤ t.start ∨ t.stop ≤ s.start := by
  obtain ⟨i, hi, rfl⟩ := List.getElem_of_mem hs
  obtain ⟨j, hj, rfl⟩ := List.getElem_of_mem ht
  have hordered := List.pairwise_iff_getElem.1 h.ordered
  rcases Nat.lt_trichotomy i j with hlt | rfl | hgt
  · exact (hordered i j hi hj hlt).imp_right .inl
  · exact .inl rfl
  · exact (hordered j i hj hi hgt).imp Eq.symm .inr

/-- The lines from the beginning of one span to the end of another cut no span. -/
theorem Tiled.place (h : d.Tiled) {a b s : Span} (ha : a ∈ d.spans) (hb : b ∈ d.spans)
    (hs : s ∈ d.spans) (n : Nat) :
    s.Place a.start b.stop n (s.collapse a.start b.stop n) := by
  have hva := (h.valid a ha).1
  have hvb := (h.valid b hb).1
  refine Span.place_collapse n (h.valid s hs).1 fun hlast hfirst => ⟨?_, ?_⟩
  · rcases h.eq_or_apart ha hs with rfl | hle | hle <;> omega
  · rcases h.eq_or_apart hs hb with rfl | hle | hle <;> omega

theorem Tiled.replace (h : d.Tiled) {a b : Span} (ha : a ∈ d.spans) (hb : b ∈ d.spans)
    (hrange : a.start < b.stop) (out : List Text) : (d.replace a.start b.stop out).Tiled := by
  have hva := h.valid a ha
  have hvb := h.valid b hb
  have hlength : (d.replace a.start b.stop out).lines.length =
      d.lines.length + out.length - (b.stop - a.start) := by
    simp only [Draft.replace, List.length_append, List.length_take, List.length_drop]
    omega
  have hplace := fun s (hs : s ∈ d.spans) => h.place ha hb hs out.length
  refine ⟨?_, ?_, ?_⟩
  · rw [hlength]
    exact List.forall_mem_map.2 fun s hs => (hplace s hs).valid hrange hvb.2 (h.valid s hs)
  · rw [Draft.replace, List.pairwise_map]
    refine h.ordered.imp_of_mem fun hs ht hst => ?_
    rcases hst with rfl | hst
    · exact .inl rfl
    · exact (hplace _ hs).ordered (hplace _ ht) hrange (h.valid _ hs).1 hst
  · rw [hlength]
    intro k hk
    by_cases hbefore : k < a.start
    · obtain ⟨s, hs, hcover⟩ := h.covered k (by omega)
      exact ⟨_, List.mem_map_of_mem hs, (hplace s hs).covers_before hrange hbefore hcover⟩
    by_cases hnew : k < a.start + out.length
    · refine ⟨_, List.mem_map_of_mem ha, ?_⟩
      rw [(hplace a ha).eq_new hrange]
      exact ⟨Nat.le_of_not_lt hbefore, hnew⟩
    · -- the line that stands at `k` now stood behind the range
      have hold : b.stop ≤ k + (b.stop - a.start) - out.length := by omega
      obtain ⟨s, hs, hcover⟩ := h.covered (k + (b.stop - a.start) - out.length) (by omega)
      have hmoved := (hplace s hs).covers_behind hrange hold hcover
      rw [show k + (b.stop - a.start) - out.length + out.length - (b.stop - a.start) = k by omega]
        at hmoved
      exact ⟨_, List.mem_map_of_mem hs, hmoved⟩

/-! ## Edits -/

/-- New lines for what a range of the document's lines, numbered from 1, has become. -/
structure Edit where
  line : Int
  endLine : Int
  out : List Text
  deriving DecidableEq, Repr

/-- Makes an edit. Where the range is not in the document or nothing is left of it, there is none to
make. -/
def edit (d : Draft) (e : Edit) : Draft :=
  match d.range? e.line e.endLine with
  | some s => d.replace s.start s.stop e.out
  | none => d

/-- A range of lines goes from the beginning of one span to the end of another. -/
theorem exists_spans_of_range? {line endLine : Int} {s : Span}
    (h : d.range? line endLine = some s) :
    ∃ a ∈ d.spans, ∃ b ∈ d.spans, s = ⟨a.start, b.stop⟩ ∧ a.start < b.stop := by
  unfold range? at h
  split at h
  · cases h
  · split at h
    · rename_i a b ha hb
      split at h
      · cases h
      · exact ⟨a, List.mem_of_getElem? ha, b, List.mem_of_getElem? hb,
          (Option.some.inj h).symm, by omega⟩
    · cases h

theorem Tiled.edit (h : d.Tiled) (e : Edit) : (d.edit e).Tiled := by
  unfold Draft.edit
  split
  · rename_i s hs
    obtain ⟨a, ha, b, hb, rfl, hrange⟩ := exists_spans_of_range? hs
    exact h.replace ha hb hrange e.out
  · exact h

theorem tiled_foldl_edit (lines : List Text) (edits : List Edit) :
    (edits.foldl edit (ofLines lines)).Tiled := by
  induction edits using List.reverseRecOn with
  | nil => exact tiled_ofLines lines
  | append_singleton edits e ih =>
    rw [List.foldl_append]
    exact ih.edit e

@[simp] theorem length_spans_edit (d : Draft) (e : Edit) :
    (d.edit e).spans.length = d.spans.length := by
  unfold Draft.edit
  split
  · exact List.length_map _
  · rfl

theorem length_spans_foldl_edit (lines : List Text) (edits : List Edit) :
    (edits.foldl edit (ofLines lines)).spans.length = lines.length := by
  induction edits using List.reverseRecOn with
  | nil => simp [ofLines]
  | append_singleton edits e ih =>
    rw [List.foldl_append, List.foldl_cons, List.foldl_nil, length_spans_edit, ih]

/-- Fixing a finding is an edit, or changes nothing. -/
theorem apply_eq_edit (fixes : Text → Option Fix) (l : Language) (d : Draft) (f : Finding) :
    d.apply fixes l f = d ∨ ∃ out, d.apply fixes l f = d.edit ⟨f.line, f.endLine, out⟩ := by
  unfold apply
  split
  · rename_i fix s _ hs
    dsimp only
    split
    · rename_i out _
      split
      · exact .inl rfl
      · exact .inr ⟨out, by rw [Draft.edit, hs]⟩
    · exact .inl rfl
  · exact .inl rfl

theorem Tiled.apply (h : d.Tiled) (fixes : Text → Option Fix) (l : Language) (f : Finding) :
    (d.apply fixes l f).Tiled := by
  rcases apply_eq_edit fixes l d f with hsame | ⟨out, hedit⟩
  · rwa [hsame]
  · rw [hedit]
    exact h.edit _

/-- The spans stay a tiling while findings are fixed, whatever their order. -/
theorem tiled_foldl_apply (fixes : Text → Option Fix) (l : Language) (findings : List Finding)
    (lines : List Text) :
    (findings.foldl (apply fixes l) (ofLines lines)).Tiled := by
  induction findings using List.reverseRecOn with
  | nil => exact tiled_ofLines lines
  | append_singleton findings f ih =>
    rw [List.foldl_append]
    exact ih.apply fixes l f

/-- Later lines of the document do not start or end before earlier ones. -/
theorem Tiled.mono (h : d.Tiled) {i j : Nat} (hij : i ≤ j) {a b : Span} (ha : d.spans[i]? = some a)
    (hb : d.spans[j]? = some b) : a.start ≤ b.start ∧ a.stop ≤ b.stop := by
  have hva := (h.valid a (List.mem_of_getElem? ha)).1
  have hvb := (h.valid b (List.mem_of_getElem? hb)).1
  rcases Nat.lt_or_eq_of_le hij with hlt | rfl
  · obtain ⟨hi, rfl⟩ := List.getElem?_eq_some_iff.1 ha
    obtain ⟨hj, rfl⟩ := List.getElem?_eq_some_iff.1 hb
    rcases List.pairwise_iff_getElem.1 h.ordered i j hi hj hlt with heq | hle
    · rw [heq]
      exact ⟨Nat.le_refl _, Nat.le_refl _⟩
    · omega
  · obtain rfl := Option.some.inj (ha.symm.trans hb)
    exact ⟨Nat.le_refl _, Nat.le_refl _⟩

/-- **The spans tile the lines.** After any edits there is a span for every line of the document.
The spans are in range, they start and end in the order of the lines, two of them are the same or
apart, and every line of the draft is in one of them. -/
theorem spans_tile_lines (lines : List Text) (edits : List Edit) :
    let d := edits.foldl edit (ofLines lines)
    d.spans.length = lines.length ∧
    (∀ s ∈ d.spans, s.start ≤ s.stop ∧ s.stop ≤ d.lines.length) ∧
    (∀ (i j : Nat) (a b : Span), i ≤ j → d.spans[i]? = some a → d.spans[j]? = some b →
      a.start ≤ b.start ∧ a.stop ≤ b.stop) ∧
    (∀ a ∈ d.spans, ∀ b ∈ d.spans, a = b ∨ a.stop ≤ b.start ∨ b.stop ≤ a.start) ∧
    ∀ k < d.lines.length, ∃ s ∈ d.spans, s.start ≤ k ∧ k < s.stop := by
  intro d
  have htiled : d.Tiled := tiled_foldl_edit lines edits
  exact ⟨length_spans_foldl_edit lines edits, htiled.valid,
    fun i j a b hij ha hb => htiled.mono hij ha hb,
    fun a ha b hb => htiled.eq_or_apart ha hb, htiled.covered⟩

/-- The second line is deleted and the first one doubled; then the third is replaced, and the span
of the deleted line, which stands at its beginning, becomes the new line too. -/
example (a b c x : Text) :
    ([⟨2, 2, []⟩, ⟨1, 1, [a, a]⟩, ⟨3, 3, [x]⟩].foldl edit (ofLines [a, b, c])) =
      ⟨[a, a, x], [⟨0, 2⟩, ⟨2, 3⟩, ⟨2, 3⟩]⟩ := rfl

end Draft
end CodeAudit
