import CodeAudit.Proofs.Pattern.Cut

/-!
# Runs of a set of code points

A match of one or more code points of a set goes on as long as the code points are in the set,
because a repetition prefers to be longer. The matches of such a pattern are therefore the whole
runs, and a text in which they are replaced has one replacement for each run: `Pattern.collapse`
reads it off the runes from the left.

**Results.**
* `head?_spread`: the preferred end of a repetition is behind the whole run.
* `replaceBy_oneOrMore`: the text with every run replaced.
-/
namespace CodeAudit

/-! ## Repetitions prefer to be longer -/

theorem Cursor.head?_spread (s : CodeSet) (marks : List (Nat × Nat)) (rs : List Rune) :
    ∀ (before : Option Nat) (len : Nat) (acc : List Cursor),
      ∃ u, (spread s .none marks rs before len acc).head? = some u ∧
        u.rest = rs.dropWhile (s.contains ·.code) := by
  induction rs with
  | nil =>
    intro before len acc
    exact ⟨_, rfl, rfl⟩
  | cons r rs ih =>
    intro before len acc
    rw [spread, if_neg (by simp [Places.contains_none]), List.dropWhile_cons]
    split
    · exact ih _ _ _
    · exact ⟨_, rfl, rfl⟩

namespace Pattern

/-- One or more code points of a set, preferably more. -/
def oneOrMore (s : CodeSet) : Pattern := .seq (.one s) (.many s)

/-- The runes do not go on with one of the set. -/
def Stops (s : CodeSet) (rs : List Rune) : Prop := ∀ r ∈ rs.head?, s.contains r.code = false

theorem stops_dropWhile (s : CodeSet) (rs : List Rune) :
    Stops s (rs.dropWhile (s.contains ·.code)) := by
  intro r hr
  have h := List.head?_dropWhile_not (fun r : Rune => s.contains r.code) rs
  rw [Option.mem_def.1 hr] at h
  exact h

theorem solid_oneOrMore (s : CodeSet) : (oneOrMore s).solid = true := rfl

theorem piece_oneOrMore {s : CodeSet} {before after : Option Nat} {w : List Nat} :
    (oneOrMore s).Piece before w after ↔ w ≠ [] ∧ ∀ c ∈ w, s.contains c = true := by
  constructor
  · rintro ⟨u, v, rfl, ⟨c, rfl, hc⟩, hv⟩
    exact ⟨by simp, List.forall_mem_cons.2 ⟨hc, hv⟩⟩
  · rintro ⟨hne, hw⟩
    obtain ⟨c, v, rfl⟩ := List.exists_cons_of_ne_nil hne
    obtain ⟨hc, hv⟩ := List.forall_mem_cons.1 hw
    exact ⟨[c], v, rfl, ⟨c, rfl, hc⟩, hv⟩

section

variable {s : CodeSet} {before : Option Nat} {rs : List Rune} {u : Cursor}

theorem stops_of_attempt (h : (oneOrMore s).attempt before rs = some u) : Stops s u.rest := by
  have hrun : (oneOrMore s).attempt before rs =
      (Cursor.spreadAll s .none ([⟨before, rs, 0, []⟩].filterMap (Cursor.step s))).head? := rfl
  rw [hrun] at h
  cases hstep : Cursor.step s ⟨before, rs, 0, []⟩ with
  | none =>
    rw [List.filterMap_cons_none hstep] at h
    cases h
  | some x =>
    rw [List.filterMap_cons_some hstep] at h
    obtain ⟨y, hy, hrest⟩ := Cursor.head?_spread s x.marks x.rest x.before x.len []
    obtain rfl := Option.some.inj (hy.symm.trans h)
    rw [hrest]
    exact stops_dropWhile s x.rest

theorem stops_of_searchFrom {offset i : Nat}
    (h : (oneOrMore s).searchFrom before rs offset = some (i, u)) :
    Stops s u.rest := by
  induction rs generalizing before offset with
  | nil =>
    rw [searchFrom] at h
    obtain ⟨x, hx, heq⟩ := Option.map_eq_some_iff.1 h
    obtain ⟨-, rfl⟩ := Prod.mk.inj heq
    exact stops_of_attempt hx
  | cons r rs ih =>
    rw [searchFrom] at h
    split at h
    · rename_i x hx
      obtain ⟨-, rfl⟩ := Prod.mk.inj (Option.some.inj h)
      exact stops_of_attempt hx
    · exact ih h

/-- A gap between the runs has no code points of the set. -/
theorem Clear.not_contains {gap rest : List Rune} (h : (oneOrMore s).Clear before gap rest) :
    ∀ r ∈ gap, s.contains r.code = false := by
  intro r hr
  obtain ⟨g, g', rfl⟩ := List.append_of_mem hr
  rw [← Bool.not_eq_true]
  intro hs
  refine h g (r :: g') rfl (List.cons_ne_nil r g')
    ⟨[r], g' ++ rest, rfl, piece_oneOrMore.2 ⟨by simp, ?_⟩⟩
  simpa using hs

end

/-! ## Runs replaced -/

/-- The text of some runes with every run of the set replaced; `inside` says that a run has begun
before them. -/
def collapse (s : CodeSet) (k : Text) : Bool → List Rune → Text
  | _, [] => []
  | inside, r :: rs =>
    if s.contains r.code then (if inside then [] else k) ++ collapse s k true rs
    else r.raw ++ collapse s k false rs

section

variable {s : CodeSet} {k : Text}

theorem collapse_cons_of_contains {r : Rune} (hr : s.contains r.code = true) (inside : Bool)
    (rs : List Rune) :
    collapse s k inside (r :: rs) = (if inside then [] else k) ++ collapse s k true rs := by
  rw [collapse, if_pos hr]

theorem collapse_cons_of_not_contains {r : Rune} (hr : s.contains r.code = false) (inside : Bool)
    (rs : List Rune) : collapse s k inside (r :: rs) = r.raw ++ collapse s k false rs := by
  rw [collapse, if_neg (by rw [hr]; exact Bool.false_ne_true)]

theorem collapse_gap {gap : List Rune} (h : ∀ r ∈ gap, s.contains r.code = false) (rs : List Rune) :
    collapse s k false (gap ++ rs) = Text.ofRunes gap ++ collapse s k false rs := by
  induction gap with
  | nil => rfl
  | cons r gap ih =>
    obtain ⟨hr, hgap⟩ := List.forall_mem_cons.1 h
    rw [List.cons_append, collapse_cons_of_not_contains hr, ih hgap, Text.ofRunes_cons,
      List.append_assoc]

theorem collapse_inside {w : List Rune} (h : ∀ r ∈ w, s.contains r.code = true) (rs : List Rune) :
    collapse s k true (w ++ rs) = collapse s k true rs := by
  induction w with
  | nil => rfl
  | cons r w ih =>
    obtain ⟨hr, hw⟩ := List.forall_mem_cons.1 h
    rw [List.cons_append, collapse_cons_of_contains hr, ih hw]
    rfl

theorem collapse_of_stops {rs : List Rune} (h : Stops s rs) :
    collapse s k true rs = collapse s k false rs := by
  cases rs with
  | nil => rfl
  | cons r rs => rw [collapse_cons_of_not_contains (h r rfl),
    collapse_cons_of_not_contains (h r rfl)]

theorem collapse_run {w rs : List Rune} (hne : w ≠ []) (hw : ∀ r ∈ w, s.contains r.code = true)
    (hrs : Stops s rs) : collapse s k false (w ++ rs) = k ++ collapse s k false rs := by
  obtain ⟨r, w, rfl⟩ := List.exists_cons_of_ne_nil hne
  obtain ⟨hr, hw⟩ := List.forall_mem_cons.1 hw
  rw [List.cons_append, collapse_cons_of_contains hr, collapse_inside hw, collapse_of_stops hrs]
  rfl

theorem Cut.weave_eq_collapse {before : Option Nat} {rs rest : List Rune}
    {cuts : List (List Rune × List Rune)}
    (hcut : (oneOrMore s).Cut before rs cuts rest) (hends : Ends (Stops s) rest cuts) :
    weave (fun _ => k) cuts rest = collapse s k false rs := by
  induction hcut with
  | @rest _ rs hclear =>
    have h := collapse_gap (k := k) hclear.not_contains []
    rw [List.append_nil] at h
    rw [h, weave, collapse, List.append_nil]
    rfl
  | @piece _ gap w rs _ cuts hclear hpiece hcut ih =>
    obtain ⟨hstops, hends⟩ := hends
    rw [← hcut.runes_eq] at hstops
    obtain ⟨hne, hw⟩ := piece_oneOrMore.1 hpiece
    rw [weave_cons, ih hends, collapse_gap hclear.not_contains,
      collapse_run (by simpa using hne) (by simpa using hw) hstops]

end

/-- **Runs.** When one or more code points of a set are replaced wherever they match, each run of
them gives way to one replacement. -/
theorem replaceBy_oneOrMore (s : CodeSet) (k t : Text) :
    (oneOrMore s).replaceBy (fun _ => k) t = collapse s k false t.runes := by
  obtain ⟨cuts, rest, hcut, -, hends, -, hweave⟩ :=
    exists_cut_ends (solid_oneOrMore s) (P := Stops s) stops_of_searchFrom t
  rw [hweave fun _ => k, hcut.weave_eq_collapse hends]

end Pattern
end CodeAudit
