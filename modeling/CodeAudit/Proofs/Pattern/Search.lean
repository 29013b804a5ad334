import CodeAudit.Pattern.Basic

/-!
# The leftmost match

`Pattern.find?` tries the places of a text from left to right. `Pattern.MatchesAt` says of one place
alone that a piece of the pattern starts there, whatever was tried before.

* `find?_eq_some`: a match that is found starts where a piece starts, and none starts earlier.
* `find?_eq_none_iff`: nothing is found exactly when no piece starts anywhere.
-/
namespace CodeAudit
namespace Pattern

/-- The code point before the place behind some runes, when `before` stands before those. -/
def codeBehind (before : Option Nat) (rs : List Rune) : Option Nat :=
  rs.foldl (fun _ r => some r.code) before

/-- A piece of the pattern starts behind `k` bytes of the runes. -/
def StartsAt (p : Pattern) (before : Option Nat) (rs : List Rune) (k : Nat) : Prop :=
  ∃ pre rest, rs = pre ++ rest ∧ (Text.ofRunes pre).length = k ∧
    (p.attempt (codeBehind before pre) rest).isSome = true

/-- A piece of the pattern starts at an offset of the text. -/
def MatchesAt (p : Pattern) (t : Text) (k : Nat) : Prop := p.StartsAt none t.runes k

theorem startsAt_nil (p : Pattern) (before : Option Nat) (k : Nat) :
    p.StartsAt before [] k ↔ k = 0 ∧ (p.attempt before []).isSome = true := by
  constructor
  · rintro ⟨pre, rest, hrs, hk, hsome⟩
    obtain ⟨rfl, rfl⟩ := List.append_eq_nil_iff.1 hrs.symm
    exact ⟨hk.symm, hsome⟩
  · rintro ⟨rfl, hsome⟩
    exact ⟨[], [], rfl, rfl, hsome⟩

theorem startsAt_cons (p : Pattern) (before : Option Nat) (r : Rune) (rs : List Rune) (k : Nat) :
    p.StartsAt before (r :: rs) k ↔
      (k = 0 ∧ (p.attempt before (r :: rs)).isSome = true) ∨
        ∃ k', k = r.width + k' ∧ p.StartsAt (some r.code) rs k' := by
  constructor
  · rintro ⟨pre, rest, hrs, hk, hsome⟩
    cases pre with
    | nil =>
      rw [List.nil_append] at hrs
      subst hrs
      exact Or.inl ⟨hk.symm, hsome⟩
    | cons x pre =>
      obtain ⟨rfl, rfl⟩ := List.cons.inj hrs
      refine Or.inr ⟨(Text.ofRunes pre).length, ?_, pre, rest, rfl, rfl, hsome⟩
      rw [← hk]
      simp [Text.ofRunes, Rune.width]
  · rintro (⟨rfl, hsome⟩ | ⟨k', rfl, pre, rest, rfl, rfl, hsome⟩)
    · exact ⟨[], r :: rs, rfl, rfl, hsome⟩
    · exact ⟨r :: pre, rest, rfl, by simp [Text.ofRunes, Rune.width], hsome⟩

/-- A search finds the place nearest to its start, and nothing only when there is none. -/
theorem searchFrom_spec (p : Pattern) (rs : List Rune) : ∀ (before : Option Nat) (offset : Nat),
    (p.searchFrom before rs offset = none ∧ ∀ k, ¬ p.StartsAt before rs k) ∨
      ∃ k u, p.searchFrom before rs offset = some (offset + k, u) ∧ p.StartsAt before rs k ∧
        ∀ k', p.StartsAt before rs k' → k ≤ k' := by
  induction rs with
  | nil =>
    intro before offset
    unfold searchFrom
    cases ha : p.attempt before [] with
    | none =>
      refine Or.inl ⟨rfl, fun k hk => ?_⟩
      have := ((startsAt_nil p before k).1 hk).2
      rw [ha] at this
      cases this
    | some u =>
      refine Or.inr ⟨0, u, rfl, ?_, fun k' _ => Nat.zero_le k'⟩
      exact (startsAt_nil p before 0).2 ⟨rfl, by rw [ha]; rfl⟩
  | cons r rs ih =>
    intro before offset
    unfold searchFrom
    cases ha : p.attempt before (r :: rs) with
    | some u =>
      refine Or.inr ⟨0, u, rfl, ?_, fun k' _ => Nat.zero_le k'⟩
      exact (startsAt_cons p before r rs 0).2 (Or.inl ⟨rfl, by rw [ha]; rfl⟩)
    | none =>
      -- Nothing starts here, so a piece that starts behind `k` bytes starts behind this rune.
      have hbehind : ∀ k, p.StartsAt before (r :: rs) k ↔
          ∃ k', k = r.width + k' ∧ p.StartsAt (some r.code) rs k' := by
        intro k
        rw [startsAt_cons, ha]
        simp
      rcases ih (some r.code) (offset + r.width) with ⟨hnone, hno⟩ | ⟨k, u, hsome, hk, hleast⟩
      · refine Or.inl ⟨hnone, fun k hk => ?_⟩
        obtain ⟨k', -, hk'⟩ := (hbehind k).1 hk
        exact hno k' hk'
      · refine Or.inr ⟨r.width + k, u, ?_, (hbehind _).2 ⟨k, rfl, hk⟩, fun j hj => ?_⟩
        · rw [hsome, Nat.add_assoc]
        · obtain ⟨k', rfl, hk'⟩ := (hbehind j).1 hj
          have := hleast k' hk'
          omega

theorem find?_eq_none_iff (p : Pattern) (t : Text) :
    p.find? t = none ↔ ∀ k, ¬ p.MatchesAt t k := by
  unfold find?
  rcases searchFrom_spec p t.runes none 0 with ⟨hnone, hno⟩ | ⟨k, u, hsome, hk, -⟩
  · rw [hnone]
    exact ⟨fun _ => hno, fun _ => rfl⟩
  · rw [hsome]
    refine ⟨fun h => ?_, fun h => absurd hk (h k)⟩
    cases h

/-- **Leftmost match.** -/
theorem find?_eq_some {p : Pattern} {t : Text} {f : Match} (h : p.find? t = some f) :
    p.MatchesAt t f.start ∧ ∀ k, p.MatchesAt t k → f.start ≤ k := by
  unfold find? at h
  rcases searchFrom_spec p t.runes none 0 with ⟨hnone, -⟩ | ⟨k, u, hsome, hk, hleast⟩
  · rw [hnone] at h
    cases h
  · rw [hsome, Nat.zero_add] at h
    obtain rfl := Option.some.inj h
    exact ⟨hk, hleast⟩

/-- The leftmost match starts within `b` bytes exactly when some piece does. -/
theorem exists_find?_start_le_iff (p : Pattern) (t : Text) (b : Nat) :
    (∃ f, p.find? t = some f ∧ f.start ≤ b) ↔ ∃ k, k ≤ b ∧ p.MatchesAt t k := by
  constructor
  · rintro ⟨f, hf, hb⟩
    exact ⟨f.start, hb, (find?_eq_some hf).1⟩
  · rintro ⟨k, hb, hk⟩
    cases hf : p.find? t with
    | none => exact absurd hk ((find?_eq_none_iff p t).1 hf k)
    | some f => exact ⟨f, rfl, Nat.le_trans ((find?_eq_some hf).2 k hk) hb⟩

theorem matchesIn_iff (p : Pattern) (t : Text) : p.matchesIn t = true ↔ ∃ k, p.MatchesAt t k := by
  unfold matchesIn
  cases hf : p.find? t with
  | none =>
    have := (find?_eq_none_iff p t).1 hf
    simp [this]
  | some f => exact ⟨fun _ => ⟨f.start, (find?_eq_some hf).1⟩, fun _ => rfl⟩

end Pattern
end CodeAudit
