import CodeAudit.History

/-!
# A history as a replay of its changes

A history changes in two ways only: an analysis is recorded, or everything is forgotten. `replay`
says what one change does to the entries, one at a time: a new entry goes to the end, and when there
is no room for it the oldest one leaves. Whole lists of changes are replayed from the oldest on.

**Results.**
* `entries_apply`: a change of a history that keeps its limit is a replay.
* `length_foldl_replay_le`, `foldl_replay_suffix`: the limit is kept, and only the newest entries
  are.
* `foldl_replay_forgets`, `foldl_replay_keeps`: when the entries at the start are all gone, and when
  an entry among them is still there.
* `find?_foldl_replay`: an entry with an identifier of its own is found until it is forgotten or as
  many others were recorded as there is room for.
-/
namespace CodeAudit
namespace History

/-- A change of a history. -/
inductive Change where
  | record (e : Entry)
  | clear
  deriving DecidableEq, Repr

/-- The entry that a change records. -/
def Change.entry? : Change → Option Entry
  | .record e => some e
  | .clear => none

/-- The entries that some changes record. -/
def recorded (changes : List Change) : List Entry := changes.filterMap Change.entry?

/-- The entries after a change, oldest first, where there is room for `limit` of them. -/
def replay (limit : Nat) (entries : List Entry) : Change → List Entry
  | .record e => if entries.length < limit then entries ++ [e] else entries.tail ++ [e]
  | .clear => []

theorem replay_record (limit : Nat) (entries : List Entry) (e : Entry) :
    replay limit entries (.record e) =
      if entries.length < limit then entries ++ [e] else entries.tail ++ [e] := rfl

@[simp] theorem replay_clear (limit : Nat) (entries : List Entry) :
    replay limit entries .clear = [] := rfl

@[simp] theorem recorded_nil : recorded [] = [] := rfl

@[simp] theorem recorded_record (e : Entry) (changes : List Change) :
    recorded (.record e :: changes) = e :: recorded changes := rfl

@[simp] theorem recorded_clear (changes : List Change) :
    recorded (.clear :: changes) = recorded changes := rfl

theorem recorded_append (a b : List Change) : recorded (a ++ b) = recorded a ++ recorded b :=
  List.filterMap_append

/-- The history after a change. -/
def apply (h : History) : Change → History
  | .record e => h.append e
  | .clear => h.clear

@[simp] theorem limit_apply (h : History) (c : Change) : (h.apply c).limit = h.limit := by
  cases c <;> rfl

/-- A change of a history that keeps its limit is a replay. -/
theorem entries_apply {h : History} (hpos : 0 < h.limit) (hlimit : h.entries.length ≤ h.limit)
    (c : Change) : (h.apply c).entries = replay h.limit h.entries c := by
  cases c with
  | clear => rfl
  | record e =>
    simp only [apply, append, replay_record, List.length_append, List.length_singleton]
    split
    · rename_i hroom
      rw [show h.entries.length + 1 - h.limit = 0 by omega, List.drop_zero]
    · rename_i hfull
      rw [show h.entries.length + 1 - h.limit = 1 by
        omega, List.drop_append_of_le_length (by omega), List.drop_one]

section
variable {limit : Nat}

theorem length_replay_le (hpos : 0 < limit) {entries : List Entry} (h : entries.length ≤ limit)
    (c : Change) : (replay limit entries c).length ≤ limit := by
  cases c with
  | clear => exact Nat.zero_le _
  | record e =>
    rw [replay_record]
    split <;> simp <;> omega

theorem length_foldl_replay_le (hpos : 0 < limit) (changes : List Change) {entries : List Entry}
    (h : entries.length ≤ limit) : (changes.foldl (replay limit) entries).length ≤ limit := by
  induction changes generalizing entries with
  | nil => exact h
  | cons c rest ih => exact ih (length_replay_le hpos h c)

/-- A recorded entry is the last one. -/
theorem exists_replay_record (limit : Nat) (entries : List Entry) (e : Entry) :
    ∃ older, older <:+ entries ∧ replay limit entries (.record e) = older ++ [e] := by
  rw [replay_record]
  split
  · exact ⟨entries, List.suffix_rfl, rfl⟩
  · exact ⟨entries.tail, List.tail_suffix entries, rfl⟩

theorem replay_suffix (entries : List Entry) (c : Change) :
    replay limit entries c <:+ entries ++ recorded [c] := by
  cases c with
  | clear => exact List.nil_suffix
  | record e =>
    obtain ⟨older, hsuffix, hreplay⟩ := exists_replay_record limit entries e
    rw [hreplay]
    exact List.suffix_append_self_iff.2 hsuffix

/-- Only the newest entries are kept. -/
theorem foldl_replay_suffix (changes : List Change) (entries : List Entry) :
    changes.foldl (replay limit) entries <:+ entries ++ recorded changes := by
  induction changes generalizing entries with
  | nil => simp
  | cons c rest ih =>
    refine (ih (replay limit entries c)).trans ?_
    rw [show recorded (c :: rest) = recorded [c] ++ recorded rest from recorded_append [c] rest,
      ← List.append_assoc]
    exact List.suffix_append_self_iff.2 (replay_suffix entries c)

/-- The entries at the start are gone once all were forgotten, or once there were as many new ones
as there is room for. -/
theorem foldl_replay_forgets (hpos : 0 < limit) {changes : List Change} {entries : List Entry}
    (hentries : entries.length ≤ limit)
    (h : .clear ∈ changes ∨ limit ≤ (recorded changes).length) :
    changes.foldl (replay limit) entries <:+ recorded changes := by
  obtain hclear | hmany := h
  · obtain ⟨before, after, rfl⟩ := List.append_of_mem hclear
    have hafter : after.foldl (replay limit) [] <:+ recorded after := foldl_replay_suffix after []
    rw [List.foldl_append, List.foldl_cons, recorded_append]
    exact hafter.trans (List.suffix_append _ _)
  · have hkept := length_foldl_replay_le hpos changes hentries
    exact List.suffix_of_suffix_length_le (foldl_replay_suffix changes entries)
      (List.suffix_append _ _) (by omega)

/-- An entry is still there as long as nothing was forgotten and there is room for all that came
after it; what is left before it was there before it. -/
theorem foldl_replay_keeps (e : Entry) {changes : List Change} (hclear : .clear ∉ changes)
    (older newer : List Entry) (hroom : newer.length + (recorded changes).length < limit) :
    ∃ older', older' <:+ older ∧
      changes.foldl (replay limit) (older ++ e :: newer) = older' ++
        e :: (newer ++ recorded changes) := by
  induction changes generalizing older newer with
  | nil => exact ⟨older, List.suffix_rfl, by simp⟩
  | cons c rest ih =>
    obtain ⟨hc, hrest⟩ := not_or.1 (mt List.mem_cons.2 hclear)
    cases c with
    | clear => exact absurd rfl hc
    | record a =>
      simp only [recorded_record, List.length_cons] at hroom
      have hnewer : (newer ++ [a]).length + (recorded rest).length < limit := by
        simp only [List.length_append, List.length_singleton]
        omega
      -- the entry that leaves is an older one: behind it there is room for all the newer ones
      have hstep : ∃ left, left <:+ older ∧
          replay limit (older ++ e :: newer) (.record a) = left ++ e :: (newer ++ [a]) := by
        rw [replay_record]
        split
        · exact ⟨older, List.suffix_rfl, by simp⟩
        · rename_i hfull
          cases older with
          | nil =>
            simp only [List.nil_append, List.length_cons] at hfull
            omega
          | cons x xs => exact ⟨xs, List.suffix_cons x xs, by simp⟩
      obtain ⟨left, hleft, hreplay⟩ := hstep
      obtain ⟨older', holder', hrun⟩ := ih hrest left (newer ++ [a]) hnewer
      exact ⟨older', holder'.trans hleft, by
        rw [List.foldl_cons, hreplay, hrun, recorded_record, List.append_assoc,
          List.singleton_append]⟩

/-- An entry that was just recorded, under an identifier that no other entry has, is found until all
entries are forgotten or as many others were recorded as there is room for. -/
theorem find?_foldl_replay (hpos : 0 < limit) {changes : List Change} {older : List Entry}
    {e : Entry} (hlength : (older ++ [e]).length ≤ limit) (holder : ∀ a ∈ older, a.id ≠ e.id)
    (hnewer : ∀ a ∈ recorded changes, a.id ≠ e.id) :
    (changes.foldl (replay limit) (older ++ [e])).find? (·.id == e.id) =
      if .clear ∉ changes ∧ (recorded changes).length < limit then some e else none := by
  split
  · rename_i hkept
    obtain ⟨older', hsuffix, hrun⟩ := foldl_replay_keeps e hkept.1 older [] (by simpa using hkept.2)
    rw [hrun, List.find?_append, List.find?_eq_none.2]
    · simp
    · intro a ha
      simpa using holder a (hsuffix.subset ha)
  · rename_i hgone
    have hcase : .clear ∈ changes ∨ limit ≤ (recorded changes).length := by
      by_cases hclear : .clear ∈ changes
      · exact .inl hclear
      · exact .inr (Nat.le_of_not_lt fun hlt => hgone ⟨hclear, hlt⟩)
    rw [List.find?_eq_none]
    intro a ha
    simpa using hnewer a ((foldl_replay_forgets hpos hlength hcase).subset ha)

end
end History
end CodeAudit
