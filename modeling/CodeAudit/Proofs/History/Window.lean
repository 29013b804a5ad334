import CodeAudit.Proofs.History
import Mathlib.Data.List.Induction
import Mathlib.Data.List.Nodup

/-!
# What a history shows

After any number of recordings and clearings a history shows the newest of what was recorded since
the last clearing, as many as its limit allows. The entries are kept oldest first and cut from the
front at every recording, while readers see them newest first, so the cut and the reversal are told
from one list: all that was recorded since the last clearing.

**Results.**
* `entries_run`: the kept entries are the end of that list.
* `history_shows_newest`: what the readers of a history get, after any changes.
-/
namespace CodeAudit
namespace History

/-- The history after a change that is asked for: a recording stamps its entry first. -/
def perform (h : History) : Change → History
  | .record e => (h.add e.id e.createdAt e.code e.result).2
  | .clear => h.clear

/-- The history after some changes, from a new one on. -/
def run (limit : Int) (changes : List Change) : History := changes.foldl perform (empty limit)

/-- The entries recorded since the last clearing, oldest first. -/
def sinceClear (changes : List Change) : List Entry :=
  recorded (changes.reverse.takeWhile (· ≠ .clear)).reverse

@[simp] theorem sinceClear_nil : sinceClear [] = [] := rfl

@[simp] theorem sinceClear_clear (changes : List Change) :
    sinceClear (changes ++ [.clear]) = [] := by
  simp [sinceClear]

@[simp] theorem sinceClear_record (changes : List Change) (e : Entry) :
    sinceClear (changes ++ [.record e]) = sinceClear changes ++ [e] := by
  simp [sinceClear, recorded_append]

theorem run_concat (limit : Int) (changes : List Change) (c : Change) :
    run limit (changes ++ [c]) = (run limit changes).perform c := List.foldl_concat ..

theorem limit_run (limit : Int) (changes : List Change) :
    (run limit changes).limit = room limit := by
  induction changes using List.reverseRecOn with
  | nil => rfl
  | append_singleton changes c ih => rw [run_concat, ← ih]; cases c <;> rfl

/-- Cutting after every recording leaves the end of all that was recorded. -/
theorem drop_append_singleton (all : List Entry) (e : Entry) (limit : Nat) :
    let kept := all.drop (all.length - limit) ++ [e]
    kept.drop (kept.length - limit) = (all ++ [e]).drop ((all ++ [e]).length - limit) := by
  have hkept : all.drop (all.length - limit) ++ [e] = (all ++ [e]).drop (all.length - limit) :=
    (List.drop_append_of_le_length (Nat.sub_le ..)).symm
  simp only [hkept, List.drop_drop, List.length_drop, List.length_append, List.length_singleton]
  congr 1
  omega

/-- **The window.** A history holds the end of what was recorded since the last clearing. -/
theorem entries_run (limit : Int) (changes : List Change) :
    (run limit changes).entries =
      (sinceClear changes).drop ((sinceClear changes).length - (run limit changes).limit) := by
  induction changes using List.reverseRecOn with
  | nil => exact List.drop_nil.symm
  | append_singleton changes c ih =>
    have hlimit : (run limit (changes ++ [c])).limit = (run limit changes).limit := by
      rw [limit_run, limit_run]
    rw [hlimit, run_concat]
    cases c with
    | clear => rw [sinceClear_clear, List.drop_nil]; rfl
    | record e =>
      rw [sinceClear_record, ← drop_append_singleton, ← ih]
      rfl

/-- Where identifiers differ, an entry is found exactly by its own. -/
theorem get?_eq_some_iff {h : History} (hids : (h.entries.map Entry.id).Nodup) (id : Text)
    (e : Entry) :
    h.get? id = some e ↔ e ∈ h.entries ∧ e.id = id := by
  unfold get?
  constructor
  · intro hfind
    exact ⟨List.mem_of_find?_eq_some hfind, by simpa using List.find?_some hfind⟩
  · rintro ⟨hmem, rfl⟩
    cases hfind : h.entries.find? (·.id == e.id) with
    | none => simpa using List.find?_eq_none.1 hfind e hmem
    | some a =>
      have hid : a.id = e.id := by simpa using List.find?_some hfind
      rw [List.inj_on_of_nodup_map hids (List.mem_of_find?_eq_some hfind) hmem hid]

/-- **What a history shows.** The readers of a history get the newest entries recorded since the
last clearing, newest first, at most as many as the limit; one is found by its identifier exactly
when it is among them, if identifiers differ. -/
theorem history_shows_newest (limit : Int) (changes : List Change) :
    let h := run limit changes
    let room := room limit
    let added := sinceClear changes
    h.list = (added.drop (added.length - min room added.length)).reverse ∧
    h.results = h.list.map Entry.result ∧
    h.length = min room added.length ∧
    ((added.map Entry.id).Nodup → ∀ id e, h.get? id = some e ↔ e ∈ h.list ∧ e.id = id) := by
  intro h room added
  have hroom : h.limit = room := limit_run limit changes
  have hentries : h.entries = added.drop (added.length - min room added.length) := by
    have hcut : added.length - h.limit = added.length - min room added.length := by omega
    rw [entries_run, hcut]
  refine ⟨?_, rfl, ?_, ?_⟩
  · rw [list, hentries]
  · rw [length, hentries, List.length_drop]
    omega
  · intro hids id e
    have hkept : (h.entries.map Entry.id).Nodup := by
      rw [hentries, List.map_drop]
      exact hids.sublist (List.drop_sublist ..)
    rw [get?_eq_some_iff hkept, list, List.mem_reverse]

/-- Room for two: behind a clearing three entries are recorded, of which the last two are shown, and
an entry that left is not found any more. -/
theorem newest_two_shown :
    let e (id : Text) : Entry := ⟨id, ⟨0⟩, [], default⟩
    let changes := [.record (e "a"), .clear, .record (e "b"), .record (e "c"), .record (e "d")]
    ((sinceClear changes).map Entry.id).Nodup ∧ (run 2 changes).list = [e "d", e "c"] ∧
      (run 2 changes).get? "c" = some (e "c") ∧ ∀ x, (run 2 changes).get? "b" ≠ some x := by
  intro e changes
  have hids : ((sinceClear changes).map Entry.id).Nodup := by decide
  obtain ⟨hlist, -, -, hget⟩ := history_shows_newest 2 changes
  have hshown : (run 2 changes).list = [e "d", e "c"] := hlist.trans (by decide)
  refine ⟨hids, hshown, (hget hids "c" (e "c")).2 ⟨by simp [hshown], rfl⟩, fun x hx => ?_⟩
  obtain ⟨hmem, hid⟩ := (hget hids "b" x).1 hx
  rw [hshown] at hmem
  rcases List.mem_pair.1 hmem with rfl | rfl
  all_goals exact absurd hid (by decide)

end History
end CodeAudit
