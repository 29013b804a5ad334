import CodeAudit.Proofs.History.Window
import Mathlib.Logic.Function.Basic

/-!
# Recording at the same time

A call that records an analysis takes two steps: it stamps its entry, which reads the clock, and
later it appends the entry under the lock. Between the two any other call may take steps of its own,
so entries are not always appended in the order of their times.

**Interleavings.** A schedule is a list of steps in which each call takes its own steps in their
order (`Interleaving`). The state is the history together with the entries that are stamped and not
appended yet. What it is after a schedule is told by the schedule alone (`Shared.follows_run`): the
history is the one that records the calls in the order of their appending, each with the time of its
own stamping.

**Results.**
* `Shared.follows_run`: the state after any interleaving.
* `inOrder_append_iff`: when appending one entry keeps the history in the order of time.
* `newestFirst_oneByOne`: calls that take both steps at once are listed newest first.
* `newest_first_iff_no_overtaking`: at every moment the list is in the order of time and the entry
  that leaves is the oldest, exactly when no call is overtaken by one that is still kept when it
  comes to append.
* `overtaken_call_misplaced`: two calls suffice for both to fail.
-/
namespace CodeAudit

/-- The time of an entry. -/
def Entry.time (e : Entry) : Int := e.createdAt.nanoseconds

namespace History

/-! ## The order of time -/

/-- The entries are listed newest first by their times. -/
def NewestFirst (h : History) : Prop := (h.list.map Entry.time).Pairwise (· > ·)

/-- What leaves a history when an entry is appended. -/
def evicted (h : History) (e : Entry) : List Entry :=
  (h.entries ++ [e]).take ((h.entries ++ [e]).length - h.limit)

/-- No entry, kept or new, is older than one that leaves. -/
def EvictsOldest (h : History) (e : Entry) : Prop :=
  ∀ x ∈ h.evicted e, ∀ y ∈ h.entries ++ [e], x.time ≤ y.time

theorem evicted_append (h : History) (e : Entry) :
    h.evicted e ++ (h.append e).entries = h.entries ++ [e] :=
  List.take_append_drop ..

theorem newestFirst_iff (h : History) :
    h.NewestFirst ↔ h.entries.Pairwise fun a b => a.time < b.time := by
  rw [NewestFirst, list, List.map_reverse, List.pairwise_reverse, List.pairwise_map]

/-- Where there is room for one entry at all, the new one is kept. -/
theorem exists_entries_append {h : History} (hroom : 0 < h.limit) (e : Entry) :
    ∃ kept, (h.append e).entries = kept ++ [e] ∧ h.evicted e ++ kept = h.entries := by
  have hcut : (h.entries ++ [e]).length - h.limit ≤ h.entries.length := by
    rw [List.length_append, List.length_singleton]
    omega
  have happend : (h.append e).entries = h.entries.drop ((h.entries ++ [e]).length - h.limit) ++
      [e] :=
    List.drop_append_of_le_length hcut
  have hall := h.evicted_append e
  rw [happend, ← List.append_assoc] at hall
  exact ⟨_, happend, List.append_cancel_right hall⟩

/-- Appending keeps the order of time, and what leaves is the oldest, just when the new entry is the
newest. -/
theorem inOrder_append_iff {h : History} (hroom : 0 < h.limit) (hlength : h.length ≤ h.limit)
    (horder : h.NewestFirst) {e : Entry} (hother : ∀ x ∈ h.entries, x.time ≠ e.time) :
    (h.append e).NewestFirst ∧ h.EvictsOldest e ↔ ∀ x ∈ h.entries, x.time < e.time := by
  obtain ⟨kept, happend, hentries⟩ := exists_entries_append hroom e
  rw [newestFirst_iff] at horder ⊢
  constructor
  · rintro ⟨hafter, holdest⟩ x hx
    rw [happend] at hafter
    rw [← hentries] at hx
    rcases List.mem_append.1 hx with hleft | hkept
    · have hle := holdest x hleft e (List.mem_append_right _ (List.mem_singleton_self e))
      have hne := hother x (hentries ▸ hx)
      omega
    · exact (List.pairwise_append.1 hafter).2.2 x hkept e (List.mem_singleton_self e)
  · intro hnewest
    have hall : (h.entries ++ [e]).Pairwise fun a b => a.time < b.time :=
      List.pairwise_append.2 ⟨horder, List.pairwise_singleton _ e, fun x hx y hy => by
        rw [List.mem_singleton.1 hy]
        exact hnewest x hx⟩
    refine ⟨hall.sublist (List.drop_sublist ..), fun x hx y hy => ?_⟩
    -- at most one entry leaves, and it is the first of all
    have hone : (h.entries ++ [e]).length - h.limit ≤ 1 := by
      rw [length] at hlength
      rw [List.length_append, List.length_singleton]
      omega
    have hfirst : x ∈ (h.entries ++ [e]).take 1 := List.take_subset_take_left _ hone hx
    obtain ⟨first, rest, hcons⟩ := List.exists_cons_of_ne_nil (List.concat_ne_nil e h.entries)
    rw [hcons] at hall hfirst hy
    rw [List.take_succ_cons, List.take_zero, List.mem_singleton] at hfirst
    rw [hfirst]
    rcases List.mem_cons.1 hy with rfl | hy
    · exact Int.le_refl _
    · exact Int.le_of_lt ((List.pairwise_cons.1 hall).1 y hy)

/-! ## Calls and their steps -/

/-- What a call records, with the identifier drawn for it. -/
structure Call where
  id : Text
  code : Text
  result : Result

/-- A step of a call, which is known by its number. -/
inductive Step where
  | stamp (call : Nat)
  | append (call : Nat)
  deriving DecidableEq, Repr

namespace Step

/-- The call that takes the step. -/
def call : Step → Nat
  | .stamp i => i
  | .append i => i

/-- The call that is stamped. -/
def stamped? : Step → Option Nat
  | .stamp i => some i
  | .append _ => none

/-- The call that is appended. -/
def appended? : Step → Option Nat
  | .stamp _ => none
  | .append i => some i

end Step

/-- Each call takes its own two steps in their order, as far as it has come. -/
def Interleaving (steps : List Step) : Prop :=
  ∀ i, steps.filter (·.call == i) <+: [.stamp i, .append i]

/-- The calls in the order of their stamping. -/
def stamps (steps : List Step) : List Nat := steps.filterMap Step.stamped?

/-- The calls in the order of their appending. -/
def appends (steps : List Step) : List Nat := steps.filterMap Step.appended?

/-- Which reading of the clock a call got. -/
def reading (steps : List Step) (i : Nat) : Nat := (stamps steps).idxOf i

@[simp] theorem stamps_stamp (steps : List Step) (i : Nat) :
    stamps (steps ++ [.stamp i]) = stamps steps ++ [i] := by
  simp [stamps, Step.stamped?]

@[simp] theorem stamps_append (steps : List Step) (i : Nat) :
    stamps (steps ++ [.append i]) = stamps steps := by
  simp [stamps, Step.stamped?]

@[simp] theorem appends_stamp (steps : List Step) (i : Nat) :
    appends (steps ++ [.stamp i]) = appends steps := by
  simp [appends, Step.appended?]

@[simp] theorem appends_append (steps : List Step) (i : Nat) :
    appends (steps ++ [.append i]) = appends steps ++ [i] := by
  simp [appends, Step.appended?]

theorem mem_stamps {steps : List Step} {i : Nat} : i ∈ stamps steps ↔ .stamp i ∈ steps := by
  rw [stamps, List.mem_filterMap]
  constructor
  · rintro ⟨m, hm, hi⟩
    cases m <;> simp_all [Step.stamped?]
  · exact fun h => ⟨_, h, rfl⟩

theorem mem_appends {steps : List Step} {i : Nat} : i ∈ appends steps ↔ .append i ∈ steps := by
  rw [appends, List.mem_filterMap]
  constructor
  · rintro ⟨m, hm, hi⟩
    cases m <;> simp_all [Step.appended?]
  · exact fun h => ⟨_, h, rfl⟩

theorem reading_stamp {steps : List Step} {i : Nat} (hi : i ∈ stamps steps) (k : Nat) :
    reading (steps ++ [.stamp k]) i = reading steps i := by
  rw [reading, stamps_stamp, List.idxOf_append_of_mem hi, reading]

@[simp] theorem reading_append (steps : List Step) (k i : Nat) :
    reading (steps ++ [.append k]) i = reading steps i := by
  rw [reading, stamps_append, reading]

theorem Interleaving.before {pre steps : List Step} (h : Interleaving steps)
    (hpre : pre <+: steps) :
    Interleaving pre := fun i => (hpre.filter _).trans (h i)

theorem Interleaving.init {steps : List Step} {m : Step} (h : Interleaving (steps ++ [m])) :
    Interleaving steps :=
  h.before (List.prefix_append ..)

/-- The steps that a call took before its next one: none before the stamping, and the stamping alone
before the appending. -/
theorem Interleaving.own_steps {steps : List Step} {m : Step} (h : Interleaving (steps ++ [m])) :
    (steps.filter (·.call == m.call) = [] ∧ m = .stamp m.call) ∨
      (steps.filter (·.call == m.call) = [.stamp m.call] ∧ m = .append m.call) := by
  have hown := h m.call
  rw [List.filter_append, List.filter_singleton, beq_self_eq_true, cond_true] at hown
  match hsteps : steps.filter (·.call == m.call) with
  | [] =>
    rw [hsteps] at hown
    exact .inl ⟨hsteps, (List.cons_prefix_cons.1 hown).1⟩
  | [a] =>
    rw [hsteps] at hown
    obtain ⟨ha, hrest⟩ := List.cons_prefix_cons.1 hown
    exact .inr ⟨ha ▸ hsteps, (List.cons_prefix_cons.1 hrest).1⟩
  | a :: b :: rest =>
    have hlength := hown.length_le
    simp only [hsteps, List.length_append, List.length_cons, List.length_nil] at hlength
    omega

/-- A call is stamped only once. -/
theorem Interleaving.not_mem_stamps {steps : List Step} {i : Nat}
    (h : Interleaving (steps ++ [.stamp i])) :
    i ∉ stamps steps := by
  intro hi
  have hmem : .stamp i ∈ steps.filter (·.call == i) :=
    List.mem_filter.2 ⟨mem_stamps.1 hi, by simp [Step.call]⟩
  rcases h.own_steps with ⟨hnone, -⟩ | ⟨-, hstep⟩
  · rw [Step.call] at hnone
    simp [hnone] at hmem
  · cases hstep

/-- A call that is appended was stamped before, and not appended yet. -/
theorem Interleaving.mem_stamps_of_append {steps : List Step} {i : Nat}
    (h : Interleaving (steps ++ [.append i])) :
    i ∈ stamps steps ∧ i ∉ appends steps := by
  rcases h.own_steps with ⟨-, hstep⟩ | ⟨hone, -⟩
  · cases hstep
  · rw [Step.call] at hone
    constructor
    · exact mem_stamps.2 (List.mem_filter.1 (hone ▸ List.mem_singleton_self _)).1
    · intro hi
      have hmem : .append i ∈ steps.filter (·.call == i) :=
        List.mem_filter.2 ⟨mem_appends.1 hi, by simp [Step.call]⟩
      simp [hone] at hmem

/-! ## A shared history -/

theorem room_pos (limit : Int) : 0 < room limit := by
  unfold room
  split
  · decide
  · omega

/-- A history that several calls write to. -/
structure Shared where
  history : History
  /-- How often the clock was read. -/
  readings : Nat
  /-- The entry of each call that is stamped and not appended yet. -/
  pending : Nat → Option Entry

namespace Shared

/-- An empty history, and no call has begun. -/
def start (limit : Int) : Shared := ⟨.empty limit, 0, fun _ => none⟩

variable (calls : Nat → Call) (clock : Nat → Instant)

/-- One step of a call. The clock is read at the stamping. -/
def step (s : Shared) : Step → Shared
  | .stamp i =>
    let e := Entry.stamp (calls i).id (clock s.readings) (calls i).code (calls i).result
    { s with readings := s.readings + 1, pending := Function.update s.pending i (some e) }
  | .append i =>
    match s.pending i with
    | none => s
    | some e =>
      { s with history := s.history.append e, pending := Function.update s.pending i none }

/-- The state after a schedule, from an empty history on. -/
def run (limit : Int) (steps : List Step) : Shared := steps.foldl (step calls clock) (start limit)

theorem run_concat (limit : Int) (steps : List Step) (m : Step) :
    run calls clock limit (steps ++ [m]) = (run calls clock limit steps).step calls clock m :=
      List.foldl_concat ..

/-- The entry of a call, with the time that the schedule gives it. -/
def entry (steps : List Step) (i : Nat) : Entry :=
  Entry.stamp (calls i).id (clock (reading steps i)) (calls i).code (calls i).result

/-- What a state is after a schedule. -/
structure Follows (limit : Int) (steps : List Step) (s : Shared) : Prop where
  readings : s.readings = (stamps steps).length
  pending : ∀ i, s.pending i =
    if i ∈ stamps steps ∧ i ∉ appends steps then some (entry calls clock steps i) else none
  appended : ∀ i ∈ appends steps, i ∈ stamps steps
  history : s.history = History.run limit
    ((appends steps).map fun i => .record (entry calls clock steps i))

variable {calls clock} {limit : Int} {steps : List Step} {s : Shared}

theorem Follows.stamp (hs : Follows calls clock limit steps s) {i : Nat} (hi : i ∉ stamps steps) :
    Follows calls clock limit (steps ++ [.stamp i]) (s.step calls clock (.stamp i)) where
  readings := by simp [step, hs.readings]
  pending k := by
    have happended : i ∉ appends steps := mt (hs.appended i) hi
    have hreading : reading (steps ++ [.stamp i]) i = s.readings := by
      rw [reading, stamps_stamp, List.idxOf_append, if_neg hi, hs.readings]
      simp
    by_cases hk : k = i
    · rw [hk]
      simp only [step, Function.update_self, stamps_stamp, appends_stamp, List.mem_append,
        List.mem_singleton, or_true, happended, not_false_eq_true, and_self, if_true, entry,
        hreading]
    · simp only [step, Function.update_of_ne hk, hs.pending k, stamps_stamp, appends_stamp,
        List.mem_append, List.mem_singleton, hk, or_false]
      split
      · rename_i hstamped
        rw [entry, entry, reading_stamp hstamped.1]
      · rfl
  appended k hk := by
    rw [appends_stamp] at hk
    rw [stamps_stamp]
    exact List.mem_append_left _ (hs.appended k hk)
  history := by
    rw [step, hs.history, appends_stamp]
    congr 1
    refine List.map_congr_left fun k hk => ?_
    rw [entry, entry, reading_stamp (hs.appended k hk)]

theorem entry_append (steps : List Step) (i k : Nat) :
    entry calls clock (steps ++ [.append i]) k = entry calls clock steps k := by
  rw [entry, entry, reading_append]

theorem Follows.append (hs : Follows calls clock limit steps s) {i : Nat}
    (hi : i ∈ stamps steps ∧ i ∉ appends steps) :
    Follows calls clock limit (steps ++ [.append i]) (s.step calls clock (.append i)) := by
  have hpending : s.pending i = some (entry calls clock steps i) := by rw [hs.pending i, if_pos hi]
  have hstep : s.step calls clock (.append i) =
      { s with history := s.history.append (entry calls clock steps i),
               pending := Function.update s.pending i none } := by
    rw [step, hpending]
  rw [hstep]
  refine ⟨?_, fun k => ?_, fun k hk => ?_, ?_⟩
  · rw [stamps_append]
    exact hs.readings
  · simp only [stamps_append, appends_append, entry_append, List.mem_append,
      List.mem_singleton, not_or]
    by_cases hk : k = i
    · simp [hk]
    · simp [hs.pending k, hk]
  · rw [stamps_append]
    rw [appends_append, List.mem_append, List.mem_singleton] at hk
    rcases hk with hk | rfl
    · exact hs.appended k hk
    · exact hi.1
  · simp only [appends_append, entry_append, List.map_append, List.map_singleton,
      History.run_concat]
    rw [hs.history]
    rfl

theorem follows_run (h : Interleaving steps) :
    Follows calls clock limit steps (run calls clock limit steps) := by
  induction steps using List.reverseRecOn with
  | nil => exact ⟨rfl, fun i => rfl, nofun, rfl⟩
  | append_singleton steps m ih =>
    have hs := ih h.init
    rw [run_concat]
    cases m with
    | stamp i => exact hs.stamp h.not_mem_stamps
    | append i => exact hs.append h.mem_stamps_of_append

theorem limit_run (h : Interleaving steps) :
    (run calls clock limit steps).history.limit = room limit := by
  rw [(follows_run h).history, History.limit_run]

theorem sinceClear_map_record (es : List Entry) : sinceClear (es.map .record) = es := by
  induction es using List.reverseRecOn with
  | nil => rfl
  | append_singleton es e ih => rw [List.map_append, List.map_singleton, sinceClear_record, ih]

/-- The calls whose entries are kept. -/
def kept (room : Nat) (steps : List Step) :
    List Nat := (appends steps).drop ((appends steps).length - room)

theorem entries_run (h : Interleaving steps) :
    (run calls clock limit steps).history.entries =
      (kept (room limit) steps).map (entry calls clock steps) := by
  have hchanges : (appends steps).map (fun i => Change.record (entry calls clock steps i)) =
      ((appends steps).map (entry calls clock steps)).map .record := by rw [List.map_map]; rfl
  have hlimit : (run calls clock limit steps).history.limit = room limit := limit_run h
  rw [(follows_run h).history] at hlimit ⊢
  rw [History.entries_run, hlimit, hchanges, sinceClear_map_record, List.length_map, kept,
    List.map_drop]

theorem length_run_le (h : Interleaving steps) :
    (run calls clock limit steps).history.length ≤ (run calls clock limit steps).history.limit := by
  rw [History.length, entries_run h, limit_run h, List.length_map, kept, List.length_drop]
  omega

/-- What a call appends. -/
theorem pending_of_append {i : Nat} (h : Interleaving (steps ++ [.append i])) :
    (run calls clock limit steps).pending i = some (entry calls clock steps i) := by
  rw [(follows_run h.init).pending i, if_pos h.mem_stamps_of_append]

theorem history_of_append {i : Nat} (h : Interleaving (steps ++ [.append i])) :
    (run calls clock limit (steps ++ [.append i])).history =
      (run calls clock limit steps).history.append (entry calls clock steps i) := by
  rw [run_concat, step, pending_of_append h]

theorem history_of_stamp (steps : List Step) (i : Nat) :
    (run calls clock limit (steps ++ [.stamp i])).history =
      (run calls clock limit steps).history := by
  rw [run_concat, step]

end Shared

/-! ## Overtaking -/

/-- A clock that reads a later time whenever it is read again. -/
def Rising (clock : Nat → Instant) :
    Prop := ∀ m n, m < n → (clock m).nanoseconds < (clock n).nanoseconds

/-- Call `i` is overtaken by call `j`: `j` read the clock later, and its entry is one of those that
are kept when `i` appends its own. -/
def Overtaken (room : Nat) (steps : List Step) (i j : Nat) : Prop :=
  ∃ pre, pre ++ [.append i] <+: steps ∧ j ∈ Shared.kept room pre ∧ reading pre i < reading pre j

theorem Overtaken.later {room : Nat} {early steps : List Step} {i j : Nat}
    (h : Overtaken room early i j) (hearly : early <+: steps) : Overtaken room steps i j := by
  obtain ⟨pre, hpre, hovertaken⟩ := h
  exact ⟨pre, hpre.trans hearly, hovertaken⟩

/-- Overtaking, told by the place of the appending in the schedule. -/
theorem overtaken_iff {room : Nat} {steps : List Step} {i j : Nat} :
    Overtaken room steps i j ↔ ∃ k, steps[k]? = some (.append i) ∧
      j ∈ Shared.kept room (steps.take k) ∧
      reading (steps.take k) i < reading (steps.take k) j := by
  constructor
  · rintro ⟨pre, hpre, hkept, hlt⟩
    obtain ⟨post, rfl⟩ := hpre
    refine ⟨pre.length, by simp, ?_⟩
    rw [List.append_assoc, List.take_left]
    exact ⟨hkept, hlt⟩
  · rintro ⟨k, hstep, hovertaken⟩
    obtain ⟨hk, hstep⟩ := List.getElem?_eq_some_iff.1 hstep
    refine ⟨steps.take k, ?_, hovertaken⟩
    rw [← hstep, List.take_append_getElem hk]
    exact List.take_prefix ..

section
variable {calls : Nat → Call} {clock : Nat → Instant} {limit : Int} {steps : List Step}

theorem time_entry_lt_iff (calls : Nat → Call) (hclock : Rising clock) (steps : List Step)
    (i j : Nat) :
    (Shared.entry calls clock steps i).time < (Shared.entry calls clock steps j).time ↔
      reading steps i < reading steps j := by
  have htime : ∀ k, (Shared.entry calls clock steps k).time =
      (clock (reading steps k)).nanoseconds := fun k => rfl
  rw [htime, htime]
  constructor
  · intro hlt
    by_contra hge
    rcases Nat.lt_or_eq_of_le (Nat.le_of_not_lt hge) with hgt | heq
    · exact absurd (hclock _ _ hgt) (by omega)
    · rw [heq] at hlt
      omega
  · exact hclock _ _

/-- A call that appends got another reading than every call that has appended. -/
theorem reading_ne {i j : Nat} (h : Interleaving (steps ++ [.append i])) (hj : j ∈ appends steps) :
    reading steps j ≠ reading steps i := by
  obtain ⟨hi, hnot⟩ := h.mem_stamps_of_append
  intro heq
  rw [reading, reading, eq_comm, List.idxOf_inj hi] at heq
  exact hnot (heq ▸ hj)

/-- The entry that a call appends is the newest just when the call is not overtaken. -/
theorem newest_iff (hclock : Rising clock) {i : Nat} (h : Interleaving (steps ++ [.append i])) :
    (∀ x ∈ (Shared.run calls clock limit steps).history.entries,
        x.time < (Shared.entry calls clock steps i).time) ↔
      ∀ j ∈ Shared.kept (room limit) steps, ¬ reading steps i < reading steps j := by
  rw [Shared.entries_run h.init, List.forall_mem_map]
  refine forall₂_congr fun j hj => ?_
  rw [time_entry_lt_iff calls hclock]
  have hne := reading_ne h (List.mem_of_mem_drop hj)
  omega

/-- What one appending does to the order of time, once the entries so far are in it. -/
theorem inOrder_iff (hclock : Rising clock) {i : Nat} (h : Interleaving (steps ++ [.append i]))
    (horder : (Shared.run calls clock limit steps).history.NewestFirst) :
    ((Shared.run calls clock limit (steps ++ [.append i])).history.NewestFirst ∧
        (Shared.run calls clock limit steps).history.EvictsOldest
          (Shared.entry calls clock steps i)) ↔
      ∀ j ∈ Shared.kept (room limit) steps, ¬ reading steps i < reading steps j := by
  have hroom : 0 < (Shared.run calls clock limit steps).history.limit :=
    Shared.limit_run h.init ▸ room_pos limit
  rw [← newest_iff hclock h, Shared.history_of_append h]
  refine inOrder_append_iff hroom (Shared.length_run_le h.init) horder ?_
  rw [Shared.entries_run h.init, List.forall_mem_map]
  intro j hj heq
  have hne := reading_ne h (List.mem_of_mem_drop hj)
  have hlt := time_entry_lt_iff calls hclock steps i j
  have hgt := time_entry_lt_iff calls hclock steps j i
  omega

/-- As long as nobody is overtaken the list is in the order of time. -/
theorem newestFirst_of_not_overtaken (hclock : Rising clock) (h : Interleaving steps)
    (hturn : ∀ i j, ¬ Overtaken (room limit) steps i j) :
    (Shared.run calls clock limit steps).history.NewestFirst := by
  induction steps using List.reverseRecOn with
  | nil => exact List.Pairwise.nil
  | append_singleton steps m ih =>
    have horder := ih h.init fun i j hovertaken => hturn i j
      (hovertaken.later (List.prefix_append ..))
    cases m with
    | stamp i => rwa [Shared.history_of_stamp]
    | append i =>
      exact ((inOrder_iff hclock h horder).2 fun j hj hlt => hturn i j
        ⟨steps, List.prefix_rfl, hj, hlt⟩).1

end

/-! ## One call after another -/

/-- The schedule in which each call takes both steps at once. -/
def oneByOne (order : List Nat) : List Step := order.flatMap fun i => [.stamp i, .append i]

theorem oneByOne_cons (k : Nat) (order : List Nat) :
    oneByOne (k :: order) = [.stamp k, .append k] ++ oneByOne order := rfl

theorem oneByOne_concat (order : List Nat) (k : Nat) :
    oneByOne (order ++ [k]) = oneByOne order ++ [.stamp k] ++ [.append k] := by
  simp [oneByOne]

theorem stamps_oneByOne (order : List Nat) : stamps (oneByOne order) = order := by
  induction order using List.reverseRecOn with
  | nil => rfl
  | append_singleton order k ih => rw [oneByOne_concat, stamps_append, stamps_stamp, ih]

theorem appends_oneByOne (order : List Nat) : appends (oneByOne order) = order := by
  induction order using List.reverseRecOn with
  | nil => rfl
  | append_singleton order k ih => rw [oneByOne_concat, appends_append, appends_stamp, ih]

theorem interleaving_oneByOne {order : List Nat} (h : order.Nodup) :
    Interleaving (oneByOne order) := by
  intro i
  induction order with
  | nil => exact List.nil_prefix
  | cons k order ih =>
    obtain ⟨hk, horder⟩ := List.nodup_cons.1 h
    by_cases hi : k = i
    · have hrest : (oneByOne order).filter (·.call == i) = [] := by
        rw [List.filter_eq_nil_iff]
        intro m hm
        obtain ⟨j, hj, hm⟩ := List.mem_flatMap.1 hm
        have hij : j ≠ i := fun hji => hk (hi ▸ hji ▸ hj)
        rcases List.mem_pair.1 hm with rfl | rfl
        all_goals simpa [Step.call] using hij
      rw [oneByOne_cons, List.filter_append, hrest, hi]
      simp [Step.call]
    · rw [oneByOne_cons, List.filter_append]
      simpa [Step.call, hi] using ih horder

/-- Calls that come one after another do not overtake. -/
theorem not_overtaken_oneByOne (room : Nat) {order : List Nat} (h : order.Nodup) (i j : Nat) :
    ¬ Overtaken room (oneByOne order) i j := by
  induction order using List.reverseRecOn with
  | nil =>
    rintro ⟨pre, hpre, -⟩
    simp [oneByOne] at hpre
  | append_singleton order k ih =>
    have horder : order.Nodup := h.sublist (List.sublist_append_left ..)
    rintro ⟨pre, hpre, hj, hlt⟩
    rw [oneByOne_concat, List.prefix_concat_iff] at hpre
    rcases hpre with heq | hpre
    · -- the last call read the clock last of all
      obtain ⟨rfl, hstep⟩ := List.append_inj' heq rfl
      obtain rfl : i = k := by simpa using hstep
      have hk : i ∉ order := by
        intro hi
        exact (List.nodup_append.1 h).2.2 i hi i (List.mem_singleton_self i) rfl
      have hj : j ∈ order := by
        have happended := List.mem_of_mem_drop hj
        rwa [appends_stamp, appends_oneByOne] at happended
      have hlast : reading (oneByOne order ++ [.stamp i]) i = order.length := by
        rw [reading, stamps_stamp, stamps_oneByOne, List.idxOf_append, if_neg hk]
        simp
      have hearlier : reading (oneByOne order ++ [.stamp i]) j < order.length := by
        rw [reading, stamps_stamp, stamps_oneByOne, List.idxOf_append_of_mem hj]
        exact List.idxOf_lt_length_of_mem hj
      omega
    · rcases List.prefix_concat_iff.1 hpre with heq | hpre
      · simp at heq
      · exact ih horder ⟨pre, hpre, hj, hlt⟩

/-- One call after another leaves the list in the order of time. -/
theorem newestFirst_oneByOne (limit : Int) (calls : Nat → Call) {clock : Nat → Instant}
    (hclock : Rising clock) {order : List Nat} (h : order.Nodup) :
    (Shared.run calls clock limit (oneByOne order)).history.NewestFirst :=
  newestFirst_of_not_overtaken hclock (interleaving_oneByOne h) (not_overtaken_oneByOne _ h)

/-! ## Any interleaving -/

/-- **Newest first.** The list shows the calls in the reverse order of their appending, whatever the
interleaving. By time it is newest first at every moment, and every entry that leaves is the oldest,
exactly when no call is overtaken by one that is still kept when it comes to append. -/
theorem newest_first_iff_no_overtaking (limit : Int) (calls : Nat → Call) {clock : Nat → Instant}
    (hclock : Rising clock) {steps : List Step} (h : Interleaving steps) :
    let after := Shared.run calls clock limit
    (after steps).history.list =
      ((Shared.kept (room limit) steps).map (Shared.entry calls clock steps)).reverse ∧
    (((∀ pre, pre <+: steps → (after pre).history.NewestFirst) ∧
        ∀ pre i, pre ++ [.append i] <+: steps →
          ∃ e, (after pre).pending i = some e ∧ (after pre).history.EvictsOldest e) ↔
      ∀ i j, ¬ Overtaken (room limit) steps i j) := by
  intro after
  refine ⟨by rw [list, Shared.entries_run h], ?_⟩
  constructor
  · rintro ⟨horder, holdest⟩ i j ⟨pre, hpre, hj, hlt⟩
    have happend := h.before hpre
    obtain ⟨e, he, hevicts⟩ := holdest pre i hpre
    obtain rfl := Option.some.inj ((Shared.pending_of_append happend).symm.trans he)
    have hin := horder pre ((List.prefix_append ..).trans hpre)
    exact (inOrder_iff hclock happend hin).1 ⟨horder _ hpre, hevicts⟩ j hj hlt
  · intro hturn
    have horder : ∀ pre, pre <+: steps → (after pre).history.NewestFirst := fun pre hpre =>
      newestFirst_of_not_overtaken hclock (h.before hpre) fun i j hovertaken => hturn i j
        (hovertaken.later hpre)
    refine ⟨horder, fun pre i hpre => ?_⟩
    have happend := h.before hpre
    have hin := horder pre ((List.prefix_append ..).trans hpre)
    exact ⟨_, Shared.pending_of_append happend,
      ((inOrder_iff hclock happend hin).2 fun j hj hlt => hturn i j ⟨pre, hpre, hj, hlt⟩).2⟩

/-- A clock that is read once a minute. -/
def everyMinute (n : Nat) : Instant := Instant.ofSeconds (60 * (n + 1))

theorem rising_everyMinute : Rising everyMinute := by
  intro m n h
  simp only [everyMinute, Instant.ofSeconds]
  omega

/-- A call that records an empty text. -/
def emptyCall (_ : Nat) : Call := ⟨[], [], default⟩

/-- Calls that wait for one another and append in turn keep the list in the order of time. -/
theorem waiting_calls_in_order :
    let steps := [.stamp 0, .stamp 1, .append 0, .stamp 2, .append 1, .append 2]
    Rising everyMinute ∧ Interleaving steps ∧
      ∀ pre, pre <+: steps → (Shared.run emptyCall everyMinute 2 pre).history.NewestFirst := by
  intro steps
  have h : Interleaving steps := fun i => by
    match i with
    | 0 => decide
    | 1 => decide
    | 2 => decide
    | i + 3 => simp [steps, Step.call]
  have hturn : ∀ i j, ¬ Overtaken 2 steps i j := by
    intro i j hovertaken
    obtain ⟨k, hstep, hj, hlt⟩ := overtaken_iff.1 hovertaken
    match k with
    | 0 | 1 | 3 => cases hstep
    | 2 => cases hj
    | 4 =>
      obtain rfl : i = 1 := by cases hstep; rfl
      obtain rfl : j = 0 := List.mem_singleton.1 hj
      revert hlt; decide
    | 5 =>
      obtain rfl : i = 2 := by cases hstep; rfl
      rcases List.mem_pair.1 hj with rfl | rfl
      all_goals revert hlt; decide
    | k + 6 => cases hstep
  exact ⟨rising_everyMinute, h,
    ((newest_first_iff_no_overtaking 2 emptyCall rising_everyMinute h).2.2 hturn).1⟩

/-- A call that is overtaken while it waits for the lock is listed as the newest, and where there is
room for one entry it drives out a newer one. -/
theorem overtaken_call_misplaced :
    let steps := [.stamp 0, .stamp 1, .append 1, .append 0]
    let after (limit : Int) := Shared.run emptyCall everyMinute limit
    Interleaving steps ∧
      (after 2 steps).history.list.map Entry.time = [60000000000, 120000000000] ∧
      ¬ (after 2 steps).history.NewestFirst ∧
      ∃ e, (after 1 (steps.take 3)).pending 0 = some e ∧
        ¬ (after 1 (steps.take 3)).history.EvictsOldest e := by
  intro steps after
  refine ⟨fun i => ?_, ?_, ?_, ?_⟩
  · match i with
    | 0 => decide
    | 1 => decide
    | i + 2 => simp [steps, Step.call]
  · decide
  · unfold NewestFirst; decide
  · refine ⟨_, rfl, ?_⟩
    unfold EvictsOldest; decide

end History
end CodeAudit
