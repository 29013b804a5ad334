import CodeAudit.Live

/-!
# Views of a live session machine

The state of live analysis is seen through four views: what was reported so far (`emitted`), whose
texts were submitted (`submissions`), which job a key waits for (`pendingOf`) and whether a key has
a session (`session?`). Every operation is described here by what it does to each view, so that
later proofs need not open the operations again.

Whether a report was sent or dropped makes no difference to `emitted`.
-/
namespace CodeAudit
namespace Live

/-- The report of an effect, whether it fitted the channel or not. -/
def Effect.event? : Effect → Option Event
  | .sent _ e => some e
  | .dropped _ e => some e
  | .closed _ => none

/-- All reports so far, in the order they were made. -/
def emitted (s : Live) : List Event := s.log.reverse.filterMap Effect.event?

/-- The reports on one job, in the order they were made. -/
def reports (s : Live) (j : Nat) : List Event := s.emitted.filter (·.job == j)

/-- What was submitted, by job number. -/
def submissions (s : Live) : List (Text × Text) := s.jobs.map fun job => (job.key, job.text)

/-- The job a key waits for. -/
def pendingOf (s : Live) (key : Text) : Option Nat := (s.session? key).bind Session.pending

/-! ## The small updates -/

theorem session?_key {s : Live} {key : Text} {x : Session} (h : s.session? key = some x) :
    x.key = key := by
  have := List.find?_some h
  simpa using this

@[simp] theorem session?_setPending (s : Live) (key : Text) (p : Option Nat) (k : Text) :
    (s.setPending key p).session? k =
      if k = key then (s.session? k).map fun x => { x with pending := p } else s.session? k := by
  have hkey : ∀ x : Session,
      (if x.key == key then { x with pending := p } else x : Session).key = x.key := by
    intro x
    split <;> rfl
  unfold setPending session?
  simp only [List.find?_map, Function.comp_def, hkey]
  cases hx : s.sessions.find? (·.key == k) with
  | none => split <;> rfl
  | some x =>
    have hxk : x.key = k := session?_key (s := s) hx
    simp only [Option.map_some, hxk, beq_iff_eq]
    split <;> rfl

@[simp] theorem jobs_setPending (s : Live) (key : Text) (p : Option Nat) :
    (s.setPending key p).jobs = s.jobs := rfl

@[simp] theorem emitted_setPending (s : Live) (key : Text) (p : Option Nat) :
    (s.setPending key p).emitted = s.emitted := rfl

@[simp] theorem isClosed_setPending (s : Live) (key : Text) (p : Option Nat) :
    (s.setPending key p).isClosed = s.isClosed := rfl

@[simp] theorem session?_setJob (s : Live) (j : Nat) (f : Job → Job) (k : Text) :
    (s.setJob j f).session? k = s.session? k := rfl

@[simp] theorem jobs_setJob (s : Live) (j : Nat) (f : Job → Job) :
    (s.setJob j f).jobs = s.jobs.modify j f := rfl

@[simp] theorem emitted_setJob (s : Live) (j : Nat) (f : Job → Job) :
    (s.setJob j f).emitted = s.emitted := rfl

@[simp] theorem isClosed_setJob (s : Live) (j : Nat) (f : Job → Job) :
    (s.setJob j f).isClosed = s.isClosed := rfl

@[simp] theorem session?_emit (s : Live) (c : Nat) (e : Event) (k : Text) :
    (s.emit c e).session? k = s.session? k := by
  unfold emit
  simp only
  split <;> rfl

@[simp] theorem jobs_emit (s : Live) (c : Nat) (e : Event) : (s.emit c e).jobs = s.jobs := by
  unfold emit
  simp only
  split <;> rfl

@[simp] theorem isClosed_emit (s : Live) (c : Nat) (e : Event) :
    (s.emit c e).isClosed = s.isClosed := by
  unfold emit
  simp only
  split <;> rfl

/-- A report is made whether it fits the channel or not. -/
@[simp] theorem emitted_emit (s : Live) (c : Nat) (e : Event) :
    (s.emit c e).emitted = s.emitted ++ [e] := by
  unfold emit emitted
  simp only
  split <;> simp [Effect.event?]

@[simp] theorem emitted_shut (s : Live) (c : Nat) : (s.shut c).emitted = s.emitted := by
  simp [shut, emitted, Effect.event?]

/-- Changing how far a job has come changes nothing about what was submitted. -/
theorem map_submission_modify (jobs : List Job) (j : Nat) (f : Job → Job)
    (hf : ∀ job, (f job).key = job.key ∧ (f job).text = job.text) :
    ((jobs.modify j f).map fun job => (job.key, job.text)) =
      jobs.map fun job => (job.key, job.text) := by
  apply List.ext_getElem?
  intro i
  rw [List.getElem?_map, List.getElem?_map, List.getElem?_modify]
  cases jobs[i]? with
  | none => rfl
  | some job =>
    simp only [Option.map_eq_map, Option.map_some]
    split
    · rw [(hf job).1, (hf job).2]
    · rfl

@[simp] theorem reports_emit (s : Live) (c : Nat) (e : Event) (j : Nat) :
    (s.emit c e).reports j = s.reports j ++ if e.job = j then [e] else [] := by
  unfold reports
  rw [emitted_emit, List.filter_append]
  by_cases h : e.job = j <;> simp [h]

/-! ## Entering a session -/

@[simp] theorem jobs_enter (s : Live) (key : Text) : (s.enter key).2.jobs = s.jobs := by
  unfold enter
  split <;> rfl

@[simp] theorem emitted_enter (s : Live) (key : Text) : (s.enter key).2.emitted = s.emitted := by
  unfold enter
  split <;> rfl

@[simp] theorem isClosed_enter (s : Live) (key : Text) :
    (s.enter key).2.isClosed = s.isClosed := by
  unfold enter
  split <;> rfl

/-- A key without a session gets one that waits for nothing; other keys keep theirs. -/
theorem session?_enter (s : Live) (key k : Text) :
    (s.enter key).2.session? k =
      if k = key ∧ s.session? key = none then some ⟨key, s.channels.length, none⟩
      else s.session? k := by
  unfold enter
  cases hx : s.session? key with
  | some x => simp
  | none =>
    simp only [newChannel, and_true]
    unfold session? at hx ⊢
    simp only [List.find?_append]
    by_cases hk : k = key
    · subst hk
      simp [hx]
    · have hne : (key == k) = false := by simpa using Ne.symm hk
      simp [hk, hne]

@[simp] theorem pendingOf_enter (s : Live) (key k : Text) :
    (s.enter key).2.pendingOf k = s.pendingOf k := by
  unfold pendingOf
  rw [session?_enter]
  split
  · rename_i h
    rw [h.1, h.2]
    rfl
  · rfl

theorem session?_enter_isSome (s : Live) (key k : Text) :
    ((s.enter key).2.session? k).isSome = (decide (k = key) || (s.session? k).isSome) := by
  rw [session?_enter]
  by_cases hk : k = key
  · subst hk
    cases hx : s.session? k <;> simp
  · simp [hk]

@[simp] theorem jobs_events (s : Live) (key : Text) : (s.events key).2.jobs = s.jobs := by
  unfold events
  split
  · rfl
  · exact jobs_enter s key

@[simp] theorem emitted_events (s : Live) (key : Text) : (s.events key).2.emitted = s.emitted := by
  unfold events
  split
  · rfl
  · exact emitted_enter s key

@[simp] theorem isClosed_events (s : Live) (key : Text) :
    (s.events key).2.isClosed = s.isClosed := by
  unfold events
  split
  · rfl
  · exact isClosed_enter s key

@[simp] theorem pendingOf_events (s : Live) (key k : Text) :
    (s.events key).2.pendingOf k = s.pendingOf k := by
  unfold events
  split
  · rfl
  · exact pendingOf_enter s key k

/-! ## Cancelling -/

/-- The job that cancelling a session stops, together with what that reports. -/
def stopReport (s : Live) (x : Session) : List Event :=
  match x.pending with
  | none => []
  | some j => if (s.jobs[j]?).any (·.phase == .armed) then [.status j .canceled] else []

@[simp] theorem emitted_cancelPending (s : Live) (x : Session) :
    (s.cancelPending x).emitted = s.emitted ++ s.stopReport x := by
  unfold cancelPending stopReport
  cases x.pending with
  | none => simp
  | some j =>
    simp only
    split <;> simp

@[simp] theorem isClosed_cancelPending (s : Live) (x : Session) :
    (s.cancelPending x).isClosed = s.isClosed := by
  unfold cancelPending
  cases x.pending with
  | none => rfl
  | some j =>
    simp only
    split <;> simp

/-- A job that is cancelled; one whose delay still runs is over at once. -/
def Job.stopped (job : Job) : Job :=
  { job with cancelled := true, phase := if job.phase = .armed then .over else job.phase }

theorem cancelPending_of_none (s : Live) {x : Session} (hp : x.pending = none) :
    s.cancelPending x = s := by
  simp [cancelPending, hp]

/-- The pending job is stopped, which is reported only if its delay still ran. -/
theorem cancelPending_of_some (s : Live) {x : Session} {j : Nat} (hp : x.pending = some j) :
    s.cancelPending x =
      let t := (s.setPending x.key none).setJob j Job.stopped
      if (s.jobs[j]?).any (·.phase == .armed) then t.emit x.channel (.status j .canceled)
        else t := by
  have hjobs : s.jobs.modify j (fun job => { job with
        cancelled := true
        phase := if (s.jobs[j]?).any (·.phase == .armed) then .over else job.phase }) =
      s.jobs.modify j Job.stopped := by
    apply List.ext_getElem?
    intro i
    rw [List.getElem?_modify, List.getElem?_modify]
    by_cases hij : j = i
    · subst hij
      cases s.jobs[j]? with
      | none => rfl
      | some job => simp [Job.stopped]
    · simp [hij]
  unfold cancelPending
  simp only [hp, setJob, setPending, hjobs]

theorem jobs_cancelPending (s : Live) (x : Session) :
    (s.cancelPending x).jobs =
      match x.pending with
      | none => s.jobs
      | some j => s.jobs.modify j Job.stopped := by
  cases hp : x.pending with
  | none => rw [cancelPending_of_none s hp]
  | some j =>
    rw [cancelPending_of_some s hp]
    simp only
    split
    · rw [jobs_emit, jobs_setJob, jobs_setPending]
    · rw [jobs_setJob, jobs_setPending]

@[simp] theorem submissions_cancelPending (s : Live) (x : Session) :
    (s.cancelPending x).submissions = s.submissions := by
  unfold submissions
  rw [jobs_cancelPending]
  cases x.pending with
  | none => rfl
  | some j => exact map_submission_modify s.jobs j Job.stopped fun job => ⟨rfl, rfl⟩

/-- Cancelling leaves the session of the key waiting for nothing, and the others alone. -/
theorem session?_cancelPending {s : Live} {x : Session} (hx : s.session? x.key = some x)
    (k : Text) :
    (s.cancelPending x).session? k =
      if k = x.key then some { x with pending := none } else s.session? k := by
  unfold cancelPending
  cases hp : x.pending with
  | none =>
    simp only
    split
    · rename_i hk
      rw [hk, hx, ← hp]
    · rfl
  | some j =>
    simp only
    split <;>
    · simp only [session?_emit, session?_setJob, session?_setPending]
      split
      · rename_i hk
        rw [hk, hx]
        rfl
      · rfl

@[simp] theorem isClosed_cancel (s : Live) (key : Text) : (s.cancel key).isClosed = s.isClosed := by
  unfold cancel
  split <;> simp

@[simp] theorem submissions_cancel (s : Live) (key : Text) :
    (s.cancel key).submissions = s.submissions := by
  unfold cancel
  split <;> simp

theorem session?_cancel (s : Live) (key k : Text) :
    (s.cancel key).session? k =
      if k = key then (s.session? key).map fun x => { x with pending := none }
      else s.session? k := by
  unfold cancel
  cases hx : s.session? key with
  | none =>
    simp only
    split
    · rename_i hk
      rw [hk, hx]
      rfl
    · rfl
  | some x =>
    have hxk := session?_key hx
    simp only
    rw [session?_cancelPending (by rw [hxk]; exact hx), hxk]
    simp [hxk]

theorem pendingOf_cancel (s : Live) (key k : Text) :
    (s.cancel key).pendingOf k = if k = key then none else s.pendingOf k := by
  unfold pendingOf
  rw [session?_cancel]
  split
  · cases s.session? key <;> rfl
  · rfl

/-- Cancelling touches no job but the one the key waits for. -/
theorem getElem?_jobs_cancel {s : Live} {key : Text} {j : Nat} (h : s.pendingOf key ≠ some j) :
    (s.cancel key).jobs[j]? = s.jobs[j]? := by
  unfold pendingOf at h
  unfold cancel
  cases hx : s.session? key with
  | none => rfl
  | some x =>
    rw [hx] at h
    simp only
    rw [jobs_cancelPending]
    cases hp : x.pending with
    | none => rfl
    | some i =>
      have hij : i ≠ j := by
        rintro rfl
        exact h hp
      rw [List.getElem?_modify]
      simp [hij]

theorem session?_cancel_isSome (s : Live) (key k : Text) :
    ((s.cancel key).session? k).isSome = (s.session? k).isSome := by
  rw [session?_cancel]
  split
  · rename_i hk
    rw [hk]
    cases s.session? key <;> rfl
  · rfl

/-! ## Submitting -/

/-- Adds a job, for which its key waits from now on. -/
def enqueue (s : Live) (key text : Text) : Live :=
  { s.setPending key (some s.jobs.length) with jobs := s.jobs ++ [⟨key, text, .armed, false⟩] }

@[simp] theorem session?_enqueue (s : Live) (key text k : Text) :
    (s.enqueue key text).session? k =
      if k = key then (s.session? k).map fun x => { x with pending := some s.jobs.length }
      else s.session? k :=
  session?_setPending s key (some s.jobs.length) k

@[simp] theorem jobs_enqueue (s : Live) (key text : Text) :
    (s.enqueue key text).jobs = s.jobs ++ [⟨key, text, .armed, false⟩] := rfl

@[simp] theorem emitted_enqueue (s : Live) (key text : Text) :
    (s.enqueue key text).emitted = s.emitted := rfl

@[simp] theorem isClosed_enqueue (s : Live) (key text : Text) :
    (s.enqueue key text).isClosed = s.isClosed := rfl

theorem length_jobs_eq (s : Live) : s.jobs.length = s.submissions.length := by
  simp [submissions]

theorem length_jobs_enter_cancel (s : Live) (key : Text) :
    ((s.enter key).2.cancel key).jobs.length = s.jobs.length := by
  rw [length_jobs_eq, submissions_cancel, ← length_jobs_eq, jobs_enter]

/-- A key takes the new job after its session was entered and its old job cancelled. -/
theorem submit?_eq {s : Live} (h : s.isClosed = false) (key text : Text) :
    s.submit? key text = some (s.jobs.length,
      (((s.enter key).2.cancel key).enqueue key text).emit (s.enter key).1
        (.status s.jobs.length .pending)) := by
  unfold submit?
  rw [h]
  simp only [Bool.false_eq_true, if_false]
  unfold enqueue
  rw [length_jobs_enter_cancel]

theorem step_submit (analyze : Text → Result) (s : Live) (key text : Text) :
    s.step analyze (.submit key text) =
      if s.isClosed then s
      else (((s.enter key).2.cancel key).enqueue key text).emit (s.enter key).1
        (.status s.jobs.length .pending) := by
  cases h : s.isClosed with
  | true => simp [step, submit?, h]
  | false => simp [step, submit?_eq h]

/-- After a submission its key waits for the new job. -/
theorem pendingOf_submit_self (analyze : Text → Result) {s : Live} (hopen : s.isClosed = false)
    (key text : Text) :
    (s.step analyze (.submit key text)).pendingOf key = some s.jobs.length := by
  unfold pendingOf
  rw [step_submit, hopen, if_neg Bool.false_ne_true, session?_emit, session?_enqueue, if_pos rfl,
    length_jobs_enter_cancel]
  have hsome : (((s.enter key).2.cancel key).session? key).isSome = true := by
    rw [session?_cancel_isSome, session?_enter_isSome]
    simp
  obtain ⟨x, hx⟩ := Option.isSome_iff_exists.1 hsome
  rw [hx]
  rfl

/-- A submission concerns no key but its own. -/
theorem pendingOf_submit_of_ne (analyze : Text → Result) (s : Live) {key k : Text} (hk : k ≠ key)
    (text : Text) : (s.step analyze (.submit key text)).pendingOf k = s.pendingOf k := by
  rw [step_submit]
  split
  · rfl
  · unfold pendingOf
    rw [session?_emit, session?_enqueue, if_neg hk]
    change ((s.enter key).2.cancel key).pendingOf k = s.pendingOf k
    rw [pendingOf_cancel, if_neg hk, pendingOf_enter]

theorem getElem?_jobs_submit (analyze : Text → Result) {s : Live} {key : Text} {j : Nat}
    (h : s.pendingOf key ≠ some j) (hj : j < s.jobs.length) (text : Text) :
    (s.step analyze (.submit key text)).jobs[j]? = s.jobs[j]? := by
  rw [step_submit]
  split
  · rfl
  · rw [jobs_emit, jobs_enqueue,
      List.getElem?_append_left (by rw [length_jobs_enter_cancel]; exact hj),
      getElem?_jobs_cancel (by rw [pendingOf_enter]; exact h), jobs_enter]

/-! ## Releasing and closing -/

@[simp] theorem isClosed_release (s : Live) (key : Text) :
    (s.release key).isClosed = s.isClosed := by
  unfold release
  split
  · rfl
  · exact isClosed_cancelPending s _

/-- The reports and jobs of a release are those of a cancellation. -/
theorem emitted_release (s : Live) (key : Text) :
    (s.release key).emitted = (s.cancel key).emitted := by
  unfold release cancel
  split
  · rfl
  · exact emitted_shut _ _

theorem jobs_release (s : Live) (key : Text) : (s.release key).jobs = (s.cancel key).jobs := by
  unfold release cancel
  split <;> rfl

@[simp] theorem submissions_release (s : Live) (key : Text) :
    (s.release key).submissions = s.submissions := by
  rw [← submissions_cancel s key]
  unfold submissions
  rw [jobs_release]

/-- A released key has no session; other keys keep theirs. -/
theorem session?_release (s : Live) (key k : Text) :
    (s.release key).session? k = if k = key then none else s.session? k := by
  unfold release
  cases hx : s.session? key with
  | none =>
    simp only
    split
    · rename_i hk
      rw [hk]
      exact hx
    · rfl
  | some x =>
    have hxk := session?_key hx
    have hcancel := session?_cancelPending (s := s) (x := x) (by rw [hxk]; exact hx) k
    simp only
    unfold session? at hcancel ⊢
    simp only [List.find?_filter]
    by_cases hk : k = key
    · rw [if_pos hk, List.find?_eq_none]
      intro y _
      by_cases hy : y.key = k
      · simp [hy, hk]
      · simp [hy]
    · rw [if_neg hk]
      rw [hxk, if_neg hk] at hcancel
      rw [← hcancel]
      congr 1
      funext y
      by_cases hy : y.key = k
      · simp [hy, hk]
      · simp [hy]

theorem pendingOf_release (s : Live) (key k : Text) :
    (s.release key).pendingOf k = if k = key then none else s.pendingOf k := by
  unfold pendingOf
  rw [session?_release]
  split <;> rfl

theorem session?_foldl_release (keys : List Text) :
    ∀ (s : Live) (k : Text),
      (keys.foldl release s).session? k = if k ∈ keys then none else s.session? k := by
  induction keys with
  | nil => intro s k; simp
  | cons key keys ih =>
    intro s k
    rw [List.foldl_cons, ih, session?_release]
    by_cases hin : k ∈ keys
    · simp [hin]
    · by_cases hk : k = key <;> simp [hin, hk]

/-- Whatever releasing a key preserves, releasing any number of keys preserves. -/
theorem foldl_release_preserves {P : Live → Prop} (hrelease : ∀ s key, P s → P (s.release key))
    (keys : List Text) : ∀ {s : Live}, P s → P (keys.foldl release s) := by
  induction keys with
  | nil => intro s h; exact h
  | cons key keys ih => intro s h; exact ih (hrelease s key h)

/-- Whatever releasing a key and refusing submissions preserve, closing preserves. -/
theorem close_preserves {P : Live → Prop} (hrelease : ∀ s key, P s → P (s.release key))
    (hrefuse : ∀ s : Live, P s → P { s with isClosed := true }) {s : Live} (h : P s) :
    P s.close := by
  unfold close
  split
  · exact h
  · exact hrefuse _ (foldl_release_preserves hrelease _ h)

theorem session?_close {s : Live} (h : s.isClosed = false) (k : Text) :
    s.close.session? k = none := by
  have hfold := session?_foldl_release (s.sessions.map Session.key) s k
  unfold close
  rw [h]
  simp only [Bool.false_eq_true, if_false]
  change ((s.sessions.map Session.key).foldl release s).session? k = none
  rw [hfold]
  split
  · rfl
  · rename_i hnone
    unfold session?
    rw [List.find?_eq_none]
    intro x hx heq
    exact hnone (List.mem_map.2 ⟨x, hx, by simpa using heq⟩)

/-! ## What the clock and the analyses do -/

@[simp] theorem emitted_fire (s : Live) (j : Nat) : (s.fire j).emitted = s.emitted := rfl

@[simp] theorem session?_advance (s : Live) (j : Nat) (phase : Phase) (k : Text) :
    (s.advance j phase).session? k = s.session? k := rfl

@[simp] theorem emitted_advance (s : Live) (j : Nat) (phase : Phase) :
    (s.advance j phase).emitted = s.emitted := rfl

@[simp] theorem jobs_advance (s : Live) (j : Nat) (phase : Phase) :
    (s.advance j phase).jobs = s.jobs.modify j fun job => { job with phase := phase } := rfl

/-- A delivered job is over, and its key waits for nothing. -/
def settle (s : Live) (key : Text) (j : Nat) : Live :=
  (s.setPending key none).setJob j fun job => { job with cancelled := true, phase := .over }

theorem start_cases (s : Live) (j : Nat) :
    s.start j = s ∨ ∃ job, s.jobs[j]? = some job ∧ job.phase = .fired ∧
      ((s.session? job.key = none ∧ s.start j = s.advance j .over) ∨
        ∃ x, s.session? job.key = some x ∧
          ((isCurrent x j job = true ∧
              s.start j = (s.advance j .running).emit x.channel (.status j .running)) ∨
            (isCurrent x j job = false ∧
              s.start j = (s.advance j .over).emit x.channel (.status j .canceled)))) := by
  unfold start
  cases hj : s.jobs[j]? with
  | none => exact Or.inl rfl
  | some job =>
    simp only
    split
    · exact Or.inl rfl
    · rename_i hfired
      refine Or.inr ⟨job, rfl, by simpa using hfired, ?_⟩
      cases hx : s.session? job.key with
      | none => exact Or.inl ⟨rfl, rfl⟩
      | some x =>
        refine Or.inr ⟨x, rfl, ?_⟩
        simp only
        split
        · rename_i hcur
          exact Or.inl ⟨hcur, rfl⟩
        · rename_i hcur
          exact Or.inr ⟨by simpa using hcur, rfl⟩

theorem finish_cases (analyze : Text → Result) (s : Live) (j : Nat) :
    s.finish analyze j = s ∨ ∃ job, s.jobs[j]? = some job ∧ job.phase = .running ∧
      ((s.session? job.key = none ∧ s.finish analyze j = s.advance j .over) ∨
        ∃ x, s.session? job.key = some x ∧
          ((isCurrent x j job = true ∧
              s.finish analyze j =
                ((s.settle job.key j).emit x.channel (.result j (analyze job.text))).emit x.channel
                  (.status j .done)) ∨
            (isCurrent x j job = false ∧
              s.finish analyze j = (s.advance j .over).emit x.channel (.status j .canceled)))) := by
  unfold finish
  cases hj : s.jobs[j]? with
  | none => exact Or.inl rfl
  | some job =>
    simp only
    split
    · exact Or.inl rfl
    · rename_i hrunning
      refine Or.inr ⟨job, rfl, by simpa using hrunning, ?_⟩
      cases hx : s.session? job.key with
      | none => exact Or.inl ⟨rfl, rfl⟩
      | some x =>
        refine Or.inr ⟨x, rfl, ?_⟩
        simp only
        split
        · rename_i hcur
          exact Or.inl ⟨hcur, rfl⟩
        · rename_i hcur
          exact Or.inr ⟨by simpa using hcur, rfl⟩

/-- A job looks at the session of its key: without one it is over, and if the session waits for
another job it is canceled. Else it goes on. -/
def look (s : Live) (j : Nat) (job : Job) (goOn : Session → Live) : Live :=
  match s.session? job.key with
  | none => s.advance j .over
  | some x =>
    if isCurrent x j job then goOn x else (s.advance j .over).emit x.channel (.status j .canceled)

/-- Only a job that has fired starts. -/
theorem start_of_ne {s : Live} {j : Nat} (h : ∀ job, s.jobs[j]? = some job → job.phase ≠ .fired) :
    s.start j = s := by
  unfold start
  cases hj : s.jobs[j]? with
  | none => rfl
  | some job => simp [h job hj]

theorem start_of_fired {s : Live} {j : Nat} {job : Job} (hj : s.jobs[j]? = some job)
    (hfired : job.phase = .fired) :
    s.start j = s.look j job fun x =>
      (s.advance j .running).emit x.channel (.status j .running) := by
  simp only [start, hj, hfired, bne_self_eq_false, Bool.false_eq_true, if_false]
  rfl

/-- Only the analysis of a running job ends. -/
theorem finish_of_ne (analyze : Text → Result) {s : Live} {j : Nat}
    (h : ∀ job, s.jobs[j]? = some job → job.phase ≠ .running) : s.finish analyze j = s := by
  unfold finish
  cases hj : s.jobs[j]? with
  | none => rfl
  | some job => simp [h job hj]

theorem finish_of_running (analyze : Text → Result) {s : Live} {j : Nat} {job : Job}
    (hj : s.jobs[j]? = some job) (hrunning : job.phase = .running) :
    s.finish analyze j = s.look j job fun x =>
      ((s.settle job.key j).emit x.channel (.result j (analyze job.text))).emit x.channel
        (.status j .done) := by
  simp only [finish, hj, hrunning, bne_self_eq_false, Bool.false_eq_true, if_false]
  rfl

theorem isCurrent_iff (x : Session) (j : Nat) (job : Job) :
    isCurrent x j job = true ↔ job.cancelled = false ∧ x.pending = some j := by
  simp [isCurrent]

@[simp] theorem session?_start (s : Live) (j : Nat) (k : Text) :
    (s.start j).session? k = s.session? k := by
  rcases start_cases s j with hs | ⟨job, -, -, ⟨-, hs⟩ | ⟨x, -, ⟨-, hs⟩ | ⟨-, hs⟩⟩⟩ <;> rw [hs]
  · rw [session?_advance]
  · rw [session?_emit, session?_advance]
  · rw [session?_emit, session?_advance]

/-- The end of an analysis changes a session only when the key waits for that job. -/
theorem session?_finish (analyze : Text → Result) (s : Live) (j : Nat) (k : Text) :
    (s.finish analyze j).session? k = s.session? k ∨
      ∃ x, s.session? k = some x ∧ x.pending = some j ∧
        (s.finish analyze j).session? k = some { x with pending := none } := by
  rcases finish_cases analyze s j with hs | ⟨job, -, -, ⟨-, hs⟩ | ⟨x, hx, ⟨hcur, hs⟩ | ⟨-, hs⟩⟩⟩ <;>
    rw [hs]
  · exact Or.inl rfl
  · exact Or.inl rfl
  · rw [session?_emit, session?_emit, settle, session?_setJob, session?_setPending]
    split
    · rename_i hk
      rw [hk, hx]
      exact Or.inr ⟨x, rfl, ((isCurrent_iff x j job).1 hcur).2, rfl⟩
    · exact Or.inl rfl
  · rw [session?_emit, session?_advance]
    exact Or.inl rfl

/-- A start changes at most how far the job has come. -/
theorem jobs_start (s : Live) (j : Nat) :
    (s.start j).jobs = s.jobs ∨
      ∃ phase, (s.start j).jobs = s.jobs.modify j fun job => { job with phase := phase } := by
  rcases start_cases s j with hs | ⟨job, -, -, ⟨-, hs⟩ | ⟨x, -, ⟨-, hs⟩ | ⟨-, hs⟩⟩⟩ <;> rw [hs]
  · exact Or.inl rfl
  · exact Or.inr ⟨_, jobs_advance s j _⟩
  · exact Or.inr ⟨_, by rw [jobs_emit, jobs_advance]⟩
  · exact Or.inr ⟨_, by rw [jobs_emit, jobs_advance]⟩

/-- The end of one analysis changes no other job. -/
theorem getElem?_jobs_finish (analyze : Text → Result) (s : Live) {i j : Nat} (hij : i ≠ j) :
    (s.finish analyze i).jobs[j]? = s.jobs[j]? := by
  have hmodify : ∀ f : Job → Job, (s.jobs.modify i f)[j]? = s.jobs[j]? := by
    intro f
    rw [List.getElem?_modify]
    simp [hij]
  rcases finish_cases analyze s i with hs | ⟨job, -, -, ⟨-, hs⟩ | ⟨x, -, ⟨-, hs⟩ | ⟨-, hs⟩⟩⟩ <;>
    rw [hs]
  · exact hmodify _
  · rw [jobs_emit, jobs_emit]
    exact hmodify _
  · rw [jobs_emit]
    exact hmodify _

/-- A running job that its key waits for delivers when its analysis ends. -/
theorem finish_deliver (analyze : Text → Result) {s : Live} {j : Nat} {job : Job}
    (hjob : s.jobs[j]? = some job) (hrunning : job.phase = .running)
    (hlive : job.cancelled = false) (hpending : s.pendingOf job.key = some j) :
    ∃ c, s.finish analyze j =
      ((s.settle job.key j).emit c (.result j (analyze job.text))).emit c (.status j .done) := by
  unfold pendingOf at hpending
  obtain ⟨x, hx, hxj⟩ := Option.bind_eq_some_iff.1 hpending
  have hcur : isCurrent x j job = true := (isCurrent_iff x j job).2 ⟨hlive, hxj⟩
  refine ⟨x.channel, ?_⟩
  unfold finish
  simp only [hjob, hrunning, hx, hcur]
  rfl

/-! ## Steps and runs -/

theorem isOpen_of_submit? {s s' : Live} {key text : Text} {j : Nat}
    (h : s.submit? key text = some (j, s')) : s.isClosed = false := by
  cases hc : s.isClosed with
  | false => rfl
  | true => simp [submit?, hc] at h

theorem run_append (analyze : Text → Result) (s : Live) (as bs : List Action) :
    s.run analyze (as ++ bs) = (s.run analyze as).run analyze bs := by
  unfold run
  rw [List.foldl_append]

/-- What every step preserves, runs preserve. -/
theorem run_preserves {analyze : Text → Result} {P : Live → Prop}
    (hstep : ∀ s a, P s → P (s.step analyze a)) (actions : List Action) :
    ∀ {s : Live}, P s → P (s.run analyze actions) := by
  induction actions with
  | nil => intro s h; exact h
  | cons a actions ih => intro s h; exact ih (hstep s a h)

/-- What every step preserves of the past and the state, runs preserve. -/
theorem run_history {analyze : Text → Result} {P : List Action → Live → Prop}
    (hstep : ∀ past s a, P past s → P (past ++ [a]) (s.step analyze a)) (actions : List Action) :
    ∀ {past : List Action} {s : Live}, P past s → P (past ++ actions) (s.run analyze actions) := by
  induction actions with
  | nil => intro past s h; rw [List.append_nil]; exact h
  | cons a actions ih =>
    intro past s h
    have := ih (hstep past s a h)
    rw [List.append_assoc] at this
    exact this

/-- A session stays, with its channel, until its key is released or everything is closed. -/
theorem session?_step (analyze : Text → Result) {s : Live} {key : Text} {a : Action}
    (hrelease : a ≠ .release key) (hclose : a ≠ .close) {x : Session}
    (hx : s.session? key = some x) :
    ∃ p, (s.step analyze a).session? key = some { x with pending := p } := by
  have henter : ∀ k, (s.enter k).2.session? key = some x := by
    intro k
    rw [session?_enter, if_neg, hx]
    rintro ⟨rfl, hnone⟩
    rw [hnone] at hx
    cases hx
  have hcancel : ∀ (t : Live) k, t.session? key = some x →
      ∃ p, (t.cancel k).session? key = some { x with pending := p } := by
    intro t k ht
    rw [session?_cancel]
    split
    · rename_i hk
      rw [← hk, ht]
      exact ⟨none, rfl⟩
    · exact ⟨x.pending, ht⟩
  cases a with
  | events k =>
    rw [step, events]
    split
    · exact ⟨x.pending, hx⟩
    · exact ⟨x.pending, henter k⟩
  | submit k text =>
    rw [step_submit]
    split
    · exact ⟨x.pending, hx⟩
    · obtain ⟨p, hp⟩ := hcancel (s.enter k).2 k (henter k)
      rw [session?_emit, session?_enqueue, hp]
      split
      · exact ⟨_, rfl⟩
      · exact ⟨p, rfl⟩
  | fire j => exact ⟨x.pending, hx⟩
  | start j =>
    rw [step, session?_start]
    exact ⟨x.pending, hx⟩
  | finish j =>
    rw [step]
    rcases session?_finish analyze s j key with hs | ⟨y, hy, -, hs⟩ <;> rw [hs]
    · exact ⟨x.pending, hx⟩
    · rw [hx] at hy
      obtain rfl := Option.some.inj hy
      exact ⟨none, rfl⟩
  | cancel k => exact hcancel s k hx
  | release k =>
    rw [step, session?_release, if_neg]
    · exact ⟨x.pending, hx⟩
    · rintro rfl
      exact hrelease rfl
  | close => exact absurd rfl hclose
  | receive c => exact ⟨x.pending, hx⟩

theorem session?_step_isSome (analyze : Text → Result) {s : Live} {key : Text} {a : Action}
    (hrelease : a ≠ .release key) (hclose : a ≠ .close) (h : (s.session? key).isSome = true) :
    ((s.step analyze a).session? key).isSome = true := by
  obtain ⟨x, hx⟩ := Option.isSome_iff_exists.1 h
  obtain ⟨p, hp⟩ := session?_step analyze hrelease hclose hx
  rw [hp]
  rfl

end Live
end CodeAudit
