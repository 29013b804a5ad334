import CodeAudit.Proofs.Live.Reports

/-!
# Only fresh results are delivered

Analyses run side by side and end in any order, and keys may be released and used again while old
analyses still run. What is delivered is decided by the job that the key waits for alone.

**History.** `WaitsSince` ties that job to the past: a key waits only for its latest submission, and
only while nothing since has concerned the key (`Interrupts`). `Delivered` says of a result where in
the past its job was submitted and where it ended. `Remembers` is the invariant that carries both.

**Results.**
* `pendingOf_step`, `results_step`, `submissions_step`: what one step does to the three views.
* `Awaited.step`: a job that nothing has concerned stays the one its key waits for until it is over.
* `results_fresh`: every result is that of the latest submission of its key, unbroken until its
  analysis ended; no job has two; on one key they come in the order of submission; and a running
  job whose key was left alone does deliver.
-/
namespace CodeAudit
namespace Live

/-- The job and the outcome of a report that delivers a result. -/
def Event.result? : Event → Option (Nat × Result)
  | .result j r => some (j, r)
  | .status .. => none

/-- The results so far, each with its job, in the order they were delivered. -/
def results (s : Live) : List (Nat × Result) := s.emitted.filterMap Event.result?

/-- The key under which a job was submitted. -/
def keyOf? (s : Live) (j : Nat) : Option Text := s.submissions[j]?.map Prod.fst

/-- Actions after which a key no longer waits for the job it waited for. -/
def Interrupts (key : Text) : Action → Prop
  | .submit k _ => k = key
  | .cancel k => k = key
  | .release k => k = key
  | .close => True
  | _ => False

/-- After the close there are no sessions. -/
def Quiet (s : Live) : Prop := s.isClosed = true → ∀ k, s.session? k = none

/-! ## One step -/

theorem isClosed_start (s : Live) (j : Nat) : (s.start j).isClosed = s.isClosed := by
  rcases start_cases s j with hs | ⟨job, -, -, ⟨-, hs⟩ | ⟨x, -, ⟨-, hs⟩ | ⟨-, hs⟩⟩⟩ <;> rw [hs]
  · rfl
  · exact isClosed_emit _ _ _
  · exact isClosed_emit _ _ _

theorem isClosed_finish (analyze : Text → Result) (s : Live) (j : Nat) :
    (s.finish analyze j).isClosed = s.isClosed := by
  rcases finish_cases analyze s j with hs | ⟨job, -, -, ⟨-, hs⟩ | ⟨x, -, ⟨-, hs⟩ | ⟨-, hs⟩⟩⟩ <;>
    rw [hs]
  · rfl
  · rw [isClosed_emit, isClosed_emit]
    rfl
  · exact isClosed_emit _ _ _

theorem Quiet.step {s : Live} (h : Quiet s) (analyze : Text → Result) (a : Action) :
    Quiet (s.step analyze a) := by
  intro hclosed k
  cases a with
  | events key =>
    rw [Live.step, isClosed_events] at hclosed
    rw [Live.step, events, if_pos hclosed]
    exact h hclosed k
  | submit key text =>
    rw [step_submit] at hclosed ⊢
    split at hclosed
    · rename_i hc
      rw [if_pos hc]
      exact h hc k
    · rename_i hc
      rw [isClosed_emit, isClosed_enqueue, isClosed_cancel, isClosed_enter] at hclosed
      exact absurd hclosed hc
  | fire j => exact h hclosed k
  | start j =>
    rw [Live.step, isClosed_start] at hclosed
    rw [Live.step, session?_start]
    exact h hclosed k
  | finish j =>
    rw [Live.step, isClosed_finish] at hclosed
    rw [Live.step]
    rcases session?_finish analyze s j k with hs | ⟨x, hx, -, -⟩
    · rw [hs]
      exact h hclosed k
    · rw [h hclosed k] at hx
      cases hx
  | cancel key =>
    rw [Live.step, isClosed_cancel] at hclosed
    rw [Live.step, session?_cancel, h hclosed key, h hclosed k]
    split <;> rfl
  | release key =>
    rw [Live.step, isClosed_release] at hclosed
    rw [Live.step, session?_release, h hclosed k]
    split <;> rfl
  | close =>
    rw [Live.step] at hclosed ⊢
    cases hc : s.isClosed with
    | false => exact session?_close hc k
    | true =>
      unfold close
      rw [if_pos hc]
      exact h hc k
  | receive c => exact h hclosed k

/-- A key waits for a job after a step only if the step submitted it, or if the key waited for it
before and the step did not concern the key. -/
theorem pendingOf_step {s : Live} (hquiet : Quiet s) (analyze : Text → Result) {a : Action}
    {key : Text} {j : Nat} (h : (s.step analyze a).pendingOf key = some j) :
    (∃ text, a = .submit key text ∧ s.isClosed = false ∧ j = s.jobs.length) ∨
      (s.pendingOf key = some j ∧ ¬ Interrupts key a) := by
  have hopen : s.pendingOf key = some j → s.isClosed = true → False := by
    intro hp hc
    unfold pendingOf at hp
    rw [hquiet hc key] at hp
    cases hp
  cases a with
  | events k =>
    rw [Live.step, pendingOf_events] at h
    exact Or.inr ⟨h, fun hi => hi⟩
  | submit k text =>
    cases hc : s.isClosed with
    | true =>
      rw [step_submit, hc, if_pos rfl] at h
      exact (hopen h hc).elim
    | false =>
      by_cases hk : key = k
      · subst hk
        rw [pendingOf_submit_self analyze hc] at h
        exact Or.inl ⟨text, rfl, rfl, (Option.some.inj h).symm⟩
      · rw [pendingOf_submit_of_ne analyze s hk] at h
        exact Or.inr ⟨h, fun hi => hk hi.symm⟩
  | fire i => exact Or.inr ⟨h, fun hi => hi⟩
  | start i =>
    unfold pendingOf at h
    rw [Live.step, session?_start] at h
    exact Or.inr ⟨h, fun hi => hi⟩
  | finish i =>
    unfold pendingOf at h
    rw [Live.step] at h
    rcases session?_finish analyze s i key with hs | ⟨x, -, -, hs⟩ <;> rw [hs] at h
    · exact Or.inr ⟨h, fun hi => hi⟩
    · cases h
  | cancel k =>
    rw [Live.step, pendingOf_cancel] at h
    split at h
    · cases h
    · rename_i hk
      exact Or.inr ⟨h, fun hi => hk hi.symm⟩
  | release k =>
    rw [Live.step, pendingOf_release] at h
    split at h
    · cases h
    · rename_i hk
      exact Or.inr ⟨h, fun hi => hk hi.symm⟩
  | close =>
    unfold pendingOf at h
    rw [Live.step] at h
    cases hc : s.isClosed with
    | false =>
      rw [session?_close hc] at h
      cases h
    | true =>
      unfold close at h
      rw [if_pos hc] at h
      exact (hopen h hc).elim
  | receive c => exact Or.inr ⟨h, fun hi => hi⟩

theorem submissions_emit (s : Live) (c : Nat) (e : Event) :
    (s.emit c e).submissions = s.submissions := by
  unfold submissions
  rw [jobs_emit]

theorem submissions_submit (analyze : Text → Result) {s : Live} (hopen : s.isClosed = false)
    (key text : Text) :
    (s.step analyze (.submit key text)).submissions = s.submissions ++ [(key, text)] := by
  rw [step_submit, hopen, if_neg Bool.false_ne_true, submissions_emit]
  unfold submissions
  rw [jobs_enqueue, List.map_append]
  change ((s.enter key).2.cancel key).submissions ++ [(key, text)] = _
  rw [submissions_cancel]
  unfold submissions
  rw [jobs_enter]

/-- Only a submission adds to what was submitted. -/
theorem submissions_step (analyze : Text → Result) (s : Live) (a : Action) :
    (s.step analyze a).submissions = s.submissions ∨
      ∃ key text, a = .submit key text ∧
        (s.step analyze a).submissions = s.submissions ++ [(key, text)] := by
  have hadvance : ∀ j phase, (s.advance j phase).submissions = s.submissions := fun j phase =>
    map_submission_modify s.jobs j _ fun job => ⟨rfl, rfl⟩
  cases a with
  | events key =>
    left
    unfold submissions
    rw [Live.step, jobs_events]
  | submit key text =>
    cases hc : s.isClosed with
    | false => exact Or.inr ⟨key, text, rfl, submissions_submit analyze hc key text⟩
    | true =>
      left
      rw [step_submit, hc, if_pos rfl]
  | fire j =>
    left
    refine map_submission_modify s.jobs j _ fun job => ?_
    split <;> exact ⟨rfl, rfl⟩
  | start j =>
    left
    rw [Live.step]
    rcases start_cases s j with hs | ⟨job, -, -, ⟨-, hs⟩ | ⟨x, -, ⟨-, hs⟩ | ⟨-, hs⟩⟩⟩ <;> rw [hs]
    · exact hadvance j _
    · rw [submissions_emit, hadvance]
    · rw [submissions_emit, hadvance]
  | finish j =>
    left
    rw [Live.step]
    rcases finish_cases analyze s j with hs | ⟨job, -, -, ⟨-, hs⟩ | ⟨x, -, ⟨-, hs⟩ | ⟨-, hs⟩⟩⟩ <;>
      rw [hs]
    · exact hadvance j _
    · rw [submissions_emit, submissions_emit]
      exact map_submission_modify s.jobs j _ fun job => ⟨rfl, rfl⟩
    · rw [submissions_emit, hadvance]
  | cancel key => exact Or.inl (submissions_cancel s key)
  | release key => exact Or.inl (submissions_release s key)
  | close =>
    left
    refine close_preserves (P := fun t => t.submissions = s.submissions) (fun t key ht => ?_)
      (fun t ht => ht) rfl
    rw [submissions_release, ht]
  | receive c => exact Or.inl rfl

theorem getElem?_submissions {s : Live} {j : Nat} {job : Job} (hjob : s.jobs[j]? = some job) :
    s.submissions[j]? = some (job.key, job.text) := by
  unfold submissions
  rw [List.getElem?_map, hjob]
  rfl

/-- What was submitted stays submitted. -/
theorem getElem?_submissions_step (analyze : Text → Result) {s : Live} {j : Nat} {p : Text × Text}
    (h : s.submissions[j]? = some p) (a : Action) :
    (s.step analyze a).submissions[j]? = some p := by
  rcases submissions_step analyze s a with hs | ⟨key, text, -, hs⟩ <;> rw [hs]
  · exact h
  · rw [List.getElem?_append_left (List.getElem?_eq_some_iff.1 h).1]
    exact h

theorem results_of_emitted {s t : Live} {new : List Event} (h : t.emitted = s.emitted ++ new) :
    t.results = s.results ++ new.filterMap Event.result? := by
  unfold results
  rw [h, List.filterMap_append]

theorem results_cancel (s : Live) (key : Text) : (s.cancel key).results = s.results := by
  unfold cancel
  cases s.session? key with
  | none => rfl
  | some x =>
    rw [results_of_emitted (emitted_cancelPending s x)]
    unfold stopReport
    cases x.pending with
    | none => simp
    | some j =>
      simp only
      split <;> simp [Event.result?]

theorem results_release (s : Live) (key : Text) : (s.release key).results = s.results := by
  rw [← results_cancel s key]
  unfold results
  rw [emitted_release]

/-- Only the end of an analysis delivers a result, and only that of the job its key waits for. -/
theorem results_step (analyze : Text → Result) (s : Live) (a : Action) :
    (s.step analyze a).results = s.results ∨
      ∃ j job, a = .finish j ∧ s.jobs[j]? = some job ∧ job.phase = .running ∧
        s.pendingOf job.key = some j ∧
        (s.step analyze a).emitted =
          s.emitted ++ [.result j (analyze job.text), .status j .done] := by
  have hstatus : ∀ (t : Live) c j st, t.emitted = s.emitted →
      (t.emit c (.status j st)).results = s.results := by
    intro t c j st ht
    rw [results_of_emitted (s := s) (by rw [emitted_emit, ht])]
    simp [Event.result?]
  cases a with
  | events key =>
    left
    unfold results
    rw [Live.step, emitted_events]
  | submit key text =>
    left
    rw [step_submit]
    split
    · rfl
    · rw [results_of_emitted (emitted_emit _ _ _)]
      change ((s.enter key).2.cancel key).results ++ [] = s.results
      rw [List.append_nil, results_cancel]
      unfold results
      rw [emitted_enter]
  | fire j => exact Or.inl rfl
  | start j =>
    left
    rw [Live.step]
    rcases start_cases s j with hs | ⟨job, -, -, ⟨-, hs⟩ | ⟨x, -, ⟨-, hs⟩ | ⟨-, hs⟩⟩⟩ <;> rw [hs]
    · rfl
    · exact hstatus _ _ _ _ rfl
    · exact hstatus _ _ _ _ rfl
  | finish j =>
    rw [Live.step]
    rcases finish_cases analyze s j with
      hs | ⟨job, hj, hrunning, ⟨-, hs⟩ | ⟨x, hx, ⟨hcur, hs⟩ | ⟨-, hs⟩⟩⟩ <;> rw [hs]
    · exact Or.inl rfl
    · exact Or.inl rfl
    · right
      refine ⟨j, job, rfl, hj, hrunning, ?_, ?_⟩
      · unfold pendingOf
        rw [hx]
        exact ((isCurrent_iff x j job).1 hcur).2
      · rw [emitted_emit, emitted_emit, List.append_assoc]
        rfl
    · exact Or.inl (hstatus _ _ _ _ rfl)
  | cancel key => exact Or.inl (results_cancel s key)
  | release key => exact Or.inl (results_release s key)
  | close =>
    left
    refine close_preserves (P := fun t => t.results = s.results) (fun t key ht => ?_)
      (fun t ht => ht) rfl
    rw [results_release, ht]
  | receive c => exact Or.inl rfl

/-! ## A job that its key waits for -/

/-- Until it is over, the job is not cancelled and its key waits for it. -/
def Awaited (s : Live) (key : Text) (j : Nat) : Prop :=
  ∃ job, s.jobs[j]? = some job ∧ job.key = key ∧
    (job.phase = .over ∨ (job.cancelled = false ∧ s.pendingOf key = some j))

theorem awaited_submit (analyze : Text → Result) {s : Live} (hopen : s.isClosed = false)
    (key text : Text) : Awaited (s.step analyze (.submit key text)) key s.jobs.length := by
  refine ⟨⟨key, text, .armed, false⟩, ?_, rfl,
    Or.inr ⟨rfl, pendingOf_submit_self analyze hopen key text⟩⟩
  rw [step_submit, hopen, if_neg Bool.false_ne_true, jobs_emit, jobs_enqueue,
    ← length_jobs_enter_cancel s key, List.getElem?_concat_length]

/-- A change to how far jobs have come leaves a job with its key, cancelled or not. -/
theorem exists_getElem?_modify {jobs : List Job} {f : Job → Job}
    (hf : ∀ job, (f job).key = job.key ∧ (f job).cancelled = job.cancelled) (i : Nat) {j : Nat}
    {job : Job} (hjob : jobs[j]? = some job) :
    ∃ job', (jobs.modify i f)[j]? = some job' ∧ job'.key = job.key ∧
      job'.cancelled = job.cancelled := by
  rw [List.getElem?_modify, hjob]
  by_cases hij : i = j
  · exact ⟨f job, by simp [hij], hf job⟩
  · exact ⟨job, by simp [hij], rfl, rfl⟩

/-- The end of its own analysis is the end of a job that its key waits for. -/
theorem awaited_finish (analyze : Text → Result) {s : Live} {j : Nat} {job : Job}
    (hjob : s.jobs[j]? = some job) (hlive : job.cancelled = false)
    (hpending : s.pendingOf job.key = some j) : Awaited (s.finish analyze j) job.key j := by
  by_cases hrunning : job.phase = .running
  · obtain ⟨c, hs⟩ := finish_deliver analyze hjob hrunning hlive hpending
    refine ⟨{ job with cancelled := true, phase := .over }, ?_, rfl, Or.inl rfl⟩
    rw [hs, jobs_emit, jobs_emit, settle, jobs_setJob, jobs_setPending, List.getElem?_modify, hjob]
    simp
  · have hs : s.finish analyze j = s := by
      simp [finish, hjob, hrunning]
    rw [hs]
    exact ⟨job, hjob, rfl, Or.inr ⟨hlive, hpending⟩⟩

/-- **One step.** What does not concern the key of an awaited job leaves it awaited. Keys wait for
jobs of their own alone, so what concerns other keys does not reach it. -/
theorem Awaited.step {s : Live} {key : Text} {j : Nat} (h : Awaited s key j)
    (hown : ∀ {k i job}, s.pendingOf k = some i → s.jobs[i]? = some job → job.key = k)
    (analyze : Text → Result) {a : Action} (ha : ¬ Interrupts key a) :
    Awaited (s.step analyze a) key j := by
  obtain ⟨job, hjob, rfl, hover | ⟨hlive, hpending⟩⟩ := h
  · obtain ⟨job', hjob', hkey', hover'⟩ := over_step analyze hjob hover a
    exact ⟨job', hjob', hkey', Or.inl hover'⟩
  have hother : ∀ {k}, k ≠ job.key → s.pendingOf k ≠ some j := fun hk hp => hk (hown hp hjob).symm
  cases a with
  | events k =>
    rw [Live.step]
    exact ⟨job, by rw [jobs_events]; exact hjob, rfl,
      Or.inr ⟨hlive, by rw [pendingOf_events]; exact hpending⟩⟩
  | submit k text =>
    have hk : k ≠ job.key := ha
    refine ⟨job, ?_, rfl, Or.inr ⟨hlive, ?_⟩⟩
    · rw [getElem?_jobs_submit analyze (hother hk) (List.getElem?_eq_some_iff.1 hjob).1]
      exact hjob
    · rw [pendingOf_submit_of_ne analyze s hk.symm]
      exact hpending
  | fire i =>
    obtain ⟨job', hjob', hkey', hlive'⟩ := exists_getElem?_modify
      (f := fun job => if job.phase == .armed then { job with phase := .fired } else job)
      (fun job => by split <;> exact ⟨rfl, rfl⟩) i hjob
    exact ⟨job', hjob', hkey', Or.inr ⟨hlive'.trans hlive, hpending⟩⟩
  | start i =>
    have hpending' : (s.start i).pendingOf job.key = some j := by
      unfold pendingOf
      rw [session?_start]
      exact hpending
    rw [Live.step]
    rcases jobs_start s i with hs | ⟨phase, hs⟩
    · exact ⟨job, by rw [hs]; exact hjob, rfl, Or.inr ⟨hlive, hpending'⟩⟩
    · obtain ⟨job', hjob', hkey', hlive'⟩ := exists_getElem?_modify
        (f := fun job => { job with phase := phase }) (fun job => ⟨rfl, rfl⟩) i hjob
      exact ⟨job', by rw [hs]; exact hjob', hkey', Or.inr ⟨hlive'.trans hlive, hpending'⟩⟩
  | finish i =>
    rw [Live.step]
    by_cases hij : i = j
    · subst hij
      exact awaited_finish analyze hjob hlive hpending
    · refine ⟨job, by rw [getElem?_jobs_finish analyze s hij]; exact hjob, rfl,
        Or.inr ⟨hlive, ?_⟩⟩
      unfold pendingOf at hpending ⊢
      rcases session?_finish analyze s i job.key with hs | ⟨x, hx, hxi, -⟩
      · rw [hs]
        exact hpending
      · -- The key would wait for two jobs.
        rw [hx] at hpending
        exact absurd (Option.some.inj (hxi.symm.trans hpending)) hij
  | cancel k =>
    have hk : k ≠ job.key := ha
    rw [Live.step]
    exact ⟨job, by rw [getElem?_jobs_cancel (hother hk)]; exact hjob, rfl,
      Or.inr ⟨hlive, by rw [pendingOf_cancel, if_neg hk.symm]; exact hpending⟩⟩
  | release k =>
    have hk : k ≠ job.key := ha
    rw [Live.step]
    exact ⟨job, by rw [jobs_release, getElem?_jobs_cancel (hother hk)]; exact hjob, rfl,
      Or.inr ⟨hlive, by rw [pendingOf_release, if_neg hk.symm]; exact hpending⟩⟩
  | close => exact absurd trivial ha
  | receive c => exact ⟨job, hjob, rfl, Or.inr ⟨hlive, hpending⟩⟩

/-! ## The past of a job that a key waits for -/

/-- Job `j` is the latest submission of the key, and nothing since has concerned the key. -/
def WaitsSince (analyze : Text → Result) (capacity : Int) (past : List Action) (key text : Text)
    (j : Nat) : Prop :=
  ∃ earlier since, past = earlier ++ .submit key text :: since ∧
    (((empty capacity).run analyze earlier).submit? key text).map Prod.fst = some j ∧
    ∀ a ∈ since, ¬ Interrupts key a

/-- The result of job `j` was delivered when its analysis ended: until then the job was the latest
submission of its key and nothing else had concerned the key, and the result is that of the text
submitted. -/
def Delivered (analyze : Text → Result) (capacity : Int) (past : List Action) (j : Nat)
    (r : Result) : Prop :=
  ∃ before after key text, past = before ++ .finish j :: after ∧
    WaitsSince analyze capacity before key text j ∧ r = analyze text ∧
    ((empty capacity).run analyze (before ++ [.finish j])).emitted =
      ((empty capacity).run analyze before).emitted ++ [.result j r, .status j .done]

theorem WaitsSince.snoc {analyze : Text → Result} {capacity : Int} {past : List Action}
    {key text : Text} {j : Nat} (h : WaitsSince analyze capacity past key text j) {a : Action}
    (ha : ¬ Interrupts key a) : WaitsSince analyze capacity (past ++ [a]) key text j := by
  obtain ⟨earlier, since, rfl, hsubmit, hsince⟩ := h
  refine ⟨earlier, since ++ [a], by simp, hsubmit, fun b hb => ?_⟩
  rcases List.mem_append.1 hb with hb | hb
  · exact hsince b hb
  · rw [List.mem_singleton.1 hb]
    exact ha

/-- Either the last action submitted the job, or it did not concern the key. -/
theorem WaitsSince.of_snoc {analyze : Text → Result} {capacity : Int} {past : List Action}
    {key text : Text} {j : Nat} {a : Action}
    (h : WaitsSince analyze capacity (past ++ [a]) key text j) :
    (a = .submit key text ∧
        (((empty capacity).run analyze past).submit? key text).map Prod.fst = some j) ∨
      (WaitsSince analyze capacity past key text j ∧ ¬ Interrupts key a) := by
  obtain ⟨earlier, since, heq, hsubmit, hsince⟩ := h
  rcases List.eq_nil_or_concat since with rfl | ⟨since, b, rfl⟩
  · obtain ⟨rfl, hlast⟩ := List.append_inj' heq rfl
    obtain rfl := List.singleton_inj.1 hlast
    exact Or.inl ⟨rfl, hsubmit⟩
  · rw [List.concat_eq_append, ← List.cons_append, ← List.append_assoc] at heq
    obtain ⟨rfl, hlast⟩ := List.append_inj' heq rfl
    obtain rfl := List.singleton_inj.1 hlast
    exact Or.inr ⟨⟨earlier, since, rfl, hsubmit, fun b hb => hsince b (by simp [hb])⟩,
      hsince a (by simp)⟩

theorem Delivered.append {analyze : Text → Result} {capacity : Int} {past : List Action} {j : Nat}
    {r : Result} (h : Delivered analyze capacity past j r) (more : List Action) :
    Delivered analyze capacity (past ++ more) j r := by
  obtain ⟨before, after, key, text, rfl, hrest⟩ := h
  exact ⟨before, after ++ more, key, text, by simp, hrest⟩

/-- What the past says about the state it led to. -/
structure Remembers (analyze : Text → Result) (capacity : Int) (past : List Action) (s : Live) :
    Prop where
  eq : s = (empty capacity).run analyze past
  quiet : Quiet s
  /-- The job a key waits for is its latest submission. -/
  pending : ∀ {key j}, s.pendingOf key = some j →
    ∃ text, WaitsSince analyze capacity past key text j ∧ s.submissions[j]? = some (key, text) ∧
      ∀ j' text', s.submissions[j']? = some (key, text') → j' ≤ j
  /-- A submission that nothing has concerned since is awaited. -/
  awaited : ∀ {key text j}, WaitsSince analyze capacity past key text j →
    Awaited s key j ∧ s.submissions[j]? = some (key, text)
  delivered : ∀ {j r}, (j, r) ∈ s.results → Delivered analyze capacity past j r
  ordered : s.results.Pairwise fun a b => s.keyOf? a.1 = s.keyOf? b.1 → a.1 < b.1

theorem mem_emitted_of_mem_results {s : Live} {j : Nat} {r : Result} (h : (j, r) ∈ s.results) :
    Event.result j r ∈ s.emitted := by
  obtain ⟨e, he, hr⟩ := List.mem_filterMap.1 h
  cases e with
  | status i st => cases hr
  | result i q =>
    obtain ⟨rfl, rfl⟩ := Prod.mk.inj (Option.some.inj hr)
    exact he

/-- A job with a result was submitted, and is no longer running. -/
theorem Remembers.job_of_result {analyze : Text → Result} {capacity : Int} {past : List Action}
    {s : Live} (h : Remembers analyze capacity past s) {j : Nat} {r : Result}
    (hr : (j, r) ∈ s.results) : ∃ job, s.jobs[j]? = some job ∧ job.phase ≠ .running := by
  have hmem : Event.result j r ∈ s.reports j :=
    List.mem_filter.2 ⟨mem_emitted_of_mem_results hr, by simp [Event.job]⟩
  have hcons := consistent_run analyze capacity past j
  rw [← h.eq] at hcons
  cases hj : s.jobs[j]? with
  | none =>
    rw [hj] at hcons
    simp only [Consistent] at hcons
    rw [hcons] at hmem
    cases hmem
  | some job =>
    refine ⟨job, rfl, fun hrunning => ?_⟩
    rw [hj] at hcons
    simp only [Consistent, hrunning] at hcons
    rw [hcons] at hmem
    simp at hmem

theorem remembers_empty (analyze : Text → Result) (capacity : Int) :
    Remembers analyze capacity [] (empty capacity) where
  eq := rfl
  quiet := fun h => by cases h
  pending := fun h => by cases h
  awaited := fun h => by
    obtain ⟨earlier, since, heq, -, -⟩ := h
    exact absurd heq (by simp)
  delivered := fun h => by cases h
  ordered := .nil

theorem keyOf?_step (analyze : Text → Result) (s : Live) (a : Action) {j : Nat}
    (hj : j < s.submissions.length) : (s.step analyze a).keyOf? j = s.keyOf? j := by
  unfold keyOf?
  rcases submissions_step analyze s a with h | ⟨key, text, -, h⟩ <;> rw [h]
  rw [List.getElem?_append_left hj]

section
variable {analyze : Text → Result} {capacity : Int} {past : List Action} {s : Live}

theorem Remembers.pending_step (h : Remembers analyze capacity past s) (a : Action) {key : Text}
    {j : Nat} (hj : (s.step analyze a).pendingOf key = some j) :
    ∃ text, WaitsSince analyze capacity (past ++ [a]) key text j ∧
      (s.step analyze a).submissions[j]? = some (key, text) ∧
      ∀ j' text', (s.step analyze a).submissions[j']? = some (key, text') → j' ≤ j := by
  rcases pendingOf_step h.quiet analyze hj with ⟨text, rfl, hopen, rfl⟩ | ⟨hbefore, hquiet⟩
  · -- The job was submitted just now, behind all others.
    refine ⟨text, ⟨past, [], rfl, ?_, by simp⟩, ?_, ?_⟩
    · rw [← h.eq, submit?_eq hopen]
      rfl
    · rw [submissions_submit analyze hopen, length_jobs_eq, List.getElem?_concat_length]
    · intro j' text' hj'
      have hlt := (List.getElem?_eq_some_iff.1 hj').1
      rw [submissions_submit analyze hopen, List.length_append, List.length_singleton,
        ← length_jobs_eq] at hlt
      omega
  · obtain ⟨text, hwaits, hsub, hlatest⟩ := h.pending hbefore
    refine ⟨text, hwaits.snoc hquiet, ?_⟩
    refine ⟨getElem?_submissions_step analyze hsub a, fun j' text' hj' => ?_⟩
    rcases submissions_step analyze s a with hs | ⟨k, t, rfl, hs⟩ <;> rw [hs] at hj'
    · exact hlatest j' text' hj'
    · -- Something was submitted, but not for this key.
      by_cases hj'lt : j' < s.submissions.length
      · rw [List.getElem?_append_left hj'lt] at hj'
        exact hlatest j' text' hj'
      · rw [List.getElem?_append_right (by omega), List.getElem?_singleton] at hj'
        split at hj'
        · exact absurd (congrArg Prod.fst (Option.some.inj hj')) hquiet
        · cases hj'

theorem Remembers.awaited_step (h : Remembers analyze capacity past s) (a : Action)
    {key text : Text} {j : Nat} (hwaits : WaitsSince analyze capacity (past ++ [a]) key text j) :
    Awaited (s.step analyze a) key j ∧ (s.step analyze a).submissions[j]? = some (key, text) := by
  rcases hwaits.of_snoc with ⟨rfl, hsubmit⟩ | ⟨hbefore, hquiet⟩
  · rw [← h.eq] at hsubmit
    obtain ⟨⟨j, s'⟩, hs', rfl⟩ := Option.map_eq_some_iff.1 hsubmit
    have hopen := isOpen_of_submit? hs'
    rw [submit?_eq hopen] at hs'
    obtain rfl : s.jobs.length = j := congrArg Prod.fst (Option.some.inj hs')
    refine ⟨awaited_submit analyze hopen key text, ?_⟩
    rw [submissions_submit analyze hopen, length_jobs_eq, List.getElem?_concat_length]
  · obtain ⟨hawaited, hsub⟩ := h.awaited hbefore
    refine ⟨hawaited.step (fun hp hjob => ?_) analyze hquiet,
      getElem?_submissions_step analyze hsub a⟩
    obtain ⟨text', -, hsub', -⟩ := h.pending hp
    rw [getElem?_submissions hjob] at hsub'
    exact congrArg Prod.fst (Option.some.inj hsub')

/-- The job of a new result is later than those of all results of its key before. -/
theorem Remembers.result_later (h : Remembers analyze capacity past s) {j j' : Nat} {job : Job}
    {r : Result} (hjob : s.jobs[j]? = some job) (hrunning : job.phase = .running)
    (hpending : s.pendingOf job.key = some j) (hr : (j', r) ∈ s.results)
    (hkey : s.keyOf? j' = s.keyOf? j) : j' < j := by
  obtain ⟨text, -, hsub, hlatest⟩ := h.pending hpending
  obtain ⟨job', hjob', hnot⟩ := h.job_of_result hr
  have hne : j' ≠ j := by
    rintro rfl
    rw [hjob] at hjob'
    obtain rfl := Option.some.inj hjob'
    exact hnot hrunning
  have hsub' := getElem?_submissions hjob'
  unfold keyOf? at hkey
  rw [hsub, hsub'] at hkey
  have hk : job'.key = job.key := Option.some.inj hkey
  rw [hk] at hsub'
  have := hlatest j' _ hsub'
  omega

theorem Remembers.step (h : Remembers analyze capacity past s) (a : Action) :
    Remembers analyze capacity (past ++ [a]) (s.step analyze a) := by
  have heq : s.step analyze a = (empty capacity).run analyze (past ++ [a]) := by
    rw [run_append, ← h.eq]
    rfl
  have hlt : ∀ {j r}, (j, r) ∈ s.results → j < s.submissions.length := by
    intro j r hr
    obtain ⟨job, hjob, -⟩ := h.job_of_result hr
    rw [← length_jobs_eq]
    exact (List.getElem?_eq_some_iff.1 hjob).1
  -- Results delivered earlier keep their order, since their jobs keep their keys.
  have hkept : s.results.Pairwise fun a' b' =>
      (s.step analyze a).keyOf? a'.1 = (s.step analyze a).keyOf? b'.1 → a'.1 < b'.1 := by
    refine h.ordered.imp_of_mem fun {a' b'} ha' hb' hlater hkey => hlater ?_
    rw [keyOf?_step analyze s a (hlt ha'), keyOf?_step analyze s a (hlt hb')] at hkey
    exact hkey
  refine ⟨heq, h.quiet.step analyze a, h.pending_step a, h.awaited_step a, ?_, ?_⟩
  · intro j r hr
    rcases results_step analyze s a with hsame | ⟨i, job, rfl, hjob, hrunning, hpending, hnew⟩
    · rw [hsame] at hr
      exact (h.delivered hr).append [a]
    · rw [results_of_emitted hnew] at hr
      rcases List.mem_append.1 hr with hr | hr
      · exact (h.delivered hr).append _
      · simp only [List.filterMap_cons, Event.result?, List.filterMap_nil, List.mem_singleton,
          Prod.mk.injEq] at hr
        obtain ⟨rfl, rfl⟩ := hr
        obtain ⟨text, hwaits, hsub, -⟩ := h.pending hpending
        have htext : job.text = text := by
          rw [getElem?_submissions hjob] at hsub
          exact congrArg Prod.snd (Option.some.inj hsub)
        refine ⟨past, [], job.key, text, rfl, hwaits, by rw [htext], ?_⟩
        rw [← heq, ← h.eq]
        exact hnew
  · rcases results_step analyze s a with hsame | ⟨i, job, rfl, hjob, hrunning, hpending, hnew⟩
    · rw [hsame]
      exact hkept
    · rw [results_of_emitted hnew]
      refine List.pairwise_append.2 ⟨hkept, by simp [List.filterMap_cons, Event.result?], ?_⟩
      rintro ⟨j', r'⟩ hr' b hb hkey
      simp only [List.filterMap_cons, Event.result?, List.filterMap_nil, List.mem_singleton] at hb
      subst hb
      have hi : i < s.submissions.length := by
        rw [← length_jobs_eq]
        exact (List.getElem?_eq_some_iff.1 hjob).1
      rw [keyOf?_step analyze s _ (hlt hr'), keyOf?_step analyze s _ hi] at hkey
      exact h.result_later hjob hrunning hpending hr' hkey

end

/-- **Whole runs.** The past of every run explains its state. -/
theorem remembers_run (analyze : Text → Result) (capacity : Int) (actions : List Action) :
    Remembers analyze capacity actions ((empty capacity).run analyze actions) :=
  run_history (P := Remembers analyze capacity) (fun _ _ a h => h.step a) actions
    (remembers_empty analyze capacity)

/-- A running job that nothing has concerned since its submission delivers when its analysis
ends. -/
theorem Remembers.delivers {analyze : Text → Result} {capacity : Int} {past : List Action}
    {s : Live} (h : Remembers analyze capacity past s) {key text : Text} {j : Nat} {job : Job}
    (hwaits : WaitsSince analyze capacity past key text j) (hjob : s.jobs[j]? = some job)
    (hrunning : job.phase = .running) :
    (s.step analyze (.finish j)).emitted =
      s.emitted ++ [.result j (analyze text), .status j .done] := by
  obtain ⟨⟨job', hjob', rfl, hphase⟩, hsub⟩ := h.awaited hwaits
  rw [hjob] at hjob'
  obtain rfl := Option.some.inj hjob'
  rw [getElem?_submissions hjob] at hsub
  obtain rfl : job.text = text := congrArg Prod.snd (Option.some.inj hsub)
  rw [hrunning] at hphase
  rcases hphase with hover | ⟨hlive, hpending⟩
  · cases hover
  · obtain ⟨c, hs⟩ := finish_deliver analyze hjob hrunning hlive hpending
    rw [Live.step, hs, emitted_emit, emitted_emit, List.append_assoc]
    rfl

/-- **Only fresh results are delivered.** Over any run, a result of job `j` was reported when the
analysis of `j` ended, with `j` the latest submission of its key and neither a cancellation nor a
release of the key nor a close since, and it is the analysis of the text submitted; no job has two
results; and the results of one key come in the order of their submissions. A job still fresh in
this sense does deliver when its analysis ends. -/
theorem results_fresh (analyze : Text → Result) (capacity : Int) (actions : List Action) :
    (∀ j r, Event.result j r ∈ ((empty capacity).run analyze actions).emitted →
      Delivered analyze capacity actions j r) ∧
    (((empty capacity).run analyze actions).results.map Prod.fst).Nodup ∧
    (∀ key, (((empty capacity).run analyze actions).results.map Prod.fst |>.filter fun j =>
      ((empty capacity).run analyze actions).keyOf? j = some key).Pairwise (· < ·)) ∧
    ∀ key text j job, WaitsSince analyze capacity actions key text j →
      ((empty capacity).run analyze actions).jobs[j]? = some job → job.phase = .running →
      (((empty capacity).run analyze actions).step analyze (.finish j)).emitted =
        ((empty capacity).run analyze actions).emitted ++
          [.result j (analyze text), .status j .done] := by
  have h := remembers_run analyze capacity actions
  generalize (empty capacity).run analyze actions = s at h
  refine ⟨fun j r hr => h.delivered (List.mem_filterMap.2 ⟨_, hr, rfl⟩), ?_, fun key => ?_,
    fun key text j job hwaits hjob hrunning => h.delivers hwaits hjob hrunning⟩
  · unfold List.Nodup
    rw [List.pairwise_map]
    refine h.ordered.imp fun {a b} hab heq => ?_
    have := hab (by rw [heq])
    omega
  · rw [List.pairwise_filter, List.pairwise_map]
    refine h.ordered.imp fun {a b} hab ha hb => hab ?_
    rw [of_decide_eq_true ha, of_decide_eq_true hb]

/-- The analysis of an older text ends after that of a newer one: the newer job delivers when its
analysis ends, and the older one never. -/
theorem newer_result_delivered :
    let analyze : Text → Result := fun t => { (default : Result) with secureCode := t }
    let before : List Action := [.submit [97] [98], .fire 0, .start 0, .submit [97] [99], .fire 1,
      .start 1]
    let actions := before ++ [.finish 1, .finish 0]
    (((empty 16).run analyze before).step analyze (.finish 1)).emitted =
        ((empty 16).run analyze before).emitted ++ [.result 1 (analyze [99]), .status 1 .done] ∧
      Event.result 1 (analyze [99]) ∈ ((empty 16).run analyze actions).emitted ∧
      Delivered analyze 16 actions 1 (analyze [99]) ∧
      ((empty 16).run analyze actions).results.map Prod.fst = [1] := by
  intro analyze before actions
  have hwaits : WaitsSince analyze 16 before [97] [99] 1 :=
    ⟨[.submit [97] [98], .fire 0, .start 0], [.fire 1, .start 1], rfl, rfl, by simp [Interrupts]⟩
  have hmem : Event.result 1 (analyze [99]) ∈ ((empty 16).run analyze actions).emitted := by decide
  refine ⟨?_, hmem, (results_fresh analyze 16 actions).1 1 (analyze [99]) hmem, by decide⟩
  exact (results_fresh analyze 16 before).2.2.2 [97] [99] 1 ⟨[97], [99], .running, false⟩ hwaits
    (by decide) rfl

end Live
end CodeAudit
