import CodeAudit.Proofs.Live.Views

/-!
# What is reported on a job

A job is cancelled by whoever finds it: its session while the delay still runs, or else the job
itself, when it looks at its session before or after the analysis. Releases and the close can take
the session away at any time, and then the job ends without a word.

**Moves (`Move`).** The ways in which one step of the machine takes one job on, with what is
reported on it then. `evolves_step` says that a step takes every job on by moves alone, whatever
the other jobs and keys do.

**Results.**
* `consistent_run`: at every time, how far a job has come tells what was reported on it.
* `reports_form_life`: the reports on a job are a beginning of one of three lives, and a job that
  is over in a session that lasts was reported done or canceled, exactly once.
-/
namespace CodeAudit
namespace Live

/-- How one step takes job `j` on, and what it reports on the job. A job ends in silence only when
its key is `missing` a session. -/
inductive Move (analyze : Text → Result) (missing : Text → Prop) (j : Nat) :
    Option Job → List Event → Option Job → Prop
  | submit (key text : Text) :
    Move analyze missing j none [.status j .pending] (some ⟨key, text, .armed, false⟩)
  /-- The delay still runs and is stopped. -/
  | stop (job : Job) (h : job.phase = .armed) :
    Move analyze missing j (some job) [.status j .canceled] (some job.stopped)
  /-- The delay is over, so the job is only told. -/
  | tell (job : Job) (h : job.phase ≠ .armed) :
    Move analyze missing j (some job) [] (some job.stopped)
  | fire (job : Job) (h : job.phase = .armed) :
    Move analyze missing j (some job) [] (some { job with phase := .fired })
  | start (job : Job) (h : job.phase = .fired) :
    Move analyze missing j (some job) [.status j .running] (some { job with phase := .running })
  /-- The job finds that its session no longer waits for it. -/
  | giveUp (job : Job) (h : job.phase = .fired ∨ job.phase = .running) :
    Move analyze missing j (some job) [.status j .canceled] (some { job with phase := .over })
  /-- The job finds no session. -/
  | vanish (job : Job) (h : job.phase = .fired ∨ job.phase = .running) (hkey : missing job.key) :
    Move analyze missing j (some job) [] (some { job with phase := .over })
  | deliver (job : Job) (h : job.phase = .running) :
    Move analyze missing j (some job) [.result j (analyze job.text), .status j .done]
      (some { job with cancelled := true, phase := .over })

/-- Any number of moves, with all they report. -/
inductive Moves (analyze : Text → Result) (missing : Text → Prop) (j : Nat) :
    Option Job → List Event → Option Job → Prop
  | refl (o : Option Job) : Moves analyze missing j o [] o
  | snoc {o o' o'' : Option Job} {new new' : List Event} (h : Moves analyze missing j o new o')
    (hm : Move analyze missing j o' new' o'') : Moves analyze missing j o (new ++ new') o''

section
variable {analyze : Text → Result} {missing : Text → Prop} {j : Nat}

theorem Moves.single {o o' : Option Job} {new : List Event} (h : Move analyze missing j o new o') :
    Moves analyze missing j o new o' :=
  Moves.snoc (.refl o) h

theorem Moves.trans {o o' o'' : Option Job} {new new' : List Event}
    (h : Moves analyze missing j o new o') (h' : Moves analyze missing j o' new' o'') :
    Moves analyze missing j o (new ++ new') o'' := by
  induction h' with
  | refl => rw [List.append_nil]; exact h
  | snoc _ hm ih => rw [← List.append_assoc]; exact ih.snoc hm

/-- What every move preserves of a job and the reports on it, moves preserve. -/
theorem Moves.preserve {P : Option Job → List Event → Prop}
    (hP : ∀ {o o' : Option Job} {es new : List Event}, Move analyze missing j o new o' → P o es →
      P o' (es ++ new))
    {o o' : Option Job} {new : List Event} (h : Moves analyze missing j o new o') :
    ∀ es : List Event, P o es → P o' (es ++ new) := by
  induction h with
  | refl => intro es hes; rw [List.append_nil]; exact hes
  | snoc _ hm ih => intro es hes; rw [← List.append_assoc]; exact hP hm (ih es hes)

end

/-- From one state to another, job `j` goes on by moves, and what they report is reported. -/
def Evolves (analyze : Text → Result) (missing : Text → Prop) (j : Nat) (s s' : Live) : Prop :=
  ∃ new, s'.reports j = s.reports j ++ new ∧ Moves analyze missing j s.jobs[j]? new s'.jobs[j]?

section
variable {analyze : Text → Result} {missing : Text → Prop} {j : Nat} {s s' s'' : Live}

theorem Evolves.of_eq (hjobs : s'.jobs[j]? = s.jobs[j]?) (hreports : s'.reports j = s.reports j) :
    Evolves analyze missing j s s' :=
  ⟨[], by rw [hreports, List.append_nil], by rw [hjobs]; exact .refl _⟩

theorem Evolves.of_emitted_eq (hjobs : s'.jobs[j]? = s.jobs[j]?)
    (hemitted : s'.emitted = s.emitted) :
    Evolves analyze missing j s s' := by
  refine .of_eq hjobs ?_
  unfold reports
  rw [hemitted]

theorem Evolves.trans (h : Evolves analyze missing j s s') (h' : Evolves analyze missing j s' s'') :
    Evolves analyze missing j s s'' := by
  obtain ⟨new, hr, hm⟩ := h
  obtain ⟨new', hr', hm'⟩ := h'
  exact ⟨new ++ new', by rw [hr', hr, List.append_assoc], hm.trans hm'⟩

/-- A step that changes job `i` by `f` and reports `new` on it: one move of that job, and nothing
for the others. -/
theorem Evolves.of_modify {i : Nat} {job : Job} {f : Job → Job} (new : List Event)
    (hjob : s.jobs[i]? = some job) (hjobs : s'.jobs = s.jobs.modify i f)
    (hemitted : s'.emitted = s.emitted ++ new) (hnew : ∀ e ∈ new, e.job = i)
    (hmove : Move analyze missing i (some job) new (some (f job))) :
    Evolves analyze missing j s s' := by
  have hreports : s'.reports j = s.reports j ++ new.filter (·.job == j) := by
    unfold reports
    rw [hemitted, List.filter_append]
  by_cases hij : i = j
  · subst hij
    refine ⟨new, ?_, ?_⟩
    · rw [hreports, List.filter_eq_self.2]
      intro e he
      simpa using hnew e he
    · rw [hjobs, List.getElem?_modify, hjob]
      simpa using Moves.single hmove
  · refine Evolves.of_eq ?_ ?_
    · rw [hjobs, List.getElem?_modify]
      simp [hij]
    · rw [hreports, List.filter_eq_nil_iff.2, List.append_nil]
      intro e he
      rw [hnew e he]
      simpa using hij

/-- Moving a job on without a report. -/
theorem Evolves.of_advance {i : Nat} {job : Job} {phase : Phase} (hjob : s.jobs[i]? = some job)
    (hmove : Move analyze missing i (some job) [] (some { job with phase := phase })) :
    Evolves analyze missing j s (s.advance i phase) :=
  .of_modify [] hjob (jobs_advance s i phase) (by simp) (fun e he => by cases he) hmove

/-- Moving a job on with a report on it. -/
theorem Evolves.of_report {i c : Nat} {job : Job} {phase : Phase} {st : Status}
    (hjob : s.jobs[i]? = some job)
    (hmove : Move analyze missing i (some job) [.status i st] (some { job with phase := phase })) :
    Evolves analyze missing j s ((s.advance i phase).emit c (.status i st)) := by
  refine .of_modify _ hjob (by rw [jobs_emit, jobs_advance]) (emitted_emit _ _ _) (fun e he => ?_)
    hmove
  rw [List.mem_singleton.1 he]
  rfl

/-- A change that leaves the job it is meant for as it is, or finds none, changes no job. -/
theorem getElem?_modify_of_fixed {jobs : List Job} {i : Nat} {f : Job → Job}
    (h : ∀ job, jobs[i]? = some job → f job = job) (j : Nat) :
      (jobs.modify i f)[j]? = jobs[j]? := by
  rw [List.getElem?_modify]
  by_cases hij : i = j
  · subst hij
    cases hi : jobs[i]? with
    | none => rfl
    | some job => simp [h job hi]
  · simp [hij]

end

/-! ## Every step goes by moves -/

section
variable (analyze : Text → Result) (missing : Text → Prop) (j : Nat)

theorem evolves_cancel (s : Live) (key : Text) : Evolves analyze missing j s (s.cancel key) := by
  unfold cancel
  cases s.session? key with
  | none => exact .of_eq rfl rfl
  | some x =>
    simp only
    have hjobs := jobs_cancelPending s x
    have hemitted := emitted_cancelPending s x
    unfold stopReport at hemitted
    cases hp : x.pending with
    | none =>
      rw [hp, List.append_nil] at hemitted
      rw [hp] at hjobs
      exact .of_emitted_eq (by rw [hjobs]) hemitted
    | some i =>
      rw [hp] at hjobs hemitted
      simp only at hjobs hemitted
      cases hi : s.jobs[i]? with
      | none =>
        rw [hi] at hemitted
        simp only [Option.any_none, Bool.false_eq_true, if_false, List.append_nil] at hemitted
        refine .of_emitted_eq ?_ hemitted
        rw [hjobs]
        exact getElem?_modify_of_fixed (fun job hjob => by rw [hi] at hjob; cases hjob) j
      | some job =>
        rw [hi] at hemitted
        by_cases harmed : job.phase = .armed
        · simp only [Option.any_some, harmed, beq_self_eq_true, if_true] at hemitted
          refine .of_modify _ hi hjobs hemitted (fun e he => ?_) (.stop job harmed)
          rw [List.mem_singleton.1 he]
          rfl
        · have hno : (job.phase == Phase.armed) = false := by simpa using harmed
          simp only [Option.any_some, hno, Bool.false_eq_true, if_false] at hemitted
          exact .of_modify _ hi hjobs hemitted (fun e he => by cases he) (.tell job harmed)

theorem evolves_release (s : Live) (key : Text) : Evolves analyze missing j s (s.release key) := by
  obtain ⟨new, hreports, hmoves⟩ := evolves_cancel analyze missing j s key
  refine ⟨new, ?_, ?_⟩
  · rw [← hreports]
    unfold reports
    rw [emitted_release]
  · rw [jobs_release]
    exact hmoves

theorem evolves_close (s : Live) : Evolves analyze missing j s s.close :=
  close_preserves (P := Evolves analyze missing j s)
    (fun s' key h => h.trans (evolves_release analyze missing j s' key))
    (fun _ h => h.trans (.of_eq rfl rfl)) (.of_eq rfl rfl)

theorem evolves_submit (s : Live) (key text : Text) :
    Evolves analyze missing j s (s.step analyze (.submit key text)) := by
  rw [step_submit]
  split
  · exact .of_eq rfl rfl
  · have henter : Evolves analyze missing j s (s.enter key).2 :=
      .of_emitted_eq (by rw [jobs_enter]) (emitted_enter s key)
    refine (henter.trans (evolves_cancel analyze missing j (s.enter key).2 key)).trans ?_
    rw [← length_jobs_enter_cancel s key]
    generalize (s.enter key).2.cancel key = t
    -- The new job appears behind all others, and the report is on it.
    by_cases hj : t.jobs.length = j
    · subst hj
      refine ⟨[.status t.jobs.length .pending], ?_, ?_⟩
      · rw [reports_emit]
        simp [Event.job, reports]
      · rw [jobs_emit, jobs_enqueue, List.getElem?_concat_length,
          List.getElem?_eq_none (Nat.le_refl _)]
        exact Moves.single (.submit key text)
    · refine .of_eq ?_ ?_
      · rw [jobs_emit, jobs_enqueue]
        by_cases hlt : j < t.jobs.length
        · rw [List.getElem?_append_left hlt]
        · have hout : t.jobs.length + 1 ≤ j := by omega
          rw [List.getElem?_eq_none (by simpa using hout), List.getElem?_eq_none (by omega)]
      · rw [reports_emit]
        simp [Event.job, hj, reports]

theorem evolves_fire (s : Live) (i : Nat) : Evolves analyze missing j s (s.fire i) := by
  by_cases harmed : ∃ job, s.jobs[i]? = some job ∧ job.phase = .armed
  · obtain ⟨job, hi, hphase⟩ := harmed
    refine .of_modify [] hi (jobs_setJob s i _) (by simp) (fun e he => by cases he) ?_
    rw [hphase]
    exact .fire job hphase
  · refine .of_emitted_eq ?_ (emitted_fire s i)
    refine getElem?_modify_of_fixed (fun job hjob => if_neg ?_) j
    rw [beq_iff_eq]
    exact fun hphase => harmed ⟨job, hjob, hphase⟩

theorem evolves_start (s : Live) (i : Nat) :
    Evolves analyze (fun k => s.session? k = none) j s (s.start i) := by
  rcases start_cases s i with h | ⟨job, hi, hfired, h⟩
  · rw [h]
    exact .of_eq rfl rfl
  · rcases h with ⟨hnone, h⟩ | ⟨x, -, ⟨-, h⟩ | ⟨-, h⟩⟩ <;> rw [h]
    · exact .of_advance hi (.vanish job (Or.inl hfired) hnone)
    · exact .of_report hi (.start job hfired)
    · exact .of_report hi (.giveUp job (Or.inl hfired))

theorem evolves_finish (s : Live) (i : Nat) :
    Evolves analyze (fun k => s.session? k = none) j s (s.finish analyze i) := by
  rcases finish_cases analyze s i with h | ⟨job, hi, hrunning, h⟩
  · rw [h]
    exact .of_eq rfl rfl
  · rcases h with ⟨hnone, h⟩ | ⟨x, -, ⟨-, h⟩ | ⟨-, h⟩⟩ <;> rw [h]
    · exact .of_advance hi (.vanish job (Or.inr hrunning) hnone)
    · refine .of_modify [.result i (analyze job.text), .status i .done] hi
        (f := fun job => { job with cancelled := true, phase := .over }) ?_ ?_ (fun e he => ?_)
        (.deliver job hrunning)
      · rw [jobs_emit, jobs_emit]
        rfl
      · rw [emitted_emit, emitted_emit, List.append_assoc]
        rfl
      · rcases List.mem_cons.1 he with rfl | he
        · rfl
        · rw [List.mem_singleton.1 he]
          rfl
    · exact .of_report hi (.giveUp job (Or.inr hrunning))

/-- **One step.** Every action takes every job on by moves; a job vanishes only when its key has no
session before the action. -/
theorem evolves_step (s : Live) (a : Action) :
    Evolves analyze (fun k => s.session? k = none) j s (s.step analyze a) := by
  cases a with
  | events key =>
    exact .of_emitted_eq (by rw [step, jobs_events]) (emitted_events s key)
  | submit key text => exact evolves_submit analyze _ j s key text
  | fire i => exact evolves_fire analyze _ j s i
  | start i => exact evolves_start analyze j s i
  | finish i => exact evolves_finish analyze j s i
  | cancel key => exact evolves_cancel analyze _ j s key
  | release key => exact evolves_release analyze _ j s key
  | close => exact evolves_close analyze _ j s
  | receive c => exact .of_eq rfl rfl

end

/-- A job that is over stays over. -/
theorem over_step (analyze : Text → Result) {s : Live} {j : Nat} {job : Job}
    (hjob : s.jobs[j]? = some job) (hover : job.phase = .over) (a : Action) :
    ∃ job', (s.step analyze a).jobs[j]? = some job' ∧ job'.key = job.key ∧ job'.phase = .over := by
  obtain ⟨new, -, hmoves⟩ := evolves_step analyze j s a
  refine hmoves.preserve (P := fun o _ => ∃ job', o = some job' ∧ job'.key = job.key ∧
    job'.phase = .over) (fun hm h => ?_) [] ⟨job, hjob, rfl, hover⟩
  obtain ⟨job', rfl, hkey, hover'⟩ := h
  cases hm with
  | tell _ h => exact ⟨_, rfl, hkey, by simp [Job.stopped, hover']⟩
  | stop _ h => simp [hover'] at h
  | fire _ h => simp [hover'] at h
  | start _ h => simp [hover'] at h
  | giveUp _ h => simp [hover'] at h
  | vanish _ h => simp [hover'] at h
  | deliver _ h => simp [hover'] at h

/-! ## The lives of a job -/

/-- The three ways in which the reports on a job with result `r` can end. -/
def lives (j : Nat) (r : Result) : List (List Event) :=
  [[.status j .pending, .status j .canceled],
    [.status j .pending, .status j .running, .status j .canceled],
    [.status j .pending, .status j .running, .result j r, .status j .done]]

/-- What was reported on a job, told from how far it has come. Only a job that is over may have
ended in silence. -/
def Consistent (analyze : Text → Result) (j : Nat) : Option Job → List Event → Prop
  | none, es => es = []
  | some job, es =>
    match job.phase with
    | .armed => es = [.status j .pending]
    | .fired => es = [.status j .pending]
    | .running => es = [.status j .pending, .status j .running]
    | .over => es = [.status j .pending] ∨ es = [.status j .pending, .status j .running] ∨
        es ∈ lives j (analyze job.text)

theorem Consistent.move {analyze : Text → Result} {missing : Text → Prop} {j : Nat}
    {o o' : Option Job} {es new : List Event} (hm : Move analyze missing j o new o')
    (h : Consistent analyze j o es) : Consistent analyze j o' (es ++ new) := by
  cases hm with
  | submit key text =>
    simp only [Consistent] at h ⊢
    rw [h]
    rfl
  | stop job harmed =>
    simp only [Consistent, harmed, Job.stopped, if_true] at h ⊢
    rw [h]
    exact Or.inr (Or.inr (by simp [lives]))
  | tell job harmed =>
    simp only [Consistent, Job.stopped, harmed, if_false, List.append_nil] at h ⊢
    exact h
  | fire job harmed =>
    simp only [Consistent, harmed, List.append_nil] at h ⊢
    exact h
  | start job hfired =>
    simp only [Consistent, hfired] at h ⊢
    rw [h]
    rfl
  | giveUp job hphase =>
    rcases hphase with hp | hp <;> simp only [Consistent, hp] at h ⊢ <;> rw [h]
    · exact Or.inr (Or.inr (by simp [lives]))
    · exact Or.inr (Or.inr (by simp [lives]))
  | vanish job hphase hkey =>
    rcases hphase with hp | hp <;> simp only [Consistent, hp, List.append_nil] at h ⊢
    · exact Or.inl h
    · exact Or.inr (Or.inl h)
  | deliver job hrunning =>
    simp only [Consistent, hrunning] at h ⊢
    rw [h]
    exact Or.inr (Or.inr (by simp [lives]))

/-- **Whole runs.** At every time, how far a job has come tells what was reported on it. -/
theorem consistent_run (analyze : Text → Result) (capacity : Int) (actions : List Action)
    (j : Nat) :
    Consistent analyze j ((empty capacity).run analyze actions).jobs[j]?
      (((empty capacity).run analyze actions).reports j) := by
  refine run_preserves (P := fun s => Consistent analyze j s.jobs[j]? (s.reports j)) ?_ actions ?_
  · intro s a h
    obtain ⟨new, hreports, hmoves⟩ := evolves_step analyze j s a
    rw [hreports]
    exact hmoves.preserve (fun hm h => h.move hm) _ h
  · rfl

/-- What was reported on a job, whatever its phase. -/
theorem Consistent.reported {analyze : Text → Result} {j : Nat} {job : Job} {es : List Event}
    (h : Consistent analyze j (some job) es) :
    es = [.status j .pending] ∨ es = [.status j .pending, .status j .running] ∨
      es ∈ lives j (analyze job.text) := by
  unfold Consistent at h
  cases hp : job.phase <;> simp only [hp] at h
  · exact Or.inl h
  · exact Or.inl h
  · exact Or.inr (Or.inl h)
  · exact h

/-- The reports on a job are always a beginning of a life. -/
theorem Consistent.isPrefix {analyze : Text → Result} {j : Nat} {o : Option Job} {es : List Event}
    (h : Consistent analyze j o es) : ∃ r, ∃ life ∈ lives j r, es.IsPrefix life := by
  have hrun : ∀ r, [.status j .pending, .status j .running, .result j r, .status j .done] ∈
      lives j r := by
    intro r
    simp [lives]
  cases o with
  | none =>
    simp only [Consistent] at h
    rw [h]
    exact ⟨default, _, hrun default, List.nil_prefix⟩
  | some job =>
    refine ⟨analyze job.text, ?_⟩
    rcases h.reported with rfl | rfl | hlife
    · exact ⟨_, hrun _, _, rfl⟩
    · exact ⟨_, hrun _, _, rfl⟩
    · exact ⟨es, hlife, List.prefix_refl es⟩

/-- A report after which nothing is reported on the job. -/
def Event.isTerminal : Event → Bool
  | .status _ .canceled => true
  | .status _ .done => true
  | _ => false

/-- A life has one last report, at its end. -/
theorem lives_terminal {j : Nat} {r : Result} {life : List Event} (h : life ∈ lives j r) :
    ∃ es e, life = es ++ [e] ∧ e.isTerminal = true ∧ ∀ x ∈ es, x.isTerminal = false := by
  simp only [lives, List.mem_cons, List.not_mem_nil, or_false] at h
  rcases h with rfl | rfl | rfl
  · exact ⟨[.status j .pending], _, rfl, rfl, by simp [Event.isTerminal]⟩
  · exact ⟨[.status j .pending, .status j .running], _, rfl, rfl, by simp [Event.isTerminal]⟩
  · exact ⟨[.status j .pending, .status j .running, .result j r], _, rfl, rfl,
      by simp [Event.isTerminal]⟩

theorem nothing_after_terminal {j : Nat} {r : Result} {life es rest : List Event} {e : Event}
    (hlife : life ∈ lives j r) (hes : (es ++ e :: rest).IsPrefix life)
    (he : e.isTerminal = true) : rest = [] := by
  obtain ⟨body, last, rfl, -, hbody⟩ := lives_terminal hlife
  obtain ⟨tail, htail⟩ := hes
  rcases List.eq_nil_or_concat (rest ++ tail) with hnil | ⟨mid, x, hmid⟩
  · exact (List.append_eq_nil_iff.1 hnil).1
  · -- Something follows `e`, so `e` is in the body of the life, which has no such report.
    exfalso
    have hcut : es ++ e :: mid ++ [x] = body ++ [last] := by
      rw [← htail, List.append_assoc, List.append_assoc, List.cons_append, List.cons_append, hmid,
        List.concat_eq_append]
    obtain ⟨hbody', -⟩ := List.append_inj' hcut rfl
    have := hbody e (by rw [← hbody']; simp)
    rw [he] at this
    cases this

/-! ## Jobs whose session lasts -/

/-- Job `j` of a key with a session; if it is over, its life is complete. -/
def Accounted (analyze : Text → Result) (key : Text) (j : Nat) (o : Option Job) (es : List Event) :
    Prop :=
  Consistent analyze j o es ∧ ∃ job, o = some job ∧ job.key = key ∧
    (job.phase = .over → es ∈ lives j (analyze job.text))

theorem Accounted.move {analyze : Text → Result} {missing : Text → Prop} {key : Text} {j : Nat}
    {o o' : Option Job} {es new : List Event} (hkey : ¬ missing key)
    (hm : Move analyze missing j o new o') (h : Accounted analyze key j o es) :
    Accounted analyze key j o' (es ++ new) := by
  obtain ⟨hcons, job, hjob, hk, hover⟩ := h
  have hcons' := hcons.move hm
  refine ⟨hcons', ?_⟩
  cases hm with
  | submit key text => cases hjob
  | stop job' harmed =>
    obtain rfl := Option.some.inj hjob
    refine ⟨_, rfl, hk, fun _ => ?_⟩
    simp only [Consistent, harmed] at hcons
    rw [hcons]
    simp [lives]
  | tell job' harmed =>
    obtain rfl := Option.some.inj hjob
    refine ⟨_, rfl, hk, fun hp => ?_⟩
    rw [List.append_nil]
    apply hover
    simpa [Job.stopped, harmed] using hp
  | fire job' harmed =>
    obtain rfl := Option.some.inj hjob
    exact ⟨_, rfl, hk, fun hp => by cases hp⟩
  | start job' hfired =>
    obtain rfl := Option.some.inj hjob
    exact ⟨_, rfl, hk, fun hp => by cases hp⟩
  | giveUp job' hphase =>
    obtain rfl := Option.some.inj hjob
    refine ⟨_, rfl, hk, fun _ => ?_⟩
    rcases hphase with hp | hp <;> simp only [Consistent, hp] at hcons <;> rw [hcons] <;>
      simp [lives]
  | vanish job' hphase hmissing =>
    obtain rfl := Option.some.inj hjob
    rw [hk] at hmissing
    exact absurd hmissing hkey
  | deliver job' hrunning =>
    obtain rfl := Option.some.inj hjob
    refine ⟨_, rfl, hk, fun _ => ?_⟩
    simp only [Consistent, hrunning] at hcons
    rw [hcons]
    simp [lives]

/-- While the session of its key lasts, a job cannot end in silence. -/
theorem accounted_run (analyze : Text → Result) {key : Text} {j : Nat} (actions : List Action)
    (hrelease : Action.release key ∉ actions) (hclose : Action.close ∉ actions) :
    ∀ {s : Live}, (s.session? key).isSome = true →
      Accounted analyze key j s.jobs[j]? (s.reports j) →
      Accounted analyze key j (s.run analyze actions).jobs[j]?
        ((s.run analyze actions).reports j) := by
  induction actions with
  | nil => intro s _ h; exact h
  | cons a actions ih =>
    intro s hsession h
    simp only [List.mem_cons, not_or] at hrelease hclose
    refine ih hrelease.2 hclose.2 (session?_step_isSome analyze (Ne.symm hrelease.1)
      (Ne.symm hclose.1) hsession) ?_
    obtain ⟨new, hreports, hmoves⟩ := evolves_step analyze j s a
    rw [hreports]
    refine hmoves.preserve (fun hm h => h.move ?_ hm) _ h
    intro hnone
    rw [hnone] at hsession
    cases hsession

/-- A submitted job is pending in a session of its key. -/
theorem submit?_accounted (analyze : Text → Result) {s s' : Live} {key text : Text} {j : Nat}
    (hcons : Consistent analyze j s.jobs[j]? (s.reports j))
    (h : s.submit? key text = some (j, s')) :
    (s'.session? key).isSome = true ∧ Accounted analyze key j s'.jobs[j]? (s'.reports j) := by
  have hopen := isOpen_of_submit? h
  have hstep : s.step analyze (.submit key text) = s' := by
    simp [step, h]
  rw [submit?_eq hopen, Option.some.injEq, Prod.mk.injEq] at h
  obtain ⟨rfl, rfl⟩ := h
  constructor
  · rw [session?_emit, session?_enqueue, if_pos rfl, Option.isSome_map, session?_cancel_isSome,
      session?_enter_isSome]
    simp
  · obtain ⟨new, hreports, hmoves⟩ := evolves_step analyze s.jobs.length s (.submit key text)
    rw [hstep] at hreports hmoves
    refine ⟨?_, ⟨key, text, .armed, false⟩, ?_, rfl, fun hp => by cases hp⟩
    · rw [hreports]
      exact hmoves.preserve (fun hm h => h.move hm) _ hcons
    · rw [jobs_emit, jobs_enqueue, ← length_jobs_enter_cancel s key,
        List.getElem?_concat_length]

/-- **The life of a job.** Over any run, the reports on each job are a beginning of one of its
lives, and nothing is reported after a job is canceled or done. A job that was submitted and is
over, with no release of its key and no close in between, was reported canceled or done exactly
once. -/
theorem reports_form_life (analyze : Text → Result) (capacity : Int) :
    (∀ (actions : List Action) (j : Nat),
      (∃ r, ∃ life ∈ lives j r,
        (((empty capacity).run analyze actions).reports j).IsPrefix life) ∧
      ∀ es e rest, ((empty capacity).run analyze actions).reports j = es ++ e :: rest →
        e.isTerminal = true → rest = []) ∧
    ∀ (earlier later : List Action) (key text : Text) (j : Nat) (s : Live) (job : Job),
      ((empty capacity).run analyze earlier).submit? key text = some (j, s) →
      Action.release key ∉ later → Action.close ∉ later →
      (s.run analyze later).jobs[j]? = some job → job.phase = .over →
      ((s.run analyze later).reports j).countP Event.isTerminal = 1 := by
  constructor
  · intro actions j
    obtain ⟨r, life, hlife, hprefix⟩ := (consistent_run analyze capacity actions j).isPrefix
    refine ⟨⟨r, life, hlife, hprefix⟩, fun es e rest heq he => ?_⟩
    rw [heq] at hprefix
    exact nothing_after_terminal hlife hprefix he
  · intro earlier later key text j s job hsubmit hrelease hclose hjob hover
    obtain ⟨hsession, hacc⟩ :=
      submit?_accounted analyze (consistent_run analyze capacity earlier j) hsubmit
    obtain ⟨-, job', hjob', -, hdone⟩ := accounted_run analyze later hrelease hclose hsession hacc
    rw [hjob] at hjob'
    obtain rfl := Option.some.inj hjob'
    obtain ⟨es, e, hlife, he, hes⟩ := lives_terminal (hdone hover)
    rw [hlife, List.countP_append, List.countP_eq_zero.2]
    · simp [he]
    · intro x hx
      rw [hes x hx]
      simp

/-- A job that is cancelled while its text is analyzed reports so itself, also when the channel
holds but one report. -/
theorem canceled_once_while_running :
    ∃ s job, (empty 1).submit? [97] [98] = some (0, s) ∧
      (s.run (fun _ => default) [.fire 0, .start 0, .cancel [97], .finish 0]).jobs[0]? = some job ∧
      job.phase = .over ∧
      ((s.run (fun _ => default) [.fire 0, .start 0, .cancel [97], .finish 0]).reports 0).countP
        Event.isTerminal = 1 := by
  refine ⟨_, ⟨[97], [98], .over, true⟩, rfl, by decide, rfl, ?_⟩
  exact (reports_form_life (fun _ => default) 1).2 [] [.fire 0, .start 0, .cancel [97], .finish 0]
    [97] [98] 0 _ ⟨[97], [98], .over, true⟩ rfl (by decide) (by decide) (by decide) rfl

end Live
end CodeAudit
