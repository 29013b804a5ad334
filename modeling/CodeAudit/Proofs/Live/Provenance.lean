import CodeAudit.Proofs.Live.Book

/-!
# Where reports go

A job looks up the session of its key by the key alone, before and after its analysis. Between its
submission and the look the key may have been released and entered again, and then the job finds a
session that it was not submitted in: it strays (`Book.Strays`).

**Results.**
* `Kept.reports_step`: the reports of an action are at home, on the channels their jobs were
  submitted on, unless the action strays, and then it is one cancellation.
* `reports_home_iff`: the reports of a run are all at home exactly when no action of the run strays.
-/
namespace CodeAudit
namespace Live

/-! ## Reports that go home -/

/-- The effect is no report, or a report on a job in the session that the job was submitted in. -/
def Effect.AtHome (homes : List Nat) (f : Effect) : Prop :=
  ∀ e, f.event? = some e → homes[e.job]? = some f.channel

/-- All that happens from one state to another is at home. -/
def StaysHome (homes : List Nat) (s t : Live) : Prop :=
  ∃ new, t.log = new ++ s.log ∧ ∀ f ∈ new, f.AtHome homes

theorem StaysHome.of_log_eq {homes : List Nat} {s t : Live} (h : t.log = s.log) :
    StaysHome homes s t :=
  ⟨[], h, fun f hf => by cases hf⟩

theorem StaysHome.trans {homes : List Nat} {s t u : Live} (hst : StaysHome homes s t)
    (htu : StaysHome homes t u) : StaysHome homes s u := by
  obtain ⟨new, hnew, hhome⟩ := hst
  obtain ⟨newer, hnewer, hhome'⟩ := htu
  refine ⟨newer ++ new, by rw [hnewer, hnew, List.append_assoc], fun f hf => ?_⟩
  exact (List.mem_append.1 hf).elim (hhome' f) (hhome f)

theorem staysHome_emit {homes : List Nat} (s : Live) {c : Nat} {e : Event}
    (h : homes[e.job]? = some c) : StaysHome homes s (s.emit c e) := by
  obtain ⟨f, hchannel, hevent, hlog⟩ := exists_log_emit s c e
  refine ⟨[f], hlog, fun g hg e' he' => ?_⟩
  rw [List.mem_singleton.1 hg] at he' ⊢
  rw [hevent] at he'
  obtain rfl := Option.some.inj he'
  rw [hchannel]
  exact h

theorem Effect.AtHome.append {homes : List Nat} {f : Effect} (h : f.AtHome homes)
    (more : List Nat) :
    f.AtHome (homes ++ more) :=
  fun e he => getElem?_append_of_some (h e he) more

theorem StaysHome.append {homes : List Nat} {s t : Live} (h : StaysHome homes s t)
    (more : List Nat) : StaysHome (homes ++ more) s t := by
  obtain ⟨new, hnew, hhome⟩ := h
  exact ⟨new, hnew, fun f hf => (hhome f hf).append more⟩

section
variable {b : Book}

theorem Kept.staysHome_cancelPending (h : Kept b) {x : Session} (hx : x ∈ b.live.sessions) :
    StaysHome b.homes b.live (b.live.cancelPending x) := by
  cases hp : x.pending with
  | none =>
    rw [cancelPending_of_none _ hp]
    exact .of_log_eq rfl
  | some j =>
    rw [cancelPending_of_some _ hp]
    simp only
    split
    · exact staysHome_emit ((b.live.setPending x.key none).setJob j Job.stopped)
        (e := .status j .canceled) (h.pending x hx j hp).1
    · exact .of_log_eq rfl

theorem Kept.staysHome_cancel (h : Kept b) (key : Text) :
    StaysHome b.homes b.live (b.live.cancel key) := by
  unfold Live.cancel
  cases hx : b.live.session? key with
  | none => exact .of_log_eq rfl
  | some x => exact h.staysHome_cancelPending (List.mem_of_find?_eq_some hx)

theorem Kept.staysHome_release (h : Kept b) (key : Text) :
    StaysHome b.homes b.live (b.live.release key) := by
  unfold Live.release
  cases hx : b.live.session? key with
  | none => exact .of_log_eq rfl
  | some x =>
    refine (h.staysHome_cancelPending (List.mem_of_find?_eq_some hx)).trans ?_
    refine ⟨[.closed x.channel], rfl, fun f hf e he => ?_⟩
    rw [List.mem_singleton.1 hf] at he
    cases he

theorem Kept.staysHome_close (h : Kept b) (hsound : b.live.board.Sound) :
    StaysHome b.homes b.live b.live.close := by
  unfold Live.close
  split
  · exact .of_log_eq rfl
  · have hfold := foldl_release_preserves
      (P := fun t => (Kept { b with live := t } ∧ t.board.Sound) ∧ StaysHome b.homes b.live t)
      (fun t key ht => ⟨kept_foldl_release ht.1.1 ht.1.2 [key],
        ht.2.trans (ht.1.1.staysHome_release key)⟩)
      (b.live.sessions.map Session.key) ⟨⟨h, hsound⟩, .of_log_eq rfl⟩
    exact hfold.2

theorem Kept.staysHome_submit (h : Kept b) (analyze : Text → Result) (key text : Text) :
    StaysHome (b.step analyze (.submit key text)).homes b.live
      (b.live.step analyze (.submit key text)) := by
  unfold Book.step Book.newHomes
  rw [step_submit]
  cases hopen : b.live.isClosed with
  | true => exact .of_log_eq rfl
  | false =>
    have henter : (b.live.enter key).2.log = b.live.log := by
      unfold Live.enter
      split <;> rfl
    have hcancel := ((h.enter key).staysHome_cancel key).append [(b.live.enter key).1]
    have hhome : (b.homes ++ [(b.live.enter key).1])[b.live.jobs.length]? =
        some (b.live.enter key).1 := by
      rw [← h.jobs]
      exact List.getElem?_concat_length
    exact ((StaysHome.of_log_eq henter).trans hcancel).trans
      (staysHome_emit (((b.live.enter key).2.cancel key).enqueue key text)
        (e := .status b.live.jobs.length .pending) hhome)

end

/-! ## Strays -/

/-- The job that an action sets going again: one that has fired, or one whose analysis ends. -/
def Resumes (s : Live) (j : Nat) (job : Job) (a : Action) : Prop :=
  s.jobs[j]? = some job ∧ (a = .start j ∧ job.phase = .fired ∨ a = .finish j ∧ job.phase = .running)

/-- By the action a job looks at a session of its key that it was not submitted in. -/
def Book.Strays (b : Book) (a : Action) : Prop :=
  ∃ j job x, Resumes b.live j job a ∧ b.live.session? job.key = some x ∧
    b.homes[j]? ≠ some x.channel

/-- The effect reports the cancellation of a job whose own channel is closed. -/
def Book.Astray (b : Book) (f : Effect) : Prop :=
  ∃ j home, f.event? = some (.status j .canceled) ∧ b.homes[j]? = some home ∧
    home ≠ f.channel ∧ .closed home ∈ b.live.log

theorem Resumes.unique {s : Live} {a : Action} {i j : Nat} {job job' : Job}
    (hi : Resumes s i job a) (hj : Resumes s j job' a) : i = j ∧ job = job' := by
  have hij : i = j := by
    rcases hi.2 with ⟨rfl, -⟩ | ⟨rfl, -⟩ <;> rcases hj.2 with ⟨heq, -⟩ | ⟨heq, -⟩ <;> cases heq
    all_goals rfl
  subst hij
  exact ⟨rfl, Option.some.inj (hi.1.symm.trans hj.1)⟩

section
variable {b : Book}

theorem Kept.home_of_current (h : Kept b) {key : Text} {x : Session}
    (hx : b.live.session? key = some x)
    {j : Nat} {job : Job} (hcurrent : isCurrent x j job = true) : b.homes[j]? = some x.channel :=
  (h.pending x (List.mem_of_find?_eq_some hx) j ((isCurrent_iff x j job).1 hcurrent).2).1

/-- A job that looks at a session that is not its own has lost its own. -/
theorem Kept.closed_of_strays (h : Kept b) (hsound : b.live.board.Sound) {j : Nat} {job : Job}
    (hjob : b.live.jobs[j]? = some job) {x : Session} (hx : b.live.session? job.key = some x)
    (hstray : b.homes[j]? ≠ some x.channel) :
    ∃ home, b.homes[j]? = some home ∧ home ≠ x.channel ∧ .closed home ∈ b.live.log := by
  have hlt : j < b.homes.length := by
    rw [h.jobs]
    exact (List.getElem?_eq_some_iff.1 hjob).1
  have hhome : b.homes[j]? = some b.homes[j] := List.getElem?_eq_getElem hlt
  have hne : b.homes[j] ≠ x.channel := by
    intro heq
    rw [hhome, heq] at hstray
    exact hstray rfl
  refine ⟨b.homes[j], hhome, hne, ?_⟩
  rcases h.departed _ (List.getElem_mem hlt) with ⟨y, hy, hyc⟩ | hclosed
  · -- A session on the home would be the session of the job's key.
    obtain ⟨key, howner, hkey⟩ := h.homed j _ hhome
    rw [keyOf?_of_getElem? hjob] at hkey
    rw [← hyc, h.seated y hy] at howner
    have hyk : y.key = job.key := Option.some.inj (howner.trans hkey.symm)
    exact absurd (hyc.symm.trans (hsound.channel_eq hx y hy hyk)) hne
  · exact hclosed

/-- What a job does when it is set going again: it reports at home, or it strays and reports its
cancellation. -/
theorem Kept.reports_resumed (h : Kept b) (hsound : b.live.board.Sound) {a : Action} {j : Nat}
    {job : Job} (hresumes : Resumes b.live j job a) {goOn : Session → Live}
    (hgoOn : ∀ x, b.homes[j]? = some x.channel → StaysHome b.homes b.live (goOn x)) :
    (¬ b.Strays a ∧ StaysHome b.homes b.live (b.live.look j job goOn)) ∨
      (b.Strays a ∧ ∃ f, (b.live.look j job goOn).log = f :: b.live.log ∧ b.Astray f) := by
  have hstrays : b.Strays a ↔
      ∃ x, b.live.session? job.key = some x ∧ b.homes[j]? ≠ some x.channel := by
    refine ⟨?_, fun ⟨x, hx, hne⟩ => ⟨j, job, x, hresumes, hx, hne⟩⟩
    rintro ⟨i, job', x, hi, hx, hne⟩
    obtain ⟨rfl, rfl⟩ := hi.unique hresumes
    exact ⟨x, hx, hne⟩
  unfold Live.look
  cases hx : b.live.session? job.key with
  | none =>
    refine .inl ⟨fun hstray => ?_, .of_log_eq rfl⟩
    obtain ⟨x, hsome, -⟩ := hstrays.1 hstray
    rw [hx] at hsome
    cases hsome
  | some x =>
    simp only [hx, Option.some.injEq, exists_eq_left'] at hstrays ⊢
    rw [hstrays]
    by_cases hhome : b.homes[j]? = some x.channel
    · refine .inl ⟨fun hne => hne hhome, ?_⟩
      split
      · exact hgoOn x hhome
      · exact staysHome_emit (b.live.advance j .over) (e := .status j .canceled) hhome
    · -- The job is not what this session waits for.
      have hcurrent : ¬ isCurrent x j job = true := fun hc => hhome (h.home_of_current hx hc)
      rw [if_neg hcurrent]
      obtain ⟨home, hsome, hne, hclosed⟩ := h.closed_of_strays hsound hresumes.1 hx hhome
      obtain ⟨f, hchannel, hevent, hlog⟩ :=
        exists_log_emit (b.live.advance j .over) x.channel (.status j .canceled)
      refine .inr ⟨hhome, f, hlog, j, home, hevent, hsome, ?_, hclosed⟩
      rw [hchannel]
      exact hne

/-- **One step.** The reports of an action are at home, unless the action strays, and then it
reports one cancellation. -/
theorem Kept.reports_step (h : Kept b) (hsound : b.live.board.Sound) (analyze : Text → Result)
    (a : Action) :
    (¬ b.Strays a ∧ StaysHome (b.step analyze a).homes b.live (b.step analyze a).live) ∨
      (b.Strays a ∧ ∃ f, (b.step analyze a).live.log = f :: b.live.log ∧ b.Astray f) := by
  have hquiet : ∀ {a : Action}, (∀ j job, ¬ Resumes b.live j job a) → ¬ b.Strays a :=
    fun hnone ⟨j, job, _, hresumes, _⟩ => hnone j job hresumes
  cases a with
  | events key =>
    refine .inl ⟨hquiet (by simp [Resumes]), .of_log_eq ?_⟩
    change (b.live.events key).2.log = b.live.log
    unfold Live.events Live.enter
    split
    · rfl
    · split <;> rfl
  | submit key text =>
    exact .inl ⟨hquiet (by simp [Resumes]), h.staysHome_submit analyze key text⟩
  | fire j => exact .inl ⟨hquiet (by simp [Resumes]), .of_log_eq rfl⟩
  | start j =>
    simp only [Book.step, Book.newHomes, List.append_nil, Live.step]
    by_cases hfired : ∃ job, b.live.jobs[j]? = some job ∧ job.phase = .fired
    · obtain ⟨job, hjob, hfired⟩ := hfired
      rw [start_of_fired hjob hfired]
      refine h.reports_resumed hsound ⟨hjob, .inl ⟨rfl, hfired⟩⟩ fun x hhome => ?_
      exact staysHome_emit (b.live.advance j .running) (e := .status j .running) hhome
    · simp only [not_exists, not_and] at hfired
      rw [start_of_ne hfired]
      refine .inl ⟨hquiet ?_, .of_log_eq rfl⟩
      rintro i job ⟨hjob, ⟨heq, hphase⟩ | ⟨heq, -⟩⟩ <;> cases heq
      exact hfired job hjob hphase
  | finish j =>
    simp only [Book.step, Book.newHomes, List.append_nil, Live.step]
    by_cases hrunning : ∃ job, b.live.jobs[j]? = some job ∧ job.phase = .running
    · obtain ⟨job, hjob, hrunning⟩ := hrunning
      rw [finish_of_running analyze hjob hrunning]
      refine h.reports_resumed hsound ⟨hjob, .inr ⟨rfl, hrunning⟩⟩ fun x hhome => ?_
      exact (staysHome_emit (b.live.settle job.key j) (e := .result j (analyze job.text))
        hhome).trans (staysHome_emit _ (e := .status j .done) hhome)
    · simp only [not_exists, not_and] at hrunning
      rw [finish_of_ne analyze hrunning]
      refine .inl ⟨hquiet ?_, .of_log_eq rfl⟩
      rintro i job ⟨hjob, ⟨heq, -⟩ | ⟨heq, hphase⟩⟩ <;> cases heq
      exact hrunning job hjob hphase
  | cancel key => exact .inl ⟨hquiet (by simp [Resumes]), (h.staysHome_cancel key).append []⟩
  | release key => exact .inl ⟨hquiet (by simp [Resumes]), (h.staysHome_release key).append []⟩
  | close => exact .inl ⟨hquiet (by simp [Resumes]), (h.staysHome_close hsound).append []⟩
  | receive c => exact .inl ⟨hquiet (by simp [Resumes]), .of_log_eq rfl⟩

/-- What is reported on a job stays at home, or away from it, when more jobs are submitted. -/
theorem Kept.atHome_append (h : Kept b) {f : Effect} (hf : f ∈ b.live.log) (more : List Nat) :
    f.AtHome (b.homes ++ more) ↔ f.AtHome b.homes := by
  refine ⟨fun hhome e he => ?_, fun hhome => hhome.append more⟩
  have hlt : e.job < b.homes.length := by
    obtain ⟨key, -, hjob⟩ := h.logged f hf
    have hkey := hjob e he
    rw [keyOf?_eq] at hkey
    rw [h.jobs, ← length_jobKeys]
    exact (List.getElem?_eq_some_iff.1 hkey).1
  rw [← hhome e he, List.getElem?_append_left hlt]

theorem Book.Astray.append {s : Live} {f : Effect} (h : b.Astray f)
    (hlog : ∀ g ∈ b.live.log, g ∈ s.log)
    (owners : List Text) (more : List Nat) : Book.Astray ⟨s, owners, b.homes ++ more⟩ f := by
  obtain ⟨j, home, hevent, hhome, hne, hclosed⟩ := h
  exact ⟨j, home, hevent, getElem?_append_of_some hhome more, hne, hlog _ hclosed⟩

/-- All reports of a state are at home. -/
def Book.AllHome (b : Book) : Prop := ∀ f ∈ b.live.log, f.AtHome b.homes

theorem Book.Astray.not_atHome {f : Effect} (h : b.Astray f) : ¬ f.AtHome b.homes := by
  obtain ⟨j, home, hevent, hhome, hne, -⟩ := h
  intro hat
  exact hne (Option.some.inj (hhome.symm.trans (hat _ hevent)))

/-- **One step.** Reports are at home after an action exactly if they were before and the action
does not stray. -/
theorem Kept.allHome_step (h : Kept b) (hsound : b.live.board.Sound) (analyze : Text → Result)
    (a : Action) : (b.step analyze a).AllHome ↔ b.AllHome ∧ ¬ b.Strays a := by
  have hold : ∀ {f}, f ∈ b.live.log → (f.AtHome (b.step analyze a).homes ↔ f.AtHome b.homes) :=
    fun hf => h.atHome_append hf _
  unfold Book.AllHome
  rcases h.reports_step hsound analyze a with ⟨hstray, new, hlog, hnew⟩ | ⟨hstray, g, hlog, hg⟩ <;>
    rw [hlog]
  · refine ⟨fun hall => ⟨fun f hf => (hold hf).1 (hall f (List.mem_append_right _ hf)), hstray⟩, ?_⟩
    intro hall f hf
    rcases List.mem_append.1 hf with hf | hf
    · exact hnew f hf
    · exact (hold hf).2 (hall.1 f hf)
  · refine ⟨fun hall => ?_, fun hall => absurd hstray hall.2⟩
    have hmono : ∀ f ∈ b.live.log, f ∈ (b.step analyze a).live.log := by
      intro f hf
      rw [hlog]
      exact List.mem_cons_of_mem _ hf
    have hastray : Book.Astray (b.step analyze a) g := hg.append hmono _ _
    exact absurd (hall g List.mem_cons_self) hastray.not_atHome

theorem Kept.astray_step (h : Kept b) (hsound : b.live.board.Sound) (analyze : Text → Result)
    (a : Action) (hall : ∀ f ∈ b.live.log, f.AtHome b.homes ∨ b.Astray f) :
    ∀ f ∈ (b.step analyze a).live.log,
      f.AtHome (b.step analyze a).homes ∨ (b.step analyze a).Astray f := by
  have hmono : ∀ g ∈ b.live.log, g ∈ (b.step analyze a).live.log := fun g hg =>
    Board.mem_log_changes (changes_step analyze b.live a) hg
  have hold : ∀ f, f.AtHome b.homes ∨ b.Astray f →
      f.AtHome (b.step analyze a).homes ∨ (b.step analyze a).Astray f := fun f hf =>
    hf.imp (fun hhome => hhome.append _) (fun haway => haway.append hmono _ _)
  intro f hf
  rcases h.reports_step hsound analyze a with ⟨-, new, hlog, hnew⟩ | ⟨-, g, hlog, hg⟩ <;>
    rw [hlog] at hf
  · rcases List.mem_append.1 hf with hf | hf
    · exact .inl (hnew f hf)
    · exact hold f (hall f hf)
  · rcases List.mem_cons.1 hf with rfl | hf
    · exact hold f (.inr hg)
    · exact hold f (hall f hf)

end

theorem allHome_run (analyze : Text → Result) (actions : List Action) :
    ∀ {b : Book}, Kept b → b.live.board.Sound →
      ((b.run analyze actions).AllHome ↔ b.AllHome ∧
        ∀ before a after, actions = before ++ a :: after → ¬ (b.run analyze before).Strays a) := by
  induction actions with
  | nil =>
    intro b _ _
    simp [Book.run]
  | cons a actions ih =>
    intro b h hsound
    have hsound' := hsound.changes (changes_step analyze b.live a)
    have hrest := ih (b := b.step analyze a) (h.step hsound analyze a) hsound'
    have hrun : b.run analyze (a :: actions) = (b.step analyze a).run analyze actions := rfl
    rw [hrun, hrest, h.allHome_step hsound]
    constructor
    · rintro ⟨⟨hall, hfirst⟩, hlater⟩
      refine ⟨hall, fun before a' after heq => ?_⟩
      cases before with
      | nil =>
        obtain ⟨rfl, -⟩ := List.cons.inj heq
        exact hfirst
      | cons a'' before =>
        obtain ⟨rfl, htail⟩ := List.cons.inj heq
        exact hlater before a' after htail
    · rintro ⟨hall, hnone⟩
      refine ⟨⟨hall, hnone [] a actions rfl⟩, fun before a' after heq => ?_⟩
      exact hnone (a :: before) a' after (by rw [heq]; rfl)

theorem astray_run (analyze : Text → Result) (capacity : Int) (actions : List Action) :
    ∀ f ∈ ((Book.empty capacity).run analyze actions).live.log,
      f.AtHome ((Book.empty capacity).run analyze actions).homes ∨
        ((Book.empty capacity).run analyze actions).Astray f := by
  have hrun := Book.run_preserves
    (P := fun b => (Kept b ∧ b.live.board.Sound) ∧ ∀ f ∈ b.live.log, f.AtHome b.homes ∨ b.Astray f)
    (fun b a hb => ⟨kept_run analyze hb.1.1 hb.1.2 [a], hb.1.1.astray_step hb.1.2 analyze a hb.2⟩)
    actions ⟨⟨kept_empty capacity, sound_empty capacity⟩, fun f hf => by cases hf⟩
  exact hrun.2

/-- **Reports go home, cancellations apart.** Over any run, each report is made on the channel of
the session that its job was submitted in, exactly if no job that comes back after its delay or its
analysis finds its key with another session. Whatever is reported elsewhere is a cancellation, of a
job whose own channel is closed by then. -/
theorem reports_home_iff (analyze : Text → Result) (capacity : Int) (actions : List Action) :
    let b := (Book.empty capacity).run analyze actions
    b.live = (Live.empty capacity).run analyze actions ∧
    (b.AllHome ↔ ∀ before a after, actions = before ++ a :: after →
      ¬ ((Book.empty capacity).run analyze before).Strays a) ∧
    ∀ f ∈ b.live.log, f.AtHome b.homes ∨ b.Astray f := by
  intro b
  refine ⟨Book.live_run analyze actions _, ?_, astray_run analyze capacity actions⟩
  rw [allHome_run analyze actions (kept_empty capacity) (sound_empty capacity)]
  refine and_iff_right ?_
  intro f hf
  cases hf

/-- A key is released while its text is analyzed and gets another text at once: the first job is
reported as canceled on the channel of the second. -/
theorem canceled_in_next_session :
    let b := (Book.empty 16).run (fun _ => default) [.submit [107] [97], .fire 0, .start 0,
      .release [107], .submit [107] [98], .fire 1, .start 1, .finish 0]
    b.homes = [0, 1] ∧ Effect.sent 1 (.status 0 .canceled) ∈ b.live.log ∧
      b.live.waiting 1 = [.status 1 .pending, .status 1 .running, .status 0 .canceled] ∧
      ¬ b.AllHome := by
  intro b
  have hmem : Effect.sent 1 (.status 0 .canceled) ∈ b.live.log := by decide
  refine ⟨by decide, hmem, by decide, fun hall => ?_⟩
  have hhome : b.homes[0]? = some 1 := hall _ hmem _ rfl
  exact absurd hhome (by decide)

end Live
end CodeAudit
