import CodeAudit.Proofs.Live.Channels

/-!
# The book of channels and jobs

Channels and jobs are numbered as they are made, and the state does not say for whom. The book does:
it is the state together with the key that each channel was made for and the channel of the session
that each job was submitted in, its home. Both are written down once, when the channel or the job is
made.

`Kept` says that the book agrees with the state: a session has a channel of its key and waits for a
job submitted in it, what is done on a channel is done for the key of the channel, and a home has a
session until it is closed.

**Results.**
* `Book.live_run`: the state of a book runs as it does without the book.
* `Kept.step`, `kept_run`: every action and every run keeps the book.
-/
namespace CodeAudit
namespace Live

/-- A state with the origins of its channels and jobs. -/
structure Book where
  live : Live
  /-- The key that each channel was made for. -/
  owners : List Text
  /-- The channel of the session that each job was submitted in. -/
  homes : List Nat

namespace Book

/-- The start. -/
def empty (capacity : Int) : Book := ⟨Live.empty capacity, [], []⟩

/-- The key that an action makes a channel for, if it makes one. -/
def newOwners (s : Live) : Action → List Text
  | .events key => if s.isClosed || (s.session? key).isNone then [key] else []
  | .submit key _ => if !s.isClosed && (s.session? key).isNone then [key] else []
  | _ => []

/-- The home of the job that an action submits, if it submits one. -/
def newHomes (s : Live) : Action → List Nat
  | .submit key _ => if s.isClosed then [] else [(s.enter key).1]
  | _ => []

/-- What an action does to the book. -/
def step (analyze : Text → Result) (b : Book) (a : Action) : Book where
  live := b.live.step analyze a
  owners := b.owners ++ newOwners b.live a
  homes := b.homes ++ newHomes b.live a

/-- The book after some actions. -/
def run (analyze : Text → Result) (b : Book) (actions : List Action) : Book :=
  actions.foldl (step analyze) b

/-- The book when a key's session was entered. -/
def enter (b : Book) (key : Text) : Book :=
  { b with
    live := (b.live.enter key).2
    owners := b.owners ++ if (b.live.session? key).isNone then [key] else [] }

theorem step_events_of_open {b : Book} (hopen : b.live.isClosed = false) (analyze : Text → Result)
    (key : Text) : b.step analyze (.events key) = b.enter key := by
  simp [step, newOwners, newHomes, enter, Live.step, events, hopen]

theorem step_events_of_closed {b : Book} (hclosed : b.live.isClosed = true)
    (analyze : Text → Result) (key : Text) :
    b.step analyze (.events key) =
      { b with live := (b.live.newChannel false).2, owners := b.owners ++ [key] } := by
  simp [step, newOwners, newHomes, Live.step, events, hclosed]

theorem step_submit_of_open {b : Book} (hopen : b.live.isClosed = false) (analyze : Text → Result)
    (key text : Text) :
    b.step analyze (.submit key text) =
      { live := (((b.enter key).live.cancel key).enqueue key text).emit (b.live.enter key).1
          (.status b.live.jobs.length .pending)
        owners := (b.enter key).owners
        homes := b.homes ++ [(b.live.enter key).1] } := by
  simp [step, newOwners, newHomes, enter, step_submit, hopen]

theorem step_submit_of_closed {b : Book} (hclosed : b.live.isClosed = true)
    (analyze : Text → Result) (key text : Text) : b.step analyze (.submit key text) = b := by
  simp [step, newOwners, newHomes, step_submit, hclosed]

/-- The book adds nothing to the state that the state depends on. -/
theorem live_run (analyze : Text → Result) (actions : List Action) :
    ∀ b : Book, (b.run analyze actions).live = b.live.run analyze actions := by
  induction actions with
  | nil => intro b; rfl
  | cons a actions ih => intro b; exact ih (b.step analyze a)

/-- What every step preserves, runs preserve. -/
theorem run_preserves {analyze : Text → Result} {P : Book → Prop}
    (hstep : ∀ b a, P b → P (b.step analyze a)) (actions : List Action) :
    ∀ {b : Book}, P b → P (b.run analyze actions) := by
  induction actions with
  | nil => intro b h; exact h
  | cons a actions ih => intro b h; exact ih (hstep b a h)

end Book

/-! ## What the operations do to sessions, channels and the log -/

@[simp] theorem sessions_emit (s : Live) (c : Nat) (e : Event) :
    (s.emit c e).sessions = s.sessions := by
  unfold emit
  simp only
  split <;> rfl

@[simp] theorem length_channels_emit (s : Live) (c : Nat) (e : Event) :
    (s.emit c e).channels.length = s.channels.length := by
  unfold emit
  simp only
  split
  · exact List.length_modify ..
  · rfl

/-- A report is one entry in the log, sent or dropped. -/
theorem exists_log_emit (s : Live) (c : Nat) (e : Event) :
    ∃ f : Effect, f.channel = c ∧ f.event? = some e ∧ (s.emit c e).log = f :: s.log := by
  unfold emit
  simp only
  split
  · exact ⟨.sent c e, rfl, rfl, rfl⟩
  · exact ⟨.dropped c e, rfl, rfl, rfl⟩

theorem mem_modify {α : Type} {as : List α} {i : Nat} {f : α → α} {a : α} (h : a ∈ as.modify i f) :
    ∃ old ∈ as, a = old ∨ a = f old := by
  obtain ⟨k, hk⟩ := List.mem_iff_getElem?.1 h
  rw [List.getElem?_modify] at hk
  obtain ⟨old, hold, rfl⟩ := Option.map_eq_some_iff.1 hk
  refine ⟨old, List.mem_of_getElem? hold, ?_⟩
  split
  · exact .inr rfl
  · exact .inl rfl

/-- What waits in a channel after a report is the report or waited before. -/
theorem mem_buffer_emit {s : Live} {c : Nat} {e : Event} {ch : Channel}
    (hch : ch ∈ (s.emit c e).channels) {e' : Event} (he' : e' ∈ ch.buffer) :
    e' = e ∨ ∃ old ∈ s.channels, e' ∈ old.buffer := by
  unfold emit at hch
  simp only at hch
  split at hch
  · obtain ⟨old, hold, rfl | rfl⟩ := mem_modify hch
    · exact .inr ⟨ch, hold, he'⟩
    · rcases List.mem_append.1 he' with he' | he'
      · exact .inr ⟨old, hold, he'⟩
      · exact .inl (List.mem_singleton.1 he')
  · exact .inr ⟨ch, hch, he'⟩

/-- Closes the channel of a key and forgets the session. -/
def leave (s : Live) (key : Text) (c : Nat) : Live :=
  { s.shut c with sessions := s.sessions.filter (·.key != key) }

/-- A release cancels what the key waits for and ends its session. -/
theorem release_eq (s : Live) (key : Text) :
    s.release key = match s.session? key with
      | none => s
      | some x => (s.cancelPending x).leave key x.channel := rfl

/-- The key of each job. -/
def jobKeys (s : Live) : List Text := s.jobs.map Job.key

theorem keyOf?_eq (s : Live) (j : Nat) : s.keyOf? j = s.jobKeys[j]? := by
  unfold keyOf? submissions jobKeys
  rw [List.getElem?_map, List.getElem?_map, Option.map_map]
  rfl

theorem keyOf?_of_getElem? {s : Live} {j : Nat} {job : Job} (h : s.jobs[j]? = some job) :
    s.keyOf? j = some job.key := by
  rw [keyOf?_eq, jobKeys, List.getElem?_map, h]
  rfl

theorem keyOf?_congr {s t : Live} (h : t.jobKeys = s.jobKeys) : t.keyOf? = s.keyOf? := by
  funext j
  rw [keyOf?_eq, h, keyOf?_eq]

/-- A change to how far a job has come leaves it its key. -/
theorem jobKeys_setJob (s : Live) (j : Nat) {f : Job → Job} (hf : ∀ job, (f job).key = job.key) :
    (s.setJob j f).jobKeys = s.jobKeys := by
  unfold jobKeys
  apply List.ext_getElem?
  intro i
  rw [jobs_setJob, List.getElem?_map, List.getElem?_map, List.getElem?_modify]
  cases s.jobs[i]? with
  | none => rfl
  | some job =>
    simp only [Option.map_eq_map, Option.map_some]
    split
    · rw [hf job]
    · rfl

@[simp] theorem jobKeys_advance (s : Live) (j : Nat) (phase : Phase) :
    (s.advance j phase).jobKeys = s.jobKeys := jobKeys_setJob s j fun _ => rfl

@[simp] theorem jobKeys_settle (s : Live) (key : Text) (j : Nat) :
    (s.settle key j).jobKeys = s.jobKeys := jobKeys_setJob _ j fun _ => rfl

@[simp] theorem jobKeys_emit (s : Live) (c : Nat) (e : Event) :
    (s.emit c e).jobKeys = s.jobKeys := by
  unfold jobKeys
  rw [jobs_emit]

@[simp] theorem jobKeys_enter (s : Live) (key : Text) : (s.enter key).2.jobKeys = s.jobKeys := by
  unfold jobKeys
  rw [jobs_enter]

theorem jobKeys_eq (s : Live) : s.jobKeys = s.submissions.map Prod.fst := by
  unfold jobKeys submissions
  rw [List.map_map]
  rfl

@[simp] theorem jobKeys_cancel (s : Live) (key : Text) : (s.cancel key).jobKeys = s.jobKeys := by
  rw [jobKeys_eq, submissions_cancel, jobKeys_eq]

@[simp] theorem jobKeys_release (s : Live) (key : Text) : (s.release key).jobKeys = s.jobKeys := by
  rw [jobKeys_eq, submissions_release, jobKeys_eq]

@[simp] theorem jobKeys_fire (s : Live) (j : Nat) : (s.fire j).jobKeys = s.jobKeys := by
  refine jobKeys_setJob s j fun job => ?_
  split <;> rfl

@[simp] theorem jobKeys_start (s : Live) (j : Nat) : (s.start j).jobKeys = s.jobKeys := by
  rcases start_cases s j with hs | ⟨job, -, -, ⟨-, hs⟩ | ⟨x, -, ⟨-, hs⟩ | ⟨-, hs⟩⟩⟩ <;> rw [hs]
  · rw [jobKeys_advance]
  · rw [jobKeys_emit, jobKeys_advance]
  · rw [jobKeys_emit, jobKeys_advance]

@[simp] theorem jobKeys_finish (analyze : Text → Result) (s : Live) (j : Nat) :
    (s.finish analyze j).jobKeys = s.jobKeys := by
  rcases finish_cases analyze s j with hs | ⟨job, -, -, ⟨-, hs⟩ | ⟨x, -, ⟨-, hs⟩ | ⟨-, hs⟩⟩⟩ <;>
    rw [hs]
  · rw [jobKeys_advance]
  · rw [jobKeys_emit, jobKeys_emit, jobKeys_settle]
  · rw [jobKeys_emit, jobKeys_advance]

@[simp] theorem jobKeys_enqueue (s : Live) (key text : Text) :
    (s.enqueue key text).jobKeys = s.jobKeys ++ [key] := by
  unfold jobKeys
  rw [jobs_enqueue, List.map_append]
  rfl

theorem length_jobKeys (s : Live) : s.jobKeys.length = s.jobs.length := List.length_map _

theorem getElem?_append_of_some {α : Type} {xs : List α} {i : Nat} {a : α} (h : xs[i]? = some a)
    (ys : List α) : (xs ++ ys)[i]? = some a := by
  rw [List.getElem?_append_left (List.getElem?_eq_some_iff.1 h).1]
  exact h

theorem keyOf?_enqueue_of_some {s : Live} {j : Nat} {k : Text} (h : s.keyOf? j = some k)
    (key text : Text) : (s.enqueue key text).keyOf? j = some k := by
  rw [keyOf?_eq] at h ⊢
  rw [jobKeys_enqueue]
  exact getElem?_append_of_some h [key]

theorem keyOf?_enqueue_self (s : Live) (key text : Text) :
    (s.enqueue key text).keyOf? s.jobs.length = some key := by
  rw [keyOf?_eq, jobKeys_enqueue, ← length_jobKeys]
  exact List.getElem?_concat_length

/-- The sessions with a changed pending job are those from before, and each of those is among
them. -/
theorem exists_of_mem_setPending {s : Live} {key : Text} {p : Option Nat} {x : Session}
    (hx : x ∈ (s.setPending key p).sessions) : ∃ y ∈ s.sessions,
      x.key = y.key ∧ x.channel = y.channel ∧ x.pending = if y.key = key then p else y.pending := by
  obtain ⟨y, hy, rfl⟩ := List.mem_map.1 hx
  refine ⟨y, hy, ?_⟩
  by_cases hyk : y.key = key <;> simp [hyk]

theorem exists_mem_setPending {s : Live} {y : Session} (hy : y ∈ s.sessions) (key : Text)
    (p : Option Nat) : ∃ x ∈ (s.setPending key p).sessions, x.channel = y.channel := by
  refine ⟨_, List.mem_map.2 ⟨y, hy, rfl⟩, ?_⟩
  split <;> rfl

/-! ## The book agrees with the state -/

/-- The book agrees with the state. -/
structure Kept (b : Book) : Prop where
  channels : b.owners.length = b.live.channels.length
  jobs : b.homes.length = b.live.jobs.length
  /-- A session has a channel of its key. -/
  seated : ∀ x ∈ b.live.sessions, b.owners[x.channel]? = some x.key
  /-- A job is at home on a channel of its key. -/
  homed : ∀ j c, b.homes[j]? = some c → ∃ key, b.owners[c]? = some key ∧ b.live.keyOf? j = some key
  /-- A session waits for a job that was submitted in it. -/
  pending : ∀ x ∈ b.live.sessions, ∀ j, x.pending = some j →
    b.homes[j]? = some x.channel ∧ b.live.keyOf? j = some x.key
  /-- What is done on a channel is done for its key. -/
  logged : ∀ f ∈ b.live.log, ∃ key, b.owners[f.channel]? = some key ∧
    ∀ e, f.event? = some e → b.live.keyOf? e.job = some key
  /-- What waits in a channel is about jobs that there are. -/
  waiting : ∀ ch ∈ b.live.channels, ∀ e ∈ ch.buffer, e.job < b.live.jobs.length
  /-- A home has a session until it is closed. -/
  departed : ∀ c ∈ b.homes, (∃ x ∈ b.live.sessions, x.channel = c) ∨ .closed c ∈ b.live.log

theorem kept_empty (capacity : Int) : Kept (Book.empty capacity) where
  channels := rfl
  jobs := rfl
  seated := fun x hx => by cases hx
  homed := fun j c hc => by simp [Book.empty] at hc
  pending := fun x hx => by cases hx
  logged := fun f hf => by cases hf
  waiting := fun ch hch => by cases hch
  departed := fun c hc => by cases hc

section
variable {b : Book}

/-- What makes no channel, no job and no report, and ends no session, keeps the book. -/
theorem Kept.same (h : Kept b) {s : Live} (hchannels : s.channels.length = b.live.channels.length)
    (hwaiting : ∀ ch ∈ s.channels, ∀ e ∈ ch.buffer, ∃ old ∈ b.live.channels, e ∈ old.buffer)
    (hjobs : s.jobKeys = b.live.jobKeys) (hlog : s.log = b.live.log)
    (hold : ∀ x ∈ s.sessions, ∃ y ∈ b.live.sessions, x.key = y.key ∧ x.channel = y.channel ∧
      ∀ j, x.pending = some j → y.pending = some j)
    (hstay : ∀ y ∈ b.live.sessions, ∃ x ∈ s.sessions, x.channel = y.channel) :
    Kept { b with live := s } := by
  have hkeys := keyOf?_congr hjobs
  have hlength : s.jobs.length = b.live.jobs.length := by
    rw [← length_jobKeys, hjobs, length_jobKeys]
  refine ⟨?_, ?_, ?_, ?_, ?_, ?_, ?_, ?_⟩
  · rw [hchannels]
    exact h.channels
  · rw [hlength]
    exact h.jobs
  · intro x hx
    obtain ⟨y, hy, hkey, hchannel, -⟩ := hold x hx
    rw [hkey, hchannel]
    exact h.seated y hy
  · rw [hkeys]
    exact h.homed
  · intro x hx j hj
    obtain ⟨y, hy, hkey, hchannel, hpending⟩ := hold x hx
    rw [hkeys, hkey, hchannel]
    exact h.pending y hy j (hpending j hj)
  · rw [hlog, hkeys]
    exact h.logged
  · intro ch hch e he
    obtain ⟨old, hold, hmem⟩ := hwaiting ch hch e he
    rw [hlength]
    exact h.waiting old hold e hmem
  · intro c hc
    rw [hlog]
    refine (h.departed c hc).imp (fun ⟨y, hy, hyc⟩ => ?_) id
    obtain ⟨x, hx, hxy⟩ := hstay y hy
    exact ⟨x, hx, hxy.trans hyc⟩

/-- A change to how far a job has come. -/
theorem Kept.setJob (h : Kept b) (j : Nat) {f : Job → Job} (hf : ∀ job, (f job).key = job.key) :
    Kept { b with live := b.live.setJob j f } :=
  h.same rfl (fun ch hch _ he => ⟨ch, hch, he⟩) (jobKeys_setJob b.live j hf) rfl
    (fun x hx => ⟨x, hx, rfl, rfl, fun _ hj => hj⟩) fun y hy => ⟨y, hy, rfl⟩

/-- A key no longer waits. -/
theorem Kept.setPending_none (h : Kept b) (key : Text) :
    Kept { b with live := b.live.setPending key none } := by
  refine h.same rfl (fun ch hch _ he => ⟨ch, hch, he⟩) rfl rfl ?_ ?_
  · intro x hx
    obtain ⟨y, hy, hxk, hxc, hp⟩ := exists_of_mem_setPending hx
    refine ⟨y, hy, hxk, hxc, fun j hj => ?_⟩
    rw [hp] at hj
    split at hj
    · cases hj
    · exact hj
  · exact fun y hy => exists_mem_setPending hy key none

/-- A report on a channel, on a job of the channel's key. -/
theorem Kept.emit (h : Kept b) {c : Nat} {e : Event} {key : Text} (howner : b.owners[c]? = some key)
    (hjob : b.live.keyOf? e.job = some key) : Kept { b with live := b.live.emit c e } := by
  obtain ⟨f, hchannel, hevent, hlog⟩ := exists_log_emit b.live c e
  have hkeys := keyOf?_congr (jobKeys_emit b.live c e)
  refine ⟨?_, ?_, ?_, ?_, ?_, ?_, ?_, ?_⟩
  · rw [length_channels_emit]
    exact h.channels
  · rw [jobs_emit]
    exact h.jobs
  · rw [sessions_emit]
    exact h.seated
  · rw [hkeys]
    exact h.homed
  · simp only [sessions_emit, hkeys]
    exact h.pending
  · simp only [hlog, hkeys]
    intro g hg
    rcases List.mem_cons.1 hg with rfl | hg
    · refine ⟨key, by rw [hchannel]; exact howner, fun e' he' => ?_⟩
      rw [hevent] at he'
      obtain rfl := Option.some.inj he'
      exact hjob
    · exact h.logged g hg
  · intro ch hch e' he'
    rw [jobs_emit]
    rcases mem_buffer_emit hch he' with rfl | ⟨old, hold, hmem⟩
    · rw [keyOf?_eq] at hjob
      rw [← length_jobKeys]
      exact (List.getElem?_eq_some_iff.1 hjob).1
    · exact h.waiting old hold e' hmem
  · simp only [sessions_emit, hlog]
    intro d hd
    exact (h.departed d hd).imp id (List.mem_cons_of_mem _)

/-- A channel that the owner gets, perhaps with a session on it. -/
theorem Kept.newChannel (h : Kept b) (key : Text) (isOpen : Bool) (new : List Session)
    (hnew : ∀ x ∈ new, x = ⟨key, b.live.channels.length, none⟩) :
    Kept { b with
      live := { (b.live.newChannel isOpen).2 with sessions := b.live.sessions ++ new }
      owners := b.owners ++ [key] } := by
  refine ⟨?_, h.jobs, ?_, ?_, ?_, ?_, ?_, ?_⟩
  · simp [Live.newChannel, h.channels]
  · intro x hx
    rcases List.mem_append.1 hx with hx | hx
    · exact getElem?_append_of_some (h.seated x hx) [key]
    · rw [hnew x hx, ← h.channels]
      exact List.getElem?_concat_length
  · intro j c hc
    obtain ⟨k, hk, hjob⟩ := h.homed j c hc
    exact ⟨k, getElem?_append_of_some hk [key], hjob⟩
  · intro x hx j hj
    rcases List.mem_append.1 hx with hx | hx
    · exact h.pending x hx j hj
    · rw [hnew x hx] at hj
      cases hj
  · intro f hf
    obtain ⟨k, hk, hevent⟩ := h.logged f hf
    exact ⟨k, getElem?_append_of_some hk [key], hevent⟩
  · intro ch hch e he
    rcases List.mem_append.1 hch with hch | hch
    · exact h.waiting ch hch e he
    · rw [List.mem_singleton.1 hch] at he
      cases he
  · intro c hc
    rcases h.departed c hc with ⟨x, hx, hxc⟩ | hgone
    · exact Or.inl ⟨x, List.mem_append_left _ hx, hxc⟩
    · exact Or.inr hgone

/-- A job that its key waits for from now on, at home in the session of the key. -/
theorem Kept.enqueue (h : Kept b) (key text : Text) {c : Nat}
    (hsome : ∃ x ∈ b.live.sessions, x.key = key ∧ x.channel = c)
    (hkey : ∀ x ∈ b.live.sessions, x.key = key → x.channel = c) :
    Kept { b with live := b.live.enqueue key text, homes := b.homes ++ [c] } := by
  have hlast := keyOf?_enqueue_self b.live key text
  have hlastHome : (b.homes ++ [c])[b.live.jobs.length]? = some c := by
    rw [← h.jobs]
    exact List.getElem?_concat_length
  refine ⟨h.channels, ?_, ?_, ?_, ?_, ?_, ?_, ?_⟩
  · simp [h.jobs]
  · intro x hx
    obtain ⟨y, hy, hxk, hxc, -⟩ := exists_of_mem_setPending hx
    rw [hxk, hxc]
    exact h.seated y hy
  · -- the new job is at home in the session of the key, every other one where it was
    intro j d hd
    by_cases hj : j < b.homes.length
    · rw [List.getElem?_append_left hj] at hd
      obtain ⟨k, hk, hjob⟩ := h.homed j d hd
      exact ⟨k, hk, keyOf?_enqueue_of_some hjob key text⟩
    · have hlt := (List.getElem?_eq_some_iff.1 hd).1
      rw [List.length_append, List.length_singleton] at hlt
      obtain rfl : j = b.live.jobs.length := by
        have := h.jobs
        omega
      obtain rfl : c = d := Option.some.inj (hlastHome.symm.trans hd)
      obtain ⟨x, hx, rfl, rfl⟩ := hsome
      exact ⟨x.key, h.seated x hx, hlast⟩
  · intro x hx j hj
    obtain ⟨y, hy, hxk, hxc, hp⟩ := exists_of_mem_setPending hx
    rw [hp] at hj
    rw [hxk, hxc]
    split at hj
    · rename_i hyk
      obtain rfl := Option.some.inj hj
      rw [hkey y hy hyk, hyk]
      exact ⟨hlastHome, hlast⟩
    · obtain ⟨hhome, hjobkey⟩ := h.pending y hy j hj
      exact ⟨getElem?_append_of_some hhome [c], keyOf?_enqueue_of_some hjobkey key text⟩
  · intro f hf
    obtain ⟨k, hk, hevent⟩ := h.logged f hf
    exact ⟨k, hk, fun e he => keyOf?_enqueue_of_some (hevent e he) key text⟩
  · intro ch hch e he
    have hlt := h.waiting ch hch e he
    rw [jobs_enqueue, List.length_append]
    omega
  · intro d hd
    have hd' : (∃ x ∈ b.live.sessions, x.channel = d) ∨ .closed d ∈ b.live.log := by
      rcases List.mem_append.1 hd with hd | hd
      · exact h.departed d hd
      · obtain ⟨x, hx, -, hxc⟩ := hsome
        exact .inl ⟨x, hx, hxc.trans (List.mem_singleton.1 hd).symm⟩
    rcases hd' with ⟨y, hy, hyd⟩ | hgone
    · obtain ⟨x, hx, hxy⟩ := exists_mem_setPending hy key (some b.live.jobs.length)
      exact .inl ⟨x, hx, hxy.trans hyd⟩
    · exact .inr hgone

/-- The end of a key's session, whose channel is closed. -/
theorem Kept.leave (h : Kept b) {x : Session} (hx : x ∈ b.live.sessions)
    (hkey : ∀ y ∈ b.live.sessions, y.key = x.key → y.channel = x.channel) :
    Kept { b with live := b.live.leave x.key x.channel } := by
  refine ⟨?_, h.jobs, ?_, h.homed, ?_, ?_, ?_, ?_⟩
  · simp [Live.leave, Live.shut, h.channels]
  · exact fun y hy => h.seated y (List.mem_filter.1 hy).1
  · exact fun y hy => h.pending y (List.mem_filter.1 hy).1
  · intro f hf
    rcases List.mem_cons.1 hf with rfl | hf
    · exact ⟨x.key, h.seated x hx, fun e he => by cases he⟩
    · exact h.logged f hf
  · intro ch hch e he
    obtain ⟨old, hold, rfl | rfl⟩ := mem_modify hch
    · exact h.waiting ch hold e he
    · exact h.waiting old hold e he
  · intro c hc
    rcases h.departed c hc with ⟨y, hy, rfl⟩ | hclosed
    · by_cases hyk : y.key = x.key
      · rw [hkey y hy hyk]
        exact .inr List.mem_cons_self
      · exact .inl ⟨y, List.mem_filter.2 ⟨hy, by simpa using hyk⟩, rfl⟩
    · exact .inr (List.mem_cons_of_mem _ hclosed)

/-! ## Every action keeps the book -/

theorem Kept.cancelPending (h : Kept b) {x : Session} (hx : x ∈ b.live.sessions) :
    Kept { b with live := b.live.cancelPending x } := by
  cases hp : x.pending with
  | none =>
    rw [cancelPending_of_none _ hp]
    exact h
  | some j =>
    have hstopped : Kept { b with live := (b.live.setPending x.key none).setJob j Job.stopped } :=
      (h.setPending_none x.key).setJob j fun _ => rfl
    rw [cancelPending_of_some _ hp]
    simp only
    split
    · refine hstopped.emit (h.seated x hx) ?_
      have hkeys : ((b.live.setPending x.key none).setJob j Job.stopped).keyOf? = b.live.keyOf? :=
        keyOf?_congr (jobKeys_setJob (b.live.setPending x.key none) j fun _ => rfl)
      rw [hkeys]
      exact (h.pending x hx j hp).2
    · exact hstopped

theorem Kept.cancel (h : Kept b) (key : Text) : Kept { b with live := b.live.cancel key } := by
  unfold Live.cancel
  cases hx : b.live.session? key with
  | none => exact h
  | some x => exact h.cancelPending (List.mem_of_find?_eq_some hx)

/-- All sessions of a key have one channel. -/
theorem Board.Sound.channel_eq {s : Live} (h : s.board.Sound) {key : Text} {x : Session}
    (hx : s.session? key = some x) : ∀ y ∈ s.sessions, y.key = key → y.channel = x.channel := by
  intro y hy hyk
  have hmem : (key, y.channel) ∈ s.board.directory := List.mem_map.2 ⟨y, hy, by rw [hyk]⟩
  exact h.keyed hmem (mem_directory_of_session? hx)

theorem Kept.enter (h : Kept b) (key : Text) : Kept (b.enter key) := by
  unfold Book.enter Live.enter
  cases b.live.session? key with
  | some x => simpa using h
  | none =>
    exact h.newChannel key true [⟨key, b.live.channels.length, none⟩]
      fun x hx => List.mem_singleton.1 hx

theorem Kept.owner_enter (h : Kept b) (key : Text) :
    (b.enter key).owners[(b.live.enter key).1]? = some key := by
  obtain ⟨x, hx, hchannel⟩ := session?_enter_self b.live key
  rw [← hchannel]
  exact ((h.enter key).seated x (List.mem_of_find?_eq_some hx)).trans
    (congrArg some (session?_key hx))

theorem Kept.release (h : Kept b) (hsound : b.live.board.Sound) (key : Text) :
    Kept { b with live := b.live.release key } := by
  rw [release_eq]
  cases hx : b.live.session? key with
  | none => exact h
  | some x =>
    have hxk := session?_key hx
    have hx' : b.live.session? x.key = some x := by
      rw [hxk]
      exact hx
    have hsound' := hsound.changes (changes_cancelPending hx')
    have hstay := session?_cancelPending hx' x.key
    rw [if_pos rfl] at hstay
    have hleave := (h.cancelPending (List.mem_of_find?_eq_some hx)).leave
      (List.mem_of_find?_eq_some hstay) (hsound'.channel_eq hstay)
    rw [hxk] at hleave
    exact hleave

theorem Kept.submit (h : Kept b) (hsound : b.live.board.Sound) (analyze : Text → Result)
    (key text : Text) : Kept (b.step analyze (.submit key text)) := by
  cases hopen : b.live.isClosed with
  | true =>
    rw [Book.step_submit_of_closed hopen]
    exact h
  | false =>
    rw [Book.step_submit_of_open hopen]
    have hcancelled := (h.enter key).cancel key
    have hsound' := hsound.changes
      ((changes_enter hopen key).trans (changes_cancel (b.live.enter key).2 key))
    -- The session of the key, which waits for nothing by now.
    obtain ⟨x, hx, hchannel⟩ := session?_enter_self b.live key
    have hx' : ((b.live.enter key).2.cancel key).session? key =
        some { x with pending := none } := by
      rw [session?_cancel, if_pos rfl, hx]
      rfl
    have hmem := List.mem_of_find?_eq_some hx'
    have hqueued := hcancelled.enqueue key text ⟨_, hmem, session?_key hx', hchannel⟩
      fun y hy hyk => (hsound'.channel_eq hx' y hy hyk).trans hchannel
    have hlast := keyOf?_enqueue_self ((b.live.enter key).2.cancel key) key text
    rw [length_jobs_enter_cancel] at hlast
    exact hqueued.emit (e := .status b.live.jobs.length .pending) (h.owner_enter key) hlast

/-- A report on the session of a job's key, made by a job that looks at it. -/
theorem Kept.look (h : Kept b) {s : Live} (hs : Kept { b with live := s })
    (hkeys : s.jobKeys = b.live.jobKeys) {j : Nat} {job : Job} (hjob : b.live.jobs[j]? = some job)
    {x : Session} (hx : b.live.session? job.key = some x) {e : Event} (he : e.job = j) :
    Kept { b with live := s.emit x.channel e } := by
  refine hs.emit (h.seated x (List.mem_of_find?_eq_some hx)) ?_
  rw [keyOf?_congr hkeys, he, session?_key hx]
  exact keyOf?_of_getElem? hjob

theorem Kept.advance (h : Kept b) (j : Nat) (phase : Phase) :
    Kept { b with live := b.live.advance j phase } :=
  h.setJob j fun _ => rfl

theorem Kept.start (h : Kept b) (j : Nat) : Kept { b with live := b.live.start j } := by
  rcases start_cases b.live j with hs | ⟨job, hjob, -, ⟨-, hs⟩ | ⟨x, hx, ⟨-, hs⟩ | ⟨-, hs⟩⟩⟩ <;>
    rw [hs]
  · exact h
  · exact h.advance j _
  · exact h.look (h.advance j _) (jobKeys_advance _ _ _) hjob hx rfl
  · exact h.look (h.advance j _) (jobKeys_advance _ _ _) hjob hx rfl

theorem Kept.finish (h : Kept b) (analyze : Text → Result) (j : Nat) :
    Kept { b with live := b.live.finish analyze j } := by
  rcases finish_cases analyze b.live j with
    hs | ⟨job, hjob, -, ⟨-, hs⟩ | ⟨x, hx, ⟨-, hs⟩ | ⟨-, hs⟩⟩⟩ <;> rw [hs]
  · exact h
  · exact h.advance j _
  · have hsettled : Kept { b with live := b.live.settle job.key j } :=
      (h.setPending_none job.key).setJob j fun _ => rfl
    have hresult : Kept { b with
        live := (b.live.settle job.key j).emit x.channel (.result j (analyze job.text)) } :=
      h.look hsettled (jobKeys_settle _ _ _) hjob hx rfl
    refine h.look hresult ?_ hjob hx rfl
    rw [jobKeys_emit, jobKeys_settle]
  · exact h.look (h.advance j _) (jobKeys_advance _ _ _) hjob hx rfl

theorem kept_foldl_release (h : Kept b) (hsound : b.live.board.Sound) (keys : List Text) :
    Kept { b with live := keys.foldl release b.live } ∧ (keys.foldl release b.live).board.Sound :=
  foldl_release_preserves
    (P := fun t => Kept { b with live := t } ∧ t.board.Sound)
    (fun t key ht => ⟨ht.1.release ht.2 key, ht.2.changes (changes_release t key)⟩) keys ⟨h, hsound⟩

theorem Kept.close (h : Kept b) (hsound : b.live.board.Sound) :
    Kept { b with live := b.live.close } := by
  unfold Live.close
  split
  · exact h
  · obtain ⟨hkept, -⟩ := kept_foldl_release h hsound (b.live.sessions.map Session.key)
    exact hkept.same rfl (fun ch hch _ he => ⟨ch, hch, he⟩) rfl rfl
      (fun x hx => ⟨x, hx, rfl, rfl, fun _ hj => hj⟩) fun y hy => ⟨y, hy, rfl⟩

/-- **One step.** Every action keeps the book. -/
theorem Kept.step (h : Kept b) (hsound : b.live.board.Sound) (analyze : Text → Result)
    (a : Action) :
    Kept (b.step analyze a) := by
  -- All but two kinds of actions make neither a channel nor a job.
  have hplain : ∀ {s : Live}, Kept { b with live := s } →
      Kept { live := s, owners := b.owners ++ [], homes := b.homes ++ [] } := by
    intro s hs
    rw [List.append_nil, List.append_nil]
    exact hs
  cases a with
  | events key =>
    cases hopen : b.live.isClosed with
    | true =>
      rw [Book.step_events_of_closed hopen]
      have hrefused := h.newChannel key false [] fun x hx => by cases hx
      simp only [List.append_nil] at hrefused
      exact hrefused
    | false =>
      rw [Book.step_events_of_open hopen]
      exact h.enter key
  | submit key text => exact h.submit hsound analyze key text
  | fire j =>
    refine hplain (h.setJob j fun job => ?_)
    split <;> rfl
  | start j => exact hplain (h.start j)
  | finish j => exact hplain (h.finish analyze j)
  | cancel key => exact hplain (h.cancel key)
  | release key => exact hplain (h.release hsound key)
  | close => exact hplain (h.close hsound)
  | receive c =>
    refine hplain (h.same (List.length_modify _ _ _) (fun ch hch e he => ?_) rfl rfl ?_ ?_)
    · obtain ⟨old, hold, rfl | rfl⟩ := mem_modify hch
      · exact ⟨ch, hold, he⟩
      · exact ⟨old, hold, List.mem_of_mem_tail he⟩
    · exact fun x hx => ⟨x, hx, rfl, rfl, fun _ hj => hj⟩
    · exact fun y hy => ⟨y, hy, rfl⟩

end

/-- **Whole runs.** -/
theorem kept_run (analyze : Text → Result) {b : Book} (h : Kept b) (hsound : b.live.board.Sound)
    (actions : List Action) :
    Kept (b.run analyze actions) ∧ (b.run analyze actions).live.board.Sound :=
  Book.run_preserves (P := fun b => Kept b ∧ b.live.board.Sound)
    (fun b a hb => ⟨hb.1.step hb.2 analyze a, hb.2.changes (changes_step analyze b.live a)⟩) actions
    ⟨h, hsound⟩

end Live
end CodeAudit
