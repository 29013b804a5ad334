import CodeAudit.Proofs.Live.Book

/-!
# The share of a key

What a key has of a state is a state again, with the channels and the jobs of the key alone and
numbered as if there were no others (`restrict`). An operation on the key does to it what it does to
the whole, under the names that channels and jobs have in it, and an operation on another key does
not show.

**Numbers (`pick`, `rank`).** Channels and jobs are known by their numbers. `pick` keeps those of
the key, and `rank` is the number that one of them has among these. Things that are added later do
not change it, so a name that was given stays valid.
-/
namespace CodeAudit
namespace Live

/-! ## Sorting by owner -/

/-- What belongs to a key, given the key that each thing belongs to. -/
def pick {α : Type} (key : Text) : List Text → List α → List α
  | owner :: owners, a :: as => if owner = key then a :: pick key owners as else pick key owners as
  | _, _ => []

/-- The number of a thing among those of its key. -/
def rank (key : Text) (owners : List Text) (i : Nat) : Nat := (owners.take i).count key

section
variable {α : Type} {key : Text}

@[simp] theorem rank_zero (owners : List Text) : rank key owners 0 = 0 := rfl

theorem rank_cons_succ (owner : Text) (owners : List Text) (i : Nat) :
    rank key (owner :: owners) (i + 1) = rank key owners i + if owner = key then 1 else 0 := by
  simp [rank, List.count_cons]

theorem rank_append {owners : List Text} {i : Nat} (h : i ≤ owners.length) (more : List Text) :
    rank key (owners ++ more) i = rank key owners i := by
  unfold rank
  rw [List.take_append_of_le_length h]

theorem pick_append {owners : List Text} {as : List α} (h : owners.length = as.length)
    (more : List Text) (bs : List α) :
    pick key (owners ++ more) (as ++ bs) = pick key owners as ++ pick key more bs := by
  induction owners generalizing as with
  | nil =>
    obtain rfl : as = [] := List.length_eq_zero_iff.1 h.symm
    rfl
  | cons owner owners ih =>
    cases as with
    | nil => cases h
    | cons a as =>
      have hrest := ih (Nat.succ.inj h)
      simp only [List.cons_append, pick, hrest]
      split <;> rfl

theorem length_pick {owners : List Text} {as : List α} (h : owners.length = as.length) :
    (pick key owners as).length = rank key owners owners.length := by
  unfold rank
  rw [List.take_length]
  induction owners generalizing as with
  | nil => rfl
  | cons owner owners ih =>
    cases as with
    | nil => cases h
    | cons a as =>
      have hrest := ih (Nat.succ.inj h)
      by_cases ho : owner = key <;> simp [pick, ho, hrest]

theorem getElem?_pick {owners : List Text} {as : List α} (h : owners.length = as.length) {i : Nat}
    (hi : owners[i]? = some key) : (pick key owners as)[rank key owners i]? = as[i]? := by
  induction owners generalizing as i with
  | nil => simp at hi
  | cons owner owners ih =>
    cases as with
    | nil => cases h
    | cons a as =>
      cases i with
      | zero =>
        obtain rfl : owner = key := by simpa using hi
        simp [pick]
      | succ i =>
        have hrest := ih (Nat.succ.inj h) (by simpa using hi)
        by_cases ho : owner = key <;> simp [pick, ho, rank_cons_succ, hrest]

theorem pick_modify_self {owners : List Text} {i : Nat} (hi : owners[i]? = some key) (as : List α)
    (f : α → α) :
    pick key owners (as.modify i f) = (pick key owners as).modify (rank key owners i) f := by
  induction owners generalizing as i with
  | nil => simp at hi
  | cons owner owners ih =>
    cases as with
    | nil => simp [pick]
    | cons a as =>
      cases i with
      | zero =>
        obtain rfl : owner = key := by simpa using hi
        simp [pick]
      | succ i =>
        have hrest := ih (i := i) (by simpa using hi) as
        by_cases ho : owner = key <;> simp [pick, ho, rank_cons_succ, hrest]

theorem pick_modify_other {owners : List Text} {i : Nat} (hi : owners[i]? ≠ some key) (as : List α)
    (f : α → α) : pick key owners (as.modify i f) = pick key owners as := by
  induction owners generalizing as i with
  | nil => simp [pick]
  | cons owner owners ih =>
    cases as with
    | nil => simp [pick]
    | cons a as =>
      cases i with
      | zero =>
        have ho : owner ≠ key := by simpa using hi
        simp [pick, ho]
      | succ i =>
        have hrest := ih (i := i) (by simpa using hi) as
        simp [pick, hrest]

theorem mem_of_mem_pick {owners : List Text} {as : List α} {a : α} (h : a ∈ pick key owners as) :
    a ∈ as := by
  induction owners generalizing as with
  | nil => simp [pick] at h
  | cons owner owners ih =>
    cases as with
    | nil => simp [pick] at h
    | cons a' as =>
      simp only [pick] at h
      split at h
      · exact (List.mem_cons.1 h).elim (fun heq => heq ▸ List.mem_cons_self)
          fun h => List.mem_cons_of_mem _ (ih h)
      · exact List.mem_cons_of_mem _ (ih h)

/-- Two things of a key have two numbers. -/
theorem rank_inj {owners : List Text} {i j : Nat} (hi : owners[i]? = some key)
    (hj : owners[j]? = some key) (h : rank key owners i = rank key owners j) : i = j := by
  induction owners generalizing i j with
  | nil => simp at hi
  | cons owner owners ih =>
    cases i with
    | zero =>
      obtain rfl : owner = key := by simpa using hi
      cases j with
      | zero => rfl
      | succ j => simp [rank_cons_succ] at h
    | succ i =>
      cases j with
      | zero =>
        obtain rfl : owner = key := by simpa using hj
        simp [rank_cons_succ] at h
      | succ j =>
        rw [rank_cons_succ, rank_cons_succ, Nat.add_right_cancel_iff] at h
        rw [ih (by simpa using hi) (by simpa using hj) h]

end

theorem map_modify_comm {α β : Type} {f : α → α} {f' : β → β} {g : α → β}
    (h : ∀ a, g (f a) = f' (g a)) (as : List α) (i : Nat) :
    (as.modify i f).map g = (as.map g).modify i f' := by
  apply List.ext_getElem?
  intro k
  rw [List.getElem?_map, List.getElem?_modify, List.getElem?_modify, List.getElem?_map]
  cases as[k]? with
  | none => rfl
  | some a =>
    simp only [Option.map_eq_map, Option.map_some]
    split
    · rw [h a]
    · rfl

/-! ## The share of a key -/

/-- Gives the job of a report another name. -/
def Event.rename (name : Nat → Nat) : Event → Event
  | .status j s => .status (name j) s
  | .result j r => .result (name j) r

/-- Gives channel and job of an effect other names. -/
def Effect.rename (channelName jobName : Nat → Nat) : Effect → Effect
  | .sent c e => .sent (channelName c) (e.rename jobName)
  | .dropped c e => .dropped (channelName c) (e.rename jobName)
  | .closed c => .closed (channelName c)

/-- Gives the jobs of the waiting reports other names. -/
def Channel.rename (jobName : Nat → Nat) (ch : Channel) : Channel :=
  { ch with buffer := ch.buffer.map (Event.rename jobName) }

/-- Gives channel and pending job of a session other names. -/
def Session.rename (channelName jobName : Nat → Nat) (x : Session) : Session :=
  { x with channel := channelName x.channel, pending := x.pending.map jobName }

/-- What a key has of the state: its session, its channels and its jobs, numbered as if there were
no others, and what was done on its channels. The lists give the keys of all channels and jobs. -/
def restrict (s : Live) (key : Text) (owners names : List Text) : Live where
  capacity := s.capacity
  jobs := pick key names s.jobs
  channels := (pick key owners s.channels).map (Channel.rename (rank key names))
  sessions := (s.sessions.filter (·.key == key)).map
    (Session.rename (rank key owners) (rank key names))
  isClosed := s.isClosed
  log := (s.log.filter fun f => owners[f.channel]? == some key).map
    (Effect.rename (rank key owners) (rank key names))

theorem ext_of {s t : Live} (hcapacity : s.capacity = t.capacity) (hjobs : s.jobs = t.jobs)
    (hchannels : s.channels = t.channels) (hsessions : s.sessions = t.sessions)
    (hclosed : s.isClosed = t.isClosed) (hlog : s.log = t.log) : s = t := by
  cases s
  cases t
  simp_all

section
variable {key : Text} {owners names : List Text}

theorem session?_restrict (s : Live) :
    (s.restrict key owners names).session? key =
      (s.session? key).map (Session.rename (rank key owners) (rank key names)) := by
  unfold session? restrict
  rw [List.find?_map, List.find?_filter]
  congr 2
  funext x
  by_cases hx : x.key = key <;> simp [Session.rename, hx]

theorem getElem?_jobs_restrict {s : Live} (hlength : names.length = s.jobs.length) {j : Nat}
    (hj : names[j]? = some key) :
    (s.restrict key owners names).jobs[rank key names j]? = s.jobs[j]? :=
  getElem?_pick hlength hj

theorem getElem?_channels_restrict {s : Live} (hlength : owners.length = s.channels.length)
    {c : Nat} (hc : owners[c]? = some key) :
    (s.restrict key owners names).channels[rank key owners c]? =
      (s.channels[c]?).map (Channel.rename (rank key names)) := by
  unfold restrict
  rw [List.getElem?_map, getElem?_pick hlength hc]

/-! ## What the operations do to a share -/

theorem filter_setPending (s : Live) (k : Text) (p : Option Nat) :
    (s.setPending k p).sessions.filter (·.key == key) =
      (s.sessions.filter (·.key == key)).map fun x =>
        if x.key == k then { x with pending := p } else x := by
  have hkey : ∀ x : Session,
      (if x.key == k then { x with pending := p } else x : Session).key = x.key := by
    intro x
    split <;> rfl
  simp only [setPending, List.filter_map, Function.comp_def, hkey]

theorem restrict_setPending_self (key : Text) (owners names : List Text) (s : Live)
    (p : Option Nat) :
    (s.setPending key p).restrict key owners names =
      (s.restrict key owners names).setPending key (p.map (rank key names)) := by
  refine ext_of rfl rfl rfl ?_ rfl rfl
  simp only [restrict]
  rw [filter_setPending]
  simp only [setPending, List.map_map]
  congr 1
  funext x
  by_cases hx : x.key = key <;> simp [Session.rename, hx]

theorem restrict_setPending_of_ne (owners names : List Text) (s : Live) {k : Text} (hk : k ≠ key)
    (p : Option Nat) :
    (s.setPending k p).restrict key owners names = s.restrict key owners names := by
  refine ext_of rfl rfl rfl ?_ rfl rfl
  simp only [restrict, filter_setPending, List.map_map]
  refine List.map_congr_left fun x hx => ?_
  have hxk : x.key = key := by simpa using (List.mem_filter.1 hx).2
  simp [hxk, hk.symm]

theorem restrict_setJob_self (s : Live) {j : Nat} (hj : names[j]? = some key) (f : Job → Job) :
    (s.setJob j f).restrict key owners names =
      (s.restrict key owners names).setJob (rank key names j) f :=
  ext_of rfl (pick_modify_self hj s.jobs f) rfl rfl rfl rfl

theorem restrict_setJob_of_ne (s : Live) {j : Nat} (hj : names[j]? ≠ some key) (f : Job → Job) :
    (s.setJob j f).restrict key owners names = s.restrict key owners names :=
  ext_of rfl (pick_modify_other hj s.jobs f) rfl rfl rfl rfl

/-- A change to a channel of the key that commutes with giving jobs other names. -/
theorem channels_modify_self {c : Nat} (hc : owners[c]? = some key) (channels : List Channel)
    {f g : Channel → Channel}
    (h : ∀ ch, (f ch).rename (rank key names) = g (ch.rename (rank key names))) :
    (pick key owners (channels.modify c f)).map (Channel.rename (rank key names)) =
      ((pick key owners channels).map (Channel.rename (rank key names))).modify (rank key owners c)
        g := by
  rw [pick_modify_self hc, map_modify_comm h]

theorem channels_modify_of_ne {c : Nat} (hc : owners[c]? ≠ some key) (channels : List Channel)
    (f : Channel → Channel) :
    (pick key owners (channels.modify c f)).map (Channel.rename (rank key names)) =
      (pick key owners channels).map (Channel.rename (rank key names)) := by
  rw [pick_modify_other hc]

theorem restrict_emit_self {s : Live} (hlength : owners.length = s.channels.length) {c : Nat}
    (hc : owners[c]? = some key) (e : Event) :
    (s.emit c e).restrict key owners names =
      (s.restrict key owners names).emit (rank key owners c) (e.rename (rank key names)) := by
  have hheld : ((s.restrict key owners names).channels[rank key owners c]?).map
        (fun ch => ch.buffer.length) =
      (s.channels[c]?).map fun ch => ch.buffer.length := by
    rw [getElem?_channels_restrict hlength hc, Option.map_map]
    congr 1
    funext ch
    simp [Channel.rename]
  have hcapacity : (s.restrict key owners names).capacity = s.capacity := rfl
  unfold emit
  simp only [hheld, hcapacity]
  split
  · refine ext_of rfl rfl ?_ rfl rfl ?_
    · exact channels_modify_self hc s.channels fun ch => by simp [Channel.rename]
    · simp [restrict, Effect.channel, Effect.rename, hc]
  · refine ext_of rfl rfl rfl rfl rfl ?_
    simp [restrict, Effect.channel, Effect.rename, hc]

theorem restrict_emit_of_ne (s : Live) {c : Nat} (hc : owners[c]? ≠ some key) (e : Event) :
    (s.emit c e).restrict key owners names = s.restrict key owners names := by
  unfold emit
  simp only
  split
  · refine ext_of rfl rfl ?_ rfl rfl ?_
    · exact channels_modify_of_ne hc s.channels _
    · simp [restrict, Effect.channel, hc]
  · refine ext_of rfl rfl rfl rfl rfl ?_
    simp [restrict, Effect.channel, hc]

theorem restrict_receive_self (s : Live) {c : Nat} (hc : owners[c]? = some key) :
    (s.receive c).restrict key owners names =
      (s.restrict key owners names).receive (rank key owners c) := by
  refine ext_of rfl rfl ?_ rfl rfl rfl
  exact channels_modify_self hc s.channels fun ch => by simp [Channel.rename, List.map_tail]

theorem restrict_receive_of_ne (s : Live) {c : Nat} (hc : owners[c]? ≠ some key) :
    (s.receive c).restrict key owners names = s.restrict key owners names :=
  ext_of rfl rfl (channels_modify_of_ne hc s.channels _) rfl rfl rfl

theorem restrict_leave_self (s : Live) {c : Nat} (hc : owners[c]? = some key) :
    (s.leave key c).restrict key owners names =
      (s.restrict key owners names).leave key (rank key owners c) := by
  refine ext_of rfl rfl ?_ ?_ rfl ?_
  · exact channels_modify_self hc s.channels fun ch => by simp [Channel.rename]
  · simp only [restrict, Live.leave, List.filter_filter, List.filter_map]
    congr 1
    refine List.filter_congr fun x _ => ?_
    exact Bool.and_comm _ _
  · simp [restrict, Live.leave, shut, Effect.channel, Effect.rename, hc]

theorem restrict_leave_of_ne (s : Live) {k : Text} (hk : k ≠ key) {c : Nat}
    (hc : owners[c]? ≠ some key) :
    (s.leave k c).restrict key owners names = s.restrict key owners names := by
  refine ext_of rfl rfl (channels_modify_of_ne hc s.channels _) ?_ rfl ?_
  · simp only [restrict, Live.leave, List.filter_filter]
    congr 1
    refine List.filter_congr fun x _ => ?_
    by_cases hx : x.key = key
    · simp [hx, hk.symm]
    · simp [hx]
  · simp [restrict, Live.leave, shut, Effect.channel, hc]

/-! ## New channels and new jobs -/

/-- The channels in use have numbers below the bound. -/
structure ChannelsBelow (s : Live) (n : Nat) : Prop where
  sessions : ∀ x ∈ s.sessions, x.channel < n
  log : ∀ f ∈ s.log, f.channel < n

/-- The jobs in use have numbers below the bound. -/
structure JobsBelow (s : Live) (n : Nat) : Prop where
  pending : ∀ x ∈ s.sessions, ∀ j, x.pending = some j → j < n
  waiting : ∀ ch ∈ s.channels, ∀ e ∈ ch.buffer, e.job < n
  log : ∀ f ∈ s.log, ∀ e, f.event? = some e → e.job < n

/-- Channels of others, or later ones, do not change the names of the channels in use. -/
theorem restrict_newChannel {s : Live} (hlength : owners.length = s.channels.length)
    (hbelow : ChannelsBelow s owners.length) (k : Text) (isOpen : Bool) :
    (s.newChannel isOpen).2.restrict key (owners ++ [k]) names =
      if k = key then ((s.restrict key owners names).newChannel isOpen).2
      else s.restrict key owners names := by
  have hname : ∀ {c}, c < owners.length → rank key (owners ++ [k]) c = rank key owners c :=
    fun hc => rank_append (Nat.le_of_lt hc) [k]
  have hsessions' : ((s.newChannel isOpen).2.restrict key (owners ++ [k]) names).sessions =
      (s.restrict key owners names).sessions := by
    refine List.map_congr_left fun x hx => ?_
    simp only [Session.rename, hname (hbelow.sessions x (List.mem_filter.1 hx).1)]
  have hlog' : ((s.newChannel isOpen).2.restrict key (owners ++ [k]) names).log =
      (s.restrict key owners names).log := by
    have hown : ∀ f ∈ s.log, ((owners ++ [k])[f.channel]? == some key) =
        (owners[f.channel]? == some key) := by
      intro f hf
      rw [List.getElem?_append_left (hbelow.log f hf)]
    simp only [restrict, newChannel]
    rw [List.filter_congr hown]
    refine List.map_congr_left fun f hf => ?_
    have hc := hname (hbelow.log f (List.mem_filter.1 hf).1)
    cases f <;> simp only [Effect.rename, Effect.channel] at hc ⊢ <;> rw [hc]
  have hchannels : ((s.newChannel isOpen).2.restrict key (owners ++ [k]) names).channels =
      (s.restrict key owners names).channels ++ if k = key then [⟨[], isOpen⟩] else [] := by
    simp only [restrict, newChannel]
    rw [pick_append hlength, List.map_append]
    congr 1
    by_cases hk : k = key <;> simp [pick, hk, Channel.rename]
  split
  · rename_i hk
    rw [if_pos hk] at hchannels
    exact ext_of rfl rfl hchannels hsessions' rfl hlog'
  · rename_i hk
    rw [if_neg hk, List.append_nil] at hchannels
    exact ext_of rfl rfl hchannels hsessions' rfl hlog'

/-- Sessions that are added. -/
theorem restrict_sessions_append (key : Text) (owners names : List Text) (s : Live)
    (new : List Session) :
    { s with sessions := s.sessions ++ new }.restrict key owners names =
      { s.restrict key owners names with
        sessions := (s.restrict key owners names).sessions ++
          (new.filter (·.key == key)).map (Session.rename (rank key owners) (rank key names))
            } := by
  refine ext_of rfl rfl rfl ?_ rfl rfl
  simp only [restrict, List.filter_append, List.map_append]

/-- The name of the next channel. -/
theorem length_channels_restrict {s : Live} (hlength : owners.length = s.channels.length) :
    (s.restrict key owners names).channels.length = rank key owners s.channels.length := by
  simp only [restrict, List.length_map]
  rw [length_pick hlength, hlength]

theorem length_jobs_restrict {s : Live} (hlength : names.length = s.jobs.length) :
    (s.restrict key owners names).jobs.length = rank key names s.jobs.length := by
  simp only [restrict]
  rw [length_pick hlength, hlength]

theorem Event.rename_congr {e : Event} {f g : Nat → Nat} (h : f e.job = g e.job) :
    e.rename f = e.rename g := by
  cases e <;> simp only [Event.rename, Event.job] at h ⊢ <;> rw [h]

/-- Jobs of others, or later ones, do not change the names of the jobs there are. -/
theorem restrict_addJob (key : Text) (owners : List Text) {s : Live}
    (hlength : names.length = s.jobs.length) (hbelow : JobsBelow s names.length) (job : Job) :
    { s with jobs := s.jobs ++ [job] }.restrict key owners (names ++ [job.key]) =
      { s.restrict key owners names with
        jobs := (s.restrict key owners names).jobs ++ if job.key = key then [job] else [] } := by
  have hname : ∀ {j}, j < names.length → rank key (names ++ [job.key]) j = rank key names j :=
    fun hj => rank_append (Nat.le_of_lt hj) [job.key]
  refine ext_of rfl ?_ ?_ ?_ rfl ?_
  · simp only [restrict]
    rw [pick_append hlength]
    congr 1
  · refine List.map_congr_left fun ch hch => ?_
    have hbuffer := hbelow.waiting ch (mem_of_mem_pick hch)
    unfold Channel.rename
    congr 1
    exact List.map_congr_left fun e he => Event.rename_congr (hname (hbuffer e he))
  · refine List.map_congr_left fun x hx => ?_
    have hpending := hbelow.pending x (List.mem_filter.1 hx).1
    unfold Session.rename
    cases hp : x.pending with
    | none => rfl
    | some j => simp only [Option.map_some, hname (hpending j hp)]
  · refine List.map_congr_left fun f hf => ?_
    have hevent := hbelow.log f (List.mem_filter.1 hf).1
    cases f with
    | sent c e => simp only [Effect.rename, Event.rename_congr (hname (hevent e rfl))]
    | dropped c e => simp only [Effect.rename, Event.rename_congr (hname (hevent e rfl))]
    | closed c => rfl

/-- A job of the key. -/
theorem restrict_enqueue_self {s : Live} (hlength : names.length = s.jobs.length)
    (hbelow : JobsBelow s names.length) (text : Text) :
    (s.enqueue key text).restrict key owners (names ++ [key]) =
      (s.restrict key owners names).enqueue key text := by
  have hadd := restrict_addJob key owners hlength hbelow ⟨key, text, .armed, false⟩
  have hlast : rank key (names ++ [key]) s.jobs.length =
      (s.restrict key owners names).jobs.length := by
    rw [length_jobs_restrict hlength]
    exact rank_append (Nat.le_of_eq hlength.symm) [key]
  have hset := restrict_setPending_self key owners (names ++ [key])
    { s with jobs := s.jobs ++ [⟨key, text, .armed, false⟩] } (some s.jobs.length)
  rw [hadd, if_pos rfl, Option.map_some, hlast] at hset
  exact hset

/-- A job of another key. -/
theorem restrict_enqueue_of_ne {s : Live} (hlength : names.length = s.jobs.length)
    (hbelow : JobsBelow s names.length) {k : Text} (hk : k ≠ key) (text : Text) :
    (s.enqueue k text).restrict key owners (names ++ [k]) = s.restrict key owners names := by
  have hadd := restrict_addJob key owners hlength hbelow ⟨k, text, .armed, false⟩
  rw [if_neg hk, List.append_nil] at hadd
  have hset := restrict_setPending_of_ne owners (names ++ [k])
    { s with jobs := s.jobs ++ [⟨k, text, .armed, false⟩] } hk (some s.jobs.length)
  rw [hadd] at hset
  exact hset

end

end Live
end CodeAudit
