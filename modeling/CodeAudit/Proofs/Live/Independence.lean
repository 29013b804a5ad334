import CodeAudit.Proofs.Live.Share

/-!
# Keys are independent

All clients share one table of sessions, one numbering of jobs and channels and one log. What a
client sees must not depend on the others all the same: it sees its share of the state
(`Book.share`).

**What a run is to a key (`Book.ownActions`).** The actions that concern the key, its jobs or its
channels, under their names in the share, and the close.

**Results.**
* `Kept.share_step`: an action does to the share what it is to the key.
* `share_run`: the share after a run is what the key's own actions alone lead to.
* `keys_independent`: two runs that are the same to a key give it the same share.
-/
namespace CodeAudit
namespace Live

/-! ## What the actions do to a share -/

/-- What a key has of a book. -/
def Book.share (b : Book) (key : Text) : Live := b.live.restrict key b.owners b.live.jobKeys

section
variable {b : Book} {key : Text}

theorem Kept.names (h : Kept b) {x : Session} (hx : x ∈ b.live.sessions) {j : Nat}
    (hj : x.pending = some j) : b.live.jobKeys[j]? = some x.key := by
  rw [← keyOf?_eq]
  exact (h.pending x hx j hj).2

theorem Kept.channelsBelow (h : Kept b) : ChannelsBelow b.live b.owners.length where
  sessions := fun x hx => (List.getElem?_eq_some_iff.1 (h.seated x hx)).1
  log := fun f hf => by
    obtain ⟨k, hk, -⟩ := h.logged f hf
    exact (List.getElem?_eq_some_iff.1 hk).1

theorem Kept.jobsBelow (h : Kept b) : JobsBelow b.live b.live.jobKeys.length where
  pending := fun x hx j hj => (List.getElem?_eq_some_iff.1 (h.names hx hj)).1
  waiting := fun ch hch e he => by
    rw [length_jobKeys]
    exact h.waiting ch hch e he
  log := fun f hf e he => by
    obtain ⟨k, -, hk⟩ := h.logged f hf
    have hjob := hk e he
    rw [keyOf?_eq] at hjob
    exact (List.getElem?_eq_some_iff.1 hjob).1

theorem Kept.restrict_enqueue (h : Kept b) (k key text : Text) :
    (b.live.enqueue k text).restrict key b.owners (b.live.enqueue k text).jobKeys =
      if k = key then (b.share key).enqueue key text else b.share key := by
  rw [jobKeys_enqueue]
  split
  · rename_i hk
    subst hk
    exact restrict_enqueue_self (length_jobKeys b.live) h.jobsBelow text
  · rename_i hk
    exact restrict_enqueue_of_ne (length_jobKeys b.live) h.jobsBelow hk text

theorem Kept.restrict_cancelPending_self (h : Kept b) {x : Session} (hx : x ∈ b.live.sessions)
    (hk : x.key = key) :
    (b.live.cancelPending x).restrict key b.owners b.live.jobKeys =
      (b.share key).cancelPending (x.rename (rank key b.owners) (rank key b.live.jobKeys)) := by
  cases hp : x.pending with
  | none =>
    rw [cancelPending_of_none _ hp, cancelPending_of_none _ (by simp [Session.rename, hp])]
    rfl
  | some j =>
    have howner := h.seated x hx
    have hname := h.names hx hp
    rw [hk] at howner hname
    have hjob : (b.share key).jobs[rank key b.live.jobKeys j]? = b.live.jobs[j]? :=
      getElem?_jobs_restrict (length_jobKeys b.live) hname
    have hstopped : ((b.live.setPending x.key none).setJob j Job.stopped).restrict key b.owners
          b.live.jobKeys =
        ((b.share key).setPending x.key none).setJob (rank key b.live.jobKeys j) Job.stopped := by
      rw [restrict_setJob_self _ hname, hk, restrict_setPending_self]
      rfl
    have hp' : (x.rename (rank key b.owners) (rank key b.live.jobKeys)).pending =
        some (rank key b.live.jobKeys j) := by
      simp [Session.rename, hp]
    rw [cancelPending_of_some _ hp, cancelPending_of_some _ hp', hjob]
    simp only
    split
    · rw [restrict_emit_self (by exact h.channels) howner, hstopped]
      rfl
    · exact hstopped

theorem Kept.restrict_cancelPending_of_ne (h : Kept b) {x : Session} (hx : x ∈ b.live.sessions)
    (hk : x.key ≠ key) :
    (b.live.cancelPending x).restrict key b.owners b.live.jobKeys = b.share key := by
  cases hp : x.pending with
  | none =>
    rw [cancelPending_of_none _ hp]
    rfl
  | some j =>
    have howner : b.owners[x.channel]? ≠ some key := by
      rw [h.seated x hx]
      exact fun heq => hk (Option.some.inj heq)
    have hname : b.live.jobKeys[j]? ≠ some key := by
      rw [h.names hx hp]
      exact fun heq => hk (Option.some.inj heq)
    rw [cancelPending_of_some _ hp]
    simp only
    split
    · rw [restrict_emit_of_ne _ howner, restrict_setJob_of_ne _ hname,
        restrict_setPending_of_ne _ _ _ hk]
      rfl
    · rw [restrict_setJob_of_ne _ hname, restrict_setPending_of_ne _ _ _ hk]
      rfl

theorem Kept.share_cancel (h : Kept b) (k key : Text) :
    Book.share { b with live := b.live.cancel k } key =
      if k = key then (b.share key).cancel key else b.share key := by
  have hnames : (b.live.cancel k).jobKeys = b.live.jobKeys := jobKeys_cancel b.live k
  unfold Book.share
  simp only [hnames]
  split
  · rename_i hk
    subst hk
    unfold Live.cancel
    rw [session?_restrict]
    cases hx : b.live.session? k with
    | none => rfl
    | some x =>
      exact h.restrict_cancelPending_self (List.mem_of_find?_eq_some hx) (session?_key hx)
  · rename_i hk
    unfold Live.cancel
    cases hx : b.live.session? k with
    | none => rfl
    | some x =>
      refine h.restrict_cancelPending_of_ne (List.mem_of_find?_eq_some hx) ?_
      rw [session?_key hx]
      exact hk

theorem Kept.share_release (h : Kept b) (k key : Text) :
    Book.share { b with live := b.live.release k } key =
      if k = key then (b.share key).release key else b.share key := by
  have hnames : (b.live.release k).jobKeys = b.live.jobKeys := jobKeys_release b.live k
  unfold Book.share
  simp only [hnames]
  split
  · rename_i hk
    subst hk
    rw [release_eq, release_eq, session?_restrict]
    cases hx : b.live.session? k with
    | none => rfl
    | some x =>
      have hmem := List.mem_of_find?_eq_some hx
      have howner := h.seated x hmem
      rw [session?_key hx] at howner
      simp only [Option.map_some]
      rw [restrict_leave_self _ howner, h.restrict_cancelPending_self hmem (session?_key hx)]
      rfl
  · rename_i hk
    rw [release_eq]
    cases hx : b.live.session? k with
    | none => rfl
    | some x =>
      have hmem := List.mem_of_find?_eq_some hx
      have hxk : x.key ≠ key := by
        rw [session?_key hx]
        exact hk
      have howner : b.owners[x.channel]? ≠ some key := by
        rw [h.seated x hmem]
        exact fun heq => hxk (Option.some.inj heq)
      simp only
      rw [restrict_leave_of_ne _ hk howner, h.restrict_cancelPending_of_ne hmem hxk]
      rfl

/-- Of the keys that are released one after another, only the key itself matters to its share. -/
theorem share_foldl_release (keys : List Text) (key : Text) :
    ∀ {b : Book}, Kept b → b.live.board.Sound →
      Book.share { b with live := keys.foldl release b.live } key =
        (keys.filter (· == key)).foldl release (b.share key) := by
  induction keys with
  | nil => intro b _ _; rfl
  | cons k keys ih =>
    intro b h hsound
    have hrest := ih (h.release hsound k) (hsound.changes (changes_release b.live k))
    rw [h.share_release k key] at hrest
    rw [List.foldl_cons, hrest]
    by_cases hk : k = key
    · rw [if_pos hk, List.filter_cons_of_pos (by simpa using hk), List.foldl_cons, hk]
    · rw [if_neg hk, List.filter_cons_of_neg (by simpa using hk)]

theorem Kept.share_close (h : Kept b) (hsound : b.live.board.Sound) (key : Text) :
    Book.share { b with live := b.live.close } key = (b.share key).close := by
  have hkeys : (b.share key).sessions.map Session.key =
      (b.live.sessions.map Session.key).filter (· == key) := by
    simp only [Book.share, restrict, List.map_map, List.filter_map]
    rfl
  have hclosed : (b.share key).isClosed = b.live.isClosed := rfl
  unfold Live.close
  rw [hkeys, hclosed]
  split
  · rfl
  · rw [← share_foldl_release (b.live.sessions.map Session.key) key h hsound]
    rfl

/-- A session waits for a job of its key exactly if it does under their other names. -/
theorem Kept.isCurrent_rename (h : Kept b) {x : Session} (hx : b.live.session? key = some x)
    {j : Nat} (hj : b.live.jobKeys[j]? = some key) (job : Job) :
    isCurrent (x.rename (rank key b.owners) (rank key b.live.jobKeys))
      (rank key b.live.jobKeys j) job = isCurrent x j job := by
  unfold isCurrent
  congr 1
  cases hp : x.pending with
  | none => simp [Session.rename, hp]
  | some i =>
    have hi := h.names (List.mem_of_find?_eq_some hx) hp
    rw [session?_key hx] at hi
    rw [Bool.eq_iff_iff]
    simp only [Session.rename, hp, Option.map_some, beq_iff_eq, Option.some.injEq]
    exact ⟨fun heq => rank_inj hi hj heq, fun heq => by rw [heq]⟩

theorem Kept.share_look_self (h : Kept b) {j : Nat} {job : Job} (hjob : b.live.jobs[j]? = some job)
    {goOn goOn' : Session → Live}
    (hgoOn : ∀ x, b.owners[x.channel]? = some job.key →
      (goOn x).restrict job.key b.owners b.live.jobKeys =
        goOn' (x.rename (rank job.key b.owners) (rank job.key b.live.jobKeys))) :
    (b.live.look j job goOn).restrict job.key b.owners b.live.jobKeys =
      (b.share job.key).look (rank job.key b.live.jobKeys j) job goOn' := by
  have hname : b.live.jobKeys[j]? = some job.key := by
    rw [← keyOf?_eq]
    exact keyOf?_of_getElem? hjob
  have hadvance : ∀ phase, (b.live.advance j phase).restrict job.key b.owners b.live.jobKeys =
      (b.share job.key).advance (rank job.key b.live.jobKeys j) phase :=
    fun phase => restrict_setJob_self b.live hname _
  unfold Live.look Book.share
  rw [session?_restrict]
  cases hx : b.live.session? job.key with
  | none => exact hadvance _
  | some x =>
    have howner := h.seated x (List.mem_of_find?_eq_some hx)
    rw [session?_key hx] at howner
    simp only [Option.map_some, h.isCurrent_rename hx hname]
    split
    · exact hgoOn x howner
    · rw [restrict_emit_self (by exact h.channels) howner, hadvance]
      rfl

theorem Kept.share_look_of_ne (h : Kept b) {j : Nat} {job : Job} (hjob : b.live.jobs[j]? = some job)
    (hk : job.key ≠ key) {goOn : Session → Live}
    (hgoOn : ∀ x, b.owners[x.channel]? = some job.key →
      (goOn x).restrict key b.owners b.live.jobKeys = b.share key) :
    (b.live.look j job goOn).restrict key b.owners b.live.jobKeys = b.share key := by
  have hname : b.live.jobKeys[j]? ≠ some key := by
    rw [← keyOf?_eq, keyOf?_of_getElem? hjob]
    exact fun heq => hk (Option.some.inj heq)
  unfold Live.look
  cases hx : b.live.session? job.key with
  | none => exact restrict_setJob_of_ne b.live hname _
  | some x =>
    have howner := h.seated x (List.mem_of_find?_eq_some hx)
    rw [session?_key hx] at howner
    simp only
    split
    · exact hgoOn x howner
    · rw [restrict_emit_of_ne]
      · exact restrict_setJob_of_ne b.live hname _
      · rw [howner]
        exact fun heq => hk (Option.some.inj heq)

theorem Kept.share_newChannel (h : Kept b) (k key : Text) (isOpen : Bool) :
    Book.share { b with live := (b.live.newChannel isOpen).2, owners := b.owners ++ [k] } key =
      if k = key then ((b.share key).newChannel isOpen).2 else b.share key :=
  restrict_newChannel h.channels h.channelsBelow k isOpen

/-- Entering its session gives a key in its share what it gives it in the whole. -/
theorem Kept.share_enter_self (h : Kept b) (key : Text) :
    (b.enter key).share key = ((b.share key).enter key).2 ∧
      rank key (b.enter key).owners (b.live.enter key).1 = ((b.share key).enter key).1 := by
  have hsession : (b.share key).session? key = (b.live.session? key).map
      (Session.rename (rank key b.owners) (rank key b.live.jobKeys)) := session?_restrict b.live
  cases hx : b.live.session? key with
  | some x =>
    rw [hx] at hsession
    have henter : b.live.enter key = (x.channel, b.live) := by simp [Live.enter, hx]
    have hbook : b.enter key = b := by simp [Book.enter, henter, hx]
    have hlocal : (b.share key).enter key = (rank key b.owners x.channel, b.share key) := by
      simp [Live.enter, hsession, Session.rename]
    rw [hbook, henter, hlocal]
    exact ⟨rfl, rfl⟩
  | none =>
    rw [hx] at hsession
    have hlast : rank key (b.owners ++ [key]) b.live.channels.length =
        (b.share key).channels.length := by
      rw [rank_append (Nat.le_of_eq h.channels.symm)]
      exact (length_channels_restrict h.channels).symm
    have hshare := h.share_newChannel key key true
    rw [if_pos rfl] at hshare
    have happend := restrict_sessions_append key (b.owners ++ [key]) b.live.jobKeys
      (b.live.newChannel true).2 [⟨key, b.live.channels.length, none⟩]
    simp only [List.filter_cons, beq_self_eq_true, if_true, List.filter_nil, List.map_cons,
      List.map_nil, Session.rename, Option.map_none, hlast] at happend
    simp only [Book.enter, Live.enter, hx, hsession, Option.isNone_none, if_true, Option.map_none]
    refine ⟨?_, hlast⟩
    refine happend.trans ?_
    have hshare' : (b.live.newChannel true).2.restrict key (b.owners ++ [key]) b.live.jobKeys =
        ((b.share key).newChannel true).2 := hshare
    rw [hshare']
    rfl

theorem Kept.share_enter_of_ne (h : Kept b) {k : Text} (hk : k ≠ key) :
    (b.enter k).share key = b.share key := by
  cases hx : b.live.session? k with
  | some x =>
    have hbook : b.enter k = b := by simp [Book.enter, Live.enter, hx]
    rw [hbook]
  | none =>
    have hshare := h.share_newChannel k key true
    rw [if_neg hk] at hshare
    have happend := restrict_sessions_append key (b.owners ++ [k]) b.live.jobKeys
      (b.live.newChannel true).2 [⟨k, b.live.channels.length, none⟩]
    have hfilter : [(⟨k, b.live.channels.length, none⟩ : Session)].filter (·.key == key) = [] := by
      simp [hk]
    rw [hfilter, List.map_nil, List.append_nil] at happend
    simp only [Book.enter, Live.enter, hx, Option.isNone_none, if_true]
    exact happend.trans hshare

/-- A submission of the key is one in its share. -/
theorem Kept.share_submit_self (h : Kept b) (analyze : Text → Result) (key text : Text) :
    (b.step analyze (.submit key text)).share key =
      (b.share key).step analyze (.submit key text) := by
  have hclosed : (b.share key).isClosed = b.live.isClosed := rfl
  rw [step_submit, hclosed]
  cases hopen : b.live.isClosed with
  | true =>
    rw [Book.step_submit_of_closed hopen]
    rfl
  | false =>
    rw [Book.step_submit_of_open hopen, if_neg Bool.false_ne_true]
    obtain ⟨hentered, hchannel⟩ := h.share_enter_self key
    have hkept := (h.enter key).cancel key
    have hnames : ((b.enter key).live.cancel key).jobKeys = b.live.jobKeys :=
      (jobKeys_cancel _ key).trans (jobKeys_enter b.live key)
    have hcancelled := (h.enter key).share_cancel key key
    rw [if_pos rfl, hentered] at hcancelled
    have hqueued := hkept.restrict_enqueue key key text
    rw [if_pos rfl, hcancelled] at hqueued
    have hlast : rank key (b.live.jobKeys ++ [key]) b.live.jobs.length =
        (b.share key).jobs.length := by
      rw [rank_append (Nat.le_of_eq (length_jobKeys b.live).symm)]
      exact (length_jobs_restrict (length_jobKeys b.live)).symm
    simp only [Book.share, jobKeys_emit]
    rw [restrict_emit_self (by exact hkept.channels) (h.owner_enter key), hqueued, hchannel]
    simp only [jobKeys_enqueue, hnames, Event.rename, hlast]
    rfl

/-- A submission of another key does not show. -/
theorem Kept.share_submit_of_ne (h : Kept b) (analyze : Text → Result) {k : Text} (hk : k ≠ key)
    (text : Text) : (b.step analyze (.submit k text)).share key = b.share key := by
  cases hopen : b.live.isClosed with
  | true => rw [Book.step_submit_of_closed hopen]
  | false =>
    rw [Book.step_submit_of_open hopen]
    have hkept := (h.enter k).cancel k
    have hcancelled := (h.enter k).share_cancel k key
    rw [if_neg hk, h.share_enter_of_ne hk] at hcancelled
    have hqueued := hkept.restrict_enqueue k key text
    rw [if_neg hk, hcancelled] at hqueued
    have howner : (b.enter k).owners[(b.live.enter k).1]? ≠ some key := by
      rw [h.owner_enter k]
      exact fun heq => hk (Option.some.inj heq)
    simp only [Book.share, jobKeys_emit]
    rw [restrict_emit_of_ne _ howner, hqueued]
    rfl

end

/-! ## One step -/

namespace Book

/-- The number of a job among those of its key. -/
def jobName (b : Book) (key : Text) (j : Nat) : Nat := rank key b.live.jobKeys j

/-- The number of a channel among those of its key. -/
def channelName (b : Book) (key : Text) (c : Nat) : Nat := rank key b.owners c

/-- What an action is to a key: what clients do with the key, what happens to its jobs, what is
received from its channels, and the close. -/
def own? (b : Book) (key : Text) : Action → Option Action
  | .events k => if k = key then some (.events key) else none
  | .submit k text => if k = key then some (.submit key text) else none
  | .fire j => if b.live.keyOf? j = some key then some (.fire (b.jobName key j)) else none
  | .start j => if b.live.keyOf? j = some key then some (.start (b.jobName key j)) else none
  | .finish j => if b.live.keyOf? j = some key then some (.finish (b.jobName key j)) else none
  | .cancel k => if k = key then some (.cancel key) else none
  | .release k => if k = key then some (.release key) else none
  | .close => some .close
  | .receive c => if b.owners[c]? = some key then some (.receive (b.channelName key c)) else none

/-- What a run is to a key. -/
def ownActions (analyze : Text → Result) (key : Text) : Book → List Action → List Action
  | _, [] => []
  | b, a :: actions => (b.own? key a).toList ++ ownActions analyze key (b.step analyze a) actions

end Book

section
variable {b : Book}

/-- A job that is set going again, in the right phase, looks at the session of its key. In the share
of its key it does the same under its other name, and in other shares it does not show. -/
theorem Kept.restrict_resumed (h : Kept b) (j : Nat) (key : Text) {phase : Phase}
    {resume : Live → Nat → Live} {goOn : Live → Nat → Job → Session → Live}
    (hne : ∀ {s : Live} {j : Nat}, (∀ job, s.jobs[j]? = some job → job.phase ≠ phase) →
      resume s j = s)
    (heq : ∀ {s : Live} {j : Nat} {job : Job}, s.jobs[j]? = some job → job.phase = phase →
      resume s j = s.look j job (goOn s j job))
    (hself : ∀ job x, b.live.jobKeys[j]? = some job.key → b.owners[x.channel]? = some job.key →
      (goOn b.live j job x).restrict job.key b.owners b.live.jobKeys =
        goOn (b.share job.key) (b.jobName job.key j) job
          (x.rename (rank job.key b.owners) (rank job.key b.live.jobKeys)))
    (hother : ∀ job x, b.live.jobKeys[j]? ≠ some key → job.key ≠ key →
      b.owners[x.channel]? ≠ some key →
      (goOn b.live j job x).restrict key b.owners b.live.jobKeys = b.share key) :
    (resume b.live j).restrict key b.owners b.live.jobKeys =
      if b.live.keyOf? j = some key then resume (b.share key) (b.jobName key j)
        else b.share key := by
  by_cases hphase : ∃ job, b.live.jobs[j]? = some job ∧ job.phase = phase
  · obtain ⟨job, hjob, hphase⟩ := hphase
    have hname := keyOf?_of_getElem? hjob
    rw [keyOf?_eq] at hname
    rw [heq hjob hphase, keyOf?_eq]
    by_cases hk : job.key = key
    · subst hk
      have hjob' : (b.share job.key).jobs[b.jobName job.key j]? = some job := by
        rw [← hjob]
        exact getElem?_jobs_restrict (length_jobKeys b.live) hname
      rw [if_pos hname, heq hjob' hphase]
      exact h.share_look_self hjob fun x howner => hself job x hname howner
    · have hne' : ∀ {k : Option Text}, k = some job.key → k ≠ some key := by
        rintro _ rfl hsome
        exact hk (Option.some.inj hsome)
      rw [if_neg (hne' hname)]
      exact h.share_look_of_ne hjob hk fun x howner => hother job x (hne' hname) hk (hne' howner)
  · have hphase' : ∀ job, b.live.jobs[j]? = some job → job.phase ≠ phase :=
      fun job hjob hp => hphase ⟨job, hjob, hp⟩
    rw [hne hphase']
    split
    · rename_i hkey
      rw [keyOf?_eq] at hkey
      have hjob' : (b.share key).jobs[b.jobName key j]? = b.live.jobs[j]? :=
        getElem?_jobs_restrict (length_jobKeys b.live) hkey
      rw [hne fun job hjob => hphase' job (hjob'.symm.trans hjob)]
      rfl
    · rfl

theorem share_fire (b : Book) (j : Nat) (key : Text) :
    Book.share { b with live := b.live.fire j } key =
      if b.live.keyOf? j = some key then (b.share key).fire (b.jobName key j) else b.share key := by
  unfold Book.share
  simp only [jobKeys_fire]
  rw [keyOf?_eq]
  split
  · rename_i hname
    exact restrict_setJob_self b.live hname _
  · rename_i hname
    exact restrict_setJob_of_ne b.live hname _

theorem Kept.share_start (h : Kept b) (j : Nat) (key : Text) :
    Book.share { b with live := b.live.start j } key =
      if b.live.keyOf? j = some key then (b.share key).start (b.jobName key j)
        else b.share key := by
  unfold Book.share
  simp only [jobKeys_start]
  refine h.restrict_resumed j key start_of_ne start_of_fired ?_ ?_
  · intro job x hname howner
    rw [restrict_emit_self (by exact h.channels) howner, Live.advance, restrict_setJob_self _ hname]
    rfl
  · intro job x hname hk howner
    rw [restrict_emit_of_ne _ howner, Live.advance, restrict_setJob_of_ne _ hname]
    rfl

theorem Kept.share_finish (h : Kept b) (analyze : Text → Result) (j : Nat) (key : Text) :
    Book.share { b with live := b.live.finish analyze j } key =
      if b.live.keyOf? j = some key then (b.share key).finish analyze (b.jobName key j)
      else b.share key := by
  unfold Book.share
  simp only [jobKeys_finish]
  refine h.restrict_resumed j key (finish_of_ne analyze) (finish_of_running analyze) ?_ ?_
  · intro job x hname howner
    have hlength : b.owners.length = ((b.live.settle job.key j).emit x.channel
        (.result j (analyze job.text))).channels.length := by
      rw [length_channels_emit]
      exact h.channels
    rw [restrict_emit_self hlength howner, restrict_emit_self (by exact h.channels) howner, settle,
      restrict_setJob_self _ hname, restrict_setPending_self]
    rfl
  · intro job x hname hk howner
    rw [restrict_emit_of_ne _ howner, restrict_emit_of_ne _ howner, settle,
      restrict_setJob_of_ne _ hname, restrict_setPending_of_ne _ _ _ hk]
    rfl

/-- **One step.** What an action does to the share of a key is what it is to the key. -/
theorem Kept.share_step (h : Kept b) (hsound : b.live.board.Sound) (analyze : Text → Result)
    (a : Action) (key : Text) :
    (b.step analyze a).share key = (b.share key).run analyze (b.own? key a).toList := by
  have hrun : ∀ (p : Prop) [Decidable p] (a' : Action),
      (b.share key).run analyze (if p then some a' else none).toList =
        if p then (b.share key).step analyze a' else b.share key := by
    intro p _ a'
    split <;> rfl
  have hplain : ∀ s : Live, Book.share ⟨s, b.owners ++ [], b.homes ++ []⟩ key =
      Book.share { b with live := s } key := by
    intro s
    rw [List.append_nil, List.append_nil]
  cases a with
  | events k =>
    rw [Book.own?, hrun]
    cases hopen : b.live.isClosed with
    | true =>
      rw [Book.step_events_of_closed hopen, h.share_newChannel]
      have hclosed : (b.share key).isClosed = true := hopen
      simp only [Live.step, Live.events, hclosed, if_true]
    | false =>
      rw [Book.step_events_of_open hopen]
      have hclosed : (b.share key).isClosed = false := hopen
      simp only [Live.step, Live.events, hclosed, Bool.false_eq_true, if_false]
      split
      · rename_i hk
        subst hk
        exact (h.share_enter_self k).1
      · rename_i hk
        exact h.share_enter_of_ne hk
  | submit k text =>
    rw [Book.own?, hrun]
    split
    · rename_i hk
      subst hk
      exact h.share_submit_self analyze k text
    · rename_i hk
      exact h.share_submit_of_ne analyze hk text
  | fire j =>
    rw [Book.own?, hrun]
    exact (hplain _).trans (share_fire b j key)
  | start j =>
    rw [Book.own?, hrun]
    exact (hplain _).trans (h.share_start j key)
  | finish j =>
    rw [Book.own?, hrun]
    exact (hplain _).trans (h.share_finish analyze j key)
  | cancel k =>
    rw [Book.own?, hrun]
    exact (hplain _).trans (h.share_cancel k key)
  | release k =>
    rw [Book.own?, hrun]
    exact (hplain _).trans (h.share_release k key)
  | close => exact (hplain _).trans (h.share_close hsound key)
  | receive c =>
    rw [Book.own?, hrun]
    refine (hplain _).trans ?_
    split
    · rename_i hc
      exact restrict_receive_self b.live hc
    · rename_i hc
      exact restrict_receive_of_ne b.live hc

end

/-- **Whole runs.** The share of a key is what its own actions alone lead to. -/
theorem share_run (analyze : Text → Result) (key : Text) (actions : List Action) :
    ∀ {b : Book}, Kept b → b.live.board.Sound →
      (b.run analyze actions).share key =
        (b.share key).run analyze (b.ownActions analyze key actions) := by
  induction actions with
  | nil => intro b _ _; rfl
  | cons a actions ih =>
    intro b h hsound
    have hrest := ih (h.step hsound analyze a) (hsound.changes (changes_step analyze b.live a))
    rw [h.share_step hsound analyze a key] at hrest
    rw [Book.ownActions, run_append]
    exact hrest

/-- **Keys are independent.** Take two runs that are the same to a key: the same operations on the
key, delays and analyses of its jobs, receptions from its channels, and closes, in the same order.
What the key has of them is then the same, its session, its jobs, its channels with what waits in
them, and all that was sent, dropped or closed on them, whatever other keys do in between: it is
what the actions on the key alone lead to. Only the numbers of jobs and channels differ. All that is
reported on the channels of the key is about its jobs, and no two of its jobs share a name. -/
theorem keys_independent (analyze : Text → Result) (capacity : Int) (key : Text)
    (actions actions' : List Action)
    (hsame : (Book.empty capacity).ownActions analyze key actions =
      (Book.empty capacity).ownActions analyze key actions') :
    let b := (Book.empty capacity).run analyze actions
    let b' := (Book.empty capacity).run analyze actions'
    b.share key = b'.share key ∧
    b.share key = (Live.empty capacity).run analyze
      ((Book.empty capacity).ownActions analyze key actions) ∧
    b.live = (Live.empty capacity).run analyze actions ∧
    (∀ f ∈ b.live.log, b.owners[f.channel]? = some key → ∀ e, f.event? = some e →
      b.live.keyOf? e.job = some key) ∧
    ∀ i j, b.live.keyOf? i = some key → b.live.keyOf? j = some key →
      b.jobName key i = b.jobName key j → i = j := by
  intro b b'
  have hshare := fun actions => share_run analyze key actions (kept_empty capacity)
    (sound_empty capacity)
  obtain ⟨hkept, -⟩ := kept_run analyze (kept_empty capacity) (sound_empty capacity) actions
  refine ⟨?_, hshare actions, Book.live_run analyze actions _, ?_, ?_⟩
  · rw [hshare actions, hshare actions', hsame]
  · intro f hf howner e he
    obtain ⟨k, hk, hjob⟩ := hkept.logged f hf
    rw [hjob e he, ← howner, hk]
  · intro i j hi hj hname
    rw [keyOf?_eq] at hi hj
    exact rank_inj hi hj hname

/-- Two texts are analyzed side by side, or one after another key was released: on the channels of
the first key the same two reports are sent and the same two dropped. -/
theorem other_key_unnoticed :
    let analyze : Text → Result := fun t => { (default : Result) with secureCode := t }
    let actions : List Action := [.submit [97] [1], .submit [98] [2], .fire 1, .fire 0, .start 1,
      .start 0, .finish 1, .finish 0, .receive 0]
    let actions' : List Action :=
      [.submit [98] [3], .fire 0, .start 0, .release [98], .submit [97] [1],
      .events [98], .fire 1, .finish 0, .start 1, .finish 1, .receive 1]
    let b := (Book.empty 2).run analyze actions
    let b' := (Book.empty 2).run analyze actions'
    (Book.empty 2).ownActions analyze [97] actions =
        [.submit [97] [1], .fire 0, .start 0, .finish 0, .receive 0] ∧
      (Book.empty 2).ownActions analyze [97] actions' =
        [.submit [97] [1], .fire 0, .start 0, .finish 0, .receive 0] ∧
      b.share [97] = b'.share [97] ∧
      (b.share [97]).log = [.dropped 0 (.status 0 .done), .dropped 0 (.result 0 (analyze [1])),
        .sent 0 (.status 0 .running), .sent 0 (.status 0 .pending)] ∧
      b'.live.waiting 1 = [.status 1 .running] := by
  intro analyze actions actions' b b'
  have hsame : (Book.empty 2).ownActions analyze [97] actions =
      (Book.empty 2).ownActions analyze [97] actions' := by decide
  exact ⟨by decide, by decide, (keys_independent analyze 2 [97] actions actions' hsame).1, by
    decide, by decide⟩

end Live
end CodeAudit
