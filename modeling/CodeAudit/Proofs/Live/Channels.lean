import Mathlib.Logic.Relation
import CodeAudit.Proofs.Live.Freshness

/-!
# Channels are closed once and then left alone

To send on a channel that is closed, or to close it again, would end the whole program. Jobs look up
the channel of their key anew after an analysis, and by then the key may have been released, or
released and entered again.

**The board (`Board`).** What matters of the state: which key has which channel, which channels are
open, what was done on them, and whether everything is closed. `Change` lists all that can happen to
it: a report on a channel that a key has, a new channel for a key that has none, the end of a key's
channel, and, after the close, a channel that is closed from the start. `changes_step` says that
every action goes by such changes, so what follows looks at the changes alone.

**Results.**
* `Board.Sound.change`: the channels that keys have are open and all different, and nothing is done
  on a channel after it was closed.
* `Board.Sound.untouched`: on a closed channel nothing happens any more.
* `held_run`: a key has its channel until its release or the close, and no longer.
* `channels_closed_once`: what clients can rely on.
-/
namespace CodeAudit
namespace Live

/-- The channel that an effect is about. -/
def Effect.channel : Effect → Nat
  | .sent c _ => c
  | .dropped c _ => c
  | .closed c => c

/-- The channels and who has them. -/
structure Board where
  /-- Each key with its channel. -/
  directory : List (Text × Nat)
  /-- Whether each channel is open. -/
  gates : List Bool
  /-- What was done on the channels, newest first. -/
  log : List Effect
  isClosed : Bool

/-- The board of a state. -/
def board (s : Live) : Board where
  directory := s.sessions.map fun x => (x.key, x.channel)
  gates := s.channels.map Channel.isOpen
  log := s.log
  isClosed := s.isClosed

namespace Board

/-- What can happen to a board at once. -/
inductive Change (b : Board) : Board → Prop
  /-- A report on the channel of a key, which may be dropped. -/
  | report (key : Text) (c : Nat) (e : Effect) (hkey : (key, c) ∈ b.directory)
    (hchannel : e.channel = c) (hreport : e ≠ .closed c) : Change b { b with log := e :: b.log }
  /-- A key gets a new channel. -/
  | enter (key : Text) (hopen : b.isClosed = false) (hnew : key ∉ b.directory.map Prod.fst) :
    Change b { b with
      directory := b.directory ++ [(key, b.gates.length)], gates := b.gates ++ [true] }
  /-- A key loses its channel, which is closed. -/
  | leave (key : Text) (c : Nat) (hkey : (key, c) ∈ b.directory) :
    Change b { b with
      directory := b.directory.filter (·.1 != key), gates := b.gates.set c false
      log := .closed c :: b.log }
  /-- No key has a channel any more, and none gets one from now on. -/
  | shut (hempty : b.directory = []) : Change b { b with isClosed := true }
  /-- A channel that nobody has. -/
  | refuse (hclosed : b.isClosed = true) : Change b { b with gates := b.gates ++ [false] }

/-- Any number of changes. -/
abbrev Changes : Board → Board → Prop := Relation.ReflTransGen Change

end Board

open Board (Change Changes)

/-! ## The board after an operation -/

theorem gates_modify (channels : List Channel) (c : Nat) {f : Channel → Channel}
    (hf : ∀ ch, (f ch).isOpen = ch.isOpen) :
    (channels.modify c f).map Channel.isOpen = channels.map Channel.isOpen := by
  apply List.ext_getElem?
  intro i
  rw [List.getElem?_map, List.getElem?_map, List.getElem?_modify]
  cases channels[i]? with
  | none => rfl
  | some ch =>
    simp only [Option.map_eq_map, Option.map_some]
    split
    · rw [hf ch]
    · rfl

theorem gates_shut (channels : List Channel) (c : Nat) :
    (channels.modify c fun ch => { ch with isOpen := false }).map Channel.isOpen =
      (channels.map Channel.isOpen).set c false := by
  apply List.ext_getElem?
  intro i
  rw [List.getElem?_map, List.getElem?_modify, List.getElem?_set, List.getElem?_map]
  by_cases hc : c = i
  · subst hc
    cases hi : channels[c]? with
    | none =>
      have hlen := List.getElem?_eq_none_iff.1 hi
      simp [hlen]
    | some ch =>
      have hlen := (List.getElem?_eq_some_iff.1 hi).1
      simp [hlen]
  · simp [hc]

@[simp] theorem board_setPending (s : Live) (key : Text) (p : Option Nat) :
    (s.setPending key p).board = s.board := by
  have hseat : ∀ x : Session,
      ((if x.key == key then { x with pending := p } else x : Session).key,
        (if x.key == key then { x with pending := p } else x : Session).channel) =
          (x.key, x.channel) := by
    intro x
    split <;> rfl
  simp only [board, setPending, List.map_map, Function.comp_def, hseat]

@[simp] theorem board_setJob (s : Live) (j : Nat) (f : Job → Job) :
    (s.setJob j f).board = s.board := rfl

@[simp] theorem board_advance (s : Live) (j : Nat) (phase : Phase) :
    (s.advance j phase).board = s.board := rfl

@[simp] theorem board_enqueue (s : Live) (key text : Text) :
    (s.enqueue key text).board = s.board := board_setPending s key _

@[simp] theorem board_receive (s : Live) (c : Nat) : (s.receive c).board = s.board := by
  unfold receive board
  simp only
  rw [gates_modify]
  intro ch
  rfl

/-- A report goes on record, sent or dropped, and nothing else changes. -/
theorem board_emit (s : Live) (c : Nat) (e : Event) :
    ∃ f : Effect, f.channel = c ∧ f ≠ .closed c ∧
      (s.emit c e).board = { s.board with log := f :: s.log } := by
  unfold emit
  simp only
  split
  · refine ⟨.sent c e, rfl, by simp, ?_⟩
    simp only [board]
    rw [gates_modify]
    intro ch
    rfl
  · exact ⟨.dropped c e, rfl, by simp, rfl⟩

theorem mem_directory_of_session? {s : Live} {key : Text} {x : Session}
    (h : s.session? key = some x) : (key, x.channel) ∈ s.board.directory := by
  have hmem : x ∈ s.sessions := List.mem_of_find?_eq_some h
  rw [← session?_key h]
  exact List.mem_map.2 ⟨x, hmem, rfl⟩

theorem key_not_mem_of_session? {s : Live} {key : Text} (h : s.session? key = none) :
    key ∉ s.board.directory.map Prod.fst := by
  intro hmem
  obtain ⟨p, hp, rfl⟩ := List.mem_map.1 hmem
  obtain ⟨x, hx, rfl⟩ := List.mem_map.1 hp
  exact List.find?_eq_none.1 h x hx (by simp)

/-! ## Every action goes by changes -/

theorem changes_of_eq {s t : Live} (h : t.board = s.board) : Changes s.board t.board := by
  rw [h]

/-- A report on the channel of a key that the state before had. -/
theorem changes_emit {s t : Live} {key : Text} {c : Nat} (hboard : t.board = s.board)
    (hkey : (key, c) ∈ s.board.directory) (e : Event) :
    Changes s.board (t.emit c e).board := by
  obtain ⟨f, hchannel, hreport, hemit⟩ := board_emit t c e
  have hlog : t.log = s.board.log := by
    rw [← hboard]
    rfl
  rw [hemit, hboard, hlog]
  exact .single (.report key c f hkey hchannel hreport)

theorem changes_enter {s : Live} (hopen : s.isClosed = false) (key : Text) :
    Changes s.board (s.enter key).2.board := by
  unfold enter
  cases hx : s.session? key with
  | some x => exact .refl
  | none =>
    have hboard : Change s.board { s.board with
        directory := s.board.directory ++ [(key, s.board.gates.length)]
        gates := s.board.gates ++ [true] } :=
      .enter key hopen (key_not_mem_of_session? hx)
    refine .single ?_
    simpa [newChannel, board] using hboard

theorem changes_cancelPending {s : Live} {x : Session} (hx : s.session? x.key = some x) :
    Changes s.board (s.cancelPending x).board := by
  unfold cancelPending
  cases x.pending with
  | none => exact .refl
  | some j =>
    simp only
    split
    · exact changes_emit (by simp) (mem_directory_of_session? hx) _
    · exact changes_of_eq (by simp)

theorem changes_cancel (s : Live) (key : Text) : Changes s.board (s.cancel key).board := by
  unfold cancel
  cases hx : s.session? key with
  | none => exact .refl
  | some x =>
    have hxk := session?_key hx
    exact changes_cancelPending (by rw [hxk]; exact hx)

/-- Entering tells the channel that the key has from then on. -/
theorem session?_enter_self (s : Live) (key : Text) :
    ∃ x, (s.enter key).2.session? key = some x ∧ x.channel = (s.enter key).1 := by
  rw [session?_enter]
  unfold enter
  cases hx : s.session? key with
  | some x => exact ⟨x, by simp, rfl⟩
  | none => exact ⟨⟨key, s.channels.length, none⟩, by simp, rfl⟩

theorem changes_submit (analyze : Text → Result) (s : Live) (key text : Text) :
    Changes s.board (s.step analyze (.submit key text)).board := by
  rw [step_submit]
  cases hopen : s.isClosed with
  | true => exact .refl
  | false =>
    rw [if_neg Bool.false_ne_true]
    have henter := changes_enter hopen key
    have hcancel := changes_cancel (s.enter key).2 key
    obtain ⟨x, hx, hchannel⟩ := session?_enter_self s key
    -- The key keeps its channel when its old job is cancelled.
    have hkept : ((s.enter key).2.cancel key).session? key = some { x with pending := none } := by
      rw [session?_cancel, if_pos rfl, hx]
      rfl
    have hmem := mem_directory_of_session? hkept
    rw [← hchannel]
    exact (henter.trans hcancel).trans (changes_emit (by simp) hmem _)

theorem changes_release (s : Live) (key : Text) : Changes s.board (s.release key).board := by
  unfold release
  cases hx : s.session? key with
  | none => exact .refl
  | some x =>
    have hxk := session?_key hx
    have hx' : s.session? x.key = some x := by
      rw [hxk]
      exact hx
    have hkept := session?_cancelPending hx' key
    rw [if_pos hxk.symm] at hkept
    have hmem := mem_directory_of_session? hkept
    have hleave := Change.leave key x.channel hmem
    refine (changes_cancelPending hx').tail ?_
    simp only [shut]
    generalize s.cancelPending x = t at hleave ⊢
    unfold board at hleave ⊢
    simp only [gates_shut, List.filter_map, Function.comp_def] at hleave ⊢
    exact hleave

theorem sessions_eq_nil {s : Live} (h : ∀ k, s.session? k = none) : s.sessions = [] := by
  rw [List.eq_nil_iff_forall_not_mem]
  intro x hx
  exact List.find?_eq_none.1 (h x.key) x hx (by simp)

theorem changes_close (s : Live) : Changes s.board s.close.board := by
  cases hopen : s.isClosed with
  | true =>
    unfold close
    rw [if_pos hopen]
  | false =>
    have hempty : s.close.sessions = [] := sessions_eq_nil (session?_close hopen)
    unfold close at hempty ⊢
    rw [hopen, if_neg Bool.false_ne_true] at hempty ⊢
    have hfold := foldl_release_preserves (P := fun t => Changes s.board t.board)
      (fun t key ht => ht.trans (changes_release t key)) (s.sessions.map Session.key) .refl
    refine hfold.tail ?_
    generalize (s.sessions.map Session.key).foldl release s = t at hempty ⊢
    have hdirectory : t.board.directory = [] := by
      simp only at hempty
      simp [board, hempty]
    exact .shut hdirectory

theorem changes_start (s : Live) (j : Nat) : Changes s.board (s.start j).board := by
  rcases start_cases s j with hs | ⟨job, -, -, ⟨-, hs⟩ | ⟨x, hx, ⟨-, hs⟩ | ⟨-, hs⟩⟩⟩ <;> rw [hs]
  · exact .refl
  · exact changes_emit (board_advance s j _) (mem_directory_of_session? hx) _
  · exact changes_emit (board_advance s j _) (mem_directory_of_session? hx) _

theorem changes_finish (analyze : Text → Result) (s : Live) (j : Nat) :
    Changes s.board (s.finish analyze j).board := by
  rcases finish_cases analyze s j with hs | ⟨job, -, -, ⟨-, hs⟩ | ⟨x, hx, ⟨-, hs⟩ | ⟨-, hs⟩⟩⟩ <;>
    rw [hs]
  · exact .refl
  · have hsettle : (s.settle job.key j).board = s.board := by simp [settle]
    have hmem := mem_directory_of_session? hx
    have hmem' : (job.key, x.channel) ∈
        ((s.settle job.key j).emit x.channel (.result j (analyze job.text))).board.directory := by
      obtain ⟨f, -, -, hemit⟩ := board_emit (s.settle job.key j) x.channel
        (.result j (analyze job.text))
      rw [hemit, hsettle]
      exact hmem
    exact (changes_emit hsettle hmem _).trans (changes_emit rfl hmem' _)
  · exact changes_emit (board_advance s j _) (mem_directory_of_session? hx) _

/-- **One step.** Every action goes by changes of the board. -/
theorem changes_step (analyze : Text → Result) (s : Live) (a : Action) :
    Changes s.board (s.step analyze a).board := by
  cases a with
  | events key =>
    rw [step, events]
    cases hclosed : s.isClosed with
    | true =>
      rw [if_pos rfl]
      have hrefuse : Change s.board { s.board with gates := s.board.gates ++ [false] } :=
        .refuse hclosed
      refine .single ?_
      simpa [newChannel, board] using hrefuse
    | false => exact changes_enter hclosed key
  | submit key text => exact changes_submit analyze s key text
  | fire j => exact .refl
  | start j => exact changes_start s j
  | finish j => exact changes_finish analyze s j
  | cancel key => exact changes_cancel s key
  | release key => exact changes_release s key
  | close => exact changes_close s
  | receive c => exact changes_of_eq (board_receive s c)

theorem changes_run (analyze : Text → Result) (s : Live) (actions : List Action) :
    Changes s.board (s.run analyze actions).board :=
  run_preserves (P := fun t => Changes s.board t.board)
    (fun t a h => h.trans (changes_step analyze t a)) actions .refl

/-! ## What changes keep -/

namespace Board

/-- The channels are used as they should be. -/
structure Sound (b : Board) : Prop where
  keyed : ∀ {key c d}, (key, c) ∈ b.directory → (key, d) ∈ b.directory → c = d
  owned : ∀ {key k c}, (key, c) ∈ b.directory → (k, c) ∈ b.directory → key = k
  isOpen : ∀ {key c}, (key, c) ∈ b.directory → b.gates[c]? = some true
  known : ∀ e ∈ b.log, e.channel < b.gates.length
  shut : ∀ {c}, .closed c ∈ b.log → b.gates[c]? = some false
  /-- Nothing newer is about a channel that something older closed. -/
  orderly : b.log.Pairwise fun newer older => ∀ c, older = .closed c → newer.channel ≠ c
  quiet : b.isClosed = true → b.directory = []

theorem Sound.lt_of_mem {b : Board} (h : b.Sound) {key : Text} {c : Nat}
    (hkey : (key, c) ∈ b.directory) : c < b.gates.length :=
  (List.getElem?_eq_some_iff.1 (h.isOpen hkey)).1

/-- Whatever is done on a channel that a key has, it was not closed before. -/
theorem Sound.orderly_cons {b : Board} (h : b.Sound) {key : Text} {e : Effect}
    (hkey : (key, e.channel) ∈ b.directory) :
    (e :: b.log).Pairwise fun newer older => ∀ c, older = .closed c → newer.channel ≠ c := by
  refine List.pairwise_cons.2 ⟨fun older hmem c hc heq => ?_, h.orderly⟩
  have hopen := h.isOpen hkey
  have hshut := h.shut (hc ▸ hmem)
  rw [heq, hshut] at hopen
  cases hopen

theorem Sound.report {b : Board} (h : b.Sound) {key : Text} {e : Effect}
    (hkey : (key, e.channel) ∈ b.directory) (hreport : e ≠ .closed e.channel) :
    Sound { b with log := e :: b.log } where
  keyed := h.keyed
  owned := h.owned
  isOpen := h.isOpen
  known := by
    intro f hf
    rcases List.mem_cons.1 hf with rfl | hf
    · exact h.lt_of_mem hkey
    · exact h.known f hf
  shut := by
    intro c hc
    rcases List.mem_cons.1 hc with rfl | hc
    · exact absurd rfl hreport
    · exact h.shut hc
  orderly := h.orderly_cons hkey
  quiet := h.quiet

theorem Sound.enter {b : Board} (h : b.Sound) {key : Text} (hopen : b.isClosed = false)
    (hnew : key ∉ b.directory.map Prod.fst) :
    Sound { b with
      directory := b.directory ++ [(key, b.gates.length)], gates := b.gates ++ [true] } where
  keyed := by
    intro k c d hc hd
    have hother : ∀ {c}, (key, c) ∈ b.directory → False := fun hc =>
      hnew (List.mem_map.2 ⟨_, hc, rfl⟩)
    simp only [List.mem_append, List.mem_singleton, Prod.mk.injEq] at hc hd
    rcases hc with hc | ⟨rfl, rfl⟩ <;> rcases hd with hd | ⟨hk, rfl⟩
    · exact h.keyed hc hd
    · exact (hother (hk ▸ hc)).elim
    · exact (hother hd).elim
    · rfl
  owned := by
    intro k k' c hk hk'
    simp only [List.mem_append, List.mem_singleton, Prod.mk.injEq] at hk hk'
    rcases hk with hk | ⟨rfl, rfl⟩ <;> rcases hk' with hk' | ⟨rfl, hc⟩
    · exact h.owned hk hk'
    · have := h.lt_of_mem hk
      omega
    · have := h.lt_of_mem hk'
      omega
    · rfl
  isOpen := by
    intro k c hk
    simp only [List.mem_append, List.mem_singleton, Prod.mk.injEq] at hk
    rcases hk with hk | ⟨rfl, rfl⟩
    · rw [List.getElem?_append_left (h.lt_of_mem hk)]
      exact h.isOpen hk
    · exact List.getElem?_concat_length
  known := by
    intro e he
    have := h.known e he
    rw [List.length_append]
    omega
  shut := by
    intro c hc
    have hshut := h.shut hc
    rw [List.getElem?_append_left (List.getElem?_eq_some_iff.1 hshut).1]
    exact hshut
  orderly := h.orderly
  quiet := by
    intro hclosed
    rw [hopen] at hclosed
    cases hclosed

theorem Sound.leave {b : Board} (h : b.Sound) {key : Text} {c : Nat}
    (hkey : (key, c) ∈ b.directory) :
    Sound { b with
      directory := b.directory.filter (·.1 != key), gates := b.gates.set c false
      log := .closed c :: b.log } where
  keyed := fun hc hd => h.keyed (List.mem_filter.1 hc).1 (List.mem_filter.1 hd).1
  owned := fun hk hk' => h.owned (List.mem_filter.1 hk).1 (List.mem_filter.1 hk').1
  isOpen := by
    intro k d hd
    obtain ⟨hd, hk⟩ := List.mem_filter.1 hd
    -- Another key has another channel, which stays open.
    have hne : c ≠ d := by
      rintro rfl
      rw [h.owned hd hkey] at hk
      simp at hk
    rw [List.getElem?_set_ne hne]
    exact h.isOpen hd
  known := by
    intro e he
    rw [List.length_set]
    rcases List.mem_cons.1 he with rfl | he
    · exact h.lt_of_mem hkey
    · exact h.known e he
  shut := by
    intro d hd
    rw [List.getElem?_set]
    split
    · rename_i hcd
      subst hcd
      simp [h.lt_of_mem hkey]
    · rename_i hcd
      rcases List.mem_cons.1 hd with heq | hd
      · cases heq
        exact absurd rfl hcd
      · exact h.shut hd
  orderly := h.orderly_cons (e := .closed c) hkey
  quiet := by
    intro hclosed
    rw [h.quiet hclosed]
    rfl

theorem Sound.change {b b' : Board} (h : b.Sound) (hc : Change b b') : b'.Sound := by
  cases hc with
  | report key c e hkey hchannel hreport =>
    subst hchannel
    exact h.report hkey hreport
  | enter key hopen hnew => exact h.enter hopen hnew
  | leave key c hkey => exact h.leave hkey
  | shut hempty =>
    exact ⟨h.keyed, h.owned, h.isOpen, h.known, h.shut, h.orderly, fun _ => hempty⟩
  | refuse hclosed =>
    refine ⟨h.keyed, h.owned, ?_, ?_, ?_, h.orderly, h.quiet⟩
    · intro key c hkey
      rw [h.quiet hclosed] at hkey
      cases hkey
    · intro e he
      have := h.known e he
      rw [List.length_append]
      omega
    · intro c hc
      have hshut := h.shut hc
      rw [List.getElem?_append_left (List.getElem?_eq_some_iff.1 hshut).1]
      exact hshut

/-- A closed channel stays closed, and nothing is done on it. -/
theorem Sound.untouched_change {b b' : Board} (h : b.Sound) (hc : Change b b') {c : Nat}
    (hshut : b.gates[c]? = some false) :
    b'.gates[c]? = some false ∧ ∀ e ∈ b'.log, e.channel = c → e ∈ b.log := by
  have hlt := (List.getElem?_eq_some_iff.1 hshut).1
  have hfree : ∀ {key}, (key, c) ∉ b.directory := by
    intro key hkey
    rw [h.isOpen hkey] at hshut
    cases hshut
  cases hc with
  | report key d e hkey hchannel hreport =>
    refine ⟨hshut, fun f hf hfc => ?_⟩
    rcases List.mem_cons.1 hf with rfl | hf
    · rw [← hchannel, hfc] at hkey
      exact absurd hkey hfree
    · exact hf
  | enter key hopen hnew =>
    refine ⟨?_, fun e he _ => he⟩
    rw [List.getElem?_append_left hlt]
    exact hshut
  | leave key d hkey =>
    have hne : d ≠ c := by
      rintro rfl
      exact hfree hkey
    refine ⟨?_, fun f hf hfc => ?_⟩
    · rw [List.getElem?_set_ne hne]
      exact hshut
    · rcases List.mem_cons.1 hf with rfl | hf
      · exact absurd hfc hne
      · exact hf
  | shut hempty => exact ⟨hshut, fun e he _ => he⟩
  | refuse hclosed =>
    refine ⟨?_, fun e he _ => he⟩
    rw [List.getElem?_append_left hlt]
    exact hshut

theorem Sound.changes {b b' : Board} (h : b.Sound) (hc : Changes b b') : b'.Sound := by
  induction hc with
  | refl => exact h
  | tail _ hc ih => exact ih.change hc

theorem Sound.untouched {b b' : Board} (h : b.Sound) (hc : Changes b b') {c : Nat}
    (hshut : b.gates[c]? = some false) :
    b'.gates[c]? = some false ∧ ∀ e ∈ b'.log, e.channel = c → e ∈ b.log := by
  induction hc with
  | refl => exact ⟨hshut, fun e he _ => he⟩
  | tail hcs hc ih =>
    obtain ⟨hshut', hlog⟩ := (h.changes hcs).untouched_change hc ih.1
    exact ⟨hshut', fun e he hchannel => ih.2 e (hlog e he hchannel) hchannel⟩

theorem mem_log_changes {b b' : Board} (hc : Changes b b') {e : Effect} (he : e ∈ b.log) :
    e ∈ b'.log := by
  induction hc with
  | refl => exact he
  | tail _ hc ih =>
    cases hc with
    | report => exact List.mem_cons_of_mem _ ih
    | enter => exact ih
    | leave => exact List.mem_cons_of_mem _ ih
    | shut => exact ih
    | refuse => exact ih

/-- No channel is closed twice. -/
theorem Sound.count_closed_le {b : Board} (h : b.Sound) (c : Nat) :
    b.log.count (.closed c) ≤ 1 := by
  have horderly := h.orderly
  generalize b.log = log at horderly ⊢
  induction log with
  | nil => simp
  | cons e log ih =>
    obtain ⟨hhead, htail⟩ := List.pairwise_cons.1 horderly
    by_cases he : e = .closed c
    · have hnone : Effect.closed c ∉ log := fun hmem => hhead _ hmem c rfl (by rw [he]; rfl)
      have hzero : log.count (.closed c) = 0 := List.count_eq_zero.2 hnone
      rw [he, List.count_cons_self]
      omega
    · rw [List.count_cons_of_ne he]
      exact ih htail

end Board

theorem sound_empty (capacity : Int) : (empty capacity).board.Sound where
  keyed := fun hc => by cases hc
  owned := fun hk => by cases hk
  isOpen := fun hk => by cases hk
  known := fun e he => by cases he
  shut := fun hc => by cases hc
  orderly := .nil
  quiet := fun _ => rfl

/-- **Whole runs.** -/
theorem sound_run (analyze : Text → Result) (capacity : Int) (actions : List Action) :
    ((empty capacity).run analyze actions).board.Sound :=
  (sound_empty capacity).changes (changes_run analyze _ actions)

/-! ## When a channel is closed -/

theorem isClosed_step (analyze : Text → Result) (s : Live) (a : Action) :
    (s.step analyze a).isClosed = (s.isClosed || decide (a = .close)) := by
  cases a with
  | events key => simp [step]
  | submit key text =>
    rw [step_submit]
    split <;> simp
  | fire j => simp [step, fire]
  | start j => simp [step, isClosed_start]
  | finish j => simp [step, isClosed_finish]
  | cancel key => simp [step]
  | release key => simp [step]
  | close =>
    cases hc : s.isClosed <;> simp [step, close, hc]
  | receive c => simp [step, receive]

theorem isClosed_run (analyze : Text → Result) (capacity : Int) (actions : List Action) :
    ((empty capacity).run analyze actions).isClosed = decide (.close ∈ actions) := by
  have hstart : (empty capacity).isClosed = decide (Action.close ∈ ([] : List Action)) := by
    simp [empty]
  refine run_history (P := fun past s => s.isClosed = decide (.close ∈ past)) ?_ actions hstart
  intro past s a h
  rw [isClosed_step, h]
  simp [eq_comm]

/-- A release closes the channel of its key. -/
theorem closed_mem_release {s : Live} {key : Text} {x : Session} (hx : s.session? key = some x) :
    .closed x.channel ∈ (s.release key).log := by
  simp [release, hx, shut]

/-- The close closes the channel of every key. -/
theorem closed_mem_close {s : Live} {key : Text} {x : Session} (hopen : s.isClosed = false)
    (hx : s.session? key = some x) : .closed x.channel ∈ s.close.log := by
  -- While the keys are released one after another, this one has its channel or has lost it.
  have hkept : s.close.session? key = some x ∨ .closed x.channel ∈ s.close.log := by
    refine close_preserves
      (P := fun t => t.session? key = some x ∨ Effect.closed x.channel ∈ t.log) ?_ (fun t h => h)
      (.inl hx)
    intro t k h
    rcases h with h | h
    · by_cases hk : key = k
      · subst hk
        exact .inr (closed_mem_release h)
      · rw [session?_release, if_neg hk]
        exact .inl h
    · exact .inr (Board.mem_log_changes (changes_release t k) h)
  rcases hkept with hsome | hlog
  · rw [session?_close hopen] at hsome
    cases hsome
  · exact hlog

/-- The key has the channel, or has lost it to a release or the close, which closed it. -/
def Held (key : Text) (c : Nat) (past : List Action) (s : Live) : Prop :=
  s.board.Sound ∧
    if .release key ∈ past ∨ .close ∈ past then .closed c ∈ s.log
    else ∃ x, s.session? key = some x ∧ x.channel = c

theorem Held.step {key : Text} {c : Nat} {past : List Action} {s : Live} (h : Held key c past s)
    (analyze : Text → Result) (a : Action) : Held key c (past ++ [a]) (s.step analyze a) := by
  obtain ⟨hsound, hheld⟩ := h
  have hchanges := changes_step analyze s a
  refine ⟨hsound.changes hchanges, ?_⟩
  by_cases hpast : .release key ∈ past ∨ .close ∈ past
  · rw [if_pos hpast] at hheld
    have hmore : .release key ∈ past ++ [a] ∨ .close ∈ past ++ [a] :=
      hpast.imp (List.mem_append_left _) (List.mem_append_left _)
    rw [if_pos hmore]
    exact Board.mem_log_changes hchanges hheld
  · rw [if_neg hpast] at hheld
    obtain ⟨x, hx, rfl⟩ := hheld
    have hopen : s.isClosed = false := by
      cases hclosed : s.isClosed with
      | false => rfl
      | true =>
        have hmem := mem_directory_of_session? hx
        rw [hsound.quiet hclosed] at hmem
        cases hmem
    by_cases hrelease : a = .release key
    · subst hrelease
      rw [if_pos (.inl (by simp))]
      exact closed_mem_release hx
    · by_cases hclose : a = .close
      · subst hclose
        rw [if_pos (.inr (by simp))]
        exact closed_mem_close hopen hx
      · rw [if_neg]
        · obtain ⟨p, hp⟩ := session?_step analyze hrelease hclose hx
          exact ⟨_, hp, rfl⟩
        · simpa [Ne.symm hrelease, Ne.symm hclose] using hpast

/-- **Whole runs.** A key that has a channel has it until its release or the close. -/
theorem held_run (analyze : Text → Result) {s : Live} (hsound : s.board.Sound) {key : Text}
    {x : Session} (hx : s.session? key = some x) (later : List Action) :
    Held key x.channel later (s.run analyze later) := by
  have hstart : Held key x.channel [] s := ⟨hsound, by simpa using ⟨x, hx, rfl⟩⟩
  exact run_history (P := Held key x.channel) (fun _ _ a h => h.step analyze a) later hstart

theorem gate_of_board {s : Live} {c : Nat} {b : Bool} (h : s.board.gates[c]? = some b) :
    (s.channels[c]?).map Channel.isOpen = some b := by
  rw [← List.getElem?_map]
  exact h

/-- A channel that a key has is closed once, by the first release of the key or the close. -/
theorem Held.closed_iff {key : Text} {c : Nat} {later : List Action} {s : Live}
    (h : Held key c later s) :
    (s.channels[c]?).map Channel.isOpen = some (decide (.release key ∉ later ∧ .close ∉ later)) ∧
      s.log.count (.closed c) = if .release key ∈ later ∨ .close ∈ later then 1 else 0 := by
  obtain ⟨hsound, hheld⟩ := h
  by_cases hend : .release key ∈ later ∨ .close ∈ later
  · rw [if_pos hend] at hheld ⊢
    have hnot : ¬ (.release key ∉ later ∧ .close ∉ later) := fun hneither =>
      hend.elim hneither.1 hneither.2
    have hpos : 0 < s.log.count (.closed c) := List.count_pos_iff.2 hheld
    have hle : s.log.count (.closed c) ≤ 1 := hsound.count_closed_le c
    rw [decide_eq_false hnot]
    exact ⟨gate_of_board (hsound.shut hheld), by omega⟩
  · rw [if_neg hend] at hheld ⊢
    obtain ⟨x, hx, rfl⟩ := hheld
    have hopen := hsound.isOpen (mem_directory_of_session? hx)
    rw [decide_eq_true (not_or.1 hend)]
    refine ⟨gate_of_board hopen, List.count_eq_zero.2 fun hclosed => ?_⟩
    rw [hsound.shut hclosed] at hopen
    cases hopen

/-- After the close a channel is handed out closed, and nothing is ever done on it. -/
theorem refused_run (analyze : Text → Result) {s : Live} (hsound : s.board.Sound)
    (hclosed : s.isClosed = true) (key : Text) (later : List Action) :
    (((s.events key).2.run analyze later).channels[(s.events key).1]?).map Channel.isOpen =
        some false ∧
      ∀ e ∈ ((s.events key).2.run analyze later).log, e.channel ≠ (s.events key).1 := by
  have hevents : s.events key = s.newChannel false := by simp [events, hclosed]
  have hsound' : (s.newChannel false).2.board.Sound := by
    have hstep := hsound.changes (changes_step analyze s (.events key))
    rw [step, hevents] at hstep
    exact hstep
  have hgate : (s.newChannel false).2.board.gates[s.channels.length]? = some false := by
    simp [newChannel, board]
  obtain ⟨hgate', hlog⟩ :=
    hsound'.untouched (changes_run analyze (s.newChannel false).2 later) hgate
  rw [hevents]
  refine ⟨gate_of_board hgate', fun e he hchannel => ?_⟩
  have hlt := hsound.known e (hlog e he hchannel)
  have hlen : s.board.gates.length = s.channels.length := List.length_map _
  rw [hchannel, hlen] at hlt
  exact Nat.lt_irrefl _ hlt

/-- **Channels are closed once and then left alone.** Over any run:
* nothing is done on a channel after it was closed, neither a report nor a second close;
* every session has an open channel;
* after the close there are no sessions, submissions are refused and change nothing, and a channel
  that is handed out is closed already and never used;
* before the close, a channel that is handed out for a key is open until the first release of the
  key or the close, and is closed by that, once. -/
theorem channels_closed_once (analyze : Text → Result) (capacity : Int) (actions : List Action) :
    let s := (empty capacity).run analyze actions
    (∀ pre e post, s.log.reverse = pre ++ e :: post → .closed e.channel ∉ pre) ∧
    (∀ x ∈ s.sessions, (s.channels[x.channel]?).map Channel.isOpen = some true) ∧
    (.close ∈ actions → s.sessions = [] ∧ ∀ key,
      (∀ text, s.submit? key text = none ∧ s.step analyze (.submit key text) = s) ∧
      ∀ later, let t := (s.events key).2.run analyze later
        (t.channels[(s.events key).1]?).map Channel.isOpen = some false ∧
        ∀ e ∈ t.log, e.channel ≠ (s.events key).1) ∧
    (.close ∉ actions → ∀ key later, let t := (s.events key).2.run analyze later
      (t.channels[(s.events key).1]?).map Channel.isOpen =
          some (decide (.release key ∉ later ∧ .close ∉ later)) ∧
        t.log.count (.closed (s.events key).1) =
          if .release key ∈ later ∨ .close ∈ later then 1 else 0) := by
  intro s
  have hsound : s.board.Sound := sound_run analyze capacity actions
  have hclosed : s.isClosed = decide (.close ∈ actions) := isClosed_run analyze capacity actions
  refine ⟨?_, ?_, ?_, ?_⟩
  · intro pre e post hlog hmem
    have horderly := List.pairwise_reverse.2 hsound.orderly
    have hsplit : s.board.log.reverse = pre ++ e :: post := hlog
    rw [hsplit] at horderly
    exact (List.pairwise_append.1 horderly).2.2 _ hmem e List.mem_cons_self e.channel rfl rfl
  · intro x hx
    exact gate_of_board (hsound.isOpen (List.mem_map.2 ⟨x, hx, rfl⟩))
  · intro hclose
    have hc : s.isClosed = true := by
      rw [hclosed]
      exact decide_eq_true hclose
    have hempty : s.sessions = [] := List.map_eq_nil_iff.1 (hsound.quiet hc)
    refine ⟨hempty, fun key => ⟨fun text => ⟨by simp [submit?, hc], ?_⟩, fun later => ?_⟩⟩
    · rw [step_submit, if_pos hc]
    · exact refused_run analyze hsound hc key later
  · intro hclose key later
    have hc : s.isClosed = false := by
      rw [hclosed]
      exact decide_eq_false hclose
    have hevents : s.events key = s.enter key := by simp [events, hc]
    have hsound' : (s.enter key).2.board.Sound := hsound.changes (changes_enter hc key)
    obtain ⟨x, hx, hchannel⟩ := session?_enter_self s key
    rw [hevents, ← hchannel]
    exact (held_run analyze hsound' hx later).closed_iff

/-- A key is released and entered again while its text is analyzed: its first channel is closed
once, the job that comes back reports on the second one, and after the close that one is closed too
and submissions are refused. -/
theorem released_channel_closed_once :
    let analyze : Text → Result := fun _ => default
    let later : List Action := [.submit [97] [98], .fire 0, .start 0, .release [97], .events [97],
      .finish 0]
    let s := ((empty 16).events [97]).2.run analyze later
    let t := (empty 16).run analyze (.events [97] :: later ++ [.close])
    ((empty 16).events [97]).1 = 0 ∧ (s.channels[0]?).map Channel.isOpen = some false ∧
      s.log.count (.closed 0) = 1 ∧ (s.channels[1]?).map Channel.isOpen = some true ∧
      s.waiting 1 = [.status 0 .canceled] ∧
      t.sessions = [] ∧ t.submit? [97] [99] = none ∧ t.log.count (.closed 1) = 1 := by
  intro analyze later s t
  obtain ⟨-, -, -, hbefore⟩ := channels_closed_once analyze 16 []
  obtain ⟨hshut, hcount⟩ := hbefore (by simp) [97] later
  obtain ⟨-, -, hafter, -⟩ := channels_closed_once analyze 16 (.events [97] :: later ++ [.close])
  obtain ⟨hempty, hrefused⟩ := hafter (by simp)
  refine ⟨rfl, hshut, hcount, by decide, by decide, hempty, ((hrefused [97]).1 [99]).1, by decide⟩

end Live
end CodeAudit
