import CodeAudit.Proofs.Except
import CodeAudit.Proofs.History
import CodeAudit.Proofs.Report.Json
import CodeAudit.Proofs.Service.Identifiers
import CodeAudit.Proofs.Service.Routing
import CodeAudit.Service.Course
import Mathlib.Data.List.Forall2

/-!
# The history of a service is the record of its requests

Whatever happens to a service, its history can be told from two kinds of requests alone: those to
`/analyze` that were answered 200, and those that clear the history. `Describes` says which change
of the history such a request stands for; everything else stands for none.

**Invariant (`Orderly`).** The history keeps its limit, and its entries are named by identifiers
that were drawn already. New entries are named by identifiers drawn later. So no two entries share
one as long as the identifiers that are drawn differ (`DistinctBelow`).

**Results.**
* `rests_step`, `effect_step`: what one event does to the settings, the engine, the identifiers and
  the history.
* `accounts_run`: what a whole course does, as a replay of the changes that its requests describe.
* `get?_run`: how long an entry is found.
* `history_follows_requests`: the history, its summary and its entries after any course.
-/
namespace CodeAudit

/-- What is told of an entry when it is recorded: its result and its identifier. -/
def Entry.receiptJson (e : Entry) :
    Json := .record (e.result.members ++ [("historyId", .string e.id)])

/-- The body of the answer that tells of an entry when it is recorded. -/
def Entry.receipt (e : Entry) : Text := e.receiptJson.compact ++ [10]

theorem Entry.fits_receiptJson (e : Entry) {d : Nat} (h : 3 ≤ d) : e.receiptJson.Fits d := by
  refine Json.fits_record.2 ⟨by omega, List.forall_mem_append.2 ⟨fun _ hm => ?_, by simp⟩⟩
  exact Result.fits_of_mem_members hm (by omega)

namespace Service

/-! ## Answers as they are read -/

/-- That there is an answer with a status and with a body that is read as a value. -/
def Tells (answer : Option Response) (status : Nat) (j : Json) : Prop :=
  ∃ a, answer = some a ∧ a.status = status ∧ Json.parse? a.body = some j.sanitized

theorem parse?_line {j : Json} (h : j.Fits Json.maxDepth) :
    Json.parse? (j.compact ++ [10]) = some j.sanitized :=
  Json.parse?_compact h (List.forall_mem_singleton.2 rfl)

theorem tells_of_content {answer : Option Response} {status : Nat} {j : Json}
    (hfits : j.Fits Json.maxDepth)
    (h : answer.map Response.content = some (status, j.compact ++ [10])) :
      Tells answer status j := by
  obtain ⟨a, ha, hcontent⟩ := Option.map_eq_some_iff.1 h
  obtain ⟨hstatus, hbody⟩ := Prod.mk.inj hcontent
  exact ⟨a, ha, hstatus, hbody ▸ parse?_line hfits⟩

/-- A receipt says under which identifier an analysis is remembered. -/
theorem historyId_of_receipt {e : Entry} (hid : ∀ b ∈ e.id, b < 0x80) :
    e.receiptJson.sanitized.member? "historyId" = some (.string e.id) := by
  have hmember : e.receiptJson.member? "historyId" = some (.string e.id) := by
    simp [Entry.receiptJson, Json.record, Json.member?]
  rw [Entry.receiptJson, Json.member?_sanitized_record, ← Entry.receiptJson, hmember,
    Option.map_some, Json.sanitized, Text.sanitize_of_ascii hid]

/-! ## Requests that change the history -/

/-- Whether an event is a POST to `/analyze` that was answered 200. -/
def isAnalysis : Event × Option Response → Bool
  | (.request _ r, some a) => r.Asks "POST" "/analyze" && a.status == 200
  | _ => false

/-- Whether an event is a DELETE at `/history`. -/
def isClearing : Event × Option Response → Bool
  | (.request _ r, _) => r.Asks "DELETE" "/history"
  | _ => false

/-- Whether an event changes the history. -/
def changesHistory (p : Event × Option Response) : Bool := isAnalysis p || isClearing p

/-- That what happened leaves room for an entry: nothing was cleared, and fewer analyses were
answered 200 than are remembered. -/
def LeavesRoom (limit : Nat) (ps : List (Event × Option Response)) : Prop :=
  (∀ p ∈ ps, isClearing p = false) ∧ ps.countP isAnalysis < limit

instance (limit : Nat) (ps : List (Event × Option Response)) : Decidable (LeavesRoom limit ps) :=
  inferInstanceAs (Decidable (_ ∧ _))

/-- The change that an answered request stands for. An analysis is recorded with the code that was
submitted and the result that is read from the answer, which is the one that the engine has for the
code. -/
inductive Describes (s : Service) : Event × Option Response → History.Change → Prop
  | analysis {now : Instant} {r : Request} {a : Response} {sub : Submission} {e : Entry}
      (hanalysis : isAnalysis (.request now r, some a) = true)
      (hsub : s.decode Submission.ofJson? r.body = .ok sub) (hcheck : s.checkCode sub.code = .ok ())
      (hresult : s.resultFor sub.code sub.language = .ok e.result) (hcode : e.code = sub.code)
      (hwhen : e.createdAt = now) (hbody : Json.parse? a.body = some e.receiptJson.sanitized) :
      Describes s (.request now r, some a) (.record e)
  | clearing {p : Event × Option Response} (hclearing : isClearing p = true) : Describes s p .clear

theorem not_isClearing_of_isAnalysis {p : Event × Option Response} (h : isAnalysis p = true) :
    isClearing p = false := by
  unfold isAnalysis at h
  split at h
  · simp only [Bool.and_eq_true, decide_eq_true_eq] at h
    exact decide_eq_false (h.1.not_asks (by decide))
  · cases h

theorem Describes.changesHistory {s : Service} {p : Event × Option Response} {c : History.Change}
    (h : s.Describes p c) : changesHistory p = true := by
  cases h with
  | analysis hanalysis => simp [Service.changesHistory, hanalysis]
  | clearing hclearing => simp [Service.changesHistory, hclearing]

theorem Describes.isClearing_iff {s : Service} {p : Event × Option Response} {c : History.Change}
    (h : s.Describes p c) : isClearing p = true ↔ c = .clear := by
  cases h with
  | analysis hanalysis => simp [not_isClearing_of_isAnalysis hanalysis]
  | clearing hclearing => simp [hclearing]

theorem Describes.isAnalysis_iff {s : Service} {p : Event × Option Response} {c : History.Change}
    (h : s.Describes p c) : isAnalysis p = true ↔ ∃ e, c = .record e := by
  cases h with
  | analysis hanalysis => simp [hanalysis]
  | clearing hclearing =>
    have hnot : isAnalysis p ≠ true := fun hanalysis => by
      rw [not_isClearing_of_isAnalysis hanalysis] at hclearing
      cases hclearing
    simp [hnot]

theorem Describes.body {s : Service} {now : Instant} {r : Request} {a : Response} {e : Entry}
    (h : s.Describes (.request now r, some a) (.record e)) :
    Json.parse? a.body = some e.receiptJson.sanitized := by
  cases h with
  | analysis _ _ _ _ _ _ hbody => exact hbody

/-- The submission behind a recorded analysis. -/
theorem Describes.submission {s : Service} {now : Instant} {r : Request} {a : Response} {e : Entry}
    (h : s.Describes (.request now r, some a) (.record e)) :
    ∃ sub, s.decode Submission.ofJson? r.body = .ok sub ∧ s.checkCode sub.code = .ok () ∧
      s.resultFor sub.code sub.language = .ok e.result ∧ e.code = sub.code := by
  cases h with
  | analysis _ hsub hcheck hresult hcode => exact ⟨_, hsub, hcheck, hresult, hcode⟩

/-! ## What an event leaves alone -/

/-- That a service has come from another one: it has the same settings, engine and identifiers, and
none of those was given back. -/
structure Follows (t s : Service) : Prop where
  settings : t.settings = s.settings
  engine : t.engine = s.engine
  ids : t.ids = s.ids
  drawn : s.drawn ≤ t.drawn

/-- That a service has come from another one without a change of the history. -/
structure Rests (t s : Service) : Prop extends t.Follows s where
  history : t.history = s.history

theorem Follows.trans {s t u : Service} (h : t.Follows s) (h' : u.Follows t) : u.Follows s :=
  ⟨h'.settings.trans h.settings, h'.engine.trans h.engine, h'.ids.trans h.ids,
    Nat.le_trans h.drawn h'.drawn⟩

theorem Rests.refl (s : Service) : s.Rests s := ⟨⟨rfl, rfl, rfl, Nat.le_refl _⟩, rfl⟩

theorem rests_live (s : Service) (live : Live) : ({ s with live := live } : Service).Rests s :=
  ⟨⟨rfl, rfl, rfl, Nat.le_refl _⟩, rfl⟩

theorem Rests.trans {s t u : Service} (h : t.Rests s) (h' : u.Rests t) : u.Rests s :=
  ⟨h.toFollows.trans h'.toFollows, h'.history.trans h.history⟩

/-- What a request describes depends on the settings and the engine only. -/
theorem Describes.of_follows {s t : Service} (h : t.Follows s) {p : Event × Option Response}
    {c : History.Change} (hd : t.Describes p c) : s.Describes p c := by
  cases hd with
  | analysis hanalysis hsub hcheck hresult hcode hwhen hbody =>
    simp only [decode, bodyLimit, checkCode, resultFor, h.settings, h.engine] at hsub hcheck hresult
    exact .analysis hanalysis hsub hcheck hresult hcode hwhen hbody
  | clearing hclearing => exact .clearing hclearing

theorem rests_accept (s : Service) (c : Connection) (message : Text) :
    (s.accept c message).2.2.Rests s := by
  unfold accept
  split
  · exact rests_live s _
  · split
    · exact .refl s
    · exact .refl s
    · unfold submitLive?
      cases s.live.submit? c.key _ with
      | none => exact rests_live s _
      | some submitted => exact ⟨⟨rfl, rfl, rfl, Nat.le_succ _⟩, rfl⟩

theorem rests_hear (s : Service) (now : Instant) (c : Connection) (message : Text) :
    (s.hear now c message).2.Rests s := by
  have haccept := rests_accept s c message
  unfold hear
  split
  · rename_i heq
    rwa [heq] at haccept
  · rename_i heq
    rw [heq] at haccept
    exact haccept.trans ⟨⟨rfl, rfl, rfl, Nat.le_refl _⟩, rfl⟩

theorem rests_connect (s : Service) (origin : Text) : (s.step (.connect origin)).2.Rests s := by
  simp only [step, connect]
  split
  · rename_i heq
    split at heq
    · cases heq
    · split at heq
      · obtain ⟨-, rfl⟩ := Prod.mk.inj (Except.ok.inj heq)
        exact ⟨⟨rfl, rfl, rfl, Nat.le_succ _⟩, rfl⟩
      · cases heq
  · exact .refl s

/-- Live connections and live analyses leave the history alone, and so does every request that does
not ask for an analysis or for the history to be cleared. -/
theorem rests_step (s : Service) {e : Event}
    (h : ∀ now r, e = .request now r → ¬ r.Asks "POST" "/analyze" ∧ ¬ r.Asks "DELETE" "/history") :
    (s.step e).2.Rests s := by
  cases e with
  | request now r =>
    obtain ⟨hanalyze, hclear⟩ := h now r rfl
    simp only [step, handle_snd_eq_self s now hanalyze hclear]
    exact .refl s
  | connect origin => exact rests_connect s origin
  | message c text => exact rests_accept s c text
  | exchange now c text => exact rests_hear s now c text
  | work a => exact rests_live s _
  | disconnect c => exact rests_live s _

/-! ## What an event does to the history -/

/-- What an event and its answer do to the history: nothing, or the change that they describe. A
recorded entry is named by the identifier that is drawn for it. -/
inductive Effect (s : Service) (p : Event × Option Response) (t : Service) : Prop
  | none (hp : changesHistory p = false) (hhistory : t.history = s.history)
  | change (c : History.Change) (hdescribes : s.Describes p c)
    (hhistory : t.history = s.history.apply c)
      (hid : ∀ e, c = .record e → e.id = s.nextId ∧ t.drawn = s.drawn + 1)

theorem status_refusal_ne (e : Refusal) : e.response.status ≠ 200 := by
  cases e with
  | body f => cases f <;> simp [Refusal.response, error, json, Response.after]
  | _ => simp [Refusal.response, error, json]

/-- A body that is turned down leaves the service as it is, and is not answered 200; any other is
recorded with its result. -/
theorem analyze_cases (s : Service) (now : Instant) (body : Text) :
    (∃ refusal : Refusal, s.analyze now body = (refusal.response, s)) ∨
      ∃ sub e, s.decode Submission.ofJson? body = .ok sub ∧ s.checkCode sub.code = .ok () ∧
        s.resultFor sub.code sub.language = .ok e.result ∧ e.code = sub.code ∧ e.createdAt = now ∧
        e.id = s.nextId ∧ (s.analyze now body).1.content = (200, e.receipt) ∧
        (s.analyze now body).2 =
          { s with history := s.history.append e, drawn := s.drawn + 1 } := by
  cases hsub : s.decode Submission.ofJson? body with
  | error refusal => exact .inl ⟨refusal, by simp [analyze, submitted, hsub, bind, Except.bind]⟩
  | ok sub =>
    cases hcheck : s.checkCode sub.code with
    | error refusal =>
      exact .inl ⟨refusal, by simp [analyze, submitted, hsub, hcheck, bind, Except.bind]⟩
    | ok _ =>
      cases hresult : s.resultFor sub.code sub.language with
      | error refusal =>
        exact .inl ⟨refusal, by simp [analyze, submitted, hsub, hcheck, hresult, bind, Except.bind]⟩
      | ok result =>
        have hsubmitted : s.submitted body = .ok (sub, result) := by
          simp [submitted, hsub, hcheck, hresult, bind, Except.bind, pure, Except.pure]
        refine .inr ⟨sub, .stamp s.nextId now sub.code result, rfl, hcheck, hresult,
          rfl, rfl, rfl, ?_, ?_⟩
        · simp only [analyze, hsubmitted]
          rfl
        · simp only [analyze, hsubmitted]
          rfl

theorem effect_analyze (s : Service) (now : Instant) {r : Request} (h : r.Asks "POST" "/analyze") :
    (s.handle now r).2.Follows s ∧
      s.Effect (.request now r, (s.handle now r).1) (s.handle now r).2 := by
  obtain ⟨hcontent, hnext⟩ := handle_analyze s now h
  obtain ⟨a, ha, hsame⟩ := Option.map_eq_some_iff.1 hcontent
  rw [ha, hnext]
  obtain ⟨refusal, hrefused⟩ | ⟨sub, e, hsub, hcheck, hresult, hcode, hwhen, hid, hanswer,
    hservice⟩ :=
    analyze_cases s now r.body
  · have hstatus : a.status ≠ 200 := by
      rw [hrefused] at hsame
      rw [show a.status = refusal.response.status from congrArg Prod.fst hsame]
      exact status_refusal_ne refusal
    have hclear : ¬ r.Asks "DELETE" "/history" := h.not_asks (by decide)
    rw [hrefused]
    exact ⟨(Rests.refl s).toFollows,
      .none (by simp [changesHistory, isAnalysis, isClearing, hstatus, hclear]) rfl⟩
  · obtain ⟨hstatus, hbody⟩ := Prod.mk.inj (hsame.trans hanswer)
    have hanalysis : isAnalysis (.request now r, some a) = true := by simp [isAnalysis, h, hstatus]
    have hread : Json.parse? a.body = some e.receiptJson.sanitized := by
      rw [hbody, Entry.receipt, parse?_line (e.fits_receiptJson (by decide))]
    rw [hservice]
    refine ⟨⟨rfl, rfl, rfl, Nat.le_succ _⟩, .change (.record e)
      (.analysis hanalysis hsub hcheck hresult hcode hwhen hread) rfl ?_⟩
    rintro _ ⟨⟩
    exact ⟨hid, rfl⟩

theorem effect_clear (s : Service) (now : Instant) {r : Request} (h : r.Asks "DELETE" "/history") :
    (s.handle now r).2.Follows s ∧
      s.Effect (.request now r, (s.handle now r).1) (s.handle now r).2 := by
  rw [handle_clear s now h]
  exact ⟨⟨rfl, rfl, rfl, Nat.le_refl _⟩, .change .clear (.clearing (decide_eq_true h)) rfl nofun⟩

/-- What one event does. -/
theorem effect_step (s : Service) (e : Event) :
    (s.step e).2.Follows s ∧ s.Effect (e, (s.step e).1) (s.step e).2 := by
  by_cases hanalyze : ∃ now r, e = .request now r ∧ r.Asks "POST" "/analyze"
  · obtain ⟨now, r, rfl, hasks⟩ := hanalyze
    exact effect_analyze s now hasks
  · by_cases hclear : ∃ now r, e = .request now r ∧ r.Asks "DELETE" "/history"
    · obtain ⟨now, r, rfl, hasks⟩ := hclear
      exact effect_clear s now hasks
    · have hother : ∀ now r, e = .request now r →
          ¬ r.Asks "POST" "/analyze" ∧ ¬ r.Asks "DELETE" "/history" := fun now r heq =>
        ⟨fun h => hanalyze ⟨now, r, heq, h⟩, fun h => hclear ⟨now, r, heq, h⟩⟩
      have hrests := rests_step s hother
      refine ⟨hrests.toFollows, .none ?_ hrests.history⟩
      cases e with
      | request now r =>
        obtain ⟨hpost, hdelete⟩ := hother now r rfl
        cases (s.step (.request now r)).1 <;>
          simp [changesHistory, isAnalysis, isClearing, hpost, hdelete]
      | _ => rfl

/-! ## Whole courses -/

/-- The history keeps its limit, and its entries are named by identifiers that were drawn. -/
structure Orderly (s : Service) : Prop where
  pos : 0 < s.history.limit
  length : s.history.entries.length ≤ s.history.limit
  named : ∀ e ∈ s.history.entries, ∃ k < s.drawn, e.id = s.ids k

/-- That some changes account for the history after some events. -/
structure Accounts (s : Service) (events : List Event) (changes : List History.Change) : Prop where
  describes : List.Forall₂ s.Describes ((s.transcript events).filter changesHistory) changes
  entries : (s.run events).history.entries =
    changes.foldl (History.replay s.history.limit) s.history.entries
  fresh : ∀ e ∈ History.recorded changes, ∃ k, s.drawn ≤ k ∧ k < (s.run events).drawn ∧
    e.id = s.ids k

/-- Settings without a fault leave room for an analysis. -/
theorem one_le_maxEntries {settings : Settings} (h : settings.invalid? = none) :
    1 ≤ settings.maxEntries := by
  unfold Settings.invalid? at h
  repeat (split at h; · cases h)
  omega

/-- A new service is orderly and remembers nothing. -/
theorem orderly_build {settings : Settings} {ids : Nat → Text} {s : Service}
    (h : build settings ids = .ok s) :
    s.Orderly ∧ s.ids = ids ∧ s.history.limit = settings.maxEntries.toNat ∧
      s.history.entries = [] := by
  unfold build at h
  split at h
  · cases h
  · rename_i hvalid
    split at h
    · cases h
    · obtain rfl := Except.ok.inj h
      have hmax := one_le_maxEntries hvalid
      have hempty : History.empty settings.maxEntries = ⟨settings.maxEntries.toNat, []⟩ := by
        rw [History.empty, History.room, if_neg (by omega)]
      rw [hempty]
      exact ⟨⟨by simp only; omega, Nat.zero_le _, nofun⟩, rfl, rfl, rfl⟩

theorem follows_run (s : Service) (events : List Event) : (s.run events).Follows s := by
  induction events generalizing s with
  | nil => exact (Rests.refl s).toFollows
  | cons e rest ih => exact (effect_step s e).1.trans (ih _)

theorem Effect.limit {s t : Service} {p : Event × Option Response} (h : s.Effect p t) :
    t.history.limit = s.history.limit := by
  cases h with
  | none _ hhistory => rw [hhistory]
  | change c _ hhistory => rw [hhistory, History.limit_apply]

/-- What happens keeps a service orderly. -/
theorem orderly_step {s : Service} (h : s.Orderly) (e : Event) : (s.step e).2.Orderly := by
  obtain ⟨hfollows, heffect⟩ := effect_step s e
  have hlimit := heffect.limit
  cases heffect with
  | none _ hhistory =>
    refine ⟨hlimit ▸ h.pos, hhistory ▸ h.length, fun a ha => ?_⟩
    rw [hhistory] at ha
    obtain ⟨k, hk, hid⟩ := h.named a ha
    exact ⟨k, Nat.lt_of_lt_of_le hk hfollows.drawn, hfollows.ids ▸ hid⟩
  | change c _ hhistory hnew =>
    have hentries : (s.step e).2.history.entries =
        History.replay s.history.limit s.history.entries c := by
      rw [hhistory, History.entries_apply h.pos h.length]
    refine ⟨hlimit ▸ h.pos, ?_, fun a ha => ?_⟩
    · rw [hlimit, hentries]
      exact History.length_replay_le h.pos h.length c
    · rw [hentries] at ha
      obtain hold | hrecorded := List.mem_append.1 ((History.replay_suffix _ c).subset ha)
      · obtain ⟨k, hk, hid⟩ := h.named a hold
        exact ⟨k, Nat.lt_of_lt_of_le hk hfollows.drawn, hfollows.ids ▸ hid⟩
      · cases c with
        | clear => cases hrecorded
        | record b =>
          obtain rfl := List.mem_singleton.1 hrecorded
          obtain ⟨hid, hdrawn⟩ := hnew a rfl
          exact ⟨s.drawn, hdrawn ▸ Nat.lt_succ_self _, hfollows.ids ▸ hid⟩

theorem orderly_run {s : Service} (h : s.Orderly) (events : List Event) :
    (s.run events).Orderly := by
  induction events generalizing s with
  | nil => exact h
  | cons e rest ih => exact ih (orderly_step h e)

theorem limit_run (s : Service) (events : List Event) :
    (s.run events).history.limit = s.history.limit := by
  induction events generalizing s with
  | nil => rfl
  | cons e rest ih => exact (ih _).trans (effect_step s e).2.limit

/-- After any course the history is what the requests describe, replayed. -/
theorem accounts_run {s : Service} (h : s.Orderly) (events : List Event) :
    ∃ changes, s.Accounts events changes := by
  induction events generalizing s with
  | nil => exact ⟨[], .nil, rfl, nofun⟩
  | cons e rest ih =>
    obtain ⟨changes, hchanges⟩ := ih (orderly_step h e)
    obtain ⟨hfollows, heffect⟩ := effect_step s e
    have hlimit := heffect.limit
    -- the rest is described with the settings and the engine of the next service, which are the
    -- same ones
    have hrest : List.Forall₂ s.Describes (((s.step e).2.transcript rest).filter changesHistory)
        changes :=
      hchanges.describes.imp fun _ _ hd => hd.of_follows hfollows
    have hdrawn := (follows_run (s.step e).2 rest).drawn
    have hfresh : ∀ a ∈ History.recorded changes,
        ∃ k, s.drawn ≤ k ∧ k < (s.run (e :: rest)).drawn ∧ a.id = s.ids k := by
      intro a ha
      obtain ⟨k, hle, hlt, hid⟩ := hchanges.fresh a ha
      exact ⟨k, Nat.le_trans hfollows.drawn hle, hlt, hfollows.ids ▸ hid⟩
    cases heffect with
    | none hp hhistory =>
      refine ⟨changes, ?_, ?_, hfresh⟩
      · rwa [transcript, List.filter_cons_of_neg (by simp [hp])]
      · rw [← hhistory]
        exact hchanges.entries
    | change c hdescribes hhistory hnew =>
      refine ⟨c :: changes, ?_, ?_, ?_⟩
      · rw [transcript, List.filter_cons_of_pos hdescribes.changesHistory]
        exact .cons hdescribes hrest
      · rw [List.foldl_cons, ← History.entries_apply h.pos h.length, ← hhistory, ← hlimit]
        exact hchanges.entries
      · intro a ha
        cases c with
        | clear => exact hfresh a ha
        | record b =>
          obtain rfl | hlater := List.mem_cons.1 ha
          · obtain ⟨hid, hnext⟩ := hnew a rfl
            exact ⟨s.drawn, Nat.le_refl _, by rw [hnext] at hdrawn; exact hdrawn, hid⟩
          · exact hfresh a hlater

/-! ## How long an entry is found -/

/-- The changes that requests stand for are as many as the requests of their kind. -/
theorem counts_of_describes {s : Service} {ps : List (Event × Option Response)}
    {changes : List History.Change} (h : List.Forall₂ s.Describes ps changes) :
    (.clear ∈ changes ↔ ∃ p ∈ ps, isClearing p = true) ∧
      (History.recorded changes).length = ps.countP isAnalysis := by
  induction h with
  | nil => simp
  | @cons p c ps changes hp _ ih =>
    have hclearing := hp.isClearing_iff
    have hanalysis := hp.isAnalysis_iff
    cases c with
    | clear => simp_all
    | record e => simp_all

theorem exists_isClearing_filter {ps : List (Event × Option Response)} :
    (∃ p ∈ ps.filter changesHistory, isClearing p = true) ↔ ∃ p ∈ ps, isClearing p = true := by
  simp only [List.mem_filter, changesHistory, Bool.or_eq_true]
  exact ⟨fun ⟨p, ⟨hp, _⟩, hc⟩ => ⟨p, hp, hc⟩, fun ⟨p, hp, hc⟩ => ⟨p, ⟨hp, .inr hc⟩, hc⟩⟩

theorem countP_isAnalysis_filter (ps : List (Event × Option Response)) :
    (ps.filter changesHistory).countP isAnalysis = ps.countP isAnalysis := by
  rw [List.countP_filter]
  refine List.countP_congr fun p _ => ?_
  simp +contextual [changesHistory]

/-- What happened leaves room for an entry if the changes that it describes do. -/
theorem leavesRoom_iff {s : Service} {limit : Nat} {ps : List (Event × Option Response)}
    {changes : List History.Change}
    (h : List.Forall₂ s.Describes (ps.filter changesHistory) changes) :
    LeavesRoom limit ps ↔ .clear ∉ changes ∧ (History.recorded changes).length < limit := by
  obtain ⟨hclears, hrecords⟩ := counts_of_describes h
  rw [hclears, exists_isClearing_filter, hrecords, countP_isAnalysis_filter, LeavesRoom]
  simp only [not_exists, not_and, Bool.not_eq_true]

/-- An analysis that was recorded is found under its identifier until the history is cleared or as
many others were recorded as there is room for, if no identifier was drawn twice until then. -/
theorem get?_run {s : Service} (h : s.Orderly) {now : Instant} {r : Request} {a : Response}
    (hanswer : (s.handle now r).1 = some a)
    (hanalysis : isAnalysis (.request now r, some a) = true) :
    ∃ e, s.Describes (.request now r, some a) (.record e) ∧ e.id = s.nextId ∧
      ∀ later, DistinctBelow s.ids ((s.handle now r).2.run later).drawn →
        ((s.handle now r).2.run later).history.get? e.id =
          if LeavesRoom s.history.limit ((s.handle now r).2.transcript later) then some e
            else none := by
  obtain ⟨hfollows, heffect⟩ := effect_step s (.request now r)
  have horderly : (s.handle now r).2.Orderly := orderly_step h (.request now r)
  have hlimit : (s.handle now r).2.history.limit = s.history.limit := heffect.limit
  have hsame : (s.handle now r).2.ids = s.ids := hfollows.ids
  change s.Effect (.request now r, (s.handle now r).1) (s.handle now r).2 at heffect
  rw [hanswer] at heffect
  cases heffect with
  | none hp => simp [changesHistory, hanalysis] at hp
  | change c hdescribes hhistory hnew =>
    obtain ⟨e, rfl⟩ := hdescribes.isAnalysis_iff.1 hanalysis
    obtain ⟨hid, hdrawn⟩ := hnew e rfl
    refine ⟨e, hdescribes, hid, fun later hdistinct => ?_⟩
    obtain ⟨changes, hchanges⟩ := accounts_run horderly later
    obtain ⟨older, hsuffix, hreplay⟩ :=
      History.exists_replay_record s.history.limit s.history.entries e
    have hentries : (s.handle now r).2.history.entries = older ++ [e] := by
      rw [hhistory, History.entries_apply h.pos h.length, hreplay]
    have hlength := horderly.length
    have hend := (follows_run (s.handle now r).2 later).drawn
    -- older entries were named before this one, and newer ones after it
    have hother : ∀ b : Entry, ∀ k < ((s.handle now r).2.run later).drawn, k ≠ s.drawn →
        b.id = s.ids k → b.id ≠ e.id := by
      intro b k hk hne hbid heq
      exact hne (hdistinct k hk s.drawn (by omega) (hbid.symm.trans (heq.trans hid)))
    have holder : ∀ b ∈ older, b.id ≠ e.id := by
      intro b hb
      obtain ⟨k, hk, hbid⟩ := h.named b (hsuffix.subset hb)
      exact hother b k (by omega) (by omega) hbid
    have hnewer : ∀ b ∈ History.recorded changes, b.id ≠ e.id := by
      intro b hb
      obtain ⟨k, hle, hlt, hbid⟩ := hchanges.fresh b hb
      exact hother b k hlt (by omega) (hsame ▸ hbid)
    rw [hentries, hlimit] at hlength
    rw [History.get?, hchanges.entries, hentries, hlimit,
      History.find?_foldl_replay h.pos hlength holder hnewer]
    exact if_congr (leavesRoom_iff hchanges.describes).symm rfl rfl

theorem run_append (s : Service) (a b : List Event) : s.run (a ++ b) = (s.run a).run b :=
  List.foldl_append

theorem content_getEntry (s : Service) (id : Text) :
    (s.getEntry id).content = match s.history.get? id with
      | some e => (200, e.toJson.compact ++ [10])
      | none => (404, (Json.record [("error", .string History.notFound)]).compact ++ [10]) := by
  unfold getEntry
  cases s.history.get? id <;> rfl

/-- What is told of an identifier: the entry that has it, or that there is none. -/
theorem tells_entry (s : Service) (now : Instant) {q : Request} {id : Text}
    (hq : q.Asks "GET" (utf8 "/history/" ++ id)) (hne : id ≠ []) (hslash : 47 ∉ id) :
    match s.history.get? id with
    | some e => Tells (s.handle now q).1 200 e.toJson
    | none => Tells (s.handle now q).1 404 (.record [("error", .string History.notFound)]) := by
  have hcontent := handle_entry s now hq hne hslash
  rw [content_getEntry] at hcontent
  cases hget : s.history.get? id with
  | some e =>
    rw [hget] at hcontent
    exact tells_of_content (e.fits_toJson (by decide)) hcontent
  | none =>
    rw [hget] at hcontent
    exact tells_of_content (Json.fits_record.2 ⟨by decide, by simp⟩) hcontent

/-- After any course the history is what the analyses that were answered 200 and the clearings
describe, replayed from the first on; the answer to a question for the summary is read as that of
the results in it; and an analysis that is answered 200 now is found under the identifier that is
read from its answer until the history is cleared or as many others were answered 200 as there is
room for. -/
theorem history_follows_requests {settings : Settings} {ids : Nat → Text} (hids : Identifies ids)
    {s : Service} (hbuild : build settings ids = .ok s) (events : List Event) :
    (∃ changes, List.Forall₂ s.Describes ((s.transcript events).filter changesHistory) changes ∧
      (s.run events).history.entries = changes.foldl (History.replay settings.maxEntries.toNat) [] ∧
      ∀ now r, r.Asks "GET" "/summary" →
        Tells ((s.run events).handle now r).1 200 (Summary.of ((changes.foldl
          (History.replay settings.maxEntries.toNat) []).reverse.map Entry.result)).toJson) ∧
    ∀ (now : Instant) (r : Request) (a : Response), ((s.run events).handle now r).1 = some a →
      isAnalysis (.request now r, some a) = true →
      ∃ e, s.Describes (.request now r, some a) (.record e) ∧
        (Json.parse? a.body).bind (·.member? "historyId") = some (.string e.id) ∧
        ∀ later, DistinctBelow ids (s.run (events ++ .request now r :: later)).drawn →
          ∀ now' q, q.Asks "GET" (utf8 "/history/" ++ e.id) →
          let room := LeavesRoom settings.maxEntries.toNat
            ((s.run (events ++ [.request now r])).transcript later)
          (room → Tells ((s.run (events ++ .request now r :: later)).handle now' q).1 200
            e.toJson) ∧
            (¬ room → Tells ((s.run (events ++ .request now r :: later)).handle now' q).1 404
              (.record [("error", .string History.notFound)])) := by
  obtain ⟨horderly, hsame, hlimit, hempty⟩ := orderly_build hbuild
  refine ⟨?_, fun now r a hanswer hanalysis => ?_⟩
  · obtain ⟨changes, hchanges⟩ := accounts_run horderly events
    have hentries := hchanges.entries
    rw [hlimit, hempty] at hentries
    refine ⟨changes, hchanges.describes, hentries, fun now r h => ?_⟩
    refine tells_of_content (Summary.fits_toJson _ (by decide)) ?_
    rw [handle_summary _ now h, ← hentries]
    rfl
  · obtain ⟨e, hdescribes, hid, hfound⟩ := get?_run (orderly_run horderly events) hanswer hanalysis
    have hnamed : e.id = ids (s.run events).drawn := by
      rw [hid, nextId, (follows_run s events).ids, hsame]
    refine ⟨e, hdescribes.of_follows (follows_run s events), ?_,
      fun later hdistinct now' q hq => ?_⟩
    · rw [hdescribes.body, Option.bind_some, historyId_of_receipt (hnamed ▸ hids.ascii _)]
    · have hnow : s.run (events ++ [.request now r]) = ((s.run events).handle now r).2 :=
        run_append s events _
      have hlater : s.run (events ++ .request now r :: later) =
          ((s.run events).handle now r).2.run later := run_append s events _
      have htells := tells_entry (s.run (events ++ .request now r :: later)) now' hq
        (hnamed ▸ hids.ne_nil _) (hnamed ▸ hids.slash_not_mem _)
      rw [hlater] at hdistinct htells ⊢
      rw [hfound later (by rwa [(follows_run s events).ids, hsame]), limit_run, hlimit] at htells
      rw [hnow]
      refine ⟨fun hroom => ?_, fun hroom => ?_⟩
      · rwa [if_pos hroom] at htells
      · rwa [if_neg hroom] at htells

/-- With room for one analysis, an analysis is found until the next one. -/
theorem analysis_found_until_next :
    let r : Request := ⟨"POST", "/analyze", [], "\x7b\"code\":\"a\",\"language\":\"java\"\x7d"⟩
    ∃ s a, build { maxEntries := 1 } numberedIds = .ok s ∧ (s.handle default r).1 = some a ∧
      ∃ e, s.Describes (.request default r, some a) (.record e) ∧
        (Json.parse? a.body).bind (·.member? "historyId") = some (.string e.id) ∧
        ∀ now q, q.Asks "GET" (utf8 "/history/" ++ e.id) →
          Tells ((s.run [.request default r]).handle now q).1 200 e.toJson ∧
            Tells ((s.run [.request default r, .request default r]).handle now q).1 404
              (.record [("error", .string History.notFound)]) := by
  intro r
  obtain ⟨s, hbuild, hs⟩ := exists_ok_of_any (x := build { maxEntries := 1 } numberedIds)
    (p := fun s =>
      isAnalysis (.request default r, (s.handle default r).1) &&
        decide (¬ LeavesRoom 1 ((s.handle default r).2.transcript [.request default r])) &&
        decide ((s.run [.request default r]).drawn = 1) &&
        decide ((s.run [.request default r, .request default r]).drawn = 2)) (by decide +kernel)
  simp only [Bool.and_eq_true, decide_eq_true_eq] at hs
  obtain ⟨⟨⟨hanalysis, hfull⟩, hone⟩, htwo⟩ := hs
  cases hanswer : (s.handle default r).1 with
  | none =>
    rw [hanswer] at hanalysis
    cases hanalysis
  | some a =>
    rw [hanswer] at hanalysis
    obtain ⟨e, hdescribes, hid, hfound⟩ :=
      (history_follows_requests identifies_numberedIds hbuild []).2 default r a hanswer hanalysis
    refine ⟨s, a, hbuild, hanswer, e, hdescribes, hid, fun now q hq => ⟨?_, ?_⟩⟩
    · exact (hfound [] (hone ▸ distinctBelow_numberedIds (by decide)) now q hq).1
        ⟨nofun, Nat.one_pos⟩
    · exact (hfound [.request default r] (htwo ▸ distinctBelow_numberedIds (by decide)) now q hq).2
        hfull

end Service
end CodeAudit
