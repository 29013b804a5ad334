import CodeAudit.Proofs.CommandLine.Language
import CodeAudit.Proofs.Json.Reader
import CodeAudit.Proofs.Service.Record

/-!
# Submissions that are too large

Two limits stand between a submission and its answer. A body is read up to the longest code and a
fixed number of bytes beside it; the code in it is measured when it is read. Both follow from one
setting, and a submission that is too large for either is answered 413.

The first limit is a sum of words. Where it does not fit, it is negative and nothing of a body is
read, so that every body is too large.

**Places (`Intake`).** Code is taken at three places, which have their order in common: the body is
read, the code in it is checked, and then something is found and answered. `Weighs` says what the
limit on the code has to do with the second part, and it is closed under what comes behind
(`Weighs.bind`).

**Results.**
* `Body.read_of_le`: more of a body changes what is read only where it was too large.
* `Weighs.exceeds`, `Weighs.raise`: what 413 says of a submission, and what a higher limit leaves
  alone.
* `exists_intake`: every request that submits code reaches such a place.
* `refusals_exceed_iff_limit_fits`: 413 is answered only to what is too long, just when the sum
  fits.
-/
namespace CodeAudit

namespace Body

theorem lt_length_of_tooLarge {limit : Nat} {body : Text} (h : read limit body = .error .tooLarge) :
    limit < body.length := by
  by_contra hle
  simp only [read, gt_iff_lt, hle, decide_false, Bool.not_false, Bool.or_true, if_true, if_false]
    at h
  split at h <;> cases h

/-- Reading more of a body changes the outcome only where the body was too large. -/
theorem read_of_le {limit limit' : Nat} {body : Text} (hle : limit ≤ limit')
    (h : read limit body ≠ .error .tooLarge) : read limit' body = read limit body := by
  by_cases hcut : limit < body.length
  · obtain ⟨more, hmore⟩ := List.take_prefix_take_left (l := body) hle
    obtain ⟨-, hok, hmalformed⟩ := Json.extends_readFirst (body.take limit) more
    rw [hmore] at hok hmalformed
    unfold read at h ⊢
    simp only [gt_iff_lt, hcut, decide_true] at h ⊢
    match hread : Json.readFirst (body.take limit) with
    | .ok (j, rest) =>
      simp only [hread] at h ⊢
      have hdone : (j.isCompound || !rest.isEmpty || !true) = true := by
        by_contra hopen
        exact h (if_neg hopen)
      have hsettled : Json.Settled j rest := by simpa [Json.Settled] using hdone
      rw [hok hread hsettled, if_pos hdone]
      refine if_pos ?_
      obtain hcompound | hrest := hsettled
      · simp [hcompound]
      · simp [hrest]
    | .error .incomplete =>
      simp only [hread] at h
      exact absurd rfl h
    | .error .malformed => rw [hmalformed hread]
  · have hcut' : ¬ limit' < body.length := by omega
    simp only [read, List.take_of_length_le (Nat.not_lt.1 hcut),
      List.take_of_length_le (Nat.not_lt.1 hcut'), gt_iff_lt, hcut, hcut']

/-- A body that is not too large is read as a whole. -/
theorem read_eq_read_length {limit : Nat} {body : Text} (h : read limit body ≠ .error .tooLarge) :
    read body.length body = read limit body := by
  rcases Nat.le_total limit body.length with hle | hle
  · exact read_of_le hle h
  · exact (read_of_le hle fun hlarge => Nat.lt_irrefl _ (lt_length_of_tooLarge hlarge)).symm

theorem read_zero {body : Text} (h : body ≠ []) : read 0 body = .error .tooLarge := by
  have hpos : 0 < body.length := List.length_pos_iff.2 h
  have hread : Json.readFirst (body.take 0) = .error .incomplete := rfl
  simp only [read, hread, gt_iff_lt, hpos, if_true]

end Body

/-! ## Requests -/

/-- That a request submits code. -/
def Request.Submits (r : Request) : Prop :=
  r.Asks "POST" "/analyze" ∨ r.Asks "POST" "/analyze/sarif" ∨ r.Asks "POST" "/compare"

/-- The code in the body of a request, whatever its length. -/
def Request.code? (r : Request) : Option Text :=
  match Body.read r.body.length r.body with
  | .error _ => none
  | .ok j =>
    if r.path = utf8 "/compare" then (ComparisonRequest.ofJson? j).map (·.code)
    else (Submission.ofJson? j).map (·.code)

theorem Request.code?_of_submission {r : Request} (hpath : r.path ≠ utf8 "/compare") {j : Json}
    {sub : Submission} (hj : Body.read r.body.length r.body = .ok j)
    (hsub : Submission.ofJson? j = some sub) :
    r.code? = some sub.code := by
  simp only [code?, hj, if_neg hpath, hsub, Option.map_some]

theorem Request.code?_of_comparison {r : Request} (hpath : r.path = utf8 "/compare") {j : Json}
    {asked : ComparisonRequest} (hj : Body.read r.body.length r.body = .ok j)
    (hasked : ComparisonRequest.ofJson? j = some asked) : r.code? = some asked.code := by
  simp only [code?, hj, if_pos hpath, hasked, Option.map_some]

/-- That a request is too long for a limit: its code is longer, or its body leaves no room for such
code. -/
def Request.Exceeds (r : Request) (limit : Int) : Prop :=
  limit + Service.bodyOverhead < r.body.length ∨ ∃ code, r.code? = some code ∧ limit < code.length

namespace Service

/-- The service with another limit on the code. -/
def withLimit (s : Service) (limit : Int) : Service :=
  { s with settings := { s.settings with maxCodeBytes := limit } }

theorem status_eq_413_iff {e : Refusal} :
    e.response.status = 413 ↔ e = .body .tooLarge ∨ ∃ limit, e = .longCode limit := by
  cases e with
  | body f => cases f <;> simp [Refusal.response, error, json, Response.after]
  | _ => simp [Refusal.response, error, json]

/-! ## Code and its length -/

theorem lt_length_of_checkCode {s : Service} {code : Text} {e : Refusal}
    (h : s.checkCode code = .error e)
    (hstatus : e.response.status = 413) : s.settings.maxCodeBytes < code.length := by
  unfold checkCode at h
  split at h
  · cases h
    simp [status_eq_413_iff] at hstatus
  split at h
  · assumption
  · cases h

theorem checkCode_withLimit {s : Service} {code : Text} {limit : Int}
    (hle : s.settings.maxCodeBytes ≤ limit)
    (h : ∀ e, s.checkCode code = .error e → e.response.status ≠ 413) :
    (s.withLimit limit).checkCode code = s.checkCode code := by
  unfold checkCode at h ⊢
  by_cases hblank : Document.isBlank code = true
  · rw [if_pos hblank, if_pos hblank]
  rw [if_neg hblank] at h ⊢
  have hshort : ¬ (code.length : Int) > s.settings.maxCodeBytes :=
    fun hlong => h _ (if_pos hlong) rfl
  have hshort' : ¬ (code.length : Int) > (s.withLimit limit).settings.maxCodeBytes := by
    simp only [withLimit]
    omega
  rw [if_neg hblank, if_neg hshort, if_neg hshort']

theorem status_of_resultFor {s : Service} {code label : Text} {e : Refusal}
    (h : s.resultFor code label = .error e) : e.response.status ≠ 413 := by
  obtain rfl := resultFor_error h
  simp [status_eq_413_iff]

theorem status_of_contextOf {r : ComparisonRequest} {e : Refusal} (h : contextOf r = .error e) :
    e.response.status ≠ 413 := by
  unfold contextOf at h
  split at h
  · cases h
  split at h
  · cases h
    simp [status_eq_413_iff]
  · cases h

/-- What a service makes of a value that holds code, as far as limits go: it answers 413 only to
code that is too long, and a higher limit changes nothing else. -/
structure Weighs {α β : Type} (code : α → Text) (next : Service → α → Except Refusal β) : Prop where
  long : ∀ {s a e}, next s a = .error e → e.response.status = 413 →
    s.settings.maxCodeBytes < (code a).length
  raised : ∀ {s a limit}, s.settings.maxCodeBytes ≤ limit →
    (∀ e, next s a = .error e → e.response.status ≠ 413) → next (s.withLimit limit) a = next s a

section Weighs

variable {α β γ : Type} {code : α → Text} {next : Service → α → Except Refusal β}

/-- What comes behind may find other faults, as long as it does not look at the limit. -/
theorem Weighs.bind {after : Service → α → β → Except Refusal γ} (h : Weighs code next)
    (hstatus : ∀ {s a b e}, after s a b = .error e → e.response.status ≠ 413)
    (hsame : ∀ s a b limit, after (s.withLimit limit) a b = after s a b) :
    Weighs code fun s a => next s a >>= after s a where
  long {s a e} herror hlarge := by
    cases hnext : next s a with
    | error e' =>
      rw [hnext] at herror
      cases herror
      exact h.long hnext hlarge
    | ok b =>
      rw [hnext] at herror
      exact absurd hlarge (hstatus herror)
  raised {s a limit} hle hfine := by
    have hnext : ∀ e, next s a = .error e → e.response.status ≠ 413 := fun e he =>
      hfine e (by rw [he]; rfl)
    rw [h.raised hle hnext]
    exact congrArg _ (funext fun b => hsame s a b limit)

/-- Code is checked before its result is looked for. -/
theorem weighs_result (code label : α → Text) (f : α → Result → γ) : Weighs code fun s a => do
    s.checkCode (code a)
    return f a (← s.resultFor (code a) (label a)) := by
  have hcheck : Weighs code fun s a => s.checkCode (code a) :=
    ⟨lt_length_of_checkCode, checkCode_withLimit⟩
  refine hcheck.bind ?_ fun _ _ _ _ => rfl
  intro s a _ e herror
  cases hresult : s.resultFor (code a) (label a) with
  | error e' =>
    rw [hresult] at herror
    cases herror
    exact status_of_resultFor hresult
  | ok r =>
    rw [hresult] at herror
    cases herror

end Weighs

/-! ## Bodies and their length -/

/-- What a body describes is found in what is read of it. -/
theorem decode_cases {α : Type} (s : Service) (ofJson? : Json → Option α) (body : Text) :
    (s.decode ofJson? body = .error (.body .tooLarge) ∧
      Body.read s.bodyLimit body = .error .tooLarge) ∨
      Body.read s.bodyLimit body ≠ .error .tooLarge ∧
        (s.decode ofJson? body = .error (.body .invalid) ∨
          ∃ j a, Body.read s.bodyLimit body = .ok j ∧ ofJson? j = some a ∧
            s.decode ofJson? body = .ok a) := by
  unfold decode
  match hread : Body.read s.bodyLimit body with
  | .error .tooLarge => exact .inl ⟨rfl, rfl⟩
  | .error .invalid => exact .inr ⟨nofun, .inl rfl⟩
  | .ok j =>
    cases hvalue : ofJson? j with
    | none => exact .inr ⟨nofun, .inl (by simp only [hvalue])⟩
    | some a => exact .inr ⟨nofun, .inr ⟨j, a, rfl, hvalue, by simp only [hvalue]⟩⟩

section Weighs

variable {α β : Type} {code : α → Text} {next : Service → α → Except Refusal β}
  {ofJson? : Json → Option α} {s : Service} {body : Text}

/-- A submission is answered 413 only when its body does not fit or the code in it is too long. -/
theorem Weighs.exceeds (h : Weighs code next) {e : Refusal}
    (herror : s.decode ofJson? body >>= next s = .error e) (hstatus : e.response.status = 413) :
    s.bodyLimit < body.length ∨ ∃ j a, Body.read body.length body = .ok j ∧ ofJson? j = some a ∧
      s.settings.maxCodeBytes < (code a).length := by
  obtain ⟨-, hlarge⟩ | ⟨hread, hinvalid | ⟨j, a, hj, ha, hdecode⟩⟩ := decode_cases s ofJson? body
  · exact .inl (Body.lt_length_of_tooLarge hlarge)
  · rw [hinvalid] at herror
    cases herror
    simp [status_eq_413_iff] at hstatus
  · rw [hdecode] at herror
    exact .inr ⟨j, a, (Body.read_eq_read_length hread).trans hj, ha, h.long herror hstatus⟩

/-- A submission that is not answered 413 fares no better and no worse under a higher limit. -/
theorem Weighs.raise (h : Weighs code next) {limit : Int} (hle : s.settings.maxCodeBytes ≤ limit)
    (hlimit : s.bodyLimit ≤ (s.withLimit limit).bodyLimit)
    (hstatus : ∀ e, s.decode ofJson? body >>= next s = .error e → e.response.status ≠ 413) :
    (s.withLimit limit).decode ofJson? body >>= next (s.withLimit limit) =
      s.decode ofJson? body >>= next s := by
  obtain ⟨hlarge, -⟩ | ⟨hread, hrest⟩ := decode_cases s ofJson? body
  · exact absurd rfl (hstatus (.body .tooLarge) (by rw [hlarge]; rfl))
  have hsame : (s.withLimit limit).decode ofJson? body = s.decode ofJson? body := by
    simp only [decode, Body.read_of_le hlimit hread]
  rw [hsame]
  obtain hinvalid | ⟨j, a, -, -, hdecode⟩ := hrest
  · rw [hinvalid]
    rfl
  · rw [hdecode] at hstatus ⊢
    exact h.raised hle hstatus

theorem decode_bind_of_bodyLimit_zero (hlimit : s.bodyLimit = 0) (hne : body ≠ []) :
    s.decode ofJson? body >>= next s = .error (.body .tooLarge) := by
  simp only [decode, hlimit, Body.read_zero hne]
  rfl

end Weighs

/-! ## The places that take code -/

/-- A place that takes code: how a body is understood, what is found for it, and what is answered
then. -/
structure Intake where
  {Value : Type}
  {Found : Type}
  ofJson? : Json → Option Value
  code : Value → Text
  next : Service → Value → Except Refusal Found
  finish : Service → Instant → Found → Option Response × Service
  weighs : Weighs code next
  status_finish : ∀ {s now b a}, (finish s now b).1 = some a → a.status = 200
  finish_withLimit : ∀ s now b limit,
    finish (s.withLimit limit) now b = ((finish s now b).1, (finish s now b).2.withLimit limit)

namespace Intake

/-- The answer to a body, and the service after it. -/
def take (i : Intake) (s : Service) (now : Instant) (body : Text) : Option Response × Service :=
  match s.decode i.ofJson? body >>= i.next s with
  | .error e => (some e.response, s)
  | .ok b => i.finish s now b

variable {i : Intake} {s : Service} {now : Instant} {body : Text}

theorem exceeds_of_take {a : Response} (ha : (i.take s now body).1 = some a)
    (hstatus : a.status = 413) :
    s.bodyLimit < body.length ∨ ∃ j v, Body.read body.length body = .ok j ∧ i.ofJson? j = some v ∧
      s.settings.maxCodeBytes < (i.code v).length := by
  unfold take at ha
  split at ha
  · rename_i herror
    cases ha
    exact i.weighs.exceeds herror hstatus
  · rw [i.status_finish ha] at hstatus
    cases hstatus

theorem take_withLimit {limit : Int} (hle : s.settings.maxCodeBytes ≤ limit)
    (hlimit : s.bodyLimit ≤ (s.withLimit limit).bodyLimit)
    (hstatus : ∀ a, (i.take s now body).1 = some a → a.status ≠ 413) :
    i.take (s.withLimit limit) now body =
      ((i.take s now body).1, (i.take s now body).2.withLimit limit) := by
  unfold take at hstatus ⊢
  rw [i.weighs.raise hle hlimit fun e herror => hstatus e.response (by rw [herror])]
  split
  · rfl
  · exact i.finish_withLimit s now _ limit

theorem take_of_bodyLimit_zero (hlimit : s.bodyLimit = 0) (hne : body ≠ []) :
    i.take s now body = (some (Refusal.body .tooLarge).response, s) := by
  rw [take, decode_bind_of_bodyLimit_zero hlimit hne]

end Intake

/-- Code that is analyzed and remembered. -/
def Intake.analysis : Intake where
  ofJson? := Submission.ofJson?
  code := Submission.code
  next := _
  finish s now p :=
    let (entry, history) := s.history.add s.nextId now p.1.code p.2
    let answer := json 200 (.record (p.2.members ++ [("historyId", .string entry.id)]))
    (some (answer.after .info "analyzed code"), { s with history := history, drawn := s.drawn + 1 })
  weighs := weighs_result Submission.code Submission.language Prod.mk
  status_finish h := by cases h; rfl
  finish_withLimit _ _ _ _ := rfl

/-- Code that is analyzed for a SARIF log. -/
def Intake.sarif : Intake where
  ofJson? := Submission.ofJson?
  code := Submission.code
  next := _
  finish s _ p := (some ⟨200, [("Content-Type", "application/sarif+json")],
    Sarif.render p.2 p.1.uri s.engine.catalog, []⟩, s)
  weighs := weighs_result Submission.code Submission.language Prod.mk
  status_finish h := by cases h; rfl
  finish_withLimit _ _ _ _ := by simp only [withLimit]

theorem weighs_compared : Weighs ComparisonRequest.code compared := by
  have h := weighs_result ComparisonRequest.code ComparisonRequest.language fun asked r =>
    (asked.code, r)
  constructor
  · intro s asked e herror hstatus
    unfold compared at herror
    split at herror
    · exact h.long herror hstatus
    split at herror
    · cases herror
    · cases herror
      simp [status_eq_413_iff] at hstatus
  · intro s asked limit hle hstatus
    unfold compared at hstatus ⊢
    split
    · rename_i hcode
      simp only [hcode, if_true] at hstatus
      exact h.raised hle hstatus
    · rfl

theorem weighs_comparison : Weighs ComparisonRequest.code fun s asked => do
    let (code, r) ← s.compared asked
    return (code, r, ← contextOf asked) := by
  refine weighs_compared.bind ?_ fun _ _ _ _ => rfl
  intro s asked _ e herror
  cases hcontext : contextOf asked with
  | error e' =>
    simp only [hcontext] at herror
    cases herror
    exact status_of_contextOf hcontext
  | ok n =>
    simp only [hcontext] at herror
    cases herror

/-- Code that is compared with its secure form. -/
def Intake.comparison : Intake where
  ofJson? := ComparisonRequest.ofJson?
  code := ComparisonRequest.code
  next := _
  finish s _ p :=
    ((Comparison.of p.1 p.2.1.secureCode p.2.1.findings p.2.2).toOption.map fun c =>
      json 200 c.toJson, s)
  weighs := weighs_comparison
  status_finish h := by
    obtain ⟨c, -, rfl⟩ := Option.map_eq_some_iff.1 h
    rfl
  finish_withLimit _ _ _ _ := by dsimp only

section
variable {r : Request} (h : r.method = utf8 "POST") (s : Service) (now : Instant)
include h

theorem serve_analyze : s.serve now r .analyze = Intake.analysis.take s now r.body := by
  have hfound : s.decode Intake.analysis.ofJson? r.body >>= Intake.analysis.next s =
      s.submitted r.body := rfl
  rw [serve, h, Intake.take, hfound]
  change (some (s.analyze now r.body).1, (s.analyze now r.body).2) = _
  unfold analyze
  cases s.submitted r.body with
  | error e => rfl
  | ok p => rfl

theorem serve_sarif : s.serve now r .sarif = Intake.sarif.take s now r.body := by
  have hfound : s.decode Intake.sarif.ofJson? r.body >>= Intake.sarif.next s = s.submitted r.body :=
    rfl
  rw [serve, h, Intake.take, hfound]
  change (some (s.analyzeSarif r.body), s) = _
  unfold analyzeSarif
  cases s.submitted r.body with
  | error e => rfl
  | ok p => rfl

theorem serve_compare : s.serve now r .compare = Intake.comparison.take s now r.body := by
  have hfound : s.decode Intake.comparison.ofJson? r.body >>= Intake.comparison.next s =
      s.comparisonOf r.body := rfl
  rw [serve, h, Intake.take, hfound]
  change (s.compare r.body, s) = _
  unfold compare
  cases s.comparisonOf r.body with
  | error e => rfl
  | ok p => rfl

end

/-- That a request reaches a place that takes code, and that its code is the one found there. -/
structure Intake.At (i : Intake) (r : Request) (route : Route) : Prop where
  method : r.method = utf8 "POST"
  path : Route.ofPath? r.path = some route
  accepted : utf8 "POST" ∈ route.accepted
  serve : ∀ s now, serve s now r route = i.take s now r.body
  code : ∀ {j v}, Body.read r.body.length r.body = .ok j → i.ofJson? j = some v →
    r.code? = some (i.code v)

theorem exists_intake {r : Request} (h : r.Submits) : ∃ i route, Intake.At i r route := by
  obtain ⟨hmethod, hpath⟩ | ⟨hmethod, hpath⟩ | ⟨hmethod, hpath⟩ := h
  · have hne : r.path ≠ utf8 "/compare" := by rw [hpath]; decide
    exact ⟨.analysis, .analyze, hmethod, hpath ▸ Route.ofPath?_of_mem (by decide), by decide,
      serve_analyze hmethod, Request.code?_of_submission hne⟩
  · have hne : r.path ≠ utf8 "/compare" := by rw [hpath]; decide
    exact ⟨.sarif, .sarif, hmethod, hpath ▸ Route.ofPath?_of_mem (by decide), by decide,
      serve_sarif hmethod, Request.code?_of_submission hne⟩
  · exact ⟨.comparison, .compare, hmethod, hpath ▸ Route.ofPath?_of_mem (by decide), by decide,
      serve_compare hmethod, Request.code?_of_comparison hpath⟩

section
variable {i : Intake} {r : Request} {route : Route} {s : Service} {now : Instant}

/-- The answer has the status that is given where the code is taken. -/
theorem Intake.At.status_handle (h : i.At r route) :
    (s.handle now r).1.map Response.status = (i.take s now r.body).1.map Response.status := by
  have hserve : s.serve now r route = ((i.take s now r.body).1, (i.take s now r.body).2) :=
    h.serve s now
  have hcontent := (handle_eq_serve ⟨h.method, rfl⟩ h.path (by decide) h.accepted hserve).1
  simpa [Function.comp_def, Response.content] using congrArg (Option.map Prod.fst) hcontent

theorem Intake.At.handle_withLimit (h : i.At r route) {limit : Int}
    (htake : i.take (s.withLimit limit) now r.body =
      ((i.take s now r.body).1, (i.take s now r.body).2.withLimit limit)) :
    (s.withLimit limit).handle now r =
      ((s.handle now r).1, (s.handle now r).2.withLimit limit) := by
  have hroute (s : Service) : s.route now r = i.take s now r.body := by
    unfold Service.route
    have hknown : knownMethods.contains (utf8 "POST") = true := by decide
    simp only [h.method, hknown, Bool.not_true, Bool.false_eq_true, if_false, h.path,
      List.contains_iff_mem.2 h.accepted, if_true, h.serve]
  unfold handle
  rw [hroute, hroute, htake]
  rfl

end

/-! ## The limit on bodies -/

theorem bodyLimit_of_fits {s : Service} (hpos : 0 < s.settings.maxCodeBytes)
    (hfits : s.settings.maxCodeBytes + bodyOverhead ≤ maxWord) :
    (s.bodyLimit : Int) = s.settings.maxCodeBytes + bodyOverhead := by
  have hoverhead : bodyOverhead = 65536 := rfl
  have hword : fitsWord (s.settings.maxCodeBytes + bodyOverhead) = true :=
    fitsWord_iff.2 ⟨by rw [minWord_eq]; omega, hfits⟩
  rw [bodyLimit, wrap_of_fits hword]
  omega

theorem bodyLimit_of_overflow {s : Service} (hword : s.settings.maxCodeBytes ≤ maxWord)
    (hover : maxWord < s.settings.maxCodeBytes + bodyOverhead) : s.bodyLimit = 0 := by
  have hoverhead : bodyOverhead ≤ maxWord := by decide
  have hneg := wrap_lt_zero hover (by omega)
  rw [bodyLimit]
  omega

theorem maxCodeBytes_pos {settings : Settings} (h : settings.invalid? = none) :
    0 < settings.server.maxCodeBytes := by
  unfold Settings.invalid? at h
  repeat (split at h; · cases h)
  omega

section
variable {s : Service} {now : Instant} {r : Request}

theorem exceeds_of_status (hr : r.Submits) (hpos : 0 < s.settings.maxCodeBytes)
    (hfits : s.settings.maxCodeBytes + bodyOverhead ≤ maxWord)
    (h : (s.handle now r).1.map Response.status = some 413) :
      r.Exceeds s.settings.maxCodeBytes := by
  obtain ⟨i, route, hat⟩ := exists_intake hr
  rw [hat.status_handle] at h
  obtain ⟨a, ha, hstatus⟩ := Option.map_eq_some_iff.1 h
  obtain hbody | ⟨j, v, hj, hv, hlong⟩ := i.exceeds_of_take ha hstatus
  · have hlimit := bodyLimit_of_fits hpos hfits
    exact .inl (by omega)
  · exact .inr ⟨i.code v, hat.code hj hv, hlong⟩

theorem handle_of_raised (hr : r.Submits) (hpos : 0 < s.settings.maxCodeBytes) {limit : Int}
    (hle : s.settings.maxCodeBytes ≤ limit) (hfits : limit + bodyOverhead ≤ maxWord)
    (h : (s.handle now r).1.map Response.status ≠ some 413) :
    (s.withLimit limit).handle now r =
      ((s.handle now r).1, (s.handle now r).2.withLimit limit) := by
  obtain ⟨i, route, hat⟩ := exists_intake hr
  rw [hat.status_handle] at h
  have hlimit := bodyLimit_of_fits hpos (by omega)
  have hraised : ((s.withLimit limit).bodyLimit : Int) = limit + bodyOverhead :=
    bodyLimit_of_fits (s := s.withLimit limit) (Int.lt_of_lt_of_le hpos hle) hfits
  refine hat.handle_withLimit (i.take_withLimit hle (by omega) fun a ha hstatus => h ?_)
  rw [ha, Option.map_some, hstatus]

theorem status_of_overflow (hr : r.Submits) (hword : s.settings.maxCodeBytes ≤ maxWord)
    (hover : maxWord < s.settings.maxCodeBytes + bodyOverhead) (hne : r.body ≠ []) :
    (s.handle now r).1.map Response.status = some 413 := by
  obtain ⟨i, route, hat⟩ := exists_intake hr
  rw [hat.status_handle, i.take_of_bodyLimit_zero (bodyLimit_of_overflow hword hover) hne]
  rfl

end

/-- Submissions are answered 413 only when they are too long, just when the sum of the limit and the
overhead fits in 64 bits. Raising the limit leaves every other answer as it is as long as that sum
fits; where it does not, everything is answered 413. -/
theorem refusals_exceed_iff_limit_fits {settings : Settings} (hvalid : settings.invalid? = none)
    (hword : settings.server.maxCodeBytes ≤ maxWord) {s : Service}
    (hs : s.settings = settings.server) :
    ((∀ (now : Instant) (r : Request), r.Submits →
      (s.handle now r).1.map Response.status = some 413 →
        r.Exceeds settings.server.maxCodeBytes) ↔
      settings.server.maxCodeBytes + bodyOverhead ≤ maxWord) ∧
    ∀ limit, settings.server.maxCodeBytes ≤ limit → limit ≤ maxWord →
      ∀ (now : Instant) (r : Request), r.Submits →
      (limit + bodyOverhead ≤ maxWord → (s.handle now r).1.map Response.status ≠ some 413 →
        (s.withLimit limit).handle now r =
          ((s.handle now r).1, (s.handle now r).2.withLimit limit)) ∧
      (maxWord < limit + bodyOverhead → r.body ≠ [] →
        ((s.withLimit limit).handle now r).1.map Response.status = some 413) := by
  have hpos := maxCodeBytes_pos hvalid
  rw [← hs] at hpos hword ⊢
  refine ⟨⟨fun hall => ?_, fun hfits now r hr => exceeds_of_status hr hpos hfits⟩, ?_⟩
  · -- an empty object is short enough for every limit
    by_contra hover
    have hr : Request.Submits ⟨"POST", "/analyze", [], "\x7b\x7d"⟩ := .inl ⟨rfl, rfl⟩
    have hexceeds := hall default _ hr
      (status_of_overflow hr hword (Int.not_le.1 hover) (by decide))
    have hcode : Request.code? ⟨"POST", "/analyze", [], "\x7b\x7d"⟩ = some [] := by decide
    obtain hbody | ⟨code, hsome, hlong⟩ := hexceeds
    · have hoverhead : bodyOverhead = 65536 := rfl
      have hlength : (utf8 "\x7b\x7d").length = 2 := by decide
      simp only [hlength] at hbody
      omega
    · obtain rfl := Option.some.inj (hcode.symm.trans hsome)
      simp only [List.length_nil] at hlong
      omega
  · intro limit hle hlimit now r hr
    exact ⟨fun hfits => handle_of_raised hr hpos hle hfits,
      status_of_overflow (s := s.withLimit limit) hr hlimit⟩

/-- A short text under the default limit, under the greatest one that fits and under the greatest of
all. -/
theorem short_code_under_greatest_limits :
    let r : Request := ⟨"POST", "/analyze", [], "\x7b\"code\":\"x = 1\"\x7d"⟩
    let greatest := maxWord - bodyOverhead
    ∃ s, build {} numberedIds = .ok s ∧ (s.handle default r).1.map Response.status = some 200 ∧
      (∀ (now : Instant) (q : Request), q.Submits →
        (s.handle now q).1.map Response.status = some 413 → q.Exceeds 1048576) ∧
      (s.withLimit greatest).handle default r =
        ((s.handle default r).1, (s.handle default r).2.withLimit greatest) ∧
      ((s.withLimit maxWord).handle default r).1.map Response.status = some 413 := by
  intro r greatest
  obtain ⟨s, hbuild, hs⟩ := exists_ok_of_any (x := build {} numberedIds)
    (p := fun s => decide (s.settings = ({} : Settings).server) &&
      decide ((s.handle default r).1.map Response.status = some 200)) (by decide +kernel)
  simp only [Bool.and_eq_true, decide_eq_true_eq] at hs
  obtain ⟨hsettings, hstatus⟩ := hs
  have hr : r.Submits := .inl ⟨rfl, rfl⟩
  have hvalid : ({} : Settings).invalid? = none := by decide +kernel
  obtain ⟨hiff, hraised⟩ := refusals_exceed_iff_limit_fits hvalid (by decide) hsettings
  obtain ⟨hsame, -⟩ := hraised greatest (by decide) (by decide) default r hr
  obtain ⟨-, hover⟩ := hraised maxWord (by decide) (by decide) default r hr
  have hne : (s.handle default r).1.map Response.status ≠ some 413 := by
    rw [hstatus]
    decide
  exact ⟨s, hbuild, hstatus, hiff.2 (by decide), hsame (by decide) hne,
    hover (by decide) (by decide)⟩

/-- Under the greatest limit a text of five bytes is too large. -/
theorem greatest_limit_refuses_short_code :
    let r : Request := ⟨"POST", "/analyze", [], "\x7b\"code\":\"x = 1\"\x7d"⟩
    ∃ s, build { server := { maxCodeBytes := maxWord } } numberedIds = .ok s ∧ r.Submits ∧
      ¬ r.Exceeds maxWord ∧ (s.handle default r).1.map Response.status = some 413 := by
  intro r
  obtain ⟨s, hbuild, hs⟩ := exists_ok_of_any
    (x := build { server := { maxCodeBytes := maxWord } } numberedIds)
    (p := fun s => decide ((s.handle default r).1.map Response.status = some 413))
      (by decide +kernel)
  refine ⟨s, hbuild, .inl ⟨rfl, rfl⟩, ?_, of_decide_eq_true hs⟩
  have hcode : r.code? = some "x = 1" := by decide
  rintro (hbody | ⟨code, hsome, hlong⟩)
  · exact absurd hbody (by decide)
  · obtain rfl := Option.some.inj (hcode.symm.trans hsome)
    exact absurd hlong (by decide)

end Service
end CodeAudit
