import CodeAudit.Proofs.Service.Record
import Mathlib.Data.List.Pairwise

/-!
# Comparing a remembered analysis is comparing its code

A comparison can be asked for in two ways: by the identifier of a remembered analysis, or by code
and the label of its language. The first takes the code and the result from the history, the second
checks and analyzes the code anew. As long as the analysis is remembered, both get the same answer.

The number of lines around a finding may be left out, and it may be anything that can be written
there: a negative number is turned down, and so is what is no number.

**Results.**
* `ofJson?_entry`, `ofJson?_code`: what the two kinds of bodies describe, in whatever order they say
  it.
* `compared_entry`, `compared_code`: the code and the result that the two ways find.
* `compare_eq`: the answer to a comparison once its code and its result are known.
* `compare_entry_eq_compare_code`: after any course, the two answers are the same.
-/
namespace CodeAudit

namespace ComparisonRequest

/-- The member that gives the number of lines, if there is one. -/
def contextMember (k : Option Json) :
    List (Text × Json) := k.toList.map fun j => (utf8 "context", j)

/-- The number of lines that is meant; none when it is no number. -/
def contextIn (k : Option Json) : Option (Option Int) := (k.map context?).getD (some none)

@[simp] theorem withMember?_code (r : ComparisonRequest) (t : Text) :
    r.withMember? (utf8 "code", .string t) = some { r with code := t } := rfl

@[simp] theorem withMember?_language (r : ComparisonRequest) (t : Text) :
    r.withMember? (utf8 "language", .string t) = some { r with language := t } := rfl

@[simp] theorem withMember?_historyId (r : ComparisonRequest) (t : Text) :
    r.withMember? (utf8 "historyId", .string t) = some { r with historyId := t } := rfl

@[simp] theorem withMember?_context (r : ComparisonRequest) (j : Json) :
    r.withMember? (utf8 "context", j) = (context? j).map fun n => { r with context := n } := by
  change (context? j).bind (fun n => some { r with context := n }) = _
  cases context? j <;> rfl

theorem ofJson?_object (ms : List (Text × Json)) :
    ofJson? (.object ms) = ms.foldlM withMember? {} := rfl

/-- That two members say the same in either order. -/
def Commutes (a b : Text × Json) : Prop := ∀ r : ComparisonRequest,
  (r.withMember? a).bind (·.withMember? b) = (r.withMember? b).bind (·.withMember? a)

instance : Std.Symm Commutes := ⟨fun _ _ h r => (h r).symm⟩

/-- Members that say the same in any order describe the same request in any order. -/
theorem ofJson?_perm {ms ms' : List (Text × Json)} (h : ms.Perm ms')
    (hcomm : ms'.Pairwise Commutes) :
    ofJson? (.object ms) = ofJson? (.object ms') := by
  have hall {a b : Text × Json} (ha : a ∈ ms') (hb : b ∈ ms') : Commutes a b :=
    List.Pairwise.forall_of_forall (fun _ _ _ => rfl) hcomm ha hb
  rw [ofJson?_object, ofJson?_object, List.foldlM_eq_foldl, List.foldlM_eq_foldl]
  -- once a member cannot be read, no other one changes that
  refine h.foldl_eq' (fun a ha b hb z => ?_) _
  cases z with
  | none => rfl
  | some r => exact hall (h.mem_iff.1 ha) (h.mem_iff.1 hb) r

theorem foldlM_contextMember (r : ComparisonRequest) (k : Option Json) (h : r.context = none) :
    (contextMember k).foldlM withMember? r =
      (contextIn k).map fun n => { r with context := n } := by
  cases k with
  | none =>
    obtain ⟨code, language, historyId, context⟩ := r
    cases h
    rfl
  | some j => simp [contextMember, contextIn]

/-- A member that is taken as it is says the same before the number of lines and behind it. -/
theorem commutes_contextMember {m : Text × Json} {f : ComparisonRequest → ComparisonRequest}
    (hm : ∀ r : ComparisonRequest, r.withMember? m = some (f r))
    (hf : ∀ (r : ComparisonRequest) n, f { r with context := n } = { f r with context := n })
    (k : Option Json) : ∀ b ∈ contextMember k, Commutes m b := by
  cases k with
  | none => exact nofun
  | some j =>
    intro b hb r
    obtain rfl := List.mem_singleton.1 hb
    rw [hm, withMember?_context, Option.bind_some, withMember?_context]
    cases context? j with
    | none => rfl
    | some n =>
      change some { f r with context := n } =
        ({ r with context := n } : ComparisonRequest).withMember? m
      rw [hm]
      exact congrArg some (hf r n).symm

theorem pairwise_contextMember (k : Option Json) : (contextMember k).Pairwise Commutes := by
  cases k with
  | none => exact .nil
  | some j => exact List.pairwise_singleton _ _

/-- A body that names a remembered analysis. -/
theorem ofJson?_entry {ms : List (Text × Json)} {id : Text} {k : Option Json}
    (h : ms.Perm ((utf8 "historyId", .string id) :: contextMember k)) :
    ofJson? (.object ms) = (contextIn k).map fun n => { historyId := id, context := n } := by
  have hcomm : ((utf8 "historyId", .string id) :: contextMember k).Pairwise Commutes :=
    .cons (commutes_contextMember (fun r => withMember?_historyId r id) (fun _ _ => rfl) k)
      (pairwise_contextMember k)
  rw [ofJson?_perm h hcomm, ofJson?_object, List.foldlM_cons, withMember?_historyId]
  exact foldlM_contextMember _ k rfl

/-- A body that submits code. -/
theorem ofJson?_code {ms : List (Text × Json)} {code language : Text} {k : Option Json}
    (h : ms.Perm ((utf8 "code", .string code) :: (utf8 "language", .string language) ::
      contextMember k)) :
    ofJson? (.object ms) =
      (contextIn k).map fun n => { code := code, language := language, context := n } := by
  have hlanguage := commutes_contextMember (fun r => withMember?_language r language)
    (fun _ _ => rfl) k
  have hcode := commutes_contextMember (fun r => withMember?_code r code) (fun _ _ => rfl) k
  have hcomm : ((utf8 "code", .string code) :: (utf8 "language", .string language) ::
      contextMember k).Pairwise Commutes :=
    .cons (List.forall_mem_cons.2 ⟨fun _ => rfl, hcode⟩)
      (.cons hlanguage (pairwise_contextMember k))
  rw [ofJson?_perm h hcomm, ofJson?_object, List.foldlM_cons, withMember?_code]
  exact foldlM_contextMember _ k rfl

end ComparisonRequest

namespace Service

/-- What the comparison of code along its result is answered with, for a number of lines around each
finding that may be left out. -/
def comparisonAnswer (code : Text) (result : Result) (k : Option Json) : Option (Nat × Text) :=
  match ComparisonRequest.contextIn k with
  | none => some (Refusal.body .invalid).response.content
  | some context =>
    match contextOf { context := context } with
    | .error refusal => some refusal.response.content
    | .ok n => (Comparison.of code result.secureCode result.findings n).toOption.map fun c =>
        (200, c.toJson.compact ++ [10])

/-- An identifier finds what was remembered under it. -/
theorem compared_entry {s : Service} {asked : ComparisonRequest} {e : Entry}
    (hne : asked.historyId ≠ [])
    (hget : s.history.get? asked.historyId = some e) :
      s.compared asked = .ok (e.code, e.result) := by
  rw [compared, if_neg (by simpa using hne), hget]

/-- Code that can be analyzed finds its result. -/
theorem compared_code {s : Service} {code language : Text} {result : Result} {context : Option Int}
    (hcheck : s.checkCode code = .ok ()) (hresult : s.resultFor code language = .ok result) :
    s.compared ⟨code, language, [], context⟩ = .ok (code, result) := by
  simp [compared, hcheck, hresult, bind, Except.bind, pure, Except.pure]

/-- A comparison that finds code and its result, whatever the number of lines, is answered by them
and by that number alone. -/
theorem compare_eq {s : Service} {body : Text} {j : Json} {k : Option Json}
    {asked : Option Int → ComparisonRequest} {code : Text} {result : Result}
    (hread : Body.read s.bodyLimit body = .ok j)
    (hasked : ComparisonRequest.ofJson? j = (ComparisonRequest.contextIn k).map asked)
    (hcontext : ∀ n, (asked n).context = n)
    (hcompared : ∀ n, s.compared (asked n) = .ok (code, result)) :
    (s.compare body).map Response.content = comparisonAnswer code result k := by
  unfold compare comparisonOf comparisonAnswer decode
  simp only [hread, hasked]
  cases ComparisonRequest.contextIn k with
  | none => rfl
  | some n =>
    have hsame : contextOf (asked n) = contextOf { context := n } := by
      rw [contextOf, hcontext]
      rfl
    simp only [Option.map_some, bind, Except.bind, hcompared, hsame]
    cases contextOf { context := n } with
    | error refusal => rfl
    | ok lines =>
      simp only [pure, Except.pure, Option.map_map]
      rfl

/-- There is no answer only where the comparison leaves the texts, for a number of lines that is
accepted. -/
theorem comparisonAnswer_eq_none {code : Text} {result : Result} {k : Option Json}
    (h : comparisonAnswer code result k = none) :
    ∃ context n o, ComparisonRequest.contextIn k = some context ∧
      contextOf { context := context } = .ok n ∧
      Comparison.of code result.secureCode result.findings n = .error o := by
  unfold comparisonAnswer at h
  split at h
  · cases h
  · rename_i context hcontext
    split at h
    · cases h
    · rename_i n hn
      cases hof : Comparison.of code result.secureCode result.findings n with
      | ok c => simp [hof, Except.toOption] at h
      | error o => exact ⟨context, n, o, hcontext, hn, hof⟩

/-- After any course in which an analysis was answered 200, and as long as it is remembered, a
comparison that names it and one that submits its code and language again get the same answer,
whatever they say of the number of lines: the comparison of that code along the result of the
analysis. Neither is answered only where that comparison leaves the texts, for a number of lines
that is accepted. -/
theorem compare_entry_eq_compare_code {settings : Settings} {ids : Nat → Text}
    (hids : Identifies ids) {s : Service} (hbuild : build settings ids = .ok s)
    (earlier : List Event) {now : Instant} {r : Request} {a : Response}
    (hanswer : ((s.run earlier).handle now r).1 = some a)
    (hanalysis : isAnalysis (.request now r, some a) = true) :
    ∃ e sub, s.Describes (.request now r, some a) (.record e) ∧ e.id = (s.run earlier).nextId ∧
      (Json.parse? a.body).bind (·.member? "historyId") = some (.string e.id) ∧
      s.decode Submission.ofJson? r.body = .ok sub ∧
      ∀ later, let t := s.run (earlier ++ .request now r :: later)
      DistinctBelow ids t.drawn → (t.history.get? e.id).isSome = true →
      ∀ (k : Option Json) (ms₁ ms₂ : List (Text × Json)) (q₁ q₂ : Request) (now₁ now₂ : Instant),
        ms₁.Perm ((utf8 "historyId", .string e.id) :: ComparisonRequest.contextMember k) →
        ms₂.Perm ((utf8 "code", .string sub.code) :: (utf8 "language", .string sub.language) ::
          ComparisonRequest.contextMember k) →
        q₁.Asks "POST" "/compare" → Body.read t.bodyLimit q₁.body = .ok (.object ms₁) →
        q₂.Asks "POST" "/compare" → Body.read t.bodyLimit q₂.body = .ok (.object ms₂) →
        (∃ a₁ a₂, (t.handle now₁ q₁).1 = some a₁ ∧ (t.handle now₂ q₂).1 = some a₂ ∧
          a₁.content = a₂.content ∧ comparisonAnswer sub.code e.result k = some a₁.content) ∨
        ((t.handle now₁ q₁).1 = none ∧ (t.handle now₂ q₂).1 = none ∧
          ∃ context n o, ComparisonRequest.contextIn k = some context ∧
            contextOf { context := context } = .ok n ∧
            Comparison.of sub.code e.result.secureCode e.result.findings n = .error o) := by
  obtain ⟨horderly, hsame, -, -⟩ := orderly_build hbuild
  obtain ⟨e, hdescribes, hid, hfound⟩ := get?_run (orderly_run horderly earlier) hanswer hanalysis
  have hs := hdescribes.of_follows (follows_run s earlier)
  obtain ⟨sub, hsub, hcheck, hresult, hcode⟩ := hs.submission
  have hnamed : e.id = ids (s.run earlier).drawn := by
    rw [hid, nextId, (follows_run s earlier).ids, hsame]
  have hne : e.id ≠ [] := hnamed ▸ hids.ne_nil _
  refine ⟨e, sub, hs, hid, ?_, hsub, ?_⟩
  · rw [hdescribes.body, Option.bind_some, historyId_of_receipt (hnamed ▸ hids.ascii _)]
  intro later t hdistinct hretained k ms₁ ms₂ q₁ q₂ now₁ now₂ hms₁ hms₂ hq₁ hread₁ hq₂ hread₂
  have ht : t = ((s.run earlier).handle now r).2.run later := run_append s earlier _
  have hget : t.history.get? e.id = some e := by
    rw [ht] at hdistinct hretained ⊢
    have hlater := hfound later (by rwa [(follows_run s earlier).ids, hsame])
    rw [hlater] at hretained ⊢
    by_cases hroom : LeavesRoom (s.run earlier).history.limit
      (((s.run earlier).handle now r).2.transcript later)
    · rw [if_pos hroom]
    · rw [if_neg hroom] at hretained
      cases hretained
  -- the settings and the engine are the ones of the analysis, so the code is accepted again
  have hfollows := follows_run s (earlier ++ .request now r :: later)
  have hcheck' : t.checkCode sub.code = .ok () := by
    rw [checkCode, hfollows.settings]
    exact hcheck
  have hresult' : t.resultFor sub.code sub.language = .ok e.result := by
    rw [resultFor, hfollows.engine]
    exact hresult
  have hentry := compare_eq hread₁ (ComparisonRequest.ofJson?_entry hms₁) (fun _ => rfl)
    (fun _ => compared_entry hne hget)
  have hagain := compare_eq hread₂ (ComparisonRequest.ofJson?_code hms₂) (fun _ => rfl)
    (fun _ => compared_code hcheck' hresult')
  rw [hcode] at hentry
  rw [← handle_compare t now₁ hq₁] at hentry
  rw [← handle_compare t now₂ hq₂] at hagain
  cases hcomparison : comparisonAnswer sub.code e.result k with
  | some content =>
    obtain ⟨a₁, h₁, rfl⟩ := Option.map_eq_some_iff.1 (hentry.trans hcomparison)
    obtain ⟨a₂, h₂, hsame⟩ := Option.map_eq_some_iff.1 (hagain.trans hcomparison)
    exact .inl ⟨a₁, a₂, h₁, h₂, hsame.symm, rfl⟩
  | none =>
    have h₁ := Option.map_eq_none_iff.1 (hentry.trans hcomparison)
    have h₂ := Option.map_eq_none_iff.1 (hagain.trans hcomparison)
    exact .inr ⟨h₁, h₂, comparisonAnswer_eq_none hcomparison⟩

/-- Settings that leave one rule. -/
def oneRule : Settings :=
  { engine :=
      { disabledRules :=
          some ((builtinRules.map Rule.id).filter (· ≠ utf8 "deprecated-mysql-api")) } }

/-- A remembered text compared by its identifier and by itself, with one line around the finding in
it. -/
theorem remembered_code_compared_alike :
    let r : Request :=
      ⟨"POST", "/analyze", [], "\x7b\"code\":\"mysql_close()\",\"language\":\"php\"\x7d"⟩
    let q₁ : Request := ⟨"POST", "/compare", [],
      "\x7b\"context\":1,\"historyId\":\"00000000-0000-4000-8000-000000000001\"\x7d"⟩
    let q₂ : Request := ⟨"POST", "/compare", [],
      "\x7b\"code\":\"mysql_close()\",\"context\":1,\"language\":\"php\"\x7d"⟩
    ∃ s a₁ a₂, build oneRule numberedIds = .ok s ∧
      ((s.run [.request default r]).handle default q₁).1 = some a₁ ∧
      ((s.run [.request default r]).handle default q₂).1 = some a₂ ∧ a₁.content = a₂.content := by
  intro r q₁ q₂
  have hread₁ : Body.read 1114112 q₁.body = .ok (.object [(utf8 "context", .number "1"),
    (utf8 "historyId", .string "00000000-0000-4000-8000-000000000001")]) := by rfl
  have hread₂ : Body.read 1114112 q₂.body = .ok (.object [(utf8 "code", .string "mysql_close()"),
    (utf8 "context", .number "1"), (utf8 "language", .string "php")]) := by rfl
  obtain ⟨s, hbuild, hs⟩ := exists_ok_of_any (x := build oneRule numberedIds) (p := fun s =>
      isAnalysis (.request default r, (s.handle default r).1) &&
        decide
          ((s.decode Submission.ofJson? r.body).toOption = some ⟨"mysql_close()", "php", []⟩) &&
        decide (s.nextId = utf8 "00000000-0000-4000-8000-000000000001") &&
        ((s.run [.request default r]).history.get? "00000000-0000-4000-8000-000000000001").isSome &&
        decide ((s.run [.request default r]).drawn = 1) &&
        decide ((s.run [.request default r]).bodyLimit = 1114112) &&
        (s.resultFor "mysql_close()" "php").toOption.any fun result =>
          (Comparison.of "mysql_close()" result.secureCode result.findings 1).toOption.isSome)
    (by decide +kernel)
  simp only [Bool.and_eq_true, decide_eq_true_eq] at hs
  obtain ⟨⟨⟨⟨⟨⟨hanalysis, hdecode⟩, hnext⟩, hretained⟩, hdrawn⟩, hlimit⟩, hcompared⟩ := hs
  cases hanswer : (s.handle default r).1 with
  | none =>
    rw [hanswer] at hanalysis
    cases hanalysis
  | some a =>
    rw [hanswer] at hanalysis
    obtain ⟨e, sub, hdescribes, hid, -, hsub, hsame⟩ :=
      compare_entry_eq_compare_code identifies_numberedIds hbuild [] hanswer hanalysis
    replace hid : e.id = utf8 "00000000-0000-4000-8000-000000000001" := hid.trans hnext
    obtain rfl : sub = ⟨"mysql_close()", "php", []⟩ := by
      rw [hsub] at hdecode
      exact Option.some.inj hdecode
    rw [← hlimit] at hread₁ hread₂
    rw [← hid] at hretained
    obtain ⟨a₁, a₂, h₁, h₂, hcontent, -⟩ | ⟨-, -, context, n, o, hcontext, hn, hover⟩ :=
      hsame [] (hdrawn ▸ distinctBelow_numberedIds (by decide)) hretained
        (some (.number "1")) _ _ q₁ q₂ default default (hid ▸ List.Perm.swap _ _ _)
        (.cons _ (List.Perm.swap _ _ _)) ⟨rfl, rfl⟩ hread₁ ⟨rfl, rfl⟩ hread₂
    · exact ⟨s, a₁, a₂, hbuild, h₁, h₂, hcontent⟩
    · -- one line is accepted, and with it the comparison stays in the texts
      obtain rfl := Option.some.inj hcontext
      obtain rfl : 1 = n := Except.ok.inj hn
      obtain ⟨sub, hsub', -, hresult, -⟩ := hdescribes.submission
      obtain rfl := Except.ok.inj (hsub.symm.trans hsub')
      change Comparison.of (utf8 "mysql_close()") _ _ _ = _ at hover
      simp [hresult, hover, Except.toOption] at hcompared

end Service
end CodeAudit
