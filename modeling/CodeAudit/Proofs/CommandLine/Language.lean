import CodeAudit.CommandLine
import CodeAudit.Proofs.Classifier
import CodeAudit.Proofs.Except
import CodeAudit.Proofs.Service.Record

/-!
# The language of code, on the command line and for the service

Code is analyzed as the language that a label names, or else as the language it looks like. The
command line looks for the language itself when there is no label. The service does so when the
label is blank. A label that is blank but not empty names the general language, and that is what the
command line makes of it.

**Results.**
* `run_runAnalyze`, `reports_run`: what `analyze` leaves when it is asked for JSON.
* `Service.reports_handle`: what a POST to `/analyze` is answered with.
* `toOption_resultFor_eq_iff`: the labels for which both select the same language.
* `selections_agree_iff`: all of it, for any arguments, any settings and any course of the service.
-/
namespace CodeAudit

namespace Language

/-- A blank label names the general language. -/
theorem parse?_of_trim_eq_nil {label : Text} (h : Text.trim label = []) :
    parse? label = some .general := by
  unfold parse?
  rw [h]
  decide

end Language

namespace CommandLine

/-! ## Running `analyze` -/

/-- Arguments that ask `analyze` for JSON on the standard output and nothing else, under a label of
the language. -/
structure AsksJson (given : List Text) (a : Arguments) (label : Text) : Prop where
  understood : understood? given = some (analyzeCommand, a)
  no_help : a.isOn Program.helpName = false
  words : a.words.length ≤ 1
  format : a.text "format" "text" = utf8 "json"
  language : a.text "language" [] = label
  no_threshold : a.text "fail-on" [] = []
  no_output : a.text "output" [] = []
  no_secure : a.text "secure-out" [] = []

/-- The arguments with everything spelled out. -/
theorem asksJson_flags (path label : Text) :
    AsksJson ["analyze", "--config", path, "--language", label, "--format", "json"]
      { values := [("format", .text "json"), ("language", .text label), ("config", .text path)] }
        label :=
  ⟨rfl, rfl, Nat.zero_le 1, rfl, rfl, rfl, rfl, rfl⟩

theorem liftM_ok {α : Type} (x : α) :
    (liftM (Except.ok x : Except Failure α) : Run α) = pure x := rfl

theorem runArguments_eq {given : List Text} {a : Arguments} {label : Text}
    (h : AsksJson given a label) (w : Surroundings) : runArguments w given = runAnalyze w a := by
  have hunderstood := h.understood
  unfold understood? at hunderstood
  split at hunderstood
  · rename_i c rest hlocate
    split at hunderstood
    · rename_i a' harguments
      obtain ⟨rfl, rfl⟩ := Prod.mk.inj (Option.some.inj hunderstood)
      have hwords : program.checkWords analyzeCommand a'.words = .ok () := by
        change (if 1 < a'.words.length then _ else _) = _
        exact if_neg (Nat.not_lt.2 h.words)
      have hcommand : runCommand w analyzeCommand a' = runAnalyze w a' := by
        rw [runCommand, if_pos (beq_self_eq_true _)]
      unfold runArguments
      simp only [hlocate, harguments, liftM_ok, pure_bind, h.no_help, hwords, hcommand,
        Bool.false_eq_true, if_false]
    · cases hunderstood
  · cases hunderstood

/-- What `analyze` leaves: its result on the standard output, or a failure to select a language. -/
theorem run_runAnalyze {given : List Text} {a : Arguments} {label : Text}
    (h : AsksJson given a label) {w : Surroundings} {s : Settings} {e : Engine} {code name : Text}
    (hsettings : settings w a = .ok s) (hsource : source w a.words = .ok (code, name))
    (hengine : Engine.build s.engine none = .ok e) (before : Effects) :
    (runAnalyze w a).run.run before =
      let ready := before.stderr ++ e.readyLog (logger w s) w.stamp
      match resultFor e code label with
      | .error f => (.error f, { before with stderr := ready })
      | .ok r => (.ok (), { before with
          stdout := before.stdout ++ (r.toJson.indented ++ [10])
          stderr := ready ++ e.resultLog (logger w s) w.stamp w.elapsed code r }) := by
  have hformat : checkFormat (utf8 "json") ["text", "json", "sarif"] = .ok () := rfl
  have hthreshold : threshold [] = .ok none := rfl
  unfold runAnalyze analyzeCode
  simp only [h.format, h.no_threshold, h.language, h.no_output, h.no_secure, hformat, hthreshold,
    hsettings, hsource, hengine, liftM_ok, pure_bind]
  cases resultFor e code label with
  | error f => rfl
  | ok r => rfl

theorem not_isBlank_of_source {w : Surroundings} {words : List Text} {code name : Text}
    (h : source w words = .ok (code, name)) : Document.isBlank code = false := by
  have hchecked : ∀ {c n : Text},
      (if Document.isBlank c then .error (.noCode n) else .ok (c, n) : Except Failure (Text × Text))
        = .ok (code, name) → Document.isBlank code = false := by
    intro c n hc
    split at hc
    · cases hc
    · rename_i hblank
      obtain ⟨rfl, -⟩ := Prod.mk.inj (Except.ok.inj hc)
      simpa using hblank
  unfold source at h
  simp only at h
  split at h
  · exact hchecked h
  · split at h
    · exact hchecked h
    · split at h
      · exact hchecked h
      · cases h

/-- That a command printed a result, or turned down the label of a language. -/
def Outcome.Reports (o : Outcome) (label : Text) : Option Result → Prop
  | some r => o.exit = 0 ∧ o.stdout = r.toJson.indented ++ [10]
  | none => o.exit = 1 ∧ o.stdout = [] ∧ (Failure.language label).line <:+ o.stderr

theorem resultFor_error {e : Engine} {code label : Text} {f : Failure}
    (h : resultFor e code label = .error f) : f = .language label := by
  unfold resultFor language at h
  grind

theorem reports_run {given : List Text} {a : Arguments} {label : Text} (h : AsksJson given a label)
    {w : Surroundings} {s : Settings} {e : Engine} {code name : Text}
    (hsettings : settings w a = .ok s) (hsource : source w a.words = .ok (code, name))
    (hengine : Engine.build s.engine none = .ok e) :
    (run w given).Reports label (resultFor e code label).toOption := by
  unfold run
  rw [runArguments_eq h, run_runAnalyze h hsettings hsource hengine]
  cases hresult : resultFor e code label with
  | error f =>
    obtain rfl := resultFor_error hresult
    exact ⟨rfl, rfl, List.suffix_append _ _⟩
  | ok r => exact ⟨rfl, rfl⟩

end CommandLine

namespace Service

/-! ## Asking the service -/

/-- That an answer tells of a result, or turns down the label of a language. -/
def Reports (answer : Option Response) (label : Text) : Option Result → Prop
  | some r => ∃ e : Entry, e.result = r ∧ answer.map Response.content = some (200, e.receipt)
  | none => answer.map Response.content = some (Refusal.unknownLanguage label).response.content

theorem resultFor_error {s : Service} {code label : Text} {f : Refusal}
    (h : s.resultFor code label = .error f) : f = .unknownLanguage label := by
  unfold resultFor at h
  grind

theorem reports_handle {s : Service} (now : Instant) {r : Request} (hr : r.Asks "POST" "/analyze")
    {sub : Submission} (hbody : s.decode Submission.ofJson? r.body = .ok sub)
    (hcode : s.checkCode sub.code = .ok ()) :
    Reports (s.handle now r).1 sub.language (s.resultFor sub.code sub.language).toOption := by
  obtain ⟨hcontent, -⟩ := handle_analyze s now hr
  unfold Reports
  rw [hcontent]
  cases hresult : s.resultFor sub.code sub.language with
  | error f =>
    obtain rfl := resultFor_error hresult
    simp [Except.toOption, analyze, submitted, hbody, hcode, hresult, bind, Except.bind]
  | ok result =>
    have hsubmitted : s.submitted r.body = .ok (sub, result) := by
      simp [submitted, hbody, hcode, hresult, bind, Except.bind, pure, Except.pure]
    refine ⟨.stamp s.nextId now sub.code result, rfl, ?_⟩
    simp only [analyze, hsubmitted]
    rfl

theorem engine_of_build {settings : Settings} {ids : Nat → Text} {s : Service}
    (h : build settings ids = .ok s) :
    Engine.build settings.engine none = .ok s.engine := by
  unfold build at h
  split at h
  · cases h
  · split at h
    · cases h
    · rename_i e he
      obtain rfl := Except.ok.inj h
      exact he

end Service

/-! ## Selecting a language -/

namespace CommandLine

theorem toOption_resultFor {label : Text} (h : label ≠ []) (e : Engine) (code : Text) :
    (resultFor e code label).toOption = (Language.parse? label).map (e.analyzeAs code) := by
  have hne : ¬ label.isEmpty = true := by simpa using h
  rw [resultFor, language, if_neg hne]
  cases Language.parse? label <;> rfl

end CommandLine

namespace Service

theorem resultFor_of_trim_eq_nil {label : Text} (h : Text.trim label = []) (s : Service)
    (code : Text) :
    s.resultFor code label = .ok (s.engine.analyze code) := by
  rw [resultFor, if_pos (by simpa using h)]

theorem toOption_resultFor {label : Text} (h : Text.trim label ≠ []) (s : Service) (code : Text) :
    (s.resultFor code label).toOption = (Language.parse? label).map (s.engine.analyzeAs code) := by
  rw [resultFor, if_neg (by simpa using h)]
  cases Language.parse? label <;> rfl

end Service

namespace CommandLine

/-- A label that is blank but not empty: the command line takes it for the general language, while
the service looks for the language itself. -/
theorem toOption_resultFor_of_blank {label : Text} (hne : label ≠ [])
    (hblank : Text.trim label = []) (s : Service) (code : Text) :
    (resultFor s.engine code label).toOption = some (s.engine.analyzeAs code .general) ∧
      (s.resultFor code label).toOption = some (s.engine.analyze code) := by
  rw [toOption_resultFor hne, Language.parse?_of_trim_eq_nil hblank,
    Service.resultFor_of_trim_eq_nil hblank]
  exact ⟨rfl, rfl⟩

/-- The labels for which both select the same language, or both none. -/
theorem toOption_resultFor_eq_iff (s : Service) (code label : Text) :
    (resultFor s.engine code label).toOption = (s.resultFor code label).toOption ↔
      label = [] ∨ Text.trim label ≠ [] ∨ s.engine.classify code = .general := by
  by_cases hne : label = []
  · subst hne
    have hnil : Text.trim [] = [] := rfl
    rw [Service.resultFor_of_trim_eq_nil hnil]
    exact iff_of_true rfl (Or.inl rfl)
  · by_cases hblank : Text.trim label = []
    · obtain ⟨hmine, htheirs⟩ := toOption_resultFor_of_blank hne hblank s code
      rw [hmine, htheirs]
      constructor
      · intro heq
        -- the language is part of the result
        exact Or.inr (Or.inr (congrArg Result.language (Option.some.inj heq)).symm)
      · rintro (h | h | h)
        · exact absurd h hne
        · exact absurd hblank h
        · rw [Engine.analyze, h]
    · rw [toOption_resultFor hne, Service.toOption_resultFor hblank]
      exact iff_of_true rfl (Or.inr (Or.inl hblank))

/-- For any code that both accept and any label, `analyze` and a POST to `/analyze` report what they
select. Under the same settings of the engine they select the same, and turn down the same labels,
except for a label that is blank but not empty: then the command line does not look for the language
of the code. -/
theorem selections_agree_iff {w : Surroundings} {given : List Text} {a : Arguments} {label : Text}
    (hasks : AsksJson given a label) {here there : Settings} {code name : Text}
    (hsettings : settings w a = .ok here) (hsource : source w a.words = .ok (code, name))
    {ids : Nat → Text} {s : Service} (hbuild : Service.build there ids = .ok s)
    (hengine : there.engine = here.engine)
    (hlength : code.length ≤ s.settings.maxCodeBytes)
    (earlier : List Service.Event) (now : Instant) {r : Request} (hr : r.Asks "POST" "/analyze")
    {uri : Text} (hbody : s.decode Submission.ofJson? r.body = .ok ⟨code, label, uri⟩) :
    let mine := (resultFor s.engine code label).toOption
    let theirs := (s.resultFor code label).toOption
    (run w given).Reports label mine ∧
      Service.Reports ((s.run earlier).handle now r).1 label theirs ∧
      (mine = theirs ↔ label = [] ∨ Text.trim label ≠ [] ∨ s.engine.classify code = .general) ∧
      (label ≠ [] → Text.trim label = [] →
        mine = some (s.engine.analyzeAs code .general) ∧
          theirs = some (s.engine.analyze code)) := by
  intro mine theirs
  have hblank : Document.isBlank code = false := not_isBlank_of_source hsource
  have hfollows := Service.follows_run s earlier
  refine ⟨?_, ?_, toOption_resultFor_eq_iff s code label,
    fun hne htrim => toOption_resultFor_of_blank hne htrim s code⟩
  · exact reports_run hasks hsettings hsource (hengine ▸ Service.engine_of_build hbuild)
  · -- no event changes the settings or the engine of the service
    have hdecode : (s.run earlier).decode Submission.ofJson? r.body = .ok ⟨code, label, uri⟩ := by
      rw [← hbody]
      simp only [Service.decode, Service.bodyLimit, hfollows.settings]
    have hcheck : (s.run earlier).checkCode code = .ok () := by
      rw [Service.checkCode, hfollows.settings, hblank, if_neg (by simp), if_neg (by omega)]
    have hreports := Service.reports_handle now hr hdecode hcheck
    have hresult : (s.run earlier).resultFor code label = s.resultFor code label := by
      simp only [Service.resultFor, hfollows.engine]
    simpa only [hresult] using hreports

/-- A label in another case with blanks around it, for code that looks like something else. -/
theorem spaced_label_selected_alike :
    let w : Surroundings := { stdin := "<?php" }
    let given : List Text := ["analyze", "--config", "", "--language", " PY ", "--format", "json"]
    let r : Request := ⟨"POST", "/analyze", [], "\x7b\"code\":\"<?php\",\"language\":\" PY \"\x7d"⟩
    ∃ s, Service.build {} numberedIds = .ok s ∧
      (run w given).Reports " PY " (some (s.engine.analyzeAs "<?php" .python)) ∧
      Service.Reports (s.handle default r).1 " PY "
        (some (s.engine.analyzeAs "<?php" .python)) := by
  intro w given r
  obtain ⟨here, hsettings, hdefaults⟩ := exists_ok_of_any (x := settings w
      { values := [("format", .text "json"), ("language", .text " PY "), ("config", .text "")] })
    (p := fun here => decide (here.engine = {})) (by decide +kernel)
  obtain ⟨s, hbuild, hs⟩ := exists_ok_of_any (x := Service.build {} numberedIds)
    (p := fun s => decide (((utf8 "<?php").length : Int) ≤ s.settings.maxCodeBytes) &&
      (s.decode Submission.ofJson? r.body).toOption.any
        fun sub => decide (sub = (⟨"<?php", " PY ", []⟩ : Submission)))
    (by decide +kernel)
  simp only [Bool.and_eq_true, decide_eq_true_eq] at hs hdefaults
  obtain ⟨hlength, hdecode⟩ := hs
  obtain ⟨sub, hbody, hsub⟩ := exists_ok_of_any hdecode
  obtain rfl := of_decide_eq_true hsub
  have hpython : (resultFor s.engine "<?php" " PY ").toOption =
      some (s.engine.analyzeAs "<?php" .python) := by
    rw [toOption_resultFor (by decide)]
    exact congrArg _ (by decide : Language.parse? " PY " = some .python)
  have hsource : source w [] = .ok (utf8 "<?php", utf8 "stdin") := rfl
  obtain ⟨hmine, htheirs, hagree, -⟩ :=
    selections_agree_iff (asksJson_flags "" " PY ") hsettings hsource
    hbuild hdefaults.symm hlength [] default (r := r) ⟨rfl, rfl⟩ hbody
  rw [← hagree.2 (.inr (.inl (by decide)))] at htheirs
  rw [hpython] at hmine htheirs
  exact ⟨s, hbuild, hmine, htheirs⟩

/-- A blank label, for code that is plainly in a language of its own. -/
theorem blank_label_selected_apart :
    ∃ s, Service.build {} numberedIds = .ok s ∧
      (resultFor s.engine "<?php" " ").toOption.map (·.language) = some .general ∧
      (s.resultFor "<?php" " ").toOption.map (·.language) ≠ some .general := by
  obtain ⟨s, hbuild, hs⟩ := exists_ok_of_any (x := Service.build {} numberedIds)
    (p := fun s => decide (s.engine.minScore = 2)) (by decide +kernel)
  have hmin : s.engine.minScore = 2 := of_decide_eq_true hs
  obtain ⟨hmine, htheirs⟩ :=
    toOption_resultFor_of_blank (by decide : utf8 " " ≠ []) (by decide) s "<?php"
  refine ⟨s, hbuild, by rw [hmine]; rfl, ?_⟩
  rw [htheirs]
  intro hgeneral
  have hbelow := (Classifier.classify_eq_general_iff (by decide : (0 : Int) < 2) "<?php").1
    (hmin ▸ Option.some.inj hgeneral) .php (by decide)
  have hopening : (⟨.read r"<\?php", 10, 1⟩ : Marker).score "<?php" = 10 := by decide +kernel
  have hscore : 10 ≤ Classifier.score "<?php" .php := by
    have hblank : Text.isBlankText "<?php" = false := by decide
    simp only [Classifier.score, hblank, Classifier.markers, Classifier.phpMarkers, List.foldr_cons,
      hopening, Bool.false_eq_true, if_false]
    omega
  omega

end CommandLine
end CodeAudit
