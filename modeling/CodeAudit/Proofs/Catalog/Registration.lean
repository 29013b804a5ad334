import CodeAudit.Proofs.Catalog
import Mathlib.Data.List.Basic

/-!
# Building catalogs

A catalog is built in one pass over its rules, disabled ones included, and only then the disabled
ids are looked up. So the first rule that cannot be registered behind those before it decides the
error, whatever is disabled, and disabling in two steps is the same as disabling at once.

**Results.**
* `reports_of_build`: what an error says.
* `build_rules_append`, `build_rules_unknown`: a catalog built from the rules of another.
* `catalog_registers_rules`: all of it together with looking up rules and their places.
-/
namespace CodeAudit
namespace Catalog

/-- What an error of a catalog says: the first rule that cannot be registered behind those before
it, or, where all can be, a disabled id that names none of them. -/
inductive Reports (rules : List Rule) (disabled : List Text) : CatalogError → Prop
  | refused (before : List Rule) (r : Rule) (after : List Rule) (reason : RuleReason)
      (hrules : rules = before ++ r :: after) (hbefore : WellFormed before)
      (hrefused : refusal? before r = some reason) :
        Reports rules disabled (.invalidRule r.id reason)
  | unknown (id : Text) (hrules : WellFormed rules) (hid : id ∈ disabled)
      (hunknown : ∀ r ∈ rules, r.id ≠ id) : Reports rules disabled (.unknownRule id)

/-- **What an error says.** -/
theorem reports_of_build {rules : List Rule} {disabled : List Text} {e : CatalogError}
    (h : build rules disabled = .error e) : Reports rules disabled e := by
  cases hpass : rules.foldlM (Draft.register disabled) {} with
  | error e' =>
    obtain ⟨before, r, after, reason, hrules, hbefore, hrefused, rfl⟩ :=
      Draft.holds_nil.foldlM_error hpass
    rw [build, hpass] at h
    obtain rfl := Except.error.inj h
    exact .refused before r after reason hrules hbefore hrefused
  | ok d =>
    have hgood : WellFormed rules := (Draft.holds_nil.foldlM hpass).wellFormed
    rw [build_of_wellFormed hgood] at h
    cases hknown : unknownId? rules disabled with
    | none =>
      rw [hknown] at h
      cases h
    | some id =>
      rw [hknown] at h
      obtain rfl := Except.error.inj h
      refine .unknown id hgood (List.mem_of_find?_eq_some hknown) ?_
      simpa using List.find?_some hknown

section
variable {rules : List Rule} {disabled more : List Text} {c : Catalog}

/-- The rules of a catalog name what those it was built from do, less what was disabled. -/
theorem names_iff_of_build (h : build rules disabled = .ok c) {id : Text} :
    (∃ r ∈ c.rules, r.id = id) ↔ (∃ r ∈ rules, r.id = id) ∧ id ∉ disabled := by
  rw [rules_of_build h]
  constructor
  · rintro ⟨r, hr, rfl⟩
    obtain ⟨hr, hkept⟩ := List.mem_filter.1 hr
    exact ⟨⟨r, hr, rfl⟩, by simpa using hkept⟩
  · rintro ⟨⟨r, hr, rfl⟩, hkept⟩
    exact ⟨r, List.mem_filter.2 ⟨hr, by simpa using hkept⟩, rfl⟩

/-- Ids that were not disabled are known to a catalog as they were to its rules. -/
theorem unknownId?_rules (h : build rules disabled = .ok c) (hmore : ∀ id ∈ more, id ∉ disabled) :
    unknownId? c.rules more = unknownId? rules more := by
  unfold unknownId?
  rw [← List.head?_filter, ← List.head?_filter]
  refine congrArg List.head? (List.filter_congr fun id hid => ?_)
  have hnames : (∃ r ∈ c.rules, r.id = id) ↔ ∃ r ∈ rules, r.id = id := by
    rw [names_iff_of_build h, and_iff_left (hmore id hid)]
  rw [Bool.eq_iff_iff]
  simpa using not_congr hnames

/-- Disabling in two steps is disabling at once. -/
theorem build_rules_append (h : build rules disabled = .ok c) (hmore : ∀ id ∈ more, id ∉ disabled) :
    build c.rules more = build rules (disabled ++ more) := by
  obtain ⟨hgood, hknown, -⟩ := build_eq_ok_iff.1 h
  have hunknown : unknownId? rules (disabled ++ more) = unknownId? c.rules more := by
    rw [unknownId?_rules h hmore, unknownId?, List.find?_append,
      show disabled.find? _ = none from (unknownId?_eq_none_iff rules disabled).2 hknown,
        Option.none_or]
    rfl
  have hfilter : (rules.filter fun r => !(disabled ++ more).contains r.id) =
      c.rules.filter fun r => !more.contains r.id := by
    rw [rules_of_build h, List.filter_filter]
    refine List.filter_congr fun r _ => ?_
    simp [Bool.and_comm]
  rw [build_of_wellFormed hgood, build_of_wellFormed (valid_of_build h).toWellFormed, hunknown,
    hfilter]

/-- What was disabled once is unknown afterwards. -/
theorem build_rules_unknown (h : build rules disabled = .ok c)
    (hmore : ∃ id ∈ more, id ∈ disabled) :
    ∃ id ∈ more, build c.rules more = .error (.unknownRule id) := by
  obtain ⟨id, hid, hdisabled⟩ := hmore
  rw [build_of_wellFormed (valid_of_build h).toWellFormed]
  cases hunknown : unknownId? c.rules more with
  | none =>
    have hnamed := (unknownId?_eq_none_iff c.rules more).1 hunknown id hid
    exact absurd hdisabled ((names_iff_of_build h).1 hnamed).2
  | some unknown => exact ⟨unknown, List.mem_of_find?_eq_some hunknown, rfl⟩

theorem Valid.lookup_of_unnamed (hc : c.Valid) {id : Text} (h : ∀ r ∈ c.rules, r.id ≠ id) :
    c.lookup? id = none ∧ c.indexOf id = -1 := by
  have hindex : c.index? id = none := by
    rw [hc.index?_eq]
    exact List.findIdx?_eq_none_iff.2 (by simpa using h)
  exact ⟨by rw [lookup?, hindex]; rfl, by rw [indexOf, hindex]⟩

end

/-- **Registering rules.** A catalog can be built exactly when all rules are well formed, disabled
ones too, no two have the same id, and every disabled id names one of them; otherwise the error is
about the first rule that breaks this, and about a disabled id only if there is none. A catalog that
was built has the rules that are not disabled, in order, finds each by its id and at its place, and
nothing else. Built again from its own rules it is as if all had been disabled at once, unless an id
is disabled twice. -/
theorem catalog_registers_rules (rules : List Rule) (disabled : List Text) :
    ((∃ c, build rules disabled = .ok c) ↔
      (∀ r ∈ rules, r.fault? = none) ∧ (rules.map Rule.id).Nodup ∧
        ∀ id ∈ disabled, ∃ r ∈ rules, r.id = id) ∧
    (∀ e, build rules disabled = .error e → Reports rules disabled e) ∧
    ∀ c, build rules disabled = .ok c →
      c.rules = (rules.filter fun r => r.id ∉ disabled) ∧
      (∀ (i : Nat) r, c.rules[i]? = some r → c.indexOf r.id = i ∧ c.lookup? r.id = some r) ∧
      (∀ id, (∀ r ∈ c.rules, r.id ≠ id) → c.lookup? id = none ∧ c.indexOf id = -1) ∧
      ∀ more,
        (more.Disjoint disabled → build c.rules more = build rules (disabled ++ more)) ∧
        (¬ more.Disjoint disabled →
          ∃ id ∈ more, build c.rules more = .error (.unknownRule id)) := by
  refine ⟨?_, fun e => reports_of_build, fun c hbuild => ?_⟩
  · have hnodup : (rules.map Rule.id).Nodup ↔ rules.Pairwise fun r s => r.id ≠ s.id :=
      List.pairwise_map
    constructor
    · rintro ⟨c, hbuild⟩
      obtain ⟨hgood, hknown, -⟩ := build_eq_ok_iff.1 hbuild
      exact ⟨hgood.faultless, hnodup.2 hgood.distinct, hknown⟩
    · rintro ⟨hgood, hdistinct, hknown⟩
      exact ⟨_, build_eq_ok_iff.2 ⟨⟨hgood, hnodup.1 hdistinct⟩, hknown, rfl⟩⟩
  · have hvalid := valid_of_build hbuild
    refine ⟨?_, fun i r hr => ⟨hvalid.indexOf_eq hr, hvalid.lookup?_eq (List.mem_of_getElem? hr)⟩,
      fun id => hvalid.lookup_of_unnamed, fun more => ⟨fun hmore => ?_, fun hmore => ?_⟩⟩
    · rw [rules_of_build hbuild]
      simp
    · exact build_rules_append hbuild fun id hid => hmore hid
    · refine build_rules_unknown hbuild ?_
      simpa [List.Disjoint] using hmore

/-- Three rules of which the second is disabled: the third moves up, disabling it too leaves the
first, and the second cannot be disabled again. -/
theorem middle_rule_disabled :
    let rule (id : Text) : Rule :=
      { id := id, category := .injection, name := "n", severity := .low, languages := [],
        matcher := { kind := .line, pattern := some (.spaced ["x"]) }, description := [],
        recommendation := [], fix := some fun lines _ => some lines }
    let rules := [rule "a", rule "b", rule "c"]
    let c : Catalog := ⟨[rule "a", rule "c"], [("c", 1), ("a", 0)]⟩
    build rules ["b"] = .ok c ∧ c.indexOf "c" = 1 ∧ c.lookup? "b" = none ∧
      build c.rules ["c"] = build rules ["b", "c"] ∧
      ∃ id ∈ [utf8 "b"], build c.rules ["b"] = .error (.unknownRule id) := by
  intro rule rules c
  have hbuild : build rules ["b"] = .ok c := by rfl
  obtain ⟨-, hfound, hunnamed, hagain⟩ := (catalog_registers_rules rules ["b"]).2.2 c hbuild
  have hapart : [utf8 "c"].Disjoint [utf8 "b"] := List.disjoint_singleton.2 (by decide)
  exact ⟨hbuild, (hfound 1 (rule "c") rfl).1, (hunnamed "b" (by decide)).1, (hagain ["c"]).1 hapart,
    (hagain ["b"]).2 fun h => h List.mem_cons_self List.mem_cons_self⟩

end Catalog
end CodeAudit
