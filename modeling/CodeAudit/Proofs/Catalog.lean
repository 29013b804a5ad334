import CodeAudit.Rule.Catalog
import Mathlib.Data.List.Induction

/-!
# What a catalog promises

A catalog is built in one pass, which keeps the ids that came by, the rules and their places in
step. It holds well-formed rules with distinct ids, and its index has the place of each in the list,
so that a rule and its place can be told from each other.

**The pass.** `Draft.Holds` says what a draft has after some of the rules. One rule more keeps it
(`Draft.Holds.register`), so it holds of all of them (`Draft.Holds.foldlM`).

**Results.**
* `Catalog.Valid`: the promise.
* `Catalog.valid_of_build`: every catalog that was built keeps it.
* `Catalog.Valid.indexOf_eq`, `Catalog.Valid.lookup?_eq`: a rule and its place are found from its
  id.
-/
namespace CodeAudit

/-- The matcher of a well-formed rule is well formed. -/
theorem Rule.matcher_fault?_eq_none {r : Rule} (h : r.fault? = none) : r.matcher.fault? = none := by
  unfold Rule.fault? at h
  iterate 5
    split at h
    · cases h
  exact h

/-- A well-formed rule has one of the ten categories and a known severity. -/
theorem Rule.category_severity_of_fault? {r : Rule} (h : r.fault? = none) :
    r.category.isValid = true ∧ r.severity.isKnown = true := by
  unfold Rule.fault? at h
  split at h
  · cases h
  split at h
  · cases h
  · rename_i hcategory
    split at h
    · cases h
    · rename_i hseverity
      exact ⟨by simpa using hcategory, by simpa using hseverity⟩

/-- The window of a well-formed matcher has at least two lines. -/
theorem Matcher.two_le_size {m : Matcher} (h : m.fault? = none) (hk : m.kind = .window) :
    2 ≤ m.size := by
  unfold Matcher.fault? at h
  rw [hk] at h
  simp only at h
  split at h
  · cases h
  · split at h
    · cases h
    · omega

namespace Catalog

/-- Every rule is well formed, and no two have the same id. -/
structure WellFormed (rules : List Rule) : Prop where
  faultless : ∀ r ∈ rules, r.fault? = none
  distinct : rules.Pairwise fun r s => r.id ≠ s.id

/-- The places of some rules by their ids, the last one first. -/
def placesOf (rules : List Rule) : List (Text × Nat) :=
  (rules.zipIdx.map fun (r, i) => (r.id, i)).reverse

/-- The catalog with just these rules. -/
def ofRules (rules : List Rule) : Catalog := ⟨rules, placesOf rules⟩

/-- The rules are well formed, no two have the same id, and the index has their places. -/
structure Valid (c : Catalog) : Prop extends WellFormed c.rules where
  placed : c.places = placesOf c.rules

theorem WellFormed.filter {rules : List Rule} (h : WellFormed rules) (p : Rule → Bool) :
    WellFormed (rules.filter p) :=
  ⟨fun r hr => h.faultless r (List.mem_filter.1 hr).1, h.distinct.filter p⟩

theorem wellFormed_append_singleton {rules : List Rule} {r : Rule} :
    WellFormed (rules ++ [r]) ↔ WellFormed rules ∧ r.fault? = none ∧ ∀ s ∈ rules, s.id ≠ r.id := by
  constructor
  · rintro ⟨hgood, hdistinct⟩
    obtain ⟨hrules, -, hr⟩ := List.pairwise_append.1 hdistinct
    exact ⟨⟨fun s hs => hgood s (List.mem_append_left _ hs), hrules⟩,
      hgood r List.mem_concat_self, fun s hs => hr s hs r List.mem_cons_self⟩
  · rintro ⟨⟨hgood, hdistinct⟩, hr, hnew⟩
    refine ⟨List.forall_mem_append.2 ⟨hgood, by simpa using hr⟩, ?_⟩
    exact List.pairwise_append.2 ⟨hdistinct, List.pairwise_singleton _ r, by simpa using hnew⟩

theorem placesOf_append_singleton (rules : List Rule) (r : Rule) :
    placesOf (rules ++ [r]) = (r.id, rules.length) :: placesOf rules := by
  simp [placesOf, List.zipIdx_append]

/-! ## The pass -/

/-- Why a rule cannot be registered behind others. -/
def refusal? (before : List Rule) (r : Rule) : Option RuleReason :=
  match r.fault? with
  | some reason => some reason
  | none => if before.any (·.id == r.id) then some .duplicateId else none

theorem refusal?_eq_none_iff {before : List Rule} {r : Rule} :
    refusal? before r = none ↔ r.fault? = none ∧ ∀ s ∈ before, s.id ≠ r.id := by
  unfold refusal?
  cases r.fault? with
  | some reason => simp
  | none => simp

namespace Draft

/-- What a draft has when the rules `done` came by. -/
structure Holds (disabled : List Text) (done : List Rule) (d : Draft) : Prop where
  wellFormed : WellFormed done
  seen : ∀ id, id ∈ d.seen ↔ ∃ r ∈ done, r.id = id
  rules : d.rules = done.filter fun r => !disabled.contains r.id
  places : d.places = placesOf d.rules

variable {disabled : List Text}

theorem holds_nil : Holds disabled [] {} :=
  ⟨⟨by simp, List.Pairwise.nil⟩, by simp, rfl, rfl⟩

/-- The ids that came by tell whether a rule can be registered. -/
theorem Holds.register_eq {done : List Rule} {d : Draft} (h : d.Holds disabled done) (r : Rule) :
    d.register disabled r =
      match refusal? done r with
      | some reason => .error (.invalidRule r.id reason)
      | none =>
        if disabled.contains r.id then .ok { d with seen := r.id :: d.seen }
        else .ok ⟨r.id :: d.seen, d.rules ++ [r], (r.id, d.rules.length) :: d.places⟩ := by
  have hseen : d.seen.contains r.id = done.any (·.id == r.id) := by
    rw [Bool.eq_iff_iff]
    simpa using h.seen r.id
  unfold register refusal?
  cases r.fault? with
  | some reason => rfl
  | none =>
    dsimp only
    rw [hseen]
    by_cases hrepeated : done.any (·.id == r.id) = true
    · rw [if_pos hrepeated, if_pos hrepeated]
    · rw [if_neg hrepeated, if_neg hrepeated]

/-- One rule more. -/
theorem Holds.register {done : List Rule} {d d' : Draft} (h : d.Holds disabled done) {r : Rule}
    (hr : d.register disabled r = .ok d') : d'.Holds disabled (done ++ [r]) := by
  rw [h.register_eq] at hr
  cases hrefused : refusal? done r with
  | some reason =>
    rw [hrefused] at hr
    cases hr
  | none =>
    have hgood : WellFormed (done ++ [r]) :=
      wellFormed_append_singleton.2 ⟨h.wellFormed, refusal?_eq_none_iff.1 hrefused⟩
    have hids : ∀ id, id ∈ r.id :: d.seen ↔ ∃ s ∈ done ++ [r], s.id = id := by
      intro id
      simp only [List.mem_cons, h.seen, List.mem_append, List.not_mem_nil, or_false]
      grind
    rw [hrefused] at hr
    have hfilter : (done ++ [r]).filter (fun r => !disabled.contains r.id) =
        d.rules ++ if disabled.contains r.id then [] else [r] := by
      rw [List.filter_append, ← h.rules, List.filter_cons, List.filter_nil]
      cases disabled.contains r.id <;> rfl
    by_cases hdisabled : disabled.contains r.id = true
    · simp only [hdisabled, if_true, Except.ok.injEq] at hr
      subst hr
      rw [if_pos hdisabled, List.append_nil] at hfilter
      exact ⟨hgood, hids, hfilter.symm, h.places⟩
    · simp only [hdisabled, Bool.false_eq_true, if_false, Except.ok.injEq] at hr
      subst hr
      rw [if_neg hdisabled] at hfilter
      refine ⟨hgood, hids, hfilter.symm, ?_⟩
      rw [h.places]
      exact (placesOf_append_singleton d.rules r).symm

/-- All rules of a list, one after the other. -/
theorem Holds.foldlM {rules : List Rule} {done : List Rule} {d d' : Draft}
    (h : d.Holds disabled done)
    (hrules : rules.foldlM (Draft.register disabled) d = .ok d') :
      d'.Holds disabled (done ++ rules) := by
  induction rules generalizing done d with
  | nil =>
    obtain rfl := Except.ok.inj hrules
    simpa using h
  | cons r rest ih =>
    rw [List.foldlM_cons] at hrules
    cases hr : d.register disabled r with
    | error e =>
      rw [hr] at hrules
      cases hrules
    | ok next =>
      rw [hr] at hrules
      simpa using ih (h.register hr) hrules

/-- The pass stops at the first rule that cannot be registered behind those before it. -/
theorem Holds.foldlM_error {rules : List Rule} {done : List Rule} {d : Draft} {e : CatalogError}
    (h : d.Holds disabled done) (hrules : rules.foldlM (Draft.register disabled) d = .error e) :
    ∃ before r after reason, rules = before ++ r :: after ∧ WellFormed (done ++ before) ∧
      refusal? (done ++ before) r = some reason ∧ e = .invalidRule r.id reason := by
  induction rules generalizing done d with
  | nil => cases hrules
  | cons r rest ih =>
    rw [List.foldlM_cons] at hrules
    cases hr : d.register disabled r with
    | error e' =>
      rw [hr] at hrules
      obtain rfl := Except.error.inj hrules
      rw [h.register_eq] at hr
      cases hrefused : refusal? done r with
      | some reason =>
        rw [hrefused] at hr
        exact ⟨[], r, rest, reason, rfl, by simpa using h.wellFormed, by simpa using hrefused,
          (Except.error.inj hr).symm⟩
      | none =>
        rw [hrefused] at hr
        simp only at hr
        split at hr <;> cases hr
    | ok next =>
      rw [hr] at hrules
      obtain ⟨before, s, after, reason, rfl, hbefore, hrefused, rfl⟩ := ih (h.register hr) hrules
      exact ⟨r :: before, s, after, reason, rfl, by simpa using hbefore, by
        simpa using hrefused, rfl⟩

/-- Well-formed rules can all be registered. -/
theorem exists_foldlM {rules : List Rule} (h : WellFormed rules) :
    ∃ d, rules.foldlM (register disabled) {} = .ok d := by
  cases hpass : rules.foldlM (register disabled) {} with
  | ok d => exact ⟨d, rfl⟩
  | error e =>
    obtain ⟨before, r, after, reason, rfl, -, hrefused, -⟩ := holds_nil.foldlM_error hpass
    have hr : WellFormed (before ++ [r]) := by
      refine ⟨fun s hs => h.faultless s ?_, h.distinct.sublist (by simp)⟩
      exact List.Sublist.mem hs (by simp)
    rw [List.nil_append, refusal?_eq_none_iff.2 (wellFormed_append_singleton.1 hr).2] at hrefused
    cases hrefused

end Draft

/-! ## What is built -/

/-- The first of the ids that names no rule. -/
def unknownId? (rules : List Rule) (ids : List Text) : Option Text :=
  ids.find? fun id => !rules.any (·.id == id)

theorem unknownId?_eq_none_iff (rules : List Rule) (ids : List Text) :
    unknownId? rules ids = none ↔ ∀ id ∈ ids, ∃ r ∈ rules, r.id = id := by
  simp [unknownId?, List.find?_eq_none]

/-- What well-formed rules are built into. -/
theorem build_of_wellFormed {rules : List Rule} (h : WellFormed rules) (disabled : List Text) :
    build rules disabled =
      match unknownId? rules disabled with
      | some id => .error (.unknownRule id)
      | none => .ok (ofRules (rules.filter fun r => !disabled.contains r.id)) := by
  obtain ⟨d, hpass⟩ : ∃ d, rules.foldlM (Draft.register disabled) {} = .ok d :=
    Draft.exists_foldlM h
  have hd := Draft.holds_nil.foldlM hpass
  rw [List.nil_append] at hd
  have hseen : (fun id => !d.seen.contains id) = fun id => !rules.any (·.id == id) := by
    funext id
    rw [Bool.not_inj_iff, Bool.eq_iff_iff]
    simpa using hd.seen id
  rw [build, hpass]
  dsimp only
  rw [hseen, hd.places, hd.rules]
  rfl

theorem wellFormed_of_build {rules : List Rule} {disabled : List Text} {c : Catalog}
    (h : build rules disabled = .ok c) : WellFormed rules := by
  unfold build at h
  cases hpass : rules.foldlM (Draft.register disabled) {} with
  | error e =>
    rw [hpass] at h
    cases h
  | ok d => simpa using (Draft.holds_nil.foldlM hpass).wellFormed

/-- **Which catalogs can be built**, and what they hold. -/
theorem build_eq_ok_iff {rules : List Rule} {disabled : List Text} {c : Catalog} :
    build rules disabled = .ok c ↔
      WellFormed rules ∧ (∀ id ∈ disabled, ∃ r ∈ rules, r.id = id) ∧
        c = ofRules (rules.filter fun r => !disabled.contains r.id) := by
  by_cases hgood : WellFormed rules
  · rw [build_of_wellFormed hgood, ← unknownId?_eq_none_iff]
    cases unknownId? rules disabled with
    | some id => simp
    | none =>
      rw [Except.ok.injEq, eq_comm]
      exact ⟨fun hc => ⟨hgood, rfl, hc⟩, fun hc => hc.2.2⟩
  · exact iff_of_false (fun h => hgood (wellFormed_of_build h)) fun h => hgood h.1

/-- A catalog that was built has the rules that are not disabled. -/
theorem rules_of_build {rules : List Rule} {disabled : List Text} {c : Catalog}
    (h : build rules disabled = .ok c) :
    c.rules = rules.filter fun r => !disabled.contains r.id := by
  rw [(build_eq_ok_iff.1 h).2.2]
  rfl

theorem valid_of_build {rules : List Rule} {disabled : List Text} {c : Catalog}
    (h : build rules disabled = .ok c) : c.Valid := by
  obtain ⟨hgood, -, rfl⟩ := build_eq_ok_iff.1 h
  exact ⟨hgood.filter _, rfl⟩

/-! ## Rules and their places -/

/-- The index has the place that the id has in the list. -/
theorem lookup_placesOf {rules : List Rule} (h : rules.Pairwise fun r s => r.id ≠ s.id)
    (id : Text) :
    (placesOf rules).lookup id = rules.findIdx? (·.id == id) := by
  induction rules using List.reverseRecOn with
  | nil => rfl
  | append_singleton rules r ih =>
    obtain ⟨hrules, -, hr⟩ := List.pairwise_append.1 h
    rw [placesOf_append_singleton, List.lookup_cons, ih hrules, List.findIdx?_append]
    by_cases hid : r.id = id
    · subst hid
      have hnone : rules.findIdx? (·.id == r.id) = none :=
        List.findIdx?_eq_none_iff.2 fun s hs => by simpa using hr s hs r List.mem_cons_self
      simp [hnone, List.findIdx?_cons]
    · have hfalse : (id == r.id) = false := by simpa using Ne.symm hid
      have hfalse' : (r.id == id) = false := by simpa using hid
      simp [hfalse, hfalse', List.findIdx?_cons]

theorem Valid.index?_eq {c : Catalog} (h : c.Valid) (id : Text) :
    c.index? id = c.rules.findIdx? (·.id == id) := by
  rw [index?, h.placed, lookup_placesOf h.distinct]

theorem findIdx?_id_eq {rules : List Rule} (h : rules.Pairwise fun r s => r.id ≠ s.id) {i : Nat}
    {r : Rule} (hr : rules[i]? = some r) : rules.findIdx? (·.id == r.id) = some i := by
  obtain ⟨hlt, hget⟩ := List.getElem?_eq_some_iff.1 hr
  refine List.findIdx?_eq_some_iff_getElem.2 ⟨hlt, by simp [hget], fun j hj => ?_⟩
  have := List.pairwise_iff_getElem.1 h j i (by omega) hlt hj
  rw [hget] at this
  simpa using this

theorem Valid.index?_of_getElem? {c : Catalog} (h : c.Valid) {i : Nat} {r : Rule}
    (hr : c.rules[i]? = some r) : c.index? r.id = some i := by
  rw [h.index?_eq, findIdx?_id_eq h.distinct hr]

theorem Valid.indexOf_eq {c : Catalog} (h : c.Valid) {i : Nat} {r : Rule}
    (hr : c.rules[i]? = some r) : c.indexOf r.id = i := by
  rw [indexOf, h.index?_of_getElem? hr]

/-- A rule is found from its id. -/
theorem Valid.lookup?_eq {c : Catalog} (h : c.Valid) {r : Rule} (hr : r ∈ c.rules) :
    c.lookup? r.id = some r := by
  obtain ⟨i, hi⟩ := List.mem_iff_getElem?.1 hr
  rw [lookup?, h.index?_of_getElem? hi]
  exact hi

/-- Only one rule of a list has an id. -/
theorem WellFormed.eq_of_id_eq {rules : List Rule} (h : WellFormed rules) {r s : Rule}
    (hr : r ∈ rules) (hs : s ∈ rules) (hid : r.id = s.id) : r = s := by
  have hvalid : (ofRules rules).Valid := ⟨h, rfl⟩
  have hfound := hvalid.lookup?_eq hr
  rw [hid, hvalid.lookup?_eq hs] at hfound
  exact (Option.some.inj hfound).symm

/-- Distinct rules have distinct places. -/
theorem Valid.indexOf_ne {c : Catalog} (h : c.Valid) {r s : Rule} (hr : r ∈ c.rules)
    (hs : s ∈ c.rules) (hne : r.id ≠ s.id) : c.indexOf r.id ≠ c.indexOf s.id := by
  obtain ⟨i, hi⟩ := List.mem_iff_getElem?.1 hr
  obtain ⟨j, hj⟩ := List.mem_iff_getElem?.1 hs
  rw [h.indexOf_eq hi, h.indexOf_eq hj]
  intro heq
  obtain rfl : i = j := by omega
  rw [hi] at hj
  obtain rfl := Option.some.inj hj
  exact hne rfl

end Catalog
end CodeAudit
