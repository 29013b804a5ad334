import CodeAudit.Rule.Basic

/-!
# Catalogs

A catalog is a list of well-formed rules with distinct ids, in registration order, with an index of
their places. Rules may be left out by id when it is built; the ids of those must exist too.

* `Catalog.Draft.register`: takes one rule into a catalog, its id and its place.
* `Catalog.build`: the catalog of a list of rules without the disabled ones, or the first error.
* `Catalog.index?`, `Catalog.lookup?`: the place of a rule and the rule, by id.
* `Catalog.describe`: the rules for a language as shown to readers.
-/
namespace CodeAudit

/-- Why a catalog cannot be built. -/
inductive CatalogError where
  | invalidRule (id : Text) (reason : RuleReason)
  | unknownRule (id : Text)
  deriving DecidableEq, Repr

def CatalogError.message : CatalogError → Text
  | invalidRule id reason => "rule " ++ id.quote ++ ": " ++ reason.message
  | unknownRule id => "disabling rule " ++ id.quote ++ ": unknown rule"

/-- Rules in registration order, and the place of each by its id. -/
structure Catalog where
  rules : List Rule
  places : List (Text × Nat)

/-- A rule as shown to readers. -/
structure RuleEntry where
  id : Text
  category : Text
  type : Text
  severity : Severity
  languages : List Language
  matcher : Text
  description : Text
  recommendation : Text
  deriving DecidableEq, Repr

def Rule.entry (r : Rule) : RuleEntry where
  id := r.id
  category := r.category.code
  type := r.type
  severity := r.severity
  languages := r.languages
  matcher := r.matcher.kind.name
  description := r.description
  recommendation := r.recommendation

namespace Catalog

/-- A catalog while it is built: the ids that came by, disabled or not, with the rules that are kept
and their places. -/
structure Draft where
  seen : List Text := []
  rules : List Rule := []
  places : List (Text × Nat) := []

/-- Takes the next rule. One that is disabled is checked and left out. -/
def Draft.register (disabled : List Text) (d : Draft) (r : Rule) : Except CatalogError Draft :=
  match r.fault? with
  | some reason => .error (.invalidRule r.id reason)
  | none =>
    if d.seen.contains r.id then .error (.invalidRule r.id .duplicateId)
    else if disabled.contains r.id then .ok { d with seen := r.id :: d.seen }
    else .ok {
      seen := r.id :: d.seen
      rules := d.rules ++ [r]
      places := (r.id, d.rules.length) :: d.places }

/-- The catalog of the rules without those whose ids are disabled. -/
def build (rules : List Rule) (disabled : List Text) : Except CatalogError Catalog :=
  match rules.foldlM (Draft.register disabled) {} with
  | .error e => .error e
  | .ok d =>
    match disabled.find? fun id => !d.seen.contains id with
    | some id => .error (.unknownRule id)
    | none => .ok ⟨d.rules, d.places⟩

def rulesFor (c : Catalog) (l : Language) : List Rule := c.rules.filter (·.appliesTo l)

/-- The place of the rule with an id. -/
def index? (c : Catalog) (id : Text) : Option Nat := c.places.lookup id

/-- The rule with an id: the one at its place. -/
def lookup? (c : Catalog) (id : Text) : Option Rule := (c.index? id).bind (c.rules[·]?)

/-- The place of the rule with an id, `-1` when there is none. -/
def indexOf (c : Catalog) (id : Text) : Int :=
  match c.index? id with
  | some i => i
  | none => -1

/-- The entries of the rules for a language; of all rules for the empty label. -/
def describe (c : Catalog) (l : Language) : List RuleEntry :=
  let rules := if l.label.isEmpty then c.rules else c.rulesFor l
  rules.map Rule.entry

end Catalog
end CodeAudit
