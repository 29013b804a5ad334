import CodeAudit.Duration
import CodeAudit.Yaml.Value

/-!
# Filling records from YAML trees

Reading a tree over a record of defaults. A value of the wrong kind is noted and leaves the default;
the notes are collected, so that all of them can be reported together. A key that the record lacks
is noted too. Null leaves every default but that of a list.

* `Filling`: a step that may note mismatches, or end with a fault; `Filling.run` takes all steps.
* `Filling.visit`: the step of looking at a node, which follows references.
* `Filling.text`, `Filling.int`, `Filling.bool`, `Filling.duration`, `Filling.texts`: the kinds of
  fields.
* `Filling.record`: the fields of a record from a mapping.
-/
namespace CodeAudit.Yaml

/-- How far filling in has come: the mismatches noted, the numbers of the references being followed,
and how many nodes were visited, in all and behind references. -/
structure Progress where
  notes : List Text := []
  following : List Nat := []
  visits : Nat := 0
  borrowed : Nat := 0
  deriving Repr

/-- Whether nearly all visits are behind references. The more visits there are, the smaller the
share of such visits must be: 99 of 100 up to 400000 visits, falling evenly to 10 of 100 at 4000000
visits. -/
def Progress.isExcessive (p : Progress) : Bool :=
  let surplus := min (p.visits - 400000) 3600000
  100 < p.borrowed && 1000 < p.visits
    && p.visits * (99 * 3600000 - 89 * surplus) < p.borrowed * 360000000

abbrev Filling (α : Type) := ReaderT Document (StateT Progress (Except Fault)) α

namespace Filling

def note (t : Text) : Filling Unit := modify fun p => { p with notes := p.notes ++ [t] }

/-- The start of a note: the line it is about. -/
def onLine (n : Nat) : Text := utf8 "line " ++ Text.ofInt n ++ ": "

/-- A value as a note shows it: cut short when it is long. -/
def excerpt (t : Text) : Text :=
  if t.length > 10 then utf8 " \x60" ++ t.take 7 ++ utf8 "...\x60" else utf8 " \x60" ++ t ++ utf8 "\x60"

/-- The text of a scalar, and nothing for a collection. -/
def valueText : Node → Text
  | .scalar _ v _ _ => v
  | .reference name _ _ _ => name
  | _ => []

/-- Notes that a node cannot be of a type. -/
def mismatch (n : Node) (type : Text) : Filling Unit :=
  let tag := n.kindTag
  let shown := if tag == utf8 "!!seq" || tag == utf8 "!!map" then valueText n else excerpt (valueText n)
  note (onLine n.line ++ "cannot unmarshal " ++ tag ++ shown ++ " into " ++ type)

def count : Filling Unit := do
  modify fun p => { p with
    visits := p.visits + 1
    borrowed := if p.following.isEmpty then p.borrowed else p.borrowed + 1 }
  if (← get).isExcessive then throw (.bare "document contains excessive aliasing")

def named (number : Nat) : Filling Node := do return ((← read).named.lookup number).getD (.empty 0)

/-- Visits a node. A reference is followed to the node it stands for, but not while it is being
followed. -/
def visit {α : Type} (n : Node) (body : Node → Filling α) : Filling α := do
  count
  match n with
  | .reference name target number _ =>
    if (← get).following.contains number then
      throw (.bare ("anchor '" ++ name ++ "' value contains itself"))
    modify fun p => { p with following := number :: p.following }
    count
    let a ← body (← named target)
    modify fun p => { p with following := p.following.tail }
    return a
  | _ => body n

/-- Whether two keys count as the same: scalars with one text, references to one name, and any two
sequences or mappings. -/
def sameKey : Node → Node → Bool
  | .scalar _ v _ _, .scalar _ w _ _ => v == w
  | .sequence .., .sequence .. => true
  | .mapping .., .mapping .. => true
  | .reference a _ _ _, .reference b _ _ _ => a == b
  | _, _ => false

/-- Notes the keys of a mapping that occur before. -/
def noteRepeated : List Node → Filling Unit
  | [] => return ()
  | k :: ks => do
    for m in ks do
      if sameKey k m then
        note (onLine m.line ++ "mapping key " ++ Text.quote (valueText m) ++ " already defined at line "
          ++ Text.ofInt k.line)
    noteRepeated ks

/-- Whether the keys of a mapping differ; those that do not are noted. -/
def distinct (pairs : List (Node × Node)) : Filling Bool := do
  let before := (← get).notes.length
  noteRepeated (pairs.map Prod.fst)
  return (← get).notes.length == before

/-- What a node holds for a field: the text it is written as and its meaning. Anything but a scalar
is noted as a mismatch. -/
def scalar? (type : Text) (n : Node) : Filling (Option (Text × Value)) := do
  match n with
  | .scalar _ v _ _ => return some (v, ← interpret n.kindTag v)
  | .sequence .. =>
    mismatch n type
    return none
  | .mapping _ pairs _ =>
    if ← distinct pairs then mismatch n type
    return none
  | .reference .. => return none

/-- The text a node holds: any scalar but null, as it is written. -/
def textOf (n : Node) : Filling (Option Text) := visit n fun n => do
  match ← scalar? "string" n with
  | none => return none
  | some (_, .null) => return none
  | some (v, .text t) => return some (if n.kindTag == utf8 "!!binary" then t else v)
  | some (v, _) => return some v

/-- A text field over its default. -/
def text (n : Node) (old : Text) : Filling Text := do return (← textOf n).getD old

/-- The word that the whole part of a number is converted to; beyond the range it is the least
word. -/
def wordOf (whole : Int) : Int := if fitsWord whole then whole else minWord

/-- An integer field. A number with a fraction loses it. -/
def int (type : Text) (n : Node) (old : Int) : Filling Int := visit n fun n => do
  match ← scalar? type n with
  | none => return old
  | some (_, meaning) =>
    match meaning with
    | .null => return old
    | .int k =>
      if k ≤ maxWord then return k
      mismatch n type
      return old
    | .float (some whole) =>
      if whole ≤ maxWord + 1 then return wordOf whole
      mismatch n type
      return old
    | _ =>
      mismatch n type
      return old

/-- A field that is true or false; some words stand for these as well. -/
def bool (n : Node) (old : Bool) : Filling Bool := visit n fun n => do
  match ← scalar? "bool" n with
  | none => return old
  | some (_, meaning) =>
    match meaning with
    | .null => return old
    | .bool b => return b
    | .text t =>
      let among (ws : List String) := ws.any fun w => utf8 w == t
      if among ["y", "Y", "yes", "on"] then return true
      if among ["n", "N", "no", "off"] then return false
      mismatch n "bool"
      return old
    | _ =>
      mismatch n "bool"
      return old

/-- A duration, which is written as a text with units. -/
def duration (n : Node) (old : Int) : Filling Int := visit n fun n => do
  match ← scalar? "time.Duration" n with
  | none => return old
  | some (_, meaning) =>
    match meaning with
    | .null => return old
    | .text t =>
      match Duration.parse t with
      | .ok d => return d
      | .error _ =>
        mismatch n "time.Duration"
        return old
    | _ =>
      mismatch n "time.Duration"
      return old

/-- A list of texts. Null is the absent list, and null items are left out. -/
def texts (n : Node) (old : Option (List Text)) : Filling (Option (List Text)) := visit n fun n => do
  match n with
  | .sequence _ items _ => return some ((← items.mapM textOf).filterMap id)
  | _ =>
    match ← scalar? "[]string" n with
    | none => return old
    | some (_, .null) => return none
    | some _ =>
      mismatch n "[]string"
      return old

/-- A field of a record: its name and how a node fills it. -/
structure Slot (σ : Type) where
  name : Text
  fill : Node → σ → Filling σ

/-- Whether a key merges another mapping into its own. -/
def isMerge (k : Node) : Bool :=
  match k with
  | .scalar _ v _ _ => v == utf8 "<<" && k.kindTag == utf8 "!!merge"
  | _ => false

/-- What has been filled in: the record, and the fields that a mapping to be merged must leave. -/
structure Filled (σ : Type) where
  record : σ
  taken : Option (List Text)

/-- Fills the fields that the pairs of a mapping name. `done` are the fields that this mapping has
set. -/
def fields {σ : Type} (type : Text) (slots : List (Slot σ)) :
    List Text → List (Node × Node) → Filled σ → Filling (Filled σ)
  | _, [], s => return s
  | done, (k, v) :: rest, s => do
    if isMerge k then fields type slots done rest s
    else match ← textOf k with
      | none => fields type slots done rest s
      | some name =>
        if s.taken.any (·.contains name) then fields type slots done rest s
        else
          let s := { s with taken := s.taken.map (name :: ·) }
          match slots.find? (·.name == name) with
          | none =>
            note (onLine k.line ++ "field " ++ name ++ " not found in type " ++ type)
            fields type slots done rest s
          | some slot =>
            if done.contains name then
              note (onLine k.line ++ "field " ++ name ++ " already set in type " ++ type)
              fields type slots done rest s
            else
              let r ← slot.fill v s.record
              fields type slots (name :: done) rest { s with record := r }

/-- The texts among the keys of a mapping. A key that means something else, such as a number, is
none. -/
def keyTexts (pairs : List (Node × Node)) : Filling (List Text) := do
  let found ← pairs.mapM fun p => visit p.1 fun k => do
    match k with
    | .scalar _ v _ _ =>
      match ← interpret k.kindTag v with
      | .text t => return some t
      | _ => return none
    | _ => return none
  return found.filterMap id

/-- The nodes that a merge key brings in. -/
def mergeSources (n : Node) : List Node :=
  match n with
  | .sequence _ items _ => items
  | _ => [n]

/-- Visits a node that is merged, which must be a mapping. -/
def visitMapping {α : Type} (n : Node) (body : List (Node × Node) → Filling α) : Filling α := do
  let wanted : Fault := .bare "map merge requires map or sequence of maps as the value"
  let m ← match n with
    | .reference _ target _ _ => named target
    | _ => pure n
  match m with
  | .mapping .. => visit n fun n => match n with
    | .mapping _ pairs _ => body pairs
    | _ => throw wanted
  | _ => throw wanted

/-- Fills a record from a mapping and then from the mappings it merges, to a depth of `fuel`
merges. -/
def mappingFields {σ : Type} (type : Text) (slots : List (Slot σ)) :
    Nat → List (Node × Node) → Filled σ → Filling (Filled σ)
  | 0, _, s => return s
  | fuel + 1, pairs, s => do
    if !(← distinct pairs) then return s
    let s ← fields type slots [] pairs s
    match (pairs.filter fun p => isMerge p.1).getLast? with
    | none => return s
    | some (_, source) =>
      let taken ← match s.taken with
        | some names => pure names
        | none => keyTexts pairs
      let merged ← (mergeSources source).foldlM
        (fun s m => visitMapping m fun ps => mappingFields type slots fuel ps s) { s with taken := some taken }
      return { merged with taken := s.taken }

/-- A record from a mapping, over its defaults. Merges go at most as deep as the tokens of the
document, once for each of its references. -/
def record {σ : Type} (type : Text) (slots : List (Slot σ)) (n : Node) (old : σ) : Filling σ :=
  visit n fun n => do
    match n with
    | .mapping _ pairs _ =>
      let size := (← read).size + 1
      return (← mappingFields type slots (size * size) pairs ⟨old, none⟩).record
    | .scalar _ v _ _ =>
      match ← interpret n.kindTag v with
      | .null => return old
      | _ =>
        mismatch n type
        return old
    | _ =>
      mismatch n type
      return old

/-- What a document gives a record over its defaults, and the mismatches. -/
def run {α : Type} (d : Document) (fill : Node → Filling α) : Except Fault (α × List Text) := do
  let (a, p) ← (do count; fill d.root : Filling α) d {}
  return (a, p.notes)

/-- A field of a record that is reached by `get` and set by `put`. -/
def slot {σ α : Type} (name : Text) (get : σ → α) (put : σ → α → σ) (fill : Node → α → Filling α) : Slot σ :=
  ⟨name, fun n s => do return put s (← fill n (get s))⟩

end Filling
end CodeAudit.Yaml
