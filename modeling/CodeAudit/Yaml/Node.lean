import CodeAudit.Yaml.Token

/-!
# YAML documents as trees

The first document of a text as a tree of scalars, sequences, mappings and references. Reading stops
behind that document.

* `Document`: a tree and its named nodes.
* `Document.ofTokens?`: the document that tokens spell out.
* `Document.read`: the first document of a text; none for a text without one.
-/
namespace CodeAudit.Yaml

/-- A node with the line on which it begins, counted from one. The tag of a node is empty when none
is written. A reference holds the number of the named node it stands for, and a number of its
own. -/
inductive Node where
  | scalar (tag : Text) (value : Text) (isPlain : Bool) (line : Nat)
  | sequence (tag : Text) (items : List Node) (line : Nat)
  | mapping (tag : Text) (pairs : List (Node × Node)) (line : Nat)
  | reference (name : Text) (target number : Nat) (line : Nat)
  deriving Repr, Inhabited

namespace Node

def line : Node → Nat
  | .scalar _ _ _ n => n
  | .sequence _ _ n => n
  | .mapping _ _ n => n
  | .reference _ _ _ n => n

def empty (line : Nat) : Node := .scalar [] [] true (line + 1)

end Node

/-- A document: its tree, its named nodes by their numbers, and how many tokens it was read from. -/
structure Document where
  root : Node
  named : List (Nat × Node)
  size : Nat
  deriving Repr

/-- What is left to read, the shorthands for tags, the names with the numbers they stand for, newest
first, and the named nodes that are finished. -/
structure Reading where
  left : List Token
  shorthands : List (Text × Text)
  names : List (Text × Nat)
  named : List (Nat × Node)
  deriving Repr

abbrev Read (α : Type) := StateT Reading (Except Fault) α

namespace Read

/-- A fault in the structure: the line where a piece began, or where the trouble is. -/
def structureFault (began trouble : Nat) (problem : Text) : Fault :=
  ⟨problem, if began != 0 then some began else if trouble != 0 then some trouble else none⟩

def peek : Read Token := do
  match (← get).left with
  | [] => return ⟨.streamEnd, 0, 0⟩
  | t :: _ =>
    match t.kind with
    | .fault f => throw f
    | _ => return t

/-- Passes over a token. -/
def skip : Read Unit := modify fun r => { r with left := r.left.tail }

/-- Gives a node a name, if it has one, and tells its number. The name counts inside the node
already. -/
def announce (name : Option Text) : Read (Option Nat) := do
  match name with
  | some x =>
    let number := (← get).names.length
    modify fun r => { r with names := (x, number) :: r.names }
    return some number
  | none => return none

/-- Says which node a number stands for. -/
def settle (number : Option Nat) (n : Node) : Read Node := do
  match number with
  | some k => modify fun r => { r with named := (k, n) :: r.named }
  | none => pure ()
  return n

def fullTag (began line : Nat) (handle suffix : Text) : Read Text := do
  if handle.isEmpty then return suffix
  match (← get).shorthands.lookup handle with
  | some expansion => return expansion ++ suffix
  | none => throw (structureFault began line "found undefined tag handle")

/-- The anchor and the tag before a node, in either order, and the line of the first of them. -/
def properties : Read (Option Text × Text × Option Nat) := do
  let t ← peek
  match t.kind with
  | .anchor name =>
    skip
    let u ← peek
    match u.kind with
    | .tag h s =>
      skip
      let _ ← peek
      return (some name, ← fullTag t.start u.start h s, some t.start)
    | _ => return (some name, [], some t.start)
  | .tag h s =>
    skip
    let u ← peek
    match u.kind with
    | .anchor name =>
      skip
      let _ ← peek
      return (some name, ← fullTag t.start t.start h s, some t.start)
    | _ => return (none, ← fullTag t.start t.start h s, some t.start)
  | _ => return (none, [], none)

/-- An anchor or a tag alone is an empty scalar; with neither there is no node. -/
def bareNode (name : Option Text) (tag : Text) (began : Option Nat) (line : Nat) (t : Token) : Read Node := do
  if name.isSome || !tag.isEmpty then
    settle (← announce name) (.scalar tag [] true line)
  else throw (structureFault (began.getD t.start) t.start "did not find expected node content")

mutual

/-- The node at the next token. Blocks can begin only where `inBlock` holds, and the items of a
sequence may stand at the indentation of their key where `unindented` holds. -/
def node (inBlock unindented : Bool) : Nat → Read Node
  | 0 => throw (.bare "exceeded max depth")
  | fuel + 1 => do
    let t ← peek
    match t.kind with
    | .reference name =>
      skip
      let r ← get
      match r.names.lookup name with
      | some target => return .reference name target r.left.length (t.start + 1)
      | none => throw (.bare ("unknown anchor '" ++ name ++ "' referenced"))
    | _ =>
      let (name, tag, began) ← properties
      let t ← peek
      let line := (began.getD t.start) + 1
      match t.kind with
      | .scalar s isPlain =>
        skip
        settle (← announce name) (.scalar tag s isPlain line)
      | .flowSequenceStart =>
        skip
        let number ← announce name
        settle number (.sequence tag (← flowItems t.start true fuel) line)
      | .flowMappingStart =>
        skip
        let number ← announce name
        settle number (.mapping tag (← flowPairs t.start true fuel) line)
      | .blockEntry =>
        if unindented then
          let number ← announce name
          settle number (.sequence tag (← looseItems fuel) line)
        else bareNode name tag began line t
      | .sequenceStart =>
        if inBlock then
          skip
          let number ← announce name
          settle number (.sequence tag (← blockItems t.start fuel) line)
        else bareNode name tag began line t
      | .mappingStart =>
        if inBlock then
          skip
          let number ← announce name
          settle number (.mapping tag (← blockPairs t.start fuel) line)
        else bareNode name tag began line t
      | _ => bareNode name tag began line t
termination_by structural fuel => fuel

def blockItems (began : Nat) : Nat → Read (List Node)
  | 0 => throw (.bare "exceeded max depth")
  | fuel + 1 => do
    let t ← peek
    match t.kind with
    | .blockEntry =>
      skip
      let u ← peek
      let n ← match u.kind with
        | .blockEntry | .blockEnd => pure (Node.empty t.stop)
        | _ => node true false fuel
      return n :: (← blockItems began fuel)
    | .blockEnd =>
      skip
      return []
    | _ => throw (structureFault began t.start "did not find expected '-' indicator")
termination_by structural fuel => fuel

/-- The items of a sequence at the indentation of its key. -/
def looseItems : Nat → Read (List Node)
  | 0 => throw (.bare "exceeded max depth")
  | fuel + 1 => do
    let t ← peek
    match t.kind with
    | .blockEntry =>
      skip
      let u ← peek
      let n ← match u.kind with
        | .blockEntry | .key | .value | .blockEnd => pure (Node.empty t.stop)
        | _ => node true false fuel
      return n :: (← looseItems fuel)
    | _ => return []
termination_by structural fuel => fuel

def blockPairs (began : Nat) : Nat → Read (List (Node × Node))
  | 0 => throw (.bare "exceeded max depth")
  | fuel + 1 => do
    let t ← peek
    match t.kind with
    | .key =>
      skip
      let u ← peek
      let k ← match u.kind with
        | .key | .value | .blockEnd => pure (Node.empty t.stop)
        | _ => node true true fuel
      let v ← blockValue fuel
      return (k, v) :: (← blockPairs began fuel)
    | .blockEnd =>
      skip
      return []
    | _ => throw (structureFault began t.start "did not find expected key")
termination_by structural fuel => fuel

/-- The value behind a key of a block mapping. -/
def blockValue : Nat → Read Node
  | 0 => throw (.bare "exceeded max depth")
  | fuel + 1 => do
    let t ← peek
    match t.kind with
    | .value =>
      skip
      let u ← peek
      match u.kind with
      | .key | .value | .blockEnd => return .empty t.stop
      | _ => node true true fuel
    | _ => return .empty t.start
termination_by structural fuel => fuel

/-- The items of a flow sequence. A pair in it is a mapping of its own. -/
def flowItems (began : Nat) (isFirst : Bool) : Nat → Read (List Node)
  | 0 => throw (.bare "exceeded max depth")
  | fuel + 1 => do
    let t ← peek
    if t.kind == .flowSequenceEnd then
      skip
      return []
    if !isFirst then
      if t.kind == .flowEntry then skip
      else throw (structureFault began t.start "did not find expected ',' or ']'")
    let t ← peek
    match t.kind with
    | .flowSequenceEnd =>
      skip
      return []
    | .key =>
      skip
      let k ← loneKey fuel
      let v ← loneValue fuel
      return .mapping [] [(k, v)] (t.start + 1) :: (← flowItems began false fuel)
    | _ =>
      let n ← node false false fuel
      return n :: (← flowItems began false fuel)
termination_by structural fuel => fuel

/-- The key of a pair in a flow sequence. A colon directly behind its mark is passed over. -/
def loneKey : Nat → Read Node
  | 0 => throw (.bare "exceeded max depth")
  | fuel + 1 => do
    let t ← peek
    match t.kind with
    | .value | .flowEntry | .flowSequenceEnd =>
      skip
      return .empty t.stop
    | _ => node false false fuel
termination_by structural fuel => fuel

/-- The value of a pair in a flow sequence. -/
def loneValue : Nat → Read Node
  | 0 => throw (.bare "exceeded max depth")
  | fuel + 1 => do
    let t ← peek
    match t.kind with
    | .value =>
      skip
      let u ← peek
      match u.kind with
      | .flowEntry | .flowSequenceEnd => return .empty u.start
      | _ => node false false fuel
    | _ => return .empty t.start
termination_by structural fuel => fuel

def flowPairs (began : Nat) (isFirst : Bool) : Nat → Read (List (Node × Node))
  | 0 => throw (.bare "exceeded max depth")
  | fuel + 1 => do
    let t ← peek
    if t.kind == .flowMappingEnd then
      skip
      return []
    if !isFirst then
      if t.kind == .flowEntry then skip
      else throw (structureFault began t.start "did not find expected ',' or '\x7d'")
    let t ← peek
    match t.kind with
    | .flowMappingEnd =>
      skip
      return []
    | .key =>
      skip
      let u ← peek
      let k ← match u.kind with
        | .value | .flowEntry | .flowMappingEnd => pure (Node.empty u.start)
        | _ => node false false fuel
      let v ← flowValue fuel
      return (k, v) :: (← flowPairs began false fuel)
    | _ =>
      let k ← node false false fuel
      let u ← peek
      return (k, .empty u.start) :: (← flowPairs began false fuel)
termination_by structural fuel => fuel

/-- The value behind a key of a flow mapping. -/
def flowValue : Nat → Read Node
  | 0 => throw (.bare "exceeded max depth")
  | fuel + 1 => do
    let t ← peek
    match t.kind with
    | .value =>
      skip
      let u ← peek
      match u.kind with
      | .flowEntry | .flowMappingEnd => return .empty u.start
      | _ => node false false fuel
    | _ => return .empty t.start
termination_by structural fuel => fuel

end

/-- The directives before a document: one version at most, and each shorthand once. -/
def directives (seenVersion : Bool) : Nat → Read Unit
  | 0 => return ()
  | fuel + 1 => do
    let t ← peek
    match t.kind with
    | .version major minor =>
      if seenVersion then throw (structureFault 0 t.start "found duplicate %YAML directive")
      if major != 1 || minor != 1 then throw (structureFault 0 t.start "found incompatible YAML document")
      skip
      directives true fuel
    | .tagShorthand handle expansion =>
      if ((← get).shorthands.lookup handle).isSome then
        throw (structureFault 0 t.start "found duplicate %TAG directive")
      modify fun r => { r with shorthands := r.shorthands ++ [(handle, expansion)] }
      skip
      directives seenVersion fuel
    | _ => return ()

/-- The shorthands that need no directive. -/
def defaultShorthands : List (Text × Text) := [("!", "!"), ("!!", "tag:yaml.org,2002:")]

/-- Adds the shorthands that need no directive, behind the given ones. -/
def withDefaults : Read Unit := modify fun r => { r with shorthands := r.shorthands ++ defaultShorthands }

/-- The first document, and the token behind it. -/
def document (size : Nat) : Read (Option Node) := do
  let t ← peek
  match t.kind with
  | .streamEnd => return none
  | .version .. | .tagShorthand .. | .documentStart =>
    directives false size
    withDefaults
    let t ← peek
    if t.kind != .documentStart then
      throw (structureFault 0 t.start "did not find expected <document start>")
    skip
    let t ← peek
    let n ← match t.kind with
      | .version .. | .tagShorthand .. | .documentStart | .documentEnd | .streamEnd =>
        pure (Node.empty t.start)
      | _ => node true false size
    let _ ← peek
    return some n
  | _ =>
    withDefaults
    let n ← node true false size
    let _ ← peek
    return some n

end Read

def Document.ofTokens? (ts : List Token) : Except Fault (Option Document) :=
  match Read.document (4 * ts.length + 8) ⟨ts, [], [], []⟩ with
  | .ok (some n, r) => .ok (some ⟨n, r.named, ts.length⟩)
  | .ok (none, _) => .ok none
  | .error f => .error f

/-- The first document of a text. -/
def Document.read (t : Text) : Except Fault (Option Document) := Document.ofTokens? (tokens (decode t))

end CodeAudit.Yaml
