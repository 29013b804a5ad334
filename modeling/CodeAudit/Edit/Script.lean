import CodeAudit.Edit.Middle

/-!
# Finding a script

The script between two lists is found by cutting off what they share at their ends, splitting what
is left, and joining the parts. A grain says how the items compared are shown in the script: a text
is compared by code points and shown in bytes.

* `Grain.tidy`: joins neighbouring steps, and moves steps sideways to get rid of short equal runs.
* `Grain.script`: a script between two lists.
-/
namespace CodeAudit

/-- How compared items `α` are shown as items `β`. -/
structure Grain (α β : Type) where
  /-- Shows a run. -/
  render : List α → List β
  /-- Brings a shown run into regular form. -/
  normalize : List β → List β
  /-- How much of two shown runs may be cut off at their starts. -/
  sharedPrefix : List β → List β → Nat
  /-- How much of two shown runs may be cut off at their ends. -/
  sharedSuffix : List β → List β → Nat

/-- Items shown as they are. -/
def Grain.plain (α : Type) [DecidableEq α] : Grain α α where
  render := id
  normalize := id
  sharedPrefix := commonPrefix
  sharedSuffix := commonSuffix

/-- The changes since the last equal run: how many steps of each kind, and their items. -/
structure Pending (β : Type) where
  removals : Nat := 0
  additions : Nat := 0
  removed : List β := []
  added : List β := []
  /-- The steps themselves, last first. -/
  steps : List (Edit β) := []

/-- Adds items to the last step of a list that is written last first, if it is an equal run; else
adds an equal run. -/
def extendEqual {β : Type} (items : List β) : List (Edit β) → List (Edit β)
  | [] => [.equal items]
  | e :: done => if e.isEqual then .equal (e.items ++ items) :: done else .equal items :: e :: done

namespace Grain

variable {α β : Type} (g : Grain α β)

/-- Adds a change. -/
def defer (p : Pending β) (e : Edit β) : Pending β :=
  match e.kind with
  | .added =>
    { p with additions := p.additions + 1, added := p.added ++ g.normalize e.items, steps := e :: p.steps }
  | _ =>
    { p with removals := p.removals + 1, removed := p.removed ++ g.normalize e.items, steps := e :: p.steps }

/-- Puts pending changes and the equal run after them on top of the steps before, all last step
first. Several changes become one removal and one addition, without what these share. -/
def settle (done : List (Edit β)) (p : Pending β) (equal : List β) : List (Edit β) :=
  if p.removals + p.additions ≤ 1 then
    match p.steps with
    | [] =>
      match done with
      | e :: rest => if e.isEqual then .equal (e.items ++ equal) :: rest else .equal equal :: done
      | [] => [.equal equal]
    | steps => .equal equal :: (steps ++ done)
  else if p.removals = 0 then .equal equal :: .added p.added :: done
  else if p.additions = 0 then .equal equal :: .removed p.removed :: done
  else
    let n := g.sharedPrefix p.added p.removed
    let done := if n = 0 then done else extendEqual (p.added.take n) done
    let added := p.added.drop n
    let removed := p.removed.drop n
    let m := g.sharedSuffix added removed
    .equal (added.drop (added.length - m) ++ equal) :: .added (added.take (added.length - m))
      :: .removed (removed.take (removed.length - m)) :: done

/-- Joins neighbouring steps; `done` holds the steps before, last first. -/
def gather : List (Edit β) → Pending β → List (Edit β) → List (Edit β)
  | done, p, [] => g.settle done p []
  | done, p, e :: rest =>
    if e.isEqual then gather (g.settle done p e.items) {} rest else gather done (g.defer p e) rest

/-- The steps in order, without an empty last one. -/
def finish : List (Edit β) → List (Edit β)
  | [] => []
  | e :: done => if e.items.isEmpty then done.reverse else (e :: done).reverse

variable [DecidableEq β]

/-- Moves a change that stands between two equal runs over one of them, where its items allow that;
`done` holds the steps before, last first. Also says whether anything was moved. -/
def shift : List (Edit β) → List (Edit β) → List (Edit β) × Bool
  | e :: done, c :: f :: rest =>
    if e.isEqual && f.isEqual then
      if commonSuffix c.items e.items == e.items.length then
        let c' : Edit β := ⟨c.kind, e.items ++ c.items.take (c.items.length - e.items.length)⟩
        ((shift (.equal (e.items ++ f.items) :: c' :: done) rest).1, true)
      else if startsWithList c.items f.items then
        let c' : Edit β := ⟨c.kind, c.items.drop f.items.length ++ f.items⟩
        ((shift (c' :: .equal (e.items ++ f.items) :: done) rest).1, true)
      else shift (c :: e :: done) (f :: rest)
    else shift (c :: e :: done) (f :: rest)
  | [], c :: rest => shift [c] rest
  | done, rest => (done.reverse ++ rest, false)
termination_by _ rest => rest.length

/-- Joins and moves steps until nothing moves. -/
def tidyFor : Nat → List (Edit β) → List (Edit β)
  | 0, script => script
  | fuel + 1, script =>
    let (moved, changed) := shift [] (finish (g.gather [] {} script))
    if changed then tidyFor fuel moved else moved

/-- Joins neighbouring steps, and moves steps sideways to get rid of short equal runs. -/
def tidy (script : List (Edit β)) : List (Edit β) :=
  g.tidyFor ((script.flatMap (·.items)).length + script.length + 2) script

variable [DecidableEq α]

/-- The script when the shorter list stands inside the longer one. -/
def inside? (a b : List α) : Option (List (Edit β)) :=
  if b.length < a.length then
    (firstOccurrence? b 0 a).map fun i =>
      [.removed (g.render (a.take i)), .equal (g.render b),
        .removed (g.render (a.drop (i + b.length)))]
  else
    (firstOccurrence? a 0 b).map fun i =>
      [.added (g.render (b.take i)), .equal (g.render a), .added (g.render (b.drop (i + a.length)))]

/-- Everything removed, everything added. -/
def replaceAll (a b : List α) : List (Edit β) := [.removed (g.render a), .added (g.render b)]

/-- A script between two lists that share nothing at their ends. `deep` finds scripts around a run
that both share, `coarse` is another way for long lists, and `shallow` finds scripts on both sides
of a point halfway. -/
def between (deep shallow : List α → List α → List (Edit β))
    (coarse : List α → List α → Option (List (Edit β))) (a b : List α) : List (Edit β) :=
  if a.isEmpty then [.added (g.render b)]
  else if b.isEmpty then [.removed (g.render a)]
  else
    match g.inside? a b with
    | some script => script
    | none =>
      if a.length = 1 || b.length = 1 then g.replaceAll a b
      else
        match halfMatch? a b with
        | some h =>
          deep h.beforeLeft h.beforeRight ++ .equal (g.render h.shared) :: deep h.afterLeft h.afterRight
        | none =>
          match coarse a b with
          | some script => script
          | none =>
            match middle? a b with
            | some (x, y) => shallow (a.take x) (b.take y) ++ shallow (a.drop x) (b.drop y)
            | none => g.replaceAll a b

/-- A script between two lists: what they share at their ends is kept, and a script for the rest is
found by `search`. -/
def trimmed (search : List α → List α → List (Edit β)) (a b : List α) : List (Edit β) :=
  if a = b then if a.isEmpty then [] else [.equal (g.render a)]
  else
    let n := commonPrefix a b
    let head := a.take n
    let a := a.drop n
    let b := b.drop n
    let m := commonSuffix a b
    let tail := a.drop (a.length - m)
    g.tidy ((if head.isEmpty then [] else [.equal (g.render head)])
      ++ search (a.take (a.length - m)) (b.take (b.length - m))
      ++ if tail.isEmpty then [] else [.equal (g.render tail)])

/-- A script between two lists, found in as many rounds as the first argument allows. `coarse` is
another way to find one, for long lists. -/
def scriptFor : Nat → (List α → List α → Option (List (Edit β))) → List α → List α → List (Edit β)
  | 0, _, a, b => g.replaceAll a b
  | fuel + 1, coarse, a, b =>
    g.trimmed (g.between (scriptFor fuel coarse) (scriptFor fuel fun _ _ => none) coarse) a b

/-- A script between two lists, with another way to find one for long lists. -/
def scriptWith (coarse : List α → List α → Option (List (Edit β))) (a b : List α) : List (Edit β) :=
  g.scriptFor (a.length + b.length + 1) coarse a b

/-- A script between two lists. -/
def script (a b : List α) : List (Edit β) := g.scriptWith (fun _ _ => none) a b

end Grain
end CodeAudit
