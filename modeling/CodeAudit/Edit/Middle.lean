import CodeAudit.Edit.Basic

/-!
# Where to cut two lists

Two ways to split the search for a script into two smaller ones.

* `halfMatch?`: a long run that both lists share.
* `middle?`: the point where a shortest path from the start meets one from the end.
-/
namespace CodeAudit

variable {α : Type}

/-- Two lists cut around a run they share. -/
structure HalfMatch (α : Type) where
  beforeLeft : List α
  afterLeft : List α
  beforeRight : List α
  afterRight : List α
  shared : List α
  deriving DecidableEq, Repr

/-- The same cut seen from the other side. -/
def HalfMatch.swap (h : HalfMatch α) : HalfMatch α where
  beforeLeft := h.beforeRight
  afterLeft := h.afterRight
  beforeRight := h.beforeLeft
  afterRight := h.afterLeft
  shared := h.shared

variable [DecidableEq α]

/-- The cut at place `i` of the long list and place `j` of the short one, widened as far as the two
agree. -/
def HalfMatch.around (long short : List α) (i j : Nat) : HalfMatch α :=
  let p := commonPrefix (long.drop i) (short.drop j)
  let s := commonSuffix (long.take i) (short.take j)
  { beforeLeft := long.take (i - s)
    afterLeft := long.drop (i + p)
    beforeRight := short.take (j - s)
    afterRight := short.drop (j + p)
    shared := (short.drop (j - s)).take (s + p) }

/-- The best cut around a quarter of the long list that starts at place `i`; the shared run has to
be at least half as long as the long list. -/
def seedMatch? (long short : List α) (i : Nat) : Option (HalfMatch α) :=
  let seed := (long.drop i).take (long.length / 4)
  let best := (occurrences seed 0 short).foldl
    (fun best j =>
      let h := HalfMatch.around long short i j
      match best with
      | some b => if b.shared.length < h.shared.length then some h else some b
      | none => if h.shared.isEmpty then none else some h)
    (none : Option (HalfMatch α))
  best.filter fun h => long.length ≤ h.shared.length * 2

/-- The longer of two cuts, the second one of equals. -/
def HalfMatch.longer? : Option (HalfMatch α) → Option (HalfMatch α) → Option (HalfMatch α)
  | some a, some b => if b.shared.length < a.shared.length then some a else some b
  | a, none => a
  | none, b => b

/-- A cut of the two lists around a run of at least half the longer one. -/
def halfMatch? (left right : List α) : Option (HalfMatch α) :=
  if right.length < left.length then find? left right
  else (find? right left).map HalfMatch.swap
where
  /-- The cut of a long and a short list. -/
  find? (long short : List α) : Option (HalfMatch α) :=
    if long.length < 4 || short.length * 2 < long.length then none
    else HalfMatch.longer? (seedMatch? long short ((long.length + 3) / 4))
      (seedMatch? long short ((long.length + 1) / 2))

/-- How far paths from one corner have come: on each diagonal, and which outer diagonals have left
the grid. -/
structure Reach where
  far : Array Int
  low : Int := 0
  high : Int := 0

namespace Reach

/-- A reach of `size` diagonals, none of which has been walked. -/
def start (size offset : Nat) : Reach where
  far := (Array.replicate size (-1)).setIfInBounds (offset + 1) 0

/-- The farthest point on a diagonal, by its index; `-1` where it has not been walked. -/
def farthest (r : Reach) (i : Int) : Int :=
  if i < 0 then -1 else r.far.getD i.toNat (-1)

/-- Where a path of length `d` enters a diagonal. -/
def enter (r : Reach) (offset : Nat) (d k : Int) : Int :=
  let i := offset + k
  if k == -d || (k != d && r.farthest (i - 1) < r.farthest (i + 1)) then r.farthest (i + 1) else r.farthest (i - 1) + 1

end Reach

/-- How many further items agree from a point on. -/
def slide (a b : Array α) : Nat → Nat → Nat → Nat
  | 0, _, _ => 0
  | fuel + 1, x, y =>
    match a[x]?, b[y]? with
    | some c, some d => if c = d then slide a b fuel (x + 1) (y + 1) + 1 else 0
    | _, _ => 0

/-- Walks paths of length `d` one step further on every second diagonal from `k` on. `meets k x` is
the point where a path that has come to `x` on diagonal `k` meets one from the other corner. -/
def walk (a b : Array α) (offset : Nat) (d : Int) (meets : Int → Int → Option (Nat × Nat)) :
    Nat → Int → Reach → Except (Nat × Nat) Reach
  | 0, _, r => .ok r
  | fuel + 1, k, r =>
    if d - r.high < k then .ok r
    else
      let x := r.enter offset d k
      let y := x - k
      let n := if x < 0 || y < 0 then 0 else slide a b a.size x.toNat y.toNat
      let x := x + n
      let y := y + n
      let r := { r with far := r.far.setIfInBounds (offset + k).toNat x }
      if a.size < x then walk a b offset d meets fuel (k + 2) { r with high := r.high + 2 }
      else if b.size < y then walk a b offset d meets fuel (k + 2) { r with low := r.low + 2 }
      else
        match meets k x with
        | some point => .error point
        | none => walk a b offset d meets fuel (k + 2) r

/-- The two lists, both ways round, and the diagonals of their grid. -/
structure Grid (α : Type) where
  left : Array α
  right : Array α
  leftReversed : Array α
  rightReversed : Array α
  offset : Nat

namespace Grid

/-- The number of diagonals. -/
def size (g : Grid α) : Nat := 2 * g.offset

def delta (g : Grid α) : Int := (g.left.size : Int) - g.right.size

/-- Whether paths from the start are the ones that notice a meeting. -/
def isOdd (g : Grid α) : Bool := g.delta % 2 != 0

/-- The meeting of a path from the start with those from the end. -/
def meetsBackward (g : Grid α) (backward : Reach) (k x : Int) : Option (Nat × Nat) :=
  let i := g.offset + g.delta - k
  if g.isOdd && 0 ≤ i && i < g.size && backward.farthest i != -1
      && (g.left.size : Int) - backward.farthest i ≤ x then
    some (x.toNat, (x - k).toNat)
  else none

/-- The meeting of a path from the end with those from the start. -/
def meetsForward (g : Grid α) (forward : Reach) (k x : Int) : Option (Nat × Nat) :=
  let i := g.offset + g.delta - k
  if !g.isOdd && 0 ≤ i && i < g.size && forward.farthest i != -1
      && (g.left.size : Int) - x ≤ forward.farthest i then
    some ((forward.farthest i).toNat, (g.offset + forward.farthest i - i).toNat)
  else none

/-- Walks paths of growing length `d` from both corners until two meet. -/
def search (g : Grid α) : Nat → Nat → Reach → Reach → Option (Nat × Nat)
  | 0, _, _, _ => none
  | fuel + 1, d, forward, backward =>
    match walk g.left g.right g.offset d (g.meetsBackward backward) (d + 1)
        (-(d : Int) + forward.low) forward with
    | .error point => some point
    | .ok forward =>
      match walk g.leftReversed g.rightReversed g.offset d (g.meetsForward forward) (d + 1)
          (-(d : Int) + backward.low) backward with
      | .error point => some point
      | .ok backward => search g fuel (d + 1) forward backward

end Grid

/-- A point on a shortest path through two lists, halfway. -/
def middle? (left right : List α) : Option (Nat × Nat) :=
  let g : Grid α := {
    left := left.toArray
    right := right.toArray
    leftReversed := left.reverse.toArray
    rightReversed := right.reverse.toArray
    offset := (left.length + right.length + 1) / 2 }
  g.search g.offset 0 (.start g.size g.offset) (.start g.size g.offset)

end CodeAudit
