import CodeAudit.Edit.Script
import CodeAudit.Text.Rune

/-!
# Scripts between texts

A text is compared by code points and shown in bytes. Long texts are compared by lines first.

* `Edit.simplify`: gives up equal runs that are shorter than the changes around them, and puts the
  ends of changes where a reader expects them.
* `Edit.thin`: gives up equal runs that cost more to show than they save.
* `Edit.ofTexts`: the script between two texts.
-/
namespace CodeAudit.Edit

/-- The number of bytes in the first code points. -/
def byteWidth (rs : List Rune) (n : Nat) : Nat := (Text.ofRunes (rs.take n)).length

/-- How many bytes two texts start with in whole code points. -/
def sharedStart (s t : Text) : Nat :=
  byteWidth s.runes (commonPrefix (s.runes.map (·.code)) (t.runes.map (·.code)))

/-- How many bytes two texts end with in whole code points. -/
def sharedEnd (s t : Text) : Nat :=
  byteWidth s.runes.reverse (commonSuffix (s.runes.map (·.code)) (t.runes.map (·.code)))

/-- Texts are compared by code points and shown in bytes. -/
def bytes : Grain Nat UInt8 where
  render := Text.ofCodes
  normalize := Text.sanitize
  sharedPrefix := sharedStart
  sharedSuffix := sharedEnd

abbrev Step := Edit UInt8

/-! ## Giving up short equal runs -/

/-- Turns the equal run at a place into a removal and an addition of the same items. -/
def giveUp (script : List Step) (i : Nat) (t : Text) : List Step :=
  script.take i ++ [.removed t, .added t] ++ script.drop (i + 1)

/-- Where a search for equal runs to give up stands. -/
structure Search where
  script : List Step
  place : Nat := 0
  /-- The places of the equal runs so far, last first. -/
  equals : List Nat := []
  /-- The last equal run, empty when it is out of the question. -/
  last : Text := []
  /-- Whether anything was given up. -/
  changed : Bool := false
  /-- Code points added and removed before the last equal run. -/
  addedBefore : Nat := 0
  removedBefore : Nat := 0
  /-- Code points added and removed since. -/
  addedSince : Nat := 0
  removedSince : Nat := 0

namespace Search

def equal (s : Search) (t : Text) : Search :=
  { s with
    place := s.place + 1
    equals := s.place :: s.equals
    last := t
    addedBefore := s.addedSince
    removedBefore := s.removedSince
    addedSince := 0
    removedSince := 0 }

def change (s : Search) (e : Step) : Search :=
  let n := Text.runeCount e.items
  if e.kind = .added then { s with addedSince := s.addedSince + n }
  else { s with removedSince := s.removedSince + n }

/-- Whether the last equal run is no longer than the changes on both sides of it. -/
def isShort (s : Search) : Bool :=
  let n := Text.runeCount s.last
  0 < n && n ≤ max s.addedBefore s.removedBefore && n ≤ max s.addedSince s.removedSince

/-- Goes on after a change. Where the last equal run is given up, the search goes back to the run
before the one before it. -/
def next (s : Search) : Search :=
  match s.equals with
  | i :: rest =>
    if s.isShort then
      let equals := rest.drop 1
      { script := giveUp s.script i s.last
        place := match equals with
          | j :: _ => j + 1
          | [] => 0
        equals := equals
        changed := true }
    else { s with place := s.place + 1 }
  | [] => { s with place := s.place + 1 }

/-- Goes through the script to its end. -/
def run : Nat → Search → Search
  | 0, s => s
  | fuel + 1, s =>
    match s.script[s.place]? with
    | none => s
    | some e => run fuel (if e.isEqual then s.equal e.items else (s.change e).next)

end Search

/-- More steps than a search through a script takes. -/
def rounds (script : List Step) : Nat := (2 * script.length + 2) * (script.length + 2)

/-! ## Placing changes -/

/-- Whether a text ends in an empty line. -/
def endsBlank (t : Text) : Bool := Text.endsWith t "\n\n" || Text.endsWith t "\n\r\n"

/-- What kind of character stands at an edge. -/
structure EdgeChar where
  isOther : Bool
  isSpace : Bool
  isBreak : Bool
  isBlank : Bool

/-- The kind of a character at the edge of a text. -/
def edgeChar (c : Nat) (t : Text) : EdgeChar :=
  let isOther := !((97 ≤ c && c ≤ 122) || (65 ≤ c && c ≤ 90) || (48 ≤ c && c ≤ 57))
  let isBreak := c == 10 || c == 13
  { isOther := isOther
    isSpace := isBreak || c == 32 || c == 9 || c == 12
    isBreak := isBreak
    isBlank := isBreak && endsBlank t }

/-- How well a cut between two texts is placed: best at an end, then at an empty line, at the end of
a line, at the end of a sentence, at a space, and at any character but a letter or a digit. -/
def cutScore (one two : Text) : Nat :=
  match one.runes.getLast?, two.runes.head? with
  | some r, some s =>
    let a := edgeChar r.code one
    let b := edgeChar s.code two
    if a.isBlank || b.isBlank then 5
    else if a.isBreak || b.isBreak then 4
    else if a.isOther && !a.isSpace && b.isSpace then 3
    else if a.isSpace || b.isSpace then 2
    else if a.isOther || b.isOther then 1
    else 0
  | _, _ => 6

/-- A change between two equal runs. -/
structure Slot where
  left : Text
  change : Text
  right : Text
  deriving DecidableEq, Repr

namespace Slot

/-- How well both ends of the change are placed. -/
def score (s : Slot) : Nat := cutScore s.left s.change + cutScore s.change s.right

/-- Moves the change to the left; the way is counted in code points and taken in bytes. -/
def leftmost (s : Slot) : Slot :=
  let n := commonSuffix (Text.codes s.left) (Text.codes s.change)
  let shared := s.change.drop (s.change.length - n)
  { left := s.left.take (s.left.length - n)
    change := shared ++ s.change.take (s.change.length - n)
    right := shared ++ s.right }

/-- Moves the change to the right by one code point. -/
def right? (s : Slot) : Option Slot :=
  let w := (s.change.runes.head?.map (·.width)).getD 0
  if s.change.isEmpty || s.right.isEmpty || s.right.length < w || s.change.take w ≠ s.right.take w then
    none
  else some {
    left := s.left ++ s.change.take w
    change := s.change.drop w ++ s.right.take w
    right := s.right.drop w }

/-- The best place on the way to the right, the last of equals. -/
def bestFrom : Nat → Slot → Slot → Slot
  | 0, best, _ => best
  | fuel + 1, best, s =>
    match s.right? with
    | none => best
    | some t => bestFrom fuel (if best.score ≤ t.score then t else best) t

def best (s : Slot) : Slot :=
  let l := s.leftmost
  bestFrom (l.right.length + 1) l l

end Slot

/-- Puts every change between two equal runs where it is placed best; `done` holds the steps before,
last first. -/
def place : Nat → List Step → List Step → List Step
  | fuel + 1, e :: done, c :: f :: rest =>
    if e.isEqual && f.isEqual then
      let b := ({ left := e.items, change := c.items, right := f.items } : Slot).best
      if b.left = e.items then place fuel (c :: e :: done) (f :: rest)
      else
        let done := if b.left.isEmpty then done else .equal b.left :: done
        let c : Step := ⟨c.kind, b.change⟩
        if b.right.isEmpty then place fuel done (c :: rest)
        else place fuel (c :: done) (.equal b.right :: rest)
    else place fuel (c :: e :: done) (f :: rest)
  | fuel + 1, [], c :: rest => place fuel [c] rest
  | _, done, rest => done.reverse ++ rest

/-! ## Overlaps -/

/-- How many bytes the end of one text has in common with the start of another. -/
def overlap (s t : Text) : Nat :=
  let n := min s.length t.length
  let s := s.drop (s.length - n)
  ((List.range (n + 1)).reverse.find? fun k => s.drop (n - k) == t.take k).getD 0

/-- Whether an overlap is at least half as long as one of two texts. -/
def isLong (n : Nat) (s t : Text) : Bool := Text.runeCount s ≤ 2 * n || Text.runeCount t ≤ 2 * n

/-- Makes an equal run of what a removal and the addition after it have in common at their ends. -/
def joinOverlaps : List Step → List Step
  | d :: i :: rest =>
    if d.kind = .removed && i.kind = .added then
      let n := overlap d.items i.items
      let m := overlap i.items d.items
      if m ≤ n then
        if isLong n d.items i.items then
          .removed (d.items.take (d.items.length - n)) :: .equal (i.items.take n)
            :: .added (i.items.drop n) :: joinOverlaps rest
        else d :: i :: joinOverlaps rest
      else if isLong m d.items i.items then
        .added (i.items.take (i.items.length - m)) :: .equal (d.items.take m)
          :: .removed (d.items.drop m) :: joinOverlaps rest
      else d :: i :: joinOverlaps rest
    else d :: joinOverlaps (i :: rest)
  | script => script

/-- Makes a script easier to read. -/
def simplify (script : List Step) : List Step :=
  let s := Search.run (rounds script) { script := script }
  let script := if s.changed then bytes.tidy s.script else s.script
  joinOverlaps (place ((script.flatMap (·.items)).length + 2 * script.length + 2) [] script)

/-! ## Giving up costly equal runs -/

/-- An equal run of this many bytes is worth showing. -/
def stepCost : Nat := 4

/-- Where a search for costly equal runs stands: which kinds of change come before and after the
last one that may be given up. -/
structure CostSearch where
  script : List Step
  place : Nat := 0
  equals : List Nat := []
  last : Text := []
  changed : Bool := false
  addedBefore : Bool := false
  removedBefore : Bool := false
  addedSince : Bool := false
  removedSince : Bool := false

namespace CostSearch

def equal (s : CostSearch) (t : Text) : CostSearch :=
  let s :=
    if t.length < stepCost && (s.addedSince || s.removedSince) then
      { s with
        equals := s.place :: s.equals
        last := t
        addedBefore := s.addedSince
        removedBefore := s.removedSince }
    else { s with equals := [], last := [] }
  { s with place := s.place + 1, addedSince := false, removedSince := false }

def change (s : CostSearch) (e : Step) : CostSearch :=
  if e.kind = .removed then { s with removedSince := true } else { s with addedSince := true }

/-- Whether the last equal run costs more than it saves. -/
def isCostly (s : CostSearch) : Bool :=
  let kinds := [s.addedBefore, s.removedBefore, s.addedSince, s.removedSince].countP id
  !s.last.isEmpty && (kinds == 4 || (s.last.length < stepCost / 2 && kinds == 3))

/-- Goes on after a change. -/
def next (s : CostSearch) : CostSearch :=
  match s.equals with
  | i :: rest =>
    if s.isCostly then
      let s := { s with script := giveUp s.script i s.last, last := [], changed := true }
      if s.addedBefore && s.removedBefore then
        { s with place := s.place + 1, equals := [], addedSince := true, removedSince := true }
      else
        let equals := rest.drop 1
        { s with
          place := match equals with
            | j :: _ => j + 1
            | [] => 0
          equals := equals
          addedSince := false
          removedSince := false }
    else { s with place := s.place + 1 }
  | [] => { s with place := s.place + 1 }

/-- Goes through the script to its end. -/
def run : Nat → CostSearch → CostSearch
  | 0, s => s
  | fuel + 1, s =>
    match s.script[s.place]? with
    | none => s
    | some e => run fuel (if e.isEqual then s.equal e.items else (s.change e).next)

end CostSearch

/-- Gives up equal runs that cost more to show than they save. -/
def thin (script : List Step) : List Step :=
  let s := CostSearch.run (rounds script) { script := script }
  if s.changed then bytes.tidy s.script else s.script

/-! ## Comparing by lines first -/

/-- The lines of a text, each with its line break. -/
def brokenLines (t : Text) : List Text :=
  let last := t.lines.getLastD []
  t.lines.dropLast.map (· ++ [Text.newline]) ++ if last.isEmpty then [] else [last]

/-- Compares the texts of replaced lines by code points. `pending` holds the changes since the last
equal run, last first. -/
def refine : List Step → List Step → List Step
  | pending, [] => settle pending
  | pending, e :: rest =>
    if e.isEqual then settle pending ++ e :: refine [] rest else refine (e :: pending) rest
where
  /-- The changes in order, with a removal and an addition compared again. -/
  settle (pending : List Step) : List Step :=
    let steps := pending.reverse
    if steps.any (·.kind = .removed) && steps.any (·.kind = .added) then
      bytes.script (Text.codes (Edit.before steps)) (Text.codes (Edit.after steps))
    else steps

/-- Texts of more code points than this are compared by lines first. -/
def lineModeLength : Nat := 100

/-- The script between two texts by their lines, for long texts. -/
def byLines (a b : List Nat) : Option (List Step) :=
  if lineModeLength < a.length && lineModeLength < b.length then
    let script := (Grain.plain Text).script (brokenLines (.ofCodes a)) (brokenLines (.ofCodes b))
    some (refine [] (simplify (script.map (Edit.map List.flatten))))
  else none

def ofTexts (s t : Text) : List Step :=
  let script := bytes.scriptWith byLines (Text.codes s) (Text.codes t)
  if 2 < script.length then thin (simplify script) else script

end CodeAudit.Edit
