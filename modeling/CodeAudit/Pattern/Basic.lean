import CodeAudit.Text.Rune

/-!
# Patterns

A pattern describes pieces of text. Among the pieces that start at one place it prefers those an
alternative written earlier gives, and repetitions that are longer. `Pattern.run` carries a list
of cursors, most preferred first, through the pattern; two cursors at the same place have the same
future, so only the first of them is kept. The work per starting place is therefore bounded by the
size of the pattern times the length of the text.

* `Pattern.find?`: the leftmost match, and of those the preferred one.
* `Pattern.findAll`: the successive matches that do not overlap.
-/
namespace CodeAudit

/-- A set of code points: the listed ranges, or everything else when negated. -/
structure CodeSet where
  negated : Bool
  ranges : List (Nat × Nat)
  deriving DecidableEq, Repr

def CodeSet.contains (s : CodeSet) (c : Nat) : Bool :=
  s.ranges.any (fun r => r.1 ≤ c && c ≤ r.2) != s.negated

/-- The set of one code point. -/
def CodeSet.single (c : Nat) : CodeSet := ⟨false, [(c, c)]⟩

/-- A condition on a place in a text. -/
inductive Anchor where
  | textStart
  | textEnd
  | lineStart
  | lineEnd
  | wordEdge
  | notWordEdge
  deriving DecidableEq, Repr

/-- A description of pieces of text. -/
inductive Pattern where
  /-- The empty piece. -/
  | empty
  /-- One code point of a set. -/
  | one (s : CodeSet)
  /-- Any number of code points of a set, preferably more. -/
  | many (s : CodeSet)
  /-- A piece of `p` followed by a piece of `q`. -/
  | seq (p q : Pattern)
  /-- A piece of `p`, or else of `q`. -/
  | alt (p q : Pattern)
  /-- Any number of pieces of `p`, preferably more. -/
  | star (p : Pattern)
  /-- The empty piece, recording its place in slot `n`. -/
  | mark (n : Nat)
  /-- The empty piece where the condition holds. -/
  | anchor (a : Anchor)
  deriving DecidableEq, Repr, Inhabited

/-- A place in a text during an attempt to match: the code point before it, the runes after it,
the number of bytes passed since the attempt began, and the recorded places, latest first. -/
structure Cursor where
  before : Option Nat
  rest : List Rune
  len : Nat
  marks : List (Nat × Nat)
  deriving DecidableEq, Repr

/-- A word code point: an ASCII letter, a digit or an underscore. -/
def isWordCode (c : Nat) : Bool :=
  (97 ≤ c && c ≤ 122) || (65 ≤ c && c ≤ 90) || (48 ≤ c && c ≤ 57) || c == 95

namespace Cursor

/-- Whether the code points before and after the place differ in being word code points. -/
def atWordEdge (t : Cursor) : Bool :=
  t.before.any isWordCode != t.rest.head?.any (isWordCode ·.code)

/-- Whether a condition holds at the place. -/
def holds (t : Cursor) : Anchor → Bool
  | .textStart => t.before.isNone
  | .textEnd => t.rest.isEmpty
  | .lineStart => t.before.all (· == 10)
  | .lineEnd => t.rest.head?.all (·.code == 10)
  | .wordEdge => t.atWordEdge
  | .notWordEdge => !t.atWordEdge

/-- The place after the next rune, when that is in the set. -/
def step (s : CodeSet) (t : Cursor) : Option Cursor :=
  match t.rest with
  | [] => none
  | r :: rs =>
    if s.contains r.code then some ⟨some r.code, rs, t.len + r.width, t.marks⟩ else none

end Cursor

/-- Places in a text, as runs from a first to a last place, the latest run first. -/
structure Places where
  runs : List (Nat × Nat)
  deriving DecidableEq, Repr

namespace Places

def none : Places := ⟨[]⟩

/-- Whether a place is among the places. -/
def contains (p : Places) (i : Nat) : Bool := p.runs.any fun r => r.1 ≤ i && i ≤ r.2

/-- One more place. It extends the latest run when it stands right before that. -/
def insert (p : Places) (i : Nat) : Places :=
  match p.runs with
  | [] => ⟨[(i, i)]⟩
  | (lo, hi) :: rs => if i + 1 == lo && lo ≤ hi then ⟨(i, hi) :: rs⟩ else ⟨(i, i) :: (lo, hi) :: rs⟩

theorem contains_none (i : Nat) : none.contains i = false := rfl

theorem contains_insert (p : Places) (i j : Nat) :
    (p.insert i).contains j = (i == j || p.contains j) := by
  obtain ⟨runs⟩ := p
  rw [Bool.eq_iff_iff]
  cases runs with
  | nil =>
    simp only [insert, contains, List.any_cons, List.any_nil, Bool.or_false, Bool.and_eq_true, decide_eq_true_eq,
      beq_iff_eq]
    omega
  | cons r rs =>
    obtain ⟨lo, hi⟩ := r
    by_cases tail : (rs.any fun r => decide (r.1 ≤ j) && decide (j ≤ r.2)) = true
    · simp only [insert]
      split <;> simp [contains, tail]
    · simp only [insert]
      split
      · rename_i h
        simp only [Bool.and_eq_true, beq_iff_eq, decide_eq_true_eq] at h
        simp only [contains, List.any_cons, tail, Bool.or_false, Bool.or_eq_true, Bool.and_eq_true, decide_eq_true_eq,
          beq_iff_eq]
        omega
      · simp only [contains, List.any_cons, tail, Bool.or_false, Bool.or_eq_true, Bool.and_eq_true, decide_eq_true_eq,
          beq_iff_eq]
        omega

end Places

namespace Cursor

/-- The places reached by passing runes of the set up to a place seen before, the farthest first, in
front of `acc`. -/
def spread (s : CodeSet) (seen : Places) (marks : List (Nat × Nat)) :
    List Rune → Option Nat → Nat → List Cursor → List Cursor
  | [], before, len, acc => if seen.contains len then acc else ⟨before, [], len, marks⟩ :: acc
  | r :: rs, before, len, acc =>
    if seen.contains len then acc
    else if s.contains r.code then
      spread s seen marks rs (some r.code) (len + r.width) (⟨before, r :: rs, len, marks⟩ :: acc)
    else ⟨before, r :: rs, len, marks⟩ :: acc

/-- The places that cursors reach by passing runes of the set, each of them once. From a place seen
before all that follow were seen as well. -/
def spreadAll (s : CodeSet) : Places → List Cursor → List Cursor
  | _, [] => []
  | seen, [t] => spread s seen t.marks t.rest t.before t.len []
  | seen, t :: ts =>
    let us := spread s seen t.marks t.rest t.before t.len []
    us ++ spreadAll s (us.foldl (fun seen u => seen.insert u.len) seen) ts

/-- The cursors at places not seen before, each place once. -/
def keepFirst : Places → List Cursor → List Cursor
  | _, [] => []
  | seen, t :: ts =>
    if seen.contains t.len then keepFirst seen ts
    else t :: keepFirst (seen.insert t.len) ts

end Cursor

/-- The state of a repetition: the places where it was continued, and the cursors that leave it,
least preferred first. -/
structure Loop where
  seen : Places
  out : List Cursor

/-- Continues a repetition at `t`: every further round that advances comes before leaving. -/
def Loop.visit (body : List Cursor → List Cursor) : Nat → Cursor → Loop → Loop
  | 0, _, l => l
  | fuel + 1, t, l =>
    if l.seen.contains t.len then l
    else
      let l' := (body [t]).foldl
        (fun l u => if t.len < u.len then Loop.visit body fuel u l else l) l
      ⟨l'.seen.insert t.len, t :: l'.out⟩

namespace Pattern

/-- Where the cursors come out of a pattern, most preferred first. -/
def run : Pattern → List Cursor → List Cursor
  | .empty, ts => ts
  | .one s, ts => ts.filterMap (Cursor.step s)
  | .many s, ts => Cursor.spreadAll s .none ts
  | .seq p q, ts => q.run (p.run ts)
  | .alt p q, ts => Cursor.keepFirst .none (ts.flatMap fun t => p.run [t] ++ q.run [t])
  | .star p, ts =>
    (ts.foldl (fun l t => Loop.visit p.run (t.rest.length + 1) t l) ⟨.none, []⟩).out.reverse
  | .mark n, ts => ts.map fun t => { t with marks := (n, t.len) :: t.marks }
  | .anchor a, ts => ts.filter (·.holds a)

/-- The preferred end of the pieces that start at one place. -/
def attempt (p : Pattern) (before : Option Nat) (rest : List Rune) : Option Cursor :=
  (p.run [⟨before, rest, 0, []⟩]).head?

end Pattern

/-- A match: its offsets in the text, and where each recorded place stands relative to its
start. -/
structure Match where
  start : Nat
  len : Nat
  marks : List (Nat × Nat)
  deriving DecidableEq, Repr

def Match.stop (m : Match) : Nat := m.start + m.len

/-- The offsets of group `n`, when it took part in the match. -/
def Match.group? (m : Match) (n : Nat) : Option (Nat × Nat) :=
  match m.marks.lookup (2 * n), m.marks.lookup (2 * n + 1) with
  | some i, some j => some (m.start + i, m.start + j)
  | _, _ => none

def Match.text (m : Match) (t : Text) : Text := Text.slice t m.start m.stop

/-- The text of group `n`, empty when it took no part in the match. -/
def Match.groupText (m : Match) (t : Text) (n : Nat) : Text :=
  match m.group? n with
  | some (i, j) => Text.slice t i j
  | none => []

namespace Pattern

/-- The leftmost match from a place on, with the cursor at its end; `at` is the place's offset. -/
def searchFrom (p : Pattern) : Option Nat → List Rune → Nat → Option (Nat × Cursor)
  | before, [], offset => (p.attempt before []).map (offset, ·)
  | before, r :: rs, offset =>
    match p.attempt before (r :: rs) with
    | some u => some (offset, u)
    | none => searchFrom p (some r.code) rs (offset + r.width)

/-- The leftmost match of a pattern in a text. -/
def find? (p : Pattern) (t : Text) : Option Match :=
  (p.searchFrom none t.runes 0).map fun (i, u) => ⟨i, u.len, u.marks⟩

def matchesIn (p : Pattern) (t : Text) : Bool := (p.find? t).isSome

/-- The matches from a place on, at most `limit` of them. An empty match right after the previous
match (which ended at `last`) is passed over. -/
def findAllFrom (p : Pattern) :
    Nat → Nat → Option Nat → List Rune → Nat → Option Nat → List Match
  | 0, _, _, _, _, _ => []
  | _, 0, _, _, _, _ => []
  | fuel + 1, limit + 1, before, rest, offset, last =>
    match p.searchFrom before rest offset with
    | none => []
    | some (i, u) =>
      if offset < i + u.len then
        ⟨i, u.len, u.marks⟩ :: findAllFrom p fuel limit u.before u.rest (i + u.len) (some (i + u.len))
      else
        let found := if last == some i then [] else [⟨i, u.len, u.marks⟩]
        match rest with
        | [] => found
        | r :: rs =>
          found ++ findAllFrom p fuel (limit + 1 - found.length) (some r.code) rs
            (offset + r.width) (some (i + u.len))

/-- The successive matches of a pattern that do not overlap, at most `limit` of them. -/
def findAllUpTo (p : Pattern) (limit : Nat) (t : Text) : List Match :=
  let rs := t.runes
  p.findAllFrom (rs.length + 2) limit none rs 0 none

/-- The successive matches of a pattern that do not overlap. -/
def findAll (p : Pattern) (t : Text) : List Match := p.findAllUpTo (t.length + 1) t

/-- The pieces in order, each followed by the next. -/
def concat : List Pattern → Pattern
  | [] => .empty
  | [p] => p
  | p :: ps => .seq p (concat ps)

def literal (t : Text) : Pattern := concat (t.codes.map fun c => .one (.single c))

/-- Horizontal and vertical white space of ASCII: tab, line feed, form feed, carriage return and
space. -/
def spaceRanges : List (Nat × Nat) := [(9, 10), (12, 13), (32, 32)]

/-- The given texts in order, with any white space between each two. -/
def spaced (ts : List Text) : Pattern :=
  concat ((ts.map literal).intersperse (.many ⟨false, spaceRanges⟩))

end Pattern
end CodeAudit
