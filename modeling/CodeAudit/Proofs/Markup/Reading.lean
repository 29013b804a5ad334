import CodeAudit.Markup.Page
import Mathlib.Data.List.Basic
import Mathlib.Logic.Relation

/-!
# Reading a page step by step

A page is read piece by piece: the next piece of markup is taken from the source and handed to
whatever builds the page (`Construction`), which has a say in how the source is read on. Every piece
takes at least one byte, so reading comes to an end, and what a text makes of a page can be told
from one step: `Construction.next?`.

**Results.**
* `Source.next_suffix`: the next piece takes something off the front of the source.
* `Construction.finish_of_next?`, `Construction.finish_of_reaches`: a page has the same pieces from
  any step on.
-/
namespace CodeAudit.Markup

/-! ## Pieces of markup are not empty -/

theorem dropSpace_suffix (t : Text) : dropSpace t <:+ t := List.dropWhile_suffix isSpace

theorem readKey_suffix (t : Text) : (readKey t).2 <:+ t := by
  unfold readKey
  split
  · exact (List.dropWhile_suffix _).trans (List.suffix_cons ..)
  · exact List.dropWhile_suffix _

/-- A value after its equals sign and white space. -/
def valueAfter? : Text → Option (Text × Text)
  | [] => none
  | q :: v =>
    if q = 62 then some ([], q :: v)
    else if q == 34 || q == 39 then
      match v.dropWhile (· != q) with
      | [] => none
      | _ :: w => some (v.takeWhile (· != q), w)
    else some ((q :: v).takeWhile fun b => !(isSpace b || b == 62),
      (q :: v).dropWhile fun b => !(isSpace b || b == 62))

/-- A value after white space, with its equals sign if it has one. -/
def valueFrom? : Text → Option (Text × Text)
  | [] => none
  | b :: u =>
    if b = 47 then some ([], u) else if b = 61 then valueAfter? (dropSpace u) else some ([], b :: u)

theorem readValue?_eq (t : Text) : readValue? t = valueFrom? (dropSpace t) := by
  unfold readValue?
  generalize dropSpace t = u
  split
  · rfl
  · rfl
  · rename_i u
    change _ = valueAfter? (dropSpace u)
    generalize dropSpace u = v
    split
    · rfl
    · rfl
    · rename_i q v hq
      exact (if_neg hq).symm
  · rename_i hnil h47 h61
    cases u with
    | nil => exact absurd rfl hnil
    | cons b u =>
      rw [valueFrom?, if_neg fun h : b = 47 => h47 u (h ▸ rfl), if_neg fun h :
        b = 61 => h61 u (h ▸ rfl)]

theorem valueAfter?_suffix {t value rest : Text} (h : valueAfter? t = some (value, rest)) :
    rest <:+ t := by
  cases t with
  | nil => cases h
  | cons q v =>
    rw [valueAfter?] at h
    split at h
    · obtain ⟨-, rfl⟩ := Prod.mk.inj (Option.some.inj h)
      exact List.suffix_rfl
    split at h
    · split at h
      · cases h
      · rename_i w hw
        obtain ⟨-, rfl⟩ := Prod.mk.inj (Option.some.inj h)
        exact (List.suffix_cons ..).trans
          ((hw ▸ List.dropWhile_suffix (· != q) : _ <:+ v).trans (List.suffix_cons ..))
    · obtain ⟨-, rfl⟩ := Prod.mk.inj (Option.some.inj h)
      exact List.dropWhile_suffix _

theorem valueFrom?_suffix {t value rest : Text} (h : valueFrom? t = some (value, rest)) :
    rest <:+ t := by
  cases t with
  | nil => cases h
  | cons b u =>
    rw [valueFrom?] at h
    split at h
    · obtain ⟨-, rfl⟩ := Prod.mk.inj (Option.some.inj h)
      exact List.suffix_cons ..
    split at h
    · exact (valueAfter?_suffix h).trans ((dropSpace_suffix u).trans (List.suffix_cons ..))
    · obtain ⟨-, rfl⟩ := Prod.mk.inj (Option.some.inj h)
      exact List.suffix_rfl

theorem readValue?_suffix {t value rest : Text} (h : readValue? t = some (value, rest)) :
    rest <:+ t :=
  (valueFrom?_suffix ((readValue?_eq t).symm.trans h)).trans (dropSpace_suffix t)

theorem readAttrs?_suffix {fuel : Nat} {acc attrs : List (Text × Text)} {t rest : Text}
    (h : readAttrs? fuel acc t = some (attrs, rest)) : rest <:+ t := by
  induction fuel generalizing acc t with
  | zero => cases h
  | succ fuel ih =>
    unfold readAttrs? at h
    split at h
    · cases h
    · obtain ⟨-, rfl⟩ := Prod.mk.inj (Option.some.inj h)
      exact List.suffix_cons ..
    · obtain ⟨⟨value, u⟩, hvalue, hrest⟩ := Option.bind_eq_some_iff.1 h
      exact (ih hrest).trans ((dropSpace_suffix u).trans
        ((readValue?_suffix hvalue).trans (readKey_suffix _)))

theorem readTag?_suffix {t rest : Text} {tag : Tag} (h : readTag? t = some (tag, rest)) :
    rest <:+ t := by
  obtain ⟨⟨attrs, u⟩, hattrs, htag⟩ := Option.bind_eq_some_iff.1 h
  obtain ⟨-, rfl⟩ := Prod.mk.inj (Option.some.inj htag)
  exact (readAttrs?_suffix hattrs).trans ((dropSpace_suffix _).trans (List.drop_suffix ..))

theorem afterBracket_suffix (t : Text) : afterBracket t <:+ t :=
  (List.drop_suffix ..).trans (List.dropWhile_suffix _)

theorem afterComment_suffix (dashes : Nat) (beginning : Bool) (t : Text) :
    afterComment dashes beginning t <:+ t := by
  fun_induction afterComment dashes beginning t with
  | case1 => exact List.suffix_rfl
  | case2 dashes beginning b t _ ih => exact ih.trans (List.suffix_cons ..)
  | case3 dashes beginning b t => exact List.suffix_cons ..
  | case4 => exact List.nil_suffix
  | case5 => exact (List.suffix_cons ..).trans (List.suffix_cons ..)
  | case6 dashes beginning b _ _ _ c u _ _ ih =>
    exact ih.trans ((List.suffix_cons ..).trans (List.suffix_cons ..))
  | case7 dashes beginning b _ _ _ c u _ _ ih =>
    exact ih.trans ((List.suffix_cons ..).trans (List.suffix_cons ..))
  | case8 dashes beginning b t _ _ _ ih => exact ih.trans (List.suffix_cons ..)

theorem readSection_suffix (brackets : Nat) (acc t : Text) :
    (readSection brackets acc t).2 <:+ t := by
  fun_induction readSection brackets acc t with
  | case1 => exact List.suffix_rfl
  | case2 brackets acc b t _ ih => exact ih.trans (List.suffix_cons ..)
  | case3 brackets acc b t => exact List.suffix_cons ..
  | case4 brackets acc b t _ _ ih => exact ih.trans (List.suffix_cons ..)

theorem readDeclaration_suffix (sections : Bool) (t : Text) :
    (readDeclaration sections t).2 <:+ t := by
  unfold readDeclaration
  split
  · exact List.nil_suffix
  split
  · exact (afterComment_suffix ..).trans (List.drop_suffix ..)
  split
  · exact (afterBracket_suffix _).trans (List.drop_suffix ..)
  split
  · exact (readSection_suffix ..).trans (List.drop_suffix ..)
  · exact afterBracket_suffix t

theorem ne_nil_of_textLength {t : Text} {n : Nat} (h : textLength t = n + 1) : t ≠ [] := by
  rintro rfl
  simp [textLength] at h

theorem readToken?_suffix {sections : Bool} {t : Text} {token : Token} {s : Source}
    (h : readToken? sections t = some (token, s)) : s.rest <:+ t ∧ s.rest.length < t.length := by
  unfold readToken? at h
  split at h
  · rename_i n hn
    obtain ⟨-, rfl⟩ := Prod.mk.inj (Option.some.inj h)
    have hpos := List.length_pos_iff.2 (ne_nil_of_textLength hn)
    exact ⟨List.drop_suffix .., by simp only [List.length_drop]; omega⟩
  · -- a piece of markup starts with a bracket, which is never part of what follows
    have htail : ∀ {a : UInt8} {u : Text}, t = a :: u → ∀ {rest : Text}, rest <:+ u →
        rest <:+ t ∧ rest.length < t.length := by
      rintro a u rfl rest hrest
      exact ⟨hrest.trans (List.suffix_cons ..), Nat.lt_succ_of_le hrest.length_le⟩
    split at h
    · split at h
      · obtain ⟨-, rfl⟩ := Prod.mk.inj (Option.some.inj h)
        exact htail rfl List.nil_suffix
      · obtain ⟨-, rfl⟩ := Prod.mk.inj (Option.some.inj h)
        exact htail rfl ((List.suffix_cons ..).trans (List.suffix_cons ..))
      · split at h
        · obtain ⟨⟨tag, rest⟩, htag, hpair⟩ := Option.map_eq_some_iff.1 h
          obtain ⟨-, rfl⟩ := Prod.mk.inj hpair
          exact htail rfl ((readTag?_suffix htag).trans (List.suffix_cons ..))
        · obtain ⟨-, rfl⟩ := Prod.mk.inj (Option.some.inj h)
          exact htail rfl ((afterBracket_suffix _).trans (List.suffix_cons ..))
    · obtain ⟨-, rfl⟩ := Prod.mk.inj (Option.some.inj h)
      exact htail rfl ((readDeclaration_suffix ..).trans (List.suffix_cons ..))
    · obtain ⟨-, rfl⟩ := Prod.mk.inj (Option.some.inj h)
      exact htail rfl (afterBracket_suffix _)
    · obtain ⟨⟨tag, rest⟩, htag, hpair⟩ := Option.map_eq_some_iff.1 h
      obtain ⟨-, rfl⟩ := Prod.mk.inj hpair
      exact htail rfl (readTag?_suffix htag)
    · cases h

theorem rawLength_nil (tag : Text) : rawLength tag [] = 0 := by
  unfold rawLength
  split
  · rfl
  · split
    · exact scriptEnd.eq_1 ..
    · rfl

/-- **Progress.** The next piece takes something off the front of the source. -/
theorem Source.next_suffix {sections : Bool} {s s' : Source} {token : Token}
    (h : s.next sections = some (token, s')) : s'.rest <:+ s.rest ∧
      s'.rest.length < s.rest.length := by
  unfold Source.next at h
  split at h
  · exact readToken?_suffix h
  · split at h
    · exact readToken?_suffix h
    · rename_i n hn
      obtain ⟨-, rfl⟩ := Prod.mk.inj (Option.some.inj h)
      have hne : s.rest ≠ [] := fun hnil => hn (hnil ▸ rawLength_nil _)
      have hpos := List.length_pos_iff.2 hne
      have hlength : 0 < rawLength s.rawTag s.rest := Nat.pos_of_ne_zero hn
      exact ⟨List.drop_suffix .., by simp only [List.length_drop]; omega⟩

/-! ## Constructions -/

/-- A piece of markup with the bytes that it was read from. -/
abbrev Piece := Token × Text

/-- Some byte of the text is neither white space nor zero. -/
def HasInk (t : Text) : Prop := ∃ b ∈ t, isSpace b = false ∧ b ≠ 0

/-- A piece of nothing but white space. -/
def IsWhite (x : Piece) : Prop := ∃ t, x.1 = .text t ∧ isSpaceText t = true

/-- A piece that may come before the head of a page: a comment, a document type, white space, or the
tag of the page itself. -/
def IsProlog (x : Piece) : Prop :=
  x.1 = .comment ∨ x.1 = .doctype ∨ IsWhite x ∨ ∃ tag, x.1 = .start tag ∧ tagName tag.name = "html"

/-- How a page is built from pieces of markup: what is made of those read so far. Nothing else is
asked of it, so it may keep a tree, or no more than it takes to answer. -/
structure Construction where
  /-- Whether marked sections are read next. -/
  sections : List Piece → Bool
  /-- Whether the text that comes next is not read raw after all. -/
  notRaw : List Piece → Bool
  /-- The `meta` elements of the page. -/
  metas : List Piece → List Tag

/-- The pieces of a page that are read, and what is still to be read. -/
structure Reading where
  pieces : List Piece
  source : Source

/-- Nothing is read yet. -/
def Reading.start (t : Text) : Reading := ⟨[], ⟨t, []⟩⟩

/-- The bytes that were taken off a text. -/
def taken (t rest : Text) : Text := t.take (t.length - rest.length)

theorem taken_append (c rest : Text) : taken (c ++ rest) rest = c := by
  rw [taken, List.length_append, Nat.add_sub_cancel, List.take_left]

namespace Construction

variable (c : Construction)

/-- The reading after a piece of markup, which leaves a source behind. -/
def put (r : Reading) (token : Token) (s : Source) : Reading :=
  let pieces := r.pieces ++ [(token, taken r.source.rest s.rest)]
  ⟨pieces, if c.notRaw pieces then { s with rawTag := [] } else s⟩

/-- The reading after the next piece of markup. -/
def next? (r : Reading) : Option Reading :=
  (r.source.next (c.sections r.pieces)).map fun (token, s) => c.put r token s

/-- One reading comes after another. -/
def Reaches : Reading → Reading → Prop := Relation.ReflTransGen fun r r' => c.next? r = some r'

/-- The pieces after some steps. -/
def readAll : Nat → Reading → List Piece
  | 0, r => r.pieces
  | fuel + 1, r =>
    match c.next? r with
    | none => r.pieces
    | some r' => readAll fuel r'

/-- The pieces when everything is read. -/
def finish (r : Reading) : List Piece := c.readAll (r.source.rest.length + 1) r

/-- The `meta` elements of a text. -/
def metasOf (t : Text) : List Tag := c.metas (c.finish (.start t))

variable {c}

theorem put_of_rawTag {r : Reading} (token : Token) (rest : Text) :
    c.put r token ⟨rest, []⟩ = ⟨r.pieces ++ [(token, taken r.source.rest rest)], ⟨rest, []⟩⟩ := by
  rw [put]
  dsimp only
  split <;> rfl

theorem rest_put (r : Reading) (token : Token) (s : Source) :
    (c.put r token s).source.rest = s.rest := by
  rw [put]
  dsimp only
  split <;> rfl

theorem next?_eq_some_iff {r r' : Reading} :
    c.next? r = some r' ↔ ∃ token s, r.source.next (c.sections r.pieces) = some (token, s) ∧
      r' = c.put r token s := by
  constructor
  · intro h
    obtain ⟨⟨token, s⟩, hnext, rfl⟩ := Option.map_eq_some_iff.1 h
    exact ⟨token, s, hnext, rfl⟩
  · rintro ⟨token, s, hnext, rfl⟩
    exact Option.map_eq_some_iff.2 ⟨(token, s), hnext, rfl⟩

theorem rest_suffix_of_next? {r r' : Reading} (h : c.next? r = some r') :
    r'.source.rest <:+ r.source.rest := by
  obtain ⟨token, s, hnext, rfl⟩ := next?_eq_some_iff.1 h
  rw [rest_put]
  exact (Source.next_suffix hnext).1

theorem rest_suffix_of_reaches {r r' : Reading} (h : c.Reaches r r') :
    r'.source.rest <:+ r.source.rest := by
  induction h with
  | refl => exact List.suffix_rfl
  | tail _ hnext ih => exact (rest_suffix_of_next? hnext).trans ih

theorem length_of_next? {r r' : Reading} (h : c.next? r = some r') :
    r'.source.rest.length < r.source.rest.length := by
  obtain ⟨token, s, hnext, rfl⟩ := next?_eq_some_iff.1 h
  rw [rest_put]
  exact (Source.next_suffix hnext).2

/-- More steps than bytes make no difference. -/
theorem readAll_congr {n m : Nat} {r : Reading} (hn : r.source.rest.length < n)
    (hm : r.source.rest.length < m) : c.readAll n r = c.readAll m r := by
  induction n generalizing m r with
  | zero => omega
  | succ n ih =>
    obtain ⟨m, rfl⟩ : ∃ k, m = k + 1 := ⟨m - 1, by omega⟩
    rw [readAll, readAll]
    cases hnext : c.next? r with
    | none => rfl
    | some r' =>
      have hlt := length_of_next? hnext
      exact ih (by omega) (by omega)

/-- The pieces of a page are the same from the next step on. -/
theorem finish_of_next? {r r' : Reading} (h : c.next? r = some r') : c.finish r = c.finish r' := by
  have hlt := length_of_next? h
  rw [finish, readAll, h]
  exact readAll_congr hlt (Nat.lt_succ_self _)

theorem finish_of_next?_eq_none {r : Reading} (h : c.next? r = none) : c.finish r = r.pieces := by
  rw [finish, readAll, h]

theorem finish_of_reaches {r r' : Reading} (h : c.Reaches r r') : c.finish r = c.finish r' := by
  induction h with
  | refl => rfl
  | tail _ hnext ih => rw [ih, finish_of_next? hnext]

/-- What is read later comes behind the pieces that were read. -/
theorem exists_finish_eq (r : Reading) : ∃ later, c.finish r = r.pieces ++ later := by
  induction hlength : r.source.rest.length using Nat.strongRecOn generalizing r with
  | ind n ih =>
    cases hnext : c.next? r with
    | none => exact ⟨[], by rw [finish_of_next?_eq_none hnext, List.append_nil]⟩
    | some r' =>
      obtain ⟨later, hlater⟩ := ih _ (hlength ▸ length_of_next? hnext) r' rfl
      obtain ⟨token, s, -, rfl⟩ := next?_eq_some_iff.1 hnext
      refine ⟨(token, taken r.source.rest s.rest) :: later, ?_⟩
      rw [finish_of_next? hnext, hlater, put, List.append_assoc, List.singleton_append]

/-! ## What is relied on -/

/-- The construction makes the same of two lists of pieces. -/
structure Alike (c : Construction) (xs ys : List Piece) : Prop where
  sections : c.sections xs = c.sections ys
  notRaw : c.notRaw xs = c.notRaw ys
  metas : c.metas xs = c.metas ys

/-- What is relied on of a construction. Wherever they stand, it does not matter what a comment
says, or what a text that is not blank says. And a `meta` element at the beginning of the head of a
page belongs to the page, whatever comes later. -/
structure Lawful (c : Construction) : Prop where
  comment (before after : List Piece) (y z : Text) :
    c.Alike (before ++ (.comment, y) :: after) (before ++ (.comment, z) :: after)
  text {t u : Text} (ht : HasInk t) (hu : HasInk u) (before after : List Piece) (y z : Text) :
    c.Alike (before ++ (.text t, y) :: after) (before ++ (.text u, z) :: after)
  head {before white : List Piece} {tag element : Tag} (hbefore : ∀ x ∈ before, IsProlog x)
    (hwhite : ∀ x ∈ white, IsWhite x) (htag : tagName tag.name = "head")
    (helement : tagName element.name = "meta") (y z : Text) (after : List Piece) :
    element ∈ c.metas (before ++ (.start tag, y) :: (white ++ (.start element, z) :: after))

end Construction

end CodeAudit.Markup
