import CodeAudit.Proofs.Markup.Steps

/-!
# Pages as constructions

A page is built from pieces of markup alone, so it is a construction. It meets what is relied on of
one: it does not look into comments, all it asks about a text is whether it is blank, and a `meta`
element at the beginning of the head is added to what the page has found and stays there.

**Results.**
* `metas_eq_metasOf`: reading a page is building it from the pieces of its text.
* `Page.lawful_construction`: pages meet what is relied on.
-/
namespace CodeAudit.Markup
namespace Page

/-! ## Building a page -/

/-- The page after some pieces. -/
def build (pieces : List Piece) : Page := pieces.foldl (fun p x => p.take x.1) {}

/-- Pages as a construction. -/
def construction : Construction where
  sections pieces := (build pieces).readsSections
  notRaw pieces := (build pieces).notRaw
  metas pieces := (build pieces).metas

theorem build_concat (pieces : List Piece) (x : Piece) :
    build (pieces ++ [x]) = (build pieces).take x.1 := by
  rw [build, List.foldl_append]
  rfl

theorem build_append_cons (before after : List Piece) (x : Piece) :
    build (before ++ x :: after) = after.foldl (fun p x => p.take x.1)
      ((build before).take x.1) := by
  rw [build, List.foldl_append]
  rfl

theorem alike_of_take {before : List Piece} {x y : Piece} (h : ∀ p : Page, p.take x.1 = p.take y.1)
    (after : List Piece) : construction.Alike (before ++ x :: after) (before ++ y :: after) := by
  have hbuild : build (before ++ x :: after) = build (before ++ y :: after) := by
    rw [build_append_cons, build_append_cons, h]
  exact ⟨congrArg readsSections hbuild, congrArg notRaw hbuild, congrArg metas hbuild⟩

theorem read_build (fuel : Nat) (pieces : List Piece) (s : Source) :
    read fuel (build pieces) s = build (construction.readAll fuel ⟨pieces, s⟩) := by
  induction fuel generalizing pieces s with
  | zero => rfl
  | succ fuel ih =>
    rw [read, Construction.readAll, Construction.next?]
    cases hnext : s.next (build pieces).readsSections with
    | none =>
      have hnext' : s.next (construction.sections pieces) = none := hnext
      rw [hnext']
      rfl
    | some next =>
      obtain ⟨token, s'⟩ := next
      have hnext' : s.next (construction.sections pieces) = some (token, s') := hnext
      rw [hnext', Option.map_some]
      dsimp only
      rw [← build_concat pieces (token, taken s.rest s'.rest), ih]
      rfl

/-! ## Texts -/

/-- All that a page asks about a text is whether it is white space, with or without its zero
bytes. -/
theorem look_text_congr {t u : Text} (h : isSpaceText t = isSpaceText u)
    (hzero : isSpaceText (t.filter (· != 0)) = isSpaceText (u.filter (· != 0))) (p : Page) :
    p.look (.text t) = p.look (.text u) := by
  unfold look step
  cases p.mode <;>
    simp only [isForeign, foreign, inHead, afterHead, inBody, inTable, inCaption, inColumnGroup,
      inTableBody, inRow, inCell, inSelect, inSelectInTable, inTemplate, inFrames, h, hzero]

theorem feed_text_congr {t u : Text} (h : isSpaceText t = isSpaceText u)
    (hzero : isSpaceText (t.filter (· != 0)) = isSpaceText (u.filter (· != 0))) (n : Nat)
    (p : Page) :
    feed n p (.text t) = feed n p (.text u) := by
  induction n generalizing p with
  | zero => rfl
  | succ n ih => rw [feed_succ, feed_succ, look_text_congr h hzero, ih]

theorem isSpaceText_of_hasInk {t : Text} (h : HasInk t) :
    isSpaceText t = false ∧ isSpaceText (t.filter (· != 0)) = false := by
  obtain ⟨b, hb, hspace, hzero⟩ := h
  exact ⟨List.all_eq_false.2 ⟨b, hb, by simp [hspace]⟩,
    List.all_eq_false.2 ⟨b, List.mem_filter.2 ⟨hb, bne_iff_ne.2 hzero⟩, by simp [hspace]⟩⟩

theorem take_text_of_hasInk {t u : Text} (ht : HasInk t) (hu : HasInk u) (p : Page) :
    p.take (.text t) = p.take (.text u) := by
  obtain ⟨ht, ht'⟩ := isSpaceText_of_hasInk ht
  obtain ⟨hu, hu'⟩ := isSpaceText_of_hasInk hu
  exact feed_text_congr (ht.trans hu.symm) (ht'.trans hu'.symm) _ _

theorem look_space {t : Text} (h : isSpaceText t = true) (p : Page) :
    p.look (.text t) = p.used := by
  have hzero : isSpaceText (t.filter (· != 0)) = true :=
    List.all_eq_true.2 fun b hb => List.all_eq_true.1 h b (List.mem_filter.1 hb).1
  unfold look step
  cases p.mode <;>
    simp [isForeign, foreign, inHead, afterHead, inBody, inTable, inCaption, inColumnGroup,
      inTableBody, inRow, inCell, inSelect, inSelectInTable, inTemplate, inFrames, h, hzero]

/-- **White space** changes no page. -/
theorem take_space {t : Text} (h : isSpaceText t = true) (p : Page) :
    p.take (.text t) = { p with notRaw := false } :=
  feed_of_used (look_space h _) _

/-! ## The head of a page -/

/-- The root of the page. -/
def htmlNode : Node := { name := "html" }

/-- The head of the page. -/
def headNode : Node := { name := "head" }

/-- Nothing has been read that belongs behind the beginning of the page. -/
def Early (p : Page) : Prop :=
  p.mode = .initial ∧ p.stack = [] ∨ p.mode = .beforeHtml ∧ p.stack = [] ∨
    p.mode = .beforeHead ∧ p.stack = [htmlNode]

/-- Nothing has been read behind the `head` tag. -/
def AtHead (p : Page) : Prop := p.mode = .inHead ∧ p.stack = [headNode, htmlNode]

theorem look_of_html {p : Page} {n : Node} (h : p.stack.head?.getD htmlNode = n)
    (hn : n.space = .html) (token : Token) : p.look token = p.step token := by
  have hforeign : p.isForeign token = false := by
    unfold isForeign
    cases hstack : p.stack.head? with
    | none => rfl
    | some m =>
      obtain rfl : m = n := by simpa [hstack] using h
      simp [hn]
  rw [look, hforeign, if_neg Bool.false_ne_true]

section
variable {p : Page} (h : p.Early)
include h

theorem Early.look_eq_step (token : Token) : p.look token = p.step token := by
  obtain ⟨-, hstack⟩ | ⟨-, hstack⟩ | ⟨-, hstack⟩ := h <;>
    exact look_of_html (n := htmlNode) (by rw [hstack]; rfl) rfl token

theorem Early.feed_used {q : Page} {token : Token} (hstep : p.step token = q.used) (n : Nat) :
    feed (n + 1) p token = q :=
  feed_of_used ((h.look_eq_step token).trans hstep) n

theorem Early.feed_again {q : Page} {token : Token} (hstep : p.step token = q.again) (n : Nat) :
    feed (n + 1) p token = feed n q token :=
  feed_of_again ((h.look_eq_step token).trans hstep) n

/-- Comments and document types leave a page where it is, or one mode further. -/
theorem Early.feed_quiet {token : Token} (htoken : token = .comment ∨ token = .doctype) (n : Nat) :
    (feed (n + 1) p token).Early := by
  obtain ⟨hmode, hstack⟩ | ⟨hmode, hstack⟩ | ⟨hmode, hstack⟩ := id h
  · obtain rfl | rfl := htoken
    · rw [h.feed_used (q := p) (by unfold step; rw [hmode])]
      exact h
    · rw [h.feed_used (q := p.go .beforeHtml) (by unfold step; rw [hmode])]
      exact .inr (.inl ⟨rfl, hstack⟩)
  · obtain rfl | rfl := htoken <;>
    · rw [h.feed_used (q := p) (by unfold step; rw [hmode])]
      exact h
  · obtain rfl | rfl := htoken <;>
    · rw [h.feed_used (q := p) (by unfold step; rw [hmode])]
      exact h

section
variable {tag : Tag}

/-- The tag of the page leads to the place before the head. -/
theorem Early.feed_html (hname : tagName tag.name = "html") (n : Nat) :
    (feed (n + 2) p (.start tag)).Early := by
  have hopen : ∀ {q : Page} (k : Nat), q.mode = .beforeHtml → q.stack = [] →
      (feed (k + 1) q (.start tag)).Early := fun {q} k hmode hstack => by
    have hq : q.Early := .inr (.inl ⟨hmode, hstack⟩)
    rw [hq.feed_used (q := (q.openHtml "html").go .beforeHead)
      (by unfold step; simp [hmode, hname])]
    exact .inr (.inr ⟨rfl, congrArg (htmlNode :: ·) hstack⟩)
  obtain ⟨hmode, hstack⟩ | ⟨hmode, hstack⟩ | ⟨hmode, hstack⟩ := id h
  · rw [h.feed_again (q := p.go .beforeHtml) (by unfold step; rw [hmode])]
    exact hopen n rfl hstack
  · exact hopen (n + 1) hmode hstack
  · rw [h.feed_used (q := p) (by unfold step; simp [hmode, hname])]
    exact h

/-- A `head` tag opens the head. -/
theorem Early.feed_head (hname : tagName tag.name = "head") (n : Nat) :
    (feed (n + 3) p (.start tag)).AtHead := by
  have hhead : ∀ {q : Page} (k : Nat), q.mode = .beforeHead → q.stack = [htmlNode] →
      (feed (k + 1) q (.start tag)).AtHead := fun {q} k hmode hstack => by
    have hq : q.Early := .inr (.inr ⟨hmode, hstack⟩)
    rw [hq.feed_used (q := { (q.openHtml "head").go .inHead with headSeen := true })
      (by unfold step; simp [hmode, hname])]
    exact ⟨rfl, congrArg (headNode :: ·) hstack⟩
  have hopen : ∀ {q : Page} (k : Nat), q.mode = .beforeHtml → q.stack = [] →
      (feed (k + 2) q (.start tag)).AtHead := fun {q} k hmode hstack => by
    have hq : q.Early := .inr (.inl ⟨hmode, hstack⟩)
    rw [hq.feed_again (q := (q.openHtml "html").go .beforeHead)
      (by unfold step; simp [hmode, hname])]
    exact hhead k rfl (congrArg (htmlNode :: ·) hstack)
  obtain ⟨hmode, hstack⟩ | ⟨hmode, hstack⟩ | ⟨hmode, hstack⟩ := id h
  · rw [h.feed_again (q := p.go .beforeHtml) (by unfold step; rw [hmode])]
    exact hopen n rfl hstack
  · exact hopen (n + 1) hmode hstack
  · exact hhead (n + 2) hmode hstack

end

theorem Early.take_prolog {x : Piece} (hx : IsProlog x) : (p.take x.1).Early := by
  have hp : Early { p with notRaw := false } := h
  obtain hquiet | hquiet | ⟨t, htext, hspace⟩ | ⟨tag, htag, hname⟩ := hx
  · exact hp.feed_quiet (.inl hquiet) _
  · exact hp.feed_quiet (.inr hquiet) _
  · rw [htext, take_space hspace]
    exact h
  · rw [htag]
    exact hp.feed_html hname _

end

theorem Early.foldl_prolog {p : Page} (h : p.Early) {pieces : List Piece}
    (hx : ∀ x ∈ pieces, IsProlog x) :
    (pieces.foldl (fun p x => p.take x.1) p).Early := by
  induction pieces generalizing p with
  | nil => exact h
  | cons x pieces ih =>
    exact ih (h.take_prolog (hx x List.mem_cons_self)) fun y hy => hx y (List.mem_cons_of_mem x hy)

/-- White space leaves a page at its head. -/
theorem AtHead.foldl_white {p : Page} (h : p.AtHead) {white : List Piece}
    (hwhite : ∀ x ∈ white, IsWhite x) :
    (white.foldl (fun p x => p.take x.1) p).AtHead := by
  induction white generalizing p with
  | nil => exact h
  | cons x white ih =>
    obtain ⟨t, htext, hspace⟩ := hwhite x List.mem_cons_self
    rw [List.foldl_cons, htext, take_space hspace]
    exact ih h fun y hy => hwhite y (List.mem_cons_of_mem x hy)

/-- A `meta` element at the head of a page is found there. -/
theorem AtHead.mem_take_meta {p : Page} (h : p.AtHead) {element : Tag}
    (hname : tagName element.name = "meta") :
      (false, element) ∈ (p.take (.start element)).found := by
  obtain ⟨hmode, hstack⟩ := h
  have hlook : look { p with notRaw := false } (.start element) =
      (addMeta { p with notRaw := false } element).used := by
    rw [look_of_html (n := headNode) (by simp [hstack]) rfl]
    unfold step
    simp only [hmode, inHead, hname]
    rfl
  have hbody : bodyOpen { p with notRaw := false } = false := by
    simp only [bodyOpen, hstack]
    decide
  rw [take, feed_of_used hlook, addMeta, hbody]
  exact List.mem_cons_self

theorem keeps_foldl (p : Page) (pieces : List Piece) :
    p.Keeps (pieces.foldl (fun p x => p.take x.1) p) := by
  induction pieces generalizing p with
  | nil => exact keeps_of_found rfl
  | cons x pieces ih => exact (keeps_take p x.1).trans (ih _)

/-- **Pages** meet what is relied on of a construction. -/
theorem lawful_construction : construction.Lawful where
  comment before after y z := alike_of_take (x := (.comment, y)) (y := (.comment, z))
    (fun _ => rfl) after
  text ht hu before after _ _ := alike_of_take (take_text_of_hasInk ht hu) after
  head {before white tag element} hbefore hwhite htag helement y z after := by
    have hearly : Early { build before with notRaw := false } :=
      Early.foldl_prolog (p := {}) (.inl ⟨rfl, rfl⟩) hbefore
    have hhead : ((build before).take (.start tag)).AtHead := hearly.feed_head htag _
    have hfound := (hhead.foldl_white hwhite).mem_take_meta helement
    have hkept := keeps_foldl _ after element hfound
    change element ∈ (build _).metas
    rw [build_append_cons, List.foldl_append, List.foldl_cons]
    exact List.mem_map.2 ⟨(false, element), List.mem_reverse.2 hkept, rfl⟩

end Page

/-- **Reading a page** is building it from the pieces of its text. -/
theorem metas_eq_metasOf : metas = Page.construction.metasOf :=
  funext fun t => congrArg Page.metas (Page.read_build (t.length + 1) [] ⟨t, []⟩)

end CodeAudit.Markup
