import CodeAudit.Proofs.Markup.Reading

/-!
# What a piece of markup does to a page

Whatever mode a page is in, a piece of markup leaves what the page has found as it is, adds one
element to it, or throws away what stands in the body. So an element outside the body that was found
once stays found.

**Results.**
* `Page.keeps_step`, `Page.keeps_foreign`: one look at a piece of markup, with a lemma for each
  mode.
* `Page.keeps_take`: all looks at it.
-/
namespace CodeAudit.Markup.Page

/-- The elements outside the body that `p` has found are found in `q` as well. -/
def Keeps (p q : Page) : Prop := ∀ tag, (false, tag) ∈ p.found → (false, tag) ∈ q.found

/-! ## Changes that find nothing -/

section
variable (p : Page)

@[simp] theorem found_openElement (n : Node) : (p.openElement n).found = p.found := rfl

@[simp] theorem found_openHtml (name : String) : (p.openHtml name).found = p.found := rfl

@[simp] theorem found_openRaw (name : String) : (p.openRaw name).found = p.found := rfl

@[simp] theorem found_close : p.close.found = p.found := rfl

@[simp] theorem found_clearTo (names : List String) : (p.clearTo names).found = p.found := rfl

@[simp] theorem found_go (m : Mode) : (p.go m).found = p.found := rfl

@[simp] theorem found_noFrames : p.noFrames.found = p.found := rfl

@[simp] theorem found_resetMode : p.resetMode.found = p.found := rfl

@[simp] theorem found_retemplate (m : Mode) : (p.retemplate m).found = p.found := rfl

@[simp] theorem found_closeUntil (s : Scope) (names : List String) :
    (p.closeUntil s names).found = p.found := by
  unfold closeUntil
  split <;> rfl

@[simp] theorem found_closeTemplate : p.closeTemplate.found = p.found := by
  unfold closeTemplate
  split <;> rfl

@[simp] theorem found_leave (names : List String) (m : Mode) (done : Bool) :
    (p.leave names m (·, done)).1.found = p.found := by
  unfold leave
  split <;> rfl

theorem found_of_closeSelect {p q : Page} (h : p.closeSelect = some q) : q.found = p.found := by
  obtain ⟨rest, -, rfl⟩ := Option.map_eq_some_iff.1 h
  rfl

@[simp] theorem found_ite {c : Prop} [Decidable c] {q q' : Page} :
    (if c then q else q').found = if c then q.found else q'.found := apply_ite Page.found c q q'

end

section
variable {p q q' : Page}

theorem Keeps.trans (h : p.Keeps q) (h' : q.Keeps q') :
    p.Keeps q' := fun tag htag => h' tag (h tag htag)

theorem keeps_of_found (h : q.found = p.found) : p.Keeps q := fun _ => h ▸ id

theorem Keeps.ite {c : Prop} [Decidable c] {o o' : Outcome} (h : p.Keeps o.1) (h' : p.Keeps o'.1) :
    p.Keeps (if c then o else o').1 := by
  split <;> assumption

end

/-! ## One lemma a mode -/

variable (p : Page)

theorem keeps_startInHead (name : String) (tag : Tag) : p.Keeps (p.startInHead name tag) := by
  unfold startInHead
  split
  case h_1 => exact fun _ htag => List.mem_cons_of_mem _ htag
  case h_7 => split <;> exact keeps_of_found rfl
  all_goals exact keeps_of_found rfl

theorem keeps_startInBody (name : String) (tag : Tag) : p.Keeps (p.startInBody name tag).1 := by
  unfold startInBody
  split
  -- most start tags only touch the open elements and the flags, or make the page wait for raw text
  all_goals try exact keeps_of_found rfl
  case h_3 => exact .ite (fun tag htag => List.mem_filter.2 ⟨htag, rfl⟩) (keeps_of_found rfl)
  case h_37 => exact .ite (keeps_of_found rfl) (keeps_of_found (found_closeUntil p _ _))
  case h_38 | h_39 | h_40 =>
    dsimp only
    split <;> exact keeps_of_found (found_closeUntil _ _ _)
  case h_54 => exact .ite (keeps_of_found rfl) (keeps_of_found rfl)
  case h_80 => exact .ite (keeps_startInHead p name tag) (keeps_of_found rfl)
  all_goals exact keeps_of_found (by simp [used])

theorem keeps_stopInBody (name : String) : p.Keeps (p.stopInBody name).1 := by
  unfold stopInBody
  split
  all_goals try exact keeps_of_found rfl
  case h_2 => exact .ite (keeps_of_found rfl) (keeps_of_found rfl)
  case h_59 => split <;> exact keeps_of_found rfl
  all_goals exact keeps_of_found (by simp [used])

theorem keeps_inBody (token : Token) : p.Keeps (p.inBody token).1 := by
  cases token with
  | text t => exact keeps_of_found (by simp [inBody, used])
  | start tag => exact keeps_startInBody p _ tag
  | stop name => exact keeps_stopInBody p _
  | comment => exact keeps_of_found rfl
  | doctype => exact keeps_of_found rfl

theorem keeps_inHead (token : Token) : p.Keeps (p.inHead token).1 := by
  cases token with
  | text t => exact .ite (keeps_of_found rfl) (keeps_of_found rfl)
  | start tag =>
    exact .ite (keeps_of_found rfl) (.ite (keeps_startInHead p _ tag) (keeps_of_found rfl))
  | stop name =>
    unfold inHead
    dsimp only
    split <;> exact keeps_of_found (by simp [used, again])
  | comment => exact keeps_of_found rfl
  | doctype => exact keeps_of_found rfl

theorem keeps_afterHead (token : Token) : p.Keeps (p.afterHead token).1 := by
  have hbody : p.Keeps (afterHead.openBody p).1 := keeps_of_found rfl
  cases token with
  | text t => exact .ite (keeps_of_found rfl) hbody
  | start tag =>
    unfold afterHead
    dsimp only
    split
    case h_5 => exact .ite (keeps_startInHead p _ tag) hbody
    all_goals exact keeps_of_found rfl
  | stop name =>
    unfold afterHead
    dsimp only
    split
    case h_4 => exact keeps_of_found (found_closeTemplate p)
    all_goals exact keeps_of_found rfl
  | comment => exact keeps_of_found rfl
  | doctype => exact keeps_of_found rfl

theorem keeps_inTable (token : Token) : p.Keeps (p.inTable token).1 := by
  have hbody := keeps_inBody p token
  cases token with
  | text t => exact .ite (keeps_of_found rfl) hbody
  | start tag =>
    unfold inTable
    dsimp only
    split
    all_goals try exact keeps_of_found rfl
    all_goals try exact keeps_startInHead p _ tag
    case h_10 => split <;> exact keeps_of_found rfl
    case h_14 => exact .ite (keeps_of_found rfl) hbody
    case h_17 => exact hbody
  | stop name =>
    unfold inTable
    dsimp only
    split
    all_goals try exact keeps_of_found rfl
    case h_1 => split <;> exact keeps_of_found rfl
    case h_13 => exact keeps_of_found (found_closeTemplate p)
    case h_14 => exact hbody
  | comment => exact keeps_of_found rfl
  | doctype => exact keeps_of_found rfl

theorem keeps_inCaption (token : Token) : p.Keeps (p.inCaption token).1 := by
  have hbody := keeps_inBody p token
  cases token with
  | start tag =>
    unfold inCaption
    dsimp only
    split
    case h_10 => exact hbody
    case h_9 => exact keeps_of_found rfl
    all_goals exact keeps_of_found (found_leave p _ _ _)
  | stop name =>
    unfold inCaption
    dsimp only
    split
    case h_1 | h_2 => exact keeps_of_found (found_leave p _ _ _)
    case h_13 => exact hbody
    all_goals exact keeps_of_found rfl
  | text t => exact hbody
  | comment => exact hbody
  | doctype => exact hbody

theorem keeps_inColumnGroup (token : Token) : p.Keeps (p.inColumnGroup token).1 := by
  have hother : p.Keeps (inColumnGroup.other p).1 := .ite (keeps_of_found rfl) (keeps_of_found rfl)
  cases token with
  | text t => exact .ite (keeps_of_found rfl) hother
  | start tag =>
    unfold inColumnGroup
    dsimp only
    split
    case h_3 => exact keeps_startInHead p _ tag
    case h_4 => exact hother
    all_goals exact keeps_of_found rfl
  | stop name =>
    unfold inColumnGroup
    dsimp only
    split
    case h_1 => exact .ite (keeps_of_found rfl) (keeps_of_found rfl)
    case h_3 => exact keeps_of_found (found_closeTemplate p)
    case h_4 => exact hother
    all_goals exact keeps_of_found rfl
  | comment => exact keeps_of_found rfl
  | doctype => exact keeps_of_found rfl

theorem keeps_inTableBody (token : Token) : p.Keeps (p.inTableBody token).1 := by
  have htable := keeps_inTable p token
  cases token with
  | start tag =>
    unfold inTableBody
    dsimp only
    split
    case h_10 => exact htable
    all_goals first | exact keeps_of_found rfl | exact keeps_of_found (found_leave p _ _ _)
  | stop name =>
    unfold inTableBody
    dsimp only
    split
    case h_1 | h_2 | h_3 => exact .ite (keeps_of_found rfl) (keeps_of_found rfl)
    case h_4 => exact keeps_of_found (found_leave p _ _ _)
    case h_13 => exact htable
    all_goals exact keeps_of_found rfl
  | text t => exact htable
  | comment => exact htable
  | doctype => exact htable

theorem keeps_inRow (token : Token) : p.Keeps (p.inRow token).1 := by
  have htable := keeps_inTable p token
  cases token with
  | start tag =>
    unfold inRow
    dsimp only
    split
    case h_10 => exact htable
    all_goals first | exact keeps_of_found rfl | exact keeps_of_found (found_leave p _ _ _)
  | stop name =>
    have hleave := fun done => keeps_of_found (found_leave p ["tr"] .inTableBody done)
    unfold inRow
    dsimp only
    split
    case h_1 | h_2 => exact hleave _
    case h_3 | h_4 | h_5 => exact .ite (hleave _) (keeps_of_found rfl)
    case h_13 => exact htable
    all_goals exact keeps_of_found rfl
  | text t => exact htable
  | comment => exact htable
  | doctype => exact htable

theorem keeps_inCell (token : Token) : p.Keeps (p.inCell token).1 := by
  have hbody := keeps_inBody p token
  cases token with
  | start tag =>
    unfold inCell
    dsimp only
    split
    case h_11 => exact hbody
    all_goals first | exact keeps_of_found rfl | exact keeps_of_found (found_leave p _ _ _)
  | stop name =>
    unfold inCell
    dsimp only
    split
    case h_1 | h_2 => exact keeps_of_found (found_leave p _ _ _)
    case h_8 | h_9 | h_10 | h_11 | h_12 =>
      exact .ite (keeps_of_found (found_closeUntil p _ _)) (keeps_of_found rfl)
    case h_13 => exact hbody
    all_goals exact keeps_of_found rfl
  | text t => exact hbody
  | comment => exact hbody
  | doctype => exact hbody

theorem keeps_inSelect (token : Token) : p.Keeps (p.inSelect token).1 := by
  have hclose : p.Keeps (p.closeSelect.getD p) := by
    cases h : p.closeSelect with
    | none => exact keeps_of_found rfl
    | some q => exact keeps_of_found (found_of_closeSelect h)
  cases token with
  | start tag =>
    unfold inSelect
    dsimp only
    split
    case h_3 => exact hclose
    case h_4 | h_5 | h_6 =>
      split
      · rename_i h
        exact keeps_of_found (found_of_closeSelect h)
      · exact keeps_of_found rfl
    case h_7 | h_8 => exact keeps_startInHead p _ tag
    all_goals exact keeps_of_found (by simp [used])
  | stop name =>
    unfold inSelect
    dsimp only
    split
    case h_3 => exact hclose
    all_goals exact keeps_of_found (by simp [used])
  | text t => exact keeps_of_found rfl
  | comment => exact keeps_of_found rfl
  | doctype => exact keeps_of_found rfl

theorem keeps_inSelectInTable (token : Token) : p.Keeps (p.inSelectInTable token).1 := by
  have hselect := keeps_inSelect p token
  cases token with
  | start tag => exact .ite (keeps_of_found (by simp [again])) hselect
  | stop name =>
    exact .ite (.ite (keeps_of_found (by simp [again])) (keeps_of_found rfl)) hselect
  | text t => exact hselect
  | comment => exact hselect
  | doctype => exact hselect

theorem keeps_inTemplate (token : Token) : p.Keeps (p.inTemplate token).1 := by
  have hbody := keeps_inBody p token
  cases token with
  | start tag =>
    unfold inTemplate
    dsimp only
    split
    case h_10 => exact .ite (keeps_startInHead p _ tag) (keeps_of_found rfl)
    all_goals exact keeps_of_found rfl
  | stop name => exact keeps_of_found (by simp [inTemplate, used])
  | text t => exact hbody
  | comment => exact hbody
  | doctype => exact hbody

theorem keeps_inFrames (after : Bool) (token : Token) : p.Keeps (p.inFrames after token).1 := by
  cases token with
  | start tag =>
    unfold inFrames
    dsimp only
    split
    case h_2 => exact keeps_startInHead p _ tag
    all_goals exact keeps_of_found (by simp [used])
  | stop name =>
    unfold inFrames
    dsimp only
    split
    case h_1 => exact .ite (keeps_of_found rfl) (keeps_of_found (by simp [used]))
    all_goals exact keeps_of_found (by simp [used])
  | text t => exact keeps_of_found rfl
  | comment => exact keeps_of_found rfl
  | doctype => exact keeps_of_found rfl

theorem keeps_step (token : Token) : p.Keeps (p.step token).1 := by
  unfold step
  split
  case h_4 => exact keeps_inHead p token
  case h_5 => exact keeps_afterHead p token
  case h_6 => exact keeps_inBody p token
  case h_8 => exact keeps_inTable p token
  case h_9 => exact keeps_inCaption p token
  case h_10 => exact keeps_inColumnGroup p token
  case h_11 => exact keeps_inTableBody p token
  case h_12 => exact keeps_inRow p token
  case h_13 => exact keeps_inCell p token
  case h_14 => exact keeps_inSelect p token
  case h_15 => exact keeps_inSelectInTable p token
  case h_16 => exact keeps_inTemplate p token
  case h_18 | h_19 => exact keeps_inFrames p _ token
  case h_21 =>
    split
    · split
      · exact keeps_startInHead p _ _
      · exact keeps_of_found rfl
    · exact keeps_of_found rfl
  case h_3 =>
    dsimp only
    split
    case h_2 => split <;> exact keeps_of_found rfl
    all_goals
      first | exact keeps_of_found rfl | exact .ite (keeps_of_found rfl) (keeps_of_found rfl)
  case h_2 =>
    dsimp only
    split <;>
      first | exact keeps_of_found rfl | exact .ite (keeps_of_found rfl) (keeps_of_found rfl)
  case h_22 => exact keeps_of_found rfl
  all_goals
    split <;>
      first | exact keeps_of_found rfl | exact .ite (keeps_of_found rfl) (keeps_of_found rfl)

theorem keeps_foreign (token : Token) : p.Keeps (p.foreign token).1 := by
  cases token with
  | start tag =>
    exact .ite (keeps_of_found rfl) (keeps_of_found (by simp [used]))
  | stop name =>
    refine .ite (keeps_of_found rfl) ?_
    split
    · exact keeps_of_found (by simp [used])
    · exact keeps_step p _
  | text t => exact keeps_of_found (by simp [foreign, used])
  | comment => exact keeps_of_found rfl
  | doctype => exact keeps_of_found rfl

/-! ## All looks -/

/-- One look at a token. -/
def look (p : Page) (token : Token) : Outcome :=
  if p.isForeign token then p.foreign token else p.step token

theorem feed_succ (n : Nat) (p : Page) (token : Token) :
    feed (n + 1) p token =
      if (p.look token).2 then (p.look token).1 else feed n (p.look token).1 token := rfl

theorem feed_of_used {p q : Page} {token : Token} (h : p.look token = q.used) (n : Nat) :
    feed (n + 1) p token = q := by
  rw [feed_succ, h]
  rfl

theorem feed_of_again {p q : Page} {token : Token} (h : p.look token = q.again) (n : Nat) :
    feed (n + 1) p token = feed n q token := by
  rw [feed_succ, h]
  rfl

theorem keeps_feed (n : Nat) (token : Token) : p.Keeps (feed n p token) := by
  induction n generalizing p with
  | zero => exact keeps_of_found rfl
  | succ n ih =>
    have hlook : p.Keeps (p.look token).1 := .ite (keeps_foreign p token) (keeps_step p token)
    rw [feed_succ]
    split
    · exact hlook
    · exact hlook.trans (ih _)

/-- **A piece of markup** loses no element outside the body. -/
theorem keeps_take (token : Token) : p.Keeps (p.take token) :=
  keeps_feed { p with notRaw := false } _ token

end CodeAudit.Markup.Page
