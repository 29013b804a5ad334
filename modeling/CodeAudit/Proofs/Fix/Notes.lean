import CodeAudit.Engine
import CodeAudit.Proofs.Text.Lines

/-!
# Fixes and notes

A note explains an earlier change, so a fix has to hand it on: the notes of a fragment stand among
the lines that the fix gives, as they were and in their order. A fix keeps notes when the building
blocks it is made of do, and all of these work line by line and skip the notes.

One fix does not: `Builtin.fillCatch` looks for an empty catch block in the joined text, and the
lines that the block takes up may be notes. Those are the only ones it can lose.

**Results.**
* `Fix.KeepsNotes`: what it is to hand notes on, with a lemma for every building block of fixes.
* `Builtin.keepsNotes_of_mem`: the fixes of all built-in rules but one keep notes.
* `Builtin.fillCatch_some`: what filling a catch block leaves as it was.
* `builtin_notes_kept`: the notes that the fix of a built-in rule keeps.
-/
namespace CodeAudit

/-! ## Notes among the lines -/

section Sublist

variable {p : Text → Bool} {xs ys zs : List Text}

theorem filter_sublist_iff : (xs.filter p).Sublist ys ↔ (xs.filter p).Sublist (ys.filter p) := by
  constructor
  · intro h
    simpa using h.filter p
  · intro h
    exact h.trans List.filter_sublist

theorem filter_sublist_trans (hxy : (xs.filter p).Sublist ys) (hyz : (ys.filter p).Sublist zs) :
    (xs.filter p).Sublist zs :=
  (filter_sublist_iff.1 hxy).trans hyz

theorem filter_sublist_between {pre post as bs : List Text} (ha : as = pre ++ xs ++ post)
    (hb : bs = pre ++ ys ++ post) : (as.filter p).Sublist bs ↔ (xs.filter p).Sublist ys := by
  subst ha hb
  rw [filter_sublist_iff, @filter_sublist_iff p xs]
  simp only [List.filter_append, List.append_sublist_append_left, List.append_sublist_append_right]

end Sublist

theorem notes_mapCode (f : Text → Text) (fragment : List Text) :
    (fragment.filter isNote).Sublist (mapCode f fragment) := by
  induction fragment with
  | nil => exact .slnil
  | cons line rest ih =>
    rw [mapCode, List.map_cons]
    cases hn : isNote line with
    | true =>
      rw [List.filter_cons_of_pos hn, if_pos rfl]
      exact ih.cons_cons line
    | false =>
      rw [List.filter_cons_of_neg (by simp [hn])]
      exact ih.cons _

theorem notes_mapCode? {f : Text → Option Text} {fragment out : List Text}
    (h : mapCode? f fragment = some out) : (fragment.filter isNote).Sublist out := by
  induction fragment generalizing out with
  | nil => exact List.nil_sublist out
  | cons line rest ih =>
    rw [mapCode?, List.mapM_cons] at h
    obtain ⟨line', hline, h⟩ := Option.bind_eq_some_iff.1 h
    obtain ⟨rest', hrest, h⟩ := Option.bind_eq_some_iff.1 h
    obtain rfl := Option.some.inj h
    cases hn : isNote line with
    | true =>
      rw [hn, if_pos rfl] at hline
      obtain rfl := Option.some.inj hline
      rw [List.filter_cons_of_pos hn]
      exact (ih hrest).cons_cons line
    | false =>
      rw [List.filter_cons_of_neg (by simp [hn])]
      exact (ih hrest).cons _

theorem eq_of_splitAtCode? {fragment pre post : List Text} {code : Text}
    (h : splitAtCode? fragment = some (pre, code, post)) : fragment = pre ++ code :: post := by
  induction fragment generalizing pre with
  | nil => simp [splitAtCode?] at h
  | cons line rest ih =>
    rw [splitAtCode?] at h
    split at h
    · obtain ⟨⟨pre', code', post'⟩, hrest, heq⟩ := Option.map_eq_some_iff.1 h
      cases heq
      rw [ih hrest, List.cons_append]
    · cases h
      rfl

/-! ## The building blocks -/

/-- The notes of a fragment stand among the lines a fix gives, as they were and in their order.
Instances follow the way fixes are put together. -/
class Fix.KeepsNotes (f : Fix) : Prop where
  notes_sublist : ∀ {fragment l out}, f fragment l = some out → (fragment.filter isNote).Sublist out

namespace Fix

/-- A fix that only adds lines keeps the notes. -/
theorem keepsNotes_of_sublist {f : Fix}
    (h : ∀ fragment l out, f fragment l = some out → fragment.Sublist out) : f.KeepsNotes :=
  ⟨fun hout => List.filter_sublist.trans (h _ _ _ hout)⟩

instance keepsNotes_onCode (f : Text → Language → Text) : (onCode f).KeepsNotes where
  notes_sublist {fragment l out} h := by
    obtain rfl := Option.some.inj h
    exact notes_mapCode (f · l) fragment

instance keepsNotes_replace (p : Pattern) (w : Template) : (replace p w).KeepsNotes :=
  keepsNotes_onCode _

instance keepsNotes_replaceCall (p : Pattern) (build : Call → Language → Option Text) :
    (replaceCall p build).KeepsNotes :=
  keepsNotes_onCode _

instance keepsNotes_wrapFirstArg (p : Pattern) (wrap : Text → Language → Option Text) :
    (wrapFirstArg p wrap).KeepsNotes :=
  keepsNotes_onCode _

instance keepsNotes_replaceWith (p : Pattern) (f : (Nat → Text) → Language → Text) :
    (replaceWith p f).KeepsNotes where
  notes_sublist h := notes_mapCode? h

instance keepsNotes_unchanged : unchanged.KeepsNotes := by
  refine keepsNotes_of_sublist fun fragment l out h => ?_
  obtain rfl := Option.some.inj h
  exact List.Sublist.refl fragment

instance keepsNotes_byLanguage_nil (fallback : Fix) [fallback.KeepsNotes] :
    (byLanguage [] fallback).KeepsNotes where
  notes_sublist h := KeepsNotes.notes_sublist (f := fallback) h

instance keepsNotes_byLanguage_cons (l : Language) (f : Fix) (fixes : List (Language × Fix))
    (fallback : Fix) [f.KeepsNotes] [(byLanguage fixes fallback).KeepsNotes] :
    (byLanguage ((l, f) :: fixes) fallback).KeepsNotes where
  notes_sublist {fragment l' out} h := by
    rw [byLanguage, List.lookup_cons] at h
    cases hl : l' == l with
    | true =>
      rw [hl] at h
      exact KeepsNotes.notes_sublist (f := f) h
    | false =>
      rw [hl] at h
      exact KeepsNotes.notes_sublist (f := byLanguage fixes fallback) h

instance keepsNotes_chain_nil : (chain []).KeepsNotes := keepsNotes_unchanged

instance keepsNotes_chain_cons (f : Fix) (fs : List Fix) [f.KeepsNotes] [(chain fs).KeepsNotes] :
    (chain (f :: fs)).KeepsNotes where
  notes_sublist h := by
    obtain ⟨mid, hmid, hout⟩ := Option.bind_eq_some_iff.1 h
    exact filter_sublist_trans (KeepsNotes.notes_sublist hmid) (KeepsNotes.notes_sublist hout)

instance keepsNotes_firstOf_nil : (firstOf []).KeepsNotes := keepsNotes_unchanged

instance keepsNotes_firstOf_cons (f : Fix) (fs : List Fix) [f.KeepsNotes]
    [(firstOf fs).KeepsNotes] :
    (firstOf (f :: fs)).KeepsNotes where
  notes_sublist h := by
    obtain ⟨mid, hmid, hout⟩ := Option.bind_eq_some_iff.1 h
    split at hout
    · exact KeepsNotes.notes_sublist hout
    · obtain rfl := Option.some.inj hout
      exact KeepsNotes.notes_sublist hmid

instance keepsNotes_annotate (text : Text) : (annotate text).KeepsNotes := by
  refine keepsNotes_of_sublist fun fragment l out h => ?_
  rw [annotate] at h
  split at h
  · obtain rfl := Option.some.inj h
    exact List.Sublist.refl fragment
  · rename_i pre code post hsplit
    obtain rfl := Option.some.inj h
    rw [eq_of_splitAtCode? hsplit]
    exact List.Sublist.append_left (List.sublist_cons_self _ _) pre

instance keepsNotes_withNote (text : Text) (fix : Fix) [fix.KeepsNotes] :
    (withNote text fix).KeepsNotes where
  notes_sublist h := by
    obtain ⟨mid, hmid, hout⟩ := Option.bind_eq_some_iff.1 h
    split at hout
    · obtain rfl := Option.some.inj hout
      exact List.filter_sublist
    · exact filter_sublist_trans (KeepsNotes.notes_sublist hmid) (KeepsNotes.notes_sublist hout)

instance keepsNotes_insertBefore (build : Text → Language → Option Text) :
    (insertBefore build).KeepsNotes := by
  refine keepsNotes_of_sublist fun fragment l out h => ?_
  rw [insertBefore] at h
  split at h
  · obtain rfl := Option.some.inj h
    exact List.Sublist.refl fragment
  · rename_i pre code post hsplit
    split at h
    · obtain rfl := Option.some.inj h
      exact List.Sublist.refl fragment
    · obtain rfl := Option.some.inj h
      rw [eq_of_splitAtCode? hsplit]
      exact List.Sublist.append_left (List.sublist_cons_self _ _) pre

instance keepsNotes_guardCall (p : Pattern) (build : Text → Language → Option Text) :
    (guardCall p build).KeepsNotes :=
  keepsNotes_insertBefore _

instance keepsNotes_insertAfter (build : Text → Language → Option Text) :
    (insertAfter build).KeepsNotes := by
  refine keepsNotes_of_sublist fun fragment l out h => ?_
  rw [insertAfter] at h
  split at h
  · obtain rfl := Option.some.inj h
    exact List.Sublist.refl fragment
  · split at h
    · obtain rfl := Option.some.inj h
      exact List.Sublist.refl fragment
    · obtain rfl := Option.some.inj h
      exact List.sublist_append_left fragment _

theorem notes_bindQuery_go (find : Text → Language → Option Query) (l : Language)
    (fragment : List Text) : (fragment.filter isNote).Sublist (bindQuery.go find l fragment) := by
  induction fragment with
  | nil => exact .slnil
  | cons line rest ih =>
    rw [bindQuery.go]
    split
    next hn =>
      rw [List.filter_cons_of_pos hn]
      exact ih.cons_cons line
    next hn =>
      rw [List.filter_cons_of_neg hn]
      split
      · exact ih.cons line
      · exact List.filter_sublist.trans (List.sublist_append_right _ rest)

instance keepsNotes_bindQuery (find : Text → Language → Option Query) :
    (bindQuery find).KeepsNotes where
  notes_sublist {fragment l out} h := by
    obtain rfl := Option.some.inj h
    exact notes_bindQuery_go find l fragment

end Fix

/-! ## The built-in rules -/

/-- The fix of a rule, if it has one, keeps notes. -/
def Rule.KeepsNotes (r : Rule) : Prop := ∀ f, r.fix = some f → f.KeepsNotes

theorem Rule.keepsNotes_of_fix {r : Rule} {f : Fix} [hf : f.KeepsNotes] (h : r.fix = some f) :
    r.KeepsNotes := by
  intro g hg
  obtain rfl := Option.some.inj (h.symm.trans hg)
  exact hf

namespace Builtin

instance keepsNotes_flipLast (p : Pattern) :
    (flipLast p).KeepsNotes := Fix.keepsNotes_replaceWith p _

instance keepsNotes_secretToEnv (p : Pattern) : (secretToEnv p).KeepsNotes :=
  Fix.keepsNotes_replaceWith p _

instance keepsNotes_redactArguments : redactArguments.KeepsNotes := Fix.keepsNotes_onCode _

instance keepsNotes_nameOrigins : nameOrigins.KeepsNotes := by
  unfold nameOrigins
  infer_instance

instance keepsNotes_loadDataOnly : loadDataOnly.KeepsNotes := by
  unfold loadDataOnly
  infer_instance

theorem notes_insertPolicy_go (fragment : List Text) :
    (fragment.filter isNote).Sublist (insertPolicy.go fragment) := by
  induction fragment with
  | nil => exact .slnil
  | cons line rest ih =>
    rw [insertPolicy.go]
    cases hn : isNote line with
    | true =>
      rw [List.filter_cons_of_pos hn]
      exact ih.cons_cons line
    | false =>
      rw [List.filter_cons_of_neg (by simp [hn])]
      simp only [Bool.false_eq_true, if_false]
      split
      · exact ih.cons line
      · split
        · exact (List.filter_sublist.cons _).cons line
        · exact List.filter_sublist.cons _

instance keepsNotes_insertPolicy : insertPolicy.KeepsNotes where
  notes_sublist {fragment l out} h := by
    obtain rfl := Option.some.inj h
    exact notes_insertPolicy_go fragment

/-- All built-in rules but one have fixes that keep notes. -/
theorem keepsNotes_of_mem : ∀ r ∈ builtinRules, r ≠ swallowedException → r.KeepsNotes := by
  simp only [builtinRules, List.forall_mem_append, List.forall_mem_cons, List.not_mem_nil,
    false_implies, implies_true, and_true, accessControl, cryptography, injection, design,
    misconfiguration, components, authentication, integrity, logging, requestForgery]
  and_intros
  all_goals first
    | exact fun _ => Rule.keepsNotes_of_fix rfl
    | exact fun hne => absurd rfl hne

/-! ## Filling a catch block -/

theorem emptyCatch_find?_nil : emptyCatch.find? [] = none := by decide +kernel

theorem lines_unlines_of_emptyCatch {fragment : List Text} {m : Match}
    (hlines : ∀ line ∈ fragment, Text.newline ∉ line)
    (hm : emptyCatch.find? (Text.unlines fragment) = some m) :
    Text.lines (Text.unlines fragment) = fragment := by
  refine Text.lines_unlines ?_ hlines
  rintro rfl
  exact absurd (hm.symm.trans emptyCatch_find?_nil) (by simp)

/-- The lines that an empty catch block stands on give way to others; the lines before and after
them stay. -/
theorem fillCatch_some {fragment : List Text} (l : Language) {m : Match}
    (hm : emptyCatch.find? (Text.unlines fragment) = some m) : ∃ written,
    fillCatch fragment l = some ((Text.unlines fragment).linesBefore m.start ++ written
      ++ (Text.unlines fragment).linesAfter m.stop) := by
  rw [fillCatch, hm]
  exact ⟨_, congrArg some (Text.lines_around _ _ _)⟩

end Builtin

/-! ## The notes that are kept -/

/-- The fix of a built-in rule keeps every note, unless it is the one that fills a catch block. That
one leaves a fragment without an empty catch block as it is. In any other it keeps the lines before
and after the first such block, and loses a note exactly when one that the block stands on is not
among the lines written in its place. -/
theorem builtin_notes_kept {r : Rule} {fix : Fix} {fragment out : List Text} {l : Language}
    (hr : r ∈ builtinRules) (hfix : r.fix = some fix) (hout : fix fragment l = some out) :
    (r ≠ Builtin.swallowedException → (fragment.filter isNote).Sublist out) ∧
    (r = Builtin.swallowedException →
      (Builtin.emptyCatch.find? (Text.unlines fragment) = none → out = fragment) ∧
      ∀ m, Builtin.emptyCatch.find? (Text.unlines fragment) = some m →
        (∀ line ∈ fragment, Text.newline ∉ line) →
        let text := Text.unlines fragment
        ∃ written,
          fragment = text.linesBefore m.start ++ text.linesAt m.start m.stop ++
            text.linesAfter m.stop ∧
          out = text.linesBefore m.start ++ written ++ text.linesAfter m.stop ∧
          ((fragment.filter isNote).Sublist out ↔
            ((text.linesAt m.start m.stop).filter isNote).Sublist written)) := by
  refine ⟨fun hne => ?_, ?_⟩
  · have := Builtin.keepsNotes_of_mem r hr hne fix hfix
    exact Fix.KeepsNotes.notes_sublist hout
  · rintro rfl
    obtain rfl : Builtin.fillCatch = fix := Option.some.inj hfix
    refine ⟨fun hnone => ?_, fun m hm hlines => ?_⟩
    · rw [Builtin.fillCatch, hnone] at hout
      exact (Option.some.inj hout).symm
    · obtain ⟨written, hfill⟩ := Builtin.fillCatch_some l hm
      have hout : out = _ := Option.some.inj (hout.symm.trans hfill)
      have hle : m.start ≤ m.stop := Nat.le_add_right m.start m.len
      have hfragment := Text.lines_eq_linesAt (Text.unlines fragment) hle
      rw [Builtin.lines_unlines_of_emptyCatch hlines hm] at hfragment
      exact ⟨written, hfragment, hout, filter_sublist_between hfragment hout⟩

theorem redirect_note_kept :
    ([utf8 "// SECURITY: checked.", utf8 "res.redirect(url)"].filter isNote).Sublist
      [utf8 "// SECURITY: checked.",
        utf8
          "// SECURITY: redirect only to relative paths or to targets listed in ALLOWED_REDIRECTS.",
        utf8 "res.redirect(url)"] := by
  have hmem : Builtin.openRedirect ∈ builtinRules := by
    simp [builtinRules, Builtin.accessControl]
  have hne : Builtin.openRedirect ≠ Builtin.swallowedException := fun h =>
    absurd (congrArg Rule.id h) (by decide +kernel)
  have hout : Fix.annotate
      "redirect only to relative paths or to targets listed in ALLOWED_REDIRECTS."
      [utf8 "// SECURITY: checked.", utf8 "res.redirect(url)"] .javaScript =
      some [utf8 "// SECURITY: checked.",
        utf8
          "// SECURITY: redirect only to relative paths or to targets listed in ALLOWED_REDIRECTS.",
        utf8 "res.redirect(url)"] := by
    decide +kernel
  exact (builtin_notes_kept hmem rfl hout).1 hne

/-- A note that quotes an empty catch block is split by the fix that fills it. -/
theorem quoted_catch_split :
    isNote (utf8 "// SECURITY: catch (e) \x7b\x7d") = true ∧
    Builtin.fillCatch [utf8 "// SECURITY: catch (e) \x7b\x7d"] .javaScript =
      some [utf8 "// SECURITY: catch (e) \x7b", utf8 "    console.error(e);", utf8 "\x7d"] ∧
    ¬ ([utf8 "// SECURITY: catch (e) \x7b\x7d"].filter isNote).Sublist
      [utf8 "// SECURITY: catch (e) \x7b", utf8 "    console.error(e);", utf8 "\x7d"] := by
  refine ⟨by decide +kernel, by decide +kernel, ?_⟩
  decide +kernel

end CodeAudit
