/-!
# Work that may be given up

* `exists_ok_of_any`: work whose result passes a test has a result.
* `mapM_eq_ok`, `exists_mapM`, `forall_of_mapM`: work on every item of a list has results when that
  on each of the items has one.
* `exists_of_mapM_eq_error`: it is given up for what the work on one of the items is given up for.
-/
namespace CodeAudit

theorem exists_ok_of_any {ε α : Type} {x : Except ε α} {p : α → Bool}
    (h : x.toOption.any p = true) :
    ∃ a, x = .ok a ∧ p a = true := by
  cases x with
  | error _ => cases h
  | ok a => exact ⟨a, rfl, h⟩

/-! ## Working through a list -/

section
variable {α β ε : Type} {f : α → Except ε β} {l : List α}

theorem mapM_eq_ok {g : α → β} (h : ∀ a ∈ l, f a = .ok (g a)) : l.mapM f = .ok (l.map g) := by
  induction l with
  | nil => rfl
  | cons a l ih =>
    obtain ⟨ha, hl⟩ := List.forall_mem_cons.1 h
    rw [List.mapM_cons, ha, ih hl]
    rfl

theorem exists_mapM (h : ∀ a ∈ l, ∃ b, f a = .ok b) :
    ∃ bs, l.mapM f = .ok bs := by
  induction l with
  | nil => exact ⟨[], rfl⟩
  | cons a l ih =>
    obtain ⟨b, hb⟩ := h a List.mem_cons_self
    obtain ⟨bs, hbs⟩ := ih fun c hc => h c (List.mem_cons_of_mem a hc)
    exact ⟨b :: bs, by rw [List.mapM_cons, hb, hbs]; rfl⟩

theorem forall_of_mapM {bs : List β}
    (h : l.mapM f = .ok bs) :
    (∀ a ∈ l, ∃ b, f a = .ok b) ∧ ∀ b ∈ bs, ∃ a ∈ l, f a = .ok b := by
  induction l generalizing bs with
  | nil =>
    obtain rfl := Except.ok.inj h
    simp
  | cons a l ih =>
    rw [List.mapM_cons] at h
    cases hb : f a with
    | error e =>
      rw [hb] at h
      cases h
    | ok b =>
      cases hrest : l.mapM f with
      | error e =>
        rw [hb, hrest] at h
        cases h
      | ok rest =>
        rw [hb, hrest] at h
        obtain rfl := Except.ok.inj h
        obtain ⟨hall, hfrom⟩ := ih hrest
        refine ⟨List.forall_mem_cons.2 ⟨⟨b, hb⟩, hall⟩,
          List.forall_mem_cons.2 ⟨⟨a, by simp, hb⟩, ?_⟩⟩
        intro c hc
        obtain ⟨d, hd, heq⟩ := hfrom c hc
        exact ⟨d, List.mem_cons_of_mem a hd, heq⟩

theorem exists_of_mapM_eq_error {e : ε}
    (h : l.mapM f = .error e) : ∃ a ∈ l, f a = .error e := by
  induction l with
  | nil => cases h
  | cons a l ih =>
    rw [List.mapM_cons] at h
    cases hb : f a with
    | error e' =>
      rw [hb] at h
      obtain rfl := Except.error.inj h
      exact ⟨a, List.mem_cons_self, hb⟩
    | ok b =>
      cases hrest : l.mapM f with
      | error e' =>
        rw [hb, hrest] at h
        obtain rfl := Except.error.inj h
        obtain ⟨c, hc, heq⟩ := ih hrest
        exact ⟨c, List.mem_cons_of_mem a hc, heq⟩
      | ok rest =>
        rw [hb, hrest] at h
        cases h

end
end CodeAudit
