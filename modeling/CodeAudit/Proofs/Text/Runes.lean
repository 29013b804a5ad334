import CodeAudit.Text.Rune

/-!
# Runes of a piece of text

A text is read rune by rune from the left, and how a byte is read depends on those that follow it.
At the end of a rune the text can be cut, and around an ASCII byte two texts can be put together:
the runes of the parts are the parts of the runes.

**Results.**
* `runes_split`: the runes of both sides of a cut between two runes.
* `runes_append`, `runes_append_of_getLast?`: the runes of two texts put together.
* `eq_of_mem_raw`, `eq_of_code_lt`: an ASCII byte is a rune of its own, and so is an ASCII code
  point.
* `toNat_of_mem_encodeRune`: an ASCII byte is written for its own code point only.
-/
namespace CodeAudit
namespace Text

/-! ## One rune -/

theorem width_readRune_pos (a : UInt8) (t : Text) : 0 < (readRune a t).width := by
  rw [Rune.width, readRune_raw]
  simp

theorem runesFrom_eq (k : Nat) (t : Text) : runesFrom k t = runes (t.drop k) := by
  induction k generalizing t with
  | zero => rfl
  | succ k ih =>
    cases t with
    | nil => rfl
    | cons b t => exact ih t

theorem runes_cons (a : UInt8) (t : Text) :
    runes (a :: t) = readRune a t :: runes (t.drop ((readRune a t).width - 1)) := by
  rw [← runesFrom_eq]
  rfl

theorem exists_readRune_of_mem {t : Text} {r : Rune} (h : r ∈ t.runes) :
    ∃ a u, r = readRune a u := by
  induction hn : t.length using Nat.strongRecOn generalizing t with
  | ind n ih =>
    cases t with
    | nil => cases h
    | cons a t =>
      rw [runes_cons] at h
      rcases List.mem_cons.1 h with rfl | h
      · exact ⟨a, t, rfl⟩
      · exact ih _ (by simp at hn ⊢; omega) h rfl

theorem width_pos_of_mem_runes {t : Text} {r : Rune} (h : r ∈ t.runes) : 0 < r.width := by
  obtain ⟨a, u, rfl⟩ := exists_readRune_of_mem h
  exact width_readRune_pos a u

/-- A rune is read from its own bytes alone. -/
theorem readRune_take {a : UInt8} {t : Text} {k : Nat} (hk : (readRune a t).width - 1 ≤ k) :
    readRune a (t.take k) = readRune a t := by
  unfold readRune at hk ⊢
  rcases t with _ | ⟨b, _ | ⟨c, _ | ⟨d, t⟩⟩⟩ <;> rcases k with _ | _ | _ | k <;>
    simp only [List.take_zero, List.take_succ_cons, List.take_nil, Rune.width] at hk ⊢ <;> grind

theorem isTail_of_lt {b : UInt8} (hb : b < 0x80) : isTail b = false := by
  unfold isTail
  grind

theorem second3_of_isTail {a b : UInt8} (hb : isTail b = false) : second3 a b = false := by
  unfold second3
  unfold isTail at *
  grind

theorem second4_of_isTail {a b : UInt8} (hb : isTail b = false) : second4 a b = false := by
  unfold second4
  unfold isTail at *
  grind

/-- A byte that follows no other one in a rune does not belong to a rune that starts before it. -/
theorem readRune_append (a : UInt8) (t : Text) {b : UInt8} (h : isTail b = false) (u : Text) :
    readRune a (t ++ b :: u) = readRune a t := by
  have h3 := @second3_of_isTail a b h
  have h4 := @second4_of_isTail a b h
  unfold readRune
  split
  · rfl
  · rcases t with _ | ⟨c, _ | ⟨d, _ | ⟨e, t⟩⟩⟩ <;>
      simp only [List.nil_append, List.cons_append, h, h3, h4, Bool.and_false, Bool.false_and,
        Bool.false_eq_true, if_false]
    all_goals repeat' split
    all_goals rfl

theorem readRune_ascii {b : UInt8} (hb : b < 0x80) (t : Text) : readRune b t = ⟨b.toNat, [b]⟩ := by
  unfold readRune
  rw [if_pos hb]

theorem runes_ascii_cons {b : UInt8} (hb : b < 0x80) (t : Text) :
    runes (b :: t) = ⟨b.toNat, [b]⟩ :: runes t := by
  rw [runes_cons, readRune_ascii hb]
  rfl

theorem eq_of_mem_raw_readRune {a b : UInt8} {t : Text} (hb : b < 0x80)
    (h : b ∈ (readRune a t).raw) :
    readRune a t = ⟨b.toNat, [b]⟩ := by
  have htail := isTail_of_lt hb
  have h3 := @second3_of_isTail a b htail
  have h4 := @second4_of_isTail a b htail
  unfold readRune at h ⊢
  rcases t with _ | ⟨c, _ | ⟨d, _ | ⟨e, t⟩⟩⟩ <;> simp only at h ⊢ <;> grind

/-- An ASCII byte is a rune of its own. -/
theorem eq_of_mem_raw {t : Text} {r : Rune} (hr : r ∈ t.runes) {b : UInt8} (hb : b < 0x80)
    (h : b ∈ r.raw) : r = ⟨b.toNat, [b]⟩ := by
  obtain ⟨a, u, rfl⟩ := exists_readRune_of_mem hr
  exact eq_of_mem_raw_readRune hb h

theorem le_of_second3 {a b : UInt8} (h : second3 a b = true) :
    2048 ≤ (a.toNat - 0xE0) * 4096 + low6 b * 64 := by
  simp only [second3, isTail, low6, beq_iff_eq, ← UInt8.toNat_inj] at *
  split at h
  · simp [UInt8.le_iff_toNat_le] at *
    omega
  · split at h
    · simp [UInt8.le_iff_toNat_le] at *
      omega
    · simp [UInt8.le_iff_toNat_le] at *
      omega

theorem le_of_second4 {a b : UInt8} (h : second4 a b = true) :
    65536 ≤ (a.toNat - 0xF0) * 262144 + low6 b * 4096 := by
  simp only [second4, isTail, low6, beq_iff_eq, ← UInt8.toNat_inj] at *
  split at h
  · simp [UInt8.le_iff_toNat_le] at *
    omega
  · split at h
    · simp [UInt8.le_iff_toNat_le] at *
      omega
    · simp [UInt8.le_iff_toNat_le] at *
      omega

/-- Only an ASCII byte is read as an ASCII code point. -/
theorem lt_of_code_readRune {a : UInt8} {t : Text} (h : (readRune a t).code < 0x80) : a < 0x80 := by
  have hstray : ¬ replacement < 0x80 := by decide
  unfold readRune at h
  split at h
  · assumption
  split at h
  · exact absurd h hstray
  split at h
  · rename_i hb
    simp only [Bool.and_eq_true, decide_eq_true_eq, UInt8.le_iff_toNat_le] at hb
    have := hb.1.1
    simp at this h
    omega
  split at h
  · exact absurd h hstray
  split at h
  · rename_i hc
    rw [Bool.and_eq_true] at hc
    have := le_of_second3 hc.1
    simp only at h
    omega
  split at h
  · exact absurd h hstray
  split at h
  · rename_i hd
    rw [Bool.and_eq_true, Bool.and_eq_true] at hd
    have := le_of_second4 hd.1.1
    simp only at h
    omega
  · exact absurd h hstray

/-- An ASCII code point is read from one byte. -/
theorem eq_of_code_lt {t : Text} {r : Rune} (hr : r ∈ t.runes) (h : r.code < 0x80) :
    ∃ b : UInt8, b < 0x80 ∧ r = ⟨b.toNat, [b]⟩ := by
  obtain ⟨a, u, rfl⟩ := exists_readRune_of_mem hr
  have ha := lt_of_code_readRune h
  exact ⟨a, ha, readRune_ascii ha u⟩

theorem not_toUInt8_lt {n : Nat} (hle : 0x80 ≤ n) (hlt : n < 0x100) : ¬ n.toUInt8 < 0x80 := by
  rw [UInt8.lt_iff_toNat_lt, Nat.toUInt8_eq, UInt8.toNat_ofNat', Nat.mod_eq_of_lt hlt]
  exact Nat.not_lt.2 hle

theorem not_lt_of_mem_encodeRune {c : Nat} (hc : ¬ c < 0x80) : ∀ b ∈ encodeRune c, ¬ b < 0x80 := by
  unfold encodeRune
  rw [if_neg hc]
  split
  · simp only [List.forall_mem_cons]
    exact ⟨not_toUInt8_lt (by omega) (by omega), not_toUInt8_lt (by omega) (by omega), by simp⟩
  split
  · simp only [List.forall_mem_cons]
    exact ⟨by decide, by decide, by decide, by simp⟩
  rename_i hcode
  simp only [Bool.or_eq_true, decide_eq_true_eq, not_or] at hcode
  split
  · simp only [List.forall_mem_cons]
    exact ⟨not_toUInt8_lt (by omega) (by omega), not_toUInt8_lt (by omega) (by omega),
      not_toUInt8_lt (by omega) (by omega), by simp⟩
  · simp only [List.forall_mem_cons]
    exact ⟨not_toUInt8_lt (by omega) (by omega), not_toUInt8_lt (by omega) (by omega),
      not_toUInt8_lt (by omega) (by omega), not_toUInt8_lt (by omega) (by omega), by simp⟩

theorem encodeRune_toNat {b : UInt8} (hb : b < 0x80) : encodeRune b.toNat = [b] := by
  have hlt : b.toNat < 0x80 := UInt8.lt_iff_toNat_lt.1 hb
  rw [encodeRune, if_pos hlt, Nat.toUInt8_eq, UInt8.ofNat_toNat]

/-- An ASCII byte is written for its own code point only. -/
theorem toNat_of_mem_encodeRune {c : Nat} {b : UInt8} (h : b ∈ encodeRune c) (hb : b < 0x80) :
    b.toNat = c := by
  by_cases hc : c < 0x80
  · rw [encodeRune, if_pos hc] at h
    rw [List.mem_singleton.1 h, Nat.toUInt8_eq, UInt8.toNat_ofNat']
    omega
  · exact absurd hb (not_lt_of_mem_encodeRune hc b h)

/-- A rune that can be read starts with a byte that follows no other one. -/
theorem isTail_of_code_readRune {a : UInt8} {t : Text} (h : (readRune a t).code ≠ replacement) :
    isTail a = false := by
  unfold readRune at h
  unfold isTail
  rcases t with _ | ⟨b, _ | ⟨c, _ | ⟨d, t⟩⟩⟩ <;> simp only at h <;> grind [second3, second4]

theorem head?_of_codes {t : Text} {c : Nat} (h : t.codes.head? = some c) (hc : c ≠ replacement) :
    ∃ b, t.head? = some b ∧ isTail b = false := by
  cases t with
  | nil => cases h
  | cons a t =>
    rw [codes, runes_cons, List.map_cons, List.head?_cons, Option.some.injEq] at h
    exact ⟨a, rfl, isTail_of_code_readRune (by rwa [h])⟩

theorem getLast?_of_codes {t : Text} {c : Nat} (h : t.codes.getLast? = some c) (hc : c < 0x80) :
    ∃ b, t.getLast? = some b ∧ b < 0x80 := by
  rw [codes, List.getLast?_map, Option.map_eq_some_iff] at h
  obtain ⟨r, hr, rfl⟩ := h
  obtain ⟨rs, hrs⟩ := List.getLast?_eq_some_iff.1 hr
  obtain ⟨b, hb, hrb⟩ := eq_of_code_lt (List.mem_of_getLast? hr) hc
  refine ⟨b, ?_, hb⟩
  rw [← ofRunes_runes t, hrs, hrb]
  simp [ofRunes]

/-! ## Texts put together -/

theorem runes_append (t : Text) {b : UInt8} (hb : isTail b = false) (u : Text) :
    runes (t ++ b :: u) = runes t ++ runes (b :: u) := by
  induction hn : t.length using Nat.strongRecOn generalizing t with
  | ind n ih =>
    cases t with
    | nil => rfl
    | cons a t =>
      have hwidth : (readRune a t).width - 1 ≤ t.length := by
        have := congrArg List.length (readRune_raw a t)
        rw [List.length_cons, List.length_take] at this
        rw [Rune.width]
        omega
      rw [List.cons_append, runes_cons, readRune_append a t hb,
        List.drop_append_of_le_length hwidth,
        ih _ (by simp at hn ⊢; omega) _ rfl, runes_cons a t, List.cons_append]

theorem codes_of_ascii {t : Text} (ht : ∀ b ∈ t, b < 0x80) : t.codes = t.map UInt8.toNat := by
  induction t with
  | nil => rfl
  | cons b t ih =>
    rw [codes, runes_ascii_cons (ht b List.mem_cons_self), List.map_cons, List.map_cons]
    exact congrArg _ (ih fun c hc => ht c (List.mem_cons_of_mem b hc))

theorem runes_append_of_getLast? {s : Text} {b : UInt8} (hs : s.getLast? = some b) (hb : b < 0x80)
    (t : Text) :
    runes (s ++ t) = runes s ++ runes t := by
  obtain ⟨u, rfl⟩ := List.getLast?_eq_some_iff.1 hs
  rw [List.append_assoc, List.singleton_append, runes_append u (isTail_of_lt hb),
    runes_append u (isTail_of_lt hb), runes_ascii_cons hb, runes_ascii_cons hb, List.append_assoc]
  rfl

/-! ## A text cut between two runes -/

@[simp] theorem ofRunes_nil : ofRunes [] = [] := rfl

@[simp] theorem ofRunes_cons (r : Rune) (rs : List Rune) :
    ofRunes (r :: rs) = r.raw ++ ofRunes rs := by
  simp [ofRunes]

@[simp] theorem ofRunes_append (rs ss : List Rune) :
    ofRunes (rs ++ ss) = ofRunes rs ++ ofRunes ss := by
  simp [ofRunes]

theorem runes_split {t : Text} {rs ss : List Rune} (h : t.runes = rs ++ ss) :
    (ofRunes rs).runes = rs ∧ (ofRunes ss).runes = ss := by
  induction rs generalizing t with
  | nil =>
    refine ⟨rfl, ?_⟩
    rw [List.nil_append] at h
    rw [← h, ofRunes_runes]
  | cons r rs ih =>
    cases t with
    | nil => cases h
    | cons a t =>
      rw [runes_cons, List.cons_append, List.cons.injEq] at h
      obtain ⟨rfl, hrest⟩ := h
      obtain ⟨hrs, hss⟩ := ih hrest
      refine ⟨?_, hss⟩
      -- the rune and those kept behind it are a beginning of the text, long enough to read the rune
      have htail : t.drop ((readRune a t).width - 1) = ofRunes rs ++ ofRunes ss := by
        rw [← ofRunes_append, ← hrest, ofRunes_runes]
      have hlen := congrArg List.length (readRune_raw a t)
      rw [List.length_cons, List.length_take] at hlen
      have hwidth : (readRune a t).width - 1 ≤ t.length := by
        rw [Rune.width]
        omega
      have hbegin : t.take ((readRune a t).width - 1) ++ ofRunes rs =
          t.take ((readRune a t).width - 1 + (ofRunes rs).length) := by
        rw [List.take_add, htail, List.take_left]
      have hread : readRune a (t.take ((readRune a t).width - 1 + (ofRunes rs).length)) =
          readRune a t :=
        readRune_take (Nat.le_add_right _ _)
      rw [ofRunes_cons, readRune_raw, List.cons_append, hbegin, runes_cons, hread, List.drop_take,
        Nat.add_sub_cancel_left, htail, List.take_left, hrs]

end Text
end CodeAudit
