import CodeAudit.Service.Basic
import Mathlib.Algebra.Group.Nat.Defs

/-!
# What is relied on of identifiers

A service draws its identifiers from a sequence that it is given. What is relied on of the sequence
is the form of an identifier, 36 bytes that are hexadecimal digits and dashes (`Identifies`), and
that those drawn so far differ from each other (`DistinctBelow`). There are no more than finitely
many texts of that form, so no sequence has only differing members.

**Results.**
* `Identifies.ne_nil`, `Identifies.slash_not_mem`, `Identifies.ascii`: an identifier is a segment of
  a path, and it is read from an answer as it is.
* `identifies_numberedIds`, `distinctBelow_numberedIds`: a sequence that counts is of that form, and
  it takes long to repeat itself.
-/
namespace CodeAudit

/-- A byte that may stand in an identifier. -/
def isIdentifierByte (b : UInt8) : Bool := b == 45 || Text.isDigit b || (97 ≤ b && b ≤ 102)

/-- The form of identifiers. -/
structure Identifies (ids : Nat → Text) : Prop where
  length : ∀ n, (ids n).length = 36
  bytes : ∀ n, ∀ b ∈ ids n, isIdentifierByte b = true

/-- That the first `n` identifiers differ. -/
def DistinctBelow (ids : Nat → Text) (n : Nat) : Prop := ∀ i < n, ∀ j < n, ids i = ids j → i = j

section Form

variable {ids : Nat → Text}

theorem Identifies.ne_nil (h : Identifies ids) (n : Nat) : ids n ≠ [] := by
  intro hnil
  have hlength := h.length n
  rw [hnil] at hlength
  cases hlength

theorem Identifies.slash_not_mem (h : Identifies ids) (n : Nat) : 47 ∉ ids n := fun hmem =>
  absurd (h.bytes n 47 hmem) (by decide)

theorem Identifies.ascii (h : Identifies ids) (n : Nat) : ∀ b ∈ ids n, b < 0x80 := by
  intro b hb
  have hbyte := h.bytes n b hb
  simp only [isIdentifierByte, Text.isDigit, Bool.or_eq_true, Bool.and_eq_true, beq_iff_eq,
    decide_eq_true_eq] at hbyte
  grind

end Form

/-! ## Identifiers that count -/

theorem length_hexDigits (w n : Nat) : (hexDigits w n).length = w := by
  induction w generalizing n with
  | zero => rfl
  | succ w ih => simp [hexDigits, ih]

theorem hexDigit_inj {a b : Nat} (ha : a < 16) (hb : b < 16) (h : hexDigit a = hexDigit b) :
    a = b := by
  have hall : ∀ a < 16, ∀ b < 16, hexDigit a = hexDigit b → a = b := by decide
  exact hall a ha b hb h

/-- Numbers with as many digits as are written are told apart by them. -/
theorem hexDigits_inj {w : Nat} : ∀ {m n : Nat}, m < 16 ^ w → n < 16 ^ w →
    hexDigits w m = hexDigits w n → m = n := by
  induction w with
  | zero =>
    intro m n hm hn _
    omega
  | succ w ih =>
    intro m n hm hn h
    rw [Nat.pow_succ] at hm hn
    obtain ⟨hrest, hlast⟩ := List.append_inj' h rfl
    have hdiv : m / 16 = n / 16 := ih (by omega) (by omega) hrest
    have hmod : m % 16 = n % 16 :=
      hexDigit_inj (Nat.mod_lt _ (by decide)) (Nat.mod_lt _ (by decide))
        (List.singleton_inj.1 hlast)
    omega

theorem all_hexDigits (w : Nat) : ∀ n, (hexDigits w n).all isIdentifierByte = true := by
  have hdigit : ∀ d < 16, isIdentifierByte (hexDigit d) = true := by decide
  induction w with
  | zero => intro n; rfl
  | succ w ih =>
    intro n
    simp [hexDigits, ih, hdigit (n % 16) (Nat.mod_lt n (by decide))]

/-- Identifiers whose last part counts from one on. -/
def numberedIds (n : Nat) : Text := "00000000-0000-4000-8000-" ++ hexDigits 12 (n + 1)

theorem identifies_numberedIds : Identifies numberedIds := by
  refine ⟨fun n => ?_, fun n b hb => ?_⟩
  · rw [numberedIds, List.length_append, length_hexDigits]
    decide
  · obtain hb | hb := List.mem_append.1 hb
    · have hall : (utf8 "00000000-0000-4000-8000-").all isIdentifierByte = true := by decide
      exact List.all_eq_true.1 hall b hb
    · exact List.all_eq_true.1 (all_hexDigits 12 (n + 1)) b hb

theorem distinctBelow_numberedIds {n : Nat} (h : n < 16 ^ 12) : DistinctBelow numberedIds n := by
  intro i hi j hj hsame
  have hnumbers := hexDigits_inj (by omega) (by omega) (List.append_cancel_left hsame)
  omega

end CodeAudit
