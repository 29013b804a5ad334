import CodeAudit.Text.Basic

/-!
# 64-bit integers

Counts, line numbers and limits are 64-bit two's complement integers. They are kept as `Int`;
`wrap` brings a sum or difference back into the range where it may have left it. Where it does so,
what follows may look for a place that a list does not have: an `Overrun`.
-/
namespace CodeAudit

/-- The integer congruent modulo `2 ^ 64` in the range from `-2 ^ 63` to `2 ^ 63 - 1`. -/
def wrap (n : Int) : Int := n.bmod 18446744073709551616

def maxWord : Int := 9223372036854775807

def minWord : Int := -9223372036854775808

/-- Whether an integer fits in 64 bits. -/
def fitsWord (n : Int) : Bool := minWord ≤ n && n ≤ maxWord

/-- Why a piece of work on lists is given up. -/
inductive Overrun where
  /-- A place that a list does not have. -/
  | index (i : Int)
  /-- A piece of a list that stops before the list starts, or behind its end. -/
  | stop (last : Int) (capacity : Nat)
  /-- A piece of a list that starts before the list, or behind its own end. -/
  | start (first last : Int)
  /-- Room for more items than any list may have. -/
  | room
  deriving DecidableEq, Repr

def Overrun.message : Overrun → Text
  | .index i => "runtime error: index out of range [" ++ Text.ofInt i ++ "]"
  | .stop last capacity => "runtime error: slice bounds out of range [:" ++ Text.ofInt last ++ "]"
    ++ if last < 0 then [] else utf8 " with capacity " ++ Text.ofInt capacity
  | .start first last => "runtime error: slice bounds out of range [" ++ Text.ofInt first ++ ":"
    ++ (if first < 0 then [] else Text.ofInt last) ++ "]"
  | .room => "runtime error: makeslice: cap out of range"

theorem minWord_eq : minWord = -9223372036854775808 := rfl

theorem maxWord_eq : maxWord = 9223372036854775807 := rfl

theorem fitsWord_iff {n : Int} : fitsWord n = true ↔ minWord ≤ n ∧ n ≤ maxWord := by
  simp [fitsWord]

/-- An integer in range is not changed. -/
theorem wrap_of_fits {n : Int} (h : fitsWord n = true) : wrap n = n := by
  rw [fitsWord_iff, minWord_eq, maxWord_eq] at h
  unfold wrap
  apply Int.bmod_eq_of_le <;> simp <;> omega

theorem fitsWord_wrap (n : Int) : fitsWord (wrap n) = true := by
  rw [fitsWord_iff, minWord_eq, maxWord_eq, wrap, Int.bmod_def]
  split <;> omega

theorem wrap_wrap_add (a b : Int) : wrap (wrap a + b) = wrap (a + b) := by
  simp [wrap]

theorem wrap_le {n : Int} (h : 0 ≤ n) : wrap n ≤ n := by
  rw [wrap, Int.bmod_def]
  split <;> omega

/-- A sum of two words that is out of range becomes negative. -/
theorem wrap_lt_zero {n : Int} (h : maxWord < n) (hle : n ≤ maxWord + maxWord) : wrap n < 0 := by
  rw [maxWord_eq] at h hle
  rw [wrap, Int.bmod_def]
  split <;> omega

end CodeAudit
