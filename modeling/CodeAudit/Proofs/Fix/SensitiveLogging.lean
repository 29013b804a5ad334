import CodeAudit.Builtin.Logging
import CodeAudit.Proofs.Fix.Redaction
import CodeAudit.Proofs.Pattern.Closed

/-!
# Sensitive names in log calls

A line is at fault when the arguments of its first log call name something sensitive outside of
literals, and the fix puts a mask in the place of such names. Both look at the line in the same way:
at the text behind the opening bracket of the call. The masks are literals and leave the old
literals alone, so behind the bracket nothing sensitive is left; and the call is found again at the
same place, since its pattern does not look behind the bracket.

**Results.**
* `mem_sensitiveLogging`: the lines that are at fault.
* `redactSensitive_ne_iff`, `literals_redactSensitive`: what redaction changes and what it keeps.
* `find?_redactedLine`: the log call of a redacted line.
* `sensitive_logging_redacted`: detection and redaction.
-/
namespace CodeAudit.Builtin

/-- What takes the place of a sensitive name. -/
def redactionMask : Text := r#""[REDACTED]""#

theorem isLiteral_redactionMask : Code.IsLiteral redactionMask := by
  refine ⟨34, "[REDACTED]", by decide +kernel, rfl, fun u => ?_⟩
  rw [Code.closing?_eq_length_iff (by decide)]
  exact ⟨Code.not_bare_of_not_mem (by decide +kernel), by decide +kernel⟩

theorem redactSensitive_eq (t : Text) :
    redactSensitive t = redactOutside sensitiveName (redactionMask.map .text) t := by
  rw [redactSensitive,
    show Template.read "\"[REDACTED]\"" = redactionMask.map .text by decide +kernel]

/-- A sensitive name has at least one code point, and what stands around it does not matter. -/
theorem shape_sensitiveName :
    sensitiveName.solid = true ∧ sensitiveName.anchors = [] := by decide +kernel

/-- A log call ends at its first opening bracket, and only its start has a condition. -/
theorem shape_logCall :
    logCall.frontAnchored = true ∧ logCall.closedBy 40 = true := by decide +kernel

theorem redactSensitive_idem (t : Text) :
    redactSensitive (redactSensitive t) = redactSensitive t := by
  rw [redactSensitive_eq, redactSensitive_eq]
  exact redactOutside_idem shape_sensitiveName.1 shape_sensitiveName.2 isLiteral_redactionMask t

/-- Something is redacted when a sensitive name stands outside of the literals. -/
theorem redactSensitive_ne_iff (t : Text) : redactSensitive t ≠ t ↔ ∃ pairs rest tail,
    Code.Parts t pairs rest tail ∧
      ∃ s ∈ rest :: pairs.map Prod.fst, sensitiveName.matchesIn s = true := by
  have hiff : ∀ {pairs rest tail}, Code.Parts t pairs rest tail →
      (redactSensitive t = t ↔
        ∀ s ∈ rest :: pairs.map Prod.fst, sensitiveName.matchesIn s = false) := by
    intro pairs rest tail hparts
    rw [redactSensitive_eq]
    exact redactOutside_eq_self_iff shape_sensitiveName.1 shape_sensitiveName.2
      isLiteral_redactionMask hparts
  constructor
  · intro hne
    obtain ⟨pairs, rest, tail, hparts⟩ := Code.exists_parts t
    rw [Ne, hiff hparts] at hne
    simp only [Classical.not_forall, Bool.not_eq_false, exists_prop] at hne
    exact ⟨pairs, rest, tail, hparts, hne⟩
  · rintro ⟨pairs, rest, tail, hparts, s, hs, hmatch⟩ hsame
    rw [(hiff hparts).1 hsame s hs] at hmatch
    cases hmatch

/-- The literals of redacted arguments are those of the arguments, with masks between them. -/
theorem literals_redactSensitive (t : Text) :
    ((Code.literals t).map Code.Literal.text).Sublist
      ((Code.literals (redactSensitive t)).map Code.Literal.text) ∧
      ((Code.literals (redactSensitive t)).map Code.Literal.text).filter (· != redactionMask) =
        ((Code.literals t).map Code.Literal.text).filter (· != redactionMask) := by
  obtain ⟨pairs, rest, tail, hparts⟩ := Code.exists_parts t
  obtain ⟨pairs', rest', hparts', hredacted⟩ :=
    hparts.redact shape_sensitiveName.1 shape_sensitiveName.2 isLiteral_redactionMask
  rw [redactSensitive_eq, hparts.map_text_literals, hparts'.map_text_literals]
  exact ⟨hredacted.kept, hredacted.others⟩

/-! ## Lines at fault -/

theorem mem_sensitiveLogging {d : Document} {l : Language} {i : Nat} {line : Text}
    (h : d.lines[i]? = some line) :
    (i : Int) ∈ sensitiveLogging d l ↔ l.isCommentLine line.trim = false ∧ isNote line = false ∧
      ∃ m, logCall.find? line = some m ∧ redactSensitive (line.drop m.stop) ≠ line.drop m.stop := by
  have hmem : (i : Int) ∈ sensitiveLogging d l ↔ sensitiveLogging.isHit l line = true := by
    unfold sensitiveLogging
    simp only [List.mem_map, List.mem_filter, Prod.exists, List.mem_zipIdx_iff_getElem?]
    constructor
    · rintro ⟨x, j, ⟨hx, hhit⟩, hj⟩
      obtain rfl : j = i := by omega
      obtain rfl := Option.some.inj (hx.symm.trans h)
      exact hhit
    · exact fun hhit => ⟨line, i, ⟨h, hhit⟩, rfl⟩
  rw [hmem, sensitiveLogging.isHit]
  cases hfind : logCall.find? line with
  | none => simp
  | some m => simp [and_assoc]

/-- A line with its sensitive names masked. -/
def redactedLine (line : Text) : Text :=
  match logCall.find? line with
  | none => line
  | some m => line.take m.stop ++ redactSensitive (line.drop m.stop)

theorem redactArguments_line {line : Text} (hnote : isNote line = false) (l : Language) :
    redactArguments [line] l = some [redactedLine line] := by
  have heq : redactArguments [line] l = some [if isNote line then line else redactedLine line] :=
    rfl
  rw [heq, hnote]
  rfl

theorem redactedLine_of_none {line : Text} (h : logCall.find? line = none) :
    redactedLine line = line := by
  simp [redactedLine, h]

section

variable {line : Text} {m : Match} (h : logCall.find? line = some m)
include h

theorem take_redactedLine : (redactedLine line).take m.stop = line.take m.stop := by
  have hle := Pattern.find?_stop_le h
  simp [redactedLine, h, hle]

theorem drop_redactedLine :
    (redactedLine line).drop m.stop = redactSensitive (line.drop m.stop) := by
  have hle := Pattern.find?_stop_le h
  simp [redactedLine, h, hle]

theorem redactedLine_eq_iff :
    redactedLine line = line ↔ redactSensitive (line.drop m.stop) = line.drop m.stop := by
  constructor
  · intro hsame
    rw [← drop_redactedLine h, hsame]
  · intro hsame
    rw [← List.take_append_drop m.stop (redactedLine line), take_redactedLine h,
      drop_redactedLine h, hsame, List.take_append_drop]

/-- The log call of a redacted line is where it was. -/
theorem find?_redactedLine :
    ∃ m', logCall.find? (redactedLine line) = some m' ∧ m'.stop = m.stop := by
  rw [← List.take_append_drop m.stop (redactedLine line), take_redactedLine h]
  exact Pattern.find?_take_append (c := 40) (by decide)
    (by decide) shape_logCall.1 shape_logCall.2 h _

end

/-- A redacted line is not at fault. -/
theorem not_mem_sensitiveLogging_redactedLine {line : Text} {d : Document} {i : Nat} (l : Language)
    (hline : d.lines[i]? = some (redactedLine line)) : (i : Int) ∉ sensitiveLogging d l := by
  rw [mem_sensitiveLogging hline]
  rintro ⟨-, -, m', hm', hne⟩
  cases hfind : logCall.find? line with
  | none =>
    rw [redactedLine_of_none hfind, hfind] at hm'
    cases hm'
  | some m =>
    obtain ⟨m'', hm'', hstop⟩ := find?_redactedLine hfind
    obtain rfl := Option.some.inj (hm'.symm.trans hm'')
    rw [hstop, drop_redactedLine hfind, redactSensitive_idem] at hne
    exact hne rfl

/-- **Detection and redaction.** For a line of code the fix returns one line. The line was at fault
exactly when the two differ, which is when a sensitive name stands outside of the literals behind
the bracket of its log call; the new line is never at fault. It begins like the old one, up to that
bracket, and behind the bracket all literals of the old line are kept in their order, with nothing
but masks added. What is redacted once stays as it is. -/
theorem sensitive_logging_redacted {l : Language} {line : Text}
    (hcode : l.isCommentLine line.trim = false) (hnote : isNote line = false) :
    ∃ new, redactArguments [line] l = some [new] ∧
      (∀ (d : Document) (i : Nat), d.lines[i]? = some line →
        ((i : Int) ∈ sensitiveLogging d l ↔ new ≠ line)) ∧
      (new ≠ line ↔ ∃ m pairs rest tail, logCall.find? line = some m ∧
        Code.Parts (line.drop m.stop) pairs rest tail ∧
        ∃ s ∈ rest :: pairs.map Prod.fst, sensitiveName.matchesIn s = true) ∧
      (∀ (d : Document) (i : Nat) (l' : Language), d.lines[i]? = some new →
        (i : Int) ∉ sensitiveLogging d l') ∧
      (∀ m, logCall.find? line = some m → new.take m.stop = line.take m.stop ∧
        ((Code.literals (line.drop m.stop)).map Code.Literal.text).Sublist
          ((Code.literals (new.drop m.stop)).map Code.Literal.text) ∧
        ((Code.literals (new.drop m.stop)).map Code.Literal.text).filter (· != redactionMask) =
          ((Code.literals (line.drop m.stop)).map Code.Literal.text).filter (· != redactionMask)) ∧
      ∀ t, redactSensitive (redactSensitive t) = redactSensitive t := by
  refine ⟨_, redactArguments_line hnote l, fun d i hline => ?_, ?_,
    fun d i l' => not_mem_sensitiveLogging_redactedLine l', fun m hfind => ?_, redactSensitive_idem⟩
  · rw [mem_sensitiveLogging hline]
    cases hfind : logCall.find? line with
    | none => simp [redactedLine_of_none hfind]
    | some m => simp [hcode, hnote, redactedLine_eq_iff hfind]
  · cases hfind : logCall.find? line with
    | none => simp [redactedLine_of_none hfind]
    | some m =>
      rw [Ne, redactedLine_eq_iff hfind, ← Ne, redactSensitive_ne_iff]
      simp
  · rw [drop_redactedLine hfind]
    exact ⟨take_redactedLine hfind, literals_redactSensitive _⟩

/-- A password is logged next to a literal that speaks of it. -/
theorem logged_password_masked :
    let line : Text := r#"print("pwd", pwd)"#
    let new : Text := r#"print("pwd", "[REDACTED]")"#
    redactArguments [line] .python = some [new] ∧
      (0 : Int) ∈ sensitiveLogging ⟨line⟩ .python ∧ (0 : Int) ∉ sensitiveLogging ⟨new⟩ .python ∧
      [utf8 r#""pwd""#].Sublist ((Code.literals (new.drop 6)).map Code.Literal.text) := by
  intro line new
  have hcode : Language.isCommentLine .python (Text.trim line) = false := by decide +kernel
  have hnew : redactArguments [line] .python = some [new] := by decide +kernel
  obtain ⟨x, hx, hflag, -, hclear, hkept, -⟩ := sensitive_logging_redacted hcode (by decide +kernel)
  obtain rfl : new = x := by simpa [hnew] using hx
  have hfind : (logCall.find? line).map Match.stop = some 6 := by decide +kernel
  obtain ⟨m, hm, hstop⟩ := Option.map_eq_some_iff.1 hfind
  obtain ⟨-, hsub, -⟩ := hkept m hm
  rw [hstop,
    show (Code.literals (line.drop 6)).map Code.Literal.text = [utf8 r#""pwd""#] by
      decide +kernel] at hsub
  exact ⟨hnew, (hflag ⟨line⟩ 0 (by decide +kernel)).2 (by decide +kernel),
    hclear ⟨new⟩ 0 _ (by decide +kernel), hsub⟩

end CodeAudit.Builtin
