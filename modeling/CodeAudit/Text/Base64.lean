import CodeAudit.Text.Basic

/-!
# Base-64 text

Three bytes are written as four characters of six bits each; equals signs fill up the last group.
Line ends between the characters do not count.

* `Text.fromBase64?`: the bytes that a text stands for.
-/
namespace CodeAudit.Text.Base64

def sextet? (b : UInt8) : Option Nat :=
  if 65 ≤ b && b ≤ 90 then some (b.toNat - 65)
  else if 97 ≤ b && b ≤ 122 then some (b.toNat - 71)
  else if 48 ≤ b && b ≤ 57 then some (b.toNat + 4)
  else if b == 43 then some 62
  else if b == 47 then some 63
  else none

/-- The bytes of base-64 characters in groups of four; the last group may be filled up. -/
def groups? : Text → Option Text
  | [] => some []
  | [a, b, 61, 61] => do
    let x ← sextet? a
    let y ← sextet? b
    return [(x * 4 + y / 16).toUInt8]
  | [a, b, c, 61] => do
    let x ← sextet? a
    let y ← sextet? b
    let z ← sextet? c
    return [(x * 4 + y / 16).toUInt8, (y % 16 * 16 + z / 4).toUInt8]
  | a :: b :: c :: d :: t => do
    let x ← sextet? a
    let y ← sextet? b
    let z ← sextet? c
    let w ← sextet? d
    return [(x * 4 + y / 16).toUInt8, (y % 16 * 16 + z / 4).toUInt8, (z % 4 * 64 + w).toUInt8]
      ++ (← groups? t)
  | _ => none

end CodeAudit.Text.Base64

def CodeAudit.Text.fromBase64? (t : CodeAudit.Text) : Option CodeAudit.Text :=
  CodeAudit.Text.Base64.groups? (t.filter fun b => b != 10 && b != 13)
