import CodeAudit.Text.Rune
import CodeAudit.Word

/-!
# JSON values

A number is kept as it is written. The members of an object are in order and may repeat a name; the
last one with a name counts.
-/
namespace CodeAudit

/-- A JSON value. -/
inductive Json where
  | null
  | bool (b : Bool)
  | number (literal : Text)
  | string (t : Text)
  | array (items : List Json)
  | object (members : List (Text × Json))
  deriving Repr, Inhabited

namespace Json

def int (n : Int) : Json := .number (Text.ofInt n)

def nat (n : Nat) : Json := int n

/-- An object whose names are written out. -/
def record (members : List (String × Json)) : Json := .object (members.map fun (k, v) => (utf8 k, v))

/-- The text, or nothing for its absence. -/
def ofOption {α : Type} (f : α → Json) : Option α → Json
  | none => .null
  | some a => f a

def texts (ts : List Text) : Json := .array (ts.map .string)

/-- The last member with a name. -/
def member? (j : Json) (name : Text) : Option Json :=
  match j with
  | .object ms => ms.reverse.lookup name
  | _ => none

/-- The integer written without a fraction or an exponent. -/
def intLiteral? (t : Text) : Option Int :=
  match t with
  | 45 :: ds => (Text.toNat? ds).map fun n => -(n : Int)
  | ds => (Text.toNat? ds).map fun n => (n : Int)

/-- The word-sized integer a value holds. -/
def toInt? : Json → Option Int
  | .number t => (intLiteral? t).filter fitsWord
  | _ => none

/-- Whether a value is an object or an array. -/
def isCompound : Json → Bool
  | .array _ | .object _ => true
  | _ => false

end Json
end CodeAudit
