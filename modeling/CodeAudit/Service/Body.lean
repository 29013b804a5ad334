import CodeAudit.Json.Reader
import CodeAudit.Text.Case

/-!
# Request bodies

A body is one JSON value; what follows it is not looked at. Only so many bytes of a body are read. A
value that is not complete by then makes the body too large, unless the body ends there.

The members of an object may be written in any case, the last one of a name counts, members with
other names are passed over, and null leaves a text as it is.

* `Body.read`: the value of a body within a limit.
* `Submission`, `ComparisonRequest`: what the bodies say.
-/
namespace CodeAudit

namespace Body

/-- Why a body cannot be used. -/
inductive Fault where
  | tooLarge
  | invalid
  deriving DecidableEq, Repr

/-- The value of a body of which at most `limit` bytes are read. An object or an array is complete
at its end; of any other value the next byte has to be seen, or the end of the body. -/
def read (limit : Nat) (body : Text) : Except Fault Json :=
  let isCut := body.length > limit
  match Json.readFirst (body.take limit) with
  | .ok (j, rest) => if j.isCompound || !rest.isEmpty || !isCut then .ok j else .error .tooLarge
  | .error .incomplete => .error (if isCut then .tooLarge else .invalid)
  | .error .malformed => .error .invalid

/-- Whether a member has a name, in any case. -/
def isNamed (name : String) (key : Text) : Bool := key == utf8 name || Text.equalFold key name

/-- A text over its value so far; none when the member is no text. -/
def text? (old : Text) : Json → Option Text
  | .null => some old
  | .string t => some t
  | _ => none

/-- The members of an object; null has none, and other values are no object. -/
def members? : Json → Option (List (Text × Json))
  | .object ms => some ms
  | .null => some []
  | _ => none

end Body

/-- Code to be analyzed, with the label of its language and the name of its file. -/
structure Submission where
  code : Text := []
  language : Text := []
  uri : Text := []
  deriving DecidableEq, Repr

def Submission.ofJson? (j : Json) : Option Submission := do
  (← Body.members? j).foldlM (fun (s : Submission) (k, v) =>
    if Body.isNamed "code" k then return { s with code := ← Body.text? s.code v }
    else if Body.isNamed "language" k then return { s with language := ← Body.text? s.language v }
    else if Body.isNamed "uri" k then return { s with uri := ← Body.text? s.uri v }
    else return s) {}

/-- Code to be compared with its secure form, or the identifier of a recorded analysis of it. -/
structure ComparisonRequest where
  code : Text := []
  language : Text := []
  historyId : Text := []
  context : Option Int := none
  deriving DecidableEq, Repr

/-- The number of lines around a finding, which may be absent. -/
def ComparisonRequest.context? : Json → Option (Option Int)
  | .null => some none
  | j => j.toInt?.map some

/-- The request with what one more member says. -/
def ComparisonRequest.withMember? (r : ComparisonRequest) : Text × Json → Option ComparisonRequest
  | (k, v) => do
    if Body.isNamed "code" k then return { r with code := ← Body.text? r.code v }
    else if Body.isNamed "language" k then return { r with language := ← Body.text? r.language v }
    else if Body.isNamed "historyId" k then return { r with historyId := ← Body.text? r.historyId v }
    else if Body.isNamed "context" k then return { r with context := ← context? v }
    else return r

def ComparisonRequest.ofJson? (j : Json) : Option ComparisonRequest := do
  (← Body.members? j).foldlM withMember? {}

def liveCode? (j : Json) : Option Text := do
  (← Body.members? j).foldlM (fun (t : Text) (k, v) =>
    if Body.isNamed "code" k then Body.text? t v else return t) []

end CodeAudit
