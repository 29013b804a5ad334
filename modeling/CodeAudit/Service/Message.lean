import CodeAudit.Json.Reader
import CodeAudit.Log

/-!
# Requests and responses

* `Request`, `Response`: what is asked and what is answered.
* `Query.first?`: a parameter behind the question mark of a path.
-/
namespace CodeAudit

/-- A request: its method, its path with the query behind it, its headers and its body. -/
structure Request where
  method : Text
  target : Text
  headers : List (Text × Text)
  body : Text
  deriving DecidableEq, Repr

/-- A response, with the headers in the order in which they are set, and what was logged on the
way. -/
structure Response where
  status : Nat
  headers : List (Text × Text)
  body : Text
  notices : List (Log.Level × Text)
  deriving DecidableEq, Repr

namespace Response

/-- A response with headers in front of its own. -/
def under (r : Response) (headers : List (Text × Text)) : Response := { r with headers := headers ++ r.headers }

/-- A response with something logged before. -/
def after (r : Response) (level : Log.Level) (message : Text) : Response :=
  { r with notices := (level, message) :: r.notices }

def bare (status : Nat) : Response := ⟨status, [], [], []⟩

def plain (status : Nat) (t : Text) : Response :=
  ⟨status, [("Content-Type", "text/plain; charset=utf-8")], t, []⟩

end Response

namespace Request

def path (r : Request) : Text := r.target.takeWhile (· != 63)

/-- The query, which stands behind the first question mark. -/
def query (r : Request) : Text := (r.target.dropWhile (· != 63)).drop 1

/-- The value of a header, whose name may be written in any case; empty when there is none. -/
def header (r : Request) (name : Text) : Text :=
  ((r.headers.find? fun h => h.1.map Text.asciiLower == name.map Text.asciiLower).map Prod.snd).getD []

def origin (r : Request) : Text := r.header "Origin"

end Request

namespace Query

/-- The text without its escapes: a plus sign is a space, and a percent sign goes before two
hexadecimal digits. -/
def unescape? : Text → Option Text
  | [] => some []
  | 43 :: t => (unescape? t).map (32 :: ·)
  | 37 :: a :: b :: t => do
    let x ← Json.hexDigit? a
    let y ← Json.hexDigit? b
    return (x * 16 + y).toUInt8 :: (← unescape? t)
  | 37 :: _ => none
  | b :: t => (unescape? t).map (b :: ·)

/-- The name and the value of one parameter; one with a semicolon or a bad escape does not count. -/
def parameter? (t : Text) : Option (Text × Text) :=
  if t.isEmpty || t.any (· == 59) then none
  else do
    let name ← unescape? (t.takeWhile (· != 61))
    let value ← unescape? ((t.dropWhile (· != 61)).drop 1)
    return (name, value)

def first? (query name : Text) : Option Text := ((Text.splitOn 38 query).filterMap parameter?).lookup name

end Query
end CodeAudit
