import CodeAudit.Service.Basic
import CodeAudit.Text.Base64

/-!
# Handshakes of live connections

A request asks for a live connection by its headers. One that asks in the wrong way, or from an
origin that may not ask, is turned down.

* `Handshake.names`: whether a header lists a word.
* `Service.refusal?`: why a request is turned down.
-/
namespace CodeAudit

namespace Handshake

/-- A byte that may stand in a word of a header. -/
def isWordByte (b : UInt8) : Bool :=
  (33 ≤ b && b ≤ 126) && !(utf8 "()<>@,;:\\\"/[]?=\x7b\x7d").any (· == b)

def skipBlanks (t : Text) : Text := t.dropWhile fun b => b == 32 || b == 9

/-- Whether a list of words has a given word, in any case. Reading stops where the list is
malformed. -/
def names (word : Text) : Nat → Text → Bool
  | 0, _ => false
  | fuel + 1, t =>
    let t := skipBlanks t
    let found := t.takeWhile isWordByte
    let rest := skipBlanks (t.dropWhile isWordByte)
    if found.isEmpty || rest.head?.any (· != 44) then false
    else found.map Text.asciiLower == word.map Text.asciiLower || (!rest.isEmpty && names word fuel (rest.drop 1))

def lists (r : Request) (header word : Text) : Bool :=
  let value := r.header header
  names word (value.length + 1) value

/-- Whether a key has sixteen bytes. -/
def isKey (t : Text) : Bool := (Text.fromBase64? t).any (·.length == 16)

/-- An origin as it arrives: line ends are blanks, and blanks around it do not count. None arrives
that holds a control character. -/
def arrived? (origin : Text) : Option Text :=
  let t := origin.map fun b => if b == 10 || b == 13 then 32 else b
  let t := ((skipBlanks t).reverse.dropWhile fun b => b == 32 || b == 9).reverse
  if t.any fun b => (b < 32 && b != 9) || b == 127 then none else some t

end Handshake

/-- Why a handshake fails: it is malformed, its origin may not ask, or it cannot be completed. -/
inductive Refused where
  | malformed
  | origin
  | incomplete
  deriving DecidableEq, Repr

/-- The status that a refused handshake is answered with. -/
def Refused.status : Refused → Nat
  | .malformed => 400
  | .origin => 403
  | .incomplete => 500

def Refused.message : Refused → Text
  | .malformed => "Bad Request"
  | .origin => "Forbidden"
  | .incomplete => "Internal Server Error"

/-- Whether a client may open a connection. One without an origin always may. -/
def Service.admits (s : Service) (origin : Text) : Bool := origin.isEmpty || s.allows origin

/-- Why a single request cannot become a connection. -/
def Service.refusal (s : Service) (r : Request) : Refused :=
  if !Handshake.lists r "Connection" "upgrade" || !Handshake.lists r "Upgrade" "websocket"
      || !Handshake.lists r "Sec-WebSocket-Version" "13" then .malformed
  else if !s.admits r.origin then .origin
  else if !Handshake.isKey (r.header "Sec-WebSocket-Key") then .malformed
  else .incomplete

end CodeAudit
