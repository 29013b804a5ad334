import CodeAudit.Text.Basic

/-!
# Listen addresses

An address is a host and a port with a colon between them; a host that holds colons stands in square
brackets. The port is a number up to 65535 or the name of a service.
-/
namespace CodeAudit

/-- Why nothing can listen at an address. -/
inductive AddressFault where
  | noPort (address : Text)
  | manyColons (address : Text)
  | unclosedBracket (address : Text)
  | strayOpening (address : Text)
  | strayClosing (address : Text)
  | portRange (port : Text)
  | unknownPort (port : Text)
  deriving DecidableEq, Repr

def AddressFault.message : AddressFault → Text
  | .noPort a => "address " ++ a ++ ": missing port in address"
  | .manyColons a => "address " ++ a ++ ": too many colons in address"
  | .unclosedBracket a => "address " ++ a ++ ": missing ']' in address"
  | .strayOpening a => "address " ++ a ++ ": unexpected '[' in address"
  | .strayClosing a => "address " ++ a ++ ": unexpected ']' in address"
  | .portRange p => "address " ++ p ++ ": invalid port"
  | .unknownPort p => "lookup tcp/" ++ p ++ ": unknown port"

namespace Address

/-- Checks that no bracket stands in a part of the address. -/
def checkBrackets (address opening closing : Text) : Except AddressFault Unit :=
  if opening.any (· == 91) then .error (.strayOpening address)
  else if closing.any (· == 93) then .error (.strayClosing address)
  else .ok ()

/-- The port of an address, which stands after the last colon. -/
def port (address : Text) : Except AddressFault Text :=
  match Text.lastIndexOf? 58 address with
  | none => .error (.noPort address)
  | some i =>
    let port := address.drop (i + 1)
    if address.head? == some 91 then
      match Text.indexWhere? (· == 93) address with
      | none => .error (.unclosedBracket address)
      | some close =>
        if close + 1 == address.length then .error (.noPort address)
        else if close + 1 == i then do
          checkBrackets address (address.drop 1) (address.drop (close + 1))
          return port
        else if address[close + 1]? == some 58 then .error (.manyColons address)
        else .error (.noPort address)
    else if (address.take i).any (· == 58) then .error (.manyColons address)
    else do
      checkBrackets address address address
      return port

def services : List Text := ["domain", "ftp", "ftps", "gopher", "http", "https", "imap2", "imap3", "imaps",
  "pop3", "pop3s", "smtp", "submissions", "ssh", "telnet"]

/-- The number that digits write after the number `n`, in words of 32 bits: what passes the largest
word is the largest word. Other characters write no number. -/
def portNumber? : Nat → Text → Option Nat
  | n, [] => some n
  | n, b :: t =>
    if !Text.isDigit b then none
    else
      let m := n * 10 % 4294967296 + (b.toNat - 48)
      if 1073741824 ≤ n || 4294967296 ≤ m then some 4294967295 else portNumber? m t

def checkPort (port : Text) : Except AddressFault Unit :=
  let digits := if port.head? == some 43 || port.head? == some 45 then port.drop 1 else port
  match portNumber? 0 digits with
  | some n => if n == 0 || (n ≤ 65535 && port.head? != some 45) then .ok () else .error (.portRange port)
  | none =>
    if services.contains (port.map Text.asciiLower) then .ok () else .error (.unknownPort port)

/-- Why nothing can listen at an address. -/
def fault? (address : Text) : Option AddressFault :=
  match port address with
  | .error f => some f
  | .ok p =>
    match checkPort p with
    | .error f => some f
    | .ok () => none

end Address
end CodeAudit
