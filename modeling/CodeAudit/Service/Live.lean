import CodeAudit.Service.Handshake

/-!
# Live connections

A client keeps a connection open and sends its text whenever that changes. The key of the live
analysis is the identifier of the connection.

* `Service.connect`: opens a connection, if its origin may.
* `Service.accept`: what becomes of a message when it arrives.
* `Service.hear`: what a message brings, when its analysis runs to the end.
-/
namespace CodeAudit

/-- A live connection: its key and the channel of its reports. -/
structure Connection where
  key : Text
  channel : Nat
  deriving DecidableEq, Repr

/-- What a client gets back, and whether the connection is closed then. -/
structure Heard where
  frames : List Json
  isClosed : Bool
  deriving Repr

namespace Service

/-- Opens a connection for a client with an origin. -/
def connect (s : Service) (origin : Text) : Except Refused (Connection × Service) :=
  match Handshake.arrived? origin with
  | none => .error .malformed
  | some origin =>
    if s.admits origin then
      let key := s.nextId
      let (channel, live) := s.live.events key
      .ok (⟨key, channel⟩, { s with live := live, drawn := s.drawn + 1 })
    else .error .origin

def errorFrame (message : Text) : Json := .record [("error", .string message), ("type", .string "error")]

/-- Whether a message is longer than is read. A limit that is not positive is none. -/
def isOverlong (s : Service) (message : Text) : Bool :=
  let limit := wrap (s.settings.maxCodeBytes + bodyOverhead)
  0 < limit && limit < message.length

def messageCode? (s : Service) (message : Text) : Option Text :=
  if s.isOverlong message then none
  else match Json.readFirst message with
    | .ok (j, _) => liveCode? j
    | .error _ => none

def disconnect (s : Service) (c : Connection) : Service := { s with live := s.live.release c.key }

/-- Submits code for live analysis and gives the job its name. -/
def submitLive? (s : Service) (c : Connection) (code : Text) : Option (Nat × Service) :=
  (s.live.submit? c.key code).map fun (j, live) =>
    (j, { s with live := live, drawn := s.drawn + 1, jobNames := s.jobNames ++ [s.nextId] })

/-- Lets a job run to its end. -/
def complete (s : Service) (j : Nat) : Service :=
  { s with live := ((s.live.fire j).start j).finish s.engine.analyze j }

/-- Takes all reports that wait for a connection. -/
def receiveAll (s : Service) (c : Connection) : List Live.Event × Service :=
  let events := s.live.waiting c.channel
  (events, { s with live := events.foldl (fun l _ => l.receive c.channel) s.live })

def jobName (s : Service) (j : Nat) : Text := s.jobNames.getD j []

/-- What becomes of a message when it arrives: it is answered at once, or there is a job for it. One
that cannot be read closes the connection. -/
def accept (s : Service) (c : Connection) (message : Text) : Heard × Option Nat × Service :=
  match s.messageCode? message with
  | none => (⟨[], true⟩, none, s.disconnect c)
  | some code =>
    match s.checkCode code with
    | .error .emptyCode => (⟨[errorFrame emptyCodeMessage], false⟩, none, s)
    | .error _ => (⟨[errorFrame (longCodeMessage s.settings.maxCodeBytes)], false⟩, none, s)
    | .ok () =>
      match s.submitLive? c code with
      | none => (⟨[errorFrame Live.closedMessage], true⟩, none, s.disconnect c)
      | some (j, s) => (⟨[], false⟩, some j, s)

/-- What a message brings, when its analysis runs to the end. -/
def hear (s : Service) (now : Instant) (c : Connection) (message : Text) : Heard × Service :=
  match s.accept c message with
  | (heard, none, s) => (heard, s)
  | (_, some j, s) =>
    let (events, s) := (s.complete j).receiveAll c
    (⟨events.map (Live.Event.toJson s.jobName now), false⟩, s)

end Service
end CodeAudit
