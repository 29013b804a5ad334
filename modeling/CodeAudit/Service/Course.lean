import CodeAudit.Service.Live
import CodeAudit.Service.Routes

/-!
# The course of a service

What happens to one service, one thing after another: requests come in, live connections are opened,
used and closed, and live analyses go on in between, each at its own pace.

* `Service.step`: what one event brings.
* `Service.run`: the service after some events.
* `Service.transcript`: the events with their answers.
-/
namespace CodeAudit
namespace Service

/-- Something that happens to a service. -/
inductive Event where
  /-- A request comes in. -/
  | request (now : Instant) (r : Request)
  /-- A client with an origin asks for a live connection. -/
  | connect (origin : Text)
  /-- A live message arrives, and its analysis is still to come. -/
  | message (c : Connection) (text : Text)
  /-- A live message arrives, and its analysis runs to the end. -/
  | exchange (now : Instant) (c : Connection) (text : Text)
  /-- A live analysis goes on. -/
  | work (a : Live.Action)
  /-- A client goes away. -/
  | disconnect (c : Connection)
  deriving DecidableEq, Repr

/-- The answer to an event, which only requests have, and the service after it. -/
def step (s : Service) : Event → Option Response × Service
  | .request now r => s.handle now r
  | .connect origin =>
    match s.connect origin with
    | .ok (_, s) => (none, s)
    | .error _ => (none, s)
  | .message c text => (none, (s.accept c text).2.2)
  | .exchange now c text => (none, (s.hear now c text).2)
  | .work a => (none, { s with live := s.live.step s.engine.analyze a })
  | .disconnect c => (none, s.disconnect c)

def run (s : Service) (events : List Event) : Service := events.foldl (fun s e => (s.step e).2) s

def transcript (s : Service) : List Event → List (Event × Option Response)
  | [] => []
  | e :: rest => (e, (s.step e).1) :: transcript (s.step e).2 rest

end Service
end CodeAudit
