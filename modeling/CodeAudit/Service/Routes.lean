import CodeAudit.Service.Handshake
import CodeAudit.Service.Pages

/-!
# Routes

Which part of the service a request is for.

* `Route.ofPath?`: the route of a path.
* `Service.handle`: the answer to a request, and the service after it.
-/
namespace CodeAudit

/-- The places that can be asked. -/
inductive Route where
  | analyze
  | sarif
  | compare
  | history
  | entry (id : Text)
  | summary
  | rules
  | categories
  | health
  | live
  | pages
  deriving DecidableEq, Repr

namespace Route

def fixed : List (Text × Route) := [
  ("/analyze", .analyze), ("/analyze/sarif", .sarif), ("/compare", .compare), ("/history", .history),
  ("/summary", .summary), ("/rules", .rules), ("/owasp", .categories), ("/healthz", .health),
  ("/ws/analyze", .live)]

/-- The route of a path. An entry has one more segment behind the history. -/
def ofPath? (path : Text) : Option Route :=
  match fixed.lookup path with
  | some r => some r
  | none =>
    if Text.startsWith path "/swagger/" then some .pages
    else match Text.cutPrefix? "/history/" path with
      | some id => if id.isEmpty || id.any (· == 47) then none else some (.entry id)
      | none => none

/-- What can be done at a route, apart from asking what can be done. -/
def methods : Route → List Text
  | .analyze | .sarif | .compare => ["POST"]
  | .history => ["GET", "DELETE"]
  | _ => ["GET"]

/-- Whether a route tells other origins what can be done. -/
def hasPreflight : Route → Bool
  | .health | .pages => false
  | _ => true

def accepted (r : Route) : List Text := r.methods ++ if r.hasPreflight then [utf8 "OPTIONS"] else []

end Route

def knownMethods : List Text :=
  ["CONNECT", "DELETE", "GET", "HEAD", "OPTIONS", "PATCH", "POST", "PUT", "TRACE"]

namespace Service

/-- The answer at a route, to a method that it accepts. -/
def serve (s : Service) (now : Instant) (r : Request) (route : Route) : Option Response × Service :=
  if r.method == utf8 "OPTIONS" then
    (some { Response.bare 204 with
      headers := [("Access-Control-Allow-Methods", Text.join ", " route.methods)] }, s)
  else match route with
    | .analyze =>
      let (answer, s) := s.analyze now r.body
      (some answer, s)
    | .sarif => (some (s.analyzeSarif r.body), s)
    | .compare => (s.compare r.body, s)
    | .history =>
      if r.method == utf8 "DELETE" then
        let (answer, s) := s.clearHistory
        (some answer, s)
      else (some s.listHistory, s)
    | .entry id => (some (s.getEntry id), s)
    | .summary => (some s.summarize, s)
    | .rules => (some (s.listRules ((Query.first? r.query "language").getD [])), s)
    | .categories => (some listCategories, s)
    | .health => (some s.health, s)
    | .live =>
      let why := s.refusal r
      (some ((Response.plain why.status (why.message ++ "\n")).after .warn "upgrading to websocket"), s)
    | .pages => (some (Pages.answer r.target), s)

/-- The answer to a request without the headers of its origin. -/
def route (s : Service) (now : Instant) (r : Request) : Option Response × Service :=
  if !knownMethods.contains r.method then (some (.bare 405), s)
  else match Route.ofPath? r.path with
    | none => (some (.plain 404 "404 page not found\n"), s)
    | some route =>
      if route.accepted.contains r.method then s.serve now r route
      else (some { Response.bare 405 with headers := route.accepted.map fun m => (utf8 "Allow", m) }, s)

/-- The answer to a request, and the service after it. No answer means that the connection is
dropped. -/
def handle (s : Service) (now : Instant) (r : Request) : Option Response × Service :=
  let (answer, next) := s.route now r
  (answer.map fun a => (a.under (s.originHeaders r.origin)).after .info "http_request", next)

end Service
end CodeAudit
