import CodeAudit.Finding

/-!
# Live analysis

An editor submits its text again and again; an analysis runs only once the text has rested. The work
is kept per key, one key per client. A key has at most one pending job, and a newer submission
cancels and replaces it.

A job is `armed` while its delay runs, `fired` when the delay is over, `running` while its text is
analyzed and `over` at the end. Cancelling an armed job stops it at once; a job that has fired
reports its own cancellation when it next looks at its session. Every report goes to the channel of
the session that the job's key has at that moment; a channel has a bounded buffer, and what does not
fit is dropped.

* `Live.events`, `Live.submit`, `Live.cancel`, `Live.release`, `Live.close`: what clients do.
* `Live.fire`, `Live.start`, `Live.finish`: what the clock and the analyses do.
* `Live.step`: all of these as one transition function; `Live.log` holds what happened on the
  channels.
-/
namespace CodeAudit

namespace Live

/-- How far a job has come. -/
inductive Status where
  | pending
  | running
  | done
  | canceled
  deriving DecidableEq, Repr

def Status.name : Status → Text
  | .pending => "pending"
  | .running => "running"
  | .done => "done"
  | .canceled => "canceled"

/-- A report on a job, which is named by its number. -/
inductive Event where
  | status (job : Nat) (s : Status)
  | result (job : Nat) (r : Result)
  deriving DecidableEq, Repr

def Event.job : Event → Nat
  | .status j _ => j
  | .result j _ => j

/-- Where a job stands. -/
inductive Phase where
  | armed
  | fired
  | running
  | over
  deriving DecidableEq, Repr

/-- A submitted text on its way. -/
structure Job where
  key : Text
  text : Text
  phase : Phase
  cancelled : Bool
  deriving DecidableEq, Repr

/-- A bounded queue of reports. -/
structure Channel where
  buffer : List Event
  isOpen : Bool
  deriving DecidableEq, Repr

/-- The channel of a key and its pending job, both named by number. -/
structure Session where
  key : Text
  channel : Nat
  pending : Option Nat
  deriving DecidableEq, Repr

/-- What happened on a channel. -/
inductive Effect where
  | sent (channel : Nat) (e : Event)
  | dropped (channel : Nat) (e : Event)
  | closed (channel : Nat)
  deriving DecidableEq, Repr

/-- How long a text rests, in nanoseconds. -/
def defaultDelay : Int := 1000000000

/-- How many reports a channel holds when nothing else is said. -/
def defaultCapacity : Nat := 16

end Live

/-- The state of live analysis. Jobs and channels are numbered in the order of their making, and the
log has the newest effect first. -/
structure Live where
  capacity : Nat
  jobs : List Live.Job
  channels : List Live.Channel
  sessions : List Live.Session
  isClosed : Bool
  log : List Live.Effect
  deriving Repr

namespace Live

/-- The start. A capacity below one stands for the default. -/
def empty (capacity : Int) : Live :=
  ⟨if capacity < 1 then defaultCapacity else capacity.toNat, [], [], [], false, []⟩

def session? (s : Live) (key : Text) : Option Session := s.sessions.find? (·.key == key)

/-- Changes the pending job of a key's session. -/
def setPending (s : Live) (key : Text) (p : Option Nat) : Live :=
  { s with sessions := s.sessions.map fun x => if x.key == key then { x with pending := p } else x }

def setJob (s : Live) (j : Nat) (f : Job → Job) : Live := { s with jobs := s.jobs.modify j f }

/-- Sends a report on a channel, or drops it when the channel is full. -/
def emit (s : Live) (channel : Nat) (e : Event) : Live :=
  let held := ((s.channels[channel]?).map fun c => c.buffer.length).getD 0
  if held < s.capacity then
    { s with
      channels := s.channels.modify channel fun c => { c with buffer := c.buffer ++ [e] }
      log := .sent channel e :: s.log }
  else { s with log := .dropped channel e :: s.log }

def shut (s : Live) (channel : Nat) : Live :=
  { s with
    channels := s.channels.modify channel fun c => { c with isOpen := false }
    log := .closed channel :: s.log }

def newChannel (s : Live) (isOpen : Bool) : Nat × Live :=
  (s.channels.length, { s with channels := s.channels ++ [⟨[], isOpen⟩] })

/-- The channel of a key's session; a key without a session gets one. -/
def enter (s : Live) (key : Text) : Nat × Live :=
  match s.session? key with
  | some x => (x.channel, s)
  | none =>
    let (c, s) := s.newChannel true
    (c, { s with sessions := s.sessions ++ [⟨key, c, none⟩] })

/-- The channel on which a key's reports arrive. After the close it is a fresh channel, closed
already. -/
def events (s : Live) (key : Text) : Nat × Live :=
  if s.isClosed then s.newChannel false else s.enter key

/-- Cancels the pending job of a session. An armed job is stopped and reported here; a job that has
fired reports its cancellation itself. -/
def cancelPending (s : Live) (x : Session) : Live :=
  match x.pending with
  | none => s
  | some j =>
    let armed := (s.jobs[j]?).any (·.phase == .armed)
    let s := (s.setPending x.key none).setJob j fun job =>
      { job with cancelled := true, phase := if armed then .over else job.phase }
    if armed then s.emit x.channel (.status j .canceled) else s

/-- Cancels the pending job of a key. -/
def cancel (s : Live) (key : Text) : Live :=
  match s.session? key with
  | none => s
  | some x => s.cancelPending x

/-- Submits a text for a key, in place of the pending one. Nothing can be submitted after the
close. -/
def submit? (s : Live) (key text : Text) : Option (Nat × Live) :=
  if s.isClosed then none
  else
    let (c, s) := s.enter key
    let s := s.cancel key
    let j := s.jobs.length
    let job : Job := ⟨key, text, .armed, false⟩
    let s := { s.setPending key (some j) with jobs := s.jobs ++ [job] }
    some (j, s.emit c (.status j .pending))

/-- Cancels the pending job of a key, closes its channel and forgets its session. -/
def release (s : Live) (key : Text) : Live :=
  match s.session? key with
  | none => s
  | some x =>
    let s := (s.cancelPending x).shut x.channel
    { s with sessions := s.sessions.filter (·.key != key) }

/-- Releases every key and takes no more submissions. -/
def close (s : Live) : Live :=
  if s.isClosed then s
  else { (s.sessions.map Session.key).foldl release s with isClosed := true }

/-- The delay of an armed job is over. -/
def fire (s : Live) (j : Nat) : Live :=
  s.setJob j fun job => if job.phase == .armed then { job with phase := .fired } else job

def advance (s : Live) (j : Nat) (phase : Phase) : Live := s.setJob j fun job => { job with phase := phase }

/-- Whether a job is still what its session waits for. -/
def isCurrent (x : Session) (j : Nat) (job : Job) : Bool := !job.cancelled && x.pending == some j

/-- A fired job looks at the session of its key: without one it ends silently, superseded it ends as
canceled, and else it runs. -/
def start (s : Live) (j : Nat) : Live :=
  match s.jobs[j]? with
  | none => s
  | some job =>
    if job.phase != .fired then s
    else match s.session? job.key with
      | none => s.advance j .over
      | some x =>
        if isCurrent x j job then (s.advance j .running).emit x.channel (.status j .running)
        else (s.advance j .over).emit x.channel (.status j .canceled)

/-- The analysis of a running job ends. The job looks at the session of its key once more, and only
the pending job of the session delivers. -/
def finish (analyze : Text → Result) (s : Live) (j : Nat) : Live :=
  match s.jobs[j]? with
  | none => s
  | some job =>
    if job.phase != .running then s
    else match s.session? job.key with
      | none => s.advance j .over
      | some x =>
        if isCurrent x j job then
          let s := (s.setPending job.key none).setJob j fun job =>
            { job with cancelled := true, phase := .over }
          (s.emit x.channel (.result j (analyze job.text))).emit x.channel (.status j .done)
        else (s.advance j .over).emit x.channel (.status j .canceled)

/-- Takes the oldest report from a channel. -/
def receive (s : Live) (channel : Nat) : Live :=
  { s with channels := s.channels.modify channel fun c => { c with buffer := c.buffer.tail } }

def waiting (s : Live) (channel : Nat) : List Event := ((s.channels[channel]?).map Channel.buffer).getD []

def isShut (s : Live) (channel : Nat) : Bool := (s.channels[channel]?).any fun c => !c.isOpen

def dropped (s : Live) : Nat := s.log.countP fun
  | .dropped .. => true
  | _ => false

/-- Something that clients, the clock or the analyses do. -/
inductive Action where
  | events (key : Text)
  | submit (key text : Text)
  | fire (job : Nat)
  | start (job : Nat)
  | finish (job : Nat)
  | cancel (key : Text)
  | release (key : Text)
  | close
  | receive (channel : Nat)
  deriving DecidableEq, Repr

def step (analyze : Text → Result) (s : Live) : Action → Live
  | .events key => (s.events key).2
  | .submit key text => ((s.submit? key text).map Prod.snd).getD s
  | .fire j => s.fire j
  | .start j => s.start j
  | .finish j => s.finish analyze j
  | .cancel key => s.cancel key
  | .release key => s.release key
  | .close => s.close
  | .receive c => s.receive c

def run (analyze : Text → Result) (s : Live) (actions : List Action) : Live :=
  actions.foldl (step analyze) s

/-- What is said of a submission after the close. -/
def closedMessage : Text := "debouncer closed"

end Live
end CodeAudit
