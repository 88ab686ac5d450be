import Nox.Interserver.Processor

/-!
# The HTTP bridge

The threads and handlers that serve the clients: the HTTP handler, which puts a
request into the shared `_rp_info` and waits on `_http_sync` for at most ten
seconds; `listen_state`, which posts the request as an event; the event
dispatcher; the timer thread of the request processor; and the switches.  A step
of the bridge is one of their atomic pieces, so a run is any interleaving.
-/

namespace Nox.Interserver

section System

/-! ## The state -/

/-- What waits in the queue of the event dispatcher. -/
inductive Event
  | httpRequest (r : RequestMsg)
  | interactReply (m : SwitchMsg)
  | httpResponse (r : Response)
  | datapathJoin (d : DatapathId)
  | datapathLeave (d : DatapathId)

/-- Where `http_handler::operator()` is, for the request of which number. -/
inductive Handler
  | idle
  | entered (id : Nat)
  | waiting (id : Nat)

/-- What a client gets: the time-out response, or the contents of `_response`. -/
inductive Outcome
  | timeout
  | response (r : Option Response)
  deriving DecidableEq

/-- A request that was answered. -/
structure Handed where
  id : Nat
  outcome : Outcome
  deriving DecidableEq

/-- The bridge: `_rp_info`, the event queue, the processor and its timer, what
was sent to the switches, and what the clients got. -/
structure Bridge (M : Type) where
  handler : Handler
  received : Nat
  acceptPost : Bool
  requestMsg : RequestMsg
  response : Option Response
  httpSync : Bool
  queue : List Event
  processor : Processor
  asleep : Bool
  sent : List (Sent M)
  handed : List Handed

def Bridge.init (M : Type) : Bridge M where
  handler := .idle
  received := 0
  acceptPost := false
  requestMsg := ⟨"", "", 0⟩
  response := none
  httpSync := false
  queue := []
  processor := ⟨false, false, [], 0, 0⟩
  asleep := false
  sent := []
  handed := []

end System

section Steps

/-! ## The steps -/

variable {M : Type}

/-- The atomic pieces of the threads, and what the environment does. -/
inductive Label
  -- the HTTP handler
  | receive (url data : String)
  | lock
  | timeout
  | wake
  -- `listen_state`
  | listen
  -- the event dispatcher; `send_openflow_msg` returns `sendGood` if it is called
  | dispatch (sendGood : Int)
  -- `auto_set_reply`: the wait begins, and ends
  | sleep
  | fire
  -- the switches
  | switchSends (m : SwitchMsg)
  | join (d : DatapathId)
  | leave (d : DatapathId)

/-- `post`, behind the events that wait. -/
def postEvents (queue : List Event) (e : Option Response) : List Event :=
  queue ++ (e.map Event.httpResponse).toList

/-- `http_handler::operator()` up to the lock: the request is written. -/
def Bridge.receive (s : Bridge M) (url data : String) : Option (Bridge M) :=
  match s.handler with
  | .idle =>
    some { s with
      handler := .entered (s.received + 1)
      received := s.received + 1
      requestMsg := ⟨url, data, s.received + 1⟩ }
  | _ => none

/-- `_http_sync.lock()` and the flag for `listen_state`. -/
def Bridge.lock (s : Bridge M) : Option (Bridge M) :=
  match s.handler, s.httpSync with
  | .entered id, false =>
    some { s with handler := .waiting id, httpSync := true, acceptPost := true }
  | _, _ => none

/-- The end of `http_handler::operator()`. -/
def Bridge.finish (s : Bridge M) (id : Nat) (o : Outcome) : Bridge M :=
  { s with
    handler := .idle
    httpSync := false
    requestMsg := s.requestMsg.clear
    handed := s.handed ++ [⟨id, o⟩] }

/-- `timed_lock` gives up. -/
def Bridge.timeout (s : Bridge M) : Option (Bridge M) :=
  match s.handler, s.httpSync with
  | .waiting id, true => some (s.finish id .timeout)
  | _, _ => none

/-- `timed_lock` gets the lock, and `_response` is read. -/
def Bridge.wake (s : Bridge M) : Option (Bridge M) :=
  match s.handler, s.httpSync with
  | .waiting id, false => some (s.finish id (.response s.response))
  | _, _ => none

/-- `listen_state` finds a request. -/
def Bridge.listen (s : Bridge M) : Option (Bridge M) :=
  if s.acceptPost then
    some { s with acceptPost := false, queue := s.queue ++ [.httpRequest s.requestMsg] }
  else none

/-- The handlers of one event, taken off the queue. -/
def Bridge.handle (reslv : Resolver M) (parse : String → JsonObject) (s : Bridge M)
    (ev : Event) (sendGood : Int) : Option (Bridge M) :=
  match ev with
  | .httpRequest r =>
    match s.processor.handleRequest reslv parse r sendGood with
    | none => none
    | some (p, e, sent) =>
      some { s with processor := p, queue := postEvents s.queue e, sent := s.sent ++ sent.toList }
  | .interactReply m =>
    let (p, e) := s.processor.handleReply m
    some { s with processor := p, queue := postEvents s.queue e }
  | .httpResponse r => some { s with response := some r, httpSync := false }
  | .datapathJoin d => some { s with processor := s.processor.datapathJoin d }
  | .datapathLeave d =>
    match s.processor.datapathLeave d with
    | none => none
    | some p => some { s with processor := p }

def Bridge.dispatch (reslv : Resolver M) (parse : String → JsonObject) (s : Bridge M)
    (sendGood : Int) : Option (Bridge M) :=
  match s.queue with
  | [] => none
  | ev :: queue => Bridge.handle reslv parse { s with queue := queue } ev sendGood

/-- `auto_set_reply` sees `_auto_mutex`. -/
def Bridge.sleep (s : Bridge M) : Option (Bridge M) :=
  if s.processor.autoMutex && !s.asleep then some { s with asleep := true } else none

def Bridge.fire (s : Bridge M) : Option (Bridge M) :=
  if s.asleep then
    let (p, e) := s.processor.autoReply
    some { s with processor := p, queue := postEvents s.queue e, asleep := false }
  else none

/-- A switch answers a message it was sent, with the same xid. -/
def Sent.AnsweredBy (x : Sent M) (m : SwitchMsg) : Prop :=
  m.answers = some x.request ∧ m.dpid = x.dpid ∧ m.xid = x.xid

instance (x : Sent M) (m : SwitchMsg) : Decidable (x.AnsweredBy m) :=
  inferInstanceAs (Decidable (_ ∧ _ ∧ _))

/-- The messages that can arrive: answers to messages of the bridge, and others. -/
def SwitchMsg.Arrives (sent : List (Sent M)) (m : SwitchMsg) : Prop :=
  m.answers = none ∨ ∃ x ∈ sent, x.AnsweredBy m

instance (sent : List (Sent M)) (m : SwitchMsg) : Decidable (m.Arrives sent) :=
  inferInstanceAs (Decidable (_ ∨ _))

/-- A message of a switch arrives. -/
def Bridge.switchSends (s : Bridge M) (m : SwitchMsg) : Option (Bridge M) :=
  if m.Arrives s.sent then
    some { s with queue := s.queue ++ [.interactReply m] }
  else none

def Bridge.step (reslv : Resolver M) (parse : String → JsonObject) (s : Bridge M) :
    Label → Option (Bridge M)
  | .receive url data => s.receive url data
  | .lock => s.lock
  | .timeout => s.timeout
  | .wake => s.wake
  | .listen => s.listen
  | .dispatch sendGood => s.dispatch reslv parse sendGood
  | .sleep => s.sleep
  | .fire => s.fire
  | .switchSends m => s.switchSends m
  | .join d => some { s with queue := s.queue ++ [.datapathJoin d] }
  | .leave d => some { s with queue := s.queue ++ [.datapathLeave d] }

/-- The state after a run, if all its steps can be taken. -/
def Bridge.run (reslv : Resolver M) (parse : String → JsonObject) (s : Bridge M)
    (ls : List Label) : Option (Bridge M) :=
  ls.foldlM (fun s l => s.step reslv parse l) s

end Steps

section Correlation

/-! ## Correlation -/

variable {M : Type}

/-- The response to request `id` is its own error or "Accepted", or was decoded
from the answer of the switch it named to the message it caused. -/
def Response.AnswersTo (sent : List (Sent M)) (id : Nat) (r : Response) : Prop :=
  match r.origin with
  | .request j => j = id
  | .timer => r.slot = id
  | .switch m => ∃ x ∈ sent, x.request = id ∧ x.AnsweredBy m

/-- Every client got the time-out response or an answer to its own request. -/
def Bridge.Correlated (s : Bridge M) : Prop :=
  ∀ h ∈ s.handed, h.outcome = .timeout ∨
    ∃ r, h.outcome = .response (some r) ∧ r.AnswersTo s.sent h.id

end Correlation

end Nox.Interserver
