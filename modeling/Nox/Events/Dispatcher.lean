import Mathlib.Algebra.Group.Nat.Defs
import Nox.Lib.Walk

/-!
# The event dispatcher

`Event_dispatcher` has a table of handlers, by the name of the event and in the
order of their numbers, and a queue of posted events.  `poll` dispatches what is in
the queue when it begins.  A handler may use the dispatcher, and it may poll again,
from inside or, when it blocks, from another thread.  So a step is one call of the
interface or the return of a handler, and the dispatches that wait for a handler
are frames of the state.

Next to the state of the code stands what happened: `posted` has the events in the
order in which they were posted, `log` one record for each dispatch in the order in
which they began, and `returned` says of each `poll` that returned how many events
had been posted when it began.
-/

namespace Nox.Events

section State

/-! ## The state -/

/-- A registered handler: the number of its registration and its `order`. -/
structure Handler where
  id : Nat
  order : Int
  deriving DecidableEq

/-- `std::multimap<int, Handler>` -/
abbrev Signal := List Handler

/-- `insert` into the multimap: behind the handlers of the same order. -/
def Signal.insert (h : Handler) : Signal → Signal
  | [] => [h]
  | g :: l => if h.order < g.order then h :: g :: l else g :: Signal.insert h l

/-- A posted event, by the number of its post. -/
structure Event where
  ticket : Nat
  name : String
  deriving DecidableEq

/-- How a handler comes back: with a `Disposition`, with an exception that `dispatch`
catches (`std::exception`), or with another one. -/
inductive Result
  | cont
  | stop
  | exception
  | foreign
  deriving DecidableEq

/-- One dispatch: the name it looked up, the event if it came from the queue, the
handlers there were, and the handlers called with what they returned so far. -/
structure Record where
  name : String
  event : Option Event
  handlers : Signal
  called : List Handler
  results : List Result

/-- The loop of a `poll`: its number, its `serial`, the number of events it has left to
take from the queue, and the number of events posted when it began. -/
structure Batch where
  poll : Nat
  serial : Nat
  left : Nat
  due : Nat

/-- A dispatch that waits for the handler `calling`, in a `poll` or called directly. -/
structure Frame where
  record : Nat
  name : String
  calling : Handler
  batch : Option Batch

/-- `Event_dispatcher_impl` and the calls in progress. -/
structure Dispatcher where
  table : String → Option Signal
  queue : List Event
  serial : Nat
  frames : List Frame
  registered : Nat
  posted : List Event
  log : List Record
  polls : Nat
  returned : List Nat
  -- the last `poll` that began was left by an exception
  cut : Bool
  emptyPops : Nat

def Dispatcher.init : Dispatcher where
  table := fun _ => none
  queue := []
  serial := 0
  frames := []
  registered := 0
  posted := []
  log := []
  polls := 0
  returned := []
  cut := false
  emptyPops := 0

/-- The handlers `dispatch` goes through for a name. -/
def Dispatcher.signal (s : Dispatcher) (name : String) : Signal :=
  (s.table name).getD []

end State

section Operations

/-! ## The operations -/

/-- `add_handler` -/
def Dispatcher.addHandler (s : Dispatcher) (name : String) (order : Int) : Dispatcher :=
  { s with
    table := fun n =>
      if n = name then some (Signal.insert ⟨s.registered, order⟩ (s.signal name)) else s.table n
    registered := s.registered + 1 }

/-- `post` -/
def Dispatcher.post (s : Dispatcher) (name : String) : Dispatcher :=
  let event := ⟨s.posted.length, name⟩
  { s with queue := s.queue ++ [event], posted := s.posted ++ [event] }

/-- A dispatch begins. -/
def Dispatcher.begin (s : Dispatcher) (name : String) (event : Option Event) : Dispatcher :=
  { s with log := s.log ++ [⟨name, event, s.signal name, [], []⟩] }

/-- The dispatch of record `i` calls a handler. -/
def Dispatcher.call (s : Dispatcher) (i : Nat) (name : String) (h : Handler)
    (batch : Option Batch) : Dispatcher :=
  { s with
    frames := s.frames ++ [⟨i, name, h, batch⟩]
    log := s.log.modify i fun r => { r with called := r.called ++ [h] } }

/-- `poll` returns. -/
def Dispatcher.leave (s : Dispatcher) (due : Nat) : Dispatcher :=
  { s with returned := s.returned ++ [due] }

/-- The loop of `poll`, with `left` events to go, up to the call of a handler or to
its end.  Where a queue has no front, `pop_front` throws. -/
def Dispatcher.loop (poll serial due : Nat) : Nat → Dispatcher → Dispatcher
  | 0, s => s.leave due
  | left + 1, s =>
    match s.queue with
    | [] => { s with cut := true, emptyPops := s.emptyPops + 1 }
    | e :: queue =>
      let s' := { s with queue := queue }.begin e.name (some e)
      match s.signal e.name with
      | h :: _ => s'.call s.log.length e.name h (some ⟨poll, serial, left, due⟩)
      | [] => if serial ≠ s.serial then s'.leave due else Dispatcher.loop poll serial due left s'

/-- A dispatch is over: a `poll` goes on unless another one has begun. -/
def Dispatcher.finish (s : Dispatcher) : Option Batch → Dispatcher
  | none => s
  | some b => if b.serial ≠ s.serial then s.leave b.due else s.loop b.poll b.serial b.due b.left

/-- `poll` -/
def Dispatcher.poll (s : Dispatcher) : Dispatcher :=
  let serial := (s.serial + 1) % 2 ^ 32
  { s with serial := serial, polls := s.polls + 1, cut := false }.loop
    (s.polls + 1) serial s.posted.length s.queue.length

/-- `dispatch`, called directly. -/
def Dispatcher.dispatch (s : Dispatcher) (name : String) : Dispatcher :=
  let s' := s.begin name none
  match s.signal name with
  | h :: _ => s'.call s.log.length name h none
  | [] => s'

/-- The handler a dispatch calls next, if it calls one.  The iterator stays valid when
handlers are added. -/
def Dispatcher.next (s : Dispatcher) (f : Frame) : Result → Option Handler
  | .cont => ((s.signal f.name).dropWhile (· ≠ f.calling)).tail.head?
  | _ => none

/-- The frame `i`, which is `f`, gets the result it waits for. -/
def Dispatcher.resume (s : Dispatcher) (i : Nat) (f : Frame) (result : Result) : Dispatcher :=
  { s with
    frames := s.frames.eraseIdx i
    log := s.log.modify f.record fun r => { r with results := r.results ++ [result] } }

/-- The handler of the frame `i` comes back. -/
def Dispatcher.ret (s : Dispatcher) (i : Nat) (result : Result) : Option Dispatcher :=
  match s.frames[i]? with
  | none => none
  | some f =>
    let s' := s.resume i f result
    if result = .foreign then
      some { s' with cut := s.cut || f.batch.any (·.poll == s.polls) }
    else
      match s.next f result with
      | some h => some (s'.call f.record f.name h f.batch)
      | none => some (s'.finish f.batch)

/-- The calls of the interface and the returns of handlers. -/
inductive Label
  | addHandler (name : String) (order : Int)
  | post (name : String)
  | dispatch (name : String)
  | poll
  | ret (i : Nat) (result : Result)

def Dispatcher.step (s : Dispatcher) : Label → Option Dispatcher
  | .addHandler name order => some (s.addHandler name order)
  | .post name => some (s.post name)
  | .dispatch name => some (s.dispatch name)
  | .poll => some s.poll
  | .ret i result => s.ret i result

def Dispatcher.run (s : Dispatcher) (ls : List Label) : Option Dispatcher :=
  ls.foldlM Dispatcher.step s

end Operations

section Condition

/-! ## The counter has not wrapped -/

/-- At the end of a dispatch the 32-bit `serial` tells its poll from the ones that
began later. -/
def Dispatcher.Meets (s : Dispatcher) (l : Label) : Prop :=
  ∀ i result f b, l = .ret i result → s.frames[i]? = some f → f.batch = some b →
    result ≠ .foreign → s.next f result = none → b.serial = s.serial → b.poll = s.polls

/-- Every step of the run meets the condition. -/
def Dispatcher.Admissible : Dispatcher → List Label → Prop
  | _, [] => True
  | s, l :: ls => s.Meets l ∧ ∀ s', s.step l = some s' → Dispatcher.Admissible s' ls

end Condition

end Nox.Events
