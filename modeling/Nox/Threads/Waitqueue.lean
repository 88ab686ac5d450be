import Nox.Lib.TailList

/-!
# Wait queues

`Co_waitqueue` and the events of threads as they are in memory.  A queue is a linked list
through the events, which are elements of a vector of each thread: when a vector grows, its
events are taken from their queues, moved, and put back.  A run that follows a pointer to
where no event is has no outcome.
-/

namespace Nox.Threads

open Lib

section Memory

/-! ## Memory -/

/-- Where an event is: in the vector of a thread, in one of the blocks of memory the vector
has had. -/
structure EventAddr (T : Type) where
  thread : T
  block : Nat
  index : Nat
  deriving DecidableEq

/-- `co_event`, but for `next`, which is with the links. -/
structure CoEvent (T Q V : Type) where
  wq : Option Q
  thread : T
  retvalp : Option V
  deriving DecidableEq

/-- `std::vector<co_event>` -/
structure EventVector (T Q V : Type) where
  block : Nat
  capacity : Nat
  items : List (CoEvent T Q V)

/-- The events of all threads `T`, the queues `Q`, and the variables `V` that tell how a wait
has ended. -/
structure Waitqueues (T Q V : Type) where
  events : T → EventVector T Q V
  next : Links (EventAddr T)
  queues : Q → TailList (EventAddr T)
  vars : V → Int

variable {T Q V : Type}

/-- No thread waits; the heads of the queues are not initialised. -/
def Waitqueues.init (heads : Q → Option (EventAddr T)) (vars : V → Int) : Waitqueues T Q V where
  events := fun _ => ⟨0, 0, []⟩
  next := fun _ => none
  queues := fun q => ⟨heads q, none⟩
  vars := vars

end Memory

section Events

/-! ## Events -/

namespace Waitqueues

variable {T Q V : Type} [DecidableEq T] [DecidableEq Q] [DecidableEq V]

/-- The event at an address, if the vector has not moved away from there. -/
def event? (s : Waitqueues T Q V) (a : EventAddr T) : Option (CoEvent T Q V) :=
  if a.block = (s.events a.thread).block then (s.events a.thread).items[a.index]? else none

/-- The link a pointer points to is that of an event, or the head of a queue. -/
def live (s : Waitqueues T Q V) : Option (EventAddr T) → Bool
  | none => true
  | some a => (s.event? a).isSome

def setEvents (s : Waitqueues T Q V) (t : T) (v : EventVector T Q V) : Waitqueues T Q V :=
  { s with events := Function.update s.events t v }

/-- The links and the pointers of a queue after an operation on its list. -/
def setQueue (s : Waitqueues T Q V) (q : Q) (l : Links (EventAddr T) × TailList (EventAddr T)) :
    Waitqueues T Q V :=
  { s with next := l.1, queues := Function.update s.queues q l.2 }

/-- `if (retvalp) *retvalp = retval;` -/
def setVar (s : Waitqueues T Q V) (retvalp : Option V) (retval : Int) : Waitqueues T Q V :=
  match retvalp with
  | none => s
  | some v => { s with vars := Function.update s.vars v retval }

/-- `*tail = NULL;` -/
def terminate (s : Waitqueues T Q V) (q : Q) : Option (Waitqueues T Q V) := do
  guard (s.live (s.queues q).tail)
  return s.setQueue q ((s.queues q).terminate s.next)

/-- `Co_waitqueue::dequeue` -/
def dequeue (s : Waitqueues T Q V) (fuel : Nat) (q : Q) (event : EventAddr T) :
    Option (Waitqueues T Q V) := do
  let s ← s.terminate q
  let prev ← (s.queues q).findLink s.live s.next event fuel none
  return s.setQueue q ((s.queues q).unlink s.next event prev)

/-- `*tail = event; tail = &event->next;` -/
def append (s : Waitqueues T Q V) (q : Q) (event : EventAddr T) : Option (Waitqueues T Q V) := do
  guard (s.live (s.queues q).tail)
  return s.setQueue q ((s.queues q).append s.next event)

/-- `dequeue_event` -/
def dequeueEvent (fuel : Nat) (s : Waitqueues T Q V) (event : EventAddr T) :
    Option (Waitqueues T Q V) := do
  let e ← s.event? event
  match e.wq with
  | none => return s
  | some q => s.dequeue fuel q event

/-- `requeue_event` -/
def requeueEvent (s : Waitqueues T Q V) (event : EventAddr T) : Option (Waitqueues T Q V) := do
  let e ← s.event? event
  match e.wq with
  | none => return s
  | some q => s.append q event

/-- The addresses of a thread's events. -/
def addrs (s : Waitqueues T Q V) (t : T) : List (EventAddr T) :=
  (List.range (s.events t).items.length).map fun i => ⟨t, (s.events t).block, i⟩

/-- `events.reserve`: the events are copied to a new block, and the old one is freed. -/
def reserve (s : Waitqueues T Q V) (t : T) : Waitqueues T Q V :=
  let v := s.events t
  { s with
    events := Function.update s.events t
      { v with block := v.block + 1, capacity := if v.capacity = 0 then 1 else 2 * v.capacity }
    next := fun a =>
      if a.thread = t ∧ a.block = v.block + 1 then s.next ⟨t, v.block, a.index⟩ else s.next a }

/-- The part of `add_event` for a vector that is full. -/
def grow (s : Waitqueues T Q V) (fuel : Nat) (t : T) : Option (Waitqueues T Q V) := do
  let s ← (s.addrs t).foldlM (dequeueEvent fuel) s
  let s := s.reserve t
  (s.addrs t).foldlM requeueEvent s

/-- `add_event`, with the values its caller assigns to the new event. -/
def addEvent (s : Waitqueues T Q V) (fuel : Nat) (t : T) (event : CoEvent T Q V) :
    Option (Waitqueues T Q V) := do
  let s ← if (s.events t).capacity ≤ (s.events t).items.length then s.grow fuel t else some s
  let v := s.events t
  let s := s.setEvents t { v with items := v.items ++ [event] }
  return { s with next := Function.update s.next ⟨t, v.block, v.items.length⟩ none }

end Waitqueues

end Events

section Operations

/-! ## Operations -/

namespace Waitqueues

variable {T Q V : Type} [DecidableEq T] [DecidableEq Q] [DecidableEq V]

/-- `Co_waitqueue::wait` -/
def wait (s : Waitqueues T Q V) (fuel : Nat) (t : T) (q : Q) (retvalp : Option V) :
    Option (Waitqueues T Q V) := do
  let s ← s.addEvent fuel t ⟨some q, t, retvalp⟩
  let v := s.events t
  (s.setVar retvalp 0).append q ⟨t, v.block, v.items.length - 1⟩

/-- `co_immediate_wake` -/
def immediateWake (s : Waitqueues T Q V) (fuel : Nat) (t : T) (retval : Int) (retvalp : Option V) :
    Option (Waitqueues T Q V) := do
  let s ← s.addEvent fuel t ⟨none, t, retvalp⟩
  return s.setVar retvalp retval

/-- `do_event_wake`, with the thread it makes ready. -/
def doEventWake (s : Waitqueues T Q V) (retval : Int) (event : EventAddr T) :
    Option (Waitqueues T Q V × T) := do
  let e ← s.event? event
  let v := s.events event.thread
  let s := s.setEvents event.thread { v with items := v.items.set event.index { e with wq := none } }
  return (s.setVar e.retvalp retval, e.thread)

/-- The loop of `wake_all` and `wake_n`: with the event it has come to, and the threads it has
woken. -/
def wakeLoop (retval : Int) (more : Nat → Bool) :
    Nat → Waitqueues T Q V → Option (EventAddr T) → List T →
      Option (Waitqueues T Q V × Option (EventAddr T) × List T)
  | _, s, none, woken => some (s, none, woken)
  | 0, _, some _, _ => none
  | fuel + 1, s, some e, woken =>
    if more woken.length then do
      let (s, thread) ← s.doEventWake retval e
      wakeLoop retval more fuel s (s.next e) (woken ++ [thread])
    else some (s, some e, woken)

/-- `Co_waitqueue::wake_all` -/
def wakeAll (s : Waitqueues T Q V) (fuel : Nat) (q : Q) (retval : Int) :
    Option (Waitqueues T Q V × List T) := do
  let s ← s.terminate q
  let (s, _, woken) ← wakeLoop retval (fun _ => true) fuel s (s.queues q).head []
  return (s.setQueue q (s.next, (s.queues q).startAt none), woken)

/-- `Co_waitqueue::wake_n` returns the number of the threads it has woken. -/
def wakeN (s : Waitqueues T Q V) (fuel : Nat) (q : Q) (retval : Int) (maxWake : Nat) :
    Option (Waitqueues T Q V × List T × Nat) := do
  let s ← s.terminate q
  let (s, e, woken) ← wakeLoop retval (· < maxWake) fuel s (s.queues q).head []
  return (s.setQueue q (s.next, (s.queues q).startAt e), woken, woken.length)

/-- `Co_waitqueue::wake_1` -/
def wake1 (s : Waitqueues T Q V) (q : Q) (retval : Int) :
    Option (Waitqueues T Q V × Option T) := do
  let s ← s.terminate q
  match (s.queues q).head with
  | none => return (s, none)
  | some e =>
    let next := s.next e
    let (s, thread) ← s.doEventWake retval e
    return (s.setQueue q (s.next, (s.queues q).startAt next), some thread)

/-- `cancel_events` -/
def cancelEvents (s : Waitqueues T Q V) (fuel : Nat) (t : T) : Option (Waitqueues T Q V) := do
  let s ← (s.addrs t).foldlM (dequeueEvent fuel) s
  return s.setEvents t { s.events t with items := [] }

end Waitqueues

end Operations

end Nox.Threads
