import Mathlib.Algebra.Group.Nat.Defs
import Mathlib.Data.Finset.Basic
import Nox.Lib.Schedule

/-!
# The timer dispatcher

`Timer_dispatcher` keeps its timers in three containers: the new and moved ones
in `applicants` until the next `poll` admits them to `timers`, a set ordered by
due time and generation, and all of these in `all_timers`.  `poll` takes the due
timers off `timers` and calls them; a callback may use the dispatcher and may
poll again, from inside or, when it blocks, from another thread.  So a step is
one call of the interface or the return of a callback, and the polls that wait
for a callback are frames of the state.

A `Timer` is a pointer and a generation.  What `post` returns may be copied and
used at any later time, so all of it stays in `handles`, under the number of the
post; `history` tells the same run in terms of these numbers.
-/

namespace Nox.Timer

open Schedule

section Timeval

/-! ## Times -/

/-- `timeval`, compared by seconds and then microseconds. -/
abbrev Timeval := Int ×ₗ Int

def Timeval.sec (x : Timeval) : Int := (ofLex x).1

def Timeval.usec (x : Timeval) : Int := (ofLex x).2

def timeval (sec usec : Int) : Timeval := toLex (sec, usec)

/-- `operator+` -/
def Timeval.plus (x y : Timeval) : Timeval :=
  if x.usec + y.usec ≥ 1000000 then timeval (x.sec + y.sec + 1) (x.usec + y.usec - 1000000)
  else timeval (x.sec + y.sec) (x.usec + y.usec)

/-- `operator-`, with zero in the place of a negative time. -/
def Timeval.minus (x y : Timeval) : Timeval :=
  if x ≤ y then timeval 0 0
  else if x.usec ≥ y.usec then timeval (x.sec - y.sec) (x.usec - y.usec)
  else timeval (x.sec - y.sec - 1) (1000000 + x.usec - y.usec)

end Timeval

section State

/-! ## The state -/

/-- `Timer_impl`, with the number of its post. -/
structure TimerImpl where
  time : Timeval
  admitted : Bool
  generation : Nat
  ticket : Nat

/-- `Timer`: the address of the `Timer_impl` and its generation. -/
structure Handle where
  impl : Nat
  generation : Nat

/-- A `poll` that waits for the callback of `firing` to return. -/
structure Frame where
  poll : Nat
  now : Timeval
  serial : Nat
  firing : Nat

/-- `Timer_dispatcher` and its memory. -/
structure Dispatcher where
  heap : Nat → Option TimerImpl
  timers : List Nat
  applicants : Finset Nat
  allTimers : Finset Nat
  serial : Nat
  nextGeneration : Nat
  -- the time of day `do_gettimeofday` remembers
  clock : Timeval
  frames : List Frame
  handles : List Handle
  polls : Nat
  history : List (Act Timeval)

def Dispatcher.init : Dispatcher where
  heap := fun _ => none
  timers := []
  applicants := ∅
  allTimers := ∅
  serial := 0
  nextGeneration := 0
  clock := timeval 0 0
  frames := []
  handles := []
  polls := 0
  history := []

/-- Writes the memory at an address. -/
def store (heap : Nat → Option TimerImpl) (a : Nat) (t : Option TimerImpl) :
    Nat → Option TimerImpl :=
  fun b => if b = a then t else heap b

abbrev Key := Timeval ×ₗ Nat

def TimerImpl.key (t : TimerImpl) : Key := toLex (t.time, t.generation)

/-- What `Compare_timer` looks at. -/
def key (heap : Nat → Option TimerImpl) (a : Nat) : Key :=
  match heap a with
  | some t => t.key
  | none => toLex (timeval 0 0, 0)

/-- `insert` into the ordered set: an equivalent element is kept instead. -/
def insertTimer (k : Nat → Key) (a : Nat) : List Nat → List Nat
  | [] => [a]
  | b :: l =>
    if k a < k b then a :: b :: l
    else if k b < k a then b :: insertTimer k a l
    else b :: l

/-- `erase` from the ordered set: the element equivalent to the argument. -/
def eraseTimer (k : Nat → Key) (a : Nat) (l : List Nat) : List Nat :=
  l.filter fun b => k b ≠ k a

end State

section Operations

/-! ## The operations -/

/-- `post` of a callback to be called after `duration`; `new` returns `addr`. -/
def Dispatcher.post (s : Dispatcher) (duration : Timeval) (addr : Nat) : Option Dispatcher :=
  match s.heap addr with
  | some _ => none
  | none =>
    let n := s.handles.length
    let generation := (s.nextGeneration + 1) % 2 ^ 32
    let time := s.clock.plus duration
    some { s with
      heap := store s.heap addr (some ⟨time, false, generation, n⟩)
      applicants := insert addr s.applicants
      allTimers := insert addr s.allTimers
      nextGeneration := generation
      handles := s.handles ++ [⟨addr, generation⟩]
      history := .post n time generation :: s.history }

/-- `check_validity` -/
def Dispatcher.checkValidity (s : Dispatcher) (h : Handle) : Bool :=
  decide (h.impl ∈ s.allTimers) && ((s.heap h.impl).map (·.generation) == some h.generation)

/-- `Timer_impl::cancel` -/
def Dispatcher.implCancel (s : Dispatcher) (a : Nat) (t : TimerImpl) : Dispatcher :=
  let s :=
    if t.admitted then
      { s with
        timers := eraseTimer (key s.heap) a s.timers
        heap := store s.heap a (some { t with admitted := false }) }
    else { s with applicants := s.applicants.erase a }
  { s with allTimers := s.allTimers.erase a }

/-- `Timer_impl::set_timeout` -/
def Dispatcher.setTimeout (s : Dispatcher) (a : Nat) (t : TimerImpl) (time : Timeval) :
    Dispatcher :=
  let s := s.implCancel a t
  { s with
    heap := store s.heap a (some { t with admitted := false, time := time })
    applicants := insert a s.applicants
    allTimers := insert a s.allTimers }

/-- What a method of `Timer` does with the `Timer_impl` when it is valid. -/
def Dispatcher.withValid (s : Dispatcher) (n : Nat) (op : Nat → TimerImpl → Dispatcher) :
    Option Dispatcher :=
  match s.handles[n]? with
  | none => none
  | some h =>
    match s.checkValidity h, s.heap h.impl with
    | true, some t => some (op h.impl t)
    | _, _ => some s

/-- `Timer::cancel` through the handle of the post `n`. -/
def Dispatcher.cancel (s : Dispatcher) (n : Nat) : Option Dispatcher :=
  (s.withValid n fun a t =>
    let s := s.implCancel a t
    { s with heap := store s.heap a none }).map
    fun s => { s with history := .cancel n :: s.history }

/-- `Timer_impl::delay` -/
def delayed (neg : Bool) (sec usec : Int) (time : Timeval) : Timeval :=
  if neg then time.minus (timeval sec usec) else time.plus (timeval sec usec)

/-- `Timer::delay` -/
def Dispatcher.delay (s : Dispatcher) (n : Nat) (neg : Bool) (sec usec : Int) :
    Option Dispatcher :=
  (s.withValid n fun a t => s.setTimeout a t (delayed neg sec usec t.time)).map
    fun s => { s with history := .move n (delayed neg sec usec) :: s.history }

/-- `Timer::reset` -/
def Dispatcher.reset (s : Dispatcher) (n : Nat) (sec usec : Int) : Option Dispatcher :=
  let time := s.clock.plus (timeval sec usec)
  (s.withValid n fun a t => s.setTimeout a t time).map
    fun s => { s with history := .move n (fun _ => time) :: s.history }

/-- The loop of `poll` up to the call of a callback, or to its end. -/
def Dispatcher.fire (s : Dispatcher) (poll : Nat) (now : Timeval) (serial : Nat) : Dispatcher :=
  match s.timers with
  | [] => s
  | a :: timers =>
    match s.heap a with
    | none => s
    | some t =>
      if now ≤ t.time then s
      else
        { s with
          timers := timers
          allTimers := s.allTimers.erase a
          frames := s.frames ++ [⟨poll, now, serial, a⟩]
          history := .run t.ticket poll now t.time t.generation :: s.history }

/-- The applicants are admitted; `order` is the order in which the hash set is run
through. -/
def Dispatcher.admitApplicants (s : Dispatcher) (order : List Nat) : Dispatcher :=
  let heap := fun a =>
    if a ∈ s.applicants then (s.heap a).map fun t => { t with admitted := true } else s.heap a
  { s with
    heap := heap
    timers := order.foldl (fun l a => insertTimer (key heap) a l) s.timers
    applicants := ∅ }

/-- `poll` at the time `now`. -/
def Dispatcher.poll (s : Dispatcher) (now : Timeval) (order : List Nat) : Option Dispatcher :=
  if order.Nodup ∧ order.toFinset = s.applicants then
    let s := { s with clock := now }.admitApplicants order
    let serial := (s.serial + 1) % 2 ^ 32
    some ({ s with serial := serial, polls := s.polls + 1 }.fire (s.polls + 1) now serial)
  else none

/-- The callback of the frame `i` returns: the timer is deleted, and the loop goes
on unless another poll has begun. -/
def Dispatcher.ret (s : Dispatcher) (i : Nat) : Option Dispatcher :=
  match s.frames[i]? with
  | none => none
  | some f =>
    let s := { s with heap := store s.heap f.firing none, frames := s.frames.eraseIdx i }
    if f.serial ≠ s.serial then some s else some (s.fire f.poll f.now f.serial)

/-- The calls of the interface, the returns of callbacks, and the updates of the
time of day elsewhere. -/
inductive Label
  | post (duration : Timeval) (addr : Nat)
  | cancel (n : Nat)
  | delay (n : Nat) (neg : Bool) (sec usec : Int)
  | reset (n : Nat) (sec usec : Int)
  | poll (now : Timeval) (order : List Nat)
  | ret (i : Nat)
  | tick (now : Timeval)

def Dispatcher.step (s : Dispatcher) : Label → Option Dispatcher
  | .post duration addr => s.post duration addr
  | .cancel n => s.cancel n
  | .delay n neg sec usec => s.delay n neg sec usec
  | .reset n sec usec => s.reset n sec usec
  | .poll now order => s.poll now order
  | .ret i => s.ret i
  | .tick now => some { s with clock := now }

def Dispatcher.run (s : Dispatcher) (ls : List Label) : Option Dispatcher :=
  ls.foldlM Dispatcher.step s

end Operations

section Condition

/-! ## The counters have not wrapped -/

/-- The handle a label uses. -/
def Label.handle? : Label → Option Nat
  | .cancel n => some n
  | .delay n _ _ _ => some n
  | .reset n _ _ => some n
  | _ => none

/-- The handle of the post `n` is not taken for that of another timer, of the same
generation and at the same address. -/
def Dispatcher.Distinct (s : Dispatcher) (n : Nat) : Prop :=
  ∀ h t, s.handles[n]? = some h → s.checkValidity h = true → s.heap h.impl = some t →
    t.ticket = n

/-- The 32-bit counters tell the two things apart that they are compared for: in a
use of a handle its timer and another, and in the return of a callback the poll
of its frame and a later one. -/
def Dispatcher.Meets (s : Dispatcher) (l : Label) : Prop :=
  (∀ n, l.handle? = some n → s.Distinct n) ∧
    ∀ i f, l = .ret i → s.frames[i]? = some f → f.serial = s.serial → f.poll = s.polls

/-- Every step of the run meets the condition. -/
def Dispatcher.Admissible : Dispatcher → List Label → Prop
  | _, [] => True
  | s, l :: ls => s.Meets l ∧ ∀ s', s.step l = some s' → Dispatcher.Admissible s' ls

end Condition

end Nox.Timer
