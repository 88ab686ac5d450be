import Mathlib.Algebra.BigOperators.Group.Finset.Basic
import Mathlib.Data.Fintype.Basic
import Nox.Lib.RefList
import Nox.Lib.Runs

/-!
# The poll loop

A `Poll_loop` polls its pollables from a pool of cooperative threads, one of which is the
polling thread.  When a callback blocks, a hook hands that role to a dormant thread, which
goes on with the pollables after the one that blocks.  Threads hold the node of the pollable
whose callback they are in.

Between two callbacks a thread runs without interruption.  Which thread runs next, and what
callbacks and others do meanwhile, is left open: every thread that is not waiting for its
semaphore may go on at any time.
-/

namespace Nox.Poll

open Lib (Node RefList)

section State

/-- Where a thread is.  It is `running` when it is at none of the other places, and the main
thread is `outside` before it enters the loop. -/
inductive Place
  | outside
  | running
  /-- In `wakeup.down()`. -/
  | dormant
  /-- In the `poll` of the pollable of a node; `hook` tells whether it has not yet blocked. -/
  | polling (node : Nat) (hook progress : Bool)
  /-- In `co_yield`, after a round that made progress. -/
  | yielding
  /-- In the `wait` of the pollable of a node. -/
  | waiting (node : Nat)
  /-- In `co_block`, after a round that made none. -/
  | blocked
  deriving DecidableEq

/-- The node a thread holds. -/
def Place.node : Place → Option Nat
  | polling node _ _ | waiting node => some node
  | _ => none

/-- What has happened to the pollables. -/
inductive Event (P : Type)
  | added (p : P)
  | removed (p : P)
  | polled (p : P)
  | waited (p : P)

/-- A thread of a pool of `m + 1`: those created with the loop, and the last, which runs it. -/
abbrev Thread (m : Nat) := Fin (m + 1)

/-- The data of a `Poll_loop_impl`, with the semaphores and places of its threads.
`position` is `pollables_pos` of each pollable, and `fault` is set when an assertion
fails.  The history is newest first. -/
structure PollLoop (P : Type) (m : Nat) where
  pollables : RefList P
  position : P → Nat
  pollingThread : Option (Thread m)
  dormantThreads : List (Thread m)
  wakeup : Thread m → Nat
  place : Thread m → Place
  history : List (Event P)
  fault : Bool

/-- What can happen: the main thread enters the loop, pollables are added and removed, a
callback blocks or returns, or a thread is scheduled again. -/
inductive Act (P : Type) (m : Nat)
  | run
  | addPollable (p : P)
  | removePollable (p : P)
  | block (t : Thread m)
  | polled (t : Thread m) (work : Bool)
  | waited (t : Thread m)
  | resume (t : Thread m)

variable {P : Type} [DecidableEq P] {m : Nat}

/-- The pollable has been added, and not removed since. -/
def present (p : P) : List (Event P) → Bool
  | [] => false
  | .added q :: history => q = p || present p history
  | .removed q :: history => q ≠ p && present p history
  | .polled _ :: history | .waited _ :: history => present p history

end State

namespace PollLoop

variable {P : Type} [DecidableEq P] {m : Nat}

/-! ## The steps of a thread -/

/-- After the constructor, whose threads have all gone to sleep. -/
def init (position : P → Nat) : PollLoop P m where
  pollables := .empty
  position
  pollingThread := none
  dormantThreads := ((List.finRange m).map Fin.castSucc).reverse
  wakeup _ := 0
  place t := if t = Fin.last m then .outside else .dormant
  history := []
  fault := false

variable (s : PollLoop P m) (t : Thread m)

def goTo (place : Place) : PollLoop P m := { s with place := Function.update s.place t place }

/-- The rest of a round of waiting, and `co_block`. -/
def waitPollables (rest : List Nat) : PollLoop P m :=
  match s.pollables.seek rest with
  | (pollables, some (id, p)) =>
    { s with pollables, history := .waited p :: s.history }.goTo t (.waiting id)
  | (pollables, none) => { s with pollables }.goTo t .blocked

/-- The rest of a round of `service_pollables`, and what `poll_thread_main` does after it. -/
def serviceRest (progress : Bool) (rest : List Nat) : PollLoop P m :=
  match s.pollables.seek rest with
  | (pollables, some (id, p)) =>
    { s with pollables, history := .polled p :: s.history }.goTo t (.polling id true progress)
  | (pollables, none) =>
    if progress then { s with pollables }.goTo t .yielding
    else { s with pollables }.waitPollables t pollables.ids

/-- A call of `service_pollables`. -/
def servicePollables : PollLoop P m :=
  if s.pollingThread = some t then s.serviceRest t false s.pollables.ids
  else { s with fault := true }

/-- The top of the loop of `poll_thread_main`. -/
def pollThreadMain : PollLoop P m :=
  if s.pollingThread ≠ some t then
    { s with dormantThreads := t :: s.dormantThreads }.goTo t .dormant
  else s.servicePollables t

/-- The hook, called before a callback blocks for the first time. -/
def appointPollingThread (node : Nat) : PollLoop P m :=
  let s := { s with pollables := s.pollables.rotate node }
  match s.dormantThreads with
  | u :: dormantThreads =>
    { s with
      pollingThread := some u, dormantThreads,
      wakeup := Function.update s.wakeup u (s.wakeup u + 1) }
  | [] => { s with pollingThread := none }

/-- The return of a `poll`.  A thread that has lost its role goes back to sleep, or reclaims
the role when nobody has it. -/
def pollReturned (node : Nat) (progress : Bool) : PollLoop P m :=
  let rest := (s.pollables.after node).map Node.id
  let s := { s with pollables := s.pollables.release node }.goTo t .running
  if s.pollingThread = some t then s.serviceRest t progress rest
  else if s.pollingThread.isSome then s.pollThreadMain t
  else { s with pollingThread := some t }.goTo t .yielding

/-- The return of a `wait`. -/
def waitReturned (node : Nat) : PollLoop P m :=
  let rest := (s.pollables.after node).map Node.id
  { s with pollables := s.pollables.release node }.goTo t .running |>.waitPollables t rest

def addPollable (p : P) : PollLoop P m :=
  { s with
    pollables := s.pollables.insert p
    position := Function.update s.position p s.pollables.made
    history := .added p :: s.history }

def removePollable (p : P) : PollLoop P m :=
  { s with
    pollables := s.pollables.remove (s.position p)
    history := .removed p :: s.history }

/-- `wakeup.down()` has returned. -/
def awake : PollLoop P m :=
  { s with wakeup := Function.update s.wakeup t (s.wakeup t - 1) }.goTo t .running
    |>.servicePollables t

/-- What an act leads to.  Only what is not in the set may be added, and only what is in it
removed. -/
def step (s : PollLoop P m) : Act P m → Option (PollLoop P m)
  | .run =>
    if s.place (Fin.last m) = .outside then
      some (({ s with pollingThread := some (Fin.last m) }.goTo (Fin.last m) .running)
        |>.pollThreadMain (Fin.last m))
    else none
  | .addPollable p => if present p s.history then none else some (s.addPollable p)
  | .removePollable p => if present p s.history then some (s.removePollable p) else none
  | .block t =>
    match s.place t with
    | .polling node true progress =>
      some ((s.goTo t (.polling node false progress)).appointPollingThread node)
    | .polling _ false _ => some s
    | _ => none
  | .polled t work =>
    match s.place t with
    | .polling node _ progress => some (s.pollReturned t node (progress || work))
    | _ => none
  | .waited t =>
    match s.place t with
    | .waiting node => some (s.waitReturned t node)
    | _ => none
  | .resume t =>
    match s.place t with
    | .dormant => if s.wakeup t = 0 then none else some (s.awake t)
    | .yielding => some ((s.goTo t .running).servicePollables t)
    | .blocked => some ((s.goTo t .running).pollThreadMain t)
    | _ => none

end PollLoop

end Nox.Poll
