import Nox.Lib.NodeLists
import Nox.Lib.Outcome
import Nox.Threads.Calls

/-!
# The cooperative scheduler

A thread group: its threads and finite state machines, its ready list and its list of blocked ones,
and where each thread is in the scheduler's code.  One thread runs, or the machines it has called,
one within the other; or it goes through the ready list.  A step that fails an assertion ends the
program; critical sections are not counted, but a machine that runs is in one.  Threads neither exit
nor change their group here, and machines make no transitions.
-/

namespace Nox.Threads

open Lib

section Lists

/-! ## The lists -/

/-- `ready_list` with `COTF_READY`, `block_list` with `COTF_BLOCKING`. -/
inductive RunList
  | ready
  | block
  deriving DecidableEq

/-- Why a step is not taken. -/
inductive Stop
  -- the code is somewhere else
  | disabled
  | assertion
  -- an iterator is used with a list it does not point into
  | undefined
  deriving DecidableEq

variable {T : Type} [DecidableEq T]

def makeReady (n : NodeLists RunList T) (thread : T) : Except Stop (NodeLists RunList T) :=
  if n.flag .block thread || n.flag .ready thread then .error .assertion
  else .ok (n.insert .ready thread)

def makeBlocking (n : NodeLists RunList T) (thread : T) : Except Stop (NodeLists RunList T) :=
  if n.flag .block thread || n.flag .ready thread then .error .assertion
  else .ok (n.insert .block thread)

def removeFromLists (n : NodeLists RunList T) (thread : T) (flags : List RunList) :
    Except Stop (Bool × NodeLists RunList T) :=
  if flags.any (n.flag · thread) then
    match n.erase (if n.flag .ready thread then .ready else .block) thread with
    | none => .error .undefined
    | some n' => .ok (true, n'.clear flags thread)
  else .ok (false, n)

/-- What `do_event_wake` does with the thread of the event. -/
def doEventWake (n : NodeLists RunList T) (thread : T) : Except Stop (NodeLists RunList T) := do
  let (_, n) ← removeFromLists n thread [.block]
  if !n.flag .ready thread then makeReady n thread else return n

end Lists

section Group

/-! ## The group -/

/-- Where a thread is. -/
inductive Phase
  -- it has not been scheduled yet
  | start
  -- in its own code
  | running
  -- in `schedule`, which `co_yield` has called
  | yielding
  -- in `schedule`, which `co_block` has called
  | blocking
  -- in `co_poll`, which `co_block` has called
  | polling
  -- in `schedule`, which `co_yield` has called, which `co_block` has called
  | blockYielding
  -- in `co_block`, behind these
  | returning
  deriving DecidableEq

/-- A thread group, of threads and machines `T`, with the queues they wait on. -/
structure CoGroup (T Q V : Type) where
  lists : NodeLists RunList T
  waits : Waits T Q V
  member : T → Bool
  phase : T → Phase
  -- who has the processor, or has called the machines that have it
  current : T
  -- the machines that run, the innermost first
  fsms : List T
  -- `COTF_FSM_ACTION`
  fsmAction : T → Bool
  -- `run` is `NULL`
  exited : T → Bool

/-- What happens in a group. -/
inductive CoOp (T Q V : Type)
  -- `co_thread_create` and `co_fsm_create`
  | create (thread : T)
  | wait (q : Q) (retvalp : Option V)
  | immediateWake (retval : Int) (retvalp : Option V)
  -- by who runs, or in `co_poll` and `do_schedule` by timers and files
  | wake (op : WaitOp T Q V)
  | coYield
  | coBlock
  | fsmRun (fsm : T)
  | fsmWake (fsm : T)
  | fsmKill (fsm : T)
  | fsmBlock
  | fsmRest
  | fsmYield
  | fsmExit
  -- the function of the innermost machine returns
  | fsmReturn
  -- `co_poll` is over in `co_block`
  | polled
  -- the first of the ready list is scheduled
  | schedule
  -- `co_block` returns
  | blockReturn

def WaitOp.isWake {T Q V : Type} : WaitOp T Q V → Bool
  | .wake1 _ _ | .wakeN _ _ _ | .wakeAll _ _ => true
  | _ => false

instance {T Q V : Type} (op : WaitOp T Q V) : Decidable op.Valid := by
  cases op <;> unfold WaitOp.Valid <;> infer_instance

/-- A thread is back from `do_schedule`. -/
def Phase.scheduled : Phase → Phase
  | .start | .yielding => .running
  | .blocking | .blockYielding => .returning
  | p => p

/-- In the loop of `do_schedule`. -/
def Phase.inSchedule : Phase → Bool
  | .yielding | .blocking | .blockYielding => true
  | _ => false

namespace CoGroup

variable {T Q V : Type} [DecidableEq T] [DecidableEq Q] [DecidableEq V]

/-- A group that one thread has joined. -/
def init (thread : T) (vars : V → Int) : CoGroup T Q V where
  lists := .empty
  waits := .init vars
  member := fun t => t = thread
  phase := fun _ => .running
  current := thread
  fsms := []
  fsmAction := fun _ => false
  exited := fun _ => false

def ready (s : CoGroup T Q V) (t : T) : Bool := s.lists.flag .ready t

def blocking (s : CoGroup T Q V) (t : T) : Bool := s.lists.flag .block t

/-- `co_self()` -/
def coSelf (s : CoGroup T Q V) : T := s.fsms.head?.getD s.current

/-- A machine or the thread is in its code, or in the pre-block hook. -/
def InCode (s : CoGroup T Q V) : Prop :=
  s.fsms ≠ [] ∨ s.phase s.current ≠ .polling ∧ s.phase s.current ≠ .returning

instance (s : CoGroup T Q V) : Decidable s.InCode := inferInstanceAs (Decidable (_ ∨ _ ∧ _))

def setPhase (s : CoGroup T Q V) (t : T) (p : Phase) : CoGroup T Q V :=
  { s with phase := Function.update s.phase t p }

/-- Events are woken, and their threads. -/
def wake (s : CoGroup T Q V) (op : WaitOp T Q V) : Except Stop (CoGroup T Q V) :=
  if !op.isWake then .error .disabled
  else if ¬op.Valid then .error .assertion
  else do
    let lists ← ((op.wakes s.waits.queue).map (·.1)).foldlM doEventWake s.lists
    return { s with waits := s.waits.exec op, lists }

def immediateWake (s : CoGroup T Q V) (retval : Int) (retvalp : Option V) :
    Except Stop (CoGroup T Q V) :=
  if retval = 0 then .error .assertion
  else do
    let waits := s.waits.immediateWake s.coSelf retval retvalp
    let lists ← if !s.ready s.coSelf then makeReady s.lists s.coSelf else .ok s.lists
    return { s with waits, lists }

/-- A new thread or machine -/
def create (s : CoGroup T Q V) (thread : T) : Except Stop (CoGroup T Q V) :=
  if s.member thread then .error .disabled
  else do
    let lists ← makeReady s.lists thread
    return { s with
      lists
      member := Function.update s.member thread true
      phase := Function.update s.phase thread .start
      fsmAction := Function.update s.fsmAction thread false
      exited := Function.update s.exited thread false }

/-- The beginning of `co_yield`; `p` is where the scheduler is called from. -/
def coYield (s : CoGroup T Q V) (p done : Phase) : Except Stop (CoGroup T Q V) :=
  if s.lists.list .ready = [] then .ok (s.setPhase s.current done)
  else do
    let lists ← if !s.ready s.current then makeReady s.lists s.current else .ok s.lists
    return { s with lists }.setPhase s.current p

/-- The beginning of `co_block` -/
def coBlock (s : CoGroup T Q V) : Except Stop (CoGroup T Q V) := do
  let (removed, lists) ← removeFromLists s.lists s.current [.ready]
  if !removed then
    let lists ← makeBlocking lists s.current
    return { s with lists }.setPhase s.current .blocking
  else return { s with lists }.setPhase s.current .polling

/-- The end of `co_block` -/
def blockReturn (s : CoGroup T Q V) : Except Stop (CoGroup T Q V) :=
  let s := { s with waits := s.waits.cancelEvents s.current }
  if s.blocking s.current || s.ready s.current then .error .assertion
  else .ok (s.setPhase s.current .running)

variable (isFsm : T → Bool)

/-- The beginning of `run_fsm` -/
def runFsm (s : CoGroup T Q V) (fsm : T) : Except Stop (CoGroup T Q V) :=
  if !s.member fsm || !isFsm fsm || s.fsms.contains fsm then .error .assertion
  else .ok { s with
    waits := s.waits.cancelEvents fsm
    fsmAction := Function.update s.fsmAction fsm false
    fsms := fsm :: s.fsms }

/-- `co_fsm_run`, and `co_fsm_invoke`, which replaces the function of the machine before -/
def fsmRun (s : CoGroup T Q V) (fsm : T) : Except Stop (CoGroup T Q V) := do
  let (_, lists) ← removeFromLists s.lists fsm [.ready, .block]
  runFsm isFsm { s with lists } fsm

def fsmWake (s : CoGroup T Q V) (fsm : T) : Except Stop (CoGroup T Q V) :=
  if !s.member fsm || !isFsm fsm || s.fsms.contains fsm then .error .assertion
  else if !s.ready fsm then do
    let (_, lists) ← removeFromLists s.lists fsm [.block]
    let lists ← makeReady lists fsm
    return { s with lists }
  else .ok s

def fsmKill (s : CoGroup T Q V) (fsm : T) : Except Stop (CoGroup T Q V) :=
  if !s.member fsm || !isFsm fsm || s.fsms.contains fsm then .error .assertion
  else do
    let (_, lists) ← removeFromLists s.lists fsm [.ready, .block]
    return { s with
      waits := s.waits.cancelEvents fsm, lists, member := Function.update s.member fsm false }

/-- `fsm_action`, of the innermost machine -/
def fsmActs (s : CoGroup T Q V) : Except Stop (T × CoGroup T Q V) :=
  match s.fsms with
  | [] => .error .assertion
  | thread :: _ =>
    if s.fsmAction thread then .error .assertion
    else .ok (thread, { s with fsmAction := Function.update s.fsmAction thread true })

def fsmBlock (s : CoGroup T Q V) : Except Stop (CoGroup T Q V) := do
  let (thread, s) ← s.fsmActs
  if !s.ready thread then
    let lists ← makeBlocking s.lists thread
    return { s with lists }
  else return s

def fsmRest (s : CoGroup T Q V) : Except Stop (CoGroup T Q V) :=
  if s.waits.events s.coSelf ≠ [] then .error .assertion else s.fsmBlock

def fsmExit (s : CoGroup T Q V) : Except Stop (CoGroup T Q V) := do
  let (thread, s) ← s.fsmActs
  return { s with exited := Function.update s.exited thread true }

def fsmYield (s : CoGroup T Q V) : Except Stop (CoGroup T Q V) := do
  let (thread, s) ← s.fsmActs
  let lists ← makeReady s.lists thread
  return { s with lists }

/-- The end of `run_fsm` -/
def fsmReturn (s : CoGroup T Q V) : Except Stop (CoGroup T Q V) :=
  match s.fsms with
  | [] => .error .disabled
  | fsm :: fsms =>
    let s := { s with fsms }
    if !s.fsmAction fsm then .error .assertion
    else if s.exited fsm then
      if s.ready fsm || s.blocking fsm || s.waits.events fsm ≠ [] then .error .assertion
      else .ok { s with member := Function.update s.member fsm false }
    else if s.ready fsm || s.blocking fsm then .ok s
    else .error .assertion

/-- One pass through the loop of `do_schedule`.  A thread that is not the one in the loop is woken
from its wait in it. -/
def schedule (s : CoGroup T Q V) : Except Stop (CoGroup T Q V) :=
  match s.lists.list .ready with
  | [] => .error .disabled
  | (_, next) :: _ =>
    let s := { s with lists := (s.lists.popFront .ready).clear [.ready] next }
    if isFsm next then s.fsmRun isFsm next
    else .ok ({ s with current := next }.setPhase next (s.phase next).scheduled)

/-- What the group does.  `co_yield` and `co_block` assert that no machine runs. -/
def step (s : CoGroup T Q V) : CoOp T Q V → Except Stop (CoGroup T Q V)
  | .create thread => if s.InCode then s.create thread else .error .disabled
  | .wait q retvalp =>
    if s.InCode then .ok { s with waits := s.waits.wait s.coSelf q retvalp }
    else .error .disabled
  | .immediateWake retval retvalp =>
    if s.InCode then s.immediateWake retval retvalp else .error .disabled
  | .wake op =>
    if s.InCode ∨ s.phase s.current = .polling then s.wake op else .error .disabled
  | .coYield =>
    if s.fsms = [] ∧ s.phase s.current = .running then s.coYield .yielding .running
    else .error .assertion
  | .coBlock =>
    if s.fsms = [] ∧ s.phase s.current = .running then s.coBlock else .error .assertion
  | .fsmRun fsm => if s.InCode then s.fsmRun isFsm fsm else .error .disabled
  | .fsmWake fsm => if s.InCode then s.fsmWake isFsm fsm else .error .disabled
  | .fsmKill fsm => if s.InCode then s.fsmKill isFsm fsm else .error .disabled
  | .fsmBlock => s.fsmBlock
  | .fsmRest => s.fsmRest
  | .fsmYield => s.fsmYield
  | .fsmExit => s.fsmExit
  | .fsmReturn => s.fsmReturn
  | .polled =>
    if s.fsms = [] ∧ s.phase s.current = .polling then s.coYield .blockYielding .returning
    else .error .disabled
  | .schedule =>
    if s.fsms = [] ∧ (s.phase s.current).inSchedule then s.schedule isFsm else .error .disabled
  | .blockReturn =>
    if s.fsms = [] ∧ s.phase s.current = .returning then s.blockReturn else .error .disabled

/-- The runs of a group that a thread has joined: each operation with the state before it, the last
one first, and the state after all. -/
inductive Run : List (CoGroup T Q V × CoOp T Q V) → CoGroup T Q V → Prop
  | init (thread : T) (vars : V → Int) (h : isFsm thread = false) : Run [] (init thread vars)
  | step {history : List (CoGroup T Q V × CoOp T Q V)} {s s' : CoGroup T Q V}
    {op : CoOp T Q V} :
    Run history s → s.step isFsm op = .ok s' → Run ((s, op) :: history) s'

end CoGroup

end Group

end Nox.Threads
