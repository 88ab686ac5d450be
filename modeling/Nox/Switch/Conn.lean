import Mathlib.Logic.Function.Basic

/-!
# Registered connections

A `Conn` is the connection of a registered switch.  `connection_map` finds it by the
datapath id, the poll loop polls it, and it deletes itself when it is closed and no
`poll` of it is in progress.  A poll that has got a message calls handlers, which may
block or do anything, so it waits until they return (`polls`).  All else is done in one
go.

A `Conn` is named by the number of its creation, so that `deletions` tells which one was
deleted, and whether it was still in the map or polled at that time.
-/

namespace Nox.Switch

section State

/-! ## The state -/

structure Conn where
  -- of its `Openflow_connection`, set before it is registered
  datapathId : UInt64
  closing : Bool
  -- an `int`, which the frames of the polls on the stacks cannot overflow
  pollCnt : Int

/-- A `delete this`. -/
structure Deletion where
  conn : Nat
  mapped : Bool
  polls : Nat

/-- The `Conn`s in memory, `connection_map`, the poll loop and the polls in progress;
the datapath ids under which the `Conn`s were registered, the `Datapath_leave_event`s
posted and the deletions. -/
structure Connections where
  conns : Nat → Option Conn
  connectionMap : List (UInt64 × Nat)
  pollables : List Nat
  polls : List Nat
  names : List UInt64
  left : List UInt64
  deletions : List Deletion

def Connections.init : Connections where
  conns := fun _ => none
  connectionMap := []
  pollables := []
  polls := []
  names := []
  left := []
  deletions := []

/-- `connection_map.find` -/
def Connections.find (s : Connections) (dpid : UInt64) : Option Nat :=
  (s.connectionMap.find? (·.1 = dpid)).map (·.2)

end State

section Operations

/-! ## The operations -/

/-- `delete this`: the destructor calls `close`, which returns since `closing` is set. -/
def Connections.delete (s : Connections) (a : Nat) : Connections :=
  { s with
    conns := Function.update s.conns a none
    deletions := s.deletions ++ [⟨a, s.connectionMap.any (·.2 = a), s.polls.count a⟩] }

/-- `close` up to the end of the entry in the map and in the poll loop. -/
def Connections.shut (s : Connections) (a : Nat) (c : Conn) : Connections :=
  { s with
    conns := Function.update s.conns a (some { c with closing := true })
    left := s.left ++ [c.datapathId]
    connectionMap := s.connectionMap.filter (·.1 ≠ c.datapathId)
    pollables := s.pollables.erase a }

/-- `Conn::close` -/
def Connections.close (s : Connections) (a : Nat) (c : Conn) : Connections :=
  if c.closing then s
  else if c.pollCnt = 0 then (s.shut a c).delete a
  else s.shut a c

/-- `connection_map.insert`; `second` tells whether the key was new. -/
def Connections.insert (s : Connections) (dpid : UInt64) (a : Nat) : Connections × Bool :=
  match s.find dpid with
  | some _ => (s, false)
  | none => ({ s with connectionMap := (dpid, a) :: s.connectionMap }, true)

/-- `new Conn`, which the poll loop polls from now on. -/
def Connections.alloc (s : Connections) (dpid : UInt64) : Connections :=
  { s with
    conns := Function.update s.conns s.names.length (some ⟨dpid, false, 0⟩)
    pollables := s.pollables ++ [s.names.length]
    names := s.names ++ [dpid] }

/-- `register_conn`; `none` is the failure of its assertion. -/
def Connections.registerConn (s : Connections) (dpid : UInt64) : Option Connections :=
  let a := s.names.length
  match (s.alloc dpid).insert dpid a with
  | (s', true) => some s'
  | (s', false) =>
    match s'.find dpid with
    | none => none
    | some b =>
      match s'.conns b with
      | none => none
      | some c =>
        let (s'', second) := (s'.close b c).insert dpid a
        if second then some s'' else none

/-- What `do_poll` gets from the connection. -/
inductive Received
  | message
  | malformed
  | again
  | closed
  | failed

/-- `++poll_cnt` -/
def Connections.beginPoll (s : Connections) (a : Nat) (c : Conn) : Connections :=
  { s with
    conns := Function.update s.conns a (some { c with pollCnt := c.pollCnt + 1 })
    polls := a :: s.polls }

/-- `--poll_cnt` -/
def Connections.release (s : Connections) (a : Nat) (c : Conn) : Connections :=
  { s with
    conns := Function.update s.conns a (some { c with pollCnt := c.pollCnt - 1 })
    polls := s.polls.erase a }

/-- The end of `Conn::poll`. -/
def Connections.endPoll (s : Connections) (a : Nat) (c : Conn) : Connections :=
  if c.pollCnt - 1 = 0 ∧ c.closing then (s.release a c).delete a else s.release a c

/-- Something is done with a `Conn` in memory. -/
def Connections.withConn (s : Connections) (a : Nat) (op : Nat → Conn → Connections) :
    Option Connections :=
  (s.conns a).map (op a)

/-- `Conn::poll`, up to the call of handlers if there is a message. -/
def Connections.poll (s : Connections) (a : Nat) (r : Received) : Option Connections :=
  match s.withConn a s.beginPoll, r with
  | none, _ => none
  | some s, .message => some s
  | some s, .malformed => s.withConn a s.endPoll
  | some s, .again => s.withConn a s.endPoll
  | some s, .closed => (s.withConn a s.close).bind fun s => s.withConn a s.endPoll
  | some s, .failed => (s.withConn a s.close).bind fun s => s.withConn a s.endPoll

/-- The calls of the interface, and the return of the handlers of a poll.  `close` may
come from anywhere; `closeOpenflowConnection` looks the `Conn` up. -/
inductive Op
  | registerConn (dpid : UInt64)
  | poll (a : Nat) (r : Received)
  | ret (a : Nat)
  | close (a : Nat)
  | closeOpenflowConnection (dpid : UInt64)

def Connections.step (s : Connections) : Op → Option Connections
  | .registerConn dpid => s.registerConn dpid
  | .poll a r => s.poll a r
  | .ret a => if a ∈ s.polls then s.withConn a s.endPoll else none
  | .close a => s.withConn a s.close
  | .closeOpenflowConnection dpid =>
    match s.find dpid with
    | none => some s
    | some a => s.withConn a s.close

def Connections.run (s : Connections) (ops : List Op) : Option Connections :=
  ops.foldlM Connections.step s

end Operations

end Nox.Switch
