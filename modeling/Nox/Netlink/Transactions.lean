import Nox.Lib.Runs
import Mathlib.Algebra.Group.Nat.Defs
import Mathlib.Data.List.Perm.Basic
import Mathlib.Data.List.Nodup
import Mathlib.Logic.Function.Basic

/-!
# Netlink transactions

`Nl_socket::transact`, with any number of threads and transactions on one socket, the kernel at
the other end, and the calls that send and receive one by one: between any two of them the kernel
may answer, drop an answer, or send what nobody has asked for.  The threads are cooperative, so
that only one runs until it blocks.
-/

namespace Nox.Netlink

section Model

/-! ## Transactions and messages -/

def EAGAIN : Nat := 11
def EPROTO : Nat := 71
def ENOBUFS : Nat := 105

/-- `NLMSG_HDRLEN` -/
def nlmsgHdrlen : Nat := 16

/-- `NLMSG_ALIGN(sizeof(nlmsgerr))` -/
def nlmsgerrSize : Nat := 20

/-- `NLMSG_ERROR` -/
def nlmsgError : UInt16 := 2

/-- What is read of a message, all from its `size` bytes: `error` is that of an `nlmsgerr`.  The
request it answers is not in the message. -/
structure Nlmsg where
  size : Nat
  seq : UInt32
  type : UInt16
  error : Int
  answers : Option Nat
  deriving DecidableEq, Repr

def needRetransmit : Int := -2
def needReply : Int := -1

/-- `Nl_transaction`; `id` is its request, the number of which is from this call of
`next_seq`. -/
structure NlTransaction where
  id : Nat
  status : Int
  reply : Option Nlmsg
  deriving DecidableEq, Repr

/-- `Nl_transaction::retransmit`, with what the call of `send` returns. -/
def NlTransaction.retransmit (t : NlTransaction) (sent : Nat) : NlTransaction × Nat :=
  if t.status = needRetransmit then
    if sent = 0 then ({ t with status := needReply }, 0)
    else if sent ≠ EAGAIN then ({ t with status := sent }, sent)
    else (t, sent)
  else (t, 0)

/-- What `do_transact` makes of a reply. -/
def Nlmsg.result (m : Nlmsg) : Except Nat Nlmsg :=
  if m.size < nlmsgHdrlen then .error EPROTO
  else if m.type = nlmsgError then
    if m.size < nlmsgHdrlen + nlmsgerrSize then .error EPROTO
    else if m.error < 0 then
      .error (if (-m.error).toNat = EAGAIN then EPROTO else (-m.error).toNat)
    else .ok m
  else .ok m

/-! ## The socket -/

/-- Where the thread is that runs: before the `switch` of `do_transact`, before one of the two
calls in `do_recv`, in `retransmit_all` with these transactions to come and one of the two calls
to make again, or in `transact_wait`. -/
inductive Pc
  | switch
  | peek
  | read (size : Nat)
  | resend (todo : List Nat) (size : Option Nat)
  | wait
  deriving DecidableEq, Repr

/-- What `retransmit_all` has still to go through. -/
def Pc.todo : Pc → List Nat
  | resend todo _ => todo
  | _ => []

/-- The size that the first of the two calls has told. -/
def Pc.peeked : Pc → Option Nat
  | read size => some size
  | resend _ size => size
  | _ => none

/-- What a thread has registered that is blocked. -/
inductive Await
  | readable
  | writable
  | ready
  deriving DecidableEq, Repr

/-- A thread in a call, and its transaction. -/
structure Running (P : Type) where
  thread : P
  id : Nat
  pc : Pc

/-- What a call of `transact` has returned. -/
structure Outcome (P : Type) where
  thread : P
  id : Nat
  result : Except Nat Nlmsg

/-- `Nl_socket` and its threads; and of the kernel what it has not answered, what it has queued and
not been asked for, whether it has dropped something since, and all that it has ever queued. -/
structure NlSocket (P : Type) where
  calls : Nat
  transactions : List NlTransaction
  running : Option (Running P)
  blocked : P → Option (Nat × Await)
  outcomes : List (Outcome P)
  pending : List Nat
  queue : List Nlmsg
  enobufs : Bool
  sent : List Nlmsg

/-- What is done.  `nextSeq` composes a request; a transaction is made of one, which may have served
another before.  A step of the running thread has what its call of the kernel returns if that is
not told by the state, the order of the transactions in the map, and whether it blocks. -/
inductive NlOp (P : Type)
  | nextSeq
  | construct (id : Nat)
  | destruct (id : Nat)
  | transact (p : P) (id : Nat)
  | transactWait (p : P) (id : Nat)
  | resume (p : P)
  | readable
  | writable
  | proceed (errno : Nat) (block : Bool) (order : List Nat)
  | answer (id : Nat) (m : Nlmsg) (last : Bool)
  | drop (id : Nat)
  | notify (m : Nlmsg)
  | dropNotice

namespace NlSocket

variable {P : Type} [DecidableEq P]

def init : NlSocket P := ⟨0, [], none, fun _ => none, [], [], [], false, []⟩

/-- The numbers `next_seq` returns, one after the other. -/
def seqOf (first : UInt32) (id : Nat) : UInt32 := first + UInt32.ofNat id

def find (s : NlSocket P) (id : Nat) : Option NlTransaction := s.transactions.find? (·.id = id)

/-- `transactions.find(seq)` -/
def lookup (s : NlSocket P) (first seq : UInt32) : Option NlTransaction :=
  s.transactions.find? (seqOf first ·.id = seq)

def put (s : NlSocket P) (t : NlTransaction) : NlSocket P :=
  { s with transactions := s.transactions.map fun u => if u.id = t.id then t else u }

/-- `wakeup.broadcast` -/
def broadcast (s : NlSocket P) (id : Nat) : NlSocket P :=
  { s with blocked := fun p =>
    if s.blocked p = some (id, .readable) then some (id, .ready) else s.blocked p }

/-- A retransmission, and what reaches the kernel. -/
def retransmit (s : NlSocket P) (t : NlTransaction) (errno : Nat) : NlSocket P × Nat :=
  let (t', error) := t.retransmit errno
  let s := s.put t'
  if t.status = needRetransmit ∧ error = 0 then ({ s with pending := s.pending ++ [t.id] }, 0)
  else (s, error)

def goto (s : NlSocket P) (r : Running P) (pc : Pc) : NlSocket P :=
  { s with running := some { r with pc } }

/-- `transact` returns. -/
def leave (s : NlSocket P) (r : Running P) (result : Except Nat Nlmsg) : NlSocket P :=
  { s with running := none, outcomes := s.outcomes ++ [⟨r.thread, r.id, result⟩] }

/-- `do_transact` returns an error; a call that blocks waits then. -/
def fail (s : NlSocket P) (r : Running P) (error : Nat) (block : Bool) : NlSocket P :=
  if error = EAGAIN ∧ block then s.goto r .wait else s.leave r (.error error)

def suspend (s : NlSocket P) (r : Running P) (await : Await) : NlSocket P :=
  { s with
    running := none
    blocked := Function.update s.blocked r.thread (some (r.id, await)) }

/-- One round of `do_transact`. -/
def switch (s : NlSocket P) (r : Running P) (t : NlTransaction) (errno : Nat) (block : Bool) :
    Option (NlSocket P) :=
  if t.status = needRetransmit then
    let (s, error) := s.retransmit t errno
    if error ≠ 0 then some (s.fail r error block) else some (s.goto r .switch)
  else if t.status = needReply then some (s.goto r .peek)
  else if t.status = 0 then
    match t.reply with
    -- the reply has been given away
    | none => none
    | some m =>
      let s := s.put { t with reply := none }
      match m.result with
      | .ok m => some (s.leave r (.ok m))
      | .error e => some (s.fail r e block)
  else some (s.fail r t.status.toNat block)

/-- A call of `recv` that finds a message, or goes on elsewhere. -/
def recv (s : NlSocket P) (r : Running P) (errno : Nat) (block : Bool) (order : List Nat)
    (back : Option Nat) (found : Nlmsg → List Nlmsg → Option (NlSocket P)) : Option (NlSocket P) :=
  if s.enobufs then
    if order.Perm (s.transactions.map (·.id)) then
      some ({ s with enobufs := false }.goto r (.resend order back))
    else none
  else if errno ≠ 0 ∧ errno ≠ EAGAIN ∧ errno ≠ ENOBUFS then some (s.fail r errno block)
  else
    match s.queue with
    | [] => some (s.fail r EAGAIN block)
    | m :: queue => found m queue

/-- A message has been read. -/
def receive (s : NlSocket P) (first : UInt32) (r : Running P) (m : Nlmsg) (block : Bool) :
    NlSocket P :=
  if m.size < nlmsgHdrlen then s.fail r EPROTO block
  else
    match s.lookup first m.seq with
    -- it is part of no transaction, and thrown away
    | none => s.goto r .switch
    | some t =>
      if t.status < 0 then
        ((s.put { t with status := 0, reply := some m }).broadcast t.id).goto r .peek
      else s.goto r .peek

/-- One transaction in `retransmit_all`. -/
def resend (s : NlSocket P) (id errno : Nat) : NlSocket P :=
  match s.find id with
  | none => s
  | some t =>
    if t.status = needReply then
      let t := { t with status := needRetransmit }
      ((s.put t).retransmit t errno).1.broadcast id
    else s

/-- `transact_wait`, until the thread blocks. -/
def transactWait (s : NlSocket P) (r : Running P) (t : NlTransaction) (errno : Nat) :
    NlSocket P :=
  let (s, error) := s.retransmit t errno
  if error ≠ 0 then s.suspend r (if error = EAGAIN then .writable else .ready)
  else s.suspend r (if (t.retransmit errno).1.status = needReply then .readable else .ready)

/-- The thread that runs goes on to its next call. -/
def proceed (s : NlSocket P) (first : UInt32) (r : Running P) (errno : Nat) (block : Bool)
    (order : List Nat) : Option (NlSocket P) :=
  match r.pc with
  | .switch => (s.find r.id).bind fun t => s.switch r t errno block
  | .peek => s.recv r errno block order none fun m _ =>
    -- `MSG_PEEK | MSG_TRUNC`; of nothing it is told as success
    some (s.goto r (if m.size = 0 then .switch else .read m.size))
  | .read size => s.recv r errno block order (some size) fun m queue =>
    some ({ s with queue }.receive first r { m with size := min size m.size } block)
  | .resend [] none => some (s.goto r .peek)
  | .resend [] (some size) => some (s.goto r (.read size))
  | .resend (id :: todo) back => some ((s.resend id errno).goto r (.resend todo back))
  | .wait => (s.find r.id).map fun t => s.transactWait r t errno

def step (first : UInt32) (s : NlSocket P) : NlOp P → Option (NlSocket P)
  | .nextSeq => if s.running.isNone then some { s with calls := s.calls + 1 } else none
  | .construct id =>
    if s.running.isNone ∧ id < s.calls ∧ (s.lookup first (seqOf first id)).isNone then
      some { s with transactions := s.transactions ++ [⟨id, needRetransmit, none⟩] }
    else none
  | .destruct id =>
    if s.running.isNone then
      some { s with transactions := s.transactions.filter (·.id ≠ id) }
    else none
  | .transact p id =>
    if s.running.isNone ∧ s.blocked p = none then
      some { s with running := some ⟨p, id, .switch⟩ }
    else none
  | .transactWait p id =>
    if s.running.isNone ∧ s.blocked p = none then
      some { s with running := some ⟨p, id, .wait⟩ }
    else none
  | .resume p =>
    match s.running, s.blocked p with
    | none, some (id, .ready) =>
      some { s with
        running := some ⟨p, id, .switch⟩
        blocked := Function.update s.blocked p none }
    | _, _ => none
  | .readable =>
    if s.running.isNone ∧ (s.queue ≠ [] ∨ s.enobufs) then
      some { s with blocked := fun p => (s.blocked p).map fun b =>
        if b.2 = .readable then (b.1, .ready) else b }
    else none
  | .writable =>
    if s.running.isNone then
      some { s with blocked := fun p => (s.blocked p).map fun b =>
        if b.2 = .writable then (b.1, .ready) else b }
    else none
  | .proceed errno block order => s.running.bind fun r => s.proceed first r errno block order
  | .answer id m last =>
    if id ∈ s.pending then
      let m := { m with seq := seqOf first id, answers := some id }
      some { s with
        pending := if last then s.pending.erase id else s.pending
        queue := s.queue ++ [m]
        sent := s.sent ++ [m] }
    else none
  | .drop id =>
    if id ∈ s.pending then some { s with pending := s.pending.erase id, enobufs := true } else none
  | .notify m =>
    let m := { m with answers := none }
    some { s with queue := s.queue ++ [m], sent := s.sent ++ [m] }
  | .dropNotice => some { s with enobufs := true }

/-- What the callers and the kernel keep to: a transaction is destroyed when nobody uses it, and
one that is used is there; a message of the kernel has a header.  There are no more sequence
numbers than these. -/
def Valid (s : NlSocket P) : NlOp P → Prop
  | .nextSeq => s.calls < 2 ^ 32
  | .destruct id => ∀ p await, s.blocked p ≠ some (id, await)
  | .transact _ id | .transactWait _ id => (s.find id).isSome
  | .answer _ m _ | .notify m => nlmsgHdrlen ≤ m.size
  | _ => True

end NlSocket

end Model

end Nox.Netlink
