import Mathlib.Order.Lattice

/-!
# The handshake with a switch

`Handshake_fsm` sends a features request and the configuration, waits for the
features reply, has the switch authenticated, and registers the connection.  Each
call of `run` makes one step and looks at the time first.  What the environment
answers (results of sends and receives, messages of the peer, the outcome of the
authentication, the time) is part of the label of a step.

`history` has what the machine saw, the newest act first.
-/

namespace Nox.Switch

variable {τ : Type} [LinearOrder τ]

section State

/-! ## The state -/

/-- `enum Handshake_state` -/
inductive HandshakeState
  | sendFeaturesReq
  | sendConfig
  | recvFeaturesReply
  | checkSwitchAuth
  | registerSwitch
  deriving DecidableEq

/-- The messages `recv_message` tells apart. -/
inductive Message
  | featuresReply (datapathId : UInt64)
  | echoRequest (xid : UInt32)
  | error (type code : UInt16)
  | packetIn
  | other (type : UInt8)
  deriving DecidableEq

/-- What the machine saw: a call of `run`, the result of a send, the result of a receive
and of `ofl_msg_unpack`, and the outcome of the authentication. -/
inductive Act (τ : Type)
  | run (now : τ)
  | send (now : τ) (error : Int)
  | recv (now : τ) (error : Int) (msg : Option Message)
  | approval (now : τ) (approved : Bool)
  deriving DecidableEq

/-- When the machine runs next: when it is woken, when `completion` is released, or never
again, since it is deleted. -/
inductive Task
  | ready
  | completion
  | gone
  deriving DecidableEq

def EPERM : Int := 1
def EAGAIN : Int := 11
def EINVAL : Int := 22
def ETIMEDOUT : Int := 110

/-- `Handshake_fsm`, the connections it registered, the `Datapath_join_event`s it posted,
the echo replies it sent, and the time and history of its run. -/
structure Handshake (τ : Type) where
  timeout : τ
  state : HandshakeState
  switchApproved : Bool
  featuresReply : Option UInt64
  -- what `errorp` and `disconnected` point at
  error : Option Int
  disconnected : Bool
  ups : Nat
  task : Task
  registered : List UInt64
  joined : List UInt64
  echoed : List UInt32
  clock : τ
  history : List (Act τ)

/-- A new machine at the time `now`. -/
def Handshake.start (now timeout : τ) (disconnected : Bool) : Handshake τ where
  timeout := timeout
  state := .sendFeaturesReq
  switchApproved := false
  featuresReply := none
  error := none
  disconnected := disconnected
  ups := 0
  task := .ready
  registered := []
  joined := []
  echoed := []
  clock := now
  history := []

end State

section Operations

/-! ## The steps -/

/-- `do_exit` -/
def Handshake.doExit (s : Handshake τ) (error : Int) : Handshake τ :=
  { s with
    error := some error
    ups := if s.disconnected then s.ups + 1 else s.ups
    task := .gone }

/-- `next_state` in `send_message` -/
def HandshakeState.nextState : HandshakeState → Option HandshakeState
  | .sendFeaturesReq => some .sendConfig
  | .sendConfig => some .recvFeaturesReply
  | _ => none

/-- `send_message`, where the send returns `error`. -/
def Handshake.sendMessage (s : Handshake τ) (error : Int) : Handshake τ :=
  match s.state.nextState with
  | none => s.doExit EINVAL
  | some state =>
    let s := { s with history := .send s.clock error :: s.history }
    if error = EAGAIN then s
    else if error ≠ 0 then s.doExit error
    else { s with state := state }

/-- `recv_message`, where `recv_openflow` returns `error`, and a buffer that holds `msg`
or cannot be unpacked. -/
def Handshake.recvMessage (s : Handshake τ) (error : Int) (msg : Option Message) : Handshake τ :=
  let s := { s with history := .recv s.clock error msg :: s.history }
  if error = EAGAIN then s
  else if error ≠ 0 then s.doExit error
  else
    match msg with
    | none => s
    | some (.featuresReply dpid) =>
      if s.state ≠ .recvFeaturesReply then s
      else { s with featuresReply := some dpid, state := .checkSwitchAuth }
    | some (.echoRequest xid) => { s with echoed := s.echoed ++ [xid] }
    | some (.error _ _) => s.doExit EINVAL
    | some .packetIn => s
    | some (.other _) => s

/-- `register_switch`.  Without a features reply it would follow a null pointer. -/
def Handshake.registerSwitch (s : Handshake τ) : Option (Handshake τ) :=
  match s.featuresReply with
  | none => none
  | some dpid =>
    if !s.switchApproved then some (s.doExit EPERM)
    else if dpid = 0 then some (s.doExit EINVAL)
    else
      some (Handshake.doExit { s with
        registered := s.registered ++ [dpid]
        joined := s.joined ++ [dpid]
        disconnected := false } 0)

/-- The beginning of `run`: the time is up, or it goes on. -/
def Handshake.inTime (s : Handshake τ) (now : τ) (body : Handshake τ → Option (Handshake τ)) :
    Option (Handshake τ) :=
  let s := { s with clock := now, history := .run now :: s.history }
  if s.timeout < now then some (s.doExit ETIMEDOUT) else body s

/-- The authentication has ended with `approved`. -/
def Handshake.approve (s : Handshake τ) (approved : Bool) (next : HandshakeState) : Handshake τ :=
  { s with
    switchApproved := approved
    state := next
    history := .approval s.clock approved :: s.history }

/-- `check_switch_auth`.  Without an authenticator `run` is called again, at the time
`later`. -/
def Handshake.checkSwitchAuth (s : Handshake τ) (auth : Bool) (later : τ) : Option (Handshake τ) :=
  if auth then some { s with task := .completion }
  else (s.approve true .registerSwitch).inTime later Handshake.registerSwitch

/-- What the environment has for a call of `run`: the time, the result of a send, the
result of a receive, whether there is an authenticator, and the time later in the call. -/
structure Env (τ : Type) where
  now : τ
  send : Int
  recv : Int
  msg : Option Message
  auth : Bool
  later : τ

/-- `run` -/
def Handshake.run (s : Handshake τ) (env : Env τ) : Option (Handshake τ) :=
  s.inTime env.now fun s =>
    match s.state with
    | .sendFeaturesReq => some (s.sendMessage env.send)
    | .sendConfig => some (s.sendMessage env.send)
    | .recvFeaturesReply => some (s.recvMessage env.recv env.msg)
    | .checkSwitchAuth => s.checkSwitchAuth env.auth env.later
    | .registerSwitch => s.registerSwitch

/-- A call of `run`, or of `switch_auth_cb` by the authenticator. -/
inductive Label (τ : Type)
  | run (env : Env τ)
  | switchAuthCb (now : τ) (approved : Bool)

/-- Time goes on; `run` is called when the machine is awake, and the authenticator calls
back once. -/
def Handshake.step (s : Handshake τ) : Label τ → Option (Handshake τ)
  | .run env =>
    if s.task = .ready ∧ s.clock ≤ env.now ∧ env.now ≤ env.later then s.run env else none
  | .switchAuthCb now approved =>
    if s.task = .completion ∧ s.clock ≤ now then
      some { Handshake.approve { s with clock := now } approved .registerSwitch with
        task := .ready }
    else none

def Handshake.runs (s : Handshake τ) (ls : List (Label τ)) : Option (Handshake τ) :=
  ls.foldlM Handshake.step s

end Operations

section History

/-! ## What the history says -/

/-- A send or a receive failed, or an error message came. -/
def Act.Fails : Act τ → Prop
  | .send _ error => error ≠ 0 ∧ error ≠ EAGAIN
  | .recv _ error msg =>
    error ≠ 0 ∧ error ≠ EAGAIN ∨ error = 0 ∧ ∃ type code, msg = some (.error type code)
  | .run _ => False
  | .approval _ _ => False

def Failed (h : List (Act τ)) : Prop := ∃ a ∈ h, a.Fails

/-- By the time `timeout` a features reply with this datapath id was received and the
switch was approved, and nothing failed. -/
structure Cleared (timeout : τ) (h : List (Act τ)) (dpid : UInt64) : Prop where
  replied : ∃ t ≤ timeout, .recv t 0 (some (.featuresReply dpid)) ∈ h
  approved : ∃ t ≤ timeout, .approval t true ∈ h
  clean : ¬ Failed h

/-- When the switch was cleared, another step began before the timeout. -/
def Admitted (timeout : τ) (h : List (Act τ)) (dpid : UInt64) : Prop :=
  ∃ h₂ h₁ t, h = h₂ ++ .run t :: h₁ ∧ t ≤ timeout ∧ Cleared timeout h₁ dpid

end History

end Nox.Switch
