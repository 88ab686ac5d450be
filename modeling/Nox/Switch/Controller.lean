import Nox.Lib.Runs
import Nox.Switch.Registry

/-!
# The events of switches

`register_switch` registers a connection and posts a join event, `Conn::close` posts a leave
event, and `Conn::do_poll` dispatches a message at once.  The posted events wait for
`Event_dispatcher::poll`, which may be called while the handlers of an earlier dispatch still
block.

The model has the events that one handler gets: a dispatch is in progress (`running`) until
the handlers before it have returned, and then the handler is called (`delivered`), unless
one of them stopped the event.  `messages` tells whether the handler is one for messages.
-/

namespace Nox.Switch

section State

/-! ## The state -/

/-- An event of a switch.  A join and a message are of a connection, by its number. -/
inductive SwitchEvent
  | join (dpid : UInt64) (conn : Nat)
  | message (dpid : UInt64) (conn : Nat)
  | leave (dpid : UInt64)
  deriving DecidableEq

def SwitchEvent.dpid : SwitchEvent → UInt64
  | .join d _ => d
  | .message d _ => d
  | .leave d => d

def SwitchEvent.isJoin : SwitchEvent → Bool
  | .join _ _ => true
  | _ => false

def SwitchEvent.isMessage : SwitchEvent → Bool
  | .message _ _ => true
  | _ => false

def SwitchEvent.isLeave : SwitchEvent → Bool
  | .leave _ => true
  | _ => false

/-- The registered connections, the queue of the event dispatcher, the dispatches in progress
that have not come to the handler, and the events it got. -/
structure Controller where
  conns : Connections
  queue : List SwitchEvent
  running : List SwitchEvent
  delivered : List SwitchEvent

def Controller.init : Controller := ⟨.init, [], [], []⟩

end State

section Steps

/-! ## The steps -/

inductive ControllerStep
  -- `register_switch` has got to the end
  | registerSwitch (dpid : UInt64)
  | poll (a : Nat) (r : Received)
  -- the handlers of a message have returned
  | ret (a : Nat)
  | close (a : Nat)
  | closeOpenflowConnection (dpid : UInt64)
  -- `Event_dispatcher::poll` takes an event from the queue
  | dispatch
  -- the handler is called
  | deliver (e : SwitchEvent)
  -- a handler before it stops the event
  | stop (e : SwitchEvent)

/-- An operation on the connections, with the leave events it posts. -/
def Controller.operate (s : Controller) (op : Op) : Option Controller :=
  (s.conns.step op).map fun conns =>
    { s with
      conns := conns
      queue := s.queue ++ (conns.left.drop s.conns.left.length).map .leave }

/-- `register_conn`, and the join event of the new connection. -/
def Controller.registerSwitch (s : Controller) (dpid : UInt64) : Option Controller :=
  (s.operate (.registerConn dpid)).map fun s' =>
    { s' with queue := s'.queue ++ [.join dpid s.conns.names.length] }

/-- The poll loop polls a connection; the event of a message is dispatched at once. -/
def Controller.poll (messages : Bool) (s : Controller) (a : Nat) (r : Received) :
    Option Controller :=
  match s.conns.conns a with
  | none => none
  | some c =>
    if a ∈ s.conns.pollables then
      (s.operate (.poll a r)).map fun s' =>
        match r, messages with
        | .message, true => { s' with running := s'.running ++ [.message c.datapathId a] }
        | _, _ => s'
    else none

/-- A poll ends when its dispatch is over. -/
def Controller.ret (s : Controller) (a : Nat) : Option Controller :=
  let pending := s.running.countP fun
    | .message _ b => b = a
    | _ => false
  if pending < s.conns.polls.count a then s.operate (.ret a) else none

def Controller.dispatch (s : Controller) : Option Controller :=
  match s.queue with
  | [] => none
  | e :: queue => some { s with queue := queue, running := s.running ++ [e] }

def Controller.deliver (s : Controller) (e : SwitchEvent) : Option Controller :=
  if e ∈ s.running then
    some { s with running := s.running.erase e, delivered := s.delivered ++ [e] }
  else none

def Controller.stop (s : Controller) (e : SwitchEvent) : Option Controller :=
  if e ∈ s.running then some { s with running := s.running.erase e } else none

def Controller.step (messages : Bool) (s : Controller) : ControllerStep → Option Controller
  | .registerSwitch dpid => s.registerSwitch dpid
  | .poll a r => s.poll messages a r
  | .ret a => s.ret a
  | .close a => s.operate (.close a)
  | .closeOpenflowConnection dpid => s.operate (.closeOpenflowConnection dpid)
  | .dispatch => s.dispatch
  | .deliver e => s.deliver e
  | .stop e => s.stop e

end Steps

section Effects

/-! ## What an operation does to the map and posts -/

variable {s s' : Connections} {a : Nat} {c : Conn} {d : UInt64}

theorem find_of_map_eq (h : s'.connectionMap = s.connectionMap) (d : UInt64) :
    s'.find d = s.find d := by
  rw [Connections.find, Connections.find, h]

theorem find_shut (s : Connections) (a : Nat) (c : Conn) (d : UInt64) :
    (s.shut a c).find d = if d = c.datapathId then none else s.find d := by
  split
  · next heq =>
    subst heq
    refine find_eq_none_of fun b hmem => ?_
    simp [Connections.shut] at hmem
  · next hne =>
    unfold Connections.find Connections.shut
    rw [List.find?_filter]
    congr 2
    funext p
    by_cases hp : p.1 = d
    · subst hp
      simp [hne]
    · simp [hp]

theorem find_close (hopen : c.closing = false) (d : UInt64) :
    (s.close a c).find d = if d = c.datapathId then none else s.find d := by
  unfold Connections.close
  rw [if_neg (by simp [hopen])]
  split
  · exact find_shut s a c d
  · exact find_shut s a c d

theorem left_close (hopen : c.closing = false) :
    (s.close a c).left = s.left ++ [c.datapathId] := by
  unfold Connections.close
  rw [if_neg (by simp [hopen])]
  split <;> rfl

theorem endPoll_keeps (s : Connections) (a : Nat) (c : Conn) :
    (s.endPoll a c).connectionMap = s.connectionMap ∧ (s.endPoll a c).left = s.left := by
  unfold Connections.endPoll
  split <;> exact ⟨rfl, rfl⟩

/-- No leave event is posted, or one, of a connection in the map, whose entry ends. -/
inductive Effect (s s' : Connections) : Prop
  | none : s'.left = s.left → (∀ d, s'.find d = s.find d) → Effect s s'
  | leave {d : UInt64} : (s.find d).isSome → s'.left = s.left ++ [d] →
    (∀ e, s'.find e = if e = d then Option.none else s.find e) → Effect s s'

theorem Effect.trans_endPoll (h : Effect s s') (a : Nat) (c : Conn) :
    Effect s (s'.endPoll a c) := by
  obtain ⟨hmap, hleft⟩ := endPoll_keeps s' a c
  cases h with
  | none hl hf => exact .none (hleft.trans hl) fun d => (find_of_map_eq hmap d).trans (hf d)
  | leave hd hl hf =>
    exact .leave hd (hleft.trans hl) fun e => (find_of_map_eq hmap e).trans (hf e)

theorem mapped_find {fresh dying : Option Nat} (h : Tidy s fresh dying)
    (hmem : (d, a) ∈ s.connectionMap) : s.find d = some a := by
  cases hb : s.find d with
  | none => exact absurd hmem (find_eq_none hb a)
  | some b => rw [h.eq_of_mem (find_eq_some hb) hmem]

theorem effect_close (h : Tidy s none none) (hc : s.conns a = some c) :
    Effect s (s.close a c) := by
  cases hclosing : c.closing with
  | true =>
    have heq : s.close a c = s := if_pos hclosing
    rw [heq]
    exact .none rfl fun _ => rfl
  | false =>
    have hmem : (c.datapathId, a) ∈ s.connectionMap :=
      (h.map _ _).mpr ⟨fun heq => (nomatch heq), c, hc, rfl, hclosing⟩
    exact .leave (Option.isSome_of_eq_some (mapped_find h hmem)) (left_close hclosing)
      (find_close hclosing)

theorem effect_beginPoll_close (h : Tidy s none none) (hc : s.conns a = some c)
    {s₁ : Connections} (hs : (s.beginPoll a c).withConn a (s.beginPoll a c).close = some s₁) :
    Effect s s₁ := by
  have hself : (s.beginPoll a c).conns a = some { c with pollCnt := c.pollCnt + 1 } :=
    Function.update_self ..
  rw [Connections.withConn, hself] at hs
  cases hs
  cases effect_close (h.beginPoll hc) hself with
  | none hl hf => exact .none hl hf
  | leave hd hl hf => exact .leave hd hl hf

/-- What the operations but `register_conn` do. -/
theorem effect_step (h : Tidy s none none) {op : Op} (hop : ∀ d, op ≠ .registerConn d)
    (hs : s.step op = some s') : Effect s s' := by
  have hclose : ∀ a, s.withConn a s.close = some s' → Effect s s' := by
    intro a hs
    obtain ⟨c, hc, rfl⟩ := Option.map_eq_some_iff.mp hs
    exact effect_close h hc
  cases op with
  | registerConn d => exact absurd rfl (hop d)
  | poll a r =>
    cases hc : s.conns a with
    | none => simp [Connections.step, Connections.poll, Connections.withConn, hc] at hs
    | some c =>
      have hbegin : s.withConn a s.beginPoll = some (s.beginPoll a c) := by
        rw [Connections.withConn, hc]
        rfl
      have hnone : Effect s (s.beginPoll a c) := .none rfl fun _ => rfl
      have hend : ∀ {s₁ : Connections}, Effect s s₁ → s₁.withConn a s₁.endPoll = some s' →
          Effect s s' := by
        intro s₁ heff hs₁
        obtain ⟨c', -, rfl⟩ := Option.map_eq_some_iff.mp hs₁
        exact heff.trans_endPoll a c'
      simp only [Connections.step, Connections.poll, hbegin] at hs
      cases r with
      | message =>
        cases hs
        exact hnone
      | malformed => exact hend hnone hs
      | again => exact hend hnone hs
      | closed =>
        obtain ⟨s₁, hs₁, hs⟩ := Option.bind_eq_some_iff.mp hs
        exact hend (effect_beginPoll_close h hc hs₁) hs
      | failed =>
        obtain ⟨s₁, hs₁, hs⟩ := Option.bind_eq_some_iff.mp hs
        exact hend (effect_beginPoll_close h hc hs₁) hs
  | ret a =>
    simp only [Connections.step] at hs
    split at hs
    · obtain ⟨c, -, rfl⟩ := Option.map_eq_some_iff.mp hs
      exact Effect.trans_endPoll (.none rfl fun _ => rfl) a c
    · cases hs
  | close a => exact hclose a hs
  | closeOpenflowConnection d =>
    simp only [Connections.step] at hs
    split at hs
    · cases hs
      exact .none rfl fun _ => rfl
    · next a _ => exact hclose a hs

/-- `register_conn` posts the leave event of the connection it replaces, if there is one. -/
theorem effect_registerConn (h : Tidy s none none) {d : UInt64}
    (hs : s.registerConn d = some s') :
    s'.left = s.left ++ (if (s.find d).isSome then [d] else []) ∧
      ∀ e, s'.find e = if e = d then some s.names.length else s.find e := by
  have halloc := h.alloc d
  unfold Connections.registerConn at hs
  dsimp only at hs
  have hfind : (s.alloc d).find d = s.find d := rfl
  have hcons : ∀ (s₁ : Connections) e, Connections.find { s₁ with
      connectionMap := (d, s.names.length) :: s₁.connectionMap } e =
      if e = d then some s.names.length else s₁.find e := by
    intro s₁ e
    unfold Connections.find
    rw [List.find?_cons]
    by_cases he : d = e
    · simp [he]
    · simp [he, Ne.symm he]
  cases hold : s.find d with
  | none =>
    rw [Connections.insert, hfind, hold] at hs
    cases hs
    refine ⟨(List.append_nil _).symm, fun e => hcons (s.alloc d) e⟩
  | some b =>
    obtain ⟨hne, c, hc, rfl, hopen⟩ := (halloc.map d b).mp (find_eq_some (hfind.trans hold))
    have hinsert : (s.alloc c.datapathId).insert c.datapathId s.names.length =
        (s.alloc c.datapathId, false) := by
      rw [Connections.insert, hfind, hold]
    have hfree : ((s.alloc c.datapathId).close b c).find c.datapathId = none := by
      rw [find_close hopen, if_pos rfl]
    rw [hinsert] at hs
    simp only [hfind, hold, hc, Connections.insert, hfree] at hs
    cases hs
    refine ⟨left_close hopen, fun e => (hcons _ e).trans ?_⟩
    by_cases he : e = c.datapathId
    · rw [if_pos he, if_pos he]
    · rw [if_neg he, if_neg he, find_close hopen, if_neg he]
      rfl

end Effects

end Nox.Switch
