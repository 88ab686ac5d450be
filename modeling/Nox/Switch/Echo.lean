import Nox.Lib.Runs
import Nox.Openflow.Send
import Nox.Switch.Controller

/-!
# Echo requests

`Handshake_fsm::recv_message` answers an echo request on the connection it came from.  That of
a registered switch is an event: `handle_echo_request` is called when the handlers before it
have returned, looks the datapath id up again and answers on the connection it finds.  Nobody
reads the result of `send_echo_reply`.

So a request is answered on another connection when its switch has registered again meanwhile,
and it is not answered when a message is half written (`not_answered`).  When neither happens
every request is answered once, where it came from (`answered_of_reached`).
-/

namespace Nox.Switch

open Lib (Reaches runs)
open Openflow (Sender WriteEvent Echo headerLength OFPT_ECHO_REQUEST OFPT_ECHO_REPLY)

section State

/-! ## The state -/

/-- An echo request that was taken from a connection. -/
structure EchoRequest where
  oconn : Nat
  echo : Echo
  deriving DecidableEq

/-- An `Echo_request_event`, dispatched by the poll of a `Conn`. -/
structure EchoEvent where
  conn : Nat
  dpid : UInt64
  request : EchoRequest
  deriving DecidableEq

/-- The `Conn`s of registered switches, and all connections by their own numbers; `oconns` has
the connection of each `Conn`.  `taken` has the echo requests that were taken, `running` the
events that have not come to `handle_echo_request`, and `finished` the requests that are done
with. -/
structure Network where
  conns : Connections
  oconns : List Nat
  senders : Nat → Sender
  taken : List EchoRequest
  running : List EchoEvent
  finished : List EchoRequest

def Network.init : Network := ⟨.init, [], fun _ => .init, [], [], []⟩

/-- `dpid_to_oconn` -/
def Network.dpidToOconn (s : Network) (dpid : UInt64) : Option Nat :=
  (s.conns.find dpid).bind fun a => s.oconns[a]?

end State

section Steps

/-! ## The steps -/

inductive NetworkStep
  -- the handshake of a connection takes a message
  | handshake (k : Nat) (msg : Bytes) (sched : List WriteEvent)
  -- `register_switch` has got to the end
  | registerSwitch (k : Nat) (dpid : UInt64)
  | poll (a : Nat) (r : Received) (msg : Bytes)
  -- the handlers of a message have returned
  | ret (a : Nat)
  | close (a : Nat)
  | closeOpenflowConnection (dpid : UInt64)
  -- `handle_echo_request` is called
  | handle (e : EchoEvent) (sched : List WriteEvent)
  -- a handler before it stops the event
  | stop (e : EchoEvent)
  -- somebody sends another message
  | send (k : Nat) (msg : Bytes) (sched : List WriteEvent)
  | txRun (k : Nat) (sched : List WriteEvent)
  | probe (k : Nat) (sched : List WriteEvent)
  | expire (k : Nat)
  -- a read fails
  | closeStream (k : Nat)

def Network.update (s : Network) (k : Nat) (f : Sender → Sender) : Network :=
  { s with senders := Function.update s.senders k (f (s.senders k)) }

def Network.sendOpenflow (s : Network) (k : Nat) (msg : Bytes) (sched : List WriteEvent) :
    Network :=
  s.update k fun c => ((c.meet sched).sendOpenflow msg).2

/-- `send_echo_reply` -/
def Network.sendEchoReply (s : Network) (k : Nat) (echo : Echo) (sched : List WriteEvent) :
    Network :=
  s.sendOpenflow k (echo.pack OFPT_ECHO_REPLY) sched

/-- `Handshake_fsm::recv_message` -/
def Network.handshake (s : Network) (k : Nat) (msg : Bytes) (sched : List WriteEvent) :
    Option Network :=
  if k ∈ s.oconns then none
  else
    match Echo.unpack OFPT_ECHO_REQUEST msg with
    | some echo =>
      let s' := s.sendEchoReply k echo sched
      some { s' with taken := s.taken ++ [⟨k, echo⟩], finished := s.finished ++ [⟨k, echo⟩] }
    | none => some s

def Network.operate (s : Network) (op : Op) : Option Network :=
  (s.conns.step op).map fun conns => { s with conns := conns }

def Network.registerSwitch (s : Network) (k : Nat) (dpid : UInt64) : Option Network :=
  if k ∈ s.oconns then none
  else (s.operate (.registerConn dpid)).map fun s' => { s' with oconns := s.oconns ++ [k] }

/-- The poll loop polls a `Conn`; an echo request is dispatched at once. -/
def Network.poll (s : Network) (a : Nat) (r : Received) (msg : Bytes) : Option Network :=
  match s.conns.conns a, s.oconns[a]? with
  | some c, some k =>
    if a ∈ s.conns.pollables then
      (s.operate (.poll a r)).map fun s' =>
        match r, Echo.unpack OFPT_ECHO_REQUEST msg with
        | .message, some echo =>
          { s' with
            taken := s'.taken ++ [⟨k, echo⟩]
            running := s'.running ++ [⟨a, c.datapathId, ⟨k, echo⟩⟩] }
        | _, _ => s'
    else none
  | _, _ => none

/-- A poll ends when its dispatch is over. -/
def Network.ret (s : Network) (a : Nat) : Option Network :=
  if s.running.countP (·.conn = a) < s.conns.polls.count a then s.operate (.ret a) else none

def Network.finish (s : Network) (e : EchoEvent) : Network :=
  { s with running := s.running.erase e, finished := s.finished ++ [e.request] }

/-- `handle_echo_request` -/
def Network.handle (s : Network) (e : EchoEvent) (sched : List WriteEvent) : Option Network :=
  if e ∈ s.running then
    match s.dpidToOconn e.dpid with
    | some k => some ((s.finish e).sendEchoReply k e.request.echo sched)
    | none => some (s.finish e)
  else none

def Network.stop (s : Network) (e : EchoEvent) : Option Network :=
  if e ∈ s.running then some (s.finish e) else none

/-- Nothing else sends echo replies. -/
def Network.send (s : Network) (k : Nat) (msg : Bytes) (sched : List WriteEvent) :
    Option Network :=
  if Echo.unpack OFPT_ECHO_REPLY (msg.take (headerLength msg)) = none then
    some (s.sendOpenflow k msg sched)
  else none

def Network.step (s : Network) : NetworkStep → Option Network
  | .handshake k msg sched => s.handshake k msg sched
  | .registerSwitch k dpid => s.registerSwitch k dpid
  | .poll a r msg => s.poll a r msg
  | .ret a => s.ret a
  | .close a => s.operate (.close a)
  | .closeOpenflowConnection dpid => s.operate (.closeOpenflowConnection dpid)
  | .handle e sched => s.handle e sched
  | .stop e => s.stop e
  | .send k msg sched => s.send k msg sched
  | .txRun k sched => some (s.update k fun c => (c.meet sched).txRun)
  | .probe k sched => some (s.update k fun c => (c.meet sched).probe)
  | .expire k => some (s.update k Sender.expire)
  | .closeStream k => some (s.update k Sender.close)

end Steps

section Guarantee

/-! ## What is promised -/

/-- The connection has not failed, and its `Conn`, if it has one, has not been closed. -/
def Network.Alive (s : Network) (k : Nat) : Prop :=
  ¬(s.senders k).Failed ∧ ∀ a, s.oconns[a]? = some k →
    ∃ c, s.conns.conns a = some c ∧ c.closing = false

instance (s : Network) (k : Nat) : Decidable (s.Alive k) :=
  decidable_of_iff (¬(s.senders k).Failed ∧ ∀ a < s.oconns.length, s.oconns[a]? = some k →
      ∃ c ∈ s.conns.conns a, c.closing = false)
    (and_congr_right fun _ => ⟨fun h a ha => h a (List.getElem?_eq_some_iff.mp ha).1 ha,
      fun h a _ => h a⟩)

/-- The echo replies for the requests of a connection. -/
def Network.answers (s : Network) (k : Nat) : List Echo :=
  (s.finished.filter (·.oconn = k)).map (·.echo)

/-- Every request is done with once.  The echo replies queued on a connection answer requests
that came from there, each once, and all of them while the connection is alive; what was
queued is written or waits to be written. -/
structure Network.Answered (s : Network) : Prop where
  taken : s.taken.Perm (s.finished ++ s.running.map (·.request))
  here : ∀ k, s.Alive k → (s.senders k).replies = s.answers k
  nowhere : ∀ k, (s.senders k).replies.Sublist (s.answers k)
  bytes : ∀ k, (s.senders k).stream.closed = false →
    (s.senders k).stream.written ++ (s.senders k).txBuf.getD [] = (s.senders k).queued.flatten

/-- When a request is answered, its connection has no message half written that the stream has
no room for, and no other connection has registered its datapath id; the event of a request is
not stopped before. -/
def Network.Orderly (s : Network) : NetworkStep → Prop
  | .handshake k msg sched => (Echo.unpack OFPT_ECHO_REQUEST msg).isSome →
    ¬((s.senders k).meet sched).Clogged
  | .handle e sched => ∀ k ∈ s.dpidToOconn e.dpid,
    k = e.request.oconn ∧ ¬((s.senders k).meet sched).Clogged
  | .stop e => ¬s.Alive e.request.oconn
  | _ => True

instance Network.decidableOrderly (s : Network) (l : NetworkStep) : Decidable (s.Orderly l) :=
  match l with
  | .handshake k msg sched =>
    inferInstanceAs (Decidable ((Echo.unpack OFPT_ECHO_REQUEST msg).isSome →
      ¬((s.senders k).meet sched).Clogged))
  | .handle e sched =>
    inferInstanceAs (Decidable (∀ k ∈ s.dpidToOconn e.dpid,
      k = e.request.oconn ∧ ¬((s.senders k).meet sched).Clogged))
  | .stop e => inferInstanceAs (Decidable (¬s.Alive e.request.oconn))
  | .registerSwitch _ _ => .isTrue trivial
  | .poll _ _ _ => .isTrue trivial
  | .ret _ => .isTrue trivial
  | .close _ => .isTrue trivial
  | .closeOpenflowConnection _ => .isTrue trivial
  | .send _ _ _ => .isTrue trivial
  | .txRun _ _ => .isTrue trivial
  | .probe _ _ => .isTrue trivial
  | .expire _ => .isTrue trivial
  | .closeStream _ => .isTrue trivial

end Guarantee

section Names

/-! ## The names of the connections -/

variable {s s' : Connections} {a : Nat} {c : Conn}

theorem names_close (s : Connections) (a : Nat) (c : Conn) : (s.close a c).names = s.names := by
  unfold Connections.close
  split
  · rfl
  · split <;> rfl

theorem names_endPoll (s : Connections) (a : Nat) (c : Conn) :
    (s.endPoll a c).names = s.names := by
  unfold Connections.endPoll
  split <;> rfl

theorem names_withConn {op : Nat → Conn → Connections} (hop : ∀ a c, (op a c).names = s.names)
    (hs : s.withConn a op = some s') : s'.names = s.names := by
  obtain ⟨c, -, rfl⟩ := Option.map_eq_some_iff.mp hs
  exact hop a c

theorem names_step {op : Op} (hop : ∀ d, op ≠ .registerConn d) (hs : s.step op = some s') :
    s'.names = s.names := by
  cases op with
  | registerConn d => exact absurd rfl (hop d)
  | poll a r =>
    cases hbegin : s.withConn a s.beginPoll with
    | none => simp [Connections.step, Connections.poll, hbegin] at hs
    | some s₁ =>
      have hkeep : ∀ a c, (s.beginPoll a c).names = s.names := fun _ _ => rfl
      have hnames : s₁.names = s.names := names_withConn hkeep hbegin
      simp only [Connections.step, Connections.poll, hbegin] at hs
      have hclose : ((s₁.withConn a s₁.close).bind fun s => s.withConn a s.endPoll) = some s' →
          s'.names = s.names := fun hs => by
        obtain ⟨s₂, hs₂, hs⟩ := Option.bind_eq_some_iff.mp hs
        exact (names_withConn (names_endPoll s₂) hs).trans
          ((names_withConn (names_close s₁) hs₂).trans hnames)
      cases r with
      | message =>
        cases hs
        exact hnames
      | malformed => exact (names_withConn (names_endPoll s₁) hs).trans hnames
      | again => exact (names_withConn (names_endPoll s₁) hs).trans hnames
      | closed => exact hclose hs
      | failed => exact hclose hs
  | ret a =>
    simp only [Connections.step] at hs
    split at hs
    · exact names_withConn (names_endPoll s) hs
    · cases hs
  | close a => exact names_withConn (names_close s) hs
  | closeOpenflowConnection d =>
    simp only [Connections.step] at hs
    split at hs
    · cases hs
      rfl
    · exact names_withConn (names_close s) hs

theorem names_registerConn {d : UInt64} (hs : s.registerConn d = some s') :
    s'.names = s.names ++ [d] := by
  have hinsert : ∀ s₁ : Connections, (s₁.insert d s.names.length).1.names = s₁.names := by
    intro s₁
    unfold Connections.insert
    split <;> rfl
  have halloc : ((s.alloc d).insert d s.names.length).1.names = s.names ++ [d] := hinsert _
  unfold Connections.registerConn at hs
  dsimp only at hs
  split at hs
  · next s₁ heq =>
    cases hs
    rwa [heq] at halloc
  · next s₁ heq =>
    rw [heq] at halloc
    split at hs
    · cases hs
    · split at hs
      · cases hs
      · split at hs
        · cases hs
          exact (hinsert _).trans ((names_close _ _ _).trans halloc)
        · cases hs

/-- A connection that has not been closed is in the map. -/
theorem open_iff_find (h : Tidy s none none) :
    (∃ c, s.conns a = some c ∧ c.closing = false) ↔ ∃ d, s.find d = some a := by
  constructor
  · rintro ⟨c, hc, hopen⟩
    have hmem : (c.datapathId, a) ∈ s.connectionMap :=
      (h.map _ _).mpr ⟨fun heq => (nomatch heq), c, hc, rfl, hopen⟩
    exact ⟨c.datapathId, mapped_find h hmem⟩
  · rintro ⟨d, hd⟩
    obtain ⟨-, c, hc, -, hopen⟩ := (h.map d a).mp (find_eq_some hd)
    exact ⟨c, hc, hopen⟩

/-- A connection is not opened again. -/
theorem open_step (h : Tidy s none none) {op : Op} (hop : ∀ d, op ≠ .registerConn d)
    (hs : s.step op = some s') (hopen : ∃ c, s'.conns a = some c ∧ c.closing = false) :
    ∃ c, s.conns a = some c ∧ c.closing = false := by
  obtain ⟨d, hd⟩ := (open_iff_find (h.step hs)).mp hopen
  refine (open_iff_find h).mpr ⟨d, ?_⟩
  cases effect_step h hop hs with
  | none _ hfind => exact (hfind d).symm.trans hd
  | leave _ _ hfind =>
    rw [hfind] at hd
    split at hd
    · cases hd
    · exact hd

theorem open_registerConn (h : Tidy s none none) {d : UInt64} (hs : s.registerConn d = some s')
    (ha : a < s.names.length) (hopen : ∃ c, s'.conns a = some c ∧ c.closing = false) :
    ∃ c, s.conns a = some c ∧ c.closing = false := by
  have hstep : s.step (.registerConn d) = some s' := hs
  have htidy : Tidy s' none none := h.step hstep
  obtain ⟨e, he⟩ := (open_iff_find htidy).mp hopen
  refine (open_iff_find h).mpr ⟨e, ?_⟩
  rw [(effect_registerConn h hs).2] at he
  split at he
  · cases he
    exact absurd ha (Nat.lt_irrefl _)
  · exact he

end Names

section Invariant

/-! ## The invariant -/

structure Network.Inv (s : Network) : Prop where
  tidy : Tidy s.conns none none
  length : s.oconns.length = s.conns.names.length
  nodup : s.oconns.Nodup
  running : ∀ e ∈ s.running, s.oconns[e.conn]? = some e.request.oconn ∧
    s.conns.names[e.conn]? = some e.dpid
  sound : ∀ k, (s.senders k).Sound
  taken : s.taken.Perm (s.finished ++ s.running.map (·.request))
  here : ∀ k, s.Alive k → (s.senders k).replies = s.answers k
  nowhere : ∀ k, (s.senders k).replies.Sublist (s.answers k)

theorem Network.Inv.answered {s : Network} (h : s.Inv) : s.Answered :=
  ⟨h.taken, h.here, h.nowhere, fun k => (h.sound k).bytes⟩

theorem inv_network_init : Network.init.Inv where
  tidy := tidy_init
  length := rfl
  nodup := List.nodup_nil
  running := fun _ he => absurd he List.not_mem_nil
  sound := fun _ => Openflow.sound_init
  taken := .refl _
  here := fun _ _ => rfl
  nowhere := fun _ => .refl _

variable {s s' : Network}

theorem getElem?_extend {α : Type} {l l' : List α} {a : Nat} {x : α} (h : l <+: l')
    (hx : l[a]? = some x) : l'[a]? = some x := by
  obtain ⟨t, rfl⟩ := h
  obtain ⟨hlt, -⟩ := List.getElem?_eq_some_iff.mp hx
  rwa [List.getElem?_append_left hlt]

/-- Connections are closed, and new ones registered. -/
theorem Network.Inv.setConns (h : s.Inv) {conns : Connections} {oconns : List Nat}
    (htidy : Tidy conns none none) (hlength : oconns.length = conns.names.length)
    (hnodup : oconns.Nodup) (hoconns : s.oconns <+: oconns) (hnames : s.conns.names <+: conns.names)
    (hopen : ∀ a < s.conns.names.length, (∃ c, conns.conns a = some c ∧ c.closing = false) →
      ∃ c, s.conns.conns a = some c ∧ c.closing = false) :
    Network.Inv { s with conns := conns, oconns := oconns } := by
  refine ⟨htidy, hlength, hnodup, fun e he => ?_, h.sound, h.taken, fun k halive => ?_, h.nowhere⟩
  · obtain ⟨hoconn, hname⟩ := h.running e he
    exact ⟨getElem?_extend hoconns hoconn, getElem?_extend hnames hname⟩
  · refine h.here k ⟨halive.1, fun a ha => hopen a ?_ (halive.2 a (getElem?_extend hoconns ha))⟩
    rw [← h.length]
    exact (List.getElem?_eq_some_iff.mp ha).1

theorem Network.Inv.operate (h : s.Inv) {op : Op} (hop : ∀ d, op ≠ .registerConn d)
    (hs : s.operate op = some s') : s'.Inv := by
  obtain ⟨conns, hstep, rfl⟩ := Option.map_eq_some_iff.mp hs
  have hnames := names_step hop hstep
  exact h.setConns (h.tidy.step hstep) (hnames ▸ h.length) h.nodup (List.prefix_refl _)
    (hnames ▸ List.prefix_refl _) fun a _ => open_step h.tidy hop hstep

theorem Network.Inv.registerSwitch (h : s.Inv) {k : Nat} {d : UInt64}
    (hs : s.registerSwitch k d = some s') : s'.Inv := by
  unfold Network.registerSwitch at hs
  split at hs
  · cases hs
  · next hnew =>
    obtain ⟨s₁, hs₁, rfl⟩ := Option.map_eq_some_iff.mp hs
    obtain ⟨conns, hstep, rfl⟩ := Option.map_eq_some_iff.mp hs₁
    have hnames := names_registerConn hstep
    refine h.setConns (h.tidy.step hstep) ?_ (List.concat_eq_append ▸ h.nodup.concat hnew)
      (List.prefix_append _ _) (hnames ▸ List.prefix_append _ _)
      fun a ha => open_registerConn h.tidy hstep ha
    rw [hnames, List.length_append, List.length_append, h.length]
    rfl

/-- A connection goes on without another echo reply. -/
theorem Network.Inv.update (h : s.Inv) {k : Nat} {f : Sender → Sender}
    (hquiet : (s.senders k).Quiet (f (s.senders k))) : (s.update k f).Inv := by
  have hother : ∀ j, j ≠ k → (s.update k f).senders j = s.senders j := fun j hj =>
    Function.update_of_ne hj ..
  have hself : (s.update k f).senders k = f (s.senders k) := Function.update_self ..
  refine ⟨h.tidy, h.length, h.nodup, h.running, fun j => ?_, h.taken, fun j halive => ?_,
    fun j => ?_⟩
  · by_cases hj : j = k
    · subst hj
      exact hself ▸ hquiet.sound
    · exact hother j hj ▸ h.sound j
  · by_cases hj : j = k
    · subst hj
      rw [hself, hquiet.replies]
      refine h.here j ⟨fun hfailed => halive.1 ?_, halive.2⟩
      exact hself ▸ hquiet.failed hfailed
    · rw [hother j hj]
      exact h.here j ⟨hother j hj ▸ halive.1, halive.2⟩
  · by_cases hj : j = k
    · subst hj
      rw [hself, hquiet.replies]
      exact h.nowhere j
    · rw [hother j hj]
      exact h.nowhere j

theorem answers_append {r : EchoRequest} (hfinished : s'.finished = s.finished ++ [r]) (j : Nat) :
    s'.answers j = s.answers j ++ if r.oconn = j then [r.echo] else [] := by
  rw [Network.answers, hfinished, List.filter_append, List.map_append]
  refine congrArg (s.answers j ++ ·) ?_
  split <;> simp [*]

/-- A request is done with, and no reply is queued. -/
theorem Network.Inv.finish (h : s.Inv) {r : EchoRequest} (hdead : ¬s.Alive r.oconn)
    {running : List EchoEvent} (hrunning : ∀ e ∈ running, e ∈ s.running)
    {taken : List EchoRequest}
    (htaken : taken.Perm (s.finished ++ [r] ++ running.map (·.request))) :
    Network.Inv { s with taken := taken, running := running, finished := s.finished ++ [r] } := by
  refine ⟨h.tidy, h.length, h.nodup, fun e he => h.running e (hrunning e he), h.sound, htaken,
    fun j halive => ?_, fun j => ?_⟩
  · have hne : r.oconn ≠ j := fun heq => hdead (heq ▸ ⟨halive.1, halive.2⟩)
    rw [answers_append (s := s) rfl, if_neg hne, List.append_nil]
    exact h.here j ⟨halive.1, halive.2⟩
  · rw [answers_append (s := s) rfl]
    exact (h.nowhere j).trans (List.sublist_append_left _ _)

/-- A request is done with, and its connection gets the reply. -/
theorem Network.Inv.answer (h : s.Inv) {r : EchoRequest} {sched : List WriteEvent}
    (hclear : ¬((s.senders r.oconn).meet sched).Clogged)
    {running : List EchoEvent} (hrunning : ∀ e ∈ running, e ∈ s.running)
    {taken : List EchoRequest}
    (htaken : taken.Perm (s.finished ++ [r] ++ running.map (·.request))) :
    Network.Inv { s.sendEchoReply r.oconn r.echo sched with
      taken := taken, running := running, finished := s.finished ++ [r] } := by
  have hother : ∀ j, j ≠ r.oconn → (s.sendEchoReply r.oconn r.echo sched).senders j = s.senders j :=
    fun j hj => Function.update_of_ne hj ..
  have hself : (s.sendEchoReply r.oconn r.echo sched).senders r.oconn =
      (((s.senders r.oconn).meet sched).sendOpenflow (r.echo.pack OFPT_ECHO_REPLY)).2 :=
    Function.update_self ..
  have hmeet := (h.sound r.oconn).meet sched
  obtain ⟨hsent, hsound⟩ := hmeet.sendOpenflow (r.echo.pack OFPT_ECHO_REPLY)
  have hreply := hmeet.sendEchoReply r.echo
  have hmono := hsent.failed_mono
  rw [← hself] at hmono hsound hreply
  refine ⟨h.tidy, h.length, h.nodup, fun e he => h.running e (hrunning e he), fun j => ?_, htaken,
    fun j halive => ?_, fun j => ?_⟩
  · by_cases hj : j = r.oconn
    · exact hj ▸ hsound
    · exact (hother j hj).symm ▸ h.sound j
  · rw [answers_append (s := s) rfl]
    by_cases hj : j = r.oconn
    · subst hj
      rw [if_pos rfl]
      have hbefore := h.here r.oconn ⟨fun hfailed => halive.1 (hmono hfailed), halive.2⟩
      rcases hreply with hqueued | ⟨hlost, -⟩
      · exact hqueued.trans (congrArg (· ++ [r.echo]) hbefore)
      · exact absurd hlost (not_or.mpr ⟨hclear, halive.1⟩)
    · rw [if_neg (Ne.symm hj), List.append_nil]
      have hsame := hother j hj
      exact (congrArg Sender.replies hsame).trans (h.here j ⟨hsame ▸ halive.1, halive.2⟩)
  · rw [answers_append (s := s) rfl]
    by_cases hj : j = r.oconn
    · subst hj
      rw [if_pos rfl]
      rcases hreply with hqueued | ⟨-, hnone⟩
      · exact hqueued ▸ (h.nowhere r.oconn).append_right _
      · exact hnone ▸ (h.nowhere r.oconn).trans (List.sublist_append_left _ _)
    · refine ((congrArg Sender.replies (hother j hj)) ▸ h.nowhere j : List.Sublist _ _).trans ?_
      exact List.sublist_append_left _ _

theorem Network.Inv.handshake (h : s.Inv) {k : Nat} {msg : Bytes} {sched : List WriteEvent}
    (horderly : s.Orderly (.handshake k msg sched)) (hs : s.handshake k msg sched = some s') :
    s'.Inv := by
  unfold Network.handshake at hs
  split at hs
  · cases hs
  · split at hs
    · next echo hecho =>
      cases hs
      refine h.answer (r := ⟨k, echo⟩) (horderly (Option.isSome_of_eq_some hecho))
        (fun _ he => he) ?_
      rw [List.append_assoc]
      exact ((h.taken.append_right _).trans (List.append_assoc .. ▸ .refl _)).trans
        (List.perm_append_comm.append_left _)
    · cases hs
      exact h

/-- The event of a request leaves `running`. -/
theorem Network.Inv.taken_erase (h : s.Inv) {e : EchoEvent} (he : e ∈ s.running) :
    s.taken.Perm (s.finished ++ [e.request] ++ (s.running.erase e).map (·.request)) := by
  refine h.taken.trans ?_
  rw [List.append_assoc]
  exact ((List.perm_cons_erase he).map _).append_left _

theorem Network.Inv.handle (h : s.Inv) {e : EchoEvent} {sched : List WriteEvent}
    (horderly : s.Orderly (.handle e sched)) (hs : s.handle e sched = some s') : s'.Inv := by
  unfold Network.handle at hs
  split at hs
  · next he =>
    split at hs
    · next k hk =>
      cases hs
      obtain ⟨rfl, hclear⟩ := horderly k hk
      exact h.answer hclear (fun _ he => List.mem_of_mem_erase he) (h.taken_erase he)
    · next hnone =>
      cases hs
      refine h.finish (fun halive => ?_) (fun _ he => List.mem_of_mem_erase he) (h.taken_erase he)
      obtain ⟨hoconn, hname⟩ := h.running e he
      obtain ⟨d, hd⟩ := (open_iff_find h.tidy).mp (halive.2 _ hoconn)
      obtain ⟨-, c, hc, rfl, -⟩ := (h.tidy.map d e.conn).mp (find_eq_some hd)
      have hdpid : c.datapathId = e.dpid :=
        Option.some.inj ((h.tidy.named _ _ hc).symm.trans hname)
      rw [Network.dpidToOconn, ← hdpid, hd, Option.bind_some, hoconn] at hnone
      cases hnone
  · cases hs

theorem Network.Inv.stop (h : s.Inv) {e : EchoEvent} (horderly : s.Orderly (.stop e))
    (hs : s.stop e = some s') : s'.Inv := by
  unfold Network.stop at hs
  split at hs
  · next he =>
    cases hs
    exact h.finish horderly (fun _ he => List.mem_of_mem_erase he) (h.taken_erase he)
  · cases hs

/-- A request is taken, and its event dispatched. -/
theorem Network.Inv.take (h : s.Inv) {e : EchoEvent}
    (hoconn : s.oconns[e.conn]? = some e.request.oconn)
    (hname : s.conns.names[e.conn]? = some e.dpid) :
    Network.Inv { s with taken := s.taken ++ [e.request], running := s.running ++ [e] } := by
  refine ⟨h.tidy, h.length, h.nodup, fun e' he => ?_, h.sound, ?_, h.here, h.nowhere⟩
  · rcases List.mem_append.mp he with he | he
    · exact h.running e' he
    · rw [List.mem_singleton.mp he]
      exact ⟨hoconn, hname⟩
  · dsimp only
    rw [List.map_append, ← List.append_assoc]
    exact h.taken.append_right _

theorem Network.Inv.poll (h : s.Inv) {a : Nat} {r : Received} {msg : Bytes}
    (hs : s.poll a r msg = some s') : s'.Inv := by
  unfold Network.poll at hs
  split at hs
  · next c k hc hk =>
    split at hs
    · obtain ⟨s₁, hs₁, rfl⟩ := Option.map_eq_some_iff.mp hs
      have hinv := h.operate (fun d => by simp) hs₁
      split
      · next echo _ =>
        obtain ⟨conns, hstep, rfl⟩ := Option.map_eq_some_iff.mp hs₁
        refine hinv.take (e := ⟨a, c.datapathId, ⟨k, echo⟩⟩) hk ?_
        exact (names_step (fun d => by simp) hstep).symm ▸ h.tidy.named a c hc
      · exact hinv
    · cases hs
  · cases hs

theorem Network.Inv.step (h : s.Inv) {l : NetworkStep} (horderly : s.Orderly l)
    (hs : s.step l = some s') : s'.Inv := by
  cases l with
  | handshake k msg sched => exact h.handshake horderly hs
  | registerSwitch k d => exact h.registerSwitch hs
  | poll a r msg => exact h.poll hs
  | ret a =>
    simp only [Network.step, Network.ret] at hs
    split at hs
    · exact h.operate (fun d => by simp) hs
    · cases hs
  | close a => exact h.operate (fun d => by simp) hs
  | closeOpenflowConnection d => exact h.operate (fun d => by simp) hs
  | handle e sched => exact h.handle horderly hs
  | stop e => exact h.stop horderly hs
  | send k msg sched =>
    simp only [Network.step, Network.send] at hs
    split at hs
    · next hother =>
      cases hs
      exact h.update (((h.sound k).meet sched).quiet_sendOpenflow hother).of_meet
    · cases hs
  | txRun k sched =>
    cases hs
    exact h.update ((h.sound k).meet sched).quiet_txRun.of_meet
  | probe k sched =>
    cases hs
    exact h.update ((h.sound k).meet sched).quiet_probe.of_meet
  | expire k =>
    cases hs
    exact h.update (h.sound k).quiet_expire
  | closeStream k =>
    cases hs
    exact h.update (h.sound k).quiet_close

/-- In an orderly run every echo request is answered. -/
theorem answered_of_reached (h : Reaches Network.step Network.Orderly Network.init s) :
    s.Answered :=
  (h.invariant inv_network_init fun _ _ _ hinv horderly hs =>
    hinv.step horderly hs : s.Inv).answered

end Invariant

section Runs

/-! ## Runs -/

def ping : Echo := ⟨9, [1, 2], by decide⟩

/-- A switch asks while it registers and again when it has. -/
theorem answered_twice :
    ∃ s, runs Network.step Network.Orderly Network.init
        [.handshake 7 (ping.pack OFPT_ECHO_REQUEST) [.room 3], .registerSwitch 7 5,
          .txRun 7 [.room 6], .poll 0 .message (ping.pack OFPT_ECHO_REQUEST),
          .handle ⟨0, 5, ⟨7, ping⟩⟩ [], .ret 0] = some s ∧
      (s.senders 7).replies = [ping, ping] ∧ s.Answered := by
  have hrun : (runs Network.step Network.Orderly Network.init
      [.handshake 7 (ping.pack OFPT_ECHO_REQUEST) [.room 3], .registerSwitch 7 5,
        .txRun 7 [.room 6], .poll 0 .message (ping.pack OFPT_ECHO_REQUEST),
        .handle ⟨0, 5, ⟨7, ping⟩⟩ [], .ret 0]).map (fun s => (s.senders 7).replies) =
      some [ping, ping] := by
    decide +kernel
  obtain ⟨s, hs, hreplies⟩ := Option.map_eq_some_iff.mp hrun
  exact ⟨s, hs, hreplies, answered_of_reached (Reaches.init.runs hs)⟩

/-- A reply is lost while a message is half written, and one goes to the connection that has
registered the datapath id meanwhile. -/
theorem not_answered :
    (∃ s, runs Network.step (fun _ _ => True) Network.init
        [.registerSwitch 7 5, .send 7 [4, 7, 0, 8, 0, 0, 0, 1] [.room 2],
          .poll 0 .message (ping.pack OFPT_ECHO_REQUEST), .handle ⟨0, 5, ⟨7, ping⟩⟩ []] =
          some s ∧ ¬s.Answered) ∧
    ∃ s, runs Network.step (fun _ _ => True) Network.init
        [.registerSwitch 7 5, .poll 0 .message (ping.pack OFPT_ECHO_REQUEST),
          .registerSwitch 8 5, .handle ⟨0, 5, ⟨7, ping⟩⟩ []] = some s ∧ ¬s.Answered := by
  have hlost : (runs Network.step (fun _ _ => True) Network.init
      [.registerSwitch 7 5, .send 7 [4, 7, 0, 8, 0, 0, 0, 1] [.room 2],
        .poll 0 .message (ping.pack OFPT_ECHO_REQUEST), .handle ⟨0, 5, ⟨7, ping⟩⟩ []]).map
      (fun s => (decide (s.Alive 7), (s.senders 7).replies, s.answers 7)) =
      some (true, [], [ping]) := by
    decide +kernel
  have helsewhere : (runs Network.step (fun _ _ => True) Network.init
      [.registerSwitch 7 5, .poll 0 .message (ping.pack OFPT_ECHO_REQUEST),
        .registerSwitch 8 5, .handle ⟨0, 5, ⟨7, ping⟩⟩ []]).map
      (fun s => ((s.senders 8).replies, s.answers 8)) = some ([ping], []) := by
    decide +kernel
  obtain ⟨s, hs, heq⟩ := Option.map_eq_some_iff.mp hlost
  obtain ⟨s', hs', heq'⟩ := Option.map_eq_some_iff.mp helsewhere
  simp only [Prod.mk.injEq, decide_eq_true_eq] at heq heq'
  obtain ⟨halive, hreplies, hanswers⟩ := heq
  refine ⟨⟨s, hs, fun h => ?_⟩, s', hs', fun h => ?_⟩
  · have hhere := h.here 7 halive
    rw [hreplies, hanswers] at hhere
    cases hhere
  · have hnowhere := h.nowhere 8
    rw [heq'.1, heq'.2] at hnowhere
    cases hnowhere

end Runs

end Nox.Switch
