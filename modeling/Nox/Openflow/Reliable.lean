import Nox.Lib.Runs
import Nox.Openflow.Hello

/-!
# The connection that reconnects

A `Reliable_openflow_connection` is a connection whose virtual functions work on another
connection, `c`, which a task of its own sets up, and sets up again after a failure.  The
inner connection exchanges hello messages, and then the outer one, being a connection,
waits for a HELLO as well.
-/

namespace Nox.Openflow

section Inner

/-! ## The inner connection -/

/-- How the calls that are made in one step will go: the results of the factory, of
connects, of sends and of receives.  Where nothing is left a call finds the transport not
ready; a receive may be one that delivers the next message. -/
structure Answers where
  factory : Except Failure (List Message)
  connects : List Int
  sends : List Int
  recvs : List (Option Failure)

/-- A connection of the factory, with the messages its peer sends that have not been
received; `completed` tells whether a `connect` has returned success. -/
structure Inner where
  conn : OfConnection
  inbox : List Message
  completed : Bool

def again : Failure := ⟨EAGAIN, EAGAIN_ne_zero⟩

/-- The transport of an inner connection. -/
def transport : Virtuals (Answers × List Message) where
  doConnect s := (s.1.connects.headD EAGAIN, { s.1 with connects := s.1.connects.tail }, s.2)
  doSendOpenflow s := (s.1.sends.headD EAGAIN, { s.1 with sends := s.1.sends.tail }, s.2)
  doRecvOpenflow s :=
    let a := { s.1 with recvs := s.1.recvs.tail }
    match s.1.recvs.headD (some again), s.2 with
    | some e, inbox => (.error e, a, inbox)
    | none, [] => (.error again, a, [])
    | none, m :: inbox => (.ok m, a, inbox)

namespace Inner

def init (inbox : List Message) : Inner := ⟨.init, inbox, false⟩

def connect (i : Inner) (a : Answers) : Int × Inner × Answers :=
  let (error, conn, a, inbox) := i.conn.connect transport (a, i.inbox)
  (error, { conn, inbox, completed := i.completed || error == 0 }, a)

def sendOpenflow (i : Inner) (a : Answers) : Int × Inner × Answers :=
  let (error, conn, a, inbox) := i.conn.sendOpenflow transport (a, i.inbox)
  (error, { i with conn, inbox }, a)

def recvOpenflow (i : Inner) (a : Answers) : Except Int Message × Inner × Answers :=
  let (m, conn, a, inbox) := i.conn.recvOpenflow transport (a, i.inbox)
  (m, { i with conn, inbox }, a)

/-- `run` of the inner connection, after its timeout. -/
def run (i : Inner) (a : Answers) : Inner :=
  let (_, conn, _, inbox) := i.conn.run transport (a, i.inbox)
  { i with conn, inbox }

end Inner

end Inner

section Reliable

/-! ## The wrapper -/

inductive ConnStatus
  | sleeping
  | waking
  | connecting
  | connected
  deriving DecidableEq, Repr

/-- The data of a `Reliable_openflow_connection` itself; `fault` is set when a null `c` was
dereferenced. -/
structure Wrapper where
  c : Option Inner
  backoff : Nat
  status : ConnStatus
  fault : Bool

def backoffLimit : Nat := 60

namespace Wrapper

def init : Wrapper := ⟨none, 0, .sleeping, false⟩

def reconnect (w : Wrapper) : Wrapper :=
  { w with c := none, backoff := min backoffLimit (max 1 (w.backoff * 2)), status := .sleeping }

/-- `run` in `CONN_CONNECTING`. -/
def runConnecting (w : Wrapper) (a : Answers) : Wrapper :=
  match w.c with
  | none => { w with fault := true }
  | some i =>
    let (error, i, _) := i.connect a
    let w := { w with c := some i }
    if error = 0 then { w with status := .connected }
    else if error ≠ EAGAIN then w.reconnect
    else w

/-- `run` in `CONN_WAKING`: the factories return a connection or an error. -/
def runWaking (w : Wrapper) (a : Answers) : Wrapper :=
  match a.factory with
  | .error _ => w.reconnect
  | .ok inbox => { w with c := some (.init inbox), status := .connecting }.runConnecting a

/-- `run`; it waits for a timer when there is a backoff. -/
def run (w : Wrapper) (a : Answers) : Wrapper :=
  match w.status with
  | .sleeping =>
    let w := { w with status := .waking }
    if w.backoff ≠ 0 then w else w.runWaking a
  | .waking => w.runWaking a
  | .connecting => w.runConnecting a
  | .connected => w

/-- `do_send_openflow` -/
def doSendOpenflow (w : Wrapper) (a : Answers) : Int × Wrapper × Answers :=
  if w.status = .connected then
    match w.c with
    | none => (0, { w with fault := true }, a)
    | some i =>
      let (error, i, a) := i.sendOpenflow a
      let w := { w with c := some i }
      if error = 0 ∨ error = EAGAIN then (error, w, a) else (0, w.reconnect.run a, a)
  else (0, w, a)

/-- `do_recv_openflow` -/
def doRecvOpenflow (w : Wrapper) (a : Answers) : Except Failure Message × Wrapper × Answers :=
  if w.status = .connected then
    match w.c with
    | none => (.error again, { w with fault := true }, a)
    | some i =>
      let (m, i, a) := i.recvOpenflow a
      let w := { w with c := some i }
      match m with
      | .ok m => (.ok m, { w with backoff := 0 }, a)
      | .error error => (.error again, if error = EAGAIN then w else w.reconnect.run a, a)
  else (.error again, w, a)

/-- `close` -/
def close (w : Wrapper) : Wrapper :=
  match w.c with
  | none => { w with fault := true }
  | some _ => w

/-- The virtual functions of the outer connection. -/
def virtuals : Virtuals (Wrapper × Answers) where
  doConnect s := (0, s)
  doSendOpenflow s := s.1.doSendOpenflow s.2
  doRecvOpenflow s := s.1.doRecvOpenflow s.2

end Wrapper

/-- A `Reliable_openflow_connection`, which is an `Openflow_connection`. -/
structure Reliable where
  outer : OfConnection
  inner : Wrapper

/-- What can happen: the task is run, a caller uses the connection, or the timeout of the
outer or of the inner connection passes. -/
inductive ReliableAct
  | task (a : Answers)
  | connect (a : Answers)
  | send (a : Answers)
  | recv (a : Answers)
  | close
  | outerTimeout (a : Answers)
  | innerTimeout (a : Answers)

namespace Reliable

def init : Reliable := ⟨.init, .init⟩

def connect (r : Reliable) (a : Answers) : Int × Reliable :=
  let (error, outer, inner, _) := r.outer.connect Wrapper.virtuals (r.inner, a)
  (error, ⟨outer, inner⟩)

def sendOpenflow (r : Reliable) (a : Answers) : Int × Reliable :=
  let (error, outer, inner, _) := r.outer.sendOpenflow Wrapper.virtuals (r.inner, a)
  (error, ⟨outer, inner⟩)

def recvOpenflow (r : Reliable) (a : Answers) : Except Int Message × Reliable :=
  let (m, outer, inner, _) := r.outer.recvOpenflow Wrapper.virtuals (r.inner, a)
  (m, ⟨outer, inner⟩)

/-- `Openflow_connection::run` of the outer connection, after its timeout. -/
def outerTimeout (r : Reliable) (a : Answers) : Reliable :=
  let (closed, outer, inner, _) := r.outer.run Wrapper.virtuals (r.inner, a)
  ⟨outer, if closed then inner.close else inner⟩

/-- What an act leads to; after a fault there is nothing more. -/
def step (r : Reliable) (act : ReliableAct) : Option Reliable :=
  if r.inner.fault then none
  else
    match act with
    | .task a => some { r with inner := r.inner.run a }
    | .connect a => some (r.connect a).2
    | .send a => some (r.sendOpenflow a).2
    | .recv a => some (r.recvOpenflow a).2
    | .close => some { r with inner := r.inner.close }
    | .outerTimeout a => some (r.outerTimeout a)
    | .innerTimeout a => some { r with inner := { r.inner with c := r.inner.c.map (·.run a) } }

end Reliable

end Reliable

section Consistency

/-! ## Status and inner connection -/

/-- In the connected status there is an inner connection that has completed its connect,
and in the connecting status there is one. -/
structure Wrapper.Consistent (w : Wrapper) : Prop where
  connected : w.status = .connected → ∃ i, w.c = some i ∧ i.completed = true
  connecting : w.status = .connecting → w.c ≠ none

/-- Nothing was dereferenced that is null, and status and connection agree. -/
structure Wrapper.Good (w : Wrapper) : Prop extends w.Consistent where
  fault : w.fault = false

namespace Wrapper

theorem good_init : Wrapper.init.Good := ⟨⟨fun h => (nomatch h), fun h => (nomatch h)⟩, rfl⟩

variable {w : Wrapper}

theorem good_reconnect (h : w.fault = false) : w.reconnect.Good :=
  ⟨⟨fun h => (nomatch h), fun h => (nomatch h)⟩, h⟩

theorem good_connecting {i : Inner} (hc : w.c = some i) (hstatus : w.status ≠ .connected)
    (h : w.fault = false) : w.Good :=
  ⟨⟨fun hs => absurd hs hstatus, fun _ hnone => nomatch hc.symm.trans hnone⟩, h⟩

theorem good_waiting (hconnected : w.status ≠ .connected) (hconnecting : w.status ≠ .connecting)
    (h : w.fault = false) : w.Good :=
  ⟨⟨fun hs => absurd hs hconnected, fun hs => absurd hs hconnecting⟩, h⟩

theorem good_runConnecting {i : Inner} (hc : w.c = some i) (hstatus : w.status = .connecting)
    (h : w.fault = false) (a : Answers) : (w.runConnecting a).Good := by
  unfold runConnecting
  rw [hc]
  dsimp only
  split_ifs with hzero
  · refine ⟨⟨fun _ => ⟨_, rfl, ?_⟩, fun hs => (nomatch hs)⟩, h⟩
    simp only [Inner.connect, Bool.or_eq_true, beq_iff_eq]
    exact .inr hzero
  · exact good_reconnect h
  · exact good_connecting rfl (by rw [hstatus]; decide) h

theorem good_runWaking (h : w.fault = false) (a : Answers) : (w.runWaking a).Good := by
  unfold runWaking
  split
  · exact good_reconnect h
  · next inbox _ =>
    exact good_runConnecting
      (w := { w with c := some (.init inbox), status := .connecting }) rfl rfl h a

theorem Good.run (h : w.Good) (a : Answers) : (w.run a).Good := by
  unfold Wrapper.run
  split
  · dsimp only
    split_ifs
    · exact good_waiting (fun h => nomatch h) (fun h => nomatch h) h.fault
    · exact good_runWaking h.fault a
  · exact good_runWaking h.fault a
  · next hstatus =>
    obtain ⟨i, hi⟩ := Option.ne_none_iff_exists'.mp (h.connecting hstatus)
    exact good_runConnecting hi hstatus h.fault a
  · exact h

/-- The inner connection works on and stays what it is. -/
theorem Good.work (h : w.Good) {i i' : Inner} (hc : w.c = some i)
    (hcompleted : i'.completed = i.completed) : { w with c := some i' }.Good := by
  refine ⟨⟨fun hstatus => ⟨i', rfl, ?_⟩, fun _ hnone => nomatch hnone⟩, h.fault⟩
  obtain ⟨i₁, hi₁, hdone⟩ := h.connected hstatus
  cases hi₁.symm.trans hc
  rw [hcompleted, hdone]

theorem Good.doSendOpenflow (h : w.Good) (a : Answers) : (w.doSendOpenflow a).2.1.Good := by
  unfold Wrapper.doSendOpenflow
  split_ifs with hstatus
  · obtain ⟨i, hi, -⟩ := h.connected hstatus
    rw [hi]
    dsimp only
    split_ifs
    · exact h.work hi rfl
    · exact (good_reconnect h.fault).run _
  · exact h

/-- A failure to send is not told. -/
theorem doSendOpenflow_result (w : Wrapper) (a : Answers) :
    (w.doSendOpenflow a).1 = 0 ∨ (w.doSendOpenflow a).1 = EAGAIN := by
  unfold doSendOpenflow
  split_ifs
  · split
    · exact .inl rfl
    · dsimp only
      split_ifs with hor
      · exact hor
      · exact .inl rfl
  · exact .inl rfl

theorem Good.doRecvOpenflow (h : w.Good) (a : Answers) : (w.doRecvOpenflow a).2.1.Good := by
  unfold Wrapper.doRecvOpenflow
  split_ifs with hstatus
  · obtain ⟨i, hi, -⟩ := h.connected hstatus
    rw [hi]
    have hwork : { w with c := some (i.recvOpenflow a).2.1 }.Good := h.work hi rfl
    dsimp only
    split
    · exact ⟨⟨hwork.connected, hwork.connecting⟩, hwork.fault⟩
    · split_ifs
      · exact hwork
      · exact (good_reconnect h.fault).run _
  · exact h

theorem Good.advance {s : Wrapper × Answers} (h : s.1.Good) (c : OfConnection) :
    (c.advance virtuals s).2.1.Good := by
  unfold OfConnection.advance
  split
  · exact h
  · exact h.doSendOpenflow s.2
  · exact h.doRecvOpenflow s.2
  · exact h.doSendOpenflow s.2
  all_goals exact h

theorem Good.connect (h : w.Good) (c : OfConnection) (a : Answers) :
    (c.connect virtuals (w, a)).2.2.1.Good :=
  OfConnection.connect_invariant (P := fun _ (s : Wrapper × Answers) => s.1.Good)
    (fun c _ h => h.advance c) h

theorem Good.sendOpenflow (h : w.Good) (c : OfConnection) (a : Answers) :
    (c.sendOpenflow virtuals (w, a)).2.2.1.Good := by
  have hconnect := h.connect c a
  unfold OfConnection.sendOpenflow
  dsimp only
  split_ifs
  · exact hconnect.doSendOpenflow _
  · exact hconnect

theorem Good.recvOpenflow (h : w.Good) (c : OfConnection) (a : Answers) :
    (c.recvOpenflow virtuals (w, a)).2.2.1.Good := by
  have hconnect := h.connect c a
  rw [OfConnection.recvOpenflow_snd]
  split_ifs
  · exact hconnect.doRecvOpenflow _
  · exact hconnect

/-- In an established connection the inactivity probe never fails. -/
theorem sendOpenflow_result {c : OfConnection} (hstate : c.state = .connected) (w : Wrapper)
    (a : Answers) : (c.sendOpenflow virtuals (w, a)).1 = 0 ∨
      (c.sendOpenflow virtuals (w, a)).1 = EAGAIN := by
  rw [OfConnection.sendOpenflow_connected hstate]
  exact w.doSendOpenflow_result a

theorem run_closes {c : OfConnection} {w : Wrapper} {a : Answers} :
    (c.run virtuals (w, a)).1 = true ↔ c.state = .idle := by
  unfold OfConnection.run
  split
  · next hstate =>
    rw [hstate]
    dsimp only
    have hresult := sendOpenflow_result hstate w a
    split_ifs with hzero hagain
    · exact iff_of_false (fun h => nomatch h) fun h => nomatch h
    · exact iff_of_false (fun h => nomatch h) fun h => nomatch h
    · exact absurd hresult (not_or.mpr ⟨hzero, hagain⟩)
  · next hstate => exact iff_of_true rfl hstate
  · next _ hidle => exact iff_of_false (fun h => nomatch h) hidle

theorem Good.outerRun (h : w.Good) (c : OfConnection) (a : Answers) :
    (c.run virtuals (w, a)).2.2.1.Good := by
  have hsend := h.sendOpenflow c a
  unfold OfConnection.run
  split
  · dsimp only
    split_ifs
    · exact hsend
    · exact hsend
    · exact hsend
  · exact h
  · exact h

end Wrapper

namespace Reliable

/-- The act closes the connection while there is no inner one. -/
def ClosesNull (r : Reliable) : ReliableAct → Prop
  | .close => r.inner.c = none
  | .outerTimeout _ => r.outer.state = .idle ∧ r.inner.c = none
  | _ => False

theorem close_good {w : Wrapper} (h : w.Good) :
    (w.close.fault = true ↔ w.c = none) ∧ w.close.Consistent := by
  unfold Wrapper.close
  split
  · next hnone => exact ⟨iff_of_true rfl hnone, ⟨h.connected, h.connecting⟩⟩
  · next hsome =>
    refine ⟨iff_of_false ?_ ?_, h.toConsistent⟩
    · rw [h.fault]
      exact fun h => nomatch h
    · rw [hsome]
      exact fun h => nomatch h

/-- The outer connection closes after the second timeout in a row. -/
theorem outerTimeout_spec {w : Wrapper} (h : w.Good) (outer : OfConnection) (a : Answers) :
    ((⟨outer, w⟩ : Reliable).outerTimeout a).inner.Consistent ∧
      (((⟨outer, w⟩ : Reliable).outerTimeout a).inner.fault = true ↔
        outer.state = .idle ∧ w.c = none) := by
  unfold outerTimeout
  by_cases hidle : outer.state = .idle
  · have hrun : outer.run Wrapper.virtuals (w, a) = (true, outer.disconnect EPROTO, w, a) := by
      rw [OfConnection.run, hidle]
    obtain ⟨hiff, hcons⟩ := close_good h
    rw [hrun]
    exact ⟨hcons, hiff.trans (and_iff_right hidle).symm⟩
  · have hopen : (outer.run Wrapper.virtuals (w, a)).1 = false :=
      Bool.eq_false_iff.mpr (mt Wrapper.run_closes.mp hidle)
    have hrun := h.outerRun outer a
    dsimp only
    rw [hopen, if_neg (by decide)]
    exact ⟨hrun.toConsistent, iff_of_false (by rw [hrun.fault]; decide) fun h => hidle h.1⟩

theorem fault_of_step {r r' : Reliable} {act : ReliableAct} (hstep : r.step act = some r') :
    r.inner.fault = false := by
  unfold step at hstep
  split_ifs at hstep with hfault
  exact Bool.eq_false_iff.mpr hfault

/-- An act keeps status and connection consistent, and it dereferences null just when it
closes a connection that has none. -/
theorem step_spec {r r' : Reliable} {act : ReliableAct} (h : r.inner.Consistent)
    (hstep : r.step act = some r') :
    r'.inner.Consistent ∧ (r'.inner.fault = true ↔ r.ClosesNull act) := by
  have hfault := fault_of_step hstep
  have hgood : r.inner.Good := ⟨h, hfault⟩
  have hquiet {w : Wrapper} (hw : w.Good) : w.Consistent ∧ (w.fault = true ↔ False) :=
    ⟨hw.toConsistent, by rw [hw.fault]; decide⟩
  unfold step at hstep
  rw [if_neg (by rw [hfault]; decide)] at hstep
  cases act <;> cases hstep
  case task a => exact hquiet (hgood.run a)
  case connect a => exact hquiet (hgood.connect r.outer a)
  case send a => exact hquiet (hgood.sendOpenflow r.outer a)
  case recv a => exact hquiet (hgood.recvOpenflow r.outer a)
  case close =>
    obtain ⟨hiff, hcons⟩ := close_good hgood
    exact ⟨hcons, hiff⟩
  case outerTimeout a => exact outerTimeout_spec hgood r.outer a
  case innerTimeout a =>
    refine hquiet (w := { r.inner with c := r.inner.c.map (·.run a) }) ?_
    rcases hc : r.inner.c with _ | i
    · exact ⟨⟨fun hs => (nomatch hc.symm.trans (h.connected hs).choose_spec.1),
        fun hs => absurd hc (h.connecting hs)⟩, hfault⟩
    · exact hgood.work hc rfl

end Reliable

end Consistency

section SingleHello

/-! ## A peer that sends a single HELLO -/

/-- Every transport connected has a peer that sends a single HELLO. -/
def Answers.SingleHello (a : Answers) : Prop :=
  ∀ inbox, a.factory = .ok inbox → inbox.countP Message.isHello = 1

/-- What is left of the messages of such a peer, and what the connection knows of them. -/
structure Remaining (done : Bool) (c : OfConnection) (inbox : List Message) : Prop where
  explained : c.Explained
  single : inbox.countP Message.isHello ≤ 1
  passed : c.Passed ∨ done = true → inbox.countP Message.isHello = 0

/-- The first message, or none, is taken. -/
theorem transport_recv (s : Answers × List Message) :
    (∃ m, (transport.doRecvOpenflow s).1 = .ok m ∧
        s.2 = m :: (transport.doRecvOpenflow s).2.2) ∨
      ∃ e, (transport.doRecvOpenflow s).1 = .error e ∧
        (transport.doRecvOpenflow s).2.2 = s.2 := by
  obtain ⟨a, inbox⟩ := s
  unfold transport
  dsimp only
  split
  · exact .inr ⟨_, rfl, rfl⟩
  · exact .inr ⟨_, rfl, rfl⟩
  · exact .inl ⟨_, rfl, rfl⟩

theorem countP_recv (s : Answers × List Message) :
    (transport.doRecvOpenflow s).2.2.countP Message.isHello ≤ s.2.countP Message.isHello := by
  rcases transport_recv s with ⟨m, -, hm⟩ | ⟨e, -, hkeep⟩
  · rw [hm, List.countP_cons]
    exact Nat.le_add_right _ _
  · rw [hkeep]

/-- A HELLO that is received is one less to come. -/
theorem countP_recv_hello {s : Answers × List Message} {m : Message}
    (hm : (transport.doRecvOpenflow s).1 = .ok m) (hhello : m.isHello = true) :
    (transport.doRecvOpenflow s).2.2.countP Message.isHello + 1 =
      s.2.countP Message.isHello := by
  rcases transport_recv s with ⟨m', hm', hcons⟩ | ⟨e, he, -⟩
  · cases hm'.symm.trans hm
    rw [hcons, List.countP_cons_of_pos hhello]
  · exact nomatch he.symm.trans hm

namespace Remaining

variable {done : Bool} {c : OfConnection} {inbox : List Message}

theorem recv (h : Remaining done c inbox) (a : Answers) :
    Remaining done c (transport.doRecvOpenflow (a, inbox)).2.2 := by
  have hle := countP_recv (a, inbox)
  exact ⟨h.explained, hle.trans h.single, fun hp => Nat.le_zero.mp (h.passed hp ▸ hle)⟩

theorem advance {s : Answers × List Message} (h : Remaining done c s.2) :
    Remaining done (c.advance transport s).1 (c.advance transport s).2.2 := by
  have hle : (c.advance transport s).2.2.countP Message.isHello ≤
      s.2.countP Message.isHello := by
    unfold OfConnection.advance
    split
    case h_3 => exact countP_recv s
    all_goals exact le_rfl
  refine ⟨h.explained.advance s, hle.trans h.single, ?_⟩
  rintro (hpassed | hdone)
  · rcases OfConnection.advance_passed hpassed with hp | ⟨hstate, version, hm⟩
    · exact Nat.le_zero.mp (h.passed (.inl hp) ▸ hle)
    · have hone := countP_recv_hello hm rfl
      have hsingle := h.single
      rw [OfConnection.advance, hstate]
      dsimp only
      omega
  · exact Nat.le_zero.mp (h.passed (.inr hdone) ▸ hle)

theorem connect (h : Remaining done c inbox) (a : Answers) :
    Remaining done (c.connect transport (a, inbox)).2.1
      (c.connect transport (a, inbox)).2.2.2 :=
  OfConnection.connect_invariant
    (P := fun c (s : Answers × List Message) => Remaining done c s.2)
    (fun _ _ h => h.advance) h

theorem sendOpenflow (h : Remaining done c inbox) (a : Answers) :
    Remaining done (c.sendOpenflow transport (a, inbox)).2.1
      (c.sendOpenflow transport (a, inbox)).2.2.2 := by
  have hconnect := h.connect a
  unfold OfConnection.sendOpenflow
  dsimp only
  split_ifs <;> exact hconnect

/-- The connection changes, and has not received a HELLO by that. -/
theorem change (h : Remaining done c inbox) {c' : OfConnection} (hexplained : c'.Explained)
    (hpassed : c'.Passed → c.Passed) : Remaining done c' inbox :=
  ⟨hexplained, h.single, fun hor => h.passed (hor.imp_left hpassed)⟩

theorem disconnect (h : Remaining done c inbox) {error : Int} (herror : error ≠ 0) :
    Remaining done (c.disconnect error) inbox :=
  h.change (OfConnection.explained_disconnect herror) fun hp => by
    rcases hp with hp | hp | hp <;> cases hp

theorem recvOpenflow (h : Remaining done c inbox) (a : Answers) :
    Remaining done (c.recvOpenflow transport (a, inbox)).2.1
      (c.recvOpenflow transport (a, inbox)).2.2.2 := by
  have hconnect := h.connect a
  have hrecv := hconnect.recv (c.connect transport (a, inbox)).2.2.1
  unfold OfConnection.recvOpenflow
  dsimp only
  split
  · exact hconnect
  · split
    · dsimp only
      split_ifs with hidle
      · exact hrecv.change (fun hd => nomatch hd) fun _ => .inr (.inl hidle)
      · exact hrecv
    · exact hrecv

theorem run (h : Remaining done c inbox) (a : Answers) :
    Remaining done (c.run transport (a, inbox)).2.1 (c.run transport (a, inbox)).2.2.2 := by
  unfold OfConnection.run
  split
  · next hstate =>
    rw [OfConnection.sendOpenflow_connected hstate]
    dsimp only
    split_ifs with hzero
    · exact h.change (fun hd => nomatch hd) fun _ => .inl hstate
    · exact h
    · exact h.disconnect hzero
  · exact h.disconnect (by decide)
  · exact h

end Remaining

namespace Inner

/-- The peer has sent a single HELLO at most, which is gone when the connection has
completed. -/
def Single (i : Inner) : Prop := Remaining i.completed i.conn i.inbox

theorem single_init {inbox : List Message} (h : inbox.countP Message.isHello = 1) :
    (init inbox).Single := by
  refine ⟨fun hd => (nomatch hd), h.le, ?_⟩
  rintro ((hp | hp | hp) | hdone) <;> contradiction

theorem Single.connect {i : Inner} (h : i.Single) (a : Answers) : (i.connect a).2.1.Single := by
  have hconnect := Remaining.connect h a
  refine ⟨hconnect.explained, hconnect.single, ?_⟩
  rintro (hpassed | hdone)
  · exact hconnect.passed (.inl hpassed)
  · rcases (Bool.or_eq_true _ _).mp hdone with hdone | hzero
    · exact hconnect.passed (.inr hdone)
    · refine hconnect.passed (.inl ?_)
      rcases (OfConnection.connect_eq_zero_iff hconnect.explained).mp (beq_iff_eq.mp hzero) with
        hstate | hstate
      · exact .inl hstate
      · exact .inr (.inl hstate)

/-- A connection that has completed receives no HELLO. -/
theorem Single.recv_not_hello {i : Inner} (h : i.Single) (hdone : i.completed = true)
    (a : Answers) {m : Message} (hm : (i.recvOpenflow a).1 = .ok m) : m.isHello = false := by
  have hconnect := Remaining.connect h a
  have hnone := hconnect.passed (.inr hdone)
  revert hm
  unfold Inner.recvOpenflow OfConnection.recvOpenflow
  dsimp only
  split
  · exact fun hm => nomatch hm
  · split
    · next m' hm' =>
      rintro ⟨⟩
      by_contra hhello
      have hone := countP_recv_hello hm' (Bool.eq_true_of_not_eq_false hhello)
      exact absurd (hone.trans hnone) (Nat.succ_ne_zero _)
    · exact fun hm => nomatch hm

end Inner

namespace Wrapper

def Single (w : Wrapper) : Prop := ∀ i, w.c = some i → i.Single

variable {w : Wrapper}

/-- After a failure there is a backoff, which a timer ends. -/
theorem reconnect_run (w : Wrapper) (a : Answers) :
    w.reconnect.run a = { w.reconnect with status := .waking } := by
  have hbackoff : w.reconnect.backoff ≠ 0 := by
    simp only [reconnect, backoffLimit]
    omega
  exact if_pos hbackoff

theorem single_none (h : w.c = none) : w.Single := fun _ hi => nomatch h.symm.trans hi

theorem single_some {i : Inner} (hi : i.Single) (h : w.c = some i) : w.Single :=
  fun _ hi' => by
    cases h.symm.trans hi'
    exact hi

theorem Single.runConnecting (h : w.Single) (a : Answers) : (w.runConnecting a).Single := by
  unfold Wrapper.runConnecting
  split
  · exact h
  · next i hi =>
    have hconnect := single_some (w := { w with c := some (i.connect a).2.1 })
      ((h i hi).connect a) rfl
    dsimp only
    split_ifs
    · exact hconnect
    · exact single_none rfl
    · exact hconnect

theorem Single.runWaking (w : Wrapper) {a : Answers} (ha : a.SingleHello) :
    (w.runWaking a).Single := by
  unfold Wrapper.runWaking
  split
  · exact single_none rfl
  · next inbox hinbox =>
    exact runConnecting (single_some (Inner.single_init (ha inbox hinbox)) rfl) a

theorem Single.run (h : w.Single) {a : Answers} (ha : a.SingleHello) : (w.run a).Single := by
  unfold Wrapper.run
  split
  · dsimp only
    split_ifs
    · exact h
    · exact runWaking _ ha
  · exact runWaking w ha
  · exact h.runConnecting a
  · exact h

theorem Single.doSendOpenflow (h : w.Single) (a : Answers) :
    (w.doSendOpenflow a).2.1.Single := by
  unfold Wrapper.doSendOpenflow
  split_ifs
  · split
    · exact h
    · next i hi =>
      dsimp only
      split_ifs
      · exact single_some (i := (i.sendOpenflow a).2.1) ((h i hi).sendOpenflow a) rfl
      · rw [reconnect_run]
        exact single_none rfl
  · exact h

theorem Single.doRecvOpenflow (h : w.Single) (a : Answers) :
    (w.doRecvOpenflow a).2.1.Single := by
  unfold Wrapper.doRecvOpenflow
  split_ifs
  · split
    · exact h
    · next i hi =>
      have hrecv : (i.recvOpenflow a).2.1.Single := (h i hi).recvOpenflow a
      dsimp only
      split
      · exact single_some hrecv rfl
      · split_ifs
        · exact single_some hrecv rfl
        · rw [reconnect_run]
          exact single_none rfl
  · exact h

/-- The outer connection is not given the HELLO. -/
theorem Single.recv_not_hello (h : w.Single) (hcons : w.Consistent) (a : Answers) {m : Message}
    (hm : (w.doRecvOpenflow a).1 = .ok m) : m.isHello = false := by
  revert hm
  unfold Wrapper.doRecvOpenflow
  split_ifs with hstatus
  · obtain ⟨i, hi, hdone⟩ := hcons.connected hstatus
    rw [hi]
    dsimp only
    split
    · next m' hm' =>
      rintro ⟨⟩
      exact (h i hi).recv_not_hello hdone a hm'
    · exact fun hm => nomatch hm
  · exact fun hm => nomatch hm

end Wrapper

/-- The outer connection waits, over an inner one that received the only HELLO. -/
structure Waits (c : OfConnection) (w : Wrapper) : Prop where
  consistent : w.Consistent
  single : w.Single
  explained : c.Explained
  waits : ¬ c.Passed

namespace Waits

variable {c : OfConnection} {w : Wrapper}

theorem advance {s : Wrapper × Answers} (h : Waits c s.1) (hfault : s.1.fault = false) :
    Waits (c.advance Wrapper.virtuals s).1 (c.advance Wrapper.virtuals s).2.1 := by
  have hgood : s.1.Good := ⟨h.consistent, hfault⟩
  refine ⟨(hgood.advance c).toConsistent, ?_, h.explained.advance s, fun hpassed => ?_⟩
  · unfold OfConnection.advance
    split
    case h_2 => exact h.single.doSendOpenflow s.2
    case h_3 => exact h.single.doRecvOpenflow s.2
    case h_4 => exact h.single.doSendOpenflow s.2
    all_goals exact h.single
  · rcases OfConnection.advance_passed hpassed with hp | ⟨-, version, hm⟩
    · exact h.waits hp
    · exact nomatch h.single.recv_not_hello h.consistent s.2 hm

theorem connect (h : Waits c w) (hfault : w.fault = false) (a : Answers) :
    Waits (c.connect Wrapper.virtuals (w, a)).2.1 (c.connect Wrapper.virtuals (w, a)).2.2.1 :=
  (OfConnection.connect_invariant
    (P := fun c (s : Wrapper × Answers) => Waits c s.1 ∧ s.1.fault = false)
    (fun c _ h => ⟨h.1.advance h.2, (Wrapper.Good.advance ⟨h.1.consistent, h.2⟩ c).fault⟩)
    ⟨h, hfault⟩).1

/-- A connection that waits does not complete. -/
theorem connect_ne_zero (h : Waits c w) (hfault : w.fault = false) (a : Answers) :
    (c.connect Wrapper.virtuals (w, a)).1 ≠ 0 := by
  have hconnect := h.connect hfault a
  rw [Ne, OfConnection.connect_eq_zero_iff hconnect.explained]
  rintro (hstate | hstate)
  · exact hconnect.waits (.inl hstate)
  · exact hconnect.waits (.inr (.inl hstate))

theorem sendOpenflow_eq (h : Waits c w) (hfault : w.fault = false) (a : Answers) :
    c.sendOpenflow Wrapper.virtuals (w, a) = c.connect Wrapper.virtuals (w, a) :=
  if_neg (h.connect_ne_zero hfault a)

theorem recvOpenflow_snd (h : Waits c w) (hfault : w.fault = false) (a : Answers) :
    (c.recvOpenflow Wrapper.virtuals (w, a)).2 = (c.connect Wrapper.virtuals (w, a)).2 :=
  congrArg Prod.snd (if_pos (h.connect_ne_zero hfault a))

theorem run_eq (h : Waits c w) (a : Answers) :
    c.run Wrapper.virtuals (w, a) = (false, c, w, a) := by
  unfold OfConnection.run
  split
  · next hstate => exact absurd (.inl hstate) h.waits
  · next hstate => exact absurd (.inr (.inl hstate)) h.waits
  · rfl

end Waits

namespace ReliableAct

/-- The peers of the connections that are made in the act send a single HELLO each. -/
def SingleHello : ReliableAct → Prop
  | .task a | .connect a | .send a | .recv a | .outerTimeout a | .innerTimeout a =>
    a.SingleHello
  | .close => True

end ReliableAct

namespace Reliable

theorem step_waits {r r' : Reliable} {act : ReliableAct} (h : Waits r.outer r.inner)
    (hact : act.SingleHello) (hstep : r.step act = some r') : Waits r'.outer r'.inner := by
  have hcons := (step_spec h.consistent hstep).1
  have hfault := fault_of_step hstep
  unfold step at hstep
  rw [if_neg (by rw [hfault]; decide)] at hstep
  cases act <;> cases hstep
  case task a => exact ⟨hcons, h.single.run hact, h.explained, h.waits⟩
  case connect a => exact h.connect hfault a
  case send a =>
    unfold sendOpenflow
    rw [h.sendOpenflow_eq hfault]
    exact h.connect hfault a
  case recv a =>
    have hconnect := h.connect hfault a
    rw [← h.recvOpenflow_snd hfault a] at hconnect
    exact hconnect
  case close =>
    refine ⟨hcons, ?_, h.explained, h.waits⟩
    dsimp only
    unfold Wrapper.close
    split <;> exact h.single
  case outerTimeout a =>
    unfold outerTimeout
    rw [h.run_eq]
    exact h
  case innerTimeout a =>
    refine ⟨hcons, fun i hi => ?_, h.explained, h.waits⟩
    obtain ⟨i, hc, rfl⟩ := Option.map_eq_some_iff.mp hi
    exact Remaining.run (h.single i hc) a

/-- Status and inner connection agree in every run.  Null is dereferenced just when the
connection is closed, by a caller or for inactivity, while there is no inner one.  With peers
that send a single HELLO the outer connection is never established. -/
theorem runs_reliable (r : Reliable) :
    (Lib.Reaches step (fun _ _ => True) init r → r.inner.Consistent) ∧
      (Lib.Reaches step (fun r act => ¬ r.ClosesNull act) init r → r.inner.fault = false) ∧
      (∀ act r', Lib.Reaches step (fun _ _ => True) init r → r.step act = some r' →
        (r'.inner.fault = true ↔ r.ClosesNull act)) ∧
      (Lib.Reaches step (fun _ act => act.SingleHello) init r →
        ∀ a, r.inner.fault = false → (r.connect a).1 ≠ 0) := by
  have hcons : ∀ r, Lib.Reaches step (fun _ _ => True) init r → r.inner.Consistent :=
    fun r h => h.invariant (P := fun r => r.inner.Consistent)
      Wrapper.good_init.toConsistent fun _ _ _ hc _ hs => (step_spec hc hs).1
  refine ⟨hcons r, fun h => ?_, fun act r' h hs => (step_spec (hcons r h) hs).2,
    fun h a hfault => ?_⟩
  · have hgood := h.invariant (P := fun r => r.inner.Good) Wrapper.good_init
      fun r act r' hgood hopen hs => by
        obtain ⟨hc, hiff⟩ := step_spec hgood.toConsistent hs
        exact ⟨hc, Bool.eq_false_iff.mpr (mt hiff.mp hopen)⟩
    exact hgood.fault
  · have hinit : Waits init.outer init.inner :=
      ⟨Wrapper.good_init.toConsistent, Wrapper.single_none rfl, fun hd => (nomatch hd), by
        rintro (h | h | h) <;> cases h⟩
    have hwaits := h.invariant (P := fun r => Waits r.outer r.inner) hinit
      fun _ _ _ hw hact hs => step_waits hw hact hs
    exact hwaits.connect_ne_zero hfault a

/-- Calls that all succeed, over a transport whose peer sends a HELLO. -/
def promptAnswers : Answers :=
  ⟨.ok [.hello ofpVersion], List.replicate 3 0, List.replicate 3 0, List.replicate 3 none⟩

/-- A connection that is closed before its task has run dereferences null; and one whose task
has run waits for a second HELLO, while the inner connection is established. -/
theorem waits_for_second_hello :
    (∃ r, Lib.runs step (fun _ _ => True) init [.close] = some r ∧ r.inner.fault = true) ∧
      promptAnswers.SingleHello ∧
      ∃ r i, Lib.runs step (fun _ _ => True) init [.task promptAnswers] = some r ∧
        r.inner.c = some i ∧ i.completed = true ∧ i.inbox = [] ∧
        (r.connect promptAnswers).1 = EAGAIN ∧
        (r.connect promptAnswers).2.outer.state = .recvHello := by
  refine ⟨⟨_, rfl, rfl⟩, ?_, _, _, rfl, rfl, rfl, rfl, rfl, rfl⟩
  rintro inbox ⟨⟩
  rfl

end Reliable

end SingleHello

end Nox.Openflow
