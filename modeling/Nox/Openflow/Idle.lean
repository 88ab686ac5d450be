import Nox.Openflow.Hello

/-!
# Inactivity probes

`Openflow_connection::run` sends an echo request to a peer that has been silent for a probe
interval, and closes the connection when the peer stays silent for another.  The state and
the timeout it looks at are also written by `connect`, when the hello messages have been
exchanged, and by `recv_openflow`, whenever it returns a message.

The steps of a connection come in any order, and between them the transport does what it
likes and the time moves.  Which of them follow each other is told by the probes since the
last message (`outstanding`): there is none unless the connection is idle, and then there is
one, whose interval the timeout is the end of (`Inv`).
-/

namespace Nox.Openflow

section Model

/-! ## The connection with its timeout -/

/-- `probe_interval`, in microseconds. -/
def probeInterval : Int := 15 * 1000000

/-- An `Openflow_connection`, and the time `do_gettimeofday` returns: that of its last
update, which the timer dispatcher makes. -/
structure TimedConnection where
  conn : OfConnection
  timeout : Int
  clock : Int
  deriving DecidableEq

/-- What comes of a call of `run`. -/
inductive RunOutcome
  -- it waits, for the timeout or for the transport
  | waiting
  -- an echo request has been queued
  | probed
  -- closed, since the echo request could not be sent
  | sendFailed
  -- closed for inactivity
  | inactive
  deriving DecidableEq, Repr

namespace TimedConnection

variable {σ : Type} (v : Virtuals σ)

/-- A round of the loop of `connect`; `s_recv_hello` sets the timeout where it connects. -/
def advance (c : TimedConnection) (s : σ) : TimedConnection × σ :=
  let (conn, s) := c.conn.advance v s
  let timeout :=
    if c.conn.state = .recvHello ∧ conn.state = .connected then c.clock + probeInterval
    else c.timeout
  ({ c with conn, timeout }, s)

/-- The loop of `connect`, for so many rounds. -/
def connectLoop : Nat → TimedConnection → σ → Int × TimedConnection × σ
  | 0, c, s => (EAGAIN, c, s)
  | n + 1, c, s =>
    match c.conn.state with
    | .connected | .idle => (0, c, s)
    | .disconnected => (c.conn.error, c, s)
    | _ =>
      let (c', s') := c.advance v s
      if c'.conn.state ≠ c.conn.state then connectLoop n c' s' else (EAGAIN, c', s')

def connect (c : TimedConnection) (s : σ) : Int × TimedConnection × σ := connectLoop v 5 c s

/-- A round of `send_openflow`; where it blocks, it comes back for another. -/
def sendOpenflow (c : TimedConnection) (s : σ) : Int × TimedConnection × σ :=
  let (error, c, s) := c.connect v s
  if error = 0 then ((v.doSendOpenflow s).1, c, (v.doSendOpenflow s).2) else (error, c, s)

/-- A round of `recv_openflow`; where it blocks, it comes back for another. -/
def recvOpenflow (c : TimedConnection) (s : σ) : Except Int Message × TimedConnection × σ :=
  let (error, c, s) := c.connect v s
  if error ≠ 0 then (.error error, c, s)
  else
    match (v.doRecvOpenflow s).1 with
    | .ok m =>
      let conn := if c.conn.state = .idle then { c.conn with state := .connected } else c.conn
      (.ok m, { c with conn, timeout := c.clock + probeInterval }, (v.doRecvOpenflow s).2)
    | .error e => (.error e.code, c, (v.doRecvOpenflow s).2)

/-- `run` -/
def run (c : TimedConnection) (s : σ) : RunOutcome × TimedConnection × σ :=
  match c.conn.state with
  | .connected =>
    if c.timeout ≤ c.clock then
      -- `send_echo_request`
      let (retval, c, s) := c.sendOpenflow v s
      if retval = 0 then
        let conn := { c.conn with state := .idle }
        (.probed, { c with conn, timeout := c.clock + probeInterval }, s)
      else if retval = EAGAIN then (.waiting, c, s)
      else (.sendFailed, { c with conn := c.conn.disconnect retval }, s)
    else (.waiting, c, s)
  | .idle =>
    if c.timeout ≤ c.clock then (.inactive, { c with conn := c.conn.disconnect EPROTO }, s)
    else (.waiting, c, s)
  | _ => (.waiting, c, s)

end TimedConnection

end Model

section Histories

/-! ## Histories -/

/-- What is told of a run: a probe that was queued, or a message that `recv_openflow`
returned, and when. -/
inductive Obs
  | probed (time : Int)
  | received (time : Int) (m : Message)

/-- What a call of `run` adds. -/
def RunOutcome.obs (clock : Int) : RunOutcome → List Obs
  | probed => [.probed clock]
  | waiting | sendFailed | inactive => []

/-- What a call of `recv_openflow` adds. -/
def recvObs (clock : Int) : Except Int Message → List Obs
  | .ok m => [.received clock m]
  | .error _ => []

/-- The probes that no message has followed, the last one first. -/
def outstanding : List Obs → List Int
  | [] => []
  | .received _ _ :: _ => []
  | .probed t :: hist => t :: outstanding hist

variable {σ : Type} (v : Virtuals σ)

/-- The connections that can come about, each with what has been told of it, the last
first. -/
inductive Reached : List Obs → TimedConnection → σ → Prop
  | start (timeout clock : Int) (s : σ) : Reached [] ⟨.init, timeout, clock⟩ s
  -- the peer and the network act
  | transport {hist c s} (s' : σ) : Reached hist c s → Reached hist c s'
  -- the time is read again
  | tick {hist c s} (clock : Int) : Reached hist c s → Reached hist { c with clock } s
  | connect {hist c s} : Reached hist c s →
      Reached hist (c.connect v s).2.1 (c.connect v s).2.2
  | send {hist c s} : Reached hist c s →
      Reached hist (c.sendOpenflow v s).2.1 (c.sendOpenflow v s).2.2
  | recv {hist c s} : Reached hist c s →
      Reached (recvObs c.clock (c.recvOpenflow v s).1 ++ hist) (c.recvOpenflow v s).2.1
        (c.recvOpenflow v s).2.2
  | run {hist c s} : Reached hist c s →
      Reached ((c.run v s).1.obs c.clock ++ hist) (c.run v s).2.1 (c.run v s).2.2

end Histories

section Connect

/-! ## `connect`, and the timeout -/

/-- A round of `connect` does not make a connection idle. -/
theorem OfConnection.advance_ne_idle {σ : Type} {v : Virtuals σ} {c : OfConnection} {s : σ}
    (h : c.state ≠ .idle) : (c.advance v s).1.state ≠ .idle := by
  unfold advance
  split
  · unfold sConnecting disconnect
    split_ifs <;> simp [h]
  · unfold sSendHello disconnect
    split_ifs <;> simp [h]
  · unfold sRecvHello disconnect
    split
    · dsimp only
      split_ifs <;> simp
    · simp
    · split_ifs <;> simp [h]
  · unfold sSendError disconnect
    split_ifs <;> simp [h]
  all_goals exact h

namespace TimedConnection

variable {σ : Type} {v : Virtuals σ}

theorem connectLoop_conn (n : Nat) (c : TimedConnection) (s : σ) :
    (connectLoop v n c s).1 = (OfConnection.connectLoop v n c.conn s).1 ∧
      (connectLoop v n c s).2.1.conn = (OfConnection.connectLoop v n c.conn s).2.1 ∧
      (connectLoop v n c s).2.1.clock = c.clock := by
  induction n generalizing c s with
  | zero => exact ⟨rfl, rfl, rfl⟩
  | succ n ih =>
    have hround :
        let r := if (c.advance v s).1.conn.state ≠ c.conn.state then
          connectLoop v n (c.advance v s).1 (c.advance v s).2
          else (EAGAIN, (c.advance v s).1, (c.advance v s).2)
        let q := if (c.conn.advance v s).1.state ≠ c.conn.state then
          OfConnection.connectLoop v n (c.conn.advance v s).1 (c.conn.advance v s).2
          else (EAGAIN, (c.conn.advance v s).1, (c.conn.advance v s).2)
        r.1 = q.1 ∧ r.2.1.conn = q.2.1 ∧ r.2.1.clock = c.clock := by
      have hconn : (c.advance v s).1.conn = (c.conn.advance v s).1 := rfl
      rw [hconn]
      split_ifs
      · exact ih (c.advance v s).1 (c.advance v s).2
      · exact ⟨rfl, rfl, rfl⟩
    rw [connectLoop, OfConnection.connectLoop]
    cases hs : c.conn.state <;> rw [hs] at hround <;> first | exact hround | exact ⟨rfl, rfl, rfl⟩

theorem connect_error (c : TimedConnection) (s : σ) :
    (c.connect v s).1 = (c.conn.connect v s).1 := (connectLoop_conn 5 c s).1

theorem connect_conn (c : TimedConnection) (s : σ) :
    (c.connect v s).2.1.conn = (c.conn.connect v s).2.1 := (connectLoop_conn 5 c s).2.1

@[simp]
theorem connect_clock (c : TimedConnection) (s : σ) : (c.connect v s).2.1.clock = c.clock :=
  (connectLoop_conn 5 c s).2.2

/-- An established connection is left as it is. -/
theorem connect_established {c : TimedConnection}
    (h : c.conn.state = .connected ∨ c.conn.state = .idle) (s : σ) :
    c.connect v s = (0, c, s) := by
  unfold connect connectLoop
  rcases h with h | h <;> rw [h]

/-- `connect` does not make a connection idle. -/
theorem connect_idle {c : TimedConnection} {s : σ} (h : (c.connect v s).2.1.conn.state = .idle) :
    c.conn.state = .idle := by
  by_contra hidle
  rw [connect_conn] at h
  exact OfConnection.connect_invariant (P := fun c _ => c.state ≠ .idle)
    (fun _ _ => OfConnection.advance_ne_idle) hidle h

/-- Where `connect` succeeds, the connection is established. -/
theorem established_of_connect {c : TimedConnection} {s : σ} (h : c.conn.Explained)
    (hzero : (c.connect v s).1 = 0) : (c.connect v s).2.1.conn.state = .connected ∨
      (c.connect v s).2.1.conn.state = .idle := by
  rw [connect_conn]
  rw [connect_error] at hzero
  exact (OfConnection.connect_eq_zero_iff (h.connect s)).mp hzero

theorem sendOpenflow_conn (c : TimedConnection) (s : σ) :
    (c.sendOpenflow v s).2.1 = (c.connect v s).2.1 := by
  unfold sendOpenflow
  dsimp only
  split <;> rfl

/-- A message that is returned connects, with a whole interval to go. -/
theorem recvOpenflow_ok {c c' : TimedConnection} {s s' : σ} {m : Message}
    (h : c.conn.Explained) (hrecv : c.recvOpenflow v s = (.ok m, c', s')) :
    c'.conn.state = .connected ∧ c'.timeout = c.clock + probeInterval := by
  unfold recvOpenflow at hrecv
  dsimp only at hrecv
  by_cases hzero : (c.connect v s).1 = 0
  · rw [if_neg (not_not.mpr hzero)] at hrecv
    split at hrecv
    · cases hrecv
      refine ⟨?_, by rw [connect_clock]⟩
      dsimp only
      split
      · rfl
      · next hidle => exact (established_of_connect h hzero).resolve_right hidle
    · cases hrecv
  · rw [if_pos hzero] at hrecv
    cases hrecv

/-- Where nothing is returned, the connection is as `connect` left it. -/
theorem recvOpenflow_error {c : TimedConnection} {s : σ} {e : Int}
    (hrecv : (c.recvOpenflow v s).1 = .error e) :
    (c.recvOpenflow v s).2.1 = (c.connect v s).2.1 := by
  unfold recvOpenflow at hrecv ⊢
  dsimp only at hrecv ⊢
  split
  · rfl
  · next hzero =>
    rw [if_neg hzero] at hrecv
    split
    · next m hm =>
      rw [hm] at hrecv
      cases hrecv
    · rfl

end TimedConnection

end Connect

section Invariant

/-! ## The invariant -/

variable {σ : Type} {v : Virtuals σ} {hist : List Obs} {c : TimedConnection} {s : σ}

/-- An idle connection waits for the end of the interval of its only probe; before it is
closed, no other has one. -/
def Pending (hist : List Obs) (c : TimedConnection) : Prop :=
  match c.conn.state with
  | .idle => ∃ t, outstanding hist = [t] ∧ c.timeout = t + probeInterval
  | .disconnected => (outstanding hist).length ≤ 1
  | _ => outstanding hist = []

structure Inv (hist : List Obs) (c : TimedConnection) : Prop where
  explained : c.conn.Explained
  pending : Pending hist c

theorem pending_of_nil (hidle : c.conn.state ≠ .idle) (h : outstanding hist = []) :
    Pending hist c := by
  unfold Pending
  split
  · next hstate => exact absurd hstate hidle
  · rw [h]
    exact Nat.zero_le 1
  · exact h

theorem Pending.length_le (h : Pending hist c) : (outstanding hist).length ≤ 1 := by
  unfold Pending at h
  split at h
  · obtain ⟨t, ht, -⟩ := h
    rw [ht]
    exact Nat.le_refl 1
  · exact h
  · rw [h]
    exact Nat.zero_le 1

theorem Pending.of_idle (h : Pending hist c) (hidle : c.conn.state = .idle) :
    ∃ t, outstanding hist = [t] ∧ c.timeout = t + probeInterval := by
  rwa [Pending, hidle] at h

theorem Pending.of_connected (h : Pending hist c) (hstate : c.conn.state = .connected) :
    outstanding hist = [] := by
  rwa [Pending, hstate] at h

/-- Closing a connection leaves the probe it was waiting for. -/
theorem Pending.disconnect (h : Pending hist c) (error : Int) :
    Pending hist { c with conn := c.conn.disconnect error } := h.length_le

theorem Inv.connect (h : Inv hist c) (s : σ) : Inv hist (c.connect v s).2.1 := by
  have hexplained : (c.connect v s).2.1.conn.Explained := by
    rw [TimedConnection.connect_conn]
    exact h.explained.connect s
  refine ⟨hexplained, ?_⟩
  have hpending := h.pending
  cases hstate : c.conn.state with
  | connected | idle =>
    rw [TimedConnection.connect_established (by simp [hstate])]
    exact hpending
  | disconnected =>
    have hconnect : c.connect v s = (c.conn.error, c, s) := by
      rw [TimedConnection.connect, TimedConnection.connectLoop, hstate]
    rw [hconnect]
    exact hpending
  | connecting | sendHello | recvHello | sendError =>
    rw [Pending, hstate] at hpending
    refine pending_of_nil (fun hidle => ?_) hpending
    have hwas := TimedConnection.connect_idle hidle
    rw [hstate] at hwas
    cases hwas

theorem Inv.recv (h : Inv hist c) (s : σ) :
    Inv (recvObs c.clock (c.recvOpenflow v s).1 ++ hist) (c.recvOpenflow v s).2.1 := by
  cases hres : (c.recvOpenflow v s).1 with
  | error e =>
    rw [TimedConnection.recvOpenflow_error hres]
    exact h.connect s
  | ok m =>
    have hrecv : c.recvOpenflow v s =
        (.ok m, (c.recvOpenflow v s).2.1, (c.recvOpenflow v s).2.2) := by rw [← hres]
    obtain ⟨hstate, -⟩ := TimedConnection.recvOpenflow_ok h.explained hrecv
    refine ⟨fun hd => ?_, pending_of_nil ?_ rfl⟩
    · rw [hstate] at hd
      cases hd
    · rw [hstate]
      decide

/-- What `run` has done, by its outcome. -/
theorem run_cases (c : TimedConnection) (s : σ) :
    (∃ s', c.run v s = (.waiting, c, s')) ∨
    (∃ s', c.run v s = (.probed, ⟨{ c.conn with state := .idle }, c.clock + probeInterval,
      c.clock⟩, s') ∧ c.conn.state = .connected) ∨
    (∃ s' e, c.run v s = (.sendFailed, { c with conn := c.conn.disconnect e }, s') ∧ e ≠ 0 ∧
      e ≠ EAGAIN) ∨
    (c.run v s = (.inactive, { c with conn := c.conn.disconnect EPROTO }, s) ∧
      c.conn.state = .idle ∧ c.timeout ≤ c.clock) := by
  unfold TimedConnection.run
  split
  · next hstate =>
    split
    · unfold TimedConnection.sendOpenflow
      rw [TimedConnection.connect_established (.inl hstate)]
      dsimp only
      rw [if_pos rfl]
      dsimp only
      split_ifs with hzero hagain
      · exact .inr (.inl ⟨_, rfl, hstate⟩)
      · exact .inl ⟨_, rfl⟩
      · exact .inr (.inr (.inl ⟨_, _, rfl, hzero, hagain⟩))
    · exact .inl ⟨_, rfl⟩
  · next hstate =>
    split
    · next hdue => exact .inr (.inr (.inr ⟨rfl, hstate, hdue⟩))
    · exact .inl ⟨_, rfl⟩
  · exact .inl ⟨_, rfl⟩

theorem Inv.run (h : Inv hist c) (s : σ) :
    Inv ((c.run v s).1.obs c.clock ++ hist) (c.run v s).2.1 := by
  obtain ⟨s', hrun⟩ | ⟨s', hrun, hstate⟩ | ⟨s', e, hrun, hne, -⟩ | ⟨hrun, -, -⟩ := run_cases c s
  · rw [hrun]
    exact h
  · rw [hrun]
    have hnone := h.pending.of_connected hstate
    refine ⟨fun hd => (nomatch hd), ?_⟩
    exact ⟨c.clock, congrArg (c.clock :: ·) hnone, rfl⟩
  · rw [hrun]
    exact ⟨OfConnection.explained_disconnect hne, h.pending.disconnect e⟩
  · rw [hrun]
    exact ⟨OfConnection.explained_disconnect (by decide), h.pending.disconnect EPROTO⟩

/-- The invariant holds of all connections that can come about. -/
theorem Reached.inv (h : Reached v hist c s) : Inv hist c := by
  induction h with
  | start timeout clock s => exact ⟨fun hd => (nomatch hd), rfl⟩
  | transport s' _ ih => exact ih
  | tick clock _ ih => exact ⟨ih.explained, ih.pending⟩
  | @connect hist c s _ ih => exact ih.connect s
  | @send hist c s _ ih =>
    rw [TimedConnection.sendOpenflow_conn]
    exact ih.connect s
  | @recv hist c s _ ih => exact ih.recv s
  | @run hist c s _ ih => exact ih.run s

end Invariant

section Probing

/-! ## Probes and messages -/

variable {σ : Type} {v : Virtuals σ} {hist : List Obs} {c : TimedConnection} {s : σ}

/-- The first outstanding probe is one that no message has followed. -/
theorem split_of_outstanding {t : Int} {ts : List Int} (h : outstanding hist = t :: ts) :
    ∃ before, hist = .probed t :: before := by
  cases hist with
  | nil => cases h
  | cons o hist =>
    cases o with
    | received => cases h
    | probed time =>
      cases h
      exact ⟨hist, rfl⟩

/-- `run` closes a connection for inactivity only after a probe that has been queued, with
no message returned for a whole interval; a message that is returned connects, with a whole
interval to go; and there is at most one probe that no message has followed. -/
theorem idle_probing (h : Reached v hist c s) :
    ((c.run v s).1 = .inactive →
      ∃ t before, hist = .probed t :: before ∧ t + probeInterval ≤ c.clock) ∧
    (∀ m c' s', c.recvOpenflow v s = (.ok m, c', s') →
      c'.conn.state = .connected ∧ c'.timeout = c.clock + probeInterval) ∧
    (outstanding hist).length ≤ 1 := by
  refine ⟨fun hinactive => ?_, fun m c' s' hrecv => ?_, h.inv.pending.length_le⟩
  · obtain ⟨s', hrun⟩ | ⟨s', hrun, -⟩ | ⟨s', e, hrun, -⟩ | ⟨-, hidle, hdue⟩ := run_cases c s
    · rw [hrun] at hinactive
      cases hinactive
    · rw [hrun] at hinactive
      cases hinactive
    · rw [hrun] at hinactive
      cases hinactive
    · obtain ⟨t, hprobe, htimeout⟩ := h.inv.pending.of_idle hidle
      obtain ⟨before, hhist⟩ := split_of_outstanding hprobe
      exact ⟨t, before, hhist, htimeout ▸ hdue⟩
  · exact TimedConnection.recvOpenflow_ok h.inv.explained hrecv

/-- A peer that sends its HELLO and nothing else; the state is whether it is still to come. -/
def silentPeer : Virtuals Bool where
  doConnect s := (0, s)
  doSendOpenflow s := (0, s)
  doRecvOpenflow s :=
    (if s then .ok (.hello ofpVersion) else .error ⟨EAGAIN, EAGAIN_ne_zero⟩, false)

/-- The connection to it, two intervals after the HELLO. -/
def silentConnection : TimedConnection :=
  ⟨⟨.idle, 0, ofpVersion, ofpVersion⟩, 30000000, 30000000⟩

theorem reached_silent : Reached silentPeer [.probed 15000000] silentConnection false := by
  have hconnect : Reached silentPeer [] ⟨⟨.connected, 0, ofpVersion, ofpVersion⟩, 15000000, 0⟩
      false := Reached.connect (.start 0 0 true)
  exact .tick 30000000 (.run (.tick 15000000 hconnect))

/-- It is closed, after the probe at the end of the first interval. -/
theorem idle_probing_silent :
    (silentConnection.run silentPeer false).1 = .inactive ∧
      ∃ t before, [Obs.probed 15000000] = .probed t :: before ∧
        t + probeInterval ≤ silentConnection.clock :=
  ⟨rfl, (idle_probing reached_silent).1 rfl⟩

end Probing

end Nox.Openflow
