import Nox.Openflow.Connection

/-!
# The exchange of hello messages

`Openflow_connection::connect` waits for the transport, sends a HELLO, waits for that of
the peer, and is connected when the versions agree.  What it does with the transport are
virtual functions, so the exchange is a function of these: `Virtuals`.
-/

namespace Nox.Openflow

section Connection

/-! ## The state machine -/

/-- `Openflow_connection::State` -/
inductive ConnState
  | connecting
  | sendHello
  | recvHello
  | connected
  | idle
  | sendError
  | disconnected
  deriving DecidableEq, Repr

/-- A message of the peer. -/
inductive Message
  | hello (version : Nat)
  | other (type : Nat)
  deriving DecidableEq, Repr

def Message.isHello : Message → Bool
  | hello _ => true
  | other _ => false

/-- What the failure of a receive is: a positive `errno`, or `EOF`. -/
structure Failure where
  code : Int
  ne_zero : code ≠ 0

def ofpVersion : Nat := 4

/-- The data of an `Openflow_connection`. -/
structure OfConnection where
  state : ConnState
  error : Int
  version : Nat
  minVersion : Nat
  deriving DecidableEq, Repr

namespace OfConnection

def init : OfConnection := ⟨.connecting, 0, 0, ofpVersion⟩

def disconnect (c : OfConnection) (error : Int) : OfConnection :=
  { c with state := .disconnected, error }

/-- `s_connecting`, where `do_connect` has returned `retval`. -/
def sConnecting (c : OfConnection) (retval : Int) : OfConnection :=
  if retval = 0 then { c with state := .sendHello }
  else if retval ≠ EAGAIN then c.disconnect retval
  else c

/-- `s_send_hello`, where the send has returned `retval`. -/
def sSendHello (c : OfConnection) (retval : Int) : OfConnection :=
  if retval = 0 then { c with state := .recvHello }
  else if retval ≠ EAGAIN then c.disconnect retval
  else c

/-- `s_recv_hello`, with what was received. -/
def sRecvHello (c : OfConnection) : Except Failure Message → OfConnection
  | .ok (.hello peer) =>
    let version := min ofpVersion peer
    { c with version, state := if version < c.minVersion then .sendError else .connected }
  | .ok (.other _) => c.disconnect EPROTO
  | .error e => if e.code ≠ EAGAIN then c.disconnect e.code else c

/-- `s_send_error`, where the send has returned `retval`. -/
def sSendError (c : OfConnection) (retval : Int) : OfConnection :=
  if retval ≠ EAGAIN then c.disconnect (if retval ≠ 0 then retval else EPROTO) else c

end OfConnection

end Connection

section Connect

/-! ## `connect` -/

/-- The virtual functions of a connection, over a state of their own. -/
structure Virtuals (σ : Type) where
  doConnect : σ → Int × σ
  doSendOpenflow : σ → Int × σ
  doRecvOpenflow : σ → Except Failure Message × σ

namespace OfConnection

variable {σ : Type} (v : Virtuals σ)

/-- A round of the loop of `connect`, in the states that have something to do. -/
def advance (c : OfConnection) (s : σ) : OfConnection × σ :=
  match c.state with
  | .connecting => (c.sConnecting (v.doConnect s).1, (v.doConnect s).2)
  | .sendHello => (c.sSendHello (v.doSendOpenflow s).1, (v.doSendOpenflow s).2)
  | .recvHello => (c.sRecvHello (v.doRecvOpenflow s).1, (v.doRecvOpenflow s).2)
  | .sendError => (c.sSendError (v.doSendOpenflow s).1, (v.doSendOpenflow s).2)
  | .connected | .idle | .disconnected => (c, s)

/-- The loop of `connect`, for so many rounds. -/
def connectLoop : Nat → OfConnection → σ → Int × OfConnection × σ
  | 0, c, s => (EAGAIN, c, s)
  | n + 1, c, s =>
    match c.state with
    | .connected | .idle => (0, c, s)
    | .disconnected => (c.error, c, s)
    | _ =>
      let (c', s') := c.advance v s
      if c'.state ≠ c.state then connectLoop n c' s' else (EAGAIN, c', s')

/-- `connect` without blocking.  The state only goes forward, so five rounds are all
there can be (`connectLoop_add`). -/
def connect (c : OfConnection) (s : σ) : Int × OfConnection × σ := connectLoop v 5 c s

/-- `send_openflow` without blocking.  The virtual functions try again themselves what a
signal interrupted. -/
def sendOpenflow (c : OfConnection) (s : σ) : Int × OfConnection × σ :=
  let (error, c, s) := c.connect v s
  if error = 0 then ((v.doSendOpenflow s).1, c, (v.doSendOpenflow s).2) else (error, c, s)

/-- `recv_openflow` without blocking; the error `connect` returns is not zero. -/
def recvOpenflow (c : OfConnection) (s : σ) : Except Int Message × OfConnection × σ :=
  let (error, c, s) := c.connect v s
  if error ≠ 0 then (.error error, c, s)
  else
    match (v.doRecvOpenflow s).1 with
    | .ok m =>
      (.ok m, if c.state = .idle then { c with state := .connected } else c, (v.doRecvOpenflow s).2)
    | .error e => (.error e.code, c, (v.doRecvOpenflow s).2)

/-- `run`, when the timeout has passed: the connection afterwards, and whether it was
closed. -/
def run (c : OfConnection) (s : σ) : Bool × OfConnection × σ :=
  match c.state with
  | .connected =>
    let (retval, c, s) := c.sendOpenflow v s
    if retval = 0 then (false, { c with state := .idle }, s)
    else if retval = EAGAIN then (false, c, s)
    else (true, c.disconnect retval, s)
  | .idle => (true, c.disconnect EPROTO, s)
  | _ => (false, c, s)

end OfConnection

end Connect

section Rules

/-! ## Rules -/

namespace OfConnection

variable {σ : Type} {v : Virtuals σ}

/-- How many rounds a state can be away from the end. -/
def rank : ConnState → Nat
  | .connecting => 4
  | .sendHello => 3
  | .recvHello => 2
  | .sendError => 1
  | .connected | .idle | .disconnected => 0

theorem advance_rank (c : OfConnection) (s : σ) (h : (c.advance v s).1.state ≠ c.state) :
    rank (c.advance v s).1.state < rank c.state := by
  unfold advance at h ⊢
  cases hs : c.state <;> simp only [hs, ne_eq, not_true_eq_false] at h ⊢
  case connecting =>
    revert h
    unfold sConnecting disconnect
    split_ifs <;> simp [rank, hs]
  case sendHello =>
    revert h
    unfold sSendHello disconnect
    split_ifs <;> simp [rank, hs]
  case recvHello =>
    revert h
    unfold sRecvHello disconnect
    split
    · dsimp only
      split_ifs <;> simp [rank]
    · simp [rank]
    · split_ifs <;> simp [rank, hs]
  case sendError =>
    revert h
    unfold sSendError disconnect
    split_ifs <;> simp [rank, hs]

/-- Enough rounds for the rank are as good as any more. -/
theorem connectLoop_eq {n k : Nat} {c : OfConnection} (hn : rank c.state < n)
    (hk : rank c.state < k) (s : σ) : connectLoop v n c s = connectLoop v k c s := by
  induction n generalizing k c s with
  | zero => omega
  | succ n ih =>
    obtain ⟨k, rfl⟩ : ∃ k', k = k' + 1 := ⟨k - 1, by omega⟩
    have hround : (if (c.advance v s).1.state ≠ c.state then
          connectLoop v n (c.advance v s).1 (c.advance v s).2
        else (EAGAIN, (c.advance v s).1, (c.advance v s).2)) =
        if (c.advance v s).1.state ≠ c.state then
          connectLoop v k (c.advance v s).1 (c.advance v s).2
        else (EAGAIN, (c.advance v s).1, (c.advance v s).2) := by
      split_ifs with hmoved
      · have hrank := advance_rank c s hmoved
        exact ih (by omega) (by omega) _
      · rfl
    rw [connectLoop, connectLoop]
    cases hs : c.state <;> rw [hs] at hround <;> first | rfl | exact hround

/-- More than five rounds change nothing. -/
theorem connectLoop_add (n : Nat) (c : OfConnection) (s : σ) :
    connectLoop v (n + 5) c s = c.connect v s := by
  have hrank : rank c.state < 5 := by cases c.state <;> decide
  exact connectLoop_eq (by omega) hrank s

/-- What every round keeps, `connect` keeps. -/
theorem connect_invariant {P : OfConnection → σ → Prop}
    (h : ∀ c s, P c s → P (c.advance v s).1 (c.advance v s).2) {c : OfConnection} {s : σ}
    (hP : P c s) : P (c.connect v s).2.1 (c.connect v s).2.2 := by
  have hloop : ∀ n c s, P c s → P (connectLoop v n c s).2.1 (connectLoop v n c s).2.2 := by
    intro n
    induction n with
    | zero => exact fun _ _ hP => hP
    | succ n ih =>
      intro c s hP
      have hround : P (if (c.advance v s).1.state ≠ c.state then
            connectLoop v n (c.advance v s).1 (c.advance v s).2
          else (EAGAIN, (c.advance v s).1, (c.advance v s).2)).2.1
          (if (c.advance v s).1.state ≠ c.state then
            connectLoop v n (c.advance v s).1 (c.advance v s).2
          else (EAGAIN, (c.advance v s).1, (c.advance v s).2)).2.2 := by
        split_ifs
        · exact ih _ _ (h c s hP)
        · exact h c s hP
      rw [connectLoop]
      cases hs : c.state <;> rw [hs] at hround <;> first | exact hround | exact hP
  exact hloop 5 c s hP

/-- `connect` returns success just when the connection is established. -/
theorem connect_eq_zero_iff {c : OfConnection} {s : σ}
    (herror : (c.connect v s).2.1.state = .disconnected → (c.connect v s).2.1.error ≠ 0) :
    (c.connect v s).1 = 0 ↔
      (c.connect v s).2.1.state = .connected ∨ (c.connect v s).2.1.state = .idle := by
  have hloop : ∀ n c s, rank c.state < n →
      ((connectLoop v n c s).2.1.state = .disconnected →
        (connectLoop v n c s).2.1.error ≠ 0) →
      ((connectLoop v n c s).1 = 0 ↔ (connectLoop v n c s).2.1.state = .connected ∨
        (connectLoop v n c s).2.1.state = .idle) := by
    intro n
    induction n with
    | zero => exact fun c _ hlt => absurd hlt (Nat.not_lt_zero _)
    | succ n ih =>
      intro c s hlt
      have hround (hbusy : c.state ≠ .connected ∧ c.state ≠ .idle) :
          ∀ r, r = (if (c.advance v s).1.state ≠ c.state then
              connectLoop v n (c.advance v s).1 (c.advance v s).2
            else (EAGAIN, (c.advance v s).1, (c.advance v s).2)) →
          (r.2.1.state = .disconnected → r.2.1.error ≠ 0) →
          (r.1 = 0 ↔ r.2.1.state = .connected ∨ r.2.1.state = .idle) := by
        rintro r rfl
        split_ifs with hmoved
        · have hrank := advance_rank c s hmoved
          exact ih _ _ (by omega)
        · have hsame := not_not.mp hmoved
          refine fun _ => iff_of_false (fun h => nomatch h) ?_
          dsimp only
          rw [hsame]
          exact not_or.mpr hbusy
      rw [connectLoop]
      cases hs : c.state <;> rw [hs] at hround
      case connected => exact fun _ => iff_of_true rfl (.inl hs)
      case idle => exact fun _ => iff_of_true rfl (.inr hs)
      case disconnected =>
        intro hne
        refine iff_of_false (hne hs) ?_
        dsimp only
        rw [hs]
        decide
      all_goals exact hround (by decide) _ rfl
  have hrank : rank c.state < 5 := by cases c.state <;> decide
  exact hloop 5 c s hrank herror

theorem connect_connected {c : OfConnection} (h : c.state = .connected) (s : σ) :
    c.connect v s = (0, c, s) := by
  rw [connect, connectLoop, h]

theorem sendOpenflow_connected {c : OfConnection} (h : c.state = .connected) (s : σ) :
    c.sendOpenflow v s = ((v.doSendOpenflow s).1, c, (v.doSendOpenflow s).2) := by
  rw [sendOpenflow, connect_connected h]
  rfl

/-- What a receive leaves of the state of the virtual functions. -/
theorem recvOpenflow_snd (c : OfConnection) (s : σ) :
    (c.recvOpenflow v s).2.2 =
      if (c.connect v s).1 = 0 then (v.doRecvOpenflow (c.connect v s).2.2).2
      else (c.connect v s).2.2 := by
  unfold recvOpenflow
  by_cases hzero : (c.connect v s).1 = 0
  · dsimp only
    rw [if_neg (not_not.mpr hzero), if_pos hzero]
    split <;> rfl
  · dsimp only
    rw [if_pos hzero, if_neg hzero]

/-- A connection that has failed knows why. -/
def Explained (c : OfConnection) : Prop := c.state = .disconnected → c.error ≠ 0

theorem explained_disconnect {c : OfConnection} {error : Int} (h : error ≠ 0) :
    (c.disconnect error).Explained := fun _ => h

theorem Explained.advance {c : OfConnection} (h : c.Explained) (s : σ) :
    (c.advance v s).1.Explained := by
  unfold OfConnection.advance
  split
  · unfold sConnecting
    split_ifs with hzero
    · exact fun hd => nomatch hd
    · exact explained_disconnect hzero
    · exact h
  · unfold sSendHello
    split_ifs with hzero
    · exact fun hd => nomatch hd
    · exact explained_disconnect hzero
    · exact h
  · unfold sRecvHello
    split
    · dsimp only [Explained]
      split_ifs <;> exact fun hd => nomatch hd
    · exact explained_disconnect (by decide)
    · next e _ =>
      split_ifs
      · exact explained_disconnect e.ne_zero
      · exact h
  · unfold sSendError
    split_ifs with _ hzero
    · exact explained_disconnect hzero
    · exact explained_disconnect (by decide)
    · exact h
  all_goals exact h

theorem Explained.connect {c : OfConnection} (h : c.Explained) (s : σ) :
    (c.connect v s).2.1.Explained :=
  connect_invariant (P := fun c _ => c.Explained) (fun _ s h => h.advance s) h

/-- A HELLO of the peer has been received, and the connection has not failed. -/
def Passed (c : OfConnection) : Prop :=
  c.state = .connected ∨ c.state = .idle ∨ c.state = .sendError

/-- Only the receipt of a HELLO leads there. -/
theorem advance_passed {c : OfConnection} {s : σ} (h : (c.advance v s).1.Passed) :
    c.Passed ∨ c.state = .recvHello ∧
      ∃ version, (v.doRecvOpenflow s).1 = .ok (.hello version) := by
  unfold OfConnection.advance at h
  split at h
  case h_1 hstate =>
    revert h
    unfold sConnecting disconnect
    split_ifs <;> simp [Passed, hstate]
  case h_2 hstate =>
    revert h
    unfold sSendHello disconnect
    split_ifs <;> simp [Passed, hstate]
  case h_3 hstate =>
    refine .inr ⟨hstate, ?_⟩
    revert h
    unfold sRecvHello disconnect
    split
    · next version hm => exact fun _ => ⟨version, hm⟩
    · simp [Passed]
    · split_ifs <;> simp [Passed, hstate]
  case h_4 hstate => exact .inl (.inr (.inr hstate))
  all_goals exact .inl h

end OfConnection

end Rules

end Nox.Openflow
