import Mathlib.Logic.Relation
import Nox.Openflow.Idle

/-!
# Blocking calls

With `block`, `send_openflow` and `recv_openflow` go round until there is a result: a round that
would block gives way to the other threads and waits for the transport.  Both begin their rounds
with `connect`, and only `send_openflow` waits when it is `connect` that would block.
`blocking_iff` says when `recv_openflow` does not return `EAGAIN` nevertheless.
-/

namespace Nox.Openflow

section Rounds

/-! ## Calls in rounds -/

/-- How a round of a call ends. -/
inductive Round (α : Type)
  | returns (a : α)
  | again
  -- others run before the next round
  | block

variable {τ α : Type}

/-- A call that goes round until there is a result. -/
inductive RoundCall (others : τ → τ → Prop) (round : τ → Round α × τ) : τ → α → τ → Prop
  | returns {t : τ} {a : α} : (round t).1 = .returns a → RoundCall others round t a (round t).2
  | again {t t' : τ} {a : α} : (round t).1 = .again → RoundCall others round (round t).2 a t' →
    RoundCall others round t a t'
  | block {t t₁ t' : τ} {a : α} : (round t).1 = .block → others (round t).2 t₁ →
    RoundCall others round t₁ a t' → RoundCall others round t a t'

variable {others : τ → τ → Prop} {round : τ → Round α × τ}

/-- What every round returns from states that the rounds and the others do not leave. -/
theorem RoundCall.result {I : τ → Prop} {P : α → Prop} (hround : ∀ t, I t → I (round t).2)
    (hothers : ∀ t t', others t t' → I t → I t')
    (hreturns : ∀ t a, I t → (round t).1 = .returns a → P a) {t t' : τ} {a : α}
    (h : RoundCall others round t a t') (ht : I t) : P a := by
  induction h with
  | returns hret => exact hreturns _ _ ht hret
  | again _ _ ih => exact ih (hround _ ht)
  | block _ hothers' _ ih => exact ih (hothers _ _ hothers' (hround _ ht))

end Rounds

section Calls

/-! ## The calls -/

variable {σ : Type} (v : Virtuals σ)

/-- What happens to a connection while a call waits. -/
inductive ConnStep : TimedConnection × σ → TimedConnection × σ → Prop
  -- the peer and the network act
  | transport (c : TimedConnection) (s s' : σ) : ConnStep (c, s) (c, s')
  -- the time is read again
  | tick (c : TimedConnection) (s : σ) (clock : Int) : ConnStep (c, s) ({ c with clock }, s)
  | connect (c : TimedConnection) (s : σ) : ConnStep (c, s) (c.connect v s).2
  | send (c : TimedConnection) (s : σ) : ConnStep (c, s) (c.sendOpenflow v s).2
  | recv (c : TimedConnection) (s : σ) : ConnStep (c, s) (c.recvOpenflow v s).2
  | run (c : TimedConnection) (s : σ) : ConnStep (c, s) (c.run v s).2

/-- A round of `send_openflow`. -/
def sendRound (t : TimedConnection × σ) : Round Int × TimedConnection × σ :=
  let (error, t) := t.1.sendOpenflow v t.2
  (if error = EAGAIN then .block else if error ≠ EINTR then .returns error else .again, t)

/-- A round of `recv_openflow`: the error, and the message if there is one. -/
def recvRound (t : TimedConnection × σ) : Round (Int × Option Message) × TimedConnection × σ :=
  let (error, c, s) := t.1.connect v t.2
  if error ≠ 0 then (.returns (error, none), c, s)
  else
    match (v.doRecvOpenflow s).1 with
    | .ok m =>
      let conn := if c.conn.state = .idle then { c.conn with state := .connected } else c.conn
      (.returns (0, some m), { c with conn, timeout := c.clock + probeInterval },
        (v.doRecvOpenflow s).2)
    | .error e =>
      (if e.code = EAGAIN then .block else if e.code ≠ EINTR then .returns (e.code, none)
        else .again, c, (v.doRecvOpenflow s).2)

/-- `send_openflow` with `block`. -/
def Sends : TimedConnection × σ → Int → TimedConnection × σ → Prop :=
  RoundCall (Relation.ReflTransGen (ConnStep v)) (sendRound v)

/-- `recv_openflow` with `block`. -/
def Recvs : TimedConnection × σ → Int × Option Message → TimedConnection × σ → Prop :=
  RoundCall (Relation.ReflTransGen (ConnStep v)) (recvRound v)

end Calls

section Settles

/-! ## The condition -/

variable {σ : Type} (v : Virtuals σ)

/-- The notice of an incompatible version is sent, or fails. -/
def ErrorSent (s : σ) : Prop := (v.doSendOpenflow s).1 ≠ EAGAIN

/-- What was received instead of a HELLO, or with it; the notice if the versions disagree. -/
def HelloReceived (c : OfConnection) (s : σ) : Prop :=
  match (v.doRecvOpenflow s).1 with
  | .ok (.hello peer) => min ofpVersion peer < c.minVersion → ErrorSent v (v.doRecvOpenflow s).2
  | .ok (.other _) => True
  | .error e => e.code ≠ EAGAIN

/-- The HELLO is sent, and that of the peer is there, or one of them fails. -/
def HelloSent (c : OfConnection) (s : σ) : Prop :=
  (v.doSendOpenflow s).1 ≠ EAGAIN ∧
    ((v.doSendOpenflow s).1 = 0 → HelloReceived v c (v.doSendOpenflow s).2)

/-- Nothing that is still to be done for the connection would block. -/
def Settles (c : OfConnection) (s : σ) : Prop :=
  match c.state with
  | .connecting => (v.doConnect s).1 ≠ EAGAIN ∧
      ((v.doConnect s).1 = 0 → HelloSent v c (v.doConnect s).2)
  | .sendHello => HelloSent v c s
  | .recvHello => HelloReceived v c s
  | .sendError => ErrorSent v s
  | .connected | .idle | .disconnected => True

end Settles

namespace OfConnection

section Connect

/-! ## `connect` that would block -/

variable {σ : Type} {v : Virtuals σ} {c : OfConnection} {s : σ}

/-- A connection that has failed knows a reason that is final. -/
def Final (c : OfConnection) : Prop := c.state = .disconnected → c.error ≠ 0 ∧ c.error ≠ EAGAIN

theorem final_disconnect {error : Int} (hzero : error ≠ 0) (hagain : error ≠ EAGAIN) :
    (c.disconnect error).Final := fun _ => ⟨hzero, hagain⟩

theorem Final.advance (h : c.Final) (s : σ) : (c.advance v s).1.Final := by
  unfold OfConnection.advance
  split
  · unfold sConnecting
    split_ifs with hzero hagain
    · exact fun hd => nomatch hd
    · exact final_disconnect hzero hagain
    · exact h
  · unfold sSendHello
    split_ifs with hzero hagain
    · exact fun hd => nomatch hd
    · exact final_disconnect hzero hagain
    · exact h
  · unfold sRecvHello
    split
    · dsimp only [Final]
      split_ifs <;> exact fun hd => nomatch hd
    · exact final_disconnect (by decide) (by decide)
    · next e _ =>
      split_ifs with hagain
      · exact final_disconnect e.ne_zero hagain
      · exact h
  · unfold sSendError
    split_ifs with hagain hzero
    · exact final_disconnect hzero hagain
    · exact final_disconnect (by decide) (by decide)
    · exact h
  all_goals exact h

theorem Final.connect (h : c.Final) (s : σ) : (c.connect v s).2.1.Final :=
  connect_invariant (P := fun c _ => c.Final) (fun _ s h => h.advance s) h

/-- One round, in a state that has something to do. -/
theorem connect_busy (hbusy : 0 < rank c.state) (s : σ) :
    c.connect v s = if (c.advance v s).1.state ≠ c.state then
        (c.advance v s).1.connect v (c.advance v s).2
      else (EAGAIN, (c.advance v s).1, (c.advance v s).2) := by
  have hround : c.connect v s = if (c.advance v s).1.state ≠ c.state then
        connectLoop v 4 (c.advance v s).1 (c.advance v s).2
      else (EAGAIN, (c.advance v s).1, (c.advance v s).2) := by
    rw [OfConnection.connect, connectLoop]
    cases hs : c.state <;> rw [hs] at hbusy <;> first | rfl | exact absurd hbusy (Nat.lt_irrefl 0)
  rw [hround]
  split_ifs with hmoved
  · have hrank := advance_rank c s hmoved
    have hlt : rank c.state < 5 := by cases c.state <;> decide
    exact connectLoop_eq (by omega) (by omega) _
  · rfl

theorem connect_disconnected (hs : c.state = .disconnected) (s : σ) :
    c.connect v s = (c.error, c, s) := by
  rw [OfConnection.connect, connectLoop, hs]

theorem connect_moved {c' : OfConnection} {s' : σ} (hbusy : 0 < rank c.state)
    (hadvance : c.advance v s = (c', s')) (hmoved : c'.state ≠ c.state) :
    c.connect v s = c'.connect v s' := by
  rw [connect_busy hbusy, hadvance, if_pos hmoved]

theorem connect_stays {c' : OfConnection} {s' : σ} (hbusy : 0 < rank c.state)
    (hadvance : c.advance v s = (c', s')) (hstays : c'.state = c.state) :
    (c.connect v s).1 = EAGAIN := by
  rw [connect_busy hbusy, hadvance, if_neg (not_not.mpr hstays)]

theorem connect_sendError (hs : c.state = .sendError) :
    (c.connect v s).1 ≠ EAGAIN ↔ ErrorSent v s := by
  have hbusy : 0 < rank c.state := by rw [hs]; decide
  have hadvance :
      c.advance v s = (c.sSendError (v.doSendOpenflow s).1, (v.doSendOpenflow s).2) := by
    rw [OfConnection.advance, hs]
  unfold ErrorSent
  by_cases hagain : (v.doSendOpenflow s).1 = EAGAIN
  · rw [sSendError, if_neg (not_not.mpr hagain)] at hadvance
    exact iff_of_false (not_not.mpr (connect_stays hbusy hadvance rfl)) (not_not.mpr hagain)
  · rw [sSendError, if_pos hagain] at hadvance
    rw [connect_moved hbusy hadvance (by rw [hs]; nofun), connect_disconnected rfl]
    refine iff_of_true ?_ hagain
    dsimp only [disconnect]
    split_ifs
    · exact hagain
    · decide

theorem connect_recvHello (hs : c.state = .recvHello) :
    (c.connect v s).1 ≠ EAGAIN ↔ HelloReceived v c s := by
  have hbusy : 0 < rank c.state := by rw [hs]; decide
  have hadvance :
      c.advance v s = (c.sRecvHello (v.doRecvOpenflow s).1, (v.doRecvOpenflow s).2) := by
    rw [OfConnection.advance, hs]
  unfold HelloReceived
  split
  · next peer hm =>
    rw [hm, sRecvHello] at hadvance
    split_ifs at hadvance with hversion
    · rw [connect_moved hbusy hadvance (by rw [hs]; rintro ⟨⟩), connect_sendError rfl]
      exact ⟨fun h _ => h, fun h => h hversion⟩
    · rw [connect_moved hbusy hadvance (by rw [hs]; rintro ⟨⟩), connect_connected rfl]
      exact iff_of_true (show (0 : Int) ≠ EAGAIN by decide) fun h => absurd h hversion
  · next type hm =>
    rw [hm, sRecvHello] at hadvance
    rw [connect_moved hbusy hadvance (by rw [hs]; rintro ⟨⟩), connect_disconnected rfl]
    exact iff_of_true (show EPROTO ≠ EAGAIN by decide) trivial
  · next e hm =>
    rw [hm, sRecvHello] at hadvance
    by_cases hagain : e.code = EAGAIN
    · rw [if_neg (not_not.mpr hagain)] at hadvance
      exact iff_of_false (not_not.mpr (connect_stays hbusy hadvance rfl)) (not_not.mpr hagain)
    · rw [if_pos hagain] at hadvance
      rw [connect_moved hbusy hadvance (by rw [hs]; rintro ⟨⟩), connect_disconnected rfl]
      exact iff_of_true hagain hagain

theorem connect_sendHello (hs : c.state = .sendHello) :
    (c.connect v s).1 ≠ EAGAIN ↔ HelloSent v c s := by
  have hbusy : 0 < rank c.state := by rw [hs]; decide
  have hadvance :
      c.advance v s = (c.sSendHello (v.doSendOpenflow s).1, (v.doSendOpenflow s).2) := by
    rw [OfConnection.advance, hs]
  unfold HelloSent
  rw [sSendHello] at hadvance
  split_ifs at hadvance with hzero hagain
  · rw [connect_moved hbusy hadvance (by rw [hs]; nofun), connect_recvHello rfl]
    exact ⟨fun h => ⟨by rw [hzero]; decide, fun _ => h⟩, fun h => h.2 hzero⟩
  · rw [connect_moved hbusy hadvance (by rw [hs]; nofun), connect_disconnected rfl]
    exact iff_of_true hagain ⟨hagain, fun h => absurd h hzero⟩
  · exact iff_of_false (not_not.mpr (connect_stays hbusy hadvance rfl)) fun h => hagain h.1

theorem connect_connecting (hs : c.state = .connecting) :
    (c.connect v s).1 ≠ EAGAIN ↔ (v.doConnect s).1 ≠ EAGAIN ∧
      ((v.doConnect s).1 = 0 → HelloSent v c (v.doConnect s).2) := by
  have hbusy : 0 < rank c.state := by rw [hs]; decide
  have hadvance : c.advance v s = (c.sConnecting (v.doConnect s).1, (v.doConnect s).2) := by
    rw [OfConnection.advance, hs]
  rw [sConnecting] at hadvance
  split_ifs at hadvance with hzero hagain
  · rw [connect_moved hbusy hadvance (by rw [hs]; nofun), connect_sendHello rfl]
    exact ⟨fun h => ⟨by rw [hzero]; decide, fun _ => h⟩, fun h => h.2 hzero⟩
  · rw [connect_moved hbusy hadvance (by rw [hs]; nofun), connect_disconnected rfl]
    exact iff_of_true hagain ⟨hagain, fun h => absurd h hzero⟩
  · exact iff_of_false (not_not.mpr (connect_stays hbusy hadvance rfl)) fun h => hagain h.1

/-- `connect` would block just when something that is still to be done would. -/
theorem Final.connect_iff (h : c.Final) (s : σ) :
    (c.connect v s).1 ≠ EAGAIN ↔ Settles v c s := by
  unfold Settles
  cases hs : c.state with
  | connecting => exact connect_connecting hs
  | sendHello => exact connect_sendHello hs
  | recvHello => exact connect_recvHello hs
  | sendError => exact connect_sendError hs
  | connected =>
    rw [connect_connected hs]
    exact iff_of_true (show (0 : Int) ≠ EAGAIN by decide) trivial
  | idle =>
    have hconnect : c.connect v s = (0, c, s) := by
      rw [OfConnection.connect, connectLoop, hs]
    rw [hconnect]
    exact iff_of_true (show (0 : Int) ≠ EAGAIN by decide) trivial
  | disconnected =>
    rw [connect_disconnected hs]
    exact iff_of_true (h hs).2 trivial

end Connect

end OfConnection

section Steps

/-! ## What the others do -/

variable {σ : Type} {v : Virtuals σ}

/-- Nothing is left to be done for the connection, and if it has failed for a final reason. -/
structure Over (t : TimedConnection × σ) : Prop where
  final : t.1.conn.Final
  ended : t.1.conn.state = .connected ∨ t.1.conn.state = .idle ∨ t.1.conn.state = .disconnected

theorem Over.settles {t : TimedConnection × σ} (h : Over t) : Settles v t.1.conn t.2 := by
  unfold Settles
  obtain hs | hs | hs := h.ended
  · rw [hs]; trivial
  · rw [hs]; trivial
  · rw [hs]; trivial

theorem Over.connect {c : TimedConnection} {s : σ} (h : Over (c, s)) :
    (c.connect v s).2 = (c, s) := by
  obtain hs | hs | hs := h.ended
  · rw [TimedConnection.connect_established (.inl hs)]
  · rw [TimedConnection.connect_established (.inr hs)]
  · rw [TimedConnection.connect, TimedConnection.connectLoop, hs]

/-- `recv_openflow` leaves the connection as `connect` does, or it connects. -/
theorem recvOpenflow_conn (c : TimedConnection) (s : σ) :
    (c.recvOpenflow v s).2.1.conn = (c.connect v s).2.1.conn ∨
      (c.recvOpenflow v s).2.1.conn.state = .connected := by
  unfold TimedConnection.recvOpenflow
  dsimp only
  split
  · exact .inl rfl
  · split
    · dsimp only
      split
      · exact .inr rfl
      · exact .inl rfl
    · exact .inl rfl

theorem recvOpenflow_final {c : TimedConnection} (h : c.conn.Final) (s : σ) :
    (c.recvOpenflow v s).2.1.conn.Final := by
  obtain hconn | hconnected := recvOpenflow_conn (v := v) c s
  · rw [hconn, TimedConnection.connect_conn]
    exact h.connect s
  · intro hd
    rw [hconnected] at hd
    cases hd

theorem run_final {c : TimedConnection} (h : c.conn.Final) (s : σ) :
    (c.run v s).2.1.conn.Final := by
  obtain ⟨s', hrun⟩ | ⟨s', hrun, -⟩ | ⟨s', e, hrun, hzero, hagain⟩ | ⟨hrun, -, -⟩ :=
    run_cases c s
  · rw [hrun]
    exact h
  · rw [hrun]
    exact fun hd => nomatch hd
  · rw [hrun]
    exact OfConnection.final_disconnect hzero hagain
  · rw [hrun]
    exact OfConnection.final_disconnect (by decide) (by decide)

/-- The reason of a failure is final, whatever happens. -/
theorem ConnStep.final {t t' : TimedConnection × σ} (h : ConnStep v t t') (ht : t.1.conn.Final) :
    t'.1.conn.Final := by
  cases h with
  | transport c s s' => exact ht
  | tick c s clock => exact ht
  | connect c s =>
    rw [TimedConnection.connect_conn]
    exact ht.connect s
  | send c s =>
    rw [TimedConnection.sendOpenflow_conn, TimedConnection.connect_conn]
    exact ht.connect s
  | recv c s => exact recvOpenflow_final ht s
  | run c s => exact run_final ht s

/-- A connection for which nothing is left to be done stays so. -/
theorem ConnStep.keepsOver {t t' : TimedConnection × σ} (h : ConnStep v t t') (ht : Over t) :
    Over t' := by
  refine ⟨h.final ht.final, ?_⟩
  cases h with
  | transport c s s' => exact ht.ended
  | tick c s clock => exact ht.ended
  | connect c s =>
    rw [ht.connect]
    exact ht.ended
  | send c s =>
    rw [TimedConnection.sendOpenflow_conn, ht.connect]
    exact ht.ended
  | recv c s =>
    obtain hconn | hconnected := recvOpenflow_conn (v := v) c s
    · rw [hconn, ht.connect]
      exact ht.ended
    · exact .inl hconnected
  | run c s =>
    obtain ⟨s', hrun⟩ | ⟨s', hrun, -⟩ | ⟨s', e, hrun, -⟩ | ⟨hrun, -, -⟩ := run_cases (v := v) c s
    · rw [hrun]
      exact ht.ended
    · rw [hrun]
      exact .inr (.inl rfl)
    · rw [hrun]
      exact .inr (.inr rfl)
    · rw [hrun]
      exact .inr (.inr rfl)

theorem over_of_steps {t t' : TimedConnection × σ} (h : Relation.ReflTransGen (ConnStep v) t t')
    (ht : Over t) : Over t' := by
  induction h with
  | refl => exact ht
  | tail _ hstep ih => exact hstep.keepsOver ih

/-- All connections that can come about. -/
theorem Reached.final {hist : List Obs} {c : TimedConnection} {s : σ} (h : Reached v hist c s) :
    c.conn.Final := by
  induction h with
  | start timeout clock s => exact fun hd => nomatch hd
  | @transport hist c s s' _ ih => exact ConnStep.final (v := v) (.transport c s s') ih
  | @tick hist c s clock _ ih => exact ConnStep.final (v := v) (.tick c s clock) ih
  | @connect hist c s _ ih => exact ConnStep.final (.connect c s) ih
  | @send hist c s _ ih => exact ConnStep.final (.send c s) ih
  | @recv hist c s _ ih => exact ConnStep.final (.recv c s) ih
  | @run hist c s _ ih => exact ConnStep.final (.run c s) ih

end Steps

section Results

/-! ## Results -/

variable {σ : Type} {v : Virtuals σ}

/-- A round of `recv_openflow` is one of the steps of a connection. -/
theorem recvRound_snd (t : TimedConnection × σ) :
    (recvRound v t).2 = (t.1.recvOpenflow v t.2).2 := by
  unfold recvRound TimedConnection.recvOpenflow
  dsimp only
  split
  · rfl
  · cases (v.doRecvOpenflow (t.1.connect v t.2).2.2).1 with
    | ok m => rfl
    | error e => rfl

/-- What is promised of the results of `recv_openflow`. -/
def Promised (r : Int × Option Message) : Prop := r.1 ≠ EAGAIN ∧ (r.2.isSome ↔ r.1 = 0)

/-- How a round of `recv_openflow` ends. -/
theorem recvRound_cases (t : TimedConnection × σ) :
    ((t.1.connect v t.2).1 ≠ 0 ∧
      (recvRound v t).1 = .returns ((t.1.connect v t.2).1, none)) ∨
    ((t.1.connect v t.2).1 = 0 ∧
      ((∃ r, (recvRound v t).1 = .returns r ∧ Promised r) ∨ (recvRound v t).1 = .block ∨
        (recvRound v t).1 = .again)) := by
  unfold recvRound
  dsimp only
  split
  · next hne => exact .inl ⟨hne, rfl⟩
  · next hzero =>
    refine .inr ⟨not_not.mp hzero, ?_⟩
    split
    · next m hm =>
      exact .inl ⟨(0, some m), rfl, show (0 : Int) ≠ EAGAIN by decide, iff_of_true rfl rfl⟩
    · next e hm =>
      split_ifs with hagain hintr
      · exact .inr (.inl rfl)
      · exact .inl ⟨(e.code, none), rfl, hagain, iff_of_false (by simp) e.ne_zero⟩
      · exact .inr (.inr rfl)

/-- `send_openflow` does not return `EAGAIN`. -/
theorem Sends.ne_again {t t' : TimedConnection × σ} {error : Int} (h : Sends v t error t') :
    error ≠ EAGAIN := by
  refine RoundCall.result (I := fun _ => True) (P := fun error => error ≠ EAGAIN)
    (fun _ _ => trivial) (fun _ _ _ _ => trivial) ?_ h trivial
  intro t error _ hret
  unfold sendRound at hret
  dsimp only at hret
  split_ifs at hret with hagain
  cases hret
  exact hagain

/-- A round of `recv_openflow` that `connect` does not block returns what is promised. -/
theorem recvRound_promised {t : TimedConnection × σ} {r : Int × Option Message}
    (hsettles : (t.1.connect v t.2).1 ≠ EAGAIN) (hret : (recvRound v t).1 = .returns r) :
    Promised r := by
  obtain ⟨hne, hfail⟩ | ⟨-, ⟨r', hreturns, hr'⟩ | hblock | hagain⟩ := recvRound_cases (v := v) t
  · rw [hfail] at hret
    cases hret
    exact ⟨hsettles, iff_of_false (by simp) hne⟩
  · rw [hreturns] at hret
    cases hret
    exact hr'
  · rw [hblock] at hret
    cases hret
  · rw [hagain] at hret
    cases hret

theorem connect_ne_again_iff {t : TimedConnection × σ} (h : t.1.conn.Final) :
    (t.1.connect v t.2).1 ≠ EAGAIN ↔ Settles v t.1.conn t.2 := by
  rw [TimedConnection.connect_error]
  exact h.connect_iff t.2

theorem Over.recvRound {t : TimedConnection × σ} (h : Over t) : Over (recvRound v t).2 := by
  rw [recvRound_snd]
  exact ConnStep.keepsOver (.recv t.1 t.2) h

/-- Once nothing is left to be done for the connection, `recv_openflow` keeps the promise. -/
theorem Over.promised {t t' : TimedConnection × σ} {r : Int × Option Message} (h : Over t)
    (hrecv : Recvs v t r t') : Promised r :=
  RoundCall.result (I := Over) (P := Promised) (fun _ ht => ht.recvRound)
    (fun _ _ hsteps ht => over_of_steps hsteps ht)
    (fun _ _ ht hret => recvRound_promised ((connect_ne_again_iff ht.final).mpr ht.settles) hret)
    hrecv h

/-- A round that does not return has found the connection established. -/
theorem over_of_recvRound {t : TimedConnection × σ} (ht : t.1.conn.Final)
    (h : (recvRound v t).1 = .block ∨ (recvRound v t).1 = .again) : Over (recvRound v t).2 := by
  have hzero : (t.1.connect v t.2).1 = 0 := by
    obtain ⟨-, hfail⟩ | ⟨hzero, -⟩ := recvRound_cases (v := v) t
    · rw [hfail] at h
      obtain h | h := h
      · cases h
      · cases h
    · exact hzero
  have hestablished := TimedConnection.established_of_connect (fun hd => (ht hd).1) hzero
  rw [recvRound_snd]
  refine ⟨recvOpenflow_final ht t.2, ?_⟩
  obtain hconn | hconnected := recvOpenflow_conn (v := v) t.1 t.2
  · rw [hconn]
    obtain hs | hs := hestablished
    · exact .inl hs
    · exact .inr (.inl hs)
  · exact .inl hconnected

/-- `recv_openflow` keeps the promise where nothing that is to be done for the connection would
block: only its first round can find such a thing. -/
theorem Recvs.promised {t t' : TimedConnection × σ} {r : Int × Option Message}
    (ht : t.1.conn.Final) (hsettles : Settles v t.1.conn t.2) (h : Recvs v t r t') :
    Promised r := by
  cases h with
  | returns hret => exact recvRound_promised ((connect_ne_again_iff ht).mpr hsettles) hret
  | again hagain hrest => exact (over_of_recvRound ht (.inr hagain)).promised hrest
  | block hblock hothers hrest =>
    exact (over_of_steps hothers (over_of_recvRound ht (.inl hblock))).promised hrest

/-- And does not keep it elsewhere. -/
theorem recvs_again {t : TimedConnection × σ} (ht : t.1.conn.Final)
    (h : ¬Settles v t.1.conn t.2) : Recvs v t (EAGAIN, none) (recvRound v t).2 := by
  have hagain : (t.1.connect v t.2).1 = EAGAIN := by
    by_contra hne
    exact h ((connect_ne_again_iff ht).mp hne)
  obtain ⟨-, hfail⟩ | ⟨hzero, -⟩ := recvRound_cases (v := v) t
  · rw [hagain] at hfail
    exact .returns hfail
  · rw [hagain] at hzero
    cases hzero

end Results

section Blocking

/-! ## The promise -/

variable {σ : Type} {v : Virtuals σ} {hist : List Obs} {c : TimedConnection} {s : σ}

/-- Blocking calls do not return `EAGAIN`, and a message is returned just where there is no error,
if and only if nothing that is still to be done for the connection would block. -/
theorem blocking_iff (h : Reached v hist c s) :
    ((∀ error t, Sends v (c, s) error t → error ≠ EAGAIN) ∧
      ∀ error m t, Recvs v (c, s) (error, m) t → error ≠ EAGAIN ∧ (m.isSome ↔ error = 0)) ↔
      Settles v c.conn s := by
  constructor
  · rintro ⟨-, hrecv⟩
    by_contra hblocks
    exact (hrecv EAGAIN none _ (recvs_again h.final hblocks)).1 rfl
  · intro hsettles
    exact ⟨fun error t hsend => hsend.ne_again,
      fun error m t hrecv => hrecv.promised h.final hsettles⟩

/-- The HELLO of the peer is there when `recv_openflow` is called. -/
theorem blocking_silent :
    (∀ error t, Sends silentPeer (⟨.init, 0, 0⟩, true) error t → error ≠ EAGAIN) ∧
      ∀ error m t, Recvs silentPeer (⟨.init, 0, 0⟩, true) (error, m) t →
        error ≠ EAGAIN ∧ (m.isSome ↔ error = 0) := by
  refine (blocking_iff (.start 0 0 true)).mpr ⟨by decide, fun _ => ⟨by decide, fun _ => ?_⟩⟩
  intro hversion
  exact absurd hversion (by decide)

/-- A transport that is not connected yet. -/
def slowTransport : Virtuals Unit where
  doConnect s := (EAGAIN, s)
  doSendOpenflow s := (0, s)
  doRecvOpenflow s := (.error ⟨EAGAIN, EAGAIN_ne_zero⟩, s)

/-- `recv_openflow` returns `EAGAIN` although it is to block. -/
theorem recv_returns_again :
    ∃ t, Reached slowTransport [] ⟨.init, 0, 0⟩ () ∧
      Recvs slowTransport (⟨.init, 0, 0⟩, ()) (EAGAIN, none) t :=
  ⟨_, .start 0 0 (), .returns rfl⟩

end Blocking

end Nox.Openflow
