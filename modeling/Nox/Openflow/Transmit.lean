import Nox.Openflow.Send

/-!
# Framing what is sent

A message that the stream does not take at once is parked in `tx_buf`, and the task of the
connection, `tx_run`, writes the rest of it when the stream has room again.  After every
run of sends, of runs of the task and of stream behaviour, what has been written and what is
parked are together the messages that were accepted, one after the other, and the task is
awake or waits for the stream while something is parked (`run_framed`).
-/

namespace Nox.Openflow

section Task

/-! ## The task -/

/-- The finite state machine `tx_fsm`: it is due, it waits for room in the stream, or it
has blocked without waiting for anything. -/
inductive TxFsm
  | ready
  | writeWait
  | dormant
  deriving DecidableEq, Repr

/-- The sending half of a connection with its task; `log` has the messages that
`do_send_openflow` was called for and what it returned. -/
structure Transmitter where
  sender : Sender
  txFsm : TxFsm
  log : List (Bytes × Int)

/-- A new task is due at once. -/
def Transmitter.init : Transmitter := ⟨.init, .ready, []⟩

/-- What can happen.  Each call comes with how the writes it makes will go. -/
inductive TxEvent
  | send (oh : Bytes) (sched : List WriteEvent)
  -- the scheduler finds room in the stream
  | writable
  -- the scheduler runs the task, if it is due
  | run (sched : List WriteEvent)
  | close

namespace Transmitter

/-- `do_send_openflow` wakes the task when it leaves a rest in `tx_buf`. -/
def send (t : Transmitter) (oh : Bytes) : Transmitter :=
  let (error, sender) := t.sender.doSendOpenflow oh
  { sender
    txFsm := if error = 0 ∧ sender.txBuf.isSome then .ready else t.txFsm
    log := t.log ++ [(oh, error)] }

/-- `tx_run` -/
def txRun (t : Transmitter) : Transmitter :=
  match t.sender.txBuf with
  | some buf =>
    let (error, sender) := t.sender.sendTxBuf buf
    { t with sender, txFsm := if error = EAGAIN then .writeWait else .dormant }
  | none => { t with txFsm := .dormant }

def meet (t : Transmitter) (sched : List WriteEvent) : Transmitter :=
  { t with sender := t.sender.meet sched }

def step (t : Transmitter) : TxEvent → Transmitter
  | .send oh sched => (t.meet sched).send oh
  | .writable => { t with txFsm := if t.txFsm = .writeWait then .ready else t.txFsm }
  | .run sched => if t.txFsm = .ready then (t.meet sched).txRun else t
  | .close => { t with sender := t.sender.close }

/-- What the stream has been given. -/
def written (t : Transmitter) : Bytes := t.sender.stream.written

/-- What is parked. -/
def rest (t : Transmitter) : Bytes := t.sender.txBuf.getD []

def Open (t : Transmitter) : Prop := t.sender.stream.closed = false

/-- The messages `do_send_openflow` returned success for. -/
def accepted (t : Transmitter) : List Bytes :=
  (t.log.filter (·.2 == 0)).map fun m => m.1.take (headerLength m.1)

end Transmitter

/-- A run from a new connection. -/
def txRuns (es : List TxEvent) : Transmitter := es.foldl Transmitter.step .init

end Task

section Invariant

/-! ## What holds between the calls -/

/-- The messages in the books of the sender are those that were accepted, and while
something is parked the task will be run. -/
structure Transmitter.Sound (t : Transmitter) : Prop where
  sender : t.sender.Sound
  connected : t.sender.error = none
  queued : t.sender.queued = t.accepted
  armed : t.Open → t.sender.txBuf.isSome → t.txFsm ≠ .dormant

theorem sound_new : Transmitter.init.Sound :=
  ⟨sound_init, rfl, rfl, fun _ h => nomatch h⟩

/-- With a copy in `tx_buf` success is what puts the message into the books. -/
theorem Sender.sendCopy_queued (s : Sender) (oh : Bytes) :
    (s.sendCopy oh).2.queued =
      if (s.sendCopy oh).1 = 0 then s.queued ++ [oh.take (headerLength oh)] else s.queued := by
  have hflushed := s.sendTxBuf_flushed (oh.take (headerLength oh))
  unfold Sender.sendCopy
  dsimp only
  split
  · rw [if_pos rfl, hflushed.queued]
  · next hnot => rw [if_neg fun hzero => hnot (.inr hzero), hflushed.queued]

section Send

variable {s : Sender} {buf : Bytes}

theorem Sender.doSendOpenflow_empty (hbuf : s.txBuf = none) (oh : Bytes) :
    s.doSendOpenflow oh = s.sendCopy oh := by
  simp [doSendOpenflow, sendRest, hbuf]

theorem Sender.doSendOpenflow_flushed (hbuf : s.txBuf = some buf)
    (hzero : (s.sendTxBuf buf).1 = 0) (oh : Bytes) :
    s.doSendOpenflow oh = (s.sendTxBuf buf).2.sendCopy oh := by
  simp [doSendOpenflow, sendRest, hbuf, hzero]

theorem Sender.doSendOpenflow_parked (hbuf : s.txBuf = some buf)
    (hne : (s.sendTxBuf buf).1 ≠ 0) (oh : Bytes) : s.doSendOpenflow oh = s.sendTxBuf buf := by
  simp [doSendOpenflow, sendRest, hbuf, hne]

end Send

/-- What `do_send_openflow` returns tells whether the message was queued. -/
theorem Sender.doSendOpenflow_queued (s : Sender) (oh : Bytes) :
    (s.doSendOpenflow oh).2.queued =
      if (s.doSendOpenflow oh).1 = 0 then s.queued ++ [oh.take (headerLength oh)]
      else s.queued := by
  cases hbuf : s.txBuf with
  | none =>
    rw [doSendOpenflow_empty hbuf]
    exact s.sendCopy_queued oh
  | some buf =>
    have hqueued := (s.sendTxBuf_flushed buf).queued
    by_cases hzero : (s.sendTxBuf buf).1 = 0
    · rw [doSendOpenflow_flushed hbuf hzero, ← hqueued]
      exact Sender.sendCopy_queued _ oh
    · rw [doSendOpenflow_parked hbuf hzero, if_neg hzero, hqueued]

/-- A message that is refused leaves the stream open only behind one that is parked. -/
theorem Sender.doSendOpenflow_refused (s : Sender) (oh : Bytes)
    (hne : (s.doSendOpenflow oh).1 ≠ 0) (hopen : (s.doSendOpenflow oh).2.stream.closed = false) :
    s.stream.closed = false ∧ s.txBuf.isSome := by
  have hcopy (s : Sender) (hne : (s.sendCopy oh).1 ≠ 0) : (s.sendCopy oh).2.stream.closed = true := by
    have hflushed := s.sendTxBuf_flushed (oh.take (headerLength oh))
    unfold Sender.sendCopy at hne ⊢
    dsimp only at hne ⊢
    split at hne
    · exact absurd rfl hne
    · next hnot =>
      rw [if_neg hnot, hflushed.closed]
      simp [not_or.mp hnot]
  cases hbuf : s.txBuf with
  | none =>
    rw [doSendOpenflow_empty hbuf] at hne hopen
    exact absurd (hcopy s hne) (by rw [hopen]; decide)
  | some buf =>
    have hflushed := s.sendTxBuf_flushed buf
    by_cases hzero : (s.sendTxBuf buf).1 = 0
    · rw [doSendOpenflow_flushed hbuf hzero] at hne hopen
      exact absurd (hcopy _ hne) (by rw [hopen]; decide)
    · rw [doSendOpenflow_parked hbuf hzero, hflushed.closed, Bool.or_eq_false_iff] at hopen
      exact ⟨hopen.1, rfl⟩

theorem Transmitter.accepted_send (t : Transmitter) (oh : Bytes) :
    (t.send oh).accepted =
      if (t.sender.doSendOpenflow oh).1 = 0 then t.accepted ++ [oh.take (headerLength oh)]
      else t.accepted := by
  simp only [accepted, send, List.filter_append, List.map_append]
  split
  · next hzero => simp [hzero]
  · next hne => simp [hne]

theorem Transmitter.Sound.send {t : Transmitter} (h : t.Sound) (oh : Bytes) : (t.send oh).Sound := by
  obtain ⟨hsent, hsound⟩ := h.sender.doSendOpenflow h.connected oh
  have herror : (t.sender.doSendOpenflow oh).2.error = t.sender.error := by
    generalize t.sender.doSendOpenflow oh = r at hsent
    cases hsent with
    | queued _ he _ => exact he
    | again _ _ he _ => exact he
    | failed _ _ _ he => exact he
  refine ⟨hsound, herror.trans h.connected, ?_, fun hopen hsome => ?_⟩
  · have hqueued := t.sender.doSendOpenflow_queued oh
    rw [h.queued] at hqueued
    rw [Transmitter.accepted_send]
    exact hqueued
  · simp only [Transmitter.send, Transmitter.Open] at hopen hsome ⊢
    by_cases hzero : (t.sender.doSendOpenflow oh).1 = 0
    · rw [if_pos ⟨hzero, hsome⟩]
      exact fun h => nomatch h
    · rw [if_neg fun hand => hzero hand.1]
      obtain ⟨hopen', hsome'⟩ := t.sender.doSendOpenflow_refused oh hzero hopen
      exact h.armed hopen' hsome'

theorem Transmitter.Sound.txRun {t : Transmitter} (h : t.Sound) : t.txRun.Sound := by
  unfold Transmitter.txRun
  split
  · next buf hbuf =>
    have hflushed := t.sender.sendTxBuf_flushed buf
    refine ⟨h.sender.sendTxBuf hbuf, hflushed.error_eq.trans h.connected,
      hflushed.queued.trans h.queued, fun hopen hsome => ?_⟩
    simp only [Transmitter.Open] at hopen hsome ⊢
    rw [hflushed.closed, Bool.or_eq_false_iff] at hopen
    by_cases hagain : (t.sender.sendTxBuf buf).1 = EAGAIN
    · rw [if_pos hagain]
      exact fun h => nomatch h
    · have hzero : (t.sender.sendTxBuf buf).1 = 0 := by simpa [hagain] using hopen.2
      rw [hflushed.empty hzero] at hsome
      exact nomatch hsome
  · next hbuf => exact ⟨h.sender, h.connected, h.queued, fun _ hsome => by simp [hbuf] at hsome⟩

theorem Transmitter.Sound.meet {t : Transmitter} (h : t.Sound) (sched : List WriteEvent) :
    (t.meet sched).Sound := ⟨h.sender.meet sched, h.connected, h.queued, h.armed⟩

theorem Transmitter.Sound.step {t : Transmitter} (h : t.Sound) (e : TxEvent) : (t.step e).Sound := by
  cases e with
  | send oh sched => exact (h.meet sched).send oh
  | writable =>
    refine ⟨h.sender, h.connected, h.queued, fun hopen hsome => ?_⟩
    simp only [Transmitter.step]
    split
    · exact fun h => nomatch h
    · exact h.armed hopen hsome
  | run sched =>
    show (if t.txFsm = .ready then (t.meet sched).txRun else t).Sound
    split
    · exact (h.meet sched).txRun
    · exact h
  | close => exact ⟨h.sender.close, h.connected, h.queued, fun hopen => nomatch hopen⟩

theorem txRuns_sound (es : List TxEvent) : (txRuns es).Sound := by
  unfold txRuns
  induction es using List.reverseRecOn with
  | nil => exact sound_new
  | append_singleton es e ih =>
    rw [List.foldl_append]
    exact ih.step e

end Invariant

section Framing

/-! ## Framing -/

/-- A write into room for `n + 1` bytes takes so many, if there are. -/
theorem OutStream.writeFully_room {s : OutStream} {n : Nat} {sched : List WriteEvent}
    (hsched : s.sched = .room n :: sched) (hopen : s.closed = false) (buffer : Bytes) :
    s.written ++ buffer.take (n + 1) <+: (s.writeFully buffer).2.2.written := by
  by_cases hne : buffer = []
  · subst hne
    rw [writeFully, if_pos rfl, List.take_nil, List.append_nil]
  · have hlen : 0 < (buffer.take (n + 1)).length := by
      have hpos := List.length_pos_iff.mpr hne
      rw [List.length_take]
      omega
    have hdo : s.doWrite buffer = (((buffer.take (n + 1)).length : Int),
        { s with written := s.written ++ buffer.take (n + 1), sched := sched }) := by
      unfold doWrite
      simp only [hopen, Bool.false_eq_true, if_false, hsched]
    have hwrite : s.write buffer = s.doWrite buffer := by
      rw [write, if_neg]
      rw [hdo, EINTR]
      omega
    have hmore := (writeFully_wroteFully (buffer.drop (buffer.take (n + 1)).length)
      (s.doWrite buffer).2).written
    rw [hdo] at hmore
    rw [writeFully, if_neg hne, hwrite, hdo]
    dsimp only
    rw [if_neg (by omega), Int.toNat_natCast]
    exact ⟨_, hmore.symm⟩

theorem Sender.sendTxBuf_written (s : Sender) (buf : Bytes) :
    (s.sendTxBuf buf).2.stream.written = (s.stream.writeFully buf).2.2.written := by
  unfold sendTxBuf
  dsimp only
  split
  · split <;> rfl
  · split <;> rfl

/-- What holds of a connection: while its stream has not failed the bytes it was given are
a prefix of the messages that were accepted, what is parked comes next, and the task will
write it. -/
structure Transmitter.Framed (t : Transmitter) : Prop where
  written : t.Open → t.written <+: t.accepted.flatten
  parked : t.Open → t.written ++ t.rest = t.accepted.flatten
  armed : t.Open → t.rest ≠ [] → t.txFsm = .ready ∨ t.txFsm = .writeWait
  resumed : t.Open → t.rest ≠ [] → ∀ n sched,
    t.written ++ t.rest.take (n + 1) <+: ((t.step .writable).step (.run (.room n :: sched))).written

/-- The task is run when the stream has room. -/
theorem Transmitter.step_writable_run {t : Transmitter} (hready : t.txFsm ≠ .dormant)
    (sched : List WriteEvent) :
    (t.step .writable).step (.run sched) = ({ t with txFsm := .ready }.meet sched).txRun := by
  obtain ⟨sender, txFsm, log⟩ := t
  cases txFsm with
  | ready => rfl
  | writeWait => rfl
  | dormant => exact absurd rfl hready

theorem Transmitter.Sound.framed {t : Transmitter} (h : t.Sound) : t.Framed := by
  have hparked (hopen : t.Open) : t.written ++ t.rest = t.accepted.flatten :=
    (h.sender.bytes hopen).trans (congrArg List.flatten h.queued)
  have hsome (hrest : t.rest ≠ []) : t.sender.txBuf = some t.rest := by
    unfold Transmitter.rest at hrest ⊢
    cases hbuf : t.sender.txBuf with
    | none => exact absurd (by rw [hbuf]; rfl) hrest
    | some buf => rfl
  have harmed (hopen : t.Open) (hrest : t.rest ≠ []) : t.txFsm ≠ .dormant := by
    exact h.armed hopen (by rw [hsome hrest]; rfl)
  refine ⟨fun hopen => ⟨t.rest, hparked hopen⟩, hparked, fun hopen hrest => ?_,
    fun hopen hrest n sched => ?_⟩
  · cases hfsm : t.txFsm with
    | ready => exact .inl rfl
    | writeWait => exact .inr rfl
    | dormant => exact absurd hfsm (harmed hopen hrest)
  · have hbuf : ({ t with txFsm := TxFsm.ready }.meet (.room n :: sched)).sender.txBuf =
        some t.rest := hsome hrest
    rw [Transmitter.step_writable_run (harmed hopen hrest), Transmitter.txRun, hbuf]
    show _ <+: (Sender.sendTxBuf _ _).2.stream.written
    rw [Sender.sendTxBuf_written]
    have hroom := OutStream.writeFully_room (s := (t.sender.meet (.room n :: sched)).stream) rfl
      hopen t.rest
    exact hroom

/-- After every run the messages that were accepted, and only these, are on the stream or
next to be written. -/
theorem run_framed (es : List TxEvent) : (txRuns es).Framed := (txRuns_sound es).framed

end Framing

end Nox.Openflow
