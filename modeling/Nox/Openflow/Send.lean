import Nox.Openflow.Echo

/-!
# Sending OpenFlow messages over a stream

`do_send_openflow` accepts a message when the one before has been written: it copies it to
`tx_buf` and writes what the stream takes at once, and `tx_run` writes the rest when the
stream can be written to again.  While an earlier message is half written the send fails with
`EAGAIN`, and the message is not queued (`Sender.Sent`).
-/

namespace Nox.Openflow

section Stream

/-! ## The stream -/

/-- What one `do_write` of the stream meets: room for `n + 1` bytes, or a failure. -/
inductive WriteEvent
  | room (n : Nat)
  | error (e : Errno)

/-- The sending side of a non-blocking stream: what was written, and how the coming writes
will go.  Writes beyond the schedule find no room. -/
structure OutStream where
  written : Bytes
  sched : List WriteEvent
  closed : Bool

def OutStream.close (s : OutStream) : OutStream := { s with closed := true }

/-- `do_write` -/
def OutStream.doWrite (buffer : Bytes) (s : OutStream) : Int × OutStream :=
  if s.closed then (-EBADF, s)
  else
    match s.sched with
    | [] => (-EAGAIN, s)
    | .room n :: sched =>
      ((buffer.take (n + 1)).length,
        { s with written := s.written ++ buffer.take (n + 1), sched := sched })
    | .error e :: sched => (-e.code, { s with sched := sched })

theorem OutStream.doWrite_sched_lt {buffer : Bytes} {s : OutStream}
    (h : (s.doWrite buffer).1 = -EINTR) :
    (s.doWrite buffer).2.sched.length < s.sched.length := by
  unfold doWrite at h ⊢
  split at h
  · simp [EBADF, EINTR] at h
  · next hc =>
    rw [if_neg hc]
    split at h
    · simp [EAGAIN, EINTR] at h
    · next n sched hs => simp [hs]
    · next e sched hs => simp [hs]

/-- `Async_stream::write` without blocking: retries what a signal interrupted. -/
def OutStream.write (buffer : Bytes) (s : OutStream) : Int × OutStream :=
  if (s.doWrite buffer).1 = -EINTR then OutStream.write buffer (s.doWrite buffer).2
  else s.doWrite buffer
termination_by s.sched.length
decreasing_by exact doWrite_sched_lt ‹_›

/-- `Async_stream::write_fully`: the error and the number of bytes written. -/
def OutStream.writeFully (buffer : Bytes) (s : OutStream) : Int × Nat × OutStream :=
  if buffer = [] then (0, 0, s)
  else
    let (n, s') := s.write buffer
    if n ≤ 0 then (-n, 0, s')
    else
      let (error, written, s'') := s'.writeFully (buffer.drop n.toNat)
      (error, n.toNat + written, s'')
termination_by buffer.length
decreasing_by
  have hpos := List.length_pos_iff.mpr ‹buffer ≠ []›
  rw [List.length_drop]
  omega

end Stream

section Sender

/-! ## The connection -/

/-- The sending half of an `Openflow_stream_connection` that has been connected: `error` is
set in `S_DISCONNECTED`, and `queued` has the messages that were queued for transmission. -/
structure Sender where
  stream : OutStream
  error : Option Int
  txBuf : Option Bytes
  queued : List Bytes

def Sender.init : Sender := ⟨⟨[], [], false⟩, none, none, []⟩

/-- The stream is closed, or the connection is in `S_DISCONNECTED`. -/
def Sender.Failed (s : Sender) : Prop := s.stream.closed = true ∨ s.error.isSome

instance (s : Sender) : Decidable s.Failed :=
  inferInstanceAs (Decidable (s.stream.closed = true ∨ s.error.isSome))

/-- `close` -/
def Sender.close (s : Sender) : Sender := { s with stream := s.stream.close }

/-- The coming writes go like this. -/
def Sender.meet (s : Sender) (sched : List WriteEvent) : Sender :=
  { s with stream := { s.stream with sched := sched } }

/-- `send_tx_buf`, where `tx_buf` has these bytes. -/
def Sender.sendTxBuf (s : Sender) (buf : Bytes) : Int × Sender :=
  let (error, bytesWritten, stream) := s.stream.writeFully buf
  let rest := buf.drop bytesWritten
  let s := { s with stream := stream, txBuf := some rest }
  if error ≠ 0 then (error, if error ≠ EAGAIN then s.close else s)
  else if rest = [] then (0, { s with txBuf := none })
  else (EAGAIN, s)

/-- `do_send_openflow` writes the rest of an earlier message. -/
def Sender.sendRest (s : Sender) : Int × Sender :=
  match s.txBuf with
  | some buf => s.sendTxBuf buf
  | none => (0, s)

/-- Then it copies the message to `tx_buf`; `tx_fsm.wake` lets `tx_run` run later. -/
def Sender.sendCopy (s : Sender) (oh : Bytes) : Int × Sender :=
  let copy := oh.take (headerLength oh)
  let (error, s) := s.sendTxBuf copy
  if error = EAGAIN ∨ error = 0 then (0, { s with queued := s.queued ++ [copy] })
  else (error, s)

/-- `do_send_openflow` -/
def Sender.doSendOpenflow (s : Sender) (oh : Bytes) : Int × Sender :=
  let (error, s) := s.sendRest
  if error ≠ 0 then (error, s) else s.sendCopy oh

/-- `send_openflow` without blocking.  It tries again after `EINTR`, but the streams do
that themselves (`sendOpenflow_ne_EINTR`). -/
def Sender.sendOpenflow (s : Sender) (oh : Bytes) : Int × Sender :=
  match s.error with
  | some error => (error, s)
  | none => s.doSendOpenflow oh

/-- `tx_run` -/
def Sender.txRun (s : Sender) : Sender :=
  match s.txBuf with
  | some buf => (s.sendTxBuf buf).2
  | none => s

/-- The end of a connection in `S_DISCONNECTED`. -/
def Sender.disconnect (s : Sender) (error : Int) : Sender := { s.close with error := some error }

/-- `run` sends an inactivity probe. -/
def Sender.probe (s : Sender) : Sender :=
  if s.error.isSome then s
  else
    let (retval, s) := s.sendOpenflow (Echo.pack OFPT_ECHO_REQUEST ⟨0, [], by decide⟩)
    if retval = 0 ∨ retval = EAGAIN then s else s.disconnect retval

/-- `run` gets no response to it. -/
def Sender.expire (s : Sender) : Sender := if s.error.isSome then s else s.disconnect EPROTO

end Sender

section Writing

/-! ## What is written -/

/-- The stream has no room for so many bytes at present, and has not failed before. -/
def Blocks (need : Nat) : List WriteEvent → Prop
  | [] => 0 < need
  | .room n :: sched => Blocks (need - (n + 1)) sched
  | .error e :: sched => if e.code = EINTR then Blocks need sched else 0 < need ∧ e.code = EAGAIN

theorem not_blocks_zero (sched : List WriteEvent) : ¬Blocks 0 sched := by
  induction sched with
  | nil => exact Nat.lt_irrefl 0
  | cons w sched ih =>
    cases w with
    | room n =>
      rw [Blocks, Nat.zero_sub]
      exact ih
    | error e =>
      rw [Blocks]
      split
      · exact ih
      · exact fun h => Nat.lt_irrefl 0 h.1

instance decidableBlocks (need : Nat) : (sched : List WriteEvent) → Decidable (Blocks need sched)
  | [] => inferInstanceAs (Decidable (0 < need))
  | .room n :: sched => decidableBlocks (need - (n + 1)) sched
  | .error e :: sched =>
    have := decidableBlocks need sched
    inferInstanceAs (Decidable (if e.code = EINTR then Blocks need sched
      else 0 < need ∧ e.code = EAGAIN))

/-- What a write of some bytes comes to. -/
inductive OutStream.Wrote (buffer : Bytes) (s : OutStream) : Int × OutStream → Prop
  | bytes {n : Nat} {s' : OutStream} : 0 < n → n ≤ buffer.length →
    s'.written = s.written ++ buffer.take n → s'.closed = s.closed → s.closed = false →
    (Blocks buffer.length s.sched ↔ Blocks (buffer.length - n) s'.sched) →
    Wrote buffer s (n, s')
  | failed {e : Int} {s' : OutStream} : 0 < e → e ≠ EINTR → s'.written = s.written →
    s'.closed = s.closed → (e = EAGAIN ↔ s.closed = false ∧ Blocks buffer.length s.sched) →
    Wrote buffer s (-e, s')

theorem OutStream.write_wrote {buffer : Bytes} (hne : buffer ≠ []) (s : OutStream) :
    s.Wrote buffer (s.write buffer) := by
  have hpos := List.length_pos_iff.mpr hne
  obtain ⟨written, sched, closed⟩ := s
  induction sched with
  | nil =>
    rw [write]
    cases closed with
    | true => exact .failed (e := EBADF) (by decide) (by decide) rfl rfl (by simp [EBADF, EAGAIN])
    | false => exact .failed (e := EAGAIN) (by decide) (by decide) rfl rfl (by simp [Blocks, hpos])
  | cons w sched ih =>
    rw [write]
    cases closed with
    | true => exact .failed (e := EBADF) (by decide) (by decide) rfl rfl (by simp [EBADF, EAGAIN])
    | false =>
      cases w with
      | room n =>
        have hlen : (buffer.take (n + 1)).length = min (n + 1) buffer.length := List.length_take
        have hnonneg : ((buffer.take (n + 1)).length : Int) ≠ -EINTR := by
          simp only [EINTR]
          omega
        simp only [doWrite, Bool.false_eq_true, if_false, hnonneg]
        refine .bytes (by omega) (by omega) ?_ rfl rfl ?_
        · rw [hlen, ← List.take_eq_take_min]
        · rw [Blocks, hlen, show buffer.length - (n + 1) =
            buffer.length - min (n + 1) buffer.length by omega]
      | error e =>
        have hdo : doWrite buffer ⟨written, .error e :: sched, false⟩ =
            (-e.code, ⟨written, sched, false⟩) := rfl
        rw [hdo]
        by_cases heintr : e.code = EINTR
        · rw [if_pos (congrArg Neg.neg heintr)]
          have hblocks : Blocks buffer.length (.error e :: sched) ↔ Blocks buffer.length sched := by
            rw [Blocks, if_pos heintr]
          generalize write buffer ⟨written, sched, false⟩ = r at ih
          cases ih with
          | bytes hn hle hwritten hclosed hopen hmore =>
            exact .bytes hn hle hwritten hclosed hopen (hblocks.trans hmore)
          | failed he hne' hwritten hclosed hagain =>
            exact .failed he hne' hwritten hclosed (hagain.trans (and_congr_right' hblocks.symm))
        · rw [if_neg fun heq => heintr (neg_injective heq)]
          exact .failed e.pos heintr rfl rfl (by simp [Blocks, heintr, hpos])

/-- What `write_fully` comes to: the error, the number of bytes written, and the stream. -/
structure OutStream.WroteFully (buffer : Bytes) (s : OutStream) (error : Int) (n : Nat)
    (s' : OutStream) : Prop where
  le : n ≤ buffer.length
  written : s'.written = s.written ++ buffer.take n
  closed : s'.closed = s.closed
  all : error = 0 → n = buffer.length
  ne_EINTR : error ≠ EINTR
  blocks : error = EAGAIN ↔ s.closed = false ∧ Blocks buffer.length s.sched

theorem OutStream.writeFully_wroteFully (buffer : Bytes) (s : OutStream) :
    s.WroteFully buffer (s.writeFully buffer).1 (s.writeFully buffer).2.1
      (s.writeFully buffer).2.2 := by
  induction buffer, s using writeFully.induct with
  | case1 s =>
    rw [writeFully, if_pos rfl]
    refine ⟨Nat.le_refl _, (List.append_nil _).symm, rfl, fun _ => rfl, ?_, ?_⟩
    · exact fun h => nomatch h
    · exact iff_of_false (fun h => nomatch h) fun h => not_blocks_zero _ h.2
  | case2 buffer s hne n s' hwrite hn =>
    have hwrote := write_wrote hne s
    rw [hwrite] at hwrote
    have heq : s.writeFully buffer = (-n, 0, s') := by
      rw [writeFully, if_neg hne, hwrite]
      exact if_pos hn
    rw [heq]
    cases hwrote with
    | bytes hpos => omega
    | @failed e _ hpos hintr hwritten hclosed hagain =>
      rw [neg_neg]
      refine ⟨Nat.zero_le _, ?_, hclosed, fun h => ?_, hintr, hagain⟩
      · rw [hwritten]
        exact (List.append_nil _).symm
      · exact absurd h (Int.ne_of_gt hpos)
  | case3 buffer s hne n s' hwrite hn _ _ _ _ ih =>
    have hwrote := write_wrote hne s
    rw [hwrite] at hwrote
    cases hwrote with
    | failed hpos => omega
    | @bytes n _ hpos hle hwritten hclosed hopen hblocks =>
      have heq : s.writeFully buffer = ((s'.writeFully (buffer.drop n)).1,
          n + (s'.writeFully (buffer.drop n)).2.1, (s'.writeFully (buffer.drop n)).2.2) := by
        rw [writeFully, if_neg hne, hwrite]
        exact if_neg hn
      rw [heq]
      rw [Int.toNat_natCast] at ih
      have hlen : (buffer.drop n).length = buffer.length - n := List.length_drop
      refine ⟨?_, ?_, ih.closed.trans hclosed, fun h => ?_, ih.ne_EINTR, ?_⟩
      · have hle' := ih.le
        dsimp only
        omega
      · rw [ih.written, hwritten, List.append_assoc, List.take_add]
      · have hall := ih.all h
        dsimp only
        omega
      · rw [ih.blocks, hblocks, hlen, hclosed]

end Writing

section Sending

/-! ## What is sent -/

/-- While its stream is open a connection has the bytes of the messages that were queued,
written or in `tx_buf`. -/
structure Sender.Sound (s : Sender) : Prop where
  bytes : s.stream.closed = false → s.stream.written ++ s.txBuf.getD [] = s.queued.flatten
  ne_EINTR : s.error ≠ some EINTR

theorem sound_init : Sender.init.Sound := ⟨fun _ => rfl, fun h => (nomatch h)⟩

theorem Sender.Sound.meet {s : Sender} (h : s.Sound) (sched : List WriteEvent) :
    (s.meet sched).Sound := ⟨h.bytes, h.ne_EINTR⟩

theorem Sender.Sound.close {s : Sender} (h : s.Sound) : s.close.Sound :=
  ⟨fun hclosed => (nomatch hclosed), h.ne_EINTR⟩

/-- What `send_tx_buf` comes to. -/
structure Sender.Flushed (s : Sender) (buf : Bytes) (error : Int) (s' : Sender) : Prop where
  bytes : s'.stream.written ++ s'.txBuf.getD [] = s.stream.written ++ buf
  queued : s'.queued = s.queued
  error_eq : s'.error = s.error
  empty : error = 0 → s'.txBuf = none
  closed : s'.stream.closed = (s.stream.closed || (error ≠ 0 && error ≠ EAGAIN))
  ne_EINTR : error ≠ EINTR
  blocks : error = EAGAIN ↔ s.stream.closed = false ∧ Blocks buf.length s.stream.sched

theorem Sender.sendTxBuf_flushed (s : Sender) (buf : Bytes) :
    s.Flushed buf (s.sendTxBuf buf).1 (s.sendTxBuf buf).2 := by
  have h := s.stream.writeFully_wroteFully buf
  unfold sendTxBuf
  generalize s.stream.writeFully buf = r at h ⊢
  obtain ⟨error, n, stream⟩ := r
  dsimp only at h
  have hbytes : stream.written ++ buf.drop n = s.stream.written ++ buf := by
    rw [h.written, List.append_assoc, List.take_append_drop]
  dsimp only
  by_cases hzero : error = 0
  · subst hzero
    have hrest : buf.drop n = [] := by
      rw [h.all rfl, List.drop_length]
    rw [if_neg fun hne => hne rfl, if_pos hrest]
    refine ⟨?_, rfl, rfl, fun _ => rfl, ?_, h.ne_EINTR, h.blocks⟩
    · rw [← hbytes, hrest]
      rfl
    · simpa using h.closed
  · rw [if_pos hzero]
    by_cases hagain : error = EAGAIN
    · rw [if_neg fun hne => hne hagain]
      refine ⟨hbytes, rfl, rfl, fun h => absurd h hzero, ?_, h.ne_EINTR, h.blocks⟩
      simp [hagain, h.closed]
    · rw [if_pos hagain]
      refine ⟨hbytes, rfl, rfl, fun h => absurd h hzero, ?_, h.ne_EINTR, h.blocks⟩
      simp [hagain, hzero, Sender.close, OutStream.close]

/-- An earlier message is half written, and the stream has no room for the rest of it. -/
def Sender.Clogged (s : Sender) : Prop :=
  ¬s.Failed ∧ ∃ buf ∈ s.txBuf, Blocks buf.length s.stream.sched

instance (s : Sender) : Decidable s.Clogged :=
  inferInstanceAs (Decidable (¬s.Failed ∧ ∃ buf ∈ s.txBuf, Blocks buf.length s.stream.sched))

/-- What `send_openflow` comes to: the message is queued, it is lost, or the connection has
failed. -/
inductive Sender.Sent (s : Sender) (oh : Bytes) : Int × Sender → Prop
  | queued {s' : Sender} : s'.queued = s.queued ++ [oh.take (headerLength oh)] →
    s'.error = s.error → s'.stream.closed = s.stream.closed → Sent s oh (0, s')
  | again {s' : Sender} : s.Clogged → s'.queued = s.queued → s'.error = s.error →
    s'.stream.closed = s.stream.closed → Sent s oh (EAGAIN, s')
  | failed {error : Int} {s' : Sender} : error ≠ EINTR → s'.Failed → s'.queued = s.queued →
    s'.error = s.error → Sent s oh (error, s')

/-- Nothing is in `tx_buf`. -/
theorem Sender.Sound.sendCopy {s : Sender} (h : s.Sound) (hempty : s.txBuf = none)
    (oh : Bytes) : s.Sent oh (s.sendCopy oh) ∧ (s.sendCopy oh).2.Sound := by
  have hflushed := s.sendTxBuf_flushed (oh.take (headerLength oh))
  unfold Sender.sendCopy
  dsimp only
  generalize s.sendTxBuf (oh.take (headerLength oh)) = r at hflushed ⊢
  obtain ⟨error, s'⟩ := r
  dsimp only at hflushed ⊢
  have hne : s'.error ≠ some EINTR := hflushed.error_eq ▸ h.ne_EINTR
  split
  · next hor =>
    have hclosed : s'.stream.closed = s.stream.closed := by
      rw [hflushed.closed]
      rcases hor with rfl | rfl <;> simp
    refine ⟨.queued (by rw [hflushed.queued]) hflushed.error_eq hclosed, fun hopen => ?_, hne⟩
    have hbytes := h.bytes (hclosed.symm.trans hopen)
    rw [hempty, Option.getD_none, List.append_nil] at hbytes
    dsimp only
    rw [hflushed.bytes, hbytes, hflushed.queued, List.flatten_append, List.flatten_singleton]
  · next hnor =>
    have hfailed : s'.stream.closed = true := by
      rw [hflushed.closed]
      simp [not_or.mp hnor]
    exact ⟨.failed hflushed.ne_EINTR (.inl hfailed) hflushed.queued hflushed.error_eq,
      fun hopen => Bool.noConfusion (hfailed.symm.trans hopen), hne⟩

/-- Writing more of `tx_buf` keeps the bytes. -/
theorem Sender.Sound.sendTxBuf {s : Sender} {buf : Bytes} (h : s.Sound)
    (hbuf : s.txBuf = some buf) : (s.sendTxBuf buf).2.Sound := by
  have hflushed := s.sendTxBuf_flushed buf
  refine ⟨fun hopen => ?_, hflushed.error_eq ▸ h.ne_EINTR⟩
  rw [hflushed.closed, Bool.or_eq_false_iff] at hopen
  have hbytes := h.bytes hopen.1
  rw [hbuf] at hbytes
  exact hflushed.bytes.trans (hbytes.trans (congrArg List.flatten hflushed.queued.symm))

/-- The rest of the earlier message has been written. -/
theorem Sender.Sent.of_empty {s s₁ : Sender} {oh : Bytes} {r : Int × Sender}
    (h : s₁.Sent oh r) (hempty : s₁.txBuf = none) (hqueued : s₁.queued = s.queued)
    (herror : s₁.error = s.error) (hclosed : s₁.stream.closed = s.stream.closed) :
    s.Sent oh r := by
  cases h with
  | queued hq he hc => exact .queued (hqueued ▸ hq) (he.trans herror) (hc.trans hclosed)
  | again hclogged _ _ _ =>
    obtain ⟨-, buf, hbuf, -⟩ := hclogged
    cases hempty.symm.trans hbuf
  | failed hne hf hq he => exact .failed hne hf (hq.trans hqueued) (he.trans herror)

theorem Sender.Sound.doSendOpenflow {s : Sender} (h : s.Sound) (hconn : s.error = none)
    (oh : Bytes) : s.Sent oh (s.doSendOpenflow oh) ∧ (s.doSendOpenflow oh).2.Sound := by
  unfold Sender.doSendOpenflow Sender.sendRest
  cases hbuf : s.txBuf with
  | none => exact h.sendCopy hbuf oh
  | some buf =>
    have hflushed := s.sendTxBuf_flushed buf
    have hsound := h.sendTxBuf hbuf
    dsimp only
    generalize s.sendTxBuf buf = r at hflushed hsound ⊢
    obtain ⟨error, s₁⟩ := r
    dsimp only at hflushed hsound ⊢
    by_cases hzero : error = 0
    · subst hzero
      obtain ⟨hsent, hsound'⟩ := hsound.sendCopy (hflushed.empty rfl) oh
      have hclosed : s₁.stream.closed = s.stream.closed := by simp [hflushed.closed]
      rw [if_neg fun hne => hne rfl]
      exact ⟨hsent.of_empty (hflushed.empty rfl) hflushed.queued hflushed.error_eq hclosed, hsound'⟩
    · rw [if_pos hzero]
      refine ⟨?_, hsound⟩
      by_cases hagain : error = EAGAIN
      · subst hagain
        obtain ⟨hopen, hblocks⟩ := hflushed.blocks.mp rfl
        have hup : ¬s.Failed := by simp [Sender.Failed, hopen, hconn]
        exact .again ⟨hup, buf, hbuf, hblocks⟩ hflushed.queued hflushed.error_eq
          (by simp [hflushed.closed])
      · exact .failed hflushed.ne_EINTR (.inl (by simp [hflushed.closed, hzero, hagain]))
          hflushed.queued hflushed.error_eq

theorem Sender.Sound.sendOpenflow {s : Sender} (h : s.Sound) (oh : Bytes) :
    s.Sent oh (s.sendOpenflow oh) ∧ (s.sendOpenflow oh).2.Sound := by
  unfold Sender.sendOpenflow
  split
  · next error herror =>
    have hne : error ≠ EINTR := fun heq => h.ne_EINTR (heq ▸ herror)
    exact ⟨.failed hne (.inr (Option.isSome_of_eq_some herror)) rfl rfl, h⟩
  · next hconn => exact h.doSendOpenflow hconn oh

/-- No round of `send_openflow` is interrupted. -/
theorem sendOpenflow_ne_EINTR {s : Sender} (h : s.Sound) (oh : Bytes) :
    (s.sendOpenflow oh).1 ≠ EINTR := by
  have hsent := (h.sendOpenflow oh).1
  generalize s.sendOpenflow oh = r at hsent
  cases hsent with
  | queued _ _ _ => exact fun h => nomatch h
  | again _ _ _ _ => exact fun h => nomatch h
  | failed hne _ _ _ => exact hne

end Sending

section Replies

/-! ## Echo replies -/

/-- The echo replies among the messages that were queued. -/
def Sender.replies (s : Sender) : List Echo := s.queued.filterMap (Echo.unpack OFPT_ECHO_REPLY)

/-- The connection goes on without another echo reply. -/
structure Sender.Quiet (s s' : Sender) : Prop where
  sound : s'.Sound
  failed : s.Failed → s'.Failed
  replies : s'.replies = s.replies

theorem Sender.Sent.failed_mono {s : Sender} {oh : Bytes} {r : Int × Sender} (h : s.Sent oh r)
    (hfailed : s.Failed) : r.2.Failed := by
  cases h with
  | queued _ herror hclosed =>
    rw [Sender.Failed, herror, hclosed]
    exact hfailed
  | again _ _ herror hclosed =>
    rw [Sender.Failed, herror, hclosed]
    exact hfailed
  | failed _ hfailed' _ _ => exact hfailed'

/-- A message that is no echo reply is sent. -/
theorem Sender.Sound.quiet_sendOpenflow {s : Sender} (h : s.Sound) {oh : Bytes}
    (hother : Echo.unpack OFPT_ECHO_REPLY (oh.take (headerLength oh)) = none) :
    s.Quiet (s.sendOpenflow oh).2 := by
  obtain ⟨hsent, hsound⟩ := h.sendOpenflow oh
  refine ⟨hsound, hsent.failed_mono, ?_⟩
  generalize s.sendOpenflow oh = r at hsent
  cases hsent with
  | queued hqueued _ _ => simp [Sender.replies, hqueued, hother]
  | again _ hqueued _ _ => rw [Sender.replies, hqueued, Sender.replies]
  | failed _ _ hqueued _ => rw [Sender.replies, hqueued, Sender.replies]

/-- An echo reply is queued, lost, or the connection fails. -/
theorem Sender.Sound.sendEchoReply {s : Sender} (h : s.Sound) (e : Echo) :
    (s.sendOpenflow (e.pack OFPT_ECHO_REPLY)).2.replies = s.replies ++ [e] ∨
      (s.Clogged ∨ (s.sendOpenflow (e.pack OFPT_ECHO_REPLY)).2.Failed) ∧
        (s.sendOpenflow (e.pack OFPT_ECHO_REPLY)).2.replies = s.replies := by
  have hsent := (h.sendOpenflow (e.pack OFPT_ECHO_REPLY)).1
  have htake : (e.pack OFPT_ECHO_REPLY).take (headerLength (e.pack OFPT_ECHO_REPLY)) =
      e.pack OFPT_ECHO_REPLY := by
    rw [headerLength_pack, List.take_length]
  generalize s.sendOpenflow (e.pack OFPT_ECHO_REPLY) = r at hsent ⊢
  cases hsent with
  | queued hqueued _ _ =>
    rw [htake] at hqueued
    left
    rw [Sender.replies, hqueued, List.filterMap_append]
    simp [unpack_pack, Sender.replies]
  | again hclogged hqueued _ _ =>
    exact .inr ⟨.inl hclogged, congrArg (List.filterMap _) hqueued⟩
  | failed _ hfailed hqueued _ =>
    exact .inr ⟨.inr hfailed, congrArg (List.filterMap _) hqueued⟩

theorem Sender.Quiet.of_meet {s s' : Sender} {sched : List WriteEvent}
    (h : (s.meet sched).Quiet s') : s.Quiet s' :=
  ⟨h.sound, h.failed, h.replies⟩

theorem Sender.Sound.quiet {s : Sender} (h : s.Sound) : s.Quiet s := ⟨h, id, rfl⟩

theorem Sender.Sound.quiet_txRun {s : Sender} (h : s.Sound) : s.Quiet s.txRun := by
  unfold Sender.txRun
  split
  · next buf hbuf =>
    have hflushed := s.sendTxBuf_flushed buf
    refine ⟨h.sendTxBuf hbuf, fun hfailed => ?_, congrArg (List.filterMap _) hflushed.queued⟩
    rw [Sender.Failed, hflushed.closed, hflushed.error_eq]
    rcases hfailed with hclosed | herror
    · exact .inl (by rw [hclosed, Bool.true_or])
    · exact .inr herror
  · exact h.quiet

theorem Sender.Sound.quiet_disconnect {s : Sender} (h : s.Sound) {error : Int}
    (hne : error ≠ EINTR) : s.Quiet (s.disconnect error) :=
  ⟨⟨h.close.bytes, fun heq => hne (Option.some.inj heq)⟩, fun _ => .inl rfl, rfl⟩

theorem Sender.Quiet.trans {s s₁ s₂ : Sender} (h : s.Quiet s₁) (h' : s₁.Quiet s₂) : s.Quiet s₂ :=
  ⟨h'.sound, fun hfailed => h'.failed (h.failed hfailed), h'.replies.trans h.replies⟩

theorem Sender.Sound.quiet_close {s : Sender} (h : s.Sound) : s.Quiet s.close :=
  ⟨h.close, fun _ => .inl rfl, rfl⟩

theorem Sender.Sound.quiet_probe {s : Sender} (h : s.Sound) : s.Quiet s.probe := by
  have hsend : s.Quiet (s.sendOpenflow (Echo.pack OFPT_ECHO_REQUEST ⟨0, [], by decide⟩)).2 :=
    h.quiet_sendOpenflow (by decide)
  unfold Sender.probe
  split
  · exact h.quiet
  · dsimp only
    split
    · exact hsend
    · exact hsend.trans (hsend.sound.quiet_disconnect (sendOpenflow_ne_EINTR h _))

theorem Sender.Sound.quiet_expire {s : Sender} (h : s.Sound) : s.Quiet s.expire := by
  unfold Sender.expire
  split
  · exact h.quiet
  · exact h.quiet_disconnect fun heq => nomatch heq

end Replies

end Nox.Openflow
