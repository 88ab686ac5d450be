import Nox.Lib.Bytes
import Nox.Lib.Framing

/-!
# Receiving OpenFlow messages from a stream

`Openflow_stream_connection` cuts the bytes of an asynchronous stream into
OpenFlow messages.  `do_recv_openflow` reads the header and the body of a
message in two stages, each of which may stop short and be resumed by a later
call; `rx_bytes`, `rx_header` and `rx_buf` remember how far it got.
-/

namespace Nox.Openflow

open Framing

section Stream

/-! ## The stream -/

def EINTR : Int := 4
def EBADF : Int := 9
def EAGAIN : Int := 11
def EPROTO : Int := 71
def EOF : Int := -1

theorem EAGAIN_ne_zero : EAGAIN ≠ 0 := by decide

/-- The value of `errno` after a call that failed. -/
structure Errno where
  code : Int
  pos : 0 < code

/-- What one `do_read` of the stream meets: some bytes (at most `n + 1` of those
still to come, none at the end of the file), or a failure. -/
inductive ReadEvent
  | ready (n : Nat)
  | error (e : Errno)

/-- A non-blocking stream: the bytes that are still to be read, and how the
coming reads will go.  Reads beyond the schedule find nothing. -/
structure Stream where
  bytes : Bytes
  sched : List ReadEvent
  closed : Bool

def Stream.close (s : Stream) : Stream := { s with closed := true }

/-- `do_read`: the return value, the bytes put into the buffer of size `size`. -/
def Stream.doRead (size : Nat) (s : Stream) : Int × Bytes × Stream :=
  if s.closed then (-EBADF, [], s)
  else
    match s.sched with
    | [] => (-EAGAIN, [], s)
    | .ready n :: sched =>
      let got := s.bytes.take (min size (n + 1))
      (got.length, got, { s with bytes := s.bytes.drop (min size (n + 1)), sched := sched })
    | .error e :: sched => (-e.code, [], { s with sched := sched })

theorem Stream.doRead_sched_lt {size : Nat} {s : Stream}
    (h : (s.doRead size).1 = -EINTR) : (s.doRead size).2.2.sched.length < s.sched.length := by
  unfold doRead at h ⊢
  split at h
  · simp [EBADF, EINTR] at h
  · next hc =>
    rw [if_neg hc]
    split at h
    · simp [EAGAIN, EINTR] at h
    · next n sched hs => simp [hs]
    · next e sched hs => simp [hs]

/-- `Async_stream::read` without blocking: retries what a signal interrupted. -/
def Stream.read (size : Nat) (s : Stream) : Int × Bytes × Stream :=
  if (s.doRead size).1 = -EINTR then Stream.read size (s.doRead size).2.2
  else s.doRead size
termination_by s.sched.length
decreasing_by exact doRead_sched_lt ‹_›

end Stream

section Connection

/-! ## The connection -/

/-- `ntohs(rx_header.length)`. -/
def headerLength (h : Bytes) : Nat := hton 2 (leNat ((h.drop 2).take 2))

/-- `size_t` subtraction. -/
def sizeSub (a b : Nat) : Nat := (a + (2 ^ 64 - b % 2 ^ 64)) % 2 ^ 64

/-- The bytes of `dst` with `src` copied to the offset `off`. -/
def memcpy (dst : Bytes) (off : Nat) (src : Bytes) : Bytes :=
  dst.take off ++ src ++ dst.drop (off + src.length)

/-- The receiving half of an `Openflow_stream_connection`. -/
structure Conn where
  stream : Stream
  rxBytes : Nat
  rxHeader : Bytes
  rxBuf : Bytes

/-- `do_read`: the error, and the bytes read behind the pointer. -/
def Conn.doRead (c : Conn) (needBytes : Nat) : Int × Bytes × Conn :=
  let (n, got, stream) := c.stream.read needBytes
  if 0 < n then
    (if n < needBytes then EAGAIN else 0, got,
      { c with stream := stream, rxBytes := c.rxBytes + n.toNat })
  else if n = -EAGAIN then
    (EAGAIN, [], { c with stream := stream })
  else
    let c := { c with stream := stream.close }
    if n = 0 then (if c.rxBytes = 0 then EOF else EPROTO, [], c)
    else (-n, [], c)

variable (junk : Nat → UInt8)

/-- The first stage: complete the header and allocate the message.  `junk` is
what fresh memory holds. -/
def Conn.recvHeader (c : Conn) : Int × Conn :=
  let (error, got, c') := c.doRead (8 - c.rxBytes)
  let c' := { c' with rxHeader := memcpy c.rxHeader c.rxBytes got }
  if error ≠ 0 then (error, c')
  else
    let length := headerLength c'.rxHeader
    if length < 8 then (EPROTO, { c' with stream := c'.stream.close })
    else (0, { c' with rxBuf := memcpy ((List.range length).map junk) 0 c'.rxHeader })

/-- The second stage: complete the message and hand it over. -/
def Conn.recvBody (c : Conn) : Except Int Bytes × Conn :=
  let needBytes := sizeSub (headerLength c.rxHeader) c.rxBytes
  let (error, c) :=
    if needBytes ≠ 0 then
      let (error, got, c') := c.doRead needBytes
      (error, { c' with rxBuf := memcpy c.rxBuf c.rxBytes got })
    else (0, c)
  if error ≠ 0 then (.error error, c)
  else (.ok c.rxBuf, { c with rxBytes := 0, rxBuf := [] })

/-- `do_recv_openflow`: a message or the error. -/
def Conn.doRecvOpenflow (c : Conn) : Except Int Bytes × Conn :=
  let (error, c) := if c.rxBytes < 8 then c.recvHeader junk else (0, c)
  if error ≠ 0 then (.error error, c) else c.recvBody

end Connection

section Reads

/-! ## What a read can do -/

/-- The number of reads that find bytes or the end of the file. -/
def readies (sched : List ReadEvent) : Nat :=
  sched.countP fun
    | .ready _ => true
    | .error _ => false

/-- Going from one schedule to another, with at most `k` useful reads. -/
structure Consumed (before after : List ReadEvent) (k : Nat) : Prop where
  suffix : after <:+ before
  shorter : before ≠ [] → after.length < before.length
  readies_le : readies before ≤ readies after + k

theorem Consumed.trans {a b c : List ReadEvent} {k l : Nat} (h : Consumed a b k)
    (h' : Consumed b c l) : Consumed a c (k + l) := by
  refine ⟨h'.suffix.trans h.suffix, fun hne => ?_, ?_⟩
  · exact Nat.lt_of_le_of_lt h'.suffix.length_le (h.shorter hne)
  · have h1 := h.readies_le
    have h2 := h'.readies_le
    omega

theorem Consumed.mono {a b : List ReadEvent} {k l : Nat} (h : Consumed a b k) (hkl : k ≤ l) :
    Consumed a b l :=
  ⟨h.suffix, h.shorter, Nat.le_trans h.readies_le (by omega)⟩

theorem consumed_nil : Consumed [] [] 0 :=
  ⟨List.suffix_rfl, fun h => absurd rfl h, Nat.le_refl _⟩

theorem consumed_ready (n : Nat) (sched : List ReadEvent) :
    Consumed (.ready n :: sched) sched 1 :=
  ⟨List.suffix_cons _ _, fun _ => by simp, by simp [readies]⟩

theorem consumed_error (e : Errno) (sched : List ReadEvent) :
    Consumed (.error e :: sched) sched 0 :=
  ⟨List.suffix_cons _ _, fun _ => by simp, by simp [readies]⟩

/-- The outcomes of a read of at most `size` bytes from an open stream. -/
inductive Stream.Reads (size : Nat) (s : Stream) : Int × Bytes × Stream → Prop
  | data {got rest : Bytes} {sched : List ReadEvent} (hne : got ≠ []) (hle : got.length ≤ size)
      (hbytes : s.bytes = got ++ rest) (hsched : Consumed s.sched sched 1) :
      Reads size s (got.length, got, ⟨rest, sched, false⟩)
  | eof {sched : List ReadEvent} (hbytes : s.bytes = []) (hsched : Consumed s.sched sched 1) :
      Reads size s (0, [], ⟨[], sched, false⟩)
  | again {sched : List ReadEvent} (hsched : Consumed s.sched sched 0) :
      Reads size s (-EAGAIN, [], ⟨s.bytes, sched, false⟩)
  | failed {e : Errno} {sched : List ReadEvent} (hmem : .error e ∈ s.sched)
      (hagain : e.code ≠ EAGAIN) (hintr : e.code ≠ EINTR) :
      Reads size s (-e.code, [], ⟨s.bytes, sched, false⟩)

/-- A read goes like its last attempt. -/
theorem Stream.Reads.of_consumed {size : Nat} {bytes : Bytes} {sched sched' : List ReadEvent}
    {out : Int × Bytes × Stream} (hs : Consumed sched sched' 0)
    (h : Reads size ⟨bytes, sched', false⟩ out) : Reads size ⟨bytes, sched, false⟩ out := by
  cases h with
  | data hne hle hbytes hsched =>
    exact .data hne hle hbytes ((hs.trans hsched).mono (by omega))
  | eof hbytes hsched => exact .eof hbytes ((hs.trans hsched).mono (by omega))
  | again hsched => exact .again (hs.trans hsched)
  | failed hmem hagain hintr => exact .failed (hs.suffix.subset hmem) hagain hintr

theorem Stream.read_reads {size : Nat} (hsize : 0 < size) (bytes : Bytes)
    (sched : List ReadEvent) :
    Reads size ⟨bytes, sched, false⟩ (Stream.read size ⟨bytes, sched, false⟩) := by
  induction sched with
  | nil =>
    rw [Stream.read]
    simp only [doRead, Bool.false_eq_true, if_false]
    rw [if_neg (by decide)]
    exact .again consumed_nil
  | cons ev sched ih =>
    rw [Stream.read]
    simp only [doRead, Bool.false_eq_true, if_false]
    cases ev with
    | ready n =>
      have hn : (bytes.take (min size (n + 1))).length ≤ size := by
        simp only [List.length_take]
        omega
      have hcase : ¬ ((bytes.take (min size (n + 1))).length : Int) = -EINTR := by
        unfold EINTR
        omega
      dsimp only
      rw [if_neg hcase]
      by_cases hb : bytes = []
      · subst hb
        simpa using Reads.eof rfl (consumed_ready n sched)
      · refine .data ?_ hn (List.take_append_drop _ _).symm (consumed_ready n sched)
        intro hnil
        have hpos := List.length_pos_of_ne_nil hb
        have hlen := congrArg List.length hnil
        simp only [List.length_take, List.length_nil] at hlen
        omega
    | error e =>
      dsimp only
      by_cases hintr : e.code = EINTR
      · rw [if_pos (by rw [hintr])]
        exact ih.of_consumed (consumed_error e sched)
      · rw [if_neg (by omega)]
        by_cases hagain : e.code = EAGAIN
        · rw [hagain]
          exact .again (consumed_error e sched)
        · exact .failed List.mem_cons_self hagain hintr

/-- The outcomes of `Conn.doRead` on an open stream. -/
inductive Conn.Reads (need : Nat) (c : Conn) : Int × Bytes × Conn → Prop
  | data {got rest : Bytes} {sched : List ReadEvent} (hne : got ≠ []) (hle : got.length ≤ need)
      (hbytes : c.stream.bytes = got ++ rest) (hsched : Consumed c.stream.sched sched 1) :
      Reads need c (if got.length < need then EAGAIN else 0, got,
        { c with stream := ⟨rest, sched, false⟩, rxBytes := c.rxBytes + got.length })
  | again {sched : List ReadEvent} (hsched : Consumed c.stream.sched sched 0) :
      Reads need c (EAGAIN, [], { c with stream := ⟨c.stream.bytes, sched, false⟩ })
  | eof {sched : List ReadEvent} (hbytes : c.stream.bytes = []) :
      Reads need c (if c.rxBytes = 0 then EOF else EPROTO, [],
        { c with stream := ⟨[], sched, true⟩ })
  | failed {e : Errno} {sched : List ReadEvent} (hmem : .error e ∈ c.stream.sched)
      (hagain : e.code ≠ EAGAIN) (hintr : e.code ≠ EINTR) :
      Reads need c (e.code, [], { c with stream := ⟨c.stream.bytes, sched, true⟩ })

theorem Conn.doRead_reads {need : Nat} (hneed : 0 < need) {c : Conn}
    (hopen : c.stream.closed = false) : Reads need c (c.doRead need) := by
  have hread : c.stream.Reads need (c.stream.read need) := by
    have h := Stream.read_reads hneed c.stream.bytes c.stream.sched
    rwa [← hopen] at h
  unfold doRead
  generalize c.stream.read need = out at hread
  cases hread with
  | @data got rest sched hne hle hbytes hsched =>
    have hpos : (0 : Int) < got.length := by
      have h := List.length_pos_of_ne_nil hne
      omega
    simp only [hpos, if_true, Int.toNat_natCast, Nat.cast_lt]
    exact .data hne hle hbytes hsched
  | eof hbytes hsched =>
    simp only [EAGAIN, Stream.close]
    exact .eof hbytes
  | again hsched =>
    simp only [EAGAIN]
    exact .again hsched
  | @failed e sched hmem hagain hintr =>
    have hpos := e.pos
    simp only [Stream.close]
    rw [if_neg (by omega), if_neg (by omega), if_neg (by omega), Int.neg_neg]
    exact .failed hmem hagain hintr

end Reads

end Nox.Openflow
