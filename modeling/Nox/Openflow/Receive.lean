import Nox.Openflow.Connection

/-!
# The messages a stream is cut into

Between two calls of `do_recv_openflow` the connection holds the beginning of
one message (`Holding`).  A call hands over one message, asks to be called
again, or stops for good (`Step`); by induction over the calls, the messages
handed over are those the stream starts with, and once the stream has been read
to its end they are all of them (`recvLoop_messages`).
-/

namespace Nox.Openflow

open Framing

section Format

/-! ## Messages -/

theorem headerLength_take (s : Bytes) : headerLength (s.take 8) = headerLength s := by
  simp [headerLength, List.drop_take, List.take_take]

theorem headerLength_lt (h : Bytes) : headerLength h < 65536 :=
  hton_lt 2 _

theorem header_pos : 0 < 8 := by omega

/-- An OpenFlow message: 8 bytes of header, which announce the whole length. -/
def openflow : Format UInt8 where
  hdr := 8
  len := headerLength
  hdr_pos := header_pos
  len_take := headerLength_take

/-- What may follow the last message of a stream: nothing, the beginning of a
message, or a header that announces less than itself. -/
def Remainder (t : Bytes) : Prop :=
  Incomplete openflow t ∨ 8 ≤ t.length ∧ headerLength t < 8

theorem Remainder.unframed {t : Bytes} (h : Remainder t) : Unframed openflow t := by
  rcases h with hinc | ⟨hlen, hbad⟩
  · exact hinc.unframed
  · simpa using unframed_of_len_lt (F := openflow) (x := []) hlen hbad

end Format

section Memory

/-! ## Buffers -/

theorem sizeSub_of_le {a b : Nat} (h : b ≤ a) (ha : a < 2 ^ 64) : sizeSub a b = a - b := by
  unfold sizeSub
  omega

theorem memcpy_length {dst src : Bytes} {off : Nat} (h : off + src.length ≤ dst.length) :
    (memcpy dst off src).length = dst.length := by
  simp only [memcpy, List.length_append, List.length_take, List.length_drop]
  omega

theorem memcpy_take {dst s p : Bytes} (h : dst.take p.length = p) :
    (memcpy dst p.length s).take (p ++ s).length = p ++ s := by
  rw [memcpy, h]
  exact List.take_left

end Memory

section Invariant

/-! ## The invariant -/

/-- The connection has received the bytes `p` of the current message. -/
structure Buffered (c : Conn) (p : Bytes) : Prop where
  is_open : c.stream.closed = false
  rxBytes_eq : c.rxBytes = p.length
  header_length : c.rxHeader.length = 8
  header_take : c.rxHeader.take p.length = p.take 8
  buf_length : 8 ≤ p.length → c.rxBuf.length = headerLength p
  buf_take : 8 ≤ p.length → c.rxBuf.take p.length = p

/-- Between two calls the message is incomplete. -/
structure Holding (c : Conn) (p : Bytes) : Prop extends Buffered c p where
  incomplete : Incomplete openflow p

theorem Buffered.headerLength_eq {c : Conn} {p : Bytes} (h : Buffered c p) (hp : 8 ≤ p.length) :
    headerLength c.rxHeader = headerLength p := by
  have htake := h.header_take
  rw [List.take_of_length_le (by rw [h.header_length]; exact hp)] at htake
  rw [htake, headerLength_take]

/-- Progress of the stream: bytes are taken from its front, at least one with
every useful read. -/
structure Progress (s s' : Stream) : Prop where
  suffix : s'.sched <:+ s.sched
  readies_le : readies s.sched + s'.bytes.length ≤ readies s'.sched + s.bytes.length

theorem Progress.trans {a b c : Stream} (h : Progress a b) (h' : Progress b c) :
    Progress a c := by
  refine ⟨h'.suffix.trans h.suffix, ?_⟩
  have h1 := h.readies_le
  have h2 := h'.readies_le
  omega

theorem progress_data {s : Stream} {got rest : Bytes} {sched : List ReadEvent} {closed : Bool}
    (hne : got ≠ []) (hbytes : s.bytes = got ++ rest) (hsched : Consumed s.sched sched 1) :
    Progress s ⟨rest, sched, closed⟩ := by
  refine ⟨hsched.suffix, ?_⟩
  have hpos := List.length_pos_of_ne_nil hne
  have hle := hsched.readies_le
  rw [hbytes, List.length_append]
  dsimp only
  omega

theorem progress_again {s : Stream} {sched : List ReadEvent} {closed : Bool}
    (hsched : Consumed s.sched sched 0) : Progress s ⟨s.bytes, sched, closed⟩ :=
  ⟨hsched.suffix, Nat.add_le_add_right hsched.readies_le _⟩

/-- Why a call fails for good, when `p` has been received of the current message
and `rest` is still to come. -/
inductive Stops (sched : List ReadEvent) (p rest : Bytes) : Int → Prop
  | eof (hp : p = []) (hrest : rest = []) : Stops sched p rest EOF
  | dropped (hp : p ≠ []) (hrest : rest = []) (hinc : Incomplete openflow p) :
      Stops sched p rest EPROTO
  | badLength (hlen : p.length = 8) (hbad : headerLength p < 8) : Stops sched p rest EPROTO
  | failed {e : Errno} (hmem : .error e ∈ sched) (hagain : e.code ≠ EAGAIN)
      (hintr : e.code ≠ EINTR) : Stops sched p rest e.code

theorem Stops.mono {sched sched' : List ReadEvent} {p rest : Bytes} {error : Int}
    (hs : sched' <:+ sched) (h : Stops sched' p rest error) : Stops sched p rest error := by
  cases h with
  | eof hp hrest => exact .eof hp hrest
  | dropped hp hrest hinc => exact .dropped hp hrest hinc
  | badLength hlen hbad => exact .badLength hlen hbad
  | failed hmem hagain hintr => exact .failed (hs.subset hmem) hagain hintr

theorem Stops.ne_again {sched : List ReadEvent} {p rest : Bytes} {error : Int}
    (h : Stops sched p rest error) : error ≠ EAGAIN := by
  cases h with
  | eof => decide
  | dropped => decide
  | badLength => decide
  | failed hmem hagain hintr => exact hagain

/-- What one call of `do_recv_openflow` does to a connection that holds `p`. -/
inductive Step (p : Bytes) (c : Conn) : Except Int Bytes × Conn → Prop
  | message {m : Bytes} {c' : Conn} (hbytes : p ++ c.stream.bytes = m ++ c'.stream.bytes)
      (hm : Framed openflow m) (hold : Holding c' []) (hprog : Progress c.stream c'.stream)
      (hshort : c.stream.sched ≠ [] → c'.stream.sched.length < c.stream.sched.length) :
      Step p c (.ok m, c')
  | again {q : Bytes} {c' : Conn} (hbytes : p ++ c.stream.bytes = q ++ c'.stream.bytes)
      (hold : Holding c' q) (hprog : Progress c.stream c'.stream)
      (hshort : c.stream.sched ≠ [] → c'.stream.sched.length < c.stream.sched.length) :
      Step p c (.error EAGAIN, c')
  | stopped {q : Bytes} {c' : Conn} {error : Int}
      (hbytes : p ++ c.stream.bytes = q ++ c'.stream.bytes)
      (hstop : Stops c.stream.sched q c'.stream.bytes error) : Step p c (.error error, c')

end Invariant

section Stages

/-! ## The two stages -/

variable (junk : Nat → UInt8)

/-- The header is complete and announces at least itself. -/
structure HeaderRead (p : Bytes) (c : Conn) (h : Bytes) (c' : Conn) : Prop where
  bytes : p ++ c.stream.bytes = h ++ c'.stream.bytes
  length : h.length = 8
  announced : 8 ≤ headerLength h
  buffered : Buffered c' h
  progress : Progress c.stream c'.stream
  shorter : c.stream.sched ≠ [] → c'.stream.sched.length < c.stream.sched.length

theorem recvHeader_cases {c : Conn} {p : Bytes} (hold : Holding c p) (hp : p.length < 8) :
    (∃ h c', c.recvHeader junk = (0, c') ∧ HeaderRead p c h c') ∨
      ∃ error c', c.recvHeader junk = (error, c') ∧ error ≠ 0 ∧ Step p c (.error error, c') := by
  have hneed : 0 < 8 - c.rxBytes := by rw [hold.rxBytes_eq]; omega
  have hread := Conn.doRead_reads hneed hold.is_open
  have htake : c.rxHeader.take p.length = p := by
    rw [hold.header_take, List.take_of_length_le (by omega)]
  unfold Conn.recvHeader
  generalize c.doRead (8 - c.rxBytes) = out at hread
  cases hread with
  | @data got rest sched hne hle hbytes hsched =>
    rw [hold.rxBytes_eq] at hle
    have heq : p ++ c.stream.bytes = (p ++ got) ++ rest := by rw [hbytes, List.append_assoc]
    have hmtake := memcpy_take (s := got) htake
    have hmlen : (memcpy c.rxHeader p.length got).length = 8 := by
      rw [memcpy_length (by rw [hold.header_length]; omega), hold.header_length]
    by_cases hshort : got.length < 8 - p.length
    · -- the read was short
      right
      simp only [hold.rxBytes_eq, hshort, if_true]
      rw [if_pos (by decide)]
      refine ⟨_, _, rfl, by decide, .again (q := p ++ got) heq ?_ ?_ hsched.shorter⟩
      · have hlt : (p ++ got).length < 8 := by rw [List.length_append]; omega
        refine ⟨⟨rfl, (List.length_append).symm, hmlen, ?_, ?_, ?_⟩, .inl hlt⟩
        · rw [hmtake, List.take_of_length_le (by omega)]
        · intro h8
          omega
        · intro h8
          omega
      · exact progress_data hne hbytes hsched
    · have hlen : (p ++ got).length = 8 := by rw [List.length_append]; omega
      have hhdr : memcpy c.rxHeader p.length got = p ++ got := by
        rwa [hlen, List.take_of_length_le (by rw [hmlen])] at hmtake
      simp only [hold.rxBytes_eq, hshort, if_false, ne_eq, not_true_eq_false, hhdr]
      by_cases hbad : headerLength (p ++ got) < 8
      · right
        rw [if_pos hbad]
        exact ⟨_, _, rfl, by decide, .stopped heq (.badLength hlen hbad)⟩
      · left
        rw [if_neg hbad]
        have hfresh : 0 + (p ++ got).length
            ≤ ((List.range (headerLength (p ++ got))).map junk).length := by
          rw [List.length_map, List.length_range]
          omega
        refine ⟨p ++ got, _, rfl, heq, hlen, by omega, ?_, ?_, hsched.shorter⟩
        · refine ⟨rfl, (List.length_append).symm, hlen, by rw [hlen], fun _ => ?_, fun _ => ?_⟩
          · rw [memcpy_length hfresh, List.length_map, List.length_range]
          · simp only [memcpy, List.take_zero, List.nil_append]
            exact List.take_left
        · exact progress_data hne hbytes hsched
  | @again sched hsched =>
    right
    dsimp only
    rw [if_pos (by decide)]
    refine ⟨_, _, rfl, by decide, .again rfl ?_ (progress_again hsched) hsched.shorter⟩
    exact ⟨⟨rfl, hold.rxBytes_eq, by simpa [memcpy] using hold.header_length,
      by simpa [memcpy] using hold.header_take, hold.buf_length, hold.buf_take⟩, hold.incomplete⟩
  | @eof sched hbytes =>
    right
    dsimp only
    by_cases hnil : p = []
    · have hzero : c.rxBytes = 0 := by rw [hold.rxBytes_eq, hnil]; rfl
      rw [if_pos hzero, if_pos (by decide)]
      exact ⟨_, _, rfl, by decide, .stopped (q := p) (by rw [hbytes]) (.eof hnil rfl)⟩
    · have hpos : c.rxBytes ≠ 0 := by
        have h := List.length_pos_of_ne_nil hnil
        rw [hold.rxBytes_eq]
        omega
      rw [if_neg hpos, if_pos (by decide)]
      exact ⟨_, _, rfl, by decide,
        .stopped (q := p) (by rw [hbytes]) (.dropped hnil rfl hold.incomplete)⟩
  | @failed e sched hmem hagain hintr =>
    right
    have hpos := e.pos
    dsimp only
    rw [if_pos (by omega)]
    exact ⟨_, _, rfl, by omega, .stopped rfl (.failed hmem hagain hintr)⟩

/-- A complete message is handed over. -/
theorem recvBody_full {c : Conn} {m : Bytes} (h : Buffered c m) (hm : 8 ≤ m.length)
    (hlen : headerLength m = m.length) :
    c.recvBody = (.ok m, { c with rxBytes := 0, rxBuf := [] }) := by
  have hneed : sizeSub (headerLength c.rxHeader) c.rxBytes = 0 := by
    have hlt := headerLength_lt m
    rw [h.headerLength_eq hm, h.rxBytes_eq, sizeSub_of_le (by omega) (by omega)]
    omega
  have hbuf : c.rxBuf = m := by
    have htake := h.buf_take hm
    rwa [List.take_of_length_le (by rw [h.buf_length hm, hlen])] at htake
  simp [Conn.recvBody, hneed, hbuf]

theorem holding_nil {c : Conn} (hopen : c.stream.closed = false)
    (hlen : c.rxHeader.length = 8) : Holding { c with rxBytes := 0, rxBuf := [] } [] :=
  ⟨⟨hopen, rfl, hlen, rfl, fun h => by simp at h, fun h => by simp at h⟩, .inl (by decide)⟩

theorem recvBody_step {c : Conn} {p : Bytes} (h : Buffered c p) (hp : 8 ≤ p.length)
    (hlt : p.length < headerLength p) : Step p c c.recvBody := by
  have hmax := headerLength_lt p
  have hneed : sizeSub (headerLength c.rxHeader) c.rxBytes = headerLength p - p.length := by
    rw [h.headerLength_eq hp, h.rxBytes_eq, sizeSub_of_le (by omega) (by omega)]
  have hpos : 0 < headerLength p - p.length := by omega
  have hread := Conn.doRead_reads hpos h.is_open
  unfold Conn.recvBody
  simp only [hneed, ne_eq, show headerLength p - p.length ≠ 0 by omega, not_false_eq_true, if_true]
  generalize c.doRead (headerLength p - p.length) = out at hread
  cases hread with
  | @data got rest sched hne hle hbytes hsched =>
    have heq : p ++ c.stream.bytes = (p ++ got) ++ rest := by rw [hbytes, List.append_assoc]
    have hhead : headerLength (p ++ got) = headerLength p := len_append openflow hp
    have hmtake := memcpy_take (s := got) (h.buf_take hp)
    have hmlen : (memcpy c.rxBuf p.length got).length = headerLength p := by
      rw [memcpy_length (by rw [h.buf_length hp]; omega), h.buf_length hp]
    have hprog : Progress c.stream ⟨rest, sched, false⟩ := progress_data hne hbytes hsched
    simp only [h.rxBytes_eq]
    by_cases hshort : got.length < headerLength p - p.length
    · have hinc : (p ++ got).length < headerLength (p ++ got) := by
        rw [hhead, List.length_append]
        omega
      have h8 : 8 ≤ (p ++ got).length := by rw [List.length_append]; omega
      rw [if_pos hshort, if_pos (by decide)]
      refine .again (q := p ++ got) heq ?_ hprog hsched.shorter
      refine ⟨⟨rfl, (List.length_append).symm, h.header_length, ?_, fun _ => ?_, fun _ => hmtake⟩,
        .inr hinc⟩
      · rw [List.take_append_of_le_length hp, ← h.header_take,
          List.take_of_length_le (by rw [h.header_length]; exact h8),
          List.take_of_length_le (by rw [h.header_length]; exact hp)]
      · rw [hmlen, hhead]
    · have hfull : (p ++ got).length = headerLength p := by rw [List.length_append]; omega
      have hbuf : memcpy c.rxBuf p.length got = p ++ got := by
        rwa [hfull, List.take_of_length_le (by rw [hmlen])] at hmtake
      rw [if_neg hshort, hbuf, if_neg (not_not.mpr rfl)]
      refine .message heq ⟨?_, ?_⟩ ?_ hprog hsched.shorter
      · show 8 ≤ (p ++ got).length
        omega
      · show headerLength (p ++ got) = (p ++ got).length
        omega
      · exact holding_nil (c := { c with stream := ⟨rest, sched, false⟩ }) rfl h.header_length
  | @again sched hsched =>
    dsimp only
    rw [if_pos (by decide)]
    refine .again rfl ?_ (progress_again hsched) hsched.shorter
    refine ⟨⟨rfl, h.rxBytes_eq, h.header_length, h.header_take, fun _ => ?_, fun _ => ?_⟩, .inr hlt⟩
    · simpa [memcpy] using h.buf_length hp
    · simpa [memcpy] using h.buf_take hp
  | @eof sched hbytes =>
    have hne : p ≠ [] := by
      rintro rfl
      simp at hp
    have hrx : c.rxBytes ≠ 0 := by rw [h.rxBytes_eq]; omega
    dsimp only
    rw [if_neg hrx, if_pos (by decide)]
    exact .stopped (q := p) (by rw [hbytes]) (.dropped hne rfl (.inr hlt))
  | @failed e sched hmem hagain hintr =>
    have hpos := e.pos
    dsimp only
    rw [if_pos (by omega)]
    exact .stopped rfl (.failed hmem hagain hintr)

/-- The second stage after the first. -/
theorem Step.of_headerRead {p h : Bytes} {c c' : Conn} {out : Except Int Bytes × Conn}
    (hr : HeaderRead p c h c') (hs : Step h c' out) : Step p c out := by
  have hle := fun (c'' : Conn) (hprog : Progress c'.stream c''.stream)
      (hne : c.stream.sched ≠ []) =>
    Nat.lt_of_le_of_lt hprog.suffix.length_le (hr.shorter hne)
  cases hs with
  | message hbytes hm hold hprog hshort =>
    exact .message (hr.bytes.trans hbytes) hm hold (hr.progress.trans hprog) (hle _ hprog)
  | again hbytes hold hprog hshort =>
    exact .again (hr.bytes.trans hbytes) hold (hr.progress.trans hprog) (hle _ hprog)
  | stopped hbytes hstop =>
    exact .stopped (hr.bytes.trans hbytes) (hstop.mono hr.progress.suffix)

/-- A call on a connection that holds the beginning of a message. -/
theorem doRecvOpenflow_step {c : Conn} {p : Bytes} (hold : Holding c p) :
    Step p c (c.doRecvOpenflow junk) := by
  unfold Conn.doRecvOpenflow
  by_cases hp : p.length < 8
  · rw [if_pos (by rw [hold.rxBytes_eq]; exact hp)]
    rcases recvHeader_cases junk hold hp with ⟨h, c', heq, hr⟩ | ⟨error, c', heq, hne, hstep⟩
    · rw [heq]
      simp only [ne_eq, not_true_eq_false, if_false]
      have hlen := hr.length
      have hann := hr.announced
      by_cases hfull : headerLength h = 8
      · -- the message is its header
        rw [recvBody_full hr.buffered (by omega) (by omega)]
        refine .message hr.bytes ⟨?_, ?_⟩ ?_ hr.progress hr.shorter
        · show 8 ≤ h.length
          omega
        · show headerLength h = h.length
          omega
        · exact holding_nil hr.buffered.is_open hr.buffered.header_length
      · exact .of_headerRead hr (recvBody_step hr.buffered (by omega) (by omega))
    · rw [heq]
      simp only [ne_eq, hne, not_false_eq_true, if_true]
      exact hstep
  · have h8 : 8 ≤ p.length := by omega
    have hlt : p.length < headerLength p := by
      rcases hold.incomplete with h | h
      · exact absurd h hp
      · exact h
    rw [if_neg (by rw [hold.rxBytes_eq]; exact hp)]
    simp only [ne_eq, not_true_eq_false, if_false]
    exact recvBody_step hold.toBuffered h8 hlt

end Stages

section Runs

/-! ## Runs -/

variable (junk : Nat → UInt8)

/-- A connection that has just been made; `rx_header` is not initialised. -/
def Conn.start (rxHeader : Vector UInt8 8) (bytes : Bytes) (sched : List ReadEvent) : Conn where
  stream := ⟨bytes, sched, false⟩
  rxBytes := 0
  rxHeader := rxHeader.toList
  rxBuf := []

/-- What successive calls have returned: the messages and the last error. -/
structure Received where
  messages : List Bytes
  error : Int
  conn : Conn

/-- Up to `n` calls of `do_recv_openflow`, until one fails for good. -/
def recvLoop : Nat → Conn → Received
  | 0, c => ⟨[], EAGAIN, c⟩
  | n + 1, c =>
    match c.doRecvOpenflow junk with
    | (.ok m, c') =>
      let r := recvLoop n c'
      { r with messages := m :: r.messages }
    | (.error error, c') => if error = EAGAIN then recvLoop n c' else ⟨[], error, c'⟩

/-- A run of `n` calls from `c`, which holds `p`: it has cut `r.messages` off the
stream and holds `p'`, or has stopped there. -/
structure RunsTo (n : Nat) (p : Bytes) (c : Conn) (p' : Bytes) (r : Received) : Prop where
  bytes : p ++ c.stream.bytes = r.messages.flatten ++ (p' ++ r.conn.stream.bytes)
  framed : ∀ m ∈ r.messages, Framed openflow m
  progress : r.error = EAGAIN → Incomplete openflow p' ∧ Progress c.stream r.conn.stream
  exhausted : r.error = EAGAIN → c.stream.sched.length ≤ n → r.conn.stream.sched = []
  stopped : r.error ≠ EAGAIN → Stops c.stream.sched p' r.conn.stream.bytes r.error

theorem sched_length_le {s s' : Stream} {n : Nat} (hprog : Progress s s')
    (hshort : s.sched ≠ [] → s'.sched.length < s.sched.length) (hle : s.sched.length ≤ n + 1) :
    s'.sched.length ≤ n := by
  by_cases hnil : s.sched = []
  · have hsuf := hprog.suffix.length_le
    rw [hnil, List.length_nil] at hsuf
    omega
  · have hlt := hshort hnil
    omega

theorem recvLoop_runsTo (n : Nat) {c : Conn} {p : Bytes} (hold : Holding c p) :
    ∃ p', RunsTo n p c p' (recvLoop junk n c) := by
  induction n generalizing c p with
  | zero =>
    refine ⟨p, rfl, fun m hm => absurd hm List.not_mem_nil, fun _ => ?_, fun _ hle => ?_,
      fun h => absurd rfl h⟩
    · exact ⟨hold.incomplete, List.suffix_rfl, Nat.le_refl _⟩
    · exact List.length_eq_zero_iff.mp (Nat.le_zero.mp hle)
  | succ n ih =>
    have hstep := doRecvOpenflow_step junk hold
    unfold recvLoop
    generalize c.doRecvOpenflow junk = out at hstep
    cases hstep with
    | @message m c' hbytes hm hold' hprog hshort =>
      obtain ⟨p', hrun⟩ := ih hold'
      refine ⟨p', ?_, ?_, fun herr => ?_, fun herr hle => ?_, fun herr => ?_⟩
      · simp only [List.flatten_cons, List.append_assoc]
        rw [← hrun.bytes, hbytes, List.nil_append]
      · intro x hx
        rcases List.mem_cons.mp hx with rfl | hx
        · exact hm
        · exact hrun.framed x hx
      · exact ⟨(hrun.progress herr).1, hprog.trans (hrun.progress herr).2⟩
      · exact hrun.exhausted herr (sched_length_le hprog hshort hle)
      · exact (hrun.stopped herr).mono hprog.suffix
    | @again q c' hbytes hold' hprog hshort =>
      obtain ⟨p', hrun⟩ := ih hold'
      simp only [if_true]
      refine ⟨p', hbytes.trans hrun.bytes, hrun.framed, fun herr => ?_, fun herr hle => ?_,
        fun herr => ?_⟩
      · exact ⟨(hrun.progress herr).1, hprog.trans (hrun.progress herr).2⟩
      · exact hrun.exhausted herr (sched_length_le hprog hshort hle)
      · exact (hrun.stopped herr).mono hprog.suffix
    | @stopped p' c' error hbytes hstop =>
      have hne := hstop.ne_again
      simp only [hne, if_false]
      exact ⟨p', hbytes, fun m hm => absurd hm List.not_mem_nil, fun herr => absurd herr hne,
        fun herr => absurd herr hne, fun _ => hstop⟩

/-- The error that ends the reading of a stream with `tail` behind its messages. -/
def verdict (tail : Bytes) : Int := if tail = [] then EOF else EPROTO

/-- A failing call is due to a failed read, or gives the verdict on what follows
the messages. -/
theorem Stops.verdict {sched : List ReadEvent} {p rest tail : Bytes} {cs : List Bytes}
    {error : Int} (h : Stops sched p rest error) (hcs : ∀ m ∈ cs, Framed openflow m)
    (hbytes : p ++ rest = cs.flatten ++ tail) :
    (cs = [] ∧ error = verdict tail) ∨
      ∃ e : Errno, .error e ∈ sched ∧ e.code ≠ EAGAIN ∧ e.code ≠ EINTR ∧ error = e.code := by
  cases h with
  | eof hp hrest =>
    subst hp hrest
    have hnil : cs = [] := by
      apply Unframed.eq_nil (p := []) _ hcs (by simpa using hbytes)
      exact Incomplete.unframed (.inl (by decide))
    subst hnil
    have htail : tail = [] := by simpa using hbytes.symm
    exact .inl ⟨rfl, by rw [htail]; rfl⟩
  | dropped hp hrest hinc =>
    subst hrest
    rw [List.append_nil] at hbytes
    have hnil : cs = [] := hinc.unframed.eq_nil hcs hbytes
    subst hnil
    have htail : tail = p := by simpa using hbytes.symm
    exact .inl ⟨rfl, by rw [htail, Openflow.verdict, if_neg hp]⟩
  | badLength hlen hbad =>
    have hun : Unframed openflow (p ++ rest) :=
      unframed_of_len_lt (F := openflow) (Nat.le_of_eq hlen.symm) hbad
    have hnil : cs = [] := hun.eq_nil hcs hbytes
    subst hnil
    have htail : tail ≠ [] := by
      rintro rfl
      have hempty : p = [] := (List.append_eq_nil_iff.mp (by simpa using hbytes)).1
      simp [hempty] at hlen
    exact .inl ⟨rfl, by rw [Openflow.verdict, if_neg htail]⟩
  | @failed e hmem hagain hintr => exact .inr ⟨e, hmem, hagain, hintr, rfl⟩

/-- An event that no call reports as a failure. -/
def ReadEvent.Transient : ReadEvent → Prop
  | .ready _ => True
  | .error e => e.code = EAGAIN ∨ e.code = EINTR

/-- For every stream of messages, with whatever stands behind the last one, and
every way the reads go: the messages returned are the first ones of the stream,
in order and byte for byte.  When the calls end it is with all messages returned
and a clean end of file exactly when nothing stands behind them, or with the
failure of a read.  Without such failures, reads enough for all bytes return all
messages, and one more reports the end. -/
theorem recvLoop_messages (rxHeader : Vector UInt8 8) {msgs : List Bytes} {tail : Bytes}
    (hmsgs : ∀ m ∈ msgs, Framed openflow m) (htail : Remainder tail) (sched : List ReadEvent)
    (n : Nat) :
    let r := recvLoop junk n (Conn.start rxHeader (msgs.flatten ++ tail) sched)
    r.messages <+: msgs ∧
      (r.error = EAGAIN ∨ (r.messages = msgs ∧ r.error = verdict tail) ∨
        ∃ e : Errno, .error e ∈ sched ∧ ¬ (ReadEvent.error e).Transient ∧ r.error = e.code) ∧
      ((∀ ev ∈ sched, ev.Transient) → sched.length ≤ n →
        ((msgs.flatten ++ tail).length ≤ readies sched → r.messages = msgs) ∧
        ((msgs.flatten ++ tail).length < readies sched → r.error = verdict tail)) := by
  intro r
  have hold : Holding (Conn.start rxHeader (msgs.flatten ++ tail) sched) [] := by
    refine ⟨⟨rfl, rfl, ?_, rfl, fun h => ?_, fun h => ?_⟩, .inl (by decide)⟩
    · simp [Conn.start]
    · simp at h
    · simp at h
  obtain ⟨p, hrun⟩ := recvLoop_runsTo junk n hold
  have hbytes : r.messages.flatten ++ (p ++ r.conn.stream.bytes) = msgs.flatten ++ tail := by
    have h := hrun.bytes
    exact h.symm
  obtain ⟨cs, hcs, hrest⟩ := prefix_of_flatten hrun.framed hmsgs htail.unframed hbytes
  have hframed : ∀ m ∈ cs, Framed openflow m := by
    intro m hm
    apply hmsgs
    rw [hcs]
    exact List.mem_append_right _ hm
  have hall : cs = [] → r.messages = msgs := by
    rintro rfl
    rw [hcs, List.append_nil]
  refine ⟨⟨cs, hcs.symm⟩, ?_, fun htrans hn => ?_⟩
  · by_cases hagain : r.error = EAGAIN
    · exact .inl hagain
    · right
      rcases (hrun.stopped hagain).verdict hframed hrest with ⟨hnil, hv⟩ | ⟨e, hmem, h1, h2, he⟩
      · exact .inl ⟨hall hnil, hv⟩
      · exact .inr ⟨e, hmem, fun h => h.elim h1 h2, he⟩
  · by_cases hagain : r.error = EAGAIN
    · obtain ⟨hinc, hprog⟩ := hrun.progress hagain
      have hnil := hrun.exhausted hagain hn
      have hle := hprog.readies_le
      have hdone : readies sched + r.conn.stream.bytes.length
          ≤ (msgs.flatten ++ tail).length := by
        rw [hnil] at hle
        exact Nat.le_trans hle (Nat.le_of_eq (Nat.zero_add _))
      refine ⟨fun hr => ?_, fun hr => ?_⟩
      · have hend : r.conn.stream.bytes = [] :=
          List.length_eq_zero_iff.mp (by omega)
        rw [hend, List.append_nil] at hrest
        exact hall (hinc.unframed.eq_nil hframed hrest)
      · omega
    · rcases (hrun.stopped hagain).verdict hframed hrest with ⟨hnil, hv⟩ | ⟨e, hmem, h1, h2, he⟩
      · exact ⟨fun _ => hall hnil, fun _ => hv⟩
      · exact ((htrans _ hmem).elim h1 h2).elim

/-- A hello message that arrives byte by byte. -/
theorem recvLoop_hello :
    let hello : Bytes := [4, 0, 0, 8, 0, 0, 0, 1]
    let r := recvLoop (fun _ => 0) 9
      (Conn.start (Vector.replicate 8 0) ([hello].flatten ++ []) (List.replicate 9 (.ready 0)))
    r.messages = [hello] ∧ r.error = EOF := by
  intro hello r
  have hmsgs : ∀ m ∈ [hello], Framed openflow m := by
    intro m hm
    rw [List.mem_singleton.mp hm]
    exact ⟨by decide, by decide⟩
  have htrans : ∀ ev ∈ List.replicate 9 (ReadEvent.ready 0), ev.Transient := by
    intro ev hev
    rw [List.eq_of_mem_replicate hev]
    trivial
  have htail : Remainder [] := .inl (.inl (by decide))
  obtain ⟨-, -, hlive⟩ := recvLoop_messages (fun _ => 0) (Vector.replicate 8 0) hmsgs htail
    (List.replicate 9 (.ready 0)) 9
  obtain ⟨hmessages, herror⟩ := hlive htrans (by decide)
  exact ⟨hmessages (by decide), herror (by decide)⟩

end Runs

end Nox.Openflow
