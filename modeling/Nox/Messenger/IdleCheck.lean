import Nox.Messenger.Binary
import Nox.Messenger.JsonMessenger

/-!
# The idle check of a connection

`messenger_connection::check_idle` runs once in each idle interval.  It counts an echo request
that is missed and sends another, and when the count has come to the threshold it disconnects
the peer; any message of the peer sets the count back.

`Msg_stream::send` writes as many bytes as its size argument says, and that is zero by
default.  The binary messenger leaves it out, so its echo requests are empty and a peer has
nothing to answer.  For the JSON messenger no peer that answers is disconnected, as long as
the stream takes what is written (`meets_iff`).
-/

namespace Nox.Messenger

open Lib.JsonGrammar

section Echoes

/-! ## Echo requests -/

/-- The components that process messages. -/
inductive ProcessorKind
  | messenger
  | jsonmessenger
  deriving DecidableEq, Repr

def msgEcho : UInt8 := 1

/-- The default of the size argument of `Msg_stream::send`. -/
def sendDefaultSize : Nat := 0

/-- `Msg_stream::send`, where the stream takes up to so many bytes: what is written. -/
def msgStreamSend (accepted : Nat) (msg : Bytes) (size : Nat) : Bytes :=
  (msg.take size).take accepted

/-- `Msg_stream::init` with a text, to which it adds the braces and a null byte. -/
def msgStreamInit (str : Bytes) : Bytes := 0x7b :: str ++ [0x7d, 0]

/-- The text `"type":"ping"`. -/
def pingMember : Bytes :=
  [0x22, 0x74, 0x79, 0x70, 0x65, 0x22, 0x3a, 0x22, 0x70, 0x69, 0x6e, 0x67, 0x22]

/-- `send_echo`: what is written of the echo request. -/
def ProcessorKind.sendEcho (accepted : Nat) : ProcessorKind → Bytes
  | messenger => msgStreamSend accepted (beBytes 2 3 ++ [msgEcho]) sendDefaultSize
  | jsonmessenger => msgStreamSend accepted (msgStreamInit pingMember) (pingMember.length + 3)

/-- The echo request of the binary messenger. -/
def echoMsg : MessengerMsg := ⟨msgEcho, [], by decide⟩

/-- The echo request of the JSON messenger. -/
def pingText : ObjectText where
  text := [0x7b, 0x22, 0x74, 0x79, 0x70, 0x65, 0x22, 0x3a, 0x22, 0x70, 0x69, 0x6e, 0x67, 0x22,
    0x7d]
  isObject :=
    have htype : Content [0x74, 0x79, 0x70, 0x65] :=
      .plain (by decide) (by decide) (by decide) <| .plain (by decide) (by decide) (by decide) <|
        .plain (by decide) (by decide) (by decide) <| .plain (by decide) (by decide) (by decide) .nil
    have hping : Content [0x70, 0x69, 0x6e, 0x67] :=
      .plain (by decide) (by decide) (by decide) <| .plain (by decide) (by decide) (by decide) <|
        .plain (by decide) (by decide) (by decide) <| .plain (by decide) (by decide) (by decide) .nil
    have hnone : Spaces [] := by nofun
    have hentry := Text.entry hnone htype hnone (Text.spaced hnone (Text.string hping) hnone)
    .object (.member hentry)

/-- The bytes are an echo request, with a header that is right or the text of an object. -/
def ProcessorKind.IsEcho : ProcessorKind → Bytes → Prop
  | messenger, bytes => bytes = echoMsg.bytes
  | jsonmessenger, bytes => bytes = pingText.text ++ [0]

instance (k : ProcessorKind) (bytes : Bytes) : Decidable (k.IsEcho bytes) :=
  match k with
  | .messenger => inferInstanceAs (Decidable (bytes = _))
  | .jsonmessenger => inferInstanceAs (Decidable (bytes = _))

theorem sendEcho_messenger (accepted : Nat) : ProcessorKind.messenger.sendEcho accepted = [] := by
  simp [ProcessorKind.sendEcho, msgStreamSend, sendDefaultSize]

theorem sendEcho_jsonmessenger (accepted : Nat) :
    ProcessorKind.jsonmessenger.sendEcho accepted = (pingText.text ++ [0]).take accepted := rfl

/-- An echo request is written just by the JSON messenger, where the stream takes it all. -/
theorem isEcho_sendEcho (k : ProcessorKind) (accepted : Nat) :
    k.IsEcho (k.sendEcho accepted) ↔ k = .jsonmessenger ∧ 16 ≤ accepted := by
  cases k with
  | messenger =>
    refine iff_of_false (fun h => ?_) fun h => nomatch h.1
    rw [ProcessorKind.IsEcho, sendEcho_messenger] at h
    exact absurd h (by decide)
  | jsonmessenger =>
    have hlen : (pingText.text ++ [0]).length = 16 := rfl
    rw [ProcessorKind.IsEcho, sendEcho_jsonmessenger, List.take_eq_self_iff, hlen]
    exact (and_iff_right rfl).symm

end Echoes

section Checks

/-! ## Checks

Times are in microseconds, and a step takes none.  `time` tells whole seconds. -/

/-- What a `message_processor` sets for its connections. -/
structure IdleSettings where
  kind : ProcessorKind
  idleInterval : UInt16
  thresholdEchoMissed : UInt8

namespace IdleSettings

/-- The idle interval in microseconds. -/
def interval (p : IdleSettings) : Int := p.idleInterval.toNat * 1000000

end IdleSettings

/-- `time(NULL)` -/
def timeNull (now : Int) : Int := now / 1000000

/-- What a `messenger_connection` keeps for the check, and when the timer for the next one is
due. -/
structure IdleConnection where
  lastActiveTime : Int
  echoMissed : Nat
  running : Bool
  due : Option Int
  deriving DecidableEq

/-- What a check does. -/
inductive CheckOutcome
  | active
  | echoed (written : Bytes)
  | disconnected
  deriving DecidableEq

namespace IdleConnection

/-- `messenger_connection::process` -/
def process (c : IdleConnection) (now : Int) : IdleConnection :=
  { c with lastActiveTime := timeNull now, echoMissed := 0 }

/-- The timer for the next check. -/
def post (p : IdleSettings) (c : IdleConnection) (now : Int) : IdleConnection :=
  { c with due := if c.running ∧ p.idleInterval ≠ 0 then some (now + p.interval) else none }

/-- A new connection. -/
def start (p : IdleSettings) (now : Int) : IdleConnection :=
  post p ⟨timeNull now, 0, true, none⟩ now

def Idle (p : IdleSettings) (c : IdleConnection) (now : Int) : Prop :=
  p.idleInterval.toNat < timeNull now - c.lastActiveTime

instance (p : IdleSettings) (c : IdleConnection) (now : Int) : Decidable (c.Idle p now) :=
  inferInstanceAs (Decidable (_ < _))

/-- `check_idle`, where the stream takes up to so many bytes.  `post_disconnect` goes through
`process`. -/
def checkIdle (p : IdleSettings) (c : IdleConnection) (now : Int) (accepted : Nat) :
    CheckOutcome × IdleConnection :=
  if c.Idle p now then
    if p.thresholdEchoMissed.toNat ≤ c.echoMissed then
      (.disconnected, post p { c.process now with running := false } now)
    else
      (.echoed (p.kind.sendEcho accepted),
        post p { c with echoMissed := (c.echoMissed + 1) % 2 ^ 8 } now)
  else (.active, post p c now)

end IdleConnection

/-- A connection and its peer: when the peer received the first echo request that it has not
answered. -/
structure Peered where
  conn : IdleConnection
  now : Int
  pending : Option Int

/-- A check: what it found, when, and how much the stream took. -/
structure Check where
  before : Peered
  time : Int
  accepted : Nat

variable (p : IdleSettings)

def Check.outcome (r : Check) : CheckOutcome := (r.before.conn.checkIdle p r.time r.accepted).1

/-- What a check leaves; a whole echo request is one to answer. -/
def Check.after (r : Check) : Peered where
  conn := (r.before.conn.checkIdle p r.time r.accepted).2
  now := r.time
  pending :=
    match r.outcome p with
    | .echoed written =>
      if p.kind.IsEcho written then some (r.before.pending.getD r.time) else r.before.pending
    | .active | .disconnected => r.before.pending

/-- The peer has answered in time: no echo request waits for longer than the idle interval. -/
def Peered.Answers (s : Peered) (time : Int) : Prop :=
  ∀ t, s.pending = some t → time ≤ t + p.interval

/-- The runs of a connection whose peer answers each echo request within the idle interval,
with the checks in them, the last one first. -/
inductive Runs : List Check → Peered → Prop
  | start (now : Int) : Runs [] ⟨.start p now, now, none⟩
  | message {log s} (time : Int) (hnow : s.now ≤ time) (hrunning : s.conn.running = true)
      (hanswers : s.Answers p time) :
      Runs log s → Runs log ⟨s.conn.process time, time, none⟩
  -- the peer closes the connection
  | hangUp {log s} (time : Int) (hnow : s.now ≤ time) (hanswers : s.Answers p time) :
      Runs log s → Runs log ⟨{ s.conn.process time with running := false }, time, none⟩
  | check {log s} (time due : Int) (accepted : Nat) (hnow : s.now ≤ time)
      (hdue : s.conn.due = some due) (htime : due ≤ time) (hanswers : s.Answers p time) :
      Runs log s → Runs (⟨s, time, accepted⟩ :: log) (Check.after p ⟨s, time, accepted⟩)

/-- The check does what it is for: an echo request that is counted has been written, and the
peer is not disconnected. -/
def Check.Meets (r : Check) : Prop :=
  match r.outcome p with
  | .active => True
  | .echoed written => p.kind.IsEcho written
  | .disconnected => False

/-- Where the connection is idle, the threshold is not zero, a further echo request is one of
the JSON messenger for which the stream has room, and with a threshold of one the check does
not come at the very end of the interval in which an answer is due. -/
def Check.Fit (r : Check) : Prop :=
  r.before.conn.Idle p r.time →
    p.thresholdEchoMissed.toNat ≠ 0 ∧
    (r.before.conn.echoMissed < p.thresholdEchoMissed.toNat →
      p.kind = .jsonmessenger ∧ 16 ≤ r.accepted) ∧
    (p.thresholdEchoMissed.toNat = 1 → r.before.pending ≠ some (r.time - p.interval))

end Checks

section Runs

/-! ## Runs -/

variable {p : IdleSettings} {s : Peered} {r : Check} {due : Int}

/-- Echo requests are counted from the one that waits for an answer on, and for each of them
an interval has passed when the next check is due. -/
structure Timely (p : IdleSettings) (s : Peered) : Prop where
  missed_le : s.conn.echoMissed ≤ p.thresholdEchoMissed.toNat
  answered : s.pending = none → s.conn.echoMissed = 0
  waits : ∀ t, s.pending = some t → 1 ≤ s.conn.echoMissed ∧
    ∀ due, s.conn.due = some due → t + s.conn.echoMissed * p.interval ≤ due
  checks : ∀ due, s.conn.due = some due → p.idleInterval ≠ 0

theorem interval_pos (h : p.idleInterval ≠ 0) : 0 < p.interval := by
  have hpos : 0 < p.idleInterval.toNat := by
    rw [Nat.pos_iff_ne_zero]
    exact fun hzero => h (UInt16.toNat_inj.mp hzero)
  unfold IdleSettings.interval
  omega

theorem post_due {c : IdleConnection} {now : Int} (h : (c.post p now).due = some due) :
    p.idleInterval ≠ 0 ∧ due = now + p.interval := by
  unfold IdleConnection.post at h
  dsimp only at h
  split at h
  · next hpost => exact ⟨hpost.2, (Option.some.inj h).symm⟩
  · cases h

theorem timely_process (h : Timely p s) (c : IdleConnection) (now : Int)
    (hmissed : c.echoMissed = 0) (hdue : c.due = s.conn.due) : Timely p ⟨c, now, none⟩ where
  missed_le := by
    dsimp only
    omega
  answered _ := hmissed
  waits _ ht := nomatch ht
  checks due hd := h.checks due (hdue ▸ hd)

theorem timely_start (now : Int) : Timely p ⟨.start p now, now, none⟩ where
  missed_le := Nat.zero_le _
  answered _ := rfl
  waits _ ht := nomatch ht
  checks _ hd := (post_due hd).1

/-- A check that disconnects comes when the answer to the first echo request is overdue. -/
theorem Timely.disconnects (h : Timely p r.before) (hdue : r.before.conn.due = some due)
    (htime : due ≤ r.time) (hanswers : r.before.Answers p r.time)
    (hpos : p.thresholdEchoMissed.toNat ≠ 0)
    (hmissed : p.thresholdEchoMissed.toNat ≤ r.before.conn.echoMissed) :
    p.thresholdEchoMissed.toNat = 1 ∧ r.before.pending = some (r.time - p.interval) := by
  have hinterval := interval_pos (h.checks due hdue)
  cases hpending : r.before.pending with
  | none =>
    have hzero := h.answered hpending
    omega
  | some t =>
    obtain ⟨-, hwaits⟩ := h.waits t hpending
    have hlate := hwaits due hdue
    have hintime := hanswers t hpending
    -- only one interval has passed, so only one was missed
    have hone : r.before.conn.echoMissed = 1 := by
      by_contra hne
      have htwo : (2 : Int) ≤ r.before.conn.echoMissed := by omega
      have hmul := Int.mul_le_mul_of_nonneg_right htwo hinterval.le
      omega
    rw [hone] at hlate
    refine ⟨by omega, congrArg some ?_⟩
    omega

/-- A check does what it is for just when it is fit. -/
theorem Timely.meets_of_due (h : Timely p r.before) (hdue : r.before.conn.due = some due)
    (htime : due ≤ r.time) (hanswers : r.before.Answers p r.time) : r.Meets p ↔ r.Fit p := by
  unfold Check.Meets Check.Fit Check.outcome IdleConnection.checkIdle
  by_cases hidle : r.before.conn.Idle p r.time
  · rw [if_pos hidle, forall_prop_of_true hidle]
    by_cases hmissed : p.thresholdEchoMissed.toNat ≤ r.before.conn.echoMissed
    · rw [if_pos hmissed]
      refine iff_of_false id fun ⟨hpos, _, htie⟩ => ?_
      obtain ⟨hone, hpending⟩ := h.disconnects hdue htime hanswers hpos hmissed
      exact htie hone hpending
    · rw [if_neg hmissed]
      dsimp only
      rw [isEcho_sendEcho]
      constructor
      · intro hecho
        refine ⟨by omega, fun _ => hecho, fun hone hpending => ?_⟩
        have hcount := (h.waits _ hpending).1
        omega
      · intro hfit
        exact hfit.2.1 (by omega)
  · rw [if_neg hidle]
    exact iff_of_true trivial fun hpos => absurd hpos hidle

/-- A fit check leaves the count timely. -/
theorem Timely.check (h : Timely p r.before) (hdue : r.before.conn.due = some due)
    (htime : due ≤ r.time) (hanswers : r.before.Answers p r.time) (hfit : r.Fit p) :
    Timely p (r.after p) := by
  have hmeets := (h.meets_of_due hdue htime hanswers).mpr hfit
  have hlt := p.thresholdEchoMissed.toNat_lt
  have hle := h.missed_le
  have hinterval := interval_pos (h.checks due hdue)
  unfold Check.Meets at hmeets
  unfold Check.after
  generalize hout : r.outcome p = out at hmeets
  unfold Check.outcome at hout
  unfold IdleConnection.checkIdle at hout ⊢
  split at hout
  · next hidle =>
    rw [if_pos hidle]
    split at hout
    · cases hout
      exact hmeets.elim
    · next hmissed =>
      subst hout
      have hcount : (r.before.conn.echoMissed + 1) % 2 ^ 8 = r.before.conn.echoMissed + 1 := by
        omega
      have hecho : p.kind.IsEcho (p.kind.sendEcho r.accepted) := hmeets
      simp only [if_neg hmissed, if_pos hecho, hcount]
      refine ⟨by dsimp only [IdleConnection.post]; omega, nofun, fun t ht => ?_,
        fun due hd => (post_due hd).1⟩
      refine ⟨Nat.le_add_left 1 _, fun due' hd => ?_⟩
      obtain ⟨-, rfl⟩ := post_due hd
      have hcast : ((r.before.conn.echoMissed + 1 : Nat) : Int) * p.interval =
          r.before.conn.echoMissed * p.interval + p.interval := by
        rw [Nat.cast_succ, Int.add_mul, Int.one_mul]
      dsimp only [IdleConnection.post]
      rw [hcast]
      cases hpending : r.before.pending with
      | none =>
        have hzero := h.answered hpending
        rw [hpending] at ht
        cases ht
        rw [hzero, Nat.cast_zero, Int.zero_mul]
        dsimp only [Option.getD_none]
        omega
      | some t₀ =>
        rw [hpending] at ht
        cases ht
        have hlate := (h.waits t₀ hpending).2 due hdue
        dsimp only [Option.getD_some]
        omega
  · next hidle =>
    rw [if_neg hidle]
    subst hout
    refine ⟨hle, h.answered, fun t ht => ⟨(h.waits t ht).1, fun due' hd => ?_⟩,
      fun due hd => (post_due hd).1⟩
    obtain ⟨-, rfl⟩ := post_due hd
    have hlate := (h.waits t ht).2 due hdue
    dsimp only [IdleConnection.post]
    omega

theorem Runs.timely {log : List Check} (h : Runs p log s) :
    ((∀ r ∈ log, r.Meets p) ↔ ∀ r ∈ log, r.Fit p) ∧ ((∀ r ∈ log, r.Fit p) → Timely p s) := by
  induction h with
  | start now => exact ⟨by simp, fun _ => timely_start now⟩
  | message time _ _ _ _ ih =>
    exact ⟨ih.1, fun hfit => timely_process (ih.2 hfit) _ _ rfl rfl⟩
  | hangUp time _ _ _ ih => exact ⟨ih.1, fun hfit => timely_process (ih.2 hfit) _ _ rfl rfl⟩
  | check time due accepted _ hdue htime hanswers _ ih =>
    simp only [List.forall_mem_cons]
    refine ⟨?_, fun hfit => (ih.2 hfit.2).check hdue htime hanswers hfit.1⟩
    rw [ih.1]
    exact and_congr_left fun hfit => (ih.2 hfit).meets_of_due hdue htime hanswers

/-- In a run whose peer answers, every echo request that is counted has been written and the
peer is never disconnected by a check, just when all checks are fit. -/
theorem meets_iff {log : List Check} (h : Runs p log s) :
    (∀ r ∈ log, r.Meets p) ↔ ∀ r ∈ log, r.Fit p := h.timely.1

theorem answers_none (conn : IdleConnection) (now time : Int) :
    Peered.Answers p ⟨conn, now, none⟩ time := nofun

/-- The JSON messenger with a check in every ten seconds. -/
def jsonSettings : IdleSettings := ⟨.jsonmessenger, 10, 3⟩

/-- The checks of a peer that is asked once. -/
def askedChecks : List Check :=
  [⟨⟨⟨0, 0, true, some 20000000⟩, 10000000, none⟩, 20000000, 16⟩,
    ⟨⟨⟨0, 0, true, some 10000000⟩, 0, none⟩, 10000000, 0⟩]

theorem runs_asked : Runs jsonSettings askedChecks
    ⟨⟨0, 1, true, some 30000000⟩, 20000000, some 20000000⟩ := by
  have hfirst : Runs jsonSettings askedChecks.tail
      ⟨⟨0, 0, true, some 20000000⟩, 10000000, none⟩ :=
    .check 10000000 10000000 0 (by decide) rfl le_rfl (answers_none _ _ _) (.start 0)
  exact .check 20000000 20000000 16 (by decide) rfl le_rfl (answers_none _ _ _) hfirst

/-- It is asked with a whole echo request. -/
theorem meets_iff_asked :
    (∃ s, Runs jsonSettings askedChecks s) ∧ ∀ r ∈ askedChecks, r.Meets jsonSettings := by
  refine ⟨⟨_, runs_asked⟩, (meets_iff runs_asked).mpr ?_⟩
  simp only [askedChecks, List.forall_mem_cons]
  refine ⟨fun _ => ⟨by decide, fun _ => ⟨rfl, le_rfl⟩, nofun⟩, fun hidle => ?_, nofun⟩
  exact absurd hidle (by decide)

/-- The binary messenger with the same check. -/
def binarySettings : IdleSettings := ⟨.messenger, 10, 3⟩

/-- A check `k` intervals after the peer was last heard of. -/
def silentCheck (k missed : Nat) : Check :=
  ⟨⟨⟨0, missed, true, some (k * 10000000)⟩, (k - 1) * 10000000, none⟩, k * 10000000, 16⟩

/-- A peer that is sent nothing is disconnected by the fifth check. -/
theorem disconnects_unasked :
    ∃ log s, Runs binarySettings log s ∧
      (∀ r ∈ log, ∀ written, r.outcome binarySettings = .echoed written → written = []) ∧
      ∃ r ∈ log, r.outcome binarySettings = .disconnected ∧ ¬r.Meets binarySettings := by
  have h1 : Runs binarySettings [silentCheck 1 0] (silentCheck 2 0).before :=
    .check 10000000 10000000 16 (by decide) rfl le_rfl (answers_none _ _ _) (.start 0)
  have h2 : Runs binarySettings [silentCheck 2 0, silentCheck 1 0] (silentCheck 3 1).before :=
    .check 20000000 20000000 16 (by decide) rfl le_rfl (answers_none _ _ _) h1
  have h3 : Runs binarySettings [silentCheck 3 1, silentCheck 2 0, silentCheck 1 0]
      (silentCheck 4 2).before :=
    .check 30000000 30000000 16 (by decide) rfl le_rfl (answers_none _ _ _) h2
  have h4 : Runs binarySettings [silentCheck 4 2, silentCheck 3 1, silentCheck 2 0,
      silentCheck 1 0] (silentCheck 5 3).before :=
    .check 40000000 40000000 16 (by decide) rfl le_rfl (answers_none _ _ _) h3
  have h5 := Runs.check 50000000 50000000 16 (by decide) rfl le_rfl (answers_none _ _ _) h4
  have hcut : (silentCheck 5 3).outcome binarySettings = .disconnected := rfl
  refine ⟨_, _, h5, fun r _ written hecho => ?_, silentCheck 5 3, List.mem_cons_self, hcut, ?_⟩
  · unfold Check.outcome IdleConnection.checkIdle at hecho
    split_ifs at hecho
    cases hecho
    exact sendEcho_messenger r.accepted
  · rw [Check.Meets, hcut]
    exact id

end Runs

end Nox.Messenger
