import Nox.Lib.Runs
import Nox.Threads.SchedulerHistory
import Nox.Time.Timeval

/-!
# Timers and sleep

A thread group with its timers.  `wakeup_timers` asks the system for the time and wakes the queue of
every timer that has expired; `co_sleep` waits for a timer, whose time it reckons from the time that
was asked for last, here or anywhere else in the program.  How long `ppoll` waits for the next timer
is left out.
-/

namespace Nox.Threads

open Lib Time

section Clock

/-! ## Times of the system -/

/-- A time as the system tells it. -/
abbrev ClockTime := {x : Timeval // x.Proper}

namespace ClockTime

def micros (x : ClockTime) : Int := x.1.micros

/-- `operator+` -/
def add (x y : ClockTime) : Option ClockTime :=
  match h : x.1.add y.1 with
  | none => none
  | some s => some ⟨s, (x.2.add y.2 h).1⟩

/-- `operator<` -/
def before (x y : ClockTime) : Bool := x.1.compare y.1 < 0

variable {x y s : ClockTime}

theorem before_iff : x.before y = true ↔ x.micros < y.micros := by
  rw [before, decide_eq_true_iff]
  exact (x.2.compare_iff y.2).1

theorem micros_add (h : x.add y = some s) : s.micros = x.micros + y.micros := by
  unfold add at h
  split at h
  · cases h
  · next hadd =>
    cases h
    exact (x.2.add y.2 hadd).2

end ClockTime

end Clock

section Model

/-! ## The group with its timers -/

/-- `Co_timer`, with the number of its queue. -/
structure CoTimer where
  when : ClockTime
  wq : Nat

/-- `timers.push`.  Which of two timers for the same time comes first is not said. -/
def pushTimer (timer : CoTimer) : List CoTimer → List CoTimer
  | [] => [timer]
  | top :: timers =>
    if timer.when.before top.when then timer :: top :: timers else top :: pushTimer timer timers

/-- A call of `co_sleep`: when it was made, and the time it reckons from. -/
structure Sleep where
  called : ClockTime
  cached : ClockTime
  duration : ClockTime

/-- What is told of a run. -/
inductive TimerEvent
  -- the queue of a timer is woken
  | woken (when now : ClockTime)
  -- `co_sleep` returns
  | slept (call : Sleep) (now : ClockTime)

/-- A group whose threads wait on queues of their own and on those of timers. -/
structure TimedGroup (T Q V : Type) where
  group : CoGroup T (Q ⊕ Nat) V
  -- what the system tells
  time : ClockTime
  -- `tv` of `do_gettimeofday`
  tv : ClockTime
  timers : List CoTimer
  -- so many queues have been made for timers
  allocated : Nat
  -- the calls of `co_sleep` that have not returned
  sleeps : T → Option Sleep
  told : List TimerEvent

/-- What happens in a group and around it. -/
inductive TimedOp (T Q V : Type)
  | group (op : CoOp T (Q ⊕ Nat) V)
  -- time passes
  | pass (time : ClockTime)
  -- `do_gettimeofday(true)`, which is called where threads are scheduled, and by others
  | gettimeofday
  | timerWait (absTime : ClockTime) (retvalp : Option V)
  | sleep (duration : ClockTime)
  | wakeupTimers

variable {T Q V : Type}

/-- The queue that an operation is on. -/
def CoOp.target : CoOp T Q V → Option Q
  | .wait q _ => some q
  | .wake op => op.target
  | _ => none

/-- An event is set up for who runs. -/
def CoOp.registers : CoOp T Q V → Bool
  | .wait _ _ | .immediateWake _ _ => true
  | _ => false

namespace TimedGroup

/-- The queue of a timer is the timer's own, and the hook of a thread that sleeps sets up no
event. -/
def allows (s : TimedGroup T Q V) (op : CoOp T (Q ⊕ Nat) V) : Bool :=
  op.target.all Sum.isLeft && (!op.registers || (s.sleeps s.group.coSelf).isNone)

variable [DecidableEq T] [DecidableEq Q] [DecidableEq V] (isFsm : T → Bool)

/-- A group that one thread has joined. -/
def init (thread : T) (vars : V → Int) (time : ClockTime) : TimedGroup T Q V where
  group := .init thread vars
  time
  tv := time
  timers := []
  allocated := 0
  sleeps := fun _ => none
  told := []

/-- Where `co_block` returns, `co_sleep` does, if it has called it. -/
def after (s : TimedGroup T Q V) (op : CoOp T (Q ⊕ Nat) V) (group : CoGroup T (Q ⊕ Nat) V) :
    TimedGroup T Q V :=
  match op, s.sleeps s.group.current with
  | .blockReturn, some call =>
    { s with
      group
      sleeps := Function.update s.sleeps s.group.current none
      told := .slept call s.time :: s.told }
  | _, _ => { s with group }

def coTimerWait (s : TimedGroup T Q V) (absTime : ClockTime) (retvalp : Option V) :
    Except Stop (TimedGroup T Q V) := do
  let group ← s.group.step isFsm (.wait (.inr s.allocated) retvalp)
  return { s with
    group
    timers := pushTimer ⟨absTime, s.allocated⟩ s.timers
    allocated := s.allocated + 1 }

/-- `co_sleep`, up to where `co_block` waits.  No function may set up a wait before. -/
def coSleep (s : TimedGroup T Q V) (duration : ClockTime) : Except Stop (TimedGroup T Q V) :=
  if s.group.fsms ≠ [] ∨ s.group.phase s.group.current ≠ .running then .error .assertion
  else if s.group.waits.events s.group.current ≠ [] then .error .disabled
  else
    match s.tv.add duration with
    | none => .error .undefined
    | some absTime => do
      let s' ← s.coTimerWait isFsm absTime none
      let group ← s'.group.step isFsm .coBlock
      return { s' with
        group
        sleeps := Function.update s'.sleeps s.group.current (some ⟨s.time, s.tv, duration⟩) }

/-- The loop of `wakeup_timers`, over the timers there are. -/
def wakeupLoop (now : ClockTime) : List CoTimer → TimedGroup T Q V → Except Stop (TimedGroup T Q V)
  | [], s => .ok s
  | top :: timers, s =>
    if now.before top.when then .ok s
    else do
      let group ← s.group.step isFsm (.wake (.wakeAll (.inr top.wq) 1))
      wakeupLoop now timers { s with group, timers, told := .woken top.when now :: s.told }

def wakeupTimers (s : TimedGroup T Q V) : Except Stop (TimedGroup T Q V) :=
  if s.timers = [] then .ok s else wakeupLoop isFsm s.time s.timers { s with tv := s.time }

def step (s : TimedGroup T Q V) : TimedOp T Q V → Except Stop (TimedGroup T Q V)
  | .group op =>
    if s.allows op then do
      let group ← s.group.step isFsm op
      return s.after op group
    else .error .disabled
  | .pass time => if time.before s.time then .error .disabled else .ok { s with time }
  | .gettimeofday => .ok { s with tv := s.time }
  | .timerWait absTime retvalp =>
    if (s.sleeps s.group.coSelf).isNone then s.coTimerWait isFsm absTime retvalp
    else .error .disabled
  | .sleep duration => s.coSleep isFsm duration
  | .wakeupTimers => s.wakeupTimers isFsm

end TimedGroup

end Model

section Waits

/-! ## What a step of the scheduler does to the events -/

variable {T Q V : Type} [DecidableEq T] [DecidableEq Q] [DecidableEq V] {isFsm : T → Bool}
  {s s' : CoGroup T Q V} {t : T} {q : Q} {P : Prop}

/-- Whose own events an operation changes. -/
def CoOp.Acts (isFsm : T → Bool) (op : CoOp T Q V) (s : CoGroup T Q V) (t : T) : Prop :=
  match op with
  | .wait _ _ | .immediateWake _ _ => t = s.coSelf
  | .blockReturn => t = s.current
  | _ => isFsm t = true

omit [DecidableEq T] [DecidableEq Q] [DecidableEq V] in
/-- What an operation does on the queues is foreign to other queues and other threads. -/
theorem CoOp.Does.foreign {op : CoOp T Q V} {wop : WaitOp T Q V} (h : op.Does isFsm s wop)
    (hq : op.target ≠ some q) (ht : ¬op.Acts isFsm s t) : wop.Foreign [q] (· ≠ t) := by
  have hqueue {q' : Q} (hq' : op.target = some q') : q' ∉ [q] := by
    rw [List.mem_singleton]
    rintro rfl
    exact hq hq'
  have hactor {u : T} (hu : op.Acts isFsm s u) : u ≠ t := by
    rintro rfl
    exact ht hu
  cases op with
  | wait q' retvalp =>
    cases h
    refine ⟨trivial, fun q' hq' => ?_, fun u hu => ?_⟩
    · exact hqueue hq'
    · exact hactor (Option.some.inj hu).symm
  | immediateWake retval retvalp =>
    cases h
    exact ⟨trivial, nofun, fun u hu => hactor (Option.some.inj hu).symm⟩
  | wake op =>
    obtain ⟨rfl, hwake, hvalid⟩ := h
    refine ⟨hvalid, fun q' hq' => hqueue hq', ?_⟩
    cases wop with
    | wait | immediateWake | cancel => cases hwake
    | wake1 | wakeN | wakeAll => nofun
  | blockReturn =>
    cases h
    exact ⟨trivial, nofun, fun u hu => hactor (Option.some.inj hu).symm⟩
  | _ =>
    obtain ⟨f, hfsm, rfl⟩ := h
    exact ⟨trivial, nofun, fun u hu => hactor (Option.some.inj hu ▸ hfsm)⟩

/-- The only event of a thread stays on its queue, where the operation is on no other's events and
on another queue. -/
theorem Waits.Only.group_step {op : CoOp T Q V} (h : s.waits.Only t q P) (hsound : s.waits.Sound)
    (hq : op.target ≠ some q) (ht : ¬op.Acts isFsm s t) (hstep : s.step isFsm op = .ok s') :
    s'.waits.Only t q P := by
  obtain hsame | ⟨wop, hdoes, hexec⟩ := CoGroup.execs_step op _ hstep
  · rwa [hsame]
  · rw [hexec]
    exact h.exec hsound (hdoes.foreign hq ht) List.mem_cons_self (not_not.mpr rfl)

/-- It is woken where its queue is. -/
theorem Waits.Only.group_wake {q' : Q} {retval : Int} (h : s.waits.Only t q P)
    (hsound : s.waits.Sound) (hstep : s.step isFsm (.wake (.wakeAll q' retval)) = .ok s') :
    s'.waits.Only t q (P ∨ q' = q) := by
  have hwaits : Yields (fun s' => s'.waits = s.waits.exec (.wakeAll q' retval))
      (s.step isFsm (.wake (.wakeAll q' retval))) :=
    Yields.ite (fun _ => Yields.ite (fun _ => Yields.error) fun _ =>
      Yields.ite (fun _ => Yields.error) fun _ => Yields.bind fun _ _ => Yields.ok rfl)
      fun _ => Yields.error
  rw [hwaits _ hstep]
  exact (h.wakeFirst hsound retval _).mono fun hP => hP.imp_right And.left

end Waits

section Invariant

/-! ## The invariant -/

variable {T Q V : Type} {isFsm : T → Bool} {s s' : TimedGroup T Q V} {t : T} {z : Sleep}

/-- What is told of all runs. -/
def TimerEvent.Timely : TimerEvent → Prop
  | .woken absTime now => absTime.micros ≤ now.micros
  | .slept call now => call.cached.micros + call.duration.micros ≤ now.micros

/-- A thread that sleeps has set up one event, on the queue of a timer.  When it is woken, the time
of the timer has come. -/
structure TimedGroup.Sleeps (isFsm : T → Bool) (s : TimedGroup T Q V) (t : T) (z : Sleep)
    (n : Nat) (absTime : ClockTime) : Prop where
  thread : isFsm t = false
  allocated : n < s.allocated
  reckoned : absTime.micros = z.cached.micros + z.duration.micros
  timer : ∀ timer ∈ s.timers, timer.wq = n → timer.when = absTime
  only : s.group.waits.Only t (.inr n) (absTime.micros ≤ s.time.micros)

structure TimedGroup.Inv (isFsm : T → Bool) (s : TimedGroup T Q V) : Prop where
  group : s.group.Well isFsm
  timers : ∀ timer ∈ s.timers, timer.wq < s.allocated
  sleeping : ∀ t z, s.sleeps t = some z → ∃ n absTime, s.Sleeps isFsm t z n absTime
  told : ∀ e ∈ s.told, e.Timely

theorem mem_pushTimer {timer u : CoTimer} {timers : List CoTimer} :
    u ∈ pushTimer timer timers ↔ u = timer ∨ u ∈ timers := by
  induction timers with
  | nil => simp [pushTimer]
  | cons top timers ih =>
    rw [pushTimer]
    split
    · simp
    · simp only [List.mem_cons, ih]
      tauto

variable [DecidableEq T] [DecidableEq Q] [DecidableEq V]

omit [DecidableEq Q] [DecidableEq V] in
theorem TimedGroup.inv_init {thread : T} {vars : V → Int} {time : ClockTime}
    (h : isFsm thread = false) :
    (TimedGroup.init thread vars time : TimedGroup T Q V).Inv isFsm where
  group := ⟨_, CoGroup.good_init thread vars h⟩
  timers := fun timer htimer => absurd htimer List.not_mem_nil
  sleeping := fun t z hz => by cases hz
  told := fun e he => absurd he List.not_mem_nil

omit [DecidableEq T] [DecidableEq Q] [DecidableEq V] in
theorem TimedGroup.Inv.sound (h : s.Inv isFsm) : s.group.waits.Sound := by
  obtain ⟨place, hgood⟩ := h.group
  exact hgood.sound

theorem CoGroup.Well.step {g g' : CoGroup T Q V} {op : CoOp T Q V} (h : g.Well isFsm)
    (hstep : g.step isFsm op = .ok g') : g'.Well isFsm := by
  obtain ⟨place, hgood⟩ := h
  exact (hgood.step op).2 _ hstep

/-- A step of the scheduler that is not one of a sleeping thread. -/
theorem TimedGroup.Sleeps.step {n : Nat} {absTime : ClockTime} {op : CoOp T (Q ⊕ Nat) V}
    {group : CoGroup T (Q ⊕ Nat) V} (h : s.Sleeps isFsm t z n absTime)
    (hsound : s.group.waits.Sound) (hq : op.target ≠ some (.inr n))
    (ht : ¬op.Acts isFsm s.group t) (hstep : s.group.step isFsm op = .ok group) :
    { s with group }.Sleeps isFsm t z n absTime :=
  { h with only := h.only.group_step hsound hq ht hstep }

omit [DecidableEq T] [DecidableEq Q] [DecidableEq V] in
/-- What the group allows is on no queue of a timer and changes no event of a thread that sleeps,
but for the return of `co_block` in it. -/
theorem TimedGroup.Sleeps.foreign {n : Nat} {absTime : ClockTime} {op : CoOp T (Q ⊕ Nat) V}
    (h : s.Sleeps isFsm t z n absTime) (hz : s.sleeps t = some z) (hallows : s.allows op = true)
    (hreturn : op = .blockReturn → t ≠ s.group.current) :
    op.target ≠ some (.inr n) ∧ ¬op.Acts isFsm s.group t := by
  unfold TimedGroup.allows at hallows
  rw [Bool.and_eq_true] at hallows
  constructor
  · intro hq
    rw [hq] at hallows
    cases hallows.1
  · have hself (hregisters : op.registers = true) : t ≠ s.group.coSelf := by
      rintro rfl
      rw [hregisters, hz] at hallows
      cases hallows.2
    cases op with
    | wait q retvalp => exact hself rfl
    | immediateWake retval retvalp => exact hself rfl
    | blockReturn => exact hreturn rfl
    | _ =>
      intro hfsm
      exact Bool.noConfusion (h.thread.symm.trans hfsm)

/-- The return of `co_block` in a thread that sleeps: the timer has expired. -/
theorem TimedGroup.Inv.returns (h : s.Inv isFsm) {group : CoGroup T (Q ⊕ Nat) V}
    (hz : s.sleeps s.group.current = some z)
    (hstep : s.group.step isFsm .blockReturn = .ok group) :
    z.cached.micros + z.duration.micros ≤ s.time.micros := by
  obtain ⟨n, absTime, hsleeps⟩ := h.sleeping _ z hz
  obtain ⟨place, hgood⟩ := h.group
  have hcode : s.group.fsms = [] ∧ s.group.phase s.group.current = .returning := by
    by_contra hnot
    rw [show s.group.step isFsm .blockReturn = .error .disabled from if_neg hnot] at hstep
    cases hstep
  obtain ⟨hwoken, -⟩ := hgood.blockReturn_eq hcode.1 hcode.2
  rw [← hsleeps.reckoned]
  exact hsleeps.only.woken hwoken

theorem TimedGroup.Inv.groupOp (h : s.Inv isFsm) {op : CoOp T (Q ⊕ Nat) V}
    {group : CoGroup T (Q ⊕ Nat) V} (hallows : s.allows op = true)
    (hstep : s.group.step isFsm op = .ok group) : (s.after op group).Inv isFsm := by
  have hkept {u : T} {z : Sleep} (hz : s.sleeps u = some z)
      (hreturn : op = .blockReturn → u ≠ s.group.current) :
      ∃ n absTime, { s with group }.Sleeps isFsm u z n absTime := by
    obtain ⟨n, absTime, hsleeps⟩ := h.sleeping u z hz
    obtain ⟨hq, hacts⟩ := hsleeps.foreign hz hallows hreturn
    exact ⟨n, absTime, hsleeps.step h.sound hq hacts hstep⟩
  unfold TimedGroup.after
  split
  · next call hcall =>
    refine ⟨h.group.step hstep, h.timers, ?_, ?_⟩
    · intro u z hz
      change Function.update s.sleeps s.group.current none u = some z at hz
      by_cases hu : u = s.group.current
      · rw [hu, Function.update_self] at hz
        cases hz
      · rw [Function.update_of_ne hu] at hz
        obtain ⟨n, absTime, hsleeps⟩ := hkept hz fun _ => hu
        exact ⟨n, absTime, { hsleeps with }⟩
    · intro e he
      cases he with
      | head => exact h.returns hcall hstep
      | tail _ he => exact h.told e he
  · next hnot =>
    refine ⟨h.group.step hstep, h.timers, ?_, h.told⟩
    intro u z hz
    refine hkept hz ?_
    rintro rfl rfl
    exact hnot _ rfl hz

/-- A timer that is set up has a queue of its own. -/
theorem TimedGroup.Inv.timerWait (h : s.Inv isFsm) {absTime : ClockTime} {retvalp : Option V}
    (hself : s.sleeps s.group.coSelf = none)
    (hstep : s.coTimerWait isFsm absTime retvalp = .ok s') : s'.Inv isFsm := by
  obtain ⟨group, hwait, hs'⟩ := bind_eq_ok.mp hstep
  cases hs'
  refine ⟨h.group.step hwait, ?_, ?_, h.told⟩
  · intro timer htimer
    obtain rfl | hold := mem_pushTimer.mp htimer
    · exact Nat.lt_succ_self _
    · exact Nat.lt_succ_of_lt (h.timers timer hold)
  · intro t z hz
    obtain ⟨n, absTime', hsleeps⟩ := h.sleeping t z hz
    have hn := hsleeps.allocated
    have hq : (CoOp.wait (.inr s.allocated) retvalp : CoOp T (Q ⊕ Nat) V).target ≠
        some (.inr n) := by
      intro heq
      cases heq
      exact Nat.lt_irrefl _ hn
    have ht : t ≠ s.group.coSelf := by
      rintro rfl
      rw [hself] at hz
      cases hz
    refine ⟨n, absTime', hsleeps.thread, Nat.lt_succ_of_lt hn, hsleeps.reckoned, ?_,
      hsleeps.only.group_step h.sound hq ht hwait⟩
    intro timer htimer hwq
    obtain rfl | hold := mem_pushTimer.mp htimer
    · exact absurd hwq (Nat.ne_of_gt hn)
    · exact hsleeps.timer timer hold hwq

/-- `co_sleep` waits for a timer, and for nothing else. -/
theorem TimedGroup.Inv.coSleep (h : s.Inv isFsm) {duration : ClockTime}
    (hsleep : s.coSleep isFsm duration = .ok s') : s'.Inv isFsm := by
  unfold TimedGroup.coSleep at hsleep
  split_ifs at hsleep with hcode hevents
  rw [not_or, not_not, not_not] at hcode
  rw [not_not] at hevents
  cases hadd : s.tv.add duration with
  | none =>
    rw [hadd] at hsleep
    cases hsleep
  | some absTime =>
    rw [hadd] at hsleep
    obtain ⟨s₁, hwait, hsleep⟩ := bind_eq_ok.mp hsleep
    obtain ⟨group, hblock, hs'⟩ := bind_eq_ok.mp hsleep
    cases hs'
    have hself : s.group.coSelf = s.group.current := by rw [CoGroup.coSelf, hcode.1]; rfl
    -- a thread that sleeps has set up an event
    have hawake {t : T} {z : Sleep} (hz : s.sleeps t = some z) : t ≠ s.group.current := by
      rintro rfl
      obtain ⟨n, absTime', hsleeps⟩ := h.sleeping _ z hz
      obtain ⟨e, he, -⟩ := hsleeps.only
      rw [hevents] at he
      cases he
    have hinv : s₁.Inv isFsm := by
      refine h.timerWait ?_ hwait
      rw [hself, Option.eq_none_iff_forall_ne_some]
      exact fun z hz => hawake hz rfl
    obtain ⟨g, hgroup, hs₁⟩ := bind_eq_ok.mp hwait
    cases hs₁
    have hthread : isFsm s.group.current = false := by
      obtain ⟨place, hgood⟩ := h.group
      exact hgood.current.2
    have hblocks {t : T} {z : Sleep} {n : Nat} {absTime' : ClockTime}
        (hsleeps : TimedGroup.Sleeps isFsm _ t z n absTime') := by
      have htarget : (CoOp.coBlock : CoOp T (Q ⊕ Nat) V).target ≠ some (.inr n) := nofun
      exact hsleeps.step hinv.sound htarget
        (fun hfsm => Bool.noConfusion (hsleeps.thread.symm.trans hfsm)) hblock
    refine ⟨hinv.group.step hblock, hinv.timers, ?_, h.told⟩
    intro t z hz
    change Function.update s.sleeps s.group.current _ t = some z at hz
    by_cases ht : t = s.group.current
    · rw [ht, Function.update_self] at hz
      cases hz
      rw [ht]
      refine ⟨s.allocated, absTime, { hblocks (t := s.group.current) (n := s.allocated)
        ⟨hthread, Nat.lt_succ_self _, ClockTime.micros_add hadd, ?_, ?_⟩ with }⟩
      · intro timer htimer hwq
        obtain rfl | hold := mem_pushTimer.mp htimer
        · rfl
        · exact absurd hwq (Nat.ne_of_lt (h.timers timer hold))
      · have hwaits : g.waits = s.group.waits.wait s.group.current (.inr s.allocated) none := by
          have hin : s.group.InCode := by
            by_contra hnot
            rw [show s.group.step isFsm (.wait (.inr s.allocated) none) = .error .disabled from
              if_neg hnot] at hgroup
            cases hgroup
          rw [show s.group.step isFsm (.wait (.inr s.allocated) none) = .ok _ from
            if_pos hin] at hgroup
          cases hgroup
          rw [hself]
        show g.waits.Only _ _ _
        rw [hwaits]
        exact Waits.only_wait hevents none
    · rw [Function.update_of_ne ht] at hz
      obtain ⟨n, absTime', hsleeps⟩ := hinv.sleeping t z hz
      exact ⟨n, absTime', { hblocks hsleeps with }⟩

/-- Timers that have expired are woken, one after the other. -/
theorem TimedGroup.Inv.wakeupLoop {timers : List CoTimer} (h : s.Inv isFsm)
    (htimers : s.timers = timers)
    (hloop : TimedGroup.wakeupLoop isFsm s.time timers s = .ok s') : s'.Inv isFsm := by
  have hloops (now : ClockTime) (hnow : now = s.time)
      (hloop : TimedGroup.wakeupLoop isFsm now timers s = .ok s') : s'.Inv isFsm := by
    clear * - h htimers hnow hloop
    induction timers generalizing s with
    | nil =>
      cases hloop
      exact h
    | cons top timers ih =>
      rw [TimedGroup.wakeupLoop] at hloop
      split_ifs at hloop with hbefore
      · cases hloop
        exact h
      · obtain ⟨group, hwake, hrest⟩ := bind_eq_ok.mp hloop
        have hexpired : top.when.micros ≤ s.time.micros := by
          rw [ClockTime.before_iff, hnow] at hbefore
          exact not_lt.mp hbefore
        refine ih (s := { s with group, timers, told := .woken top.when now :: s.told }) ?_ rfl hnow
          hrest
        refine ⟨h.group.step hwake, ?_, ?_, ?_⟩
        · exact fun timer htimer => h.timers timer (htimers ▸ List.mem_cons_of_mem top htimer)
        · intro t z hz
          obtain ⟨n, absTime, hsleeps⟩ := h.sleeping t z hz
          refine ⟨n, absTime, hsleeps.thread, hsleeps.allocated, hsleeps.reckoned, ?_, ?_⟩
          · exact fun timer htimer =>
              hsleeps.timer timer (htimers ▸ List.mem_cons_of_mem top htimer)
          · refine (hsleeps.only.group_wake h.sound hwake).mono ?_
            rintro (hcome | hqueue)
            · exact hcome
            · have hwhen := hsleeps.timer top (htimers ▸ List.mem_cons_self) (Sum.inr.inj hqueue)
              exact hwhen ▸ hexpired
        · intro e he
          cases he with
          | head => exact hnow ▸ hexpired
          | tail _ he => exact h.told e he
  exact hloops s.time rfl hloop

/-- A step keeps the invariant. -/
theorem TimedGroup.Inv.step (h : s.Inv isFsm) {op : TimedOp T Q V}
    (hstep : s.step isFsm op = .ok s') : s'.Inv isFsm := by
  cases op with
  | group op =>
    rw [TimedGroup.step] at hstep
    split_ifs at hstep with hallows
    obtain ⟨group, hgroup, hs'⟩ := bind_eq_ok.mp hstep
    cases hs'
    exact h.groupOp hallows hgroup
  | pass time =>
    rw [TimedGroup.step] at hstep
    split_ifs at hstep with hbefore
    cases hstep
    rw [ClockTime.before_iff, not_lt] at hbefore
    refine ⟨h.group, h.timers, ?_, h.told⟩
    intro t z hz
    obtain ⟨n, absTime, hsleeps⟩ := h.sleeping t z hz
    exact ⟨n, absTime, { hsleeps with only := hsleeps.only.mono fun hcome => hcome.trans hbefore }⟩
  | gettimeofday =>
    cases hstep
    refine ⟨h.group, h.timers, ?_, h.told⟩
    intro t z hz
    obtain ⟨n, absTime, hsleeps⟩ := h.sleeping t z hz
    exact ⟨n, absTime, { hsleeps with }⟩
  | timerWait absTime retvalp =>
    rw [TimedGroup.step] at hstep
    split_ifs at hstep with hself
    exact h.timerWait (Option.isNone_iff_eq_none.mp hself) hstep
  | sleep duration => exact h.coSleep hstep
  | wakeupTimers =>
    rw [TimedGroup.step, TimedGroup.wakeupTimers] at hstep
    split_ifs at hstep with hnil
    · cases hstep
      exact h
    · have hasked : { s with tv := s.time }.Inv isFsm := by
        refine ⟨h.group, h.timers, ?_, h.told⟩
        intro t z hz
        obtain ⟨n, absTime, hsleeps⟩ := h.sleeping t z hz
        exact ⟨n, absTime, { hsleeps with }⟩
      exact hasked.wakeupLoop rfl hstep

end Invariant

section Runs

/-! ## Runs -/

variable {T Q V : Type} {isFsm : T → Bool} {s s' : TimedGroup T Q V}

/-- What `co_sleep` and `co_timer_wait` promise. -/
def TimerEvent.Kept : TimerEvent → Prop
  | .woken absTime now => absTime.micros ≤ now.micros
  | .slept call now => call.called.micros + call.duration.micros ≤ now.micros

/-- Who calls `co_sleep` finds the time that was asked for last to be the time it is. -/
def TimedGroup.Fresh (s : TimedGroup T Q V) (op : TimedOp T Q V) : Prop :=
  match op with
  | .sleep _ => s.tv = s.time
  | _ => True

instance (s : TimedGroup T Q V) (op : TimedOp T Q V) : Decidable (s.Fresh op) := by
  cases op
  case sleep => exact inferInstanceAs (Decidable (s.tv = s.time))
  all_goals exact inferInstanceAs (Decidable True)

/-- Every call of `co_sleep` has reckoned from the time when it was made. -/
structure TimedGroup.Punctual (s : TimedGroup T Q V) : Prop where
  sleeping : ∀ t z, s.sleeps t = some z → z.cached = z.called
  told : ∀ z now, TimerEvent.slept z now ∈ s.told → z.cached = z.called

theorem TimedGroup.Punctual.of_nil (hsleeps : ∀ t, s.sleeps t = none) (htold : s.told = []) :
    s.Punctual := by
  refine ⟨fun t z hz => ?_, fun z now hmem => ?_⟩
  · rw [hsleeps t] at hz
    cases hz
  · rw [htold] at hmem
    cases hmem

theorem TimedGroup.Punctual.of_eq (h : s.Punctual) (hsleeps : s'.sleeps = s.sleeps)
    (htold : s'.told = s.told) : s'.Punctual := by
  refine ⟨?_, ?_⟩
  · rw [hsleeps]
    exact h.sleeping
  · rw [htold]
    exact h.told

variable [DecidableEq T] [DecidableEq Q] [DecidableEq V]

omit [DecidableEq Q] [DecidableEq V] in
theorem TimedGroup.Punctual.after (h : s.Punctual) (op : CoOp T (Q ⊕ Nat) V)
    (group : CoGroup T (Q ⊕ Nat) V) : (s.after op group).Punctual := by
  unfold TimedGroup.after
  split
  · next call hcall =>
    refine ⟨?_, ?_⟩
    · intro t z hz
      change Function.update s.sleeps s.group.current none t = some z at hz
      by_cases ht : t = s.group.current
      · rw [ht, Function.update_self] at hz
        cases hz
      · rw [Function.update_of_ne ht] at hz
        exact h.sleeping t z hz
    · intro z now hmem
      cases hmem with
      | head => exact h.sleeping _ _ hcall
      | tail _ hmem => exact h.told z now hmem
  · exact h.of_eq rfl rfl

theorem TimedGroup.Punctual.coTimerWait (h : s.Punctual) {absTime : ClockTime}
    {retvalp : Option V} (hstep : s.coTimerWait isFsm absTime retvalp = .ok s') :
    s'.Punctual := by
  obtain ⟨group, -, hs'⟩ := bind_eq_ok.mp hstep
  cases hs'
  exact h.of_eq rfl rfl

theorem TimedGroup.Punctual.coSleep (h : s.Punctual) {duration : ClockTime}
    (hfresh : s.tv = s.time) (hsleep : s.coSleep isFsm duration = .ok s') : s'.Punctual := by
  unfold TimedGroup.coSleep at hsleep
  split_ifs at hsleep
  cases hadd : s.tv.add duration with
  | none =>
    rw [hadd] at hsleep
    cases hsleep
  | some absTime =>
    rw [hadd] at hsleep
    obtain ⟨s₁, hwait, hsleep⟩ := bind_eq_ok.mp hsleep
    obtain ⟨group, -, hs'⟩ := bind_eq_ok.mp hsleep
    cases hs'
    have hwaiting := h.coTimerWait hwait
    refine ⟨?_, hwaiting.told⟩
    intro t z hz
    change Function.update s₁.sleeps s.group.current _ t = some z at hz
    by_cases ht : t = s.group.current
    · rw [ht, Function.update_self] at hz
      cases hz
      exact hfresh
    · rw [Function.update_of_ne ht] at hz
      exact hwaiting.sleeping t z hz

theorem TimedGroup.Punctual.wakeupLoop {now : ClockTime} {timers : List CoTimer}
    (h : s.Punctual) (hloop : TimedGroup.wakeupLoop isFsm now timers s = .ok s') :
    s'.Punctual := by
  induction timers generalizing s with
  | nil =>
    cases hloop
    exact h
  | cons top timers ih =>
    rw [TimedGroup.wakeupLoop] at hloop
    split_ifs at hloop
    · cases hloop
      exact h
    · obtain ⟨group, -, hrest⟩ := bind_eq_ok.mp hloop
      refine ih (s := { s with group, timers, told := .woken top.when now :: s.told }) ?_ hrest
      refine ⟨h.sleeping, ?_⟩
      intro z now' hmem
      cases hmem with
      | tail _ hmem => exact h.told z now' hmem

/-- A step keeps what is told of the calls, where `co_sleep` finds the time fresh. -/
theorem TimedGroup.Punctual.step (h : s.Punctual) {op : TimedOp T Q V} (hfresh : s.Fresh op)
    (hstep : s.step isFsm op = .ok s') : s'.Punctual := by
  cases op with
  | group op =>
    rw [TimedGroup.step] at hstep
    split_ifs at hstep
    obtain ⟨group, -, hs'⟩ := bind_eq_ok.mp hstep
    cases hs'
    exact h.after op group
  | pass time =>
    rw [TimedGroup.step] at hstep
    split_ifs at hstep
    cases hstep
    exact h.of_eq rfl rfl
  | gettimeofday =>
    cases hstep
    exact h.of_eq rfl rfl
  | timerWait absTime retvalp =>
    rw [TimedGroup.step] at hstep
    split_ifs at hstep
    exact h.coTimerWait hstep
  | sleep duration => exact h.coSleep hfresh hstep
  | wakeupTimers =>
    rw [TimedGroup.step, TimedGroup.wakeupTimers] at hstep
    split_ifs at hstep
    · cases hstep
      exact h
    · exact (h.of_eq rfl rfl : { s with tv := s.time }.Punctual).wakeupLoop hstep

/-- The step function of the runs. -/
def TimedGroup.next (isFsm : T → Bool) (s : TimedGroup T Q V) (op : TimedOp T Q V) :
    Option (TimedGroup T Q V) :=
  (s.step isFsm op).toOption

theorem TimedGroup.next_eq_some {op : TimedOp T Q V} (h : s.next isFsm op = some s') :
    s.step isFsm op = .ok s' := by
  unfold TimedGroup.next at h
  cases hstep : s.step isFsm op with
  | error e =>
    rw [hstep] at h
    cases h
  | ok s₁ =>
    rw [hstep] at h
    cases h
    rfl

/-- In every run of a group, and whatever the clock does, a timer is woken when its time has come,
and `co_sleep` returns when the duration is over since the time that was asked for last.  Where
every `co_sleep` finds that time fresh, the duration is over since the call. -/
theorem TimedGroup.told_of_reached {thread : T} {vars : V → Int} {time : ClockTime}
    (hthread : isFsm thread = false) :
    (Reaches (next isFsm) (fun _ _ => True) (init thread vars time) s →
        ∀ e ∈ s.told, e.Timely) ∧
      (Reaches (next isFsm) Fresh (init thread vars time) s → ∀ e ∈ s.told, e.Kept) := by
  have hinv {cond : TimedGroup T Q V → TimedOp T Q V → Prop}
      (h : Reaches (next isFsm) cond (init thread vars time) s) : s.Inv isFsm :=
    h.invariant (inv_init hthread) fun _ _ _ hs _ hstep => hs.step (next_eq_some hstep)
  refine ⟨fun h => (hinv h).told, fun h => ?_⟩
  have hpunctual : s.Punctual :=
    h.invariant (.of_nil (fun _ => rfl) rfl) fun _ _ _ hs hfresh hstep =>
      hs.step hfresh (next_eq_some hstep)
  intro e he
  have htimely := (hinv h).told e he
  cases e with
  | woken absTime now => exact htimely
  | slept z now =>
    have hcached := hpunctual.told z now he
    rw [TimerEvent.Kept, ← hcached]
    exact htimely

/-- A time of so many seconds. -/
def ClockTime.ofSec (sec : Int) : ClockTime := ⟨⟨sec, 0⟩, le_rfl, (by decide : (0 : Int) < 1000000)⟩

/-- A thread sleeps for five seconds, and the clock is ten seconds on when the timers are seen to.
Before it sleeps, `tv` is as old as `stale` seconds. -/
def sleeper (stale : Int) : List (TimedOp Nat Nat Nat) :=
  [.pass (.ofSec stale), .sleep (.ofSec 5), .pass (.ofSec 10), .wakeupTimers, .group .schedule,
    .group .blockReturn]

theorem told_of_sleeper : ∃ s : TimedGroup Nat Nat Nat,
    s.told = [.slept ⟨.ofSec 0, .ofSec 0, .ofSec 5⟩ (.ofSec 10), .woken (.ofSec 5) (.ofSec 10)] ∧
      ∀ e ∈ s.told, e.Kept := by
  obtain ⟨s, hs, htold⟩ : ∃ s, runs (TimedGroup.next fun _ => false) TimedGroup.Fresh
      (.init 0 (fun _ => 0) (.ofSec 0)) (sleeper 0) = some s ∧
      s.told = [.slept ⟨.ofSec 0, .ofSec 0, .ofSec 5⟩ (.ofSec 10),
        .woken (.ofSec 5) (.ofSec 10)] := by
    exact ⟨_, rfl, rfl⟩
  exact ⟨s, htold, (TimedGroup.told_of_reached rfl).2 (Reaches.init.runs hs)⟩

/-- The thread that calls `co_sleep` when the time is stale by eight seconds returns after two. -/
theorem sleeps_short : ∃ (s : TimedGroup Nat Nat Nat) (e : TimerEvent),
    Reaches (TimedGroup.next fun _ => false) (fun _ _ => True)
      (.init 0 (fun _ => 0) (.ofSec 0)) s ∧ e ∈ s.told ∧ ¬e.Kept := by
  obtain ⟨s, hs, htold⟩ : ∃ s, runs (TimedGroup.next fun _ => false) (fun _ _ => True)
      (.init 0 (fun _ => 0) (.ofSec 0)) (sleeper 8) = some s ∧
      s.told = [.slept ⟨.ofSec 8, .ofSec 0, .ofSec 5⟩ (.ofSec 10),
        .woken (.ofSec 5) (.ofSec 10)] := by
    exact ⟨_, rfl, rfl⟩
  refine ⟨s, .slept ⟨.ofSec 8, .ofSec 0, .ofSec 5⟩ (.ofSec 10), Reaches.init.runs hs, ?_, ?_⟩
  · rw [htold]
    exact List.mem_cons_self
  · show ¬((8 * 1000000 + 0 + (5 * 1000000 + 0) : Int) ≤ 10 * 1000000 + 0)
    decide

end Runs

end Nox.Threads
