import Nox.Lib.Runs
import Nox.Timer.Containers

/-!
# The sleep of the polling thread

When no pollable has any work, the polling thread calls `wait` and blocks.  `wait` arms its
wake-up for the first of `timers` and makes it wait for `new_timers`; a signal finds only a
thread that waits already.  The applicants are not looked at, and of the operations that
put a timer among them only `post` signals.  So the thread sleeps through a timer that was
posted or moved after the last poll to an earlier time than the first of `timers`, and
through one that is moved while it sleeps to an earlier time than its wake-up; and only then
(`covered_iff`).
-/

namespace Nox.Timer

section Poller

/-! ## The polling thread -/

/-- What the blocked thread waits for: the time given to `co_timer_wait`, and its event on
`new_timers`, which has been woken or not. -/
structure Watch where
  armed : Option Timeval
  signalled : Bool

/-- The dispatcher, and what the polling thread waits for when it is blocked. -/
structure Poller where
  dispatcher : Dispatcher
  watch : Option Watch

def Poller.init : Poller where
  dispatcher := .init
  watch := none

/-- The due time of the first of `timers`. -/
def Dispatcher.first (s : Dispatcher) : Option Timeval :=
  s.timers.head?.bind fun a => (s.heap a).map (·.time)

/-- `wait`, by the polling thread. -/
def Poller.wait (p : Poller) : Option Poller :=
  match p.watch with
  | none => some { p with watch := some ⟨p.dispatcher.first, false⟩ }
  | some _ => none

/-- `co_block` returns, whatever has woken the thread; its other events are cancelled. -/
def Poller.wake (p : Poller) : Option Poller :=
  p.watch.map fun _ => { p with watch := none }

/-- `new_timers.signal()`, which is lost where no thread waits. -/
def Poller.signal (p : Poller) : Poller :=
  { p with watch := p.watch.map fun w => { w with signalled := true } }

/-- The operations that signal `new_timers`. -/
def Label.signals : Label → Bool
  | .post _ _ => true
  | _ => false

/-- A call of the dispatcher, or the return of a callback. -/
def Poller.call (p : Poller) (l : Label) : Option Poller :=
  (p.dispatcher.step l).map fun d =>
    let p := { p with dispatcher := d }
    if l.signals then p.signal else p

inductive Event
  | call (l : Label)
  | wait
  | wake

def Poller.step (p : Poller) : Event → Option Poller
  | .call l => p.call l
  | .wait => p.wait
  | .wake => p.wake

def Poller.run (p : Poller) (es : List Event) : Option Poller :=
  es.foldlM Poller.step p

/-- A timer, queued or still an applicant, is due at `time`. -/
def Dispatcher.Due (s : Dispatcher) (time : Timeval) : Prop :=
  ∃ a, (a ∈ s.timers ∨ a ∈ s.applicants) ∧ ∃ t, s.heap a = some t ∧ t.time = time

/-- A blocked thread has been signalled, or no timer is due before its wake-up. -/
def Poller.Covered (p : Poller) : Prop :=
  ∀ w, p.watch = some w → w.signalled = true ∨
    ∀ time, p.dispatcher.Due time → ∃ armed, w.armed = some armed ∧ armed ≤ time

end Poller

section Condition

/-! ## When no timer is slept through -/

/-- The time to which a step moves a timer. -/
def Label.moves (s : Dispatcher) : Label → Option Timeval
  | .delay n neg sec usec => (s.find n).map fun x => delayed neg sec usec x.2.time
  | .reset n sec usec => (s.find n).map fun _ => s.clock.plus (timeval sec usec)
  | _ => none

/-- At a `wait` no applicant is due before the first of `timers`, and a timer that is moved
while the thread sleeps unsignalled is not moved before its wake-up. -/
def Poller.Meets (p : Poller) : Event → Prop
  | .call l => ∀ w time, p.watch = some w → w.signalled = false →
      l.moves p.dispatcher = some time → ∃ armed, w.armed = some armed ∧ armed ≤ time
  | .wait => ∀ a ∈ p.dispatcher.applicants, ∀ t, p.dispatcher.heap a = some t →
      ∃ first, p.dispatcher.first = some first ∧ first ≤ t.time
  | .wake => True

/-- Every step of the run meets the condition. -/
def Poller.Admissible (p : Poller) (es : List Event) : Prop :=
  Lib.Meeting Poller.step Poller.Meets p es

end Condition

section Due

/-! ## What the steps do to the due times -/

variable {s s' : Dispatcher} {time : Timeval}

/-- The timers of the second state are timers of the first, due at the same time. -/
theorem Dispatcher.Due.of_sub (hdue : s'.Due time)
    (hsub : ∀ a, a ∈ s'.timers ∨ a ∈ s'.applicants → a ∈ s.timers ∨ a ∈ s.applicants)
    (hheap : ∀ a t', a ∈ s'.timers ∨ a ∈ s'.applicants → s'.heap a = some t' →
      ∃ t, s.heap a = some t ∧ t.time = t'.time) : s.Due time := by
  obtain ⟨a, ha, t', ht', rfl⟩ := hdue
  exact ⟨a, hsub a ha, hheap a t' ha ht'⟩

theorem due_of_fire {poll : Nat} {now : Timeval} {serial : Nat}
    (hdue : (s.fire poll now serial).Due time) : s.Due time := by
  unfold Dispatcher.fire at hdue
  split at hdue
  · exact hdue
  · next a timers htimers =>
    split at hdue
    · exact hdue
    · split at hdue
      · exact hdue
      · refine hdue.of_sub (fun b hb => hb.imp_left fun hb => ?_) fun b t' _ ht' => ⟨t', ht', rfl⟩
        rw [htimers]
        exact List.mem_cons_of_mem a hb

theorem due_of_admit {order : List Nat} (horder : order.toFinset = s.applicants)
    (hdue : (s.admitApplicants order).Due time) : s.Due time := by
  refine hdue.of_sub (fun a ha => ?_) fun a t' _ ht' => ?_
  · rcases ha with ha | ha
    · exact (mem_admitted_timers horder ha).symm
    · exact absurd ha (Finset.notMem_empty a)
  · rw [admitted_heap] at ht'
    obtain ⟨t, ht, rfl⟩ := Option.map_eq_some_iff.mp ht'
    exact ⟨t, ht, rfl⟩

theorem due_of_poll {now : Timeval} {order : List Nat} (hs : s.poll now order = some s')
    (hdue : s'.Due time) : s.Due time := by
  unfold Dispatcher.poll at hs
  split at hs
  · next horder =>
    cases hs
    obtain ⟨a, ha, hat⟩ := due_of_fire hdue
    exact due_of_admit (s := { s with clock := now }) horder.2 ⟨a, ha, hat⟩
  · cases hs

theorem due_of_ret {i : Nat} (hs : s.ret i = some s') (hdue : s'.Due time) : s.Due time := by
  unfold Dispatcher.ret at hs
  split at hs
  · cases hs
  · next f hf =>
    have hreturned : Dispatcher.Due { s with
        heap := store s.heap f.firing none
        frames := s.frames.eraseIdx i } time := by
      by_cases hserial : f.serial = s.serial
      · simp only [hserial, ne_eq, not_true_eq_false, if_false, Option.some.injEq] at hs
        subst hs
        exact due_of_fire hdue
      · simp only [ne_eq, hserial, not_false_eq_true, if_true, Option.some.injEq] at hs
        subst hs
        exact hdue
    refine hreturned.of_sub (fun _ ha => ha) fun a t' _ ht' => ⟨t', ?_, rfl⟩
    by_cases ha : a = f.firing
    · subst ha
      cases (store_self s.heap f.firing none).symm.trans ht'
    · exact (store_other none ha).symm.trans ht'

/-- What is due once the timer at `a` is taken out. -/
theorem Removed.queued {a b : Nat} (hr : Removed s s' a) (hb : b ∈ s'.timers ∨ b ∈ s'.applicants) :
    b ≠ a ∧ (b ∈ s.timers ∨ b ∈ s.applicants) := by
  rcases hb with hb | hb
  · exact ⟨(hr.of_mem_timers hb).1, .inl (hr.of_mem_timers hb).2⟩
  · rw [hr.applicants] at hb
    exact ⟨Finset.ne_of_mem_erase hb, .inr (Finset.mem_of_mem_erase hb)⟩

theorem due_of_cancel (h : Containers s) {n : Nat} (hs : s.cancel n = some s')
    (hdue : s'.Due time) : s.Due time := by
  obtain ⟨s₁, hs₁, rfl⟩ := Option.map_eq_some_iff.mp hs
  rcases withValid_cases hs₁ with ⟨a, t, -, -, hat, rfl⟩ | ⟨-, rfl⟩
  · have hr := h.removed hat
    refine hdue.of_sub (fun b hb => (hr.queued hb).2) fun b t' hb ht' => ⟨t', ?_, rfl⟩
    have hne := (hr.queued hb).1
    rw [← hr.heap b hne]
    exact (store_other none hne).symm.trans ht'
  · exact hdue

/-- `delay` and `reset` change the due time of the timer they find. -/
theorem due_of_setTimeout (h : Containers s) {n : Nat} {f : Timeval → Timeval}
    (hs : s.withValid n (fun a t => s.setTimeout a t (f t.time)) = some s')
    (hdue : s'.Due time) :
    s.Due time ∨ (s.find n).map (fun x => f x.2.time) = some time := by
  rcases withValid_cases hs with ⟨a, t, hfind, -, hat, rfl⟩ | ⟨-, rfl⟩
  · obtain ⟨b, hb, t', ht', rfl⟩ := hdue
    by_cases hne : b = a
    · subst hne
      simp only [Dispatcher.setTimeout, store_self, Option.some.injEq] at ht'
      subst ht'
      exact .inr (by rw [hfind]; rfl)
    · have hr := h.removed hat
      have hqueued : b ∈ (s.implCancel a t).timers ∨ b ∈ (s.implCancel a t).applicants :=
        hb.imp_right fun hb => (Finset.mem_insert.mp hb).resolve_left hne
      refine .inl ⟨b, (hr.queued hqueued).2, t', ?_, rfl⟩
      rw [← hr.heap b hne]
      exact (store_other _ hne).symm.trans ht'
  · exact .inl hdue

theorem setTimeout_due {n : Nat} {f : Timeval → Timeval}
    (hs : s.withValid n (fun a t => s.setTimeout a t (f t.time)) = some s')
    (hmoves : (s.find n).map (fun x => f x.2.time) = some time) : s'.Due time := by
  obtain ⟨x, hfind, rfl⟩ := Option.map_eq_some_iff.mp hmoves
  rcases withValid_cases hs with ⟨a, t, hfind', -, -, rfl⟩ | ⟨hnone, -⟩
  · cases hfind.symm.trans hfind'
    exact ⟨a, .inr (Finset.mem_insert_self a _), _, store_self _ _ _, rfl⟩
  · cases hfind.symm.trans hnone

/-- A step that posts nothing makes at most the time due to which it moves a timer. -/
theorem due_of_step (h : Containers s) {l : Label} (hl : l.signals = false)
    (hs : s.step l = some s') (hdue : s'.Due time) : s.Due time ∨ l.moves s = some time := by
  cases l with
  | post duration addr => cases hl
  | cancel n => exact .inl (due_of_cancel h hs hdue)
  | delay n neg sec usec =>
    obtain ⟨s₁, hs₁, rfl⟩ := Option.map_eq_some_iff.mp hs
    exact due_of_setTimeout h hs₁ hdue
  | reset n sec usec =>
    obtain ⟨s₁, hs₁, rfl⟩ := Option.map_eq_some_iff.mp hs
    exact due_of_setTimeout (f := fun _ => s.clock.plus (timeval sec usec)) h hs₁ hdue
  | poll now order => exact .inl (due_of_poll hs hdue)
  | ret i => exact .inl (due_of_ret hs hdue)
  | tick now =>
    cases hs
    exact .inl hdue

theorem step_due {l : Label} (hs : s.step l = some s') (hmoves : l.moves s = some time) :
    s'.Due time := by
  cases l with
  | delay n neg sec usec =>
    obtain ⟨s₁, hs₁, rfl⟩ := Option.map_eq_some_iff.mp hs
    obtain ⟨a, ha, hat⟩ := setTimeout_due hs₁ hmoves
    exact ⟨a, ha, hat⟩
  | reset n sec usec =>
    obtain ⟨s₁, hs₁, rfl⟩ := Option.map_eq_some_iff.mp hs
    obtain ⟨a, ha, hat⟩ :=
      setTimeout_due (f := fun _ => s.clock.plus (timeval sec usec)) hs₁ hmoves
    exact ⟨a, ha, hat⟩
  | _ => cases hmoves

/-- The first of `timers` is due first of them. -/
theorem Containers.first_le (h : Containers s) {a : Nat} {t : TimerImpl} (ha : a ∈ s.timers)
    (hat : s.heap a = some t) : ∃ first, s.first = some first ∧ first ≤ t.time := by
  cases htimers : s.timers with
  | nil =>
    rw [htimers] at ha
    cases ha
  | cons b timers =>
    obtain ⟨-, u, hbu, -⟩ := h.timers_live b (htimers ▸ List.mem_cons_self)
    refine ⟨u.time, by simp [Dispatcher.first, htimers, hbu], ?_⟩
    have hsorted := h.sorted
    rw [htimers] at ha hsorted
    rcases List.mem_cons.mp ha with rfl | ha
    · cases hat.symm.trans hbu
      exact le_rfl
    · have hlt := (List.pairwise_cons.mp hsorted).1 a ha
      rw [key_of_heap hat, key_of_heap hbu, Prod.Lex.toLex_lt_toLex] at hlt
      rcases hlt with hlt | ⟨heq, -⟩
      · exact hlt.le
      · exact heq.le

end Due

section Covered

/-! ## Each step -/

variable {p p' : Poller}

theorem wait_covered (h : Containers p.dispatcher) (hs : p.wait = some p') :
    p.Meets .wait ↔ p'.Covered := by
  unfold Poller.wait at hs
  split at hs
  · cases hs
    constructor
    · rintro hmeets w hw
      cases hw
      refine .inr ?_
      rintro time ⟨a, ha | ha, t, hat, rfl⟩
      · exact h.first_le ha hat
      · exact hmeets a ha t hat
    · intro hcovered a ha t hat
      rcases hcovered _ rfl with hsignalled | hdue
      · cases hsignalled
      · exact hdue t.time ⟨a, .inr ha, t, hat, rfl⟩
  · cases hs

theorem call_covered (h : Containers p.dispatcher) (hcovered : p.Covered) {l : Label}
    (hs : p.call l = some p') : p.Meets (.call l) ↔ p'.Covered := by
  obtain ⟨s', hstep, rfl⟩ := Option.map_eq_some_iff.mp hs
  cases hl : l.signals with
  | true =>
    -- a post moves no timer, and wakes the thread
    have hmoves : l.moves p.dispatcher = none := by
      cases l <;> first | rfl | cases hl
    refine iff_of_true (fun w time _ _ hmoved => ?_) fun w hw => ?_
    · rw [hmoves] at hmoved
      cases hmoved
    · simp only [if_true, Poller.signal] at hw
      obtain ⟨v, -, rfl⟩ := Option.map_eq_some_iff.mp hw
      exact .inl rfl
  | false =>
    simp only [Bool.false_eq_true, if_false]
    constructor
    · intro hmeets w hw
      by_cases hsignalled : w.signalled = true
      · exact .inl hsignalled
      · refine .inr fun time hdue => ?_
        rcases due_of_step h hl hstep hdue with hold | hmoves
        · exact (hcovered w hw).resolve_left hsignalled time hold
        · exact hmeets w time hw (eq_false_of_ne_true hsignalled) hmoves
    · intro hcovered' w time hw hsignalled hmoves
      rcases hcovered' w hw with hyes | hdue
      · rw [hsignalled] at hyes
        cases hyes
      · exact hdue time (step_due hstep hmoves)

theorem step_covered {e : Event} (h : Containers p.dispatcher) (hcovered : p.Covered)
    (hs : p.step e = some p') :
    Containers p'.dispatcher ∧ (p.Meets e ↔ p'.Covered) := by
  cases e with
  | call l =>
    refine ⟨?_, call_covered h hcovered hs⟩
    obtain ⟨s', hstep, rfl⟩ := Option.map_eq_some_iff.mp hs
    have hkept := h.step hstep
    cases hl : l.signals with
    | true => exact hkept
    | false => exact hkept
  | wait =>
    refine ⟨?_, wait_covered h hs⟩
    simp only [Poller.step, Poller.wait] at hs
    split at hs
    · cases hs
      exact h
    · cases hs
  | wake =>
    obtain ⟨w, -, rfl⟩ := Option.map_eq_some_iff.mp hs
    exact ⟨h, iff_of_true trivial fun w hw => nomatch hw⟩

end Covered

section Runs

/-! ## Each run -/

/-- No timer is slept through in a run, at any point of it, iff each of its steps meets the
condition. -/
theorem covered_iff (es : List Event) :
    Poller.init.Admissible es ↔
      ∀ k p, Poller.init.run (es.take k) = some p → p.Covered :=
  Lib.meeting_iff (I := fun p => Containers p.dispatcher)
    (fun _ _ _ h hcovered hs => step_covered h hcovered hs) containers_init
    (by rintro w ⟨⟩) es

/-- The wake-up is armed for ten seconds, then the timer is moved to one second, and the
thread still sleeps at five. -/
def movedRun : List Event :=
  [.call (.post (timeval 10 0) 0), .call (.poll (timeval 0 0) [0]), .wait,
    .call (.delay 0 true 9 0), .call (.tick (timeval 5 0))]

/-- A timer is posted after the poll of a round, before the `wait`. -/
def postedRun : List Event :=
  [.call (.poll (timeval 0 0) []), .call (.post (timeval 1 0) 0), .wait]

/-- A timer that is moved in the sleep, and one that is posted before it, are slept through. -/
theorem slept_through :
    (∃ p, Poller.init.run movedRun = some p ∧ ¬ p.Covered) ∧
      ∃ p, Poller.init.run postedRun = some p ∧ ¬ p.Covered := by
  constructor
  · refine ⟨_, rfl, fun hcovered => ?_⟩
    rcases hcovered _ rfl with hsignalled | hdue
    · cases hsignalled
    · obtain ⟨armed, harmed, hle⟩ := hdue (timeval 1 0) ⟨0, by decide, _, rfl, by decide⟩
      cases harmed
      exact absurd hle (by decide)
  · refine ⟨_, rfl, fun hcovered => ?_⟩
    rcases hcovered _ rfl with hsignalled | hdue
    · cases hsignalled
    · obtain ⟨armed, harmed, -⟩ := hdue (timeval 1 0) ⟨0, by decide, _, rfl, by decide⟩
      cases harmed

end Runs

end Nox.Timer
