import Nox.Threads.SchedulerRuns

/-!
# What the scheduler has done in a run

The runs of a group with all that was done in them: what has been woken since `co_block` returned
the last time, and what the invariant says of the group's own lists and flags.
-/

namespace Nox.Threads

open Lib

section History

/-! ## What has been woken since `co_block` -/

variable {T Q V : Type} [DecidableEq T] [DecidableEq Q] [DecidableEq V] {isFsm : T → Bool}
  {s s' : CoGroup T Q V} {op : CoOp T Q V} {history : List (CoGroup T Q V × CoOp T Q V)} {t : T}

/-- An event of the thread is woken, at once or from a queue. -/
def CoOp.Wakes (op : CoOp T Q V) (s : CoGroup T Q V) (t : T) : Prop :=
  match op with
  | .immediateWake _ _ => s.coSelf = t
  | .wake op => t ∈ (op.wakes s.waits.queue).map (·.1)
  | _ => False

/-- `co_block` returns in the thread. -/
def CoOp.Returns (op : CoOp T Q V) (s : CoGroup T Q V) (t : T) : Prop :=
  match op with
  | .blockReturn => s.current = t
  | _ => False

/-- An event of the thread has been woken since `co_block` returned in it the last time. -/
def WokenSince (t : T) : List (CoGroup T Q V × CoOp T Q V) → Prop
  | [] => False
  | (s, op) :: earlier => op.Wakes s t ∨ ¬op.Returns s t ∧ WokenSince t earlier

theorem CoGroup.WasWoken.of_wakeFirst {q : Q} {retval : Int} {k : Nat}
    (h : ∃ e ∈ (s.waits.wakeFirst q retval k).events t, e.wq = none) :
    t ∈ ((s.waits.queue q).take k).map (·.1) ∨ s.WasWoken t := by
  obtain ⟨e, he, hwq⟩ := h
  obtain ⟨i, hi⟩ := List.mem_iff_getElem?.mp he
  rw [Waits.getElem?_wakeFirst, Option.map_eq_some_iff] at hi
  obtain ⟨e', he', rfl⟩ := hi
  by_cases hmem : (t, i) ∈ (s.waits.queue q).take k
  · exact .inl (List.mem_map_of_mem hmem)
  · rw [if_neg hmem] at hwq
    exact .inr ⟨e', List.mem_of_getElem? he', hwq⟩

/-- The operation on wait queues that an operation of the group does, if it does one. -/
def CoOp.Does (isFsm : T → Bool) (s : CoGroup T Q V) (wop : WaitOp T Q V) : CoOp T Q V → Prop
  | .wait q retvalp => wop = .wait s.coSelf q retvalp
  | .immediateWake retval retvalp => wop = .immediateWake s.coSelf retval retvalp
  | .wake op => wop = op ∧ op.isWake = true ∧ op.Valid
  | .blockReturn => wop = .cancel s.current
  | _ => ∃ f, isFsm f = true ∧ wop = .cancel f

/-- The events are as they were, or that operation has been done. -/
def CoGroup.Execs (isFsm : T → Bool) (op : CoOp T Q V) (s s' : CoGroup T Q V) : Prop :=
  s'.waits = s.waits ∨ ∃ wop, op.Does isFsm s wop ∧ s'.waits = s.waits.exec wop

theorem CoGroup.execs_fsmRun {n : NodeLists RunList T} {f : T}
    (hop : isFsm f = true → op.Does isFsm s (.cancel f)) :
    Yields (s.Execs isFsm op) ({ s with lists := n }.fsmRun isFsm f) := by
  refine Yields.bind fun _ _ => Yields.ite (fun _ => Yields.error) fun hnot => Yields.ok ?_
  simp only [Bool.or_eq_true, Bool.not_eq_eq_eq_not, Bool.not_true, not_or, Bool.not_eq_false,
    Bool.not_eq_true] at hnot
  exact .inr ⟨_, hop hnot.1.2, rfl⟩

theorem CoGroup.execs_fsmActs {f : T × CoGroup T Q V → Except Stop (CoGroup T Q V)}
    (hf : ∀ p : T × CoGroup T Q V, p.2.waits = s.waits → Yields (s.Execs isFsm op) (f p)) :
    Yields (s.Execs isFsm op) (s.fsmActs >>= f) := by
  refine Yields.bind fun p hp => hf p ?_
  unfold CoGroup.fsmActs at hp
  split at hp
  · cases hp
  · split at hp
    · cases hp
    · cases hp
      rfl

theorem CoGroup.execs_fsmBlock : Yields (s.Execs isFsm op) s.fsmBlock := by
  refine CoGroup.execs_fsmActs fun p hwaits => ?_
  refine Yields.ite (fun _ => ?_) fun _ => Yields.ok (.inl hwaits)
  exact Yields.bind fun _ _ => Yields.ok (.inl hwaits)

theorem CoGroup.execs_coYield (p done : Phase) :
    Yields (s.Execs isFsm op) (s.coYield p done) :=
  Yields.ite (fun _ => Yields.ok (.inl rfl)) fun _ =>
    Yields.ite (fun _ => Yields.bind fun _ _ => Yields.ok (.inl rfl)) fun _ =>
      Yields.bind fun _ _ => Yields.ok (.inl rfl)

theorem CoGroup.execs_fsmReturn : Yields (s.Execs isFsm op) s.fsmReturn := by
  unfold CoGroup.fsmReturn
  split
  · exact Yields.error
  · refine Yields.ite (fun _ => Yields.error) fun _ => Yields.ite (fun _ => ?_) fun _ => ?_
    · exact Yields.ite (fun _ => Yields.error) fun _ => Yields.ok (.inl rfl)
    · exact Yields.ite (fun _ => Yields.ok (.inl rfl)) fun _ => Yields.error

theorem CoGroup.execs_schedule :
    Yields (s.Execs isFsm .schedule) (s.schedule isFsm) := by
  unfold CoGroup.schedule
  split
  · exact Yields.error
  · refine Yields.ite (fun _ => ?_) fun _ => Yields.ok (.inl rfl)
    exact CoGroup.execs_fsmRun fun hfsm => ⟨_, hfsm, rfl⟩

/-- What a step does to the events, one case for each operation. -/
theorem CoGroup.execs_step (op : CoOp T Q V) : Yields (s.Execs isFsm op) (s.step isFsm op) := by
  cases op with
  | create thread =>
    refine Yields.ite (fun _ => ?_) fun _ => Yields.error
    exact Yields.ite (fun _ => Yields.error) fun _ => Yields.bind fun _ _ => Yields.ok (.inl rfl)
  | wait q retvalp =>
    exact Yields.ite (fun _ => Yields.ok (.inr ⟨_, rfl, rfl⟩)) fun _ => Yields.error
  | immediateWake retval retvalp =>
    refine Yields.ite (fun _ => ?_) fun _ => Yields.error
    refine Yields.ite (fun _ => Yields.error) fun _ => Yields.ite (fun _ => ?_) fun _ => ?_
    · exact Yields.bind fun _ _ => Yields.ok (.inr ⟨_, rfl, rfl⟩)
    · exact Yields.bind fun _ _ => Yields.ok (.inr ⟨_, rfl, rfl⟩)
  | wake op =>
    refine Yields.ite (fun _ => ?_) fun _ => Yields.error
    refine Yields.ite (fun _ => Yields.error) fun hwake => Yields.ite (fun _ => Yields.error) ?_
    intro hvalid
    have hdoes : CoOp.Does isFsm s op (.wake op) :=
      ⟨rfl, by simpa using hwake, not_not.mp hvalid⟩
    exact Yields.bind fun _ _ => Yields.ok (.inr ⟨op, hdoes, rfl⟩)
  | coYield => exact Yields.ite (fun _ => CoGroup.execs_coYield _ _) fun _ => Yields.error
  | coBlock =>
    refine Yields.ite (fun _ => Yields.bind fun _ _ => Yields.ite (fun _ => ?_) fun _ => ?_)
      fun _ => Yields.error
    · exact Yields.bind fun _ _ => Yields.ok (.inl rfl)
    · exact Yields.ok (.inl rfl)
  | fsmRun f =>
    refine Yields.ite (fun _ => ?_) fun _ => Yields.error
    exact CoGroup.execs_fsmRun fun hfsm => ⟨f, hfsm, rfl⟩
  | fsmWake f =>
    refine Yields.ite (fun _ => ?_) fun _ => Yields.error
    refine Yields.ite (fun _ => Yields.error) fun _ => Yields.ite (fun _ => ?_) fun _ => ?_
    · exact Yields.bind fun _ _ => Yields.bind fun _ _ => Yields.ok (.inl rfl)
    · exact Yields.ok (.inl rfl)
  | fsmKill f =>
    refine Yields.ite (fun _ => ?_) fun _ => Yields.error
    refine Yields.ite (fun _ => Yields.error) fun hnot => Yields.bind fun _ _ => Yields.ok ?_
    simp only [Bool.or_eq_true, Bool.not_eq_eq_eq_not, Bool.not_true, not_or, Bool.not_eq_false,
      Bool.not_eq_true] at hnot
    exact .inr ⟨_, ⟨f, hnot.1.2, rfl⟩, rfl⟩
  | fsmBlock => exact CoGroup.execs_fsmBlock
  | fsmRest => exact Yields.ite (fun _ => Yields.error) fun _ => CoGroup.execs_fsmBlock
  | fsmYield =>
    refine CoGroup.execs_fsmActs fun p hwaits => ?_
    exact Yields.bind fun _ _ => Yields.ok (.inl hwaits)
  | fsmExit => exact CoGroup.execs_fsmActs fun p hwaits => Yields.ok (.inl hwaits)
  | fsmReturn => exact CoGroup.execs_fsmReturn
  | polled => exact Yields.ite (fun _ => CoGroup.execs_coYield _ _) fun _ => Yields.error
  | schedule => exact Yields.ite (fun _ => CoGroup.execs_schedule) fun _ => Yields.error
  | blockReturn =>
    refine Yields.ite (fun _ => ?_) fun _ => Yields.error
    exact Yields.ite (fun _ => Yields.error) fun _ => Yields.ok (.inr ⟨_, rfl, rfl⟩)

/-- The end of `co_block` cancels the events of the thread. -/
theorem CoGroup.waits_blockReturn {s' : CoGroup T Q V} (h : s.step isFsm .blockReturn = .ok s') :
    s'.waits = s.waits.exec (.cancel s.current) := by
  have hcancels : Yields (fun s' => s'.waits = s.waits.exec (.cancel s.current))
      (s.step isFsm .blockReturn) :=
    Yields.ite (fun _ => Yields.ite (fun _ => Yields.error) fun _ => Yields.ok rfl) fun _ =>
      Yields.error
  exact hcancels _ h

/-- A thread whose events are cancelled has none that was woken, and the others keep theirs. -/
theorem CoGroup.WasWoken.of_cancel {f : T}
    (h : ∃ e ∈ (s.waits.exec (.cancel f)).events t, e.wq = none) : t ≠ f ∧ s.WasWoken t := by
  obtain ⟨e, he, hwq⟩ := h
  change e ∈ Function.update s.waits.events f [] t at he
  by_cases ht : t = f
  · rw [ht, Function.update_self] at he
    cases he
  · rw [Function.update_of_ne ht] at he
    exact ⟨ht, e, he, hwq⟩

/-- Events are woken by these operations only, and gone when `co_block` returns. -/
theorem CoGroup.woken_step (op : CoOp T Q V) (t : T) :
    Yields (fun s' => s'.WasWoken t → op.Wakes s t ∨ ¬op.Returns s t ∧ s.WasWoken t)
      (s.step isFsm op) := by
  intro s' hs' hwoken
  unfold CoGroup.WasWoken at hwoken
  obtain hsame | ⟨wop, hdoes, hexec⟩ := CoGroup.execs_step op _ hs'
  · refine .inr ⟨fun hreturns => ?_, CoGroup.WasWoken.congr hwoken (by rw [hsame])⟩
    cases op with
    | blockReturn =>
      rw [CoGroup.waits_blockReturn hs'] at hwoken
      exact (CoGroup.WasWoken.of_cancel hwoken).1 hreturns.symm
    | _ => exact hreturns
  · rw [hexec] at hwoken
    cases op with
    | wait q retvalp =>
      cases hdoes
      obtain ⟨e, he, hwq⟩ := hwoken
      rw [Waits.exec, Waits.events_wait] at he
      refine .inr ⟨id, ?_⟩
      by_cases ht : t = s.coSelf
      · subst ht
        rw [Function.update_self, List.mem_append, List.mem_singleton] at he
        rcases he with he | rfl
        · exact ⟨e, he, hwq⟩
        · cases hwq
      · rw [Function.update_of_ne ht] at he
        exact ⟨e, he, hwq⟩
    | immediateWake retval retvalp =>
      cases hdoes
      obtain ⟨e, he, hwq⟩ := hwoken
      by_cases ht : t = s.coSelf
      · exact .inl ht.symm
      · rw [Waits.exec, Waits.events_immediateWake, Function.update_of_ne ht] at he
        exact .inr ⟨id, e, he, hwq⟩
    | wake op =>
      obtain ⟨rfl, hwake, -⟩ := hdoes
      obtain ⟨q, retval, k, hfirst, hwakes⟩ := WaitOp.wakes_eq hwake s.waits
      rw [hfirst] at hwoken
      rcases CoGroup.WasWoken.of_wakeFirst hwoken with hmem | hold
      · refine .inl ?_
        change t ∈ (wop.wakes s.waits.queue).map (·.1)
        rwa [hwakes]
      · exact .inr ⟨id, hold⟩
    | blockReturn =>
      cases hdoes
      obtain ⟨ht, hold⟩ := CoGroup.WasWoken.of_cancel hwoken
      exact .inr ⟨fun hcurrent => ht hcurrent.symm, hold⟩
    | _ =>
      obtain ⟨f, -, rfl⟩ := hdoes
      exact .inr ⟨id, (CoGroup.WasWoken.of_cancel hwoken).2⟩

/-- In a run, what has been woken has been woken since `co_block` returned. -/
theorem CoGroup.Run.wokenSince (h : CoGroup.Run isFsm history s) (hwoken : s.WasWoken t) :
    WokenSince t history := by
  induction h with
  | init =>
    obtain ⟨e, he, -⟩ := hwoken
    cases he
  | step _ hstep ih =>
    rcases CoGroup.woken_step _ t _ hstep hwoken with hwakes | ⟨hreturns, hold⟩
    · exact .inl hwakes
    · exact .inr ⟨hreturns, ih hold⟩

end History

section Consistency

/-! ## The group in its own data -/

variable {T Q V : Type} {isFsm : T → Bool} {s s' : CoGroup T Q V} {place : T → Option RunList}
  {history : List (CoGroup T Q V × CoOp T Q V)} {t : T}

/-- A machine that has been called, or the thread that has the processor in its own code. -/
def CoGroup.Runs (s : CoGroup T Q V) (t : T) : Prop :=
  t ∈ s.fsms ∨
    t = s.current ∧ s.phase t ∈ [Phase.running, Phase.polling, Phase.returning]

/-- Who does not run is on one of the two lists, and who runs on none, but for the ready list with
an event that has been woken, and for a machine that has taken its action.  Events are on the queues
they wait on. -/
structure CoGroup.Consistent (isFsm : T → Bool) (s : CoGroup T Q V) : Prop where
  ready_mem : ∀ i t, (i, t) ∈ s.lists.list .ready ↔ s.ready t = true ∧ i = s.lists.iter t
  block_mem : ∀ i t, (i, t) ∈ s.lists.list .block ↔ s.blocking t = true ∧ i = s.lists.iter t
  once : ∀ l, ((s.lists.list l).map Prod.snd).Nodup
  one_list : ∀ t, ¬(s.ready t = true ∧ s.blocking t = true)
  queued : ∀ q r, r ∈ s.waits.queue q ↔ s.waits.On q r
  members : ∀ t, s.ready t = true ∨ s.blocking t = true → s.member t = true
  listed : ∀ t, s.member t = true → ¬s.Runs t → s.ready t = true ∨ s.blocking t = true
  runs_ready : ∀ t, s.Runs t → s.ready t = true →
    s.WasWoken t ∨ isFsm t = true ∧ s.fsmAction t = true
  runs_block : ∀ t, s.Runs t → s.blocking t = true → isFsm t = true ∧ s.fsmAction t = true

/-- A thread of the group is listed as its phase has it. -/
theorem Phase.Allows.listed {p : Phase} {current woken : Prop} {l : Option RunList}
    (h : p.Allows current woken l) :
    (current ∧ p ∈ [Phase.running, Phase.polling, Phase.returning] ∧
        (l = none ∨ l = some .ready ∧ woken)) ∨
      p ∉ [Phase.running, Phase.polling, Phase.returning] ∧ l ≠ none := by
  cases p with
  | start => exact .inr ⟨by decide, by rw [show l = _ from h]; nofun⟩
  | running => exact .inl ⟨h.1, by decide, h.2⟩
  | yielding => exact .inr ⟨by decide, by rw [show l = _ from h]; nofun⟩
  | blocking =>
    refine .inr ⟨by decide, ?_⟩
    rcases h with hblock | hready
    · rw [hblock]
      nofun
    · rw [hready.1]
      nofun
  | polling => exact .inl ⟨h.1, by decide, h.2.2.imp_right fun hready => ⟨hready, h.2.1⟩⟩
  | blockYielding => exact .inr ⟨by decide, by rw [h.1]; nofun⟩
  | returning => exact .inl ⟨h.1, by decide, .inl h.2.2⟩

/-- Where a thread or machine that runs is listed. -/
theorem CoGroup.Good.of_runs (h : s.Good isFsm place) (hruns : s.Runs t) :
    isFsm t = true ∧ s.fsmAction t = true ∨
      (place t = none ∨ place t = some .ready ∧ s.WasWoken t) := by
  have hknows := h.knows t
  rcases hruns with hmem | ⟨rfl, hphase⟩
  · obtain ⟨hmember, hfsm⟩ := h.fsms t hmem
    cases haction : s.fsmAction t with
    | true => exact .inl ⟨hfsm, rfl⟩
    | false =>
      refine .inr ((hknows.fsm hmember hfsm).1 hmem ?_)
      rw [haction]
      nofun
  · refine .inr ?_
    rcases h.allows.listed with ⟨-, -, hplace⟩ | ⟨hnot, -⟩
    · exact hplace
    · exact absurd hphase hnot

/-- One that does not run is listed. -/
theorem CoGroup.Good.of_not_runs (h : s.Good isFsm place) (hmember : s.member t = true)
    (hnot : ¬s.Runs t) : place t ≠ none := by
  have hknows := h.knows t
  cases hfsm : isFsm t with
  | true => exact (hknows.fsm hmember hfsm).2 fun hmem => hnot (.inl hmem)
  | false =>
    rcases (hknows.thread hmember hfsm).listed with ⟨hcurrent, hphase, -⟩ | ⟨-, hplace⟩
    · exact absurd (.inr ⟨hcurrent, hphase⟩) hnot
    · exact hplace

theorem CoGroup.Good.consistent (h : s.Good isFsm place) : s.Consistent isFsm where
  ready_mem i t := by
    rw [h.shows.mem, CoGroup.ready, h.shows.flag]
  block_mem i t := by
    rw [h.shows.mem, CoGroup.blocking, h.shows.flag]
  once := h.shows.nodup_elems
  one_list := by
    rintro t ⟨hready, hblocking⟩
    have hplace := ((h.shows.flag .ready t).mp hready).symm.trans
      ((h.shows.flag .block t).mp hblocking)
    cases hplace
  queued := h.sound.mem_iff
  members := by
    intro t hlisted
    refine (h.knows t).member fun hnone => ?_
    rcases hlisted with hready | hblocking
    · exact absurd (((h.shows.flag .ready t).mp hready).symm.trans hnone) nofun
    · exact absurd (((h.shows.flag .block t).mp hblocking).symm.trans hnone) nofun
  listed := by
    intro t hmember hnot
    cases hplace : place t with
    | none => exact absurd hplace (h.of_not_runs hmember hnot)
    | some l =>
      cases l with
      | ready => exact .inl ((h.shows.flag .ready t).mpr hplace)
      | block => exact .inr ((h.shows.flag .block t).mpr hplace)
  runs_ready := by
    intro t hruns hready
    rcases h.of_runs hruns with hacted | hnone | hwoken
    · exact .inr hacted
    · exact absurd (((h.shows.flag .ready t).mp hready).symm.trans hnone) nofun
    · exact .inl hwoken.2
  runs_block := by
    intro t hruns hblocking
    have hplace := (h.shows.flag .block t).mp hblocking
    rcases h.of_runs hruns with hacted | hnone | hwoken
    · exact hacted
    · exact absurd (hplace.symm.trans hnone) nofun
    · exact absurd (hplace.symm.trans hwoken.1) nofun

variable [DecidableEq T] [DecidableEq Q] [DecidableEq V]

/-- Events can be woken in any state in which someone runs or the lists are looked through. -/
theorem CoGroup.Good.wake_ready (h : s.Good isFsm place) (op : WaitOp T Q V)
    (hwake : op.isWake = true) (hvalid : op.Valid) (hreturning : s.phase s.current ≠ .returning) :
    ∃ s', s.step isFsm (.wake op) = .ok s' ∧
      ∀ r ∈ op.wakes s.waits.queue, s'.ready r.1 = true ∧ s'.blocking r.1 = false := by
  obtain ⟨s', hs', hgood⟩ := h.wake_eq hreturning hwake hvalid
  have hwho : s.InCode ∨ s.phase s.current = .polling := by
    by_cases hpolling : s.phase s.current = .polling
    · exact .inr hpolling
    · exact .inl (.inr ⟨hpolling, hreturning⟩)
  refine ⟨s', (if_pos hwho).trans hs', fun r hr => ?_⟩
  have hmem : r.1 ∈ (op.wakes s.waits.queue).map (·.1) := List.mem_map_of_mem hr
  refine ⟨(hgood.shows.flag .ready r.1).mpr (if_pos hmem), hgood.shows.flag_eq_false ?_⟩
  rw [if_pos hmem]
  nofun

/-- In every run of a group who does not run is on the ready list or the list of the blocked, at the
iterator that it stores; a thread whose event is woken is ready, however many are woken; `co_block`
returns only after an event of the thread has been woken since it returned the last time, passes its
assertion, and leaves none of its events on a queue. -/
theorem CoGroup.Run.consistent_group (h : CoGroup.Run isFsm history s) :
    s.Consistent isFsm ∧
      (∀ op : WaitOp T Q V, op.isWake = true → op.Valid → s.phase s.current ≠ .returning →
        ∃ s', s.step isFsm (.wake op) = .ok s' ∧
          ∀ r ∈ op.wakes s.waits.queue, s'.ready r.1 = true ∧ s'.blocking r.1 = false) ∧
      (s.fsms = [] → s.phase s.current = .returning → WokenSince s.current history ∧
        ∃ s', s.step isFsm .blockReturn = .ok s' ∧ s'.waits.events s.current = [] ∧
          ∀ q i, (s.current, i) ∉ s'.waits.queue q) ∧
      ∀ op, s.step isFsm op ≠ .error .undefined := by
  obtain ⟨place, hgood⟩ := h.well
  refine ⟨hgood.consistent, hgood.wake_ready, fun hfsms hreturning => ?_,
    fun op => (hgood.step op).1⟩
  obtain ⟨hwoken, hreturn, -⟩ := hgood.blockReturn_eq hfsms hreturning
  refine ⟨h.wokenSince hwoken, _, (if_pos ⟨hfsms, hreturning⟩).trans hreturn,
    Function.update_self .., fun q i hmem => ?_⟩
  exact absurd rfl (of_decide_eq_true (List.mem_filter.mp hmem).2)

/-- The operations of a run that goes on. -/
theorem CoGroup.Run.ops {ops : List (CoOp T Q V)} {s' : CoGroup T Q V}
    (h : CoGroup.Run isFsm history s) (hops : ops.foldlM (CoGroup.step isFsm) s = .ok s') :
    ∃ history', CoGroup.Run isFsm history' s' := by
  induction ops generalizing history s with
  | nil =>
    cases hops
    exact ⟨history, h⟩
  | cons op ops ih =>
    rw [List.foldlM_cons] at hops
    cases hstep : s.step isFsm op with
    | error e =>
      rw [hstep] at hops
      cases hops
    | ok s₁ =>
      rw [hstep] at hops
      exact ih (h.step hstep) hops

/-- The thread 0 waits on two queues and blocks.  The thread 1 runs the machine 2, which waits on a
third one; then it wakes both events of the thread 0 and blocks, and the thread 0 is scheduled. -/
def wokenTwice : List (CoOp Nat Nat Nat) :=
  [.create 1, .create 2, .wait 0 none, .wait 1 none, .coBlock, .schedule, .fsmRun 2, .wait 2 none,
    .fsmBlock, .fsmReturn, .wake (.wake1 0 7), .wake (.wakeAll 1 8), .wait 3 none, .coBlock,
    .schedule]

/-- `co_block` returns in the thread 0, the others are blocked. -/
theorem CoGroup.consistent_group_returning :
    ∃ (s : CoGroup Nat Nat Nat) (history : List (CoGroup Nat Nat Nat × CoOp Nat Nat Nat)),
      wokenTwice.foldlM (CoGroup.step (· == 2)) (CoGroup.init 0 fun _ => 0) = .ok s ∧
      s.blocking 1 = true ∧ s.blocking 2 = true ∧ s.Consistent (· == 2) ∧ WokenSince 0 history ∧
      ∃ s', s.step (· == 2) .blockReturn = .ok s' ∧ s'.waits.events 0 = [] := by
  obtain ⟨s, hs⟩ : ∃ s, wokenTwice.foldlM (CoGroup.step (· == 2)) (CoGroup.init 0 fun _ => 0) =
      .ok s := ⟨_, rfl⟩
  have hends : s.fsms = [] ∧ s.current = 0 ∧ s.phase 0 = .returning ∧ s.blocking 1 = true ∧
      s.blocking 2 = true := by
    cases hs
    exact ⟨rfl, rfl, rfl, rfl, rfl⟩
  obtain ⟨hfsms, hcurrent, hphase, hblocking, hblocking'⟩ := hends
  obtain ⟨history, hrun⟩ := CoGroup.Run.ops (.init 0 _ rfl) hs
  obtain ⟨hconsistent, -, hreturn, -⟩ := CoGroup.Run.consistent_group hrun
  obtain ⟨hwoken, s', hs', hevents, -⟩ := hreturn hfsms (hcurrent ▸ hphase)
  rw [hcurrent] at hwoken hevents
  exact ⟨s, history, hs, hblocking, hblocking', hconsistent, hwoken, s', hs', hevents⟩

/-- The thread that runs is on the ready list after `co_immediate_wake`. -/
theorem CoGroup.runs_on_ready_list : ∃ s : CoGroup Nat Nat Nat,
    CoGroup.Run (fun _ => false) [(CoGroup.init 0 fun _ => 0, .immediateWake 1 none)] s ∧
      s.Runs 0 ∧ (0, 0) ∈ s.lists.list .ready :=
  ⟨_, .step (.init 0 (fun _ => 0) rfl)
    (show CoGroup.step _ _ (.immediateWake 1 none) = .ok _ from rfl),
    .inr ⟨rfl, by decide⟩, by decide⟩

end Consistency

end Nox.Threads
