import Nox.Threads.Waits

/-!
# Threads in calls

A thread in a call that blocks has registered one event, and does nothing until it has been
woken.  What the other threads do meanwhile on other queues leaves the event and the queue it
waits on.
-/

namespace Nox.Threads

section Effects

/-! ## What operations change -/

namespace Waits

variable {T Q V : Type} [DecidableEq T] [DecidableEq Q] [DecidableEq V] {w : Waits T Q V}
  {t u : T} {q q' : Q} {r : T × Nat} {retvalp : Option V}

theorem events_wait : (w.wait t q retvalp).events =
    Function.update w.events t (w.events t ++ [⟨some q, t, retvalp⟩]) := by
  simp only [wait, events_setVar, events_addEvent]

theorem events_immediateWake (retval : Int) : (w.immediateWake t retval retvalp).events =
    Function.update w.events t (w.events t ++ [⟨none, t, retvalp⟩]) := by
  simp only [immediateWake, events_setVar, events_addEvent]

theorem Sound.mem_queue_wait (h : w.Sound) : r ∈ (w.wait t q retvalp).queue q' ↔
    r ∈ w.queue q' ∨ r = (t, (w.events t).length) ∧ q = q' := by
  rw [(h.wait t q retvalp).mem_iff, h.mem_iff]
  unfold On
  rw [events_wait, ← events_addEvent (e := ⟨some q, t, retvalp⟩)]
  exact on_addEvent.trans (by simp [On])

theorem Sound.mem_queue_immediateWake (h : w.Sound) (retval : Int) :
    r ∈ (w.immediateWake t retval retvalp).queue q' ↔ r ∈ w.queue q' := by
  rw [(h.immediateWake t retval retvalp).mem_iff, h.mem_iff]
  unfold On
  rw [events_immediateWake, ← events_addEvent (e := ⟨none, t, retvalp⟩)]
  exact on_addEvent.trans (by simp [On])

omit [DecidableEq T] [DecidableEq Q] [DecidableEq V] in
/-- An event is woken through the queue it waits on. -/
theorem Sound.getElem?_of_mem (h : w.Sound) {i : Nat} {e : CoEvent T Q V}
    (hmem : (t, i) ∈ w.queue q) (he : (w.events t)[i]? = some e) : e.wq = some q := by
  obtain ⟨e', he', hq⟩ := (h.mem_iff q (t, i)).mp hmem
  rw [he] at he'
  cases he'
  exact hq

theorem vars_immediateWake (retval : Int) (v : V) :
    (w.immediateWake t retval (some v)).vars v = retval := by
  simp [immediateWake, setVar]

theorem vars_wait (v : V) : (w.wait t q (some v)).vars v = 0 := by
  simp [wait, setVar]

/-- Who waits is told the value it is woken with. -/
theorem vars_wakeFirst {retval : Int} {k i : Nat} {e : CoEvent T Q V} {v : V}
    (hmem : (t, i) ∈ (w.queue q).take k) (he : (w.events t)[i]? = some e)
    (hv : e.retvalp = some v) : (w.wakeFirst q retval k).vars v = retval := by
  have hkept (r : T × Nat) (w : Waits T Q V) (h : w.vars v = retval) :
      (wakeRef retval w r).vars v = retval := by
    unfold wakeRef
    split
    · exact h
    · rename_i e _
      cases e.retvalp with
      | none => exact h
      | some v' =>
        by_cases hv' : v = v'
        · subst hv'
          simp [setVar]
        · simpa [setVar, hv'] using h
  have hall (l : List (T × Nat)) (w : Waits T Q V) (h : w.vars v = retval) :
      (l.foldl (wakeRef retval) w).vars v = retval := by
    induction l generalizing w with
    | nil => exact h
    | cons r l ih => exact ih _ (hkept r w h)
  have hset (l : List (T × Nat)) (w : Waits T Q V) (e : CoEvent T Q V) (hmem : (t, i) ∈ l)
      (he : (w.events t)[i]? = some e) (hv : e.retvalp = some v) :
      (l.foldl (wakeRef retval) w).vars v = retval := by
    induction l generalizing w e with
    | nil => cases hmem
    | cons r l ih =>
      rw [List.foldl_cons]
      by_cases hr : (t, i) = r
      · subst hr
        refine hall l _ ?_
        simp [wakeRef, he, setVar, hv]
      · refine ih _ e ((List.mem_cons.mp hmem).resolve_left hr) ?_ hv
        rw [getElem?_wakeRef, he]
        simp [hr]
  exact hset _ w e hmem he hv

end Waits

end Effects

section Only

/-! ## One event -/

variable {T Q V : Type} {w w' : Waits T Q V} {t u : T} {q q' : Q} {P P' : Prop}

/-- The thread has registered one event, which waits on the queue or has been woken, and then
this holds. -/
def Waits.Only (w : Waits T Q V) (t : T) (q : Q) (P : Prop) : Prop :=
  ∃ e, w.events t = [e] ∧ (e.wq = some q ∨ e.wq = none ∧ P)

theorem Waits.Only.mono (h : w.Only t q P) (hP : P → P') : w.Only t q P' := by
  obtain ⟨e, he, hwq⟩ := h
  exact ⟨e, he, hwq.imp_right fun hnone => ⟨hnone.1, hP hnone.2⟩⟩

theorem Waits.Only.congr (h : w.Only t q P) (hsame : w'.events t = w.events t) :
    w'.Only t q P := by
  unfold Only
  rwa [hsame]

/-- It has been woken when one of its events has been. -/
theorem Waits.Only.woken (h : w.Only t q P) (hwoken : ∃ e ∈ w.events t, e.wq = none) : P := by
  obtain ⟨e, he, hwq⟩ := h
  obtain ⟨e', he', hnone⟩ := hwoken
  rw [he, List.mem_singleton] at he'
  subst he'
  rcases hwq with hwq | ⟨-, hP⟩
  · rw [hnone] at hwq
    cases hwq
  · exact hP

/-- It is its thread's first. -/
theorem Waits.Only.index_eq (h : w.Only t q P) (hw : w.Sound) {x : T × Nat}
    (hx : x ∈ w.queue q') (ht : x.1 = t) : x = (t, 0) := by
  obtain ⟨e, he, -⟩ := h
  obtain ⟨e', he', -⟩ := (hw.mem_iff q' x).mp hx
  rw [ht, he] at he'
  have hzero : x.2 = 0 := by simpa using (List.getElem?_eq_some_iff.mp he').1
  exact Prod.ext ht hzero

variable [DecidableEq T] [DecidableEq Q] [DecidableEq V]

/-- The event is woken when it is among the first of its queue. -/
theorem Waits.Only.wakeFirst (h : w.Only t q P) (hw : w.Sound) (retval : Int) (k : Nat) :
    (w.wakeFirst q' retval k).Only t q
      (P ∨ q' = q ∧ t ∈ ((w.queue q').take k).map (·.1)) := by
  obtain ⟨e, he, hwq⟩ := h
  have hevents : (w.wakeFirst q' retval k).events t =
      [if (t, 0) ∈ (w.queue q').take k then { e with wq := none } else e] := by
    refine List.ext_getElem? fun i => ?_
    rw [Waits.getElem?_wakeFirst, he]
    cases i <;> simp
  refine ⟨_, hevents, ?_⟩
  split
  · rename_i hmem
    refine Or.inr ⟨rfl, ?_⟩
    have hwq' := hw.getElem?_of_mem (List.mem_of_mem_take hmem) (by rw [he]; rfl)
    rcases hwq with hwq | ⟨-, hP⟩
    · rw [hwq'] at hwq
      exact Or.inr ⟨Option.some.inj hwq, List.mem_map.mpr ⟨_, hmem, rfl⟩⟩
    · exact Or.inl hP
  · exact hwq.imp_right fun hnone => ⟨hnone.1, Or.inl hnone.2⟩

/-- A thread that had no events waits on a queue. -/
theorem Waits.only_wait (h : w.events t = []) (retvalp : Option V) :
    (w.wait t q retvalp).Only t q P := by
  refine ⟨⟨some q, t, retvalp⟩, ?_, Or.inl rfl⟩
  rw [events_wait, Function.update_self, h]
  rfl

end Only

section Foreign

/-! ## Operations on other queues -/

variable {T Q V : Type}

/-- The thread that does the operation with its own events. -/
def WaitOp.actor : WaitOp T Q V → Option T
  | .wait t _ _ | .immediateWake t _ _ | .cancel t => some t
  | _ => none

/-- The queue it is on. -/
def WaitOp.target : WaitOp T Q V → Option Q
  | .wait _ q _ | .wake1 q _ | .wakeN q _ _ | .wakeAll q _ => some q
  | _ => none

/-- An operation of a running thread on none of these queues. -/
def WaitOp.Foreign (queues : List Q) (running : T → Prop) (op : WaitOp T Q V) : Prop :=
  op.Valid ∧ (∀ q ∈ op.target, q ∉ queues) ∧ ∀ t ∈ op.actor, running t

/-- A running thread wakes itself. -/
theorem foreign_immediateWake {queues : List Q} {running : T → Prop} {t : T} (ht : running t)
    (retval : Int) (retvalp : Option V) :
    (WaitOp.immediateWake t retval retvalp : WaitOp T Q V).Foreign queues running := by
  refine ⟨trivial, fun q hq => ?_, fun u hu => ?_⟩
  · cases hq
  · cases hu
    exact ht

variable [DecidableEq T] [DecidableEq Q] [DecidableEq V] {w : Waits T Q V} {t u : T} {q q' : Q}
  {P : Prop} {op : WaitOp T Q V} {queues : List Q} {running : T → Prop}

theorem Waits.Only.exec (h : w.Only t q P) (hw : w.Sound)
    (hop : op.Foreign queues running) (hq : q ∈ queues) (ht : ¬running t) :
    (w.exec op).Only t q P := by
  obtain ⟨-, htarget, hactor⟩ := hop
  have hother {u : T} (hu : running u) : t ≠ u := by
    rintro rfl
    exact ht hu
  have hwake (q' : Q) (hq' : q' ∉ queues) (retval : Int) (k : Nat) :
      (w.wakeFirst q' retval k).Only t q P := by
    refine (h.wakeFirst hw retval k).mono ?_
    rintro (hP | ⟨rfl, -⟩)
    · exact hP
    · exact absurd hq hq'
  cases op with
  | wait u q' retvalp =>
    refine h.congr ?_
    rw [exec, events_wait, Function.update_of_ne (hother (hactor u rfl))]
  | immediateWake u retval retvalp =>
    refine h.congr ?_
    rw [exec, events_immediateWake, Function.update_of_ne (hother (hactor u rfl))]
  | wake1 q' retval => exact hwake q' (htarget q' rfl) retval 1
  | wakeN q' retval maxWake => exact hwake q' (htarget q' rfl) retval maxWake
  | wakeAll q' retval => exact hwake q' (htarget q' rfl) retval _
  | cancel u => exact h.congr (Function.update_of_ne (hother (hactor u rfl)) _ _)

/-- No event is put on the queues. -/
theorem Waits.Sound.mem_of_mem_exec (hw : w.Sound) (hop : op.Foreign queues running)
    (hq : q ∈ queues) {x : T × Nat} (hx : x ∈ (w.exec op).queue q) : x ∈ w.queue q := by
  obtain ⟨-, htarget, -⟩ := hop
  have hwake (q' : Q) (hq' : q' ∉ queues) (retval : Int) (k : Nat)
      (hx : x ∈ (w.wakeFirst q' retval k).queue q) : x ∈ w.queue q := by
    have hne : q ≠ q' := by
      rintro rfl
      exact hq' hq
    rwa [queue_wakeFirst, Function.update_of_ne hne] at hx
  cases op with
  | wait u q' retvalp =>
    rcases hw.mem_queue_wait.mp hx with hx | ⟨-, rfl⟩
    · exact hx
    · exact absurd hq (htarget q' rfl)
  | immediateWake u retval retvalp => exact (hw.mem_queue_immediateWake retval).mp hx
  | wake1 q' retval => exact hwake q' (htarget q' rfl) retval 1 hx
  | wakeN q' retval maxWake => exact hwake q' (htarget q' rfl) retval maxWake hx
  | wakeAll q' retval => exact hwake q' (htarget q' rfl) retval _ hx
  | cancel u => exact List.mem_of_mem_filter hx

/-- A queue on which no thread waits stays so. -/
theorem Waits.Sound.queue_exec_nil (hw : w.Sound) (hop : op.Foreign queues running)
    (hq : q ∈ queues) (hnil : w.queue q = []) : (w.exec op).queue q = [] := by
  refine List.eq_nil_iff_forall_not_mem.mpr fun x hx => ?_
  have hmem := hw.mem_of_mem_exec hop hq hx
  simp [hnil] at hmem

end Foreign

section Blocked

/-! ## Calls that block -/

variable {T Q V K : Type} {w w' : Waits T Q V} {q : K → Q} {call : T → Option K}
  {P R : T → K → Prop} {t : T} {k : K}

/-- Each thread in a call has registered one event, which waits on the queue of the call or has
been woken, and then this holds. -/
def Waits.Blocked (w : Waits T Q V) (q : K → Q) (call : T → Option K) (P : T → K → Prop) : Prop :=
  ∀ t k, call t = some k → w.Only t (q k) (P t k)

theorem Waits.blocked_start : w.Blocked q (fun _ => none) P :=
  fun _ _ h => absurd h.symm (Option.some_ne_none _)

theorem Waits.Blocked.mono (h : w.Blocked q call P) (hP : ∀ t k, call t = some k → P t k → R t k) :
    w.Blocked q call R :=
  fun t k ht => (h t k ht).mono (hP t k ht)

theorem Waits.Blocked.congr (h : w.Blocked q call P)
    (hsame : ∀ t, call t ≠ none → w'.events t = w.events t) : w'.Blocked q call P :=
  fun t k ht => (h t k ht).congr (hsame t (Option.ne_none_iff_exists'.mpr ⟨k, ht⟩))

theorem ne_of_call {u : T} (ht : call t = none) (hu : call u = some k) : u ≠ t := by
  rintro rfl
  rw [ht] at hu
  cases hu

variable [DecidableEq T]

theorem update_call_eq_some {u : T} {k' : K} : Function.update call t (some k) u = some k' ↔
    u = t ∧ k = k' ∨ u ≠ t ∧ call u = some k' := by
  by_cases hut : u = t
  · simp [hut]
  · simp [hut]

theorem update_call_none_eq_some {u : T} : Function.update call t none u = some k ↔
    u ≠ t ∧ call u = some k := by
  by_cases hut : u = t
  · simp [hut]
  · simp [hut]

/-- A thread has left its call, and its events with it. -/
theorem Waits.Blocked.leave (h : w.Blocked q call P) (t : T) :
    (w.cancelEvents t).Blocked q (Function.update call t none) P := by
  intro u k hu
  obtain ⟨hne, hu⟩ := update_call_none_eq_some.mp hu
  exact (h u k hu).congr (Function.update_of_ne hne _ _)

/-- A thread is in a call when it has registered its event. -/
theorem Waits.Blocked.enter (h : w.Blocked q call P) (ht : w.Only t (q k) (P t k)) :
    w.Blocked q (Function.update call t (some k)) P := by
  intro u k' hu
  rcases update_call_eq_some.mp hu with ⟨rfl, rfl⟩ | ⟨-, hu⟩
  · exact ht
  · exact h u k' hu

/-- Only the events of a thread that is in no call are others. -/
theorem Waits.Blocked.register (h : w.Blocked q call P) (ht : call t = none)
    {es : List (CoEvent T Q V)} (hevents : w'.events = Function.update w.events t es) :
    w'.Blocked q call P := by
  refine h.congr fun u hu => ?_
  rw [hevents, Function.update_of_ne]
  rintro rfl
  exact hu ht

variable [DecidableEq Q] [DecidableEq V]

theorem Waits.Blocked.foreign (h : w.Blocked q call P) (hw : w.Sound) {op : WaitOp T Q V}
    {queues : List Q} (hop : op.Foreign queues (call · = none)) (hq : ∀ k, q k ∈ queues) :
    (w.exec op).Blocked q call P := by
  intro t k ht
  refine (h t k ht).exec hw hop (hq k) ?_
  rw [ht]
  exact Option.some_ne_none k

/-- A thread that is in no call registers an event. -/
theorem Waits.Blocked.wait (h : w.Blocked q call P) (ht : call t = none) (q' : Q)
    (retvalp : Option V) : (w.wait t q' retvalp).Blocked q call P :=
  h.register ht events_wait

theorem Waits.Blocked.immediateWake (h : w.Blocked q call P) (ht : call t = none) (retval : Int)
    (retvalp : Option V) : (w.immediateWake t retval retvalp).Blocked q call P :=
  h.register ht (events_immediateWake retval)

/-- The first of a queue are woken. -/
theorem Waits.Blocked.wakeFirst (h : w.Blocked q call P) (hw : w.Sound) {q' : Q} (retval : Int)
    (n : Nat) (hP : ∀ t k, call t = some k →
      P t k ∨ q' = q k ∧ t ∈ ((w.queue q').take n).map (·.1) → R t k) :
    (w.wakeFirst q' retval n).Blocked q call R :=
  fun t k ht => ((h t k ht).wakeFirst hw retval n).mono (hP t k ht)

omit [DecidableEq T] [DecidableEq Q] [DecidableEq V] in
/-- A thread in a call that is not on the queue has been woken. -/
theorem Waits.Only.awake {q : Q} {P : Prop} (h : w.Only t q P) (hw : w.Sound)
    (hqueue : ∀ x ∈ w.queue q, x.1 ≠ t) : ∃ e ∈ w.events t, e.wq = none := by
  obtain ⟨e, he, hwq⟩ := h
  refine ⟨e, he ▸ List.mem_singleton_self e, ?_⟩
  rcases hwq with hwq | ⟨hnone, -⟩
  · have hmem : (t, 0) ∈ w.queue q := (hw.mem_iff q (t, 0)).mpr ⟨e, by rw [he]; rfl, hwq⟩
    exact absurd rfl (hqueue (t, 0) hmem)
  · exact hnone

end Blocked

end Nox.Threads
