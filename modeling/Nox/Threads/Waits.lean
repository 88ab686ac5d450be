import Nox.Threads.Waitqueue

/-!
# Wait queues as lists

What the memory of the wait queues holds: of each thread the events it has registered, and of
each queue the events on it, an event being told by its thread and its index.
-/

namespace Nox.Threads

section Lists

/-! ## Lists -/

/-- The threads' events and the queues as lists. -/
structure Waits (T Q V : Type) where
  events : T → List (CoEvent T Q V)
  capacity : T → Nat
  queue : Q → List (T × Nat)
  vars : V → Int

namespace Waits

variable {T Q V : Type} [DecidableEq T] [DecidableEq Q] [DecidableEq V]

def init (vars : V → Int) : Waits T Q V where
  events := fun _ => []
  capacity := fun _ => 0
  queue := fun _ => []
  vars := vars

def setVar (w : Waits T Q V) (retvalp : Option V) (retval : Int) : Waits T Q V :=
  match retvalp with
  | none => w
  | some v => { w with vars := Function.update w.vars v retval }

/-- The events of a thread that wait on a queue, in the order of their indices. -/
def own (w : Waits T Q V) (t : T) (q : Q) : List (T × Nat) :=
  ((List.range (w.events t).length).filter fun i => ((w.events t)[i]?.bind (·.wq)) = some q).map
    (t, ·)

def Full (w : Waits T Q V) (t : T) : Prop := w.capacity t ≤ (w.events t).length

instance (w : Waits T Q V) (t : T) : Decidable (w.Full t) := inferInstanceAs (Decidable (_ ≤ _))

/-- The events of the thread go behind all others. -/
def grow (w : Waits T Q V) (t : T) : Waits T Q V where
  events := w.events
  capacity := Function.update w.capacity t (if w.capacity t = 0 then 1 else 2 * w.capacity t)
  queue := fun q => (w.queue q).filter (·.1 ≠ t) ++ w.own t q
  vars := w.vars

def addEvent (w : Waits T Q V) (t : T) (event : CoEvent T Q V) : Waits T Q V :=
  let w := if w.Full t then w.grow t else w
  { w with events := Function.update w.events t (w.events t ++ [event]) }

def wait (w : Waits T Q V) (t : T) (q : Q) (retvalp : Option V) : Waits T Q V :=
  let n := (w.events t).length
  let w := (w.addEvent t ⟨some q, t, retvalp⟩).setVar retvalp 0
  { w with queue := Function.update w.queue q (w.queue q ++ [(t, n)]) }

def immediateWake (w : Waits T Q V) (t : T) (retval : Int) (retvalp : Option V) : Waits T Q V :=
  (w.addEvent t ⟨none, t, retvalp⟩).setVar retvalp retval

/-- One event is woken. -/
def wakeRef (retval : Int) (w : Waits T Q V) (r : T × Nat) : Waits T Q V :=
  match (w.events r.1)[r.2]? with
  | none => w
  | some e =>
    let events := Function.update w.events r.1 ((w.events r.1).set r.2 { e with wq := none })
    { w with events }.setVar e.retvalp retval

/-- The first `k` events of a queue are taken from it and woken. -/
def wakeFirst (w : Waits T Q V) (q : Q) (retval : Int) (k : Nat) : Waits T Q V :=
  let woken := ((w.queue q).take k).foldl (wakeRef retval) w
  { woken with queue := Function.update woken.queue q ((w.queue q).drop k) }

def cancelEvents (w : Waits T Q V) (t : T) : Waits T Q V where
  events := Function.update w.events t []
  capacity := w.capacity
  queue := fun q => (w.queue q).filter (·.1 ≠ t)
  vars := w.vars

end Waits

end Lists

section Soundness

/-! ## Sound lists -/

namespace Waits

variable {T Q V : Type} {w : Waits T Q V} {t t' : T} {q : Q} {r : T × Nat} {i : Nat}
  {e : CoEvent T Q V}

/-- The event is registered and waits on the queue. -/
def On (w : Waits T Q V) (q : Q) (r : T × Nat) : Prop :=
  ∃ e, (w.events r.1)[r.2]? = some e ∧ e.wq = some q

/-- The events on a queue are those that are registered on it, those of one thread in the order
of their indices. -/
structure Sound (w : Waits T Q V) : Prop where
  ordered : ∀ q, (w.queue q).Pairwise fun a b => a.1 = b.1 → a.2 < b.2
  mem_iff : ∀ q r, r ∈ w.queue q ↔ w.On q r
  thread : ∀ t, ∀ e ∈ w.events t, e.thread = t

theorem Sound.nodup (h : w.Sound) (q : Q) : (w.queue q).Nodup := by
  refine List.Pairwise.imp ?_ (h.ordered q)
  rintro a b hlt rfl
  exact Nat.lt_irrefl _ (hlt rfl)

theorem sound_init (vars : V → Int) : (init vars : Waits T Q V).Sound where
  ordered := fun _ => List.Pairwise.nil
  mem_iff := fun _ _ => by simp [init, On]
  thread := fun _ _ h => nomatch h

variable [DecidableEq T] [DecidableEq Q] [DecidableEq V]

omit [DecidableEq T] [DecidableEq V] in
theorem mem_own : r ∈ w.own t q ↔ r.1 = t ∧ w.On q r := by
  obtain ⟨t', i⟩ := r
  simp only [own, List.mem_map, List.mem_filter, List.mem_range, On, Prod.mk.injEq,
    decide_eq_true_eq, Option.bind_eq_some_iff]
  constructor
  · rintro ⟨j, ⟨-, e, he, hq⟩, rfl, rfl⟩
    exact ⟨rfl, e, he, hq⟩
  · rintro ⟨rfl, e, he, hq⟩
    exact ⟨i, ⟨(List.getElem?_eq_some_iff.mp he).1, e, he, hq⟩, rfl, rfl⟩

omit [DecidableEq V] in
theorem Sound.grow (h : w.Sound) (t : T) : (w.grow t).Sound where
  ordered q := by
    refine List.pairwise_append.mpr ⟨(h.ordered q).filter _, ?_, fun a ha b hb hab => ?_⟩
    · refine List.pairwise_map.mpr ?_
      refine List.Pairwise.imp ?_ (List.pairwise_lt_range.filter _)
      exact fun hlt _ => hlt
    · have ha := (List.mem_filter.mp ha).2
      simp [hab, (mem_own.mp hb).1] at ha
  mem_iff q r := by
    have hon : (w.grow t).On q r ↔ w.On q r := Iff.rfl
    rw [hon, ← h.mem_iff]
    simp only [Waits.grow, List.mem_append, List.mem_filter, mem_own, ← h.mem_iff, ne_eq,
      decide_not, Bool.not_eq_eq_eq_not, Bool.not_true, decide_eq_false_iff_not]
    tauto
  thread := h.thread

omit [DecidableEq T] [DecidableEq Q] [DecidableEq V] in
theorem On.eq {q' : Q} (h : w.On q r) (h' : w.On q' r) : q = q' := by
  obtain ⟨e, he, hq⟩ := h
  obtain ⟨e', he', hq'⟩ := h'
  rw [he] at he'
  cases he'
  exact Option.some.inj (hq.symm.trans hq')

omit [DecidableEq V] in
theorem events_addEvent :
    (w.addEvent t e).events = Function.update w.events t (w.events t ++ [e]) := by
  unfold addEvent
  dsimp only
  split <;> rfl

omit [DecidableEq V] in
/-- A new event is the last of its thread. -/
theorem on_addEvent : (w.addEvent t e).On q r ↔
    w.On q r ∨ r = (t, (w.events t).length) ∧ e.wq = some q := by
  obtain ⟨t', i⟩ := r
  unfold On
  rw [events_addEvent]
  by_cases ht : t' = t
  · subst ht
    simp only [Function.update_self, Prod.mk.injEq, true_and]
    rcases Nat.lt_trichotomy i (w.events t').length with hlt | rfl | hgt
    · simp [List.getElem?_append_left hlt, Nat.ne_of_lt hlt]
    · simp
    · have hnone : (w.events t')[i]? = none := List.getElem?_eq_none (Nat.le_of_lt hgt)
      have hnone' : (w.events t' ++ [e])[i]? = none :=
        List.getElem?_eq_none (by simpa using Nat.succ_le_of_lt hgt)
      simp [hnone, hnone', Nat.ne_of_gt hgt]
  · simp [ht]

omit [DecidableEq V] in
/-- The queues have no event yet that has just been added. -/
theorem Sound.addEvent (h : w.Sound) (he : e.thread = t) :
    (∀ q, ((w.addEvent t e).queue q).Pairwise fun a b => a.1 = b.1 → a.2 < b.2) ∧
      (∀ q r, r ∈ (w.addEvent t e).queue q ↔ w.On q r) ∧
      ∀ t', ∀ e' ∈ (w.addEvent t e).events t', e'.thread = t' := by
  have hthread : ∀ t', ∀ e' ∈ Function.update w.events t (w.events t ++ [e]) t', e'.thread = t' := by
    intro t' e' he'
    by_cases ht : t' = t
    · subst ht
      rw [Function.update_self, List.mem_append, List.mem_singleton] at he'
      rcases he' with he' | rfl
      · exact h.thread t' e' he'
      · exact he
    · rw [Function.update_of_ne ht] at he'
      exact h.thread t' e' he'
  unfold Waits.addEvent
  dsimp only
  split
  · exact ⟨(h.grow t).ordered, (h.grow t).mem_iff, hthread⟩
  · exact ⟨h.ordered, h.mem_iff, hthread⟩

omit [DecidableEq T] [DecidableEq Q] in
theorem events_setVar (v : Option V) (n : Int) : (w.setVar v n).events = w.events := by
  cases v <;> rfl

omit [DecidableEq T] [DecidableEq Q] in
theorem queue_setVar (v : Option V) (n : Int) : (w.setVar v n).queue = w.queue := by
  cases v <;> rfl

omit [DecidableEq T] [DecidableEq Q] in
theorem Sound.setVar (h : w.Sound) (v : Option V) (n : Int) : (w.setVar v n).Sound := by
  cases v with
  | none => exact h
  | some v => exact ⟨h.ordered, h.mem_iff, h.thread⟩

theorem Sound.immediateWake (h : w.Sound) (t : T) (retval : Int) (retvalp : Option V) :
    (w.immediateWake t retval retvalp).Sound := by
  obtain ⟨hordered, hmem, hthread⟩ := h.addEvent (e := ⟨none, t, retvalp⟩) rfl
  refine Sound.setVar ⟨hordered, fun q r => ?_, hthread⟩ _ _
  rw [hmem, on_addEvent]
  simp

theorem Sound.wait (h : w.Sound) (t : T) (q : Q) (retvalp : Option V) :
    (w.wait t q retvalp).Sound := by
  obtain ⟨hordered, hmem, hthread⟩ := h.addEvent (e := ⟨some q, t, retvalp⟩) rfl
  unfold Waits.wait
  refine ⟨fun q' => ?_, fun q' r => ?_, ?_⟩
  · dsimp only
    rw [queue_setVar]
    by_cases hq : q' = q
    · subst hq
      rw [Function.update_self]
      refine List.pairwise_append.mpr ⟨hordered q', List.pairwise_singleton _ _, ?_⟩
      rintro a ha b hb hab
      rw [List.mem_singleton] at hb
      subst hb
      obtain ⟨e, he, -⟩ := (hmem q' a).mp ha
      rw [hab] at he
      exact (List.getElem?_eq_some_iff.mp he).1
    · rw [Function.update_of_ne hq]
      exact hordered q'
  · have hon : On { (w.addEvent t ⟨some q, t, retvalp⟩).setVar retvalp 0 with
        queue := Function.update ((w.addEvent t ⟨some q, t, retvalp⟩).setVar retvalp 0).queue q
          (((w.addEvent t ⟨some q, t, retvalp⟩).setVar retvalp 0).queue q ++
            [(t, (w.events t).length)]) } q' r ↔
        (w.addEvent t ⟨some q, t, retvalp⟩).On q' r := by
      unfold On
      rw [events_setVar]
    dsimp only
    rw [hon, on_addEvent, queue_setVar, ← hmem]
    by_cases hq : q' = q
    · subst hq
      simp
    · simp [Function.update_of_ne hq, Ne.symm hq]
  · dsimp only
    rw [events_setVar]
    exact hthread

omit [DecidableEq Q] in
theorem queue_wakeRef (retval : Int) (r : T × Nat) : (wakeRef retval w r).queue = w.queue := by
  unfold wakeRef
  split
  · rfl
  · exact queue_setVar _ _

omit [DecidableEq Q] in
/-- The event that is woken is on no queue any more. -/
theorem getElem?_wakeRef (retval : Int) (r : T × Nat) :
    ((wakeRef retval w r).events t)[i]? =
      (w.events t)[i]?.map fun e => if (t, i) = r then { e with wq := none } else e := by
  obtain ⟨t₀, i₀⟩ := r
  unfold wakeRef
  dsimp only
  cases he₀ : (w.events t₀)[i₀]? with
  | none =>
    dsimp only
    cases he : (w.events t)[i]? with
    | none => rfl
    | some e =>
      have hne : (t, i) ≠ (t₀, i₀) := by
        rintro heq
        cases heq
        simp [he] at he₀
      simp [hne]
  | some e₀ =>
    have hlt := (List.getElem?_eq_some_iff.mp he₀).1
    dsimp only
    rw [events_setVar]
    by_cases ht : t = t₀
    · subst ht
      by_cases hi : i = i₀
      · subst hi
        have heq : (w.events t)[i] = e₀ := (List.getElem?_eq_some_iff.mp he₀).2
        simp [hlt, heq]
      · simp [List.getElem?_set_ne (Ne.symm hi), hi]
    · simp [ht]

omit [DecidableEq Q] in
theorem getElem?_foldl_wakeRef (retval : Int) (l : List (T × Nat)) :
    ((l.foldl (wakeRef retval) w).events t)[i]? =
      (w.events t)[i]?.map fun e => if (t, i) ∈ l then { e with wq := none } else e := by
  induction l generalizing w with
  | nil => simp
  | cons a l ih =>
    rw [List.foldl_cons, ih, getElem?_wakeRef, Option.map_map]
    congr 1
    funext e
    by_cases ha : (t, i) = a <;> by_cases hl : (t, i) ∈ l <;> simp [ha, hl]

theorem queue_wakeFirst (q : Q) (retval : Int) (k : Nat) :
    (w.wakeFirst q retval k).queue = Function.update w.queue q ((w.queue q).drop k) := by
  have hfold (l : List (T × Nat)) (w : Waits T Q V) :
      (l.foldl (wakeRef retval) w).queue = w.queue := by
    induction l generalizing w with
    | nil => rfl
    | cons a l ih => rw [List.foldl_cons, ih, queue_wakeRef]
  simp only [wakeFirst, hfold]

theorem getElem?_wakeFirst (q : Q) (retval : Int) (k : Nat) :
    ((w.wakeFirst q retval k).events t)[i]? = (w.events t)[i]?.map fun e =>
      if (t, i) ∈ (w.queue q).take k then { e with wq := none } else e :=
  getElem?_foldl_wakeRef retval _

theorem length_wakeFirst (q : Q) (retval : Int) (k : Nat) :
    ((w.wakeFirst q retval k).events t).length = (w.events t).length := by
  refine Nat.le_antisymm ?_ ?_ <;> refine Nat.le_of_not_lt fun hlt => ?_
  · have hsome := getElem?_wakeFirst (w := w) (t := t) (i := (w.events t).length) q retval k
    simp [List.getElem?_eq_getElem hlt] at hsome
  · have hsome := getElem?_wakeFirst (w := w) (t := t)
      (i := ((w.wakeFirst q retval k).events t).length) q retval k
    simp [List.getElem?_eq_getElem hlt] at hsome

theorem on_wakeFirst {q' : Q} (retval : Int) (k : Nat) :
    (w.wakeFirst q' retval k).On q r ↔ w.On q r ∧ r ∉ (w.queue q').take k := by
  simp only [On, getElem?_wakeFirst, Option.map_eq_some_iff]
  constructor
  · rintro ⟨-, ⟨e, he, rfl⟩, hq⟩
    split at hq
    · cases hq
    · rename_i hnot
      exact ⟨⟨e, he, hq⟩, hnot⟩
  · rintro ⟨⟨e, he, hq⟩, hnot⟩
    exact ⟨e, ⟨e, he, if_neg hnot⟩, hq⟩

theorem Sound.wakeFirst (h : w.Sound) (q : Q) (retval : Int) (k : Nat) :
    (w.wakeFirst q retval k).Sound := by
  have hnodup := h.nodup q
  rw [← List.take_append_drop k (w.queue q)] at hnodup
  obtain ⟨-, -, hdisj⟩ := List.nodup_append.mp hnodup
  refine ⟨fun q' => ?_, fun q' r => ?_, fun t e he => ?_⟩
  · rw [queue_wakeFirst]
    by_cases hq : q' = q
    · subst hq
      rw [Function.update_self]
      exact (h.ordered q').sublist (List.drop_sublist k _)
    · rw [Function.update_of_ne hq]
      exact h.ordered q'
  · rw [on_wakeFirst, ← h.mem_iff, queue_wakeFirst]
    by_cases hq : q' = q
    · subst hq
      rw [Function.update_self]
      constructor
      · exact fun hr => ⟨List.mem_of_mem_drop hr, fun htake => hdisj r htake r hr rfl⟩
      · rintro ⟨hr, hnot⟩
        rw [← List.take_append_drop k (w.queue q'), List.mem_append] at hr
        exact hr.resolve_left hnot
    · rw [Function.update_of_ne hq, iff_self_and]
      intro hr htake
      have hon₁ := (h.mem_iff q' r).mp hr
      exact hq (hon₁.eq ((h.mem_iff q r).mp (List.mem_of_mem_take htake)))
  · obtain ⟨i, hi⟩ := List.mem_iff_getElem?.mp he
    rw [getElem?_wakeFirst, Option.map_eq_some_iff] at hi
    obtain ⟨e', he', rfl⟩ := hi
    have hthread := h.thread t e' (List.mem_of_getElem? he')
    split <;> exact hthread

omit [DecidableEq Q] [DecidableEq V] in
theorem Sound.cancelEvents (h : w.Sound) (t : T) : (w.cancelEvents t).Sound where
  ordered q := (h.ordered q).filter _
  mem_iff q r := by
    obtain ⟨t', i⟩ := r
    simp only [Waits.cancelEvents, List.mem_filter, h.mem_iff, On]
    by_cases ht : t' = t
    · subst ht
      simp
    · simp [ht]
  thread t' e he := by
    by_cases ht : t' = t
    · subst ht
      simp [Waits.cancelEvents] at he
    · simp only [Waits.cancelEvents, Function.update_of_ne ht] at he
      exact h.thread t' e he

end Waits

end Soundness

section Operations

/-! ## Operations -/

/-- What threads do with wait queues. -/
inductive WaitOp (T Q V : Type)
  | wait (t : T) (q : Q) (retvalp : Option V)
  | immediateWake (t : T) (retval : Int) (retvalp : Option V)
  | wake1 (q : Q) (retval : Int)
  | wakeN (q : Q) (retval : Int) (maxWake : Nat)
  | wakeAll (q : Q) (retval : Int)
  | cancel (t : T)

/-- The threads an operation has woken, and what `wake_n` returns. -/
structure Woken (T : Type) where
  threads : List T
  number : Option Nat
  deriving DecidableEq

variable {T Q V : Type}

/-- `assert(retval);` -/
def WaitOp.Valid : WaitOp T Q V → Prop
  | .wake1 _ retval | .wakeN _ retval _ | .wakeAll _ retval => retval ≠ 0
  | _ => True

/-- The thread that registers an event. -/
def WaitOp.registers : WaitOp T Q V → Option T
  | .wait t _ _ | .immediateWake t _ _ => some t
  | _ => none

/-- The first events of a queue, that an operation wakes. -/
def WaitOp.wakes (queue : Q → List (T × Nat)) : WaitOp T Q V → List (T × Nat)
  | .wake1 q _ => (queue q).take 1
  | .wakeN q _ maxWake => (queue q).take maxWake
  | .wakeAll q _ => queue q
  | _ => []

/-- What an operation tells, of queues that are these lists. -/
def WaitOp.woken (queue : Q → List (T × Nat)) (op : WaitOp T Q V) : Woken T where
  threads := (op.wakes queue).map (·.1)
  number := match op with
    | .wakeN q _ maxWake => some (min maxWake (queue q).length)
    | _ => none

variable [DecidableEq T] [DecidableEq Q] [DecidableEq V]

/-- An operation on the lists. -/
def Waits.exec (w : Waits T Q V) : WaitOp T Q V → Waits T Q V
  | .wait t q retvalp => w.wait t q retvalp
  | .immediateWake t retval retvalp => w.immediateWake t retval retvalp
  | .wake1 q retval => w.wakeFirst q retval 1
  | .wakeN q retval maxWake => w.wakeFirst q retval maxWake
  | .wakeAll q retval => w.wakeFirst q retval (w.queue q).length
  | .cancel t => w.cancelEvents t

theorem Waits.queue_wakeAll (w : Waits T Q V) (q : Q) (retval : Int) :
    (w.exec (.wakeAll q retval)).queue = Function.update w.queue q [] := by
  change (w.wakeFirst q retval _).queue = _
  rw [queue_wakeFirst, List.drop_length]

theorem Waits.Sound.exec {w : Waits T Q V} (h : w.Sound) (op : WaitOp T Q V) : (w.exec op).Sound := by
  cases op with
  | wait t q retvalp => exact h.wait t q retvalp
  | immediateWake t retval retvalp => exact h.immediateWake t retval retvalp
  | wake1 q retval => exact h.wakeFirst q retval 1
  | wakeN q retval maxWake => exact h.wakeFirst q retval maxWake
  | wakeAll q retval => exact h.wakeFirst q retval _
  | cancel t => exact h.cancelEvents t

end Operations

end Nox.Threads
