import Nox.Threads.WaitMemory

/-!
# First in, first out

Runs of operations on any set of wait queues.  In memory every operation does what it does on
the lists of events.  These are in the order of registration as long as no event is registered
on a full vector while another thread's event stands behind one of the thread's in a queue: a
vector that grows puts its events at the end of their queues again.
-/

namespace Nox.Threads

open Lib

section Operations

/-! ## Operations -/

variable {T Q V : Type} [DecidableEq T] [DecidableEq Q] [DecidableEq V]

/-- An operation in memory. -/
def WaitOp.exec (fuel : Nat) (s : Waitqueues T Q V) :
    WaitOp T Q V → Option (Waitqueues T Q V × Woken T)
  | .wait t q retvalp => (s.wait fuel t q retvalp).map (·, ⟨[], none⟩)
  | .immediateWake t retval retvalp =>
    (s.immediateWake fuel t retval retvalp).map (·, ⟨[], none⟩)
  | .wake1 q retval => (s.wake1 q retval).map fun (s, t) => (s, ⟨t.toList, none⟩)
  | .wakeN q retval maxWake =>
    (s.wakeN fuel q retval maxWake).map fun (s, ts, n) => (s, ⟨ts, some n⟩)
  | .wakeAll q retval => (s.wakeAll fuel q retval).map fun (s, ts) => (s, ⟨ts, none⟩)
  | .cancel t => (s.cancelEvents fuel t).map (·, ⟨[], none⟩)

/-- The operation ends so, with enough fuel. -/
def WaitOp.Ends (op : WaitOp T Q V) (s : Waitqueues T Q V) (r : Waitqueues T Q V × Woken T) :
    Prop :=
  ∃ n, ∀ fuel, n ≤ fuel → op.exec fuel s = some r

theorem WaitOp.Ends.eq {op : WaitOp T Q V} {s : Waitqueues T Q V}
    {r r' : Waitqueues T Q V × Woken T} (h : op.Ends s r) (h' : op.Ends s r') : r = r' := by
  obtain ⟨n, hn⟩ := h
  obtain ⟨n', hn'⟩ := h'
  have heq := (hn (max n n') (Nat.le_max_left n n')).symm.trans (hn' _ (Nat.le_max_right n n'))
  exact Option.some.inj heq

variable {s : Waitqueues T Q V} {w : Waits T Q V} {op : WaitOp T Q V}

/-- In memory an operation does what it does on the lists. -/
theorem Shows.exec (h : Shows s w) (hw : w.Sound) (op : WaitOp T Q V) :
    ∃ s', op.Ends s (s', op.woken w.queue) ∧ Shows s' (w.exec op) := by
  cases op with
  | wait t q retvalp =>
    obtain ⟨s', ⟨n, hn⟩, hshows⟩ := h.wait hw t q retvalp
    exact ⟨s', ⟨n, fun fuel hfuel => by rw [WaitOp.exec, hn fuel hfuel]; rfl⟩, hshows⟩
  | immediateWake t retval retvalp =>
    obtain ⟨s', ⟨n, hn⟩, hshows⟩ := h.immediateWake hw t retval retvalp
    exact ⟨s', ⟨n, fun fuel hfuel => by rw [WaitOp.exec, hn fuel hfuel]; rfl⟩, hshows⟩
  | wake1 q retval =>
    obtain ⟨s', hs', hshows⟩ := h.wake1 hw q retval
    refine ⟨s', ⟨0, fun fuel _ => ?_⟩, hshows⟩
    rw [WaitOp.exec, hs']
    cases hq : w.queue q <;> simp [WaitOp.woken, WaitOp.wakes, hq]
  | wakeN q retval maxWake =>
    obtain ⟨s', hs', hshows⟩ := h.wakeN hw q retval maxWake
    exact ⟨s', ⟨_, fun fuel hfuel => by rw [WaitOp.exec, hs' fuel hfuel]; rfl⟩, hshows⟩
  | wakeAll q retval =>
    obtain ⟨s', hs', hshows⟩ := h.wakeAll hw q retval
    exact ⟨s', ⟨_, fun fuel hfuel => by rw [WaitOp.exec, hs' fuel hfuel]; rfl⟩, hshows⟩
  | cancel t =>
    obtain ⟨s', ⟨n, hn⟩, hshows⟩ := h.cancelEvents hw t
    exact ⟨s', ⟨n, fun fuel hfuel => by rw [WaitOp.exec, hn fuel hfuel]; rfl⟩, hshows⟩

end Operations

section Registrations

/-! ## Registrations -/

/-- The events of each queue that are neither woken nor cancelled, in the order of
registration, and the number of the events each thread has registered since it has last
cancelled them. -/
structure Registrations (T Q : Type) where
  pending : Q → List (T × Nat)
  count : T → Nat

/-- No thread has registered an event. -/
def Registrations.start (T Q : Type) : Registrations T Q := ⟨fun _ => [], fun _ => 0⟩

variable {T Q V : Type} [DecidableEq T] [DecidableEq Q]

/-- What the operations are for: who waits is the last of a queue, and the first are woken. -/
def Registrations.apply (f : Registrations T Q) : WaitOp T Q V → Registrations T Q
  | .wait t q _ =>
    ⟨Function.update f.pending q (f.pending q ++ [(t, f.count t)]),
      Function.update f.count t (f.count t + 1)⟩
  | .immediateWake t _ _ => { f with count := Function.update f.count t (f.count t + 1) }
  | .wake1 q _ => { f with pending := Function.update f.pending q ((f.pending q).drop 1) }
  | .wakeN q _ maxWake =>
    { f with pending := Function.update f.pending q ((f.pending q).drop maxWake) }
  | .wakeAll q _ => { f with pending := Function.update f.pending q [] }
  | .cancel t => ⟨fun q => (f.pending q).filter (·.1 ≠ t), Function.update f.count t 0⟩

variable {w : Waits T Q V} {t : T} {q : Q}

/-- Behind an event of the thread there are only events of the thread. -/
def Behind (t : T) (l : List (T × Nat)) : Prop := l.Pairwise fun a b => a.1 = t → b.1 = t

omit [DecidableEq Q] in
theorem behind_iff {l : List (T × Nat)} :
    Behind t l ↔ l.filter (·.1 ≠ t) ++ l.filter (·.1 = t) = l := by
  constructor
  · intro h
    induction l with
    | nil => rfl
    | cons a l ih =>
      obtain ⟨ha, hl⟩ := List.pairwise_cons.mp h
      by_cases ht : a.1 = t
      · have hnone : l.filter (·.1 ≠ t) = [] :=
          List.filter_eq_nil_iff.mpr fun b hb => by simp [ha b hb ht]
        have hall : l.filter (·.1 = t) = l :=
          List.filter_eq_self.mpr fun b hb => by simp [ha b hb ht]
        rw [List.filter_cons_of_neg (by simpa using ht), List.filter_cons_of_pos (by simpa using ht),
          hnone, hall]
        rfl
      · rw [List.filter_cons_of_pos (by simpa using ht), List.filter_cons_of_neg (by simpa using ht),
          List.cons_append, ih hl]
  · intro h
    rw [← h]
    refine List.pairwise_append.mpr ⟨?_, ?_, fun a ha b hb _ => ?_⟩
    · refine List.pairwise_of_forall_mem_list fun a ha _ _ heq => ?_
      simp [heq] at ha
    · refine List.pairwise_of_forall_mem_list fun _ _ b hb _ => ?_
      simpa using (List.mem_filter.mp hb).2
    · simpa using (List.mem_filter.mp hb).2

/-- The events of one thread are on a queue in the order of their indices. -/
theorem own_eq_filter (h : w.Sound) : w.own t q = (w.queue q).filter (·.1 = t) := by
  have hown : (w.own t q).Pairwise fun a b => a.1 = b.1 → a.2 < b.2 := by
    refine List.pairwise_map.mpr ?_
    refine List.Pairwise.imp ?_ (List.pairwise_lt_range.filter _)
    exact fun hlt _ => hlt
  have hperm : (w.own t q).Perm ((w.queue q).filter (·.1 = t)) := by
    refine (List.perm_ext_iff_of_nodup ?_ ((h.nodup q).filter _)).mpr fun r => ?_
    · refine List.Pairwise.imp ?_ hown
      rintro a b hlt rfl
      exact Nat.lt_irrefl _ (hlt rfl)
    · rw [Waits.mem_own, List.mem_filter, h.mem_iff, and_comm, decide_eq_true_eq]
  refine hperm.eq_of_pairwise (fun a b ha hb hab hba => ?_) hown ((h.ordered q).filter _)
  have heq : a.1 = b.1 := by
    rw [(Waits.mem_own.mp ha).1]
    exact Eq.symm (by simpa using (List.mem_filter.mp hb).2)
  exact absurd (hab heq) (Nat.lt_asymm (hba heq.symm))

/-- A vector that grows leaves a queue exactly when its events are behind all others. -/
theorem queue_grow_iff (h : w.Sound) :
    (w.grow t).queue q = w.queue q ↔ Behind t (w.queue q) := by
  rw [behind_iff, ← own_eq_filter h]
  rfl

end Registrations

section Runs

/-! ## Runs -/

variable {T Q V : Type} [DecidableEq T] [DecidableEq Q]

/-- No event is registered on a full vector while another thread's event is behind one of the
thread's. -/
def KeepsOrder (s : Waitqueues T Q V) (f : Registrations T Q) (op : WaitOp T Q V) : Prop :=
  ∀ t, op.registers = some t → (s.events t).capacity ≤ (s.events t).items.length →
    ∀ q, Behind t (f.pending q)

/-- The registrations on a queue are the events on its list. -/
structure Registrations.Follows (f : Registrations T Q) (q : Q) (w : Waits T Q V) : Prop where
  pending : f.pending q = w.queue q
  count : ∀ t, f.count t = (w.events t).length

variable [DecidableEq V]

/-- The states after runs of operations that are all `P`, from queues that have just been
constructed. -/
inductive WaitOp.Reached (P : Waitqueues T Q V → Registrations T Q → WaitOp T Q V → Prop)
    (heads : Q → Option (EventAddr T)) (vars : V → Int) :
    Waitqueues T Q V → Registrations T Q → Prop
  | init : WaitOp.Reached P heads vars (Waitqueues.init heads vars) (Registrations.start T Q)
  | step {s s' f op r} : WaitOp.Reached P heads vars s f → op.Valid → P s f op →
      op.Ends s (s', r) → WaitOp.Reached P heads vars s' (f.apply op)

variable {s s' : Waitqueues T Q V} {w : Waits T Q V} {f : Registrations T Q} {t : T} {q : Q}
  {op : WaitOp T Q V} {e : CoEvent T Q V}

omit [DecidableEq V] in
/-- A new event leaves a queue, when its thread's events are behind all others. -/
theorem queue_addEvent (h : w.Sound) (hbehind : w.Full t → Behind t (w.queue q)) :
    (w.addEvent t e).queue q = w.queue q := by
  unfold Waits.addEvent
  split
  · rename_i hfull
    exact (queue_grow_iff h).mpr (hbehind hfull)
  · rfl

theorem Registrations.Follows.wakeFirst (h : f.Follows q w) (q' : Q)
    (retval : Int) (k : Nat) :
    (Registrations.mk (Function.update f.pending q' ((f.pending q').drop k)) f.count).Follows q
      (w.wakeFirst q' retval k) where
  pending := by
    rw [Waits.queue_wakeFirst]
    by_cases hq : q = q'
    · subst hq
      simp only [Function.update_self, h.pending]
    · simp only [Function.update_of_ne hq, h.pending]
  count t := by
    rw [Waits.length_wakeFirst]
    exact h.count t

/-- The list stays the registrations. -/
theorem Registrations.Follows.exec (h : f.Follows q w) (hw : w.Sound)
    (hbehind : ∀ t, op.registers = some t → w.Full t → Behind t (w.queue q)) :
    (f.apply op).Follows q (w.exec op) := by
  cases op with
  | wait t q' retvalp =>
    have hqueue := queue_addEvent (e := ⟨some q', t, retvalp⟩) hw (hbehind t rfl)
    refine ⟨?_, fun t' => ?_⟩
    · simp only [Registrations.apply, Waits.exec, Waits.wait, Waits.queue_setVar]
      by_cases hq : q = q'
      · subst hq
        simp only [Function.update_self, hqueue, h.pending, h.count]
      · simp only [Function.update_of_ne hq, hqueue, h.pending]
    · simp only [Registrations.apply, Waits.exec, Waits.wait, Waits.events_setVar,
        Waits.events_addEvent, Function.update_apply, h.count]
      split <;> simp
  | immediateWake t retval retvalp =>
    have hqueue := queue_addEvent (e := ⟨none, t, retvalp⟩) hw (hbehind t rfl)
    refine ⟨?_, fun t' => ?_⟩
    · simp only [Registrations.apply, Waits.exec, Waits.immediateWake, Waits.queue_setVar, hqueue,
        h.pending]
    · simp only [Registrations.apply, Waits.exec, Waits.immediateWake, Waits.events_setVar,
        Waits.events_addEvent, Function.update_apply, h.count]
      split <;> simp
  | wake1 q' retval => exact h.wakeFirst q' retval 1
  | wakeN q' retval maxWake => exact h.wakeFirst q' retval maxWake
  | wakeAll q' retval =>
    refine ⟨?_, (h.wakeFirst q' retval (w.queue q').length).count⟩
    simp only [Registrations.apply, Waits.exec, Waits.queue_wakeFirst, List.drop_length]
    by_cases hq : q = q'
    · subst hq
      simp only [Function.update_self]
    · simp only [Function.update_of_ne hq, h.pending]
  | cancel t =>
    refine ⟨?_, fun t' => ?_⟩
    · simp only [Registrations.apply, Waits.exec, Waits.cancelEvents, h.pending]
    · simp only [Registrations.apply, Waits.exec, Waits.cancelEvents, Function.update_apply,
        h.count]
      split <;> simp

variable {P : Waitqueues T Q V → Registrations T Q → WaitOp T Q V → Prop}
  {heads : Q → Option (EventAddr T)} {vars : V → Int}

/-- In every run the queues are lists of exactly the events that are registered on them. -/
theorem WaitOp.Reached.shows (h : WaitOp.Reached P heads vars s f) : ∃ w, Shows s w ∧ w.Sound := by
  induction h with
  | init => exact ⟨Waits.init vars, shows_init heads vars, Waits.sound_init vars⟩
  | step _ _ _ hends ih =>
    obtain ⟨w, hshows, hsound⟩ := ih
    obtain ⟨s', hends', hshows'⟩ := hshows.exec hsound _
    obtain rfl := (Prod.mk.inj (hends.eq hends')).1
    exact ⟨_, hshows', hsound.exec _⟩

theorem WaitOp.Reached.follows (h : WaitOp.Reached KeepsOrder heads vars s f) :
    ∃ w, Shows s w ∧ w.Sound ∧ ∀ q, f.Follows q w := by
  induction h with
  | init =>
    exact ⟨Waits.init vars, shows_init heads vars, Waits.sound_init vars,
      fun _ => ⟨rfl, fun _ => rfl⟩⟩
  | step _ _ hkeeps hends ih =>
    obtain ⟨w, hshows, hsound, hfollows⟩ := ih
    obtain ⟨s', hends', hshows'⟩ := hshows.exec hsound _
    obtain rfl := (Prod.mk.inj (hends.eq hends')).1
    refine ⟨_, hshows', hsound.exec _, fun q => (hfollows q).exec hsound fun t ht hfull => ?_⟩
    rw [← (hfollows q).pending]
    refine hkeeps t ht ?_ q
    rw [hshows.capacity, hshows.items]
    exact hfull

/-- As long as the order is kept, each queue is the list of the events that are registered on it
and neither woken nor cancelled, at their addresses and in the order of registration, and the
next operation wakes the first of them. -/
theorem WaitOp.Reached.pending_lists (h : WaitOp.Reached KeepsOrder heads vars s f) :
    Lists s f.pending ∧ (∀ q r, r ∈ f.pending q ↔ s.On q r) ∧
      ∀ op : WaitOp T Q V, ∃ s', op.Ends s (s', op.woken f.pending) := by
  obtain ⟨w, hshows, hsound, hfollows⟩ := h.follows
  rw [show f.pending = w.queue from funext fun q => (hfollows q).pending]
  refine ⟨hshows.lists, fun q r => ?_, fun op => ?_⟩
  · rw [hsound.mem_iff, hshows.on_iff]
  · obtain ⟨s', hends, -⟩ := hshows.exec hsound op
    exact ⟨s', hends⟩

/-- Two threads wait on a queue, which are then woken in this order. -/
theorem pending_lists_two : ∃ s : Waitqueues Nat Nat Unit,
    Lists s (fun q => if q = 0 then [(0, 0), (1, 0)] else []) ∧
      (∀ q r, r ∈ (if q = 0 then [(0, 0), (1, 0)] else []) ↔ s.On q r) ∧
      ∃ s', (WaitOp.wakeN 0 1 1).Ends s (s', ⟨[0], some 1⟩) := by
  have hstart : WaitOp.Reached KeepsOrder (fun _ => none) (fun _ => 0)
      (Waitqueues.init (fun _ => none) (fun _ => 0)) (Registrations.start Nat Nat) :=
    WaitOp.Reached.init (V := Unit)
  have hvalid (t : Nat) : (WaitOp.wait t 0 none : WaitOp Nat Nat Unit).Valid := trivial
  obtain ⟨s₁, h₁⟩ := hstart.pending_lists.2.2 (.wait 0 0 none)
  have hfirst := hstart.step (hvalid 0) (fun _ _ _ _ => List.Pairwise.nil) h₁
  obtain ⟨s₂, h₂⟩ := hfirst.pending_lists.2.2 (.wait 1 0 none)
  have hone (q : Nat) : Behind 1 (((Registrations.start Nat Nat).apply
      (.wait 0 0 none : WaitOp Nat Nat Unit)).pending q) := by
    by_cases hq : q = 0
    · subst hq
      exact List.pairwise_singleton _ _
    · simp [Registrations.apply, Registrations.start, hq, Behind]
  have hsecond := hfirst.step (hvalid 1) (fun t ht _ q => by cases ht; exact hone q) h₂
  have hpending : (((Registrations.start Nat Nat).apply
      (.wait 0 0 none : WaitOp Nat Nat Unit)).apply (.wait 1 0 none : WaitOp Nat Nat Unit)).pending =
      fun q => if q = 0 then [(0, 0), (1, 0)] else [] := by
    funext q
    by_cases hq : q = 0 <;> simp [Registrations.apply, Registrations.start, hq]
  obtain ⟨hlists, hon, hnext⟩ := hsecond.pending_lists
  rw [hpending] at hlists hon hnext
  exact ⟨s₂, hlists, hon, hnext (.wakeN 0 1 1)⟩

end Runs

section Growth

/-! ## A vector that grows -/

variable {T Q V : Type} [DecidableEq T] [DecidableEq Q] [DecidableEq V]

/-- Operations one after the other, and what each of them tells. -/
def WaitOp.run (fuel : Nat) (s : Waitqueues T Q V) : List (WaitOp T Q V) → Option (List (Woken T))
  | [] => some []
  | op :: ops => do
    let (s, woken) ← op.exec fuel s
    let rest ← run fuel s ops
    return woken :: rest

/-- What they are to tell. -/
def Registrations.run (f : Registrations T Q) : List (WaitOp T Q V) → List (Woken T)
  | [] => []
  | op :: ops => op.woken f.pending :: (f.apply op).run ops

/-- Two threads wait on a queue, and the first then waits on a second one. -/
def waitTwice : List (WaitOp Nat Nat Unit) :=
  [.wait 0 0 none, .wait 1 0 none, .wait 0 1 none, .wakeN 0 1 1]

/-- It is the other thread that is woken. -/
theorem growth_reorders :
    WaitOp.run 8 (Waitqueues.init (fun _ => none) (fun _ => 0)) waitTwice =
        some [⟨[], none⟩, ⟨[], none⟩, ⟨[], none⟩, ⟨[1], some 1⟩] ∧
      (Registrations.start Nat Nat).run waitTwice =
        [⟨[], none⟩, ⟨[], none⟩, ⟨[], none⟩, ⟨[0], some 1⟩] := by
  decide

end Growth

end Nox.Threads
