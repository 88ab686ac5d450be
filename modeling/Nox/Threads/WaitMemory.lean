import Mathlib.Data.Option.Basic
import Nox.Threads.Waits

/-!
# Wait queues in memory

Each operation on the memory of the wait queues is one on their lists: no pointer is followed to
where no event is, and the loops end.
-/

namespace Nox.Threads

open Lib Lib.TailList

section Holding

/-! ## The lists in memory -/

variable {T Q V : Type}

/-- Where an event is. -/
def Waitqueues.addrOf (s : Waitqueues T Q V) (r : T × Nat) : EventAddr T :=
  ⟨r.1, (s.events r.1).block, r.2⟩

/-- The event is in the vector, and says that it waits on the queue. -/
def Waitqueues.On (s : Waitqueues T Q V) (q : Q) (r : T × Nat) : Prop :=
  ∃ e, (s.events r.1).items[r.2]? = some e ∧ e.wq = some q

/-- Each queue in memory is the list of these events, which wait on it. -/
structure Lists (s : Waitqueues T Q V) (queue : Q → List (T × Nat)) : Prop where
  nodup : ∀ q, (queue q).Nodup
  waits : ∀ q, ∀ r ∈ queue q, s.On q r
  holds : ∀ q, Holds s.next (s.queues q) ((queue q).map s.addrOf)

variable {s s' : Waitqueues T Q V} {queue : Q → List (T × Nat)} {q q' : Q} {r : T × Nat} {t : T}
  {e : CoEvent T Q V}

theorem addrOf_injective : Function.Injective s.addrOf := by
  rintro ⟨t, i⟩ ⟨t', i'⟩ h
  simp only [Waitqueues.addrOf, EventAddr.mk.injEq] at h
  obtain ⟨rfl, -, rfl⟩ := h
  rfl

theorem event?_addrOf : s.event? (s.addrOf r) = (s.events r.1).items[r.2]? := if_pos rfl

theorem addrOf_congr (h : s'.events = s.events) : s'.addrOf = s.addrOf := by
  funext r
  simp only [Waitqueues.addrOf, h]

theorem Waitqueues.On.eq (h : s.On q r) (h' : s.On q' r) : q = q' := by
  obtain ⟨e, he, hq⟩ := h
  obtain ⟨e', he', hq'⟩ := h'
  rw [he] at he'
  cases he'
  exact Option.some.inj (hq.symm.trans hq')

theorem live_of_on (h : s.On q r) : s.live (some (s.addrOf r)) = true := by
  obtain ⟨e, he, -⟩ := h
  rw [Waitqueues.live, event?_addrOf, he]
  rfl

theorem Lists.live_tail (h : Lists s queue) (q : Q) : s.live (s.queues q).tail = true := by
  cases htail : (s.queues q).tail with
  | none => rfl
  | some a =>
    obtain ⟨r, hr, rfl⟩ := List.mem_map.mp (tail_mem (h.holds q) htail)
    exact live_of_on (h.waits q r hr)

theorem Lists.nodup_map (h : Lists s queue) (q : Q) : ((queue q).map s.addrOf).Nodup :=
  (h.nodup q).map addrOf_injective

variable [DecidableEq Q]

/-- An operation on the list of one queue, which leaves all links but those of its elements. -/
theorem Lists.setQueue (h : Lists s queue) {l : Links (EventAddr T) × TailList (EventAddr T)}
    {l' : List (T × Nat)} (hnodup : l'.Nodup) (hwaits : ∀ r ∈ l', s.On q r)
    (hl : Holds l.1 l.2 (l'.map s.addrOf))
    (hframe : ∀ c, c ∉ (queue q).map s.addrOf → l.1 c = s.next c) :
    Lists (s.setQueue q l) (Function.update queue q l') := by
  have hall (q' : Q) : (Function.update queue q l' q').Nodup ∧
      (∀ r ∈ Function.update queue q l' q', s.On q' r) ∧
      Holds l.1 (Function.update s.queues q l.2 q')
        ((Function.update queue q l' q').map s.addrOf) := by
    by_cases hq : q' = q
    · subst hq
      simp only [Function.update_self]
      exact ⟨hnodup, hwaits, hl⟩
    · simp only [Function.update_of_ne hq]
      refine ⟨h.nodup q', h.waits q', (h.holds q').frame fun a ha => hframe a fun hmem => hq ?_⟩
      obtain ⟨r, hr, rfl⟩ := List.mem_map.mp ha
      obtain ⟨r', hr', heq⟩ := List.mem_map.mp hmem
      rw [addrOf_injective heq] at hr'
      exact (h.waits q' r hr).eq (h.waits q r hr')
  exact ⟨fun q' => (hall q').1, fun q' => (hall q').2.1, fun q' => (hall q').2.2⟩

variable [DecidableEq T]

theorem Lists.terminate (h : Lists s queue) (q : Q) :
    ∃ s', s.terminate q = some s' ∧ Lists s' queue ∧ s'.events = s.events ∧ s'.vars = s.vars ∧
      Ends s'.next (s'.queues q) ((queue q).map s.addrOf) := by
  obtain ⟨hends, hframe⟩ := (h.holds q).terminate (h.nodup_map q)
  refine ⟨s.setQueue q ((s.queues q).terminate s.next), ?_, ?_, rfl, rfl, ?_⟩
  · simp [Waitqueues.terminate, h.live_tail q]
  · have hlists := h.setQueue (h.nodup q) (h.waits q) hends.holds hframe
    rwa [Function.update_eq_self] at hlists
  · simpa [Waitqueues.setQueue] using hends

/-- An event goes to the end of the queue it waits on. -/
theorem Lists.append (h : Lists s queue) (hon : s.On q r) (hr : r ∉ queue q) :
    ∃ s', s.append q (s.addrOf r) = some s' ∧
      Lists s' (Function.update queue q (queue q ++ [r])) ∧ s'.events = s.events ∧
      s'.vars = s.vars := by
  obtain ⟨hholds, hframe⟩ := (h.holds q).append (h.nodup_map q) (s.addrOf r)
  refine ⟨s.setQueue q ((s.queues q).append s.next (s.addrOf r)), ?_, ?_, rfl, rfl⟩
  · simp [Waitqueues.append, h.live_tail q]
  · refine h.setQueue ?_ ?_ (by simpa using hholds) hframe
    · exact List.nodup_append.mpr ⟨h.nodup q, List.nodup_singleton r, by
        rintro a ha b hb rfl
        rw [List.mem_singleton] at hb
        exact hr (hb ▸ ha)⟩
    · intro a ha
      rcases List.mem_append.mp ha with ha | ha
      · exact h.waits q a ha
      · rw [List.mem_singleton] at ha
        exact ha ▸ hon

/-- An event is taken from the queue it waits on. -/
theorem Lists.dequeue (h : Lists s queue) (hr : r ∈ queue q) :
    ∃ s', (∀ fuel, (queue q).length ≤ fuel → s.dequeue fuel q (s.addrOf r) = some s') ∧
      Lists s' (Function.update queue q ((queue q).filter (· ≠ r))) ∧ s'.events = s.events ∧
      s'.vars = s.vars := by
  obtain ⟨s₁, hs₁, hlists, hevents, hvars, hends⟩ := h.terminate q
  obtain ⟨before, after, hsplit⟩ := List.append_of_mem hr
  have hnodup := h.nodup q
  rw [hsplit] at hnodup
  have haddr := addrOf_congr hevents
  have hfilter : (queue q).filter (· ≠ r) = before ++ after := by
    obtain ⟨-, hafter, hdisj⟩ := List.nodup_append.mp hnodup
    rw [hsplit, List.filter_append, List.filter_cons_of_neg (by simp)]
    rw [List.filter_eq_self.mpr, List.filter_eq_self.mpr]
    · intro a ha
      have hne : a ≠ r := by
        rintro rfl
        exact (List.nodup_cons.mp hafter).1 ha
      simpa using hne
    · intro a ha
      simpa using hdisj a ha r List.mem_cons_self
  have hmap := hlists.nodup_map q
  rw [haddr, hsplit, List.map_append, List.map_cons] at hmap
  rw [hsplit, List.map_append, List.map_cons] at hends
  obtain ⟨p, hbefore, rfl, -⟩ := segment_append.mp hends.2
  have hfind {fuel : Nat} (hfuel : (queue q).length ≤ fuel) :
      (s₁.queues q).findLink s₁.live s₁.next (s.addrOf r) fuel none =
        some (before.map s.addrOf).getLast? := by
    have hnot : s.addrOf r ∉ before.map s.addrOf := fun hmem =>
      (List.nodup_append.mp hmap).2.2 _ hmem _ List.mem_cons_self rfl
    rw [findLink_eq (h := s₁.queues q) (p := none) hbefore hnot ?_ rfl ?_, Option.or_none]
    · rw [hsplit] at hfuel
      simp only [List.length_append, List.length_cons, List.length_map] at hfuel ⊢
      omega
    · intro b hb
      obtain ⟨r', hr', rfl⟩ := List.mem_map.mp hb
      rw [← haddr]
      exact live_of_on (hlists.waits q r' (hsplit ▸ List.mem_append_left _ hr'))
  obtain ⟨hholds, hframe⟩ := hends.unlink hmap
  refine ⟨s₁.setQueue q ((s₁.queues q).unlink s₁.next (s.addrOf r)
    (before.map s.addrOf).getLast?), ?_, ?_, hevents, hvars⟩
  · intro fuel hfuel
    simp only [Waitqueues.dequeue, hs₁, hfind hfuel, Option.bind_eq_bind, Option.bind_some]
    rfl
  · rw [hfilter]
    refine hlists.setQueue (hnodup.sublist ?_) (fun a ha => hlists.waits q a ?_) ?_ ?_
    · exact (List.sublist_cons_self r after).append_left before
    · rw [hsplit]
      exact ((List.sublist_cons_self r after).append_left before).subset ha
    · rw [haddr, List.map_append]
      exact hholds
    · intro c hc
      refine hframe c fun hmem => hc ?_
      rw [haddr, hsplit, List.map_append]
      exact List.mem_append_left _ hmem

theorem filter_ne_self {l : List (T × Nat)} (h : r ∉ l) : l.filter (· ≠ r) = l := by
  refine List.filter_eq_self.mpr fun a ha => ?_
  have hne : a ≠ r := by
    rintro rfl
    exact h ha
  simpa using hne

theorem Lists.dequeueEvent (h : Lists s queue) (he : (s.events r.1).items[r.2]? = some e)
    (hq : ∀ q, e.wq = some q → r ∈ queue q) :
    ∃ s', (∀ fuel, (∀ q, e.wq = some q → (queue q).length ≤ fuel) →
        Waitqueues.dequeueEvent fuel s (s.addrOf r) = some s') ∧
      Lists s' (fun q => (queue q).filter (· ≠ r)) ∧ s'.events = s.events ∧ s'.vars = s.vars := by
  have hnot {q : Q} (hne : e.wq ≠ some q) : r ∉ queue q := fun hr => by
    obtain ⟨e', he', hq'⟩ := h.waits q r hr
    rw [he] at he'
    cases he'
    exact hne hq'
  simp only [Waitqueues.dequeueEvent, event?_addrOf, he, Option.bind_eq_bind, Option.bind_some]
  cases hwq : e.wq with
  | none =>
    have hsame : (fun q => (queue q).filter (· ≠ r)) = queue :=
      funext fun q => filter_ne_self (hnot (by simp [hwq]))
    exact ⟨s, fun _ _ => rfl, by rw [hsame]; exact h, rfl, rfl⟩
  | some q =>
    have hsame : (fun q => (queue q).filter (· ≠ r)) =
        Function.update queue q ((queue q).filter (· ≠ r)) := by
      funext q'
      by_cases hqq : q' = q
      · rw [hqq, Function.update_self]
      · rw [Function.update_of_ne hqq]
        refine filter_ne_self (hnot ?_)
        rw [hwq]
        exact fun heq => hqq (Option.some.inj heq).symm
    rw [hsame]
    obtain ⟨s', hs', hrest⟩ := h.dequeue (hq q hwq)
    exact ⟨s', fun fuel hfuel => hs' fuel (hfuel q rfl), hrest⟩

theorem Lists.requeueEvent (h : Lists s queue) (he : (s.events r.1).items[r.2]? = some e)
    (hr : ∀ q, r ∉ queue q) :
    ∃ s', Waitqueues.requeueEvent s (s.addrOf r) = some s' ∧
      Lists s' (fun q => queue q ++ if e.wq = some q then [r] else []) ∧ s'.events = s.events ∧
      s'.vars = s.vars := by
  simp only [Waitqueues.requeueEvent, event?_addrOf, he, Option.bind_eq_bind, Option.bind_some]
  cases hwq : e.wq with
  | none =>
    refine ⟨s, rfl, ?_, rfl, rfl⟩
    simpa using h
  | some q =>
    have hsame : (fun q' => queue q' ++ if some q = some q' then [r] else []) =
        Function.update queue q (queue q ++ [r]) := by
      funext q'
      by_cases hqq : q' = q
      · subst hqq
        simp
      · have hne : q ≠ q' := Ne.symm hqq
        simp [hqq, hne]
    rw [hsame]
    exact h.append ⟨e, he, hwq⟩ (hr q)

/-- All events of a thread are taken from their queues. -/
theorem Lists.dequeueAll (h : Lists s queue)
    (hall : ∀ i e, (s.events t).items[i]? = some e → ∀ q, e.wq = some q → (t, i) ∈ queue q) :
    ∃ s', (∀ fuel, (∀ e ∈ (s.events t).items, ∀ q, e.wq = some q → (queue q).length ≤ fuel) →
        (s.addrs t).foldlM (Waitqueues.dequeueEvent fuel) s = some s') ∧
      Lists s' (fun q => (queue q).filter (·.1 ≠ t)) ∧ s'.events = s.events ∧
      s'.vars = s.vars := by
  have hloop (k : Nat) (hk : k ≤ (s.events t).items.length) :
      ∃ s', (∀ fuel, (∀ e ∈ (s.events t).items, ∀ q, e.wq = some q → (queue q).length ≤ fuel) →
          ((List.range k).map fun i => s.addrOf (t, i)).foldlM
            (Waitqueues.dequeueEvent fuel) s = some s') ∧
        Lists s' (fun q => (queue q).filter fun r => ¬(r.1 = t ∧ r.2 < k)) ∧
        s'.events = s.events ∧ s'.vars = s.vars := by
    induction k with
    | zero => exact ⟨s, fun _ _ => rfl, by simpa using h, rfl, rfl⟩
    | succ k ih =>
      obtain ⟨s₁, hs₁, hlists, hevents, hvars⟩ := ih (Nat.le_of_succ_le hk)
      have hget : (s₁.events (t, k).1).items[(t, k).2]? = some (s.events t).items[k] := by
        rw [hevents]
        exact List.getElem?_eq_getElem hk
      obtain ⟨s₂, hs₂, hlists₂, hevents₂, hvars₂⟩ := hlists.dequeueEvent hget
        fun q hq => by simpa using hall k _ (List.getElem?_eq_getElem hk) q hq
      refine ⟨s₂, fun fuel hfuel => ?_, ?_, hevents₂.trans hevents, hvars₂.trans hvars⟩
      · have hstep := hs₂ fuel fun q hq =>
          Nat.le_trans (List.length_filter_le _ _) (hfuel _ (List.getElem_mem hk) q hq)
        rw [List.range_succ, List.map_append, List.foldlM_append, hs₁ fuel hfuel]
        rw [addrOf_congr hevents] at hstep
        simp [hstep]
      · have hsame : (fun q => ((queue q).filter fun r => ¬(r.1 = t ∧ r.2 < k)).filter
            (· ≠ (t, k))) = fun q => (queue q).filter fun r => ¬(r.1 = t ∧ r.2 < k + 1) := by
          funext q
          rw [List.filter_filter]
          refine List.filter_congr fun r _ => ?_
          obtain ⟨t', i⟩ := r
          simp only [ne_eq, Prod.mk.injEq, decide_not, Nat.lt_succ_iff_lt_or_eq]
          by_cases ht : t' = t <;> by_cases hi : i < k <;> by_cases hik : i = k <;>
            simp [ht, hi, hik]
        rw [hsame] at hlists₂
        exact hlists₂
  obtain ⟨s', hs', hlists, hrest⟩ := hloop _ (Nat.le_refl _)
  have hsame : (fun q => (queue q).filter fun r => ¬(r.1 = t ∧ r.2 < (s.events t).items.length)) =
      fun q => (queue q).filter (·.1 ≠ t) := by
    funext q
    refine List.filter_congr fun r hr => ?_
    obtain ⟨e, he, -⟩ := h.waits q r hr
    have hlt := (List.getElem?_eq_some_iff.mp he).1
    by_cases ht : r.1 = t
    · rw [ht] at hlt
      simp [ht, hlt]
    · simp [ht]
  rw [hsame] at hlists
  exact ⟨s', hs', hlists, hrest⟩

/-- All events of a thread are put back on their queues. -/
theorem Lists.requeueAll (h : Lists s queue) (hnone : ∀ q, ∀ r ∈ queue q, r.1 ≠ t) :
    ∃ s', (s.addrs t).foldlM Waitqueues.requeueEvent s = some s' ∧
      Lists s' (fun q => queue q ++ ((List.range (s.events t).items.length).filter fun i =>
        ((s.events t).items[i]?.bind (·.wq)) = some q).map (t, ·)) ∧
      s'.events = s.events ∧ s'.vars = s.vars := by
  have hloop (k : Nat) (hk : k ≤ (s.events t).items.length) :
      ∃ s', ((List.range k).map fun i => s.addrOf (t, i)).foldlM Waitqueues.requeueEvent s =
          some s' ∧
        Lists s' (fun q => queue q ++ ((List.range k).filter fun i =>
          ((s.events t).items[i]?.bind (·.wq)) = some q).map (t, ·)) ∧
        s'.events = s.events ∧ s'.vars = s.vars := by
    induction k with
    | zero => exact ⟨s, rfl, by simpa using h, rfl, rfl⟩
    | succ k ih =>
      obtain ⟨s₁, hs₁, hlists, hevents, hvars⟩ := ih (Nat.le_of_succ_le hk)
      have hget : (s.events t).items[k]? = some (s.events t).items[k] :=
        List.getElem?_eq_getElem hk
      have hget₁ : (s₁.events (t, k).1).items[(t, k).2]? = some (s.events t).items[k] := by
        rw [hevents]
        exact hget
      obtain ⟨s₂, hs₂, hlists₂, hevents₂, hvars₂⟩ :=
        hlists.requeueEvent hget₁ fun q hmem => by
          rcases List.mem_append.mp hmem with hmem | hmem
          · exact hnone q _ hmem rfl
          · simp at hmem
      refine ⟨s₂, ?_, ?_, hevents₂.trans hevents, hvars₂.trans hvars⟩
      · rw [List.range_succ, List.map_append, List.foldlM_append, hs₁]
        rw [addrOf_congr hevents] at hs₂
        simp [hs₂]
      · have hsame (q : Q) : ((List.range (k + 1)).filter fun i =>
            ((s.events t).items[i]?.bind (·.wq)) = some q).map (t, ·) =
            ((List.range k).filter fun i =>
              ((s.events t).items[i]?.bind (·.wq)) = some q).map (t, ·) ++
            if (s.events t).items[k].wq = some q then [(t, k)] else [] := by
          rw [List.range_succ, List.filter_append, List.map_append]
          congr 1
          simp only [List.filter_cons, hget, Option.bind_some, List.filter_nil]
          split <;> simp_all
        simp only [hsame]
        simpa [List.append_assoc] using hlists₂
  exact hloop _ (Nat.le_refl _)

omit [DecidableEq Q] in
/-- No event of the thread is on a queue when they are moved. -/
theorem Lists.reserve (h : Lists s queue) (hnone : ∀ q, ∀ r ∈ queue q, r.1 ≠ t) :
    Lists (s.reserve t) queue := by
  have hevents {r : T × Nat} (hr : r.1 ≠ t) : (s.reserve t).events r.1 = s.events r.1 :=
    Function.update_of_ne hr _ _
  have haddr {q : Q} : (queue q).map (s.reserve t).addrOf = (queue q).map s.addrOf :=
    List.map_congr_left fun r hr => by
      rw [Waitqueues.addrOf, hevents (hnone q r hr)]
      rfl
  refine ⟨h.nodup, fun q r hr => ?_, fun q => ?_⟩
  · unfold Waitqueues.On
    rw [hevents (hnone q r hr)]
    exact h.waits q r hr
  · rw [haddr]
    refine (h.holds q).frame fun a ha => ?_
    obtain ⟨r, hr, rfl⟩ := List.mem_map.mp ha
    exact if_neg fun hmoved => hnone q r hr hmoved.1

end Holding

section Growth

/-! ## Registering and cancelling -/

variable {T Q V : Type} {s s' : Waitqueues T Q V} {w : Waits T Q V} {t : T} {q : Q}

/-- The memory holds the lists. -/
structure Shows (s : Waitqueues T Q V) (w : Waits T Q V) : Prop where
  items : ∀ t, (s.events t).items = w.events t
  capacity : ∀ t, (s.events t).capacity = w.capacity t
  vars : s.vars = w.vars
  lists : Lists s w.queue

theorem shows_init (heads : Q → Option (EventAddr T)) (vars : V → Int) :
    Shows (Waitqueues.init heads vars) (Waits.init vars) where
  items := fun _ => rfl
  capacity := fun _ => rfl
  vars := rfl
  lists := ⟨fun _ => List.nodup_nil, fun _ _ h => (nomatch h), fun _ => holds_nil.mpr rfl⟩

theorem Shows.on_iff (h : Shows s w) {r : T × Nat} : s.On q r ↔ w.On q r := by
  unfold Waitqueues.On Waits.On
  rw [h.items]

/-- How far the loops go that look for the events of a thread. -/
theorem exists_fuel (queue : Q → List (T × Nat)) (l : List (CoEvent T Q V)) :
    ∃ n, ∀ e ∈ l, ∀ q, e.wq = some q → (queue q).length ≤ n := by
  induction l with
  | nil => exact ⟨0, fun _ h => nomatch h⟩
  | cons e l ih =>
    obtain ⟨n, hn⟩ := ih
    refine ⟨max n ((e.wq.map fun q => (queue q).length).getD 0), fun e' he' q hq => ?_⟩
    rcases List.mem_cons.mp he' with rfl | he'
    · rw [hq]
      exact Nat.le_max_right n (queue q).length
    · exact Nat.le_trans (hn e' he' q hq) (Nat.le_max_left _ _)

variable [DecidableEq T] [DecidableEq Q]

/-- The events of a thread are taken from their queues. -/
theorem Shows.dequeueAll (h : Shows s w) (hw : w.Sound) (t : T) :
    ∃ s', (∃ n, ∀ fuel, n ≤ fuel →
        (s.addrs t).foldlM (Waitqueues.dequeueEvent fuel) s = some s') ∧
      Lists s' (fun q => (w.queue q).filter (·.1 ≠ t)) ∧ s'.events = s.events ∧
      s'.vars = s.vars := by
  obtain ⟨s', hs', hrest⟩ := h.lists.dequeueAll (t := t) fun i e he q hq => by
    rw [h.items] at he
    exact (hw.mem_iff q (t, i)).mpr ⟨e, he, hq⟩
  obtain ⟨n, hn⟩ := exists_fuel w.queue (s.events t).items
  exact ⟨s', ⟨n, fun fuel hfuel => hs' fuel fun e he q hq => Nat.le_trans (hn e he q hq) hfuel⟩,
    hrest⟩

theorem Shows.grow (h : Shows s w) (hw : w.Sound) (t : T) :
    ∃ s', (∃ n, ∀ fuel, n ≤ fuel → s.grow fuel t = some s') ∧ Shows s' (w.grow t) := by
  obtain ⟨s₁, ⟨n, hn⟩, hlists, hevents, hvars⟩ := h.dequeueAll hw t
  have hnone : ∀ q, ∀ r ∈ (w.queue q).filter (·.1 ≠ t), r.1 ≠ t := fun q r hr => by
    simpa using (List.mem_filter.mp hr).2
  obtain ⟨s₂, hs₂, hlists₂, hevents₂, hvars₂⟩ := (hlists.reserve hnone).requeueAll hnone
  have hitems (t' : T) : ((s₁.reserve t).events t').items = w.events t' := by
    rw [← h.items, ← hevents]
    by_cases ht : t' = t
    · subst ht
      simp [Waitqueues.reserve]
    · simp [Waitqueues.reserve, ht]
  refine ⟨s₂, ⟨n, fun fuel hfuel => ?_⟩, fun t' => ?_, fun t' => ?_, ?_, ?_⟩
  · simp only [Waitqueues.grow, hn fuel hfuel, Option.bind_eq_bind, Option.bind_some]
    exact hs₂
  · rw [hevents₂]
    exact hitems t'
  · rw [hevents₂]
    by_cases ht : t' = t
    · subst ht
      simp [Waitqueues.reserve, Waits.grow, hevents, h.capacity]
    · simp [Waitqueues.reserve, Waits.grow, hevents, h.capacity, ht]
  · exact hvars₂.trans (hvars.trans h.vars)
  · rw [hitems] at hlists₂
    exact hlists₂

omit [DecidableEq Q] in
/-- The vector of a thread with an event more. -/
def Waitqueues.push (t : T) (e : CoEvent T Q V) (s : Waitqueues T Q V) : Waitqueues T Q V :=
  { s.setEvents t { s.events t with items := (s.events t).items ++ [e] } with
    next := Function.update s.next ⟨t, (s.events t).block, (s.events t).items.length⟩ none }

theorem addEvent_eq (fuel : Nat) (e : CoEvent T Q V) :
    s.addEvent fuel t e = (if (s.events t).capacity ≤ (s.events t).items.length
      then s.grow fuel t else some s).map (Waitqueues.push t e) := by
  unfold Waitqueues.addEvent
  split
  · cases s.grow fuel t <;> rfl
  · rfl

omit [DecidableEq Q] in
/-- The new event is on no queue yet. -/
theorem Shows.push (h : Shows s w) (t : T) (e : CoEvent T Q V) :
    Shows (s.push t e) { w with events := Function.update w.events t (w.events t ++ [e]) } := by
  have hevents (t' : T) : (s.push t e).events t' = if t' = t
      then { s.events t with items := (s.events t).items ++ [e] } else s.events t' := by
    simp [Waitqueues.push, Waitqueues.setEvents, Function.update_apply]
  have haddr : (s.push t e).addrOf = s.addrOf := funext fun r => by
    simp only [Waitqueues.addrOf, hevents]
    split <;> simp_all
  refine ⟨fun t' => ?_, fun t' => ?_, h.vars, h.lists.nodup, fun q r hr => ?_, fun q => ?_⟩
  · rw [hevents]
    dsimp only
    rw [Function.update_apply]
    split
    · simp [h.items]
    · exact h.items t'
  · rw [hevents]
    split
    · simp_all [h.capacity]
    · exact h.capacity t'
  · obtain ⟨e', he', hq⟩ := h.lists.waits q r hr
    refine ⟨e', ?_, hq⟩
    rw [hevents]
    split
    · rename_i ht
      rw [ht] at he'
      dsimp only
      rw [List.getElem?_append_left (List.getElem?_eq_some_iff.mp he').1]
      exact he'
    · exact he'
  · rw [haddr]
    refine (h.lists.holds q).frame fun a ha => Function.update_of_ne ?_ _ _
    rintro rfl
    obtain ⟨r, hr, heq⟩ := List.mem_map.mp ha
    obtain ⟨e', he', -⟩ := h.lists.waits q r hr
    simp only [Waitqueues.addrOf, EventAddr.mk.injEq] at heq
    rw [heq.1, heq.2.2] at he'
    simp at he'

theorem Shows.addEvent (h : Shows s w) (hw : w.Sound) (t : T) (e : CoEvent T Q V) :
    ∃ s', (∃ n, ∀ fuel, n ≤ fuel → s.addEvent fuel t e = some s') ∧
      Shows s' (w.addEvent t e) := by
  have hfull : (s.events t).capacity ≤ (s.events t).items.length ↔ w.Full t := by
    rw [h.capacity, h.items]
    rfl
  by_cases hgrow : w.Full t
  · obtain ⟨s₁, ⟨n, hn⟩, hshows⟩ := h.grow hw t
    refine ⟨s₁.push t e, ⟨n, fun fuel hfuel => ?_⟩, ?_⟩
    · rw [addEvent_eq, if_pos (hfull.mpr hgrow), hn fuel hfuel]
      rfl
    · unfold Waits.addEvent
      rw [if_pos hgrow]
      exact hshows.push t e
  · refine ⟨s.push t e, ⟨0, fun fuel _ => ?_⟩, ?_⟩
    · rw [addEvent_eq, if_neg (mt hfull.mp hgrow)]
      rfl
    · unfold Waits.addEvent
      rw [if_neg hgrow]
      exact h.push t e

omit [DecidableEq Q] in
theorem Shows.clear (hlists : Lists s (fun q => (w.queue q).filter (·.1 ≠ t)))
    (hitems : ∀ t, (s.events t).items = w.events t)
    (hcapacity : ∀ t, (s.events t).capacity = w.capacity t) (hvars : s.vars = w.vars) :
    Shows (s.setEvents t { s.events t with items := [] }) (w.cancelEvents t) := by
  have haddr {q : Q} : ((w.queue q).filter (·.1 ≠ t)).map
      (s.setEvents t { s.events t with items := [] }).addrOf =
      ((w.queue q).filter (·.1 ≠ t)).map s.addrOf := by
    refine List.map_congr_left fun r hr => ?_
    have ht : r.1 ≠ t := by simpa using (List.mem_filter.mp hr).2
    simp [Waitqueues.addrOf, Waitqueues.setEvents, ht]
  refine ⟨fun t' => ?_, fun t' => ?_, hvars, hlists.nodup, fun q r hr => ?_, fun q => ?_⟩
  · by_cases ht : t' = t
    · subst ht
      simp [Waitqueues.setEvents, Waits.cancelEvents]
    · simp [Waitqueues.setEvents, Waits.cancelEvents, ht, hitems]
  · by_cases ht : t' = t
    · subst ht
      simp [Waitqueues.setEvents, Waits.cancelEvents, hcapacity]
    · simp [Waitqueues.setEvents, Waits.cancelEvents, ht, hcapacity]
  · have ht : r.1 ≠ t := by simpa using (List.mem_filter.mp hr).2
    obtain ⟨e, he, hq⟩ := hlists.waits q r hr
    exact ⟨e, by simpa [Waitqueues.setEvents, ht] using he, hq⟩
  · simp only [Waits.cancelEvents]
    rw [haddr]
    exact hlists.holds q

theorem Shows.cancelEvents (h : Shows s w) (hw : w.Sound) (t : T) :
    ∃ s', (∃ n, ∀ fuel, n ≤ fuel → s.cancelEvents fuel t = some s') ∧
      Shows s' (w.cancelEvents t) := by
  obtain ⟨s₁, ⟨n, hn⟩, hlists, hevents, hvars⟩ := h.dequeueAll hw t
  refine ⟨s₁.setEvents t { s₁.events t with items := [] }, ⟨n, fun fuel hfuel => ?_⟩, ?_⟩
  · simp only [Waitqueues.cancelEvents, hn fuel hfuel, Option.bind_eq_bind, Option.bind_some]
    rfl
  · exact Shows.clear hlists (by rw [hevents]; exact h.items)
      (by rw [hevents]; exact h.capacity) (hvars.trans h.vars)

end Growth

section Waiting

/-! ## Waiting -/

variable {T Q V : Type} [DecidableEq V] {s : Waitqueues T Q V} {w : Waits T Q V}

/-- Variables are apart from the lists. -/
theorem Shows.setVar (h : Shows s w) (retvalp : Option V) (retval : Int) :
    Shows (s.setVar retvalp retval) (w.setVar retvalp retval) := by
  cases retvalp with
  | none => exact h
  | some v =>
    refine ⟨h.items, h.capacity, ?_, h.lists.nodup, h.lists.waits, h.lists.holds⟩
    simp only [Waitqueues.setVar, Waits.setVar, h.vars]

variable [DecidableEq T] [DecidableEq Q]

theorem Shows.wait (h : Shows s w) (hw : w.Sound) (t : T) (q : Q) (retvalp : Option V) :
    ∃ s', (∃ n, ∀ fuel, n ≤ fuel → s.wait fuel t q retvalp = some s') ∧
      Shows s' (w.wait t q retvalp) := by
  obtain ⟨s₁, ⟨n, hn⟩, hshows⟩ := h.addEvent hw t ⟨some q, t, retvalp⟩
  obtain ⟨-, hmem, -⟩ := hw.addEvent (e := ⟨some q, t, retvalp⟩) rfl
  have hlength : (s₁.events t).items.length - 1 = (w.events t).length := by
    rw [hshows.items, Waits.events_addEvent]
    simp
  have hevents : (s₁.setVar retvalp 0).events = s₁.events := by
    cases retvalp <;> rfl
  have hon : (s₁.setVar retvalp 0).On q (t, (w.events t).length) := by
    rw [(hshows.setVar retvalp 0).on_iff, Waits.On, Waits.events_setVar]
    exact Waits.on_addEvent.mpr (Or.inr ⟨rfl, rfl⟩)
  have hnew : (t, (w.events t).length) ∉
      ((w.addEvent t ⟨some q, t, retvalp⟩).setVar retvalp 0).queue q := by
    rw [Waits.queue_setVar, hmem]
    rintro ⟨e, he, -⟩
    simp at he
  obtain ⟨s₂, hs₂, hlists, hevents₂, hvars₂⟩ := (hshows.setVar retvalp 0).lists.append hon hnew
  refine ⟨s₂, ⟨n, fun fuel hfuel => ?_⟩, fun t' => ?_, fun t' => ?_, ?_, hlists⟩
  · simp only [Waitqueues.wait, hn fuel hfuel, Option.bind_eq_bind, Option.bind_some, hlength]
    rw [Waitqueues.addrOf, hevents] at hs₂
    exact hs₂
  · rw [hevents₂]
    exact (hshows.setVar retvalp 0).items t'
  · rw [hevents₂]
    exact (hshows.setVar retvalp 0).capacity t'
  · exact hvars₂.trans (hshows.setVar retvalp 0).vars

theorem Shows.immediateWake (h : Shows s w) (hw : w.Sound) (t : T) (retval : Int)
    (retvalp : Option V) :
    ∃ s', (∃ n, ∀ fuel, n ≤ fuel → s.immediateWake fuel t retval retvalp = some s') ∧
      Shows s' (w.immediateWake t retval retvalp) := by
  obtain ⟨s₁, ⟨n, hn⟩, hshows⟩ := h.addEvent hw t ⟨none, t, retvalp⟩
  refine ⟨s₁.setVar retvalp retval, ⟨n, fun fuel hfuel => ?_⟩, hshows.setVar retvalp retval⟩
  simp only [Waitqueues.immediateWake, hn fuel hfuel, Option.bind_eq_bind, Option.bind_some]
  rfl

end Waiting

section Waking

/-! ## Waking -/

variable {T Q V : Type} {s s₀ s' : Waitqueues T Q V} {w : Waits T Q V} {q : Q} {r r₀ : T × Nat}
  {retval : Int} {k : Nat}

/-- While a queue is being woken: the events are those of the lists, at the places and with the
links they had before. -/
structure Agrees (s₀ s : Waitqueues T Q V) (w : Waits T Q V) : Prop where
  next : s.next = s₀.next
  queues : s.queues = s₀.queues
  block : ∀ t, (s.events t).block = (s₀.events t).block
  items : ∀ t, (s.events t).items = w.events t
  capacity : ∀ t, (s.events t).capacity = w.capacity t
  vars : s.vars = w.vars

theorem Agrees.addrOf (h : Agrees s₀ s w) : s.addrOf = s₀.addrOf := by
  funext r
  simp only [Waitqueues.addrOf, h.block]

/-- The event is there, and says whose it is. -/
def Waits.Registered (w : Waits T Q V) (r : T × Nat) : Prop :=
  ∃ e, (w.events r.1)[r.2]? = some e ∧ e.thread = r.1

variable [DecidableEq T] [DecidableEq V]

theorem Waits.Registered.wakeRef (h : w.Registered r) (retval : Int) (r₀ : T × Nat) :
    (wakeRef retval w r₀).Registered r := by
  obtain ⟨e, he, hthread⟩ := h
  refine ⟨_, (getElem?_wakeRef retval r₀).trans (congrArg _ he), ?_⟩
  dsimp only
  split <;> exact hthread

omit [DecidableEq T] in
theorem Agrees.setVar (h : Agrees s₀ s w) (retvalp : Option V) (retval : Int) :
    Agrees s₀ (s.setVar retvalp retval) (w.setVar retvalp retval) := by
  cases retvalp with
  | none => exact h
  | some v =>
    refine ⟨h.next, h.queues, h.block, h.items, h.capacity, ?_⟩
    simp only [Waitqueues.setVar, Waits.setVar, h.vars]

theorem Agrees.doEventWake (h : Agrees s₀ s w) (hr : w.Registered r) (retval : Int) :
    ∃ s', s.doEventWake retval (s₀.addrOf r) = some (s', r.1) ∧
      Agrees s₀ s' (Waits.wakeRef retval w r) := by
  obtain ⟨e, he, hthread⟩ := hr
  have hevent : s.event? (s₀.addrOf r) = some e := by
    rw [← h.addrOf, event?_addrOf, h.items, he]
  have hrec : Agrees s₀
      (s.setEvents r.1 { s.events r.1 with items := (s.events r.1).items.set r.2 { e with wq := none } })
      { w with events := Function.update w.events r.1 ((w.events r.1).set r.2 { e with wq := none }) } := by
    refine ⟨h.next, h.queues, fun t => ?_, fun t => ?_, fun t => ?_, h.vars⟩ <;>
      by_cases ht : t = r.1 <;>
      simp [Waitqueues.setEvents, ht, h.block, h.items, h.capacity]
  refine ⟨(s.setEvents r.1
    { s.events r.1 with items := (s.events r.1).items.set r.2 { e with wq := none } }).setVar
      e.retvalp retval, ?_, ?_⟩
  · simp only [Waitqueues.doEventWake, hevent, Option.bind_eq_bind, Option.bind_some, hthread]
    rfl
  · unfold Waits.wakeRef
    rw [he]
    exact hrec.setVar e.retvalp retval

/-- The loop wakes the first events of the list that is left, one after the other. -/
theorem Agrees.wakeLoop {rest : List (T × Nat)} {p : Option (EventAddr T)} (retval : Int)
    (more : Nat → Bool) (woken : List T) (h : Agrees s₀ s w) (hseg : Segment s₀.next p (rest.map s₀.addrOf) none)
    (hreg : ∀ r ∈ rest, w.Registered r) (hk : k ≤ rest.length)
    (hmore : ∀ j < k, more (woken.length + j) = true)
    (hstop : k = rest.length ∨ more (woken.length + k) = false) :
    ∃ s' e, (∀ fuel, rest.length ≤ fuel → Waitqueues.wakeLoop retval more fuel s p woken =
        some (s', e, woken ++ (rest.take k).map (·.1))) ∧
      Agrees s₀ s' ((rest.take k).foldl (Waits.wakeRef retval) w) ∧
      Segment s₀.next p ((rest.take k).map s₀.addrOf) e ∧
      Segment s₀.next e ((rest.drop k).map s₀.addrOf) none := by
  induction rest generalizing s w p woken k with
  | nil =>
    obtain rfl : p = none := hseg
    obtain rfl : k = 0 := Nat.le_zero.mp hk
    refine ⟨s, none, fun fuel _ => ?_, h, rfl, rfl⟩
    cases fuel <;> simp [Waitqueues.wakeLoop]
  | cons r rest ih =>
    obtain ⟨rfl, hrest⟩ := hseg
    cases k with
    | zero =>
      have hno : more woken.length = false := hstop.resolve_left (by simp)
      refine ⟨s, some (s₀.addrOf r), fun fuel hfuel => ?_, h, rfl, rfl, hrest⟩
      cases fuel with
      | zero => simp at hfuel
      | succ fuel => simp [Waitqueues.wakeLoop, hno]
    | succ k =>
      have hyes : more woken.length = true := hmore 0 (Nat.succ_pos k)
      rw [List.forall_mem_cons] at hreg
      obtain ⟨s₁, hs₁, hagrees⟩ := h.doEventWake hreg.1 retval
      have hlength : (woken ++ [r.1]).length = woken.length + 1 := by simp
      obtain ⟨s', e, hs', hagrees', htake, hdrop⟩ := ih (k := k) (woken ++ [r.1]) hagrees
        hrest (fun r' hr' => (hreg.2 r' hr').wakeRef retval r) (Nat.le_of_succ_le_succ hk)
        (fun j hj => by
          rw [hlength, Nat.add_assoc, Nat.add_comm 1]
          exact hmore (j + 1) (Nat.succ_lt_succ hj))
        (by
          rw [hlength, Nat.add_assoc, Nat.add_comm 1]
          exact hstop.imp_left fun heq => Nat.succ.inj heq)
      refine ⟨s', e, fun fuel hfuel => ?_, hagrees', ⟨rfl, htake⟩, hdrop⟩
      cases fuel with
      | zero => simp at hfuel
      | succ fuel =>
        rw [Waitqueues.wakeLoop, if_pos hyes]
        simp only [hs₁, Option.bind_eq_bind, Option.bind_some, hagrees.next]
        rw [hs' fuel (Nat.le_of_succ_le_succ hfuel)]
        simp

variable [DecidableEq Q]

/-- The first events of a queue are woken, and the queue starts with the next one. -/
theorem Shows.wakeFirst (h : Shows s w) (hw : w.Sound) (q : Q) (retval : Int)
    (more : Nat → Bool) (hk : k ≤ (w.queue q).length)
    (hmore : ∀ j < k, more j = true) (hstop : k = (w.queue q).length ∨ more k = false) :
    ∃ s₁ s' e, s.terminate q = some s₁ ∧
      (∀ fuel, (w.queue q).length ≤ fuel →
        Waitqueues.wakeLoop retval more fuel s₁ (s₁.queues q).head [] =
          some (s', e, ((w.queue q).take k).map (·.1))) ∧ (k = (w.queue q).length → e = none) ∧
      Shows (s'.setQueue q (s'.next, (s'.queues q).startAt e)) (w.wakeFirst q retval k) := by
  obtain ⟨s₁, hs₁, hlists, hevents, hvars, hends⟩ := h.lists.terminate q
  have hagrees : Agrees s₁ s₁ w :=
    ⟨rfl, rfl, fun _ => rfl, by rw [hevents]; exact h.items, by rw [hevents]; exact h.capacity,
      hvars.trans h.vars⟩
  rw [← addrOf_congr hevents] at hends
  have hreg : ∀ r ∈ w.queue q, w.Registered r := fun r hr => by
    obtain ⟨e, he, -⟩ := (hw.mem_iff q r).mp hr
    exact ⟨e, he, hw.thread r.1 e (List.mem_of_getElem? he)⟩
  obtain ⟨s', e, hs', hagrees', htake, hdrop⟩ := hagrees.wakeLoop (k := k) retval more
    [] hends.2 hreg hk (by simpa using hmore) (by simpa using hstop)
  have hsound := hw.wakeFirst q retval k
  refine ⟨s₁, s', e, hs₁, by simpa using hs', ?_, hagrees'.items, hagrees'.capacity,
    hagrees'.vars, hsound.nodup, fun q' r hr => ?_, fun q' => ?_⟩
  · rintro rfl
    rw [List.drop_length] at hdrop
    exact hdrop
  · obtain ⟨e', he', hq'⟩ := (hsound.mem_iff q' r).mp hr
    exact ⟨e', (hagrees'.items r.1).symm ▸ he', hq'⟩
  · have hqueue : (w.wakeFirst q retval k).queue =
        Function.update w.queue q ((w.queue q).drop k) := Waits.queue_wakeFirst q retval k
    have haddr : (s'.setQueue q (s'.next, (s'.queues q).startAt e)).addrOf = s₁.addrOf :=
      hagrees'.addrOf
    rw [haddr, hqueue]
    simp only [Waitqueues.setQueue, hagrees'.next, hagrees'.queues]
    by_cases hq : q' = q
    · subst hq
      simp only [Function.update_self]
      rw [← List.take_append_drop k (w.queue q'), List.map_append] at hends
      exact hends.startAt htake hdrop
    · simp only [Function.update_of_ne hq]
      exact hlists.holds q'

theorem Shows.wakeAll (h : Shows s w) (hw : w.Sound) (q : Q) (retval : Int) :
    ∃ s', (∀ fuel, (w.queue q).length ≤ fuel →
        s.wakeAll fuel q retval = some (s', (w.queue q).map (·.1))) ∧
      Shows s' (w.wakeFirst q retval (w.queue q).length) := by
  obtain ⟨s₁, s₂, e, hs₁, hs₂, hnone, hshows⟩ := h.wakeFirst hw q retval
    (fun _ => true) (Nat.le_refl _) (fun _ _ => rfl) (Or.inl rfl)
  obtain rfl := hnone rfl
  rw [List.take_length] at hs₂
  refine ⟨s₂.setQueue q (s₂.next, (s₂.queues q).startAt none), fun fuel hfuel => ?_, hshows⟩
  simp only [Waitqueues.wakeAll, hs₁, hs₂ fuel hfuel, Option.bind_eq_bind, Option.bind_some]
  rfl

theorem Shows.wakeN (h : Shows s w) (hw : w.Sound) (q : Q) (retval : Int) (maxWake : Nat) :
    ∃ s', (∀ fuel, (w.queue q).length ≤ fuel → s.wakeN fuel q retval maxWake =
        some (s', ((w.queue q).take maxWake).map (·.1), min maxWake (w.queue q).length)) ∧
      Shows s' (w.wakeFirst q retval maxWake) := by
  obtain ⟨s₁, s₂, e, hs₁, hs₂, -, hshows⟩ := h.wakeFirst
    (k := min maxWake (w.queue q).length) hw q retval (fun n => decide (n < maxWake)) (Nat.min_le_right _ _)
    (fun j hj => by simpa using (Nat.lt_min.mp hj).1) (by simp; omega)
  rw [← List.take_eq_take_min] at hs₂
  have hsame : w.wakeFirst q retval (min maxWake (w.queue q).length) =
      w.wakeFirst q retval maxWake := by
    simp only [Waits.wakeFirst, ← List.take_eq_take_min, ← List.drop_eq_drop_min]
  refine ⟨s₂.setQueue q (s₂.next, (s₂.queues q).startAt e), fun fuel hfuel => ?_, hsame ▸ hshows⟩
  simp only [Waitqueues.wakeN, hs₁, hs₂ fuel hfuel, Option.bind_eq_bind, Option.bind_some]
  simp

omit [DecidableEq Q] in
theorem next_doEventWake {e : EventAddr T} {thread : T}
    (h : s.doEventWake retval e = some (s', thread)) : s'.next = s.next := by
  unfold Waitqueues.doEventWake at h
  obtain ⟨ev, -, heq⟩ := Option.bind_eq_some_iff.mp h
  cases heq
  cases ev.retvalp <;> rfl

/-- `wake_1` reads the link to the next event before it wakes the first. -/
theorem wake1_eq (fuel : Nat) {s₁ : Waitqueues T Q V} {e : EventAddr T} (hs₁ : s.terminate q = some s₁)
    (hhead : (s₁.queues q).head = some e) :
    s.wake1 q retval = (s.wakeN (fuel + 2) q retval 1).map fun r => (r.1, r.2.1.head?) := by
  simp only [Waitqueues.wake1, Waitqueues.wakeN, hs₁, hhead, Option.bind_eq_bind,
    Option.bind_some]
  cases hwake : s₁.doEventWake retval e with
  | none => simp [Waitqueues.wakeLoop, hwake]
  | some r =>
    obtain ⟨s₂, thread⟩ := r
    have hnext := next_doEventWake hwake
    cases hlink : s₁.next e <;> simp [Waitqueues.wakeLoop, hwake, hnext, hlink]

theorem Shows.wake1 (h : Shows s w) (hw : w.Sound) (q : Q) (retval : Int) :
    ∃ s', s.wake1 q retval = some (s', (w.queue q).head?.map (·.1)) ∧
      Shows s' (w.wakeFirst q retval 1) := by
  obtain ⟨s₁, hs₁, hlists, hevents, hvars, hends⟩ := h.lists.terminate q
  cases hqueue : w.queue q with
  | nil =>
    rw [hqueue] at hends
    have hhead : (s₁.queues q).head = none := hends.2
    have hsame : w.wakeFirst q retval 1 = w := by
      simp only [Waits.wakeFirst, hqueue, List.take_nil, List.foldl_nil, List.drop_nil]
      rw [← hqueue, Function.update_eq_self]
    refine ⟨s₁, ?_, ?_⟩
    · simp only [Waitqueues.wake1, hs₁, hhead, Option.bind_eq_bind, Option.bind_some]
      rfl
    · rw [hsame]
      exact ⟨by rw [hevents]; exact h.items, by rw [hevents]; exact h.capacity, hvars.trans h.vars,
        hlists⟩
  | cons r rest =>
    rw [hqueue] at hends
    obtain ⟨s', hs', hshows⟩ := h.wakeN hw q retval 1
    refine ⟨s', ?_, hshows⟩
    rw [wake1_eq (w.queue q).length hs₁ hends.2.1, hs' _ (Nat.le_add_right _ 2), hqueue]
    rfl

end Waking

end Nox.Threads
