import Nox.Timer.Dispatcher

/-!
# The containers of the dispatcher

`Containers` says that the three containers and the memory agree: what is in `timers` or
`applicants` is live and knows in which of the two it is, `timers` is in order, and the
timer of a callback that still runs is not live.  Every step keeps it, whatever has become
of the 32-bit counters.
-/

namespace Nox.Timer

section Memory

/-! ## The ordered set and the memory -/

variable {k : Nat → Key}

theorem mem_insertTimer {a b : Nat} {l : List Nat} (h : b ∈ insertTimer k a l) :
    b = a ∨ b ∈ l := by
  induction l with
  | nil => exact .inl (List.mem_singleton.mp h)
  | cons c l ih =>
    unfold insertTimer at h
    split at h
    · exact List.mem_cons.mp h
    · split at h
      · rcases List.mem_cons.mp h with rfl | h
        · exact .inr List.mem_cons_self
        · exact (ih h).imp_right (List.mem_cons_of_mem c)
      · exact .inr h

theorem insertTimer_sorted {a : Nat} {l : List Nat} (h : l.Pairwise fun a b => k a < k b) :
    (insertTimer k a l).Pairwise fun a b => k a < k b := by
  induction l with
  | nil => exact List.pairwise_singleton _ _
  | cons c l ih =>
    obtain ⟨hc, hl⟩ := List.pairwise_cons.mp h
    unfold insertTimer
    split
    · next hac =>
      refine List.pairwise_cons.mpr ⟨fun b hb => ?_, h⟩
      rcases List.mem_cons.mp hb with rfl | hb
      · exact hac
      · exact hac.trans (hc b hb)
    · split
      · next hca =>
        refine List.pairwise_cons.mpr ⟨fun b hb => ?_, ih hl⟩
        rcases mem_insertTimer hb with rfl | hb
        · exact hca
        · exact hc b hb
      · exact h

theorem mem_foldl_insertTimer {order l : List Nat} {b : Nat}
    (h : b ∈ order.foldl (fun l a => insertTimer k a l) l) : b ∈ order ∨ b ∈ l := by
  induction order generalizing l with
  | nil => exact .inr h
  | cons a order ih =>
    rcases ih h with h | h
    · exact .inl (List.mem_cons_of_mem a h)
    · rcases mem_insertTimer h with rfl | h
      · exact .inl List.mem_cons_self
      · exact .inr h

theorem foldl_insertTimer_sorted {order l : List Nat} (h : l.Pairwise fun a b => k a < k b) :
    (order.foldl (fun l a => insertTimer k a l) l).Pairwise fun a b => k a < k b := by
  induction order generalizing l with
  | nil => exact h
  | cons a order ih => exact ih (insertTimer_sorted h)

@[simp] theorem store_self (heap : Nat → Option TimerImpl) (a : Nat) (t : Option TimerImpl) :
    store heap a t a = t := by
  simp [store]

theorem store_other {heap : Nat → Option TimerImpl} {a b : Nat} (t : Option TimerImpl)
    (h : b ≠ a) : store heap a t b = heap b := by
  simp [store, h]

theorem key_congr {heap heap' : Nat → Option TimerImpl} {a : Nat} (h : heap a = heap' a) :
    key heap a = key heap' a := by
  simp only [key, h]

theorem key_of_heap {heap : Nat → Option TimerImpl} {a : Nat} {t : TimerImpl}
    (h : heap a = some t) : key heap a = toLex (t.time, t.generation) := by
  simp only [key, h, TimerImpl.key]

/-- The order of timers whose memory is left alone. -/
theorem sorted_congr {heap heap' : Nat → Option TimerImpl} {l l' : List Nat}
    (h : l.Pairwise fun a b => key heap a < key heap b) (hsub : l'.Sublist l)
    (hheap : ∀ a ∈ l', heap' a = heap a) : l'.Pairwise fun a b => key heap' a < key heap' b := by
  refine (h.sublist hsub).imp_of_mem fun ha hb hlt => ?_
  rw [key_congr (hheap _ ha), key_congr (hheap _ hb)]
  exact hlt

end Memory

section Invariant

/-! ## What the containers hold -/

structure Containers (s : Dispatcher) : Prop where
  live : ∀ a ∈ s.allTimers, ∃ t, s.heap a = some t
  timers_live : ∀ a ∈ s.timers, a ∈ s.allTimers ∧ ∃ t, s.heap a = some t ∧ t.admitted = true
  applicants_live : ∀ a ∈ s.applicants,
    a ∈ s.allTimers ∧ ∃ t, s.heap a = some t ∧ t.admitted = false
  sorted : s.timers.Pairwise fun a b => key s.heap a < key s.heap b
  frames_held : ∀ f ∈ s.frames, (s.heap f.firing).isSome ∧ f.firing ∉ s.allTimers
  frames_nodup : (s.frames.map (·.firing)).Nodup

theorem containers_init : Containers .init where
  live := fun a ha => by simp [Dispatcher.init] at ha
  timers_live := fun a ha => by cases ha
  applicants_live := fun a ha => by simp [Dispatcher.init] at ha
  sorted := List.Pairwise.nil
  frames_held := fun f hf => by cases hf
  frames_nodup := List.nodup_nil

/-- The loop takes the first timer off and calls it, or leaves the containers alone. -/
theorem Containers.fire {s : Dispatcher} (h : Containers s) (poll : Nat) (now : Timeval)
    (serial : Nat) : Containers (s.fire poll now serial) := by
  unfold Dispatcher.fire
  split
  · exact h
  · next a timers htimers =>
    have hmem : a ∈ s.timers := by rw [htimers]; exact List.mem_cons_self
    obtain ⟨hall, t, hat, hadm⟩ := h.timers_live a hmem
    simp only [hat]
    split
    · exact h
    · have hsub : ∀ b ∈ timers, b ∈ s.timers := by
        intro b hb
        rw [htimers]
        exact List.mem_cons_of_mem a hb
      have hsorted := h.sorted
      rw [htimers] at hsorted
      obtain ⟨hmin, hrest⟩ := List.pairwise_cons.mp hsorted
      have hne : ∀ b ∈ timers, b ≠ a := by
        rintro b hb rfl
        exact lt_irrefl _ (hmin b hb)
      exact {
        live := fun b hb => h.live b (Finset.mem_of_mem_erase hb)
        timers_live := fun b hb =>
          ⟨Finset.mem_erase.mpr ⟨hne b hb, (h.timers_live b (hsub b hb)).1⟩,
            (h.timers_live b (hsub b hb)).2⟩
        applicants_live := by
          intro b hb
          obtain ⟨hball, u, hbu, hbadm⟩ := h.applicants_live b hb
          refine ⟨Finset.mem_erase.mpr ⟨?_, hball⟩, u, hbu, hbadm⟩
          rintro rfl
          cases hat.symm.trans hbu
          rw [hadm] at hbadm
          cases hbadm
        sorted := hrest
        frames_held := by
          intro f hf
          rcases List.mem_append.mp hf with hf | hf
          · obtain ⟨hsome, hnot⟩ := h.frames_held f hf
            exact ⟨hsome, fun hin => hnot (Finset.mem_of_mem_erase hin)⟩
          · rw [List.mem_singleton.mp hf]
            exact ⟨by rw [hat]; rfl, Finset.notMem_erase a _⟩
        frames_nodup := by
          rw [List.map_append]
          refine List.nodup_append.mpr ⟨h.frames_nodup, List.pairwise_singleton _ _, ?_⟩
          intro b hb c hc
          obtain ⟨f, hf, rfl⟩ := List.mem_map.mp hb
          rw [List.mem_singleton.mp hc]
          intro heq
          exact (h.frames_held f hf).2 (heq ▸ hall) }

end Invariant

section Removal

/-! ## Taking a timer out -/

/-- What `Timer_impl::cancel` does to the timer at `a`. -/
structure Removed (s s' : Dispatcher) (a : Nat) : Prop where
  allTimers : s'.allTimers = s.allTimers.erase a
  timers : s'.timers.Sublist s.timers
  not_timer : a ∉ s'.timers
  applicants : s'.applicants = s.applicants.erase a
  heap : ∀ b, b ≠ a → s'.heap b = s.heap b
  rest : s'.frames = s.frames ∧ s'.handles = s.handles ∧ s'.polls = s.polls ∧
    s'.history = s.history

theorem Removed.of_mem_timers {s s' : Dispatcher} {a b : Nat} (hr : Removed s s' a)
    (hb : b ∈ s'.timers) : b ≠ a ∧ b ∈ s.timers :=
  ⟨fun heq => hr.not_timer (heq ▸ hb), hr.timers.subset hb⟩

theorem Containers.removed {s : Dispatcher} (h : Containers s) {a : Nat} {t : TimerImpl}
    (hat : s.heap a = some t) : Removed s (s.implCancel a t) a := by
  unfold Dispatcher.implCancel
  by_cases hadm : t.admitted = true
  · simp only [hadm, if_true]
    refine ⟨rfl, List.filter_sublist, ?_, ?_, fun b hb => store_other _ hb, rfl, rfl, rfl, rfl⟩
    · simp [eraseTimer]
    · refine (Finset.erase_eq_of_notMem fun ha => ?_).symm
      obtain ⟨-, u, hu, hno⟩ := h.applicants_live a ha
      cases hat.symm.trans hu
      rw [hadm] at hno
      cases hno
  · simp only [hadm]
    refine ⟨rfl, List.Sublist.refl _, ?_, rfl, fun b _ => rfl, rfl, rfl, rfl, rfl⟩
    intro ha
    obtain ⟨-, u, hu, hyes⟩ := h.timers_live a ha
    cases hat.symm.trans hu
    exact hadm hyes

/-- The memory of the timer is freed. -/
theorem Containers.cancelled {s s' : Dispatcher} (h : Containers s) {a : Nat}
    (hall : a ∈ s.allTimers) (hr : Removed s s' a) :
    Containers { s' with heap := store s'.heap a none } := by
  have hheap : ∀ b, b ≠ a → store s'.heap a none b = s.heap b := by
    intro b hb
    rw [store_other _ hb, hr.heap b hb]
  have hall' : ∀ b, b ∈ s'.allTimers ↔ b ≠ a ∧ b ∈ s.allTimers := by
    intro b
    rw [hr.allTimers, Finset.mem_erase]
  exact {
    live := by
      intro b hb
      obtain ⟨hne, hb⟩ := (hall' b).mp hb
      exact (h.live b hb).imp fun u hu => (hheap b hne).trans hu
    timers_live := by
      intro b hb
      obtain ⟨hne, hb⟩ := hr.of_mem_timers hb
      obtain ⟨hin, u, hu, hadm⟩ := h.timers_live b hb
      exact ⟨(hall' b).mpr ⟨hne, hin⟩, u, (hheap b hne).trans hu, hadm⟩
    applicants_live := by
      intro b hb
      obtain ⟨hne, hb⟩ := Finset.mem_erase.mp (hr.applicants ▸ hb)
      obtain ⟨hin, u, hu, hadm⟩ := h.applicants_live b hb
      exact ⟨(hall' b).mpr ⟨hne, hin⟩, u, (hheap b hne).trans hu, hadm⟩
    sorted := sorted_congr h.sorted hr.timers fun b hb => hheap b (hr.of_mem_timers hb).1
    frames_held := by
      intro f hf
      obtain ⟨hsome, hnot⟩ := h.frames_held f (hr.rest.1 ▸ hf)
      have hne : f.firing ≠ a := fun heq => hnot (heq ▸ hall)
      exact ⟨(congrArg Option.isSome (hheap _ hne)).trans hsome,
        fun hin => hnot ((hall' _).mp hin).2⟩
    frames_nodup := hr.rest.1 ▸ h.frames_nodup }

/-- The timer is put among the applicants, as `t`. -/
theorem Containers.moved {s s' : Dispatcher} (h : Containers s) {a : Nat} {t : TimerImpl}
    (hall : a ∈ s.allTimers) (hr : Removed s s' a) (hadm : t.admitted = false) :
    Containers { s' with
      heap := store s'.heap a (some t)
      applicants := insert a s'.applicants
      allTimers := insert a s'.allTimers } := by
  have hheap : ∀ b, b ≠ a → store s'.heap a (some t) b = s.heap b := by
    intro b hb
    rw [store_other _ hb, hr.heap b hb]
  have hall' : insert a s'.allTimers = s.allTimers := by
    rw [hr.allTimers, Finset.insert_erase hall]
  rw [hall']
  exact {
    live := by
      intro b hb
      by_cases hne : b = a
      · subst hne
        exact ⟨t, store_self _ _ _⟩
      · exact (h.live b hb).imp fun u hu => (hheap b hne).trans hu
    timers_live := by
      intro b hb
      obtain ⟨hne, hb⟩ := hr.of_mem_timers hb
      obtain ⟨hin, u, hu, hu'⟩ := h.timers_live b hb
      exact ⟨hin, u, (hheap b hne).trans hu, hu'⟩
    applicants_live := by
      intro b hb
      by_cases hne : b = a
      · subst hne
        exact ⟨hall, t, store_self _ _ _, hadm⟩
      · have hb' := (Finset.mem_insert.mp hb).resolve_left hne
        rw [hr.applicants] at hb'
        obtain ⟨hin, u, hu, hu'⟩ := h.applicants_live b (Finset.mem_of_mem_erase hb')
        exact ⟨hin, u, (hheap b hne).trans hu, hu'⟩
    sorted := sorted_congr h.sorted hr.timers fun b hb => hheap b (hr.of_mem_timers hb).1
    frames_held := by
      intro g hg
      obtain ⟨hsome, hnot⟩ := h.frames_held g (hr.rest.1 ▸ hg)
      have hne : g.firing ≠ a := fun heq => hnot (heq ▸ hall)
      exact ⟨(congrArg Option.isSome (hheap _ hne)).trans hsome, hnot⟩
    frames_nodup := hr.rest.1 ▸ h.frames_nodup }

end Removal

section Steps

/-! ## Each step keeps them -/

/-- The `Timer_impl` a method of the `Timer` of the post `n` works on, where it is valid. -/
def Dispatcher.find (s : Dispatcher) (n : Nat) : Option (Nat × TimerImpl) :=
  s.handles[n]?.bind fun h =>
    if s.checkValidity h then (s.heap h.impl).map fun t => (h.impl, t) else none

theorem withValid_cases {s s' : Dispatcher} {n : Nat} {op : Nat → TimerImpl → Dispatcher}
    (hs : s.withValid n op = some s') :
    (∃ a t, s.find n = some (a, t) ∧ a ∈ s.allTimers ∧ s.heap a = some t ∧ s' = op a t) ∨
      s.find n = none ∧ s' = s := by
  unfold Dispatcher.withValid at hs
  cases hn : s.handles[n]? with
  | none => simp [hn] at hs
  | some h =>
    cases hv : s.checkValidity h with
    | false =>
      simp only [hn, hv, Option.some.injEq] at hs
      exact .inr ⟨by simp [Dispatcher.find, hn, hv], hs.symm⟩
    | true =>
      have hall : h.impl ∈ s.allTimers := by
        simp only [Dispatcher.checkValidity, Bool.and_eq_true, decide_eq_true_eq] at hv
        exact hv.1
      cases ht : s.heap h.impl with
      | none =>
        simp only [hn, hv, ht, Option.some.injEq] at hs
        exact .inr ⟨by simp [Dispatcher.find, hn, hv, ht], hs.symm⟩
      | some t =>
        simp only [hn, hv, ht, Option.some.injEq] at hs
        exact .inl ⟨h.impl, t, by simp [Dispatcher.find, hn, hv, ht], hall, ht, hs.symm⟩

theorem Containers.post {s s' : Dispatcher} {duration : Timeval} {addr : Nat} (h : Containers s)
    (hs : s.post duration addr = some s') : Containers s' := by
  unfold Dispatcher.post at hs
  split at hs
  · cases hs
  · next hfree =>
    cases hs
    have hne : ∀ b ∈ s.allTimers, b ≠ addr := by
      rintro b hb rfl
      obtain ⟨t, ht⟩ := h.live b hb
      cases hfree.symm.trans ht
    exact {
      live := by
        intro b hb
        rcases Finset.mem_insert.mp hb with rfl | hb
        · exact ⟨_, store_self _ _ _⟩
        · exact (h.live b hb).imp fun t ht => (store_other _ (hne b hb)).trans ht
      timers_live := by
        intro b hb
        obtain ⟨hin, t, ht, hadm⟩ := h.timers_live b hb
        exact ⟨Finset.mem_insert_of_mem hin, t, (store_other _ (hne b hin)).trans ht, hadm⟩
      applicants_live := by
        intro b hb
        rcases Finset.mem_insert.mp hb with rfl | hb
        · exact ⟨Finset.mem_insert_self _ _, _, store_self _ _ _, rfl⟩
        · obtain ⟨hin, t, ht, hadm⟩ := h.applicants_live b hb
          exact ⟨Finset.mem_insert_of_mem hin, t, (store_other _ (hne b hin)).trans ht, hadm⟩
      sorted := sorted_congr h.sorted (List.Sublist.refl _)
        fun b hb => store_other _ (hne b (h.timers_live b hb).1)
      frames_held := by
        intro f hf
        obtain ⟨hsome, hnotin⟩ := h.frames_held f hf
        have hfne : f.firing ≠ addr := by
          intro heq
          rw [heq, hfree] at hsome
          cases hsome
        refine ⟨(congrArg Option.isSome (store_other _ hfne)).trans hsome, fun hin => ?_⟩
        rcases Finset.mem_insert.mp hin with heq | hin
        · exact hfne heq
        · exact hnotin hin
      frames_nodup := h.frames_nodup }

/-- What admission changes in the memory of a timer. -/
theorem admitted_heap (s : Dispatcher) (order : List Nat) (b : Nat) :
    (s.admitApplicants order).heap b = (s.heap b).map fun u =>
      { u with admitted := u.admitted || decide (b ∈ s.applicants) } := by
  by_cases hb : b ∈ s.applicants
  · simp [Dispatcher.admitApplicants, hb]
  · simp [Dispatcher.admitApplicants, hb]

theorem admitted_key (s : Dispatcher) (order : List Nat) :
    key (s.admitApplicants order).heap = key s.heap := by
  funext b
  cases hb : s.heap b with
  | none => simp only [key, admitted_heap, hb, Option.map_none]
  | some u => simp only [key, admitted_heap, hb, Option.map_some, TimerImpl.key]

theorem mem_admitted_timers {s : Dispatcher} {order : List Nat} {b : Nat}
    (horder : order.toFinset = s.applicants) (hb : b ∈ (s.admitApplicants order).timers) :
    b ∈ s.applicants ∨ b ∈ s.timers := by
  refine (mem_foldl_insertTimer hb).imp_left fun hin => ?_
  rw [← horder]
  exact List.mem_toFinset.mpr hin

theorem Containers.admitApplicants {s : Dispatcher} (h : Containers s) {order : List Nat}
    (horder : order.toFinset = s.applicants) : Containers (s.admitApplicants order) where
  live := by
    intro b hb
    obtain ⟨u, hu⟩ := h.live b hb
    exact ⟨_, by rw [admitted_heap, hu]; rfl⟩
  timers_live := by
    intro b hb
    rcases mem_admitted_timers horder hb with hb | hb
    · obtain ⟨hin, u, hu, -⟩ := h.applicants_live b hb
      exact ⟨hin, _, by rw [admitted_heap, hu]; rfl, by simp [hb]⟩
    · obtain ⟨hin, u, hu, hadm⟩ := h.timers_live b hb
      exact ⟨hin, _, by rw [admitted_heap, hu]; rfl, by simp [hadm]⟩
  applicants_live := fun b hb => absurd hb (Finset.notMem_empty b)
  sorted := by
    show List.Pairwise (fun a b =>
      key (s.admitApplicants order).heap a < key (s.admitApplicants order).heap b) _
    exact foldl_insertTimer_sorted (by rw [admitted_key]; exact h.sorted)
  frames_held := by
    intro f hf
    obtain ⟨hsome, hnot⟩ := h.frames_held f hf
    exact ⟨by rw [admitted_heap, Option.isSome_map]; exact hsome, hnot⟩
  frames_nodup := h.frames_nodup

/-- A poll has begun. -/
theorem Containers.begun {s : Dispatcher} (h : Containers s) {order : List Nat} (serial polls : Nat)
    (horder : order.toFinset = s.applicants) :
    Containers { s.admitApplicants order with serial := serial, polls := polls } :=
  { h.admitApplicants horder with }

theorem Containers.poll {s s' : Dispatcher} {now : Timeval} {order : List Nat} (h : Containers s)
    (hs : s.poll now order = some s') : Containers s' := by
  unfold Dispatcher.poll at hs
  split at hs
  · next horder =>
    cases hs
    have hclock : Containers { s with clock := now } := { h with }
    exact (hclock.begun _ _ horder.2).fire _ now _
  · cases hs

/-- A callback has returned, and its timer is deleted. -/
theorem Containers.returned {s : Dispatcher} (h : Containers s) {i : Nat} {f : Frame}
    (hf : s.frames[i]? = some f) :
    Containers { s with heap := store s.heap f.firing none, frames := s.frames.eraseIdx i } := by
  obtain ⟨-, hnot⟩ := h.frames_held f (List.mem_of_getElem? hf)
  have hheap : ∀ b ∈ s.allTimers, store s.heap f.firing none b = s.heap b :=
    fun b hb => store_other _ fun heq => hnot (heq ▸ hb)
  exact {
    live := fun b hb => (h.live b hb).imp fun t ht => (hheap b hb).trans ht
    timers_live := by
      intro b hb
      obtain ⟨hin, t, ht, hadm⟩ := h.timers_live b hb
      exact ⟨hin, t, (hheap b hin).trans ht, hadm⟩
    applicants_live := by
      intro b hb
      obtain ⟨hin, t, ht, hadm⟩ := h.applicants_live b hb
      exact ⟨hin, t, (hheap b hin).trans ht, hadm⟩
    sorted := sorted_congr h.sorted (List.Sublist.refl _)
      fun b hb => hheap b (h.timers_live b hb).1
    frames_held := by
      intro g hg
      obtain ⟨hsomeg, hnotg⟩ := h.frames_held g (List.mem_of_mem_eraseIdx hg)
      refine ⟨(congrArg Option.isSome (store_other _ fun heq => ?_)).trans hsomeg, hnotg⟩
      -- no other frame runs the callback of the timer that is deleted
      obtain ⟨j, hj, hjg⟩ := List.mem_eraseIdx_iff_getElem?.mp hg
      have hlt : j < (s.frames.map (·.firing)).length := by
        rw [List.length_map]
        exact (List.getElem?_eq_some_iff.mp hjg).1
      exact hj ((List.getElem?_inj hlt h.frames_nodup).mp (by simp [hf, hjg, heq]))
    frames_nodup := h.frames_nodup.sublist ((List.eraseIdx_sublist _ _).map _) }

theorem Containers.ret {s s' : Dispatcher} {i : Nat} (h : Containers s)
    (hs : s.ret i = some s') : Containers s' := by
  unfold Dispatcher.ret at hs
  split at hs
  · cases hs
  · next f hf =>
    by_cases hserial : f.serial = s.serial
    · simp only [hserial, ne_eq, not_true_eq_false, if_false, Option.some.injEq] at hs
      subst hs
      exact (h.returned hf).fire f.poll f.now s.serial
    · simp only [ne_eq, hserial, not_false_eq_true, if_true, Option.some.injEq] at hs
      subst hs
      exact h.returned hf

theorem Containers.cancel {s s' : Dispatcher} {n : Nat} (h : Containers s)
    (hs : s.cancel n = some s') : Containers s' := by
  obtain ⟨s₁, hs₁, rfl⟩ := Option.map_eq_some_iff.mp hs
  rcases withValid_cases hs₁ with ⟨a, t, -, hall, hat, rfl⟩ | ⟨-, rfl⟩
  · exact { h.cancelled hall (h.removed hat) with }
  · exact { h with }

/-- `delay` and `reset`. -/
theorem Containers.setTimeout {s s' : Dispatcher} {n : Nat} {f : Timeval → Timeval}
    (h : Containers s)
    (hs : s.withValid n (fun a t => s.setTimeout a t (f t.time)) = some s') : Containers s' := by
  rcases withValid_cases hs with ⟨a, t, -, hall, hat, rfl⟩ | ⟨-, rfl⟩
  · exact h.moved hall (h.removed hat) rfl
  · exact h

theorem Containers.step {s s' : Dispatcher} {l : Label} (h : Containers s)
    (hs : s.step l = some s') : Containers s' := by
  cases l with
  | post duration addr => exact h.post hs
  | cancel n => exact h.cancel hs
  | delay n neg sec usec =>
    obtain ⟨s₁, hs₁, rfl⟩ := Option.map_eq_some_iff.mp hs
    exact { h.setTimeout hs₁ with }
  | reset n sec usec =>
    obtain ⟨s₁, hs₁, rfl⟩ := Option.map_eq_some_iff.mp hs
    exact { h.setTimeout (f := fun _ => s.clock.plus (timeval sec usec)) hs₁ with }
  | poll now order => exact h.poll hs
  | ret i => exact h.ret hs
  | tick now =>
    cases hs
    exact { h with }

end Steps

end Nox.Timer
