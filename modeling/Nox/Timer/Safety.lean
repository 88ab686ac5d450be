import Nox.Timer.Containers

/-!
# The dispatcher keeps the schedule

`Inv` ties the containers and the memory of the dispatcher to the history of its
run: the live timers are those that are due at some time by what was done through
their own handles, and what was run was due.  Every step that meets the
condition on the 32-bit counters keeps it.
-/

namespace Nox.Timer

open Schedule

section Due

/-! ## What is due -/

/-- What is due but for one ticket, where nothing changes but at the address of its timer. -/
theorem due_other {all all' : Finset Nat} {heap heap' : Nat → Option TimerImpl} {a k n : Nat}
    {time : Timeval} (hn : n ≠ k) (hall : ∀ b, b ≠ a → (b ∈ all' ↔ b ∈ all))
    (hheap : ∀ b, b ≠ a → heap' b = heap b)
    (hold : ∀ t, a ∈ all → heap a = some t → t.ticket = k)
    (hnew : ∀ t, a ∈ all' → heap' a = some t → t.ticket = k) :
    (∃ b ∈ all, ∃ t, heap b = some t ∧ t.ticket = n ∧ t.time = time) ↔
      ∃ b ∈ all', ∃ t, heap' b = some t ∧ t.ticket = n ∧ t.time = time := by
  constructor
  · rintro ⟨b, hb, t, ht, hticket, htime⟩
    have hne : b ≠ a := by
      rintro rfl
      exact hn (hticket.symm.trans (hold t hb ht))
    exact ⟨b, (hall b hne).mpr hb, t, (hheap b hne).trans ht, hticket, htime⟩
  · rintro ⟨b, hb, t, ht, hticket, htime⟩
    have hne : b ≠ a := by
      rintro rfl
      exact hn (hticket.symm.trans (hnew t hb ht))
    exact ⟨b, (hall b hne).mp hb, t, (hheap b hne).symm.trans ht, hticket, htime⟩

end Due

section Invariant

/-! ## The invariant -/

structure Inv (s : Dispatcher) : Prop where
  live : ∀ a ∈ s.allTimers, ∃ t, s.heap a = some t ∧
    s.handles[t.ticket]? = some ⟨a, t.generation⟩
  timers_live : ∀ a ∈ s.timers, a ∈ s.allTimers ∧ ∃ t, s.heap a = some t ∧ t.admitted = true
  applicants_live : ∀ a ∈ s.applicants,
    a ∈ s.allTimers ∧ ∃ t, s.heap a = some t ∧ t.admitted = false
  sorted : s.timers.Pairwise fun a b => key s.heap a < key s.heap b
  frames_held : ∀ f ∈ s.frames, (s.heap f.firing).isSome ∧ f.firing ∉ s.allTimers
  frames_nodup : (s.frames.map (·.firing)).Nodup
  posted : ∀ n, n ∈ Schedule.posted s.history ↔ n < s.handles.length
  generations : ∀ n h, s.handles[n]? = some h → ∃ t₀, .post n t₀ h.generation ∈ s.history
  due : ∀ n time, Schedule.due s.history n = some time ↔
    ∃ a ∈ s.allTimers, ∃ t, s.heap a = some t ∧ t.ticket = n ∧ t.time = time
  runs_poll : ∀ n b now time g, .run n b now time g ∈ s.history → b ≤ s.polls
  order : ∀ n now time g, .run n s.polls now time g ∈ s.history →
    ∀ a ∈ s.timers, toLex (time, g) < key s.heap a
  lawful : Lawful s.history

theorem inv_init : Inv .init where
  live := fun a ha => by simp [Dispatcher.init] at ha
  timers_live := fun a ha => by cases ha
  applicants_live := fun a ha => by simp [Dispatcher.init] at ha
  sorted := List.Pairwise.nil
  frames_held := fun f hf => by cases hf
  frames_nodup := List.nodup_nil
  posted := fun n => by simp [Dispatcher.init, Schedule.posted]
  generations := fun n h hn => by cases hn
  due := fun n time => by simp [Dispatcher.init, Schedule.due]
  runs_poll := fun n b now time g h => by cases h
  order := fun n now time g h => by cases h
  lawful := trivial

theorem Inv.containers {s : Dispatcher} (h : Inv s) : Containers s :=
  { h with live := fun a ha => (h.live a ha).imp fun _ ht => ht.1 }

/-- A timer is found through its ticket only. -/
theorem Inv.unique {s : Dispatcher} (h : Inv s) {a b : Nat} {t u : TimerImpl}
    (ha : a ∈ s.allTimers) (hb : b ∈ s.allTimers) (hat : s.heap a = some t)
    (hbu : s.heap b = some u) (heq : t.ticket = u.ticket) : a = b := by
  obtain ⟨t', ht', hta⟩ := h.live a ha
  obtain ⟨u', hu', hub⟩ := h.live b hb
  cases hat.symm.trans ht'
  cases hbu.symm.trans hu'
  rw [heq, hub] at hta
  exact (congrArg Handle.impl (Option.some.inj hta)).symm

/-- The loop of a poll that is the last one to have begun. -/
theorem Inv.fire {s : Dispatcher} (h : Inv s) (now : Timeval) (serial : Nat) :
    Inv (s.fire s.polls now serial) := by
  have hcont := h.containers.fire s.polls now serial
  unfold Dispatcher.fire at hcont ⊢
  split
  · exact h
  · next a timers htimers =>
    have hmem : a ∈ s.timers := by rw [htimers]; exact List.mem_cons_self
    obtain ⟨hall, t, hat, -⟩ := h.timers_live a hmem
    simp only [htimers, hat] at hcont ⊢
    split
    · exact h
    · next hnow =>
      rw [if_neg hnow] at hcont
      have hsub : ∀ b ∈ timers, b ∈ s.timers := by
        intro b hb
        rw [htimers]
        exact List.mem_cons_of_mem a hb
      have hsorted := h.sorted
      rw [htimers] at hsorted
      have hmin := (List.pairwise_cons.mp hsorted).1
      obtain ⟨t', ht', hhandle⟩ := h.live a hall
      cases hat.symm.trans ht'
      have hdue : Schedule.due s.history t.ticket = some t.time :=
        (h.due _ _).mpr ⟨a, hall, t, hat, rfl, rfl⟩
      have hticket {u : TimerImpl} (hau : s.heap a = some u) : u.ticket = t.ticket := by
        cases hat.symm.trans hau
        rfl
      exact { hcont with
        live := fun b hb => h.live b (Finset.mem_of_mem_erase hb)
        posted := h.posted
        generations := fun n hd hn =>
          (h.generations n hd hn).imp fun t₀ hp => List.mem_cons_of_mem _ hp
        due := by
          intro n time
          by_cases hn : n = t.ticket
          · subst hn
            simp only [Schedule.due, if_true]
            refine ⟨(by rintro ⟨⟩), ?_⟩
            rintro ⟨b, hb, u, hbu, hbn, -⟩
            exact absurd (h.unique (Finset.mem_of_mem_erase hb) hall hbu hat hbn)
              (Finset.ne_of_mem_erase hb)
          · simp only [Schedule.due, if_neg hn, h.due]
            exact due_other hn (fun b hb => Finset.mem_erase.trans (and_iff_right hb))
              (fun _ _ => rfl) (fun _ _ => hticket) fun _ hin => absurd hin (Finset.notMem_erase a _)
        runs_poll := by
          intro n b now' time g hrun
          rcases List.mem_cons.mp hrun with heq | hrun
          · cases heq
            exact Nat.le_refl _
          · exact h.runs_poll n b now' time g hrun
        order := by
          intro n now' time g hrun b hb
          rcases List.mem_cons.mp hrun with heq | hrun
          · cases heq
            exact (key_of_heap hat) ▸ hmin b hb
          · exact h.order n now' time g hrun b (hsub b hb)
        lawful := by
          refine ⟨hdue, lt_of_not_ge hnow, h.generations _ _ hhandle, ?_, h.lawful⟩
          intro m now' time g hrun
          exact (key_of_heap hat ▸ h.order m now' time g hrun a hmem).le }

end Invariant

section Removal

/-! ## Taking a timer out -/

/-- The memory of the timer is freed. -/
theorem Inv.cancelled {s s' : Dispatcher} (h : Inv s) {a : Nat} {t : TimerImpl}
    (hall : a ∈ s.allTimers) (hat : s.heap a = some t) (hr : Removed s s' a) :
    Inv { s' with heap := store s'.heap a none, history := .cancel t.ticket :: s'.history } := by
  obtain ⟨hframes, hhandles, hpolls, hhistory⟩ := hr.rest
  have hheap : ∀ b, b ≠ a → store s'.heap a none b = s.heap b := by
    intro b hb
    rw [store_other _ hb, hr.heap b hb]
  have hall' : ∀ b, b ∈ s'.allTimers ↔ b ≠ a ∧ b ∈ s.allTimers := by
    intro b
    rw [hr.allTimers, Finset.mem_erase]
  have hticket {u : TimerImpl} (hau : s.heap a = some u) : u.ticket = t.ticket := by
    cases hat.symm.trans hau
    rfl
  exact { h.containers.cancelled hall hr with
    live := by
      intro b hb
      obtain ⟨hne, hb⟩ := (hall' b).mp hb
      obtain ⟨u, hu, hhandle⟩ := h.live b hb
      exact ⟨u, (hheap b hne).trans hu, hhandles ▸ hhandle⟩
    posted := by
      intro n
      rw [hhandles, ← h.posted n, hhistory]
      rfl
    generations := by
      intro n hd hn
      obtain ⟨t₀, hp⟩ := h.generations n hd (hhandles ▸ hn)
      exact ⟨t₀, List.mem_cons_of_mem _ (hhistory ▸ hp)⟩
    due := by
      intro n time
      by_cases hn : n = t.ticket
      · subst hn
        simp only [Schedule.due, if_true]
        refine ⟨(by rintro ⟨⟩), ?_⟩
        rintro ⟨b, hb, u, hu, hbn, -⟩
        obtain ⟨hne, hb⟩ := (hall' b).mp hb
        exact absurd (h.unique hb hall ((hheap b hne).symm.trans hu) hat hbn) hne
      · simp only [Schedule.due, if_neg hn, hhistory, h.due]
        exact due_other hn (fun b hb => (hall' b).trans (and_iff_right hb)) hheap
          (fun _ _ => hticket) fun _ hin => absurd rfl ((hall' a).mp hin).1
    runs_poll := by
      intro n b now time g hrun
      rcases List.mem_cons.mp hrun with heq | hrun
      · cases heq
      · exact hpolls ▸ h.runs_poll n b now time g (hhistory ▸ hrun)
    order := by
      intro n now time g hrun b hb
      rcases List.mem_cons.mp hrun with heq | hrun
      · cases heq
      · obtain ⟨hne, hb⟩ := hr.of_mem_timers hb
        rw [key_congr (hheap b hne)]
        exact h.order n now time g (hhistory ▸ hpolls ▸ hrun) b hb
    lawful := hhistory ▸ h.lawful }

/-- The timer is put among the applicants with another due time. -/
theorem Inv.moved {s s' : Dispatcher} (h : Inv s) {a : Nat} {t : TimerImpl} {f : Timeval → Timeval}
    (hall : a ∈ s.allTimers) (hat : s.heap a = some t) (hr : Removed s s' a) :
    Inv { s' with
      heap := store s'.heap a (some { t with admitted := false, time := f t.time })
      applicants := insert a s'.applicants
      allTimers := insert a s'.allTimers
      history := .move t.ticket f :: s'.history } := by
  obtain ⟨hframes, hhandles, hpolls, hhistory⟩ := hr.rest
  have hheap : ∀ b, b ≠ a →
      store s'.heap a (some { t with admitted := false, time := f t.time }) b = s.heap b := by
    intro b hb
    rw [store_other _ hb, hr.heap b hb]
  have hall' : insert a s'.allTimers = s.allTimers := by
    rw [hr.allTimers, Finset.insert_erase hall]
  obtain ⟨t', ht', hhandle⟩ := h.live a hall
  cases hat.symm.trans ht'
  have hcont := h.containers.moved (t := { t with admitted := false, time := f t.time })
    hall hr rfl
  rw [hall'] at hcont ⊢
  exact { hcont with
    live := by
      intro b hb
      by_cases hne : b = a
      · subst hne
        exact ⟨_, store_self _ _ _, hhandles ▸ hhandle⟩
      · obtain ⟨u, hu, hu'⟩ := h.live b hb
        exact ⟨u, (hheap b hne).trans hu, hhandles ▸ hu'⟩
    posted := by
      intro n
      rw [hhandles, ← h.posted n, hhistory]
      rfl
    generations := by
      intro n hd hn
      obtain ⟨t₀, hp⟩ := h.generations n hd (hhandles ▸ hn)
      exact ⟨t₀, List.mem_cons_of_mem _ (hhistory ▸ hp)⟩
    due := by
      intro n time
      by_cases hn : n = t.ticket
      · subst hn
        have hold : Schedule.due s.history t.ticket = some t.time :=
          (h.due _ _).mpr ⟨a, hall, t, hat, rfl, rfl⟩
        simp only [Schedule.due, if_true, hhistory, hold, Option.map_some, Option.some.injEq]
        constructor
        · rintro rfl
          exact ⟨a, hall, _, store_self _ _ _, rfl, rfl⟩
        · rintro ⟨b, hb, u, hu, hbn, rfl⟩
          by_cases hne : b = a
          · subst hne
            rw [store_self] at hu
            exact (congrArg TimerImpl.time (Option.some.inj hu))
          · exact absurd (h.unique hb hall ((hheap b hne).symm.trans hu) hat hbn) hne
      · simp only [Schedule.due, if_neg hn, hhistory, h.due]
        refine due_other hn (fun _ _ => Iff.rfl) hheap (fun u _ hau => ?_) fun u _ hau => ?_
        · cases hat.symm.trans hau
          rfl
        · rw [store_self] at hau
          cases hau
          rfl
    runs_poll := by
      intro n b now time g hrun
      rcases List.mem_cons.mp hrun with heq | hrun
      · cases heq
      · exact hpolls ▸ h.runs_poll n b now time g (hhistory ▸ hrun)
    order := by
      intro n now time g hrun b hb
      rcases List.mem_cons.mp hrun with heq | hrun
      · cases heq
      · obtain ⟨hne, hb⟩ := hr.of_mem_timers hb
        rw [key_congr (hheap b hne)]
        exact h.order n now time g (hhistory ▸ hpolls ▸ hrun) b hb
    lawful := hhistory ▸ h.lawful }

end Removal

section Steps

/-! ## Each step keeps it -/

/-- A handle is valid for its own timer as long as that is live, and under the
condition for no other one. -/
theorem Inv.valid_iff {s : Dispatcher} (h : Inv s) {n : Nat} {hd : Handle}
    (hn : s.handles[n]? = some hd) (hdist : s.Distinct n) :
    (∃ t, s.checkValidity hd = true ∧ s.heap hd.impl = some t ∧ hd.impl ∈ s.allTimers ∧
      t.ticket = n) ∨ s.checkValidity hd = false ∧ Schedule.due s.history n = none := by
  cases hv : s.checkValidity hd with
  | true =>
    left
    have hv' := hv
    simp only [Dispatcher.checkValidity, Bool.and_eq_true, decide_eq_true_eq] at hv'
    obtain ⟨t, ht, -⟩ := h.live _ hv'.1
    exact ⟨t, rfl, ht, hv'.1, hdist hd t hn hv ht⟩
  | false =>
    right
    refine ⟨rfl, Option.eq_none_iff_forall_ne_some.mpr fun time hdue => ?_⟩
    obtain ⟨a, ha, t, hat, rfl, -⟩ := (h.due n time).mp hdue
    obtain ⟨t', ht', hhandle⟩ := h.live a ha
    cases hat.symm.trans ht'
    cases hn.symm.trans hhandle
    simp [Dispatcher.checkValidity, ha, hat] at hv

/-- Using the handle of a timer that is gone changes nothing. -/
theorem Inv.stale {s : Dispatcher} (h : Inv s) {n : Nat} {act : Act Timeval}
    (hact : act = .cancel n ∨ ∃ f, act = .move n f) (hdue : Schedule.due s.history n = none) :
    Inv { s with history := act :: s.history } := by
  have hsame : ∀ m, Schedule.due (act :: s.history) m = Schedule.due s.history m := by
    intro m
    rcases hact with rfl | ⟨f, rfl⟩
    · by_cases hm : m = n
      · subst hm
        simp [Schedule.due, hdue]
      · simp [Schedule.due, hm]
    · by_cases hm : m = n
      · subst hm
        simp [Schedule.due, hdue]
      · simp [Schedule.due, hm]
  have hrun : ∀ {m b : Nat} {now time : Timeval} {g : Nat},
      .run m b now time g ∈ act :: s.history → .run m b now time g ∈ s.history := by
    intro m b now time g hmem
    rcases List.mem_cons.mp hmem with heq | hmem
    · rcases hact with rfl | ⟨f, rfl⟩ <;> cases heq
    · exact hmem
  exact { h with
    posted := by
      intro m
      rw [← h.posted m]
      rcases hact with rfl | ⟨f, rfl⟩ <;> rfl
    generations := fun m hd hm =>
      (h.generations m hd hm).imp fun t₀ hp => List.mem_cons_of_mem _ hp
    due := fun m time => (hsame m) ▸ h.due m time
    runs_poll := fun m b now time g hmem => h.runs_poll m b now time g (hrun hmem)
    order := fun m now time g hmem => h.order m now time g (hrun hmem)
    lawful := by rcases hact with rfl | ⟨f, rfl⟩ <;> exact h.lawful }

theorem Inv.cancel {s s' : Dispatcher} {n : Nat} (h : Inv s) (hdist : s.Distinct n)
    (hs : s.cancel n = some s') : Inv s' := by
  unfold Dispatcher.cancel Dispatcher.withValid at hs
  cases hn : s.handles[n]? with
  | none => simp [hn] at hs
  | some hd =>
    rcases h.valid_iff hn hdist with ⟨t, hv, ht, hall, rfl⟩ | ⟨hv, hdue⟩
    · simp only [hn, hv, ht, Option.map_some, Option.some.injEq] at hs
      subst hs
      exact h.cancelled hall ht (h.containers.removed ht)
    · simp only [hn, hv, Option.map_some, Option.some.injEq] at hs
      subst hs
      exact h.stale (.inl rfl) hdue

/-- `delay` and `reset`. -/
theorem Inv.setTimeout {s s' : Dispatcher} {n : Nat} {f : Timeval → Timeval} (h : Inv s)
    (hdist : s.Distinct n)
    (hs : ((s.withValid n fun a t => s.setTimeout a t (f t.time)).map
      fun s => { s with history := .move n f :: s.history }) = some s') : Inv s' := by
  unfold Dispatcher.withValid at hs
  cases hn : s.handles[n]? with
  | none => simp [hn] at hs
  | some hd =>
    rcases h.valid_iff hn hdist with ⟨t, hv, ht, hall, rfl⟩ | ⟨hv, hdue⟩
    · simp only [hn, hv, ht, Option.map_some, Option.some.injEq] at hs
      subst hs
      exact h.moved hall ht (h.containers.removed ht)
    · simp only [hn, hv, Option.map_some, Option.some.injEq] at hs
      subst hs
      exact h.stale (.inr ⟨f, rfl⟩) hdue

theorem Inv.post {s s' : Dispatcher} {duration : Timeval} {addr : Nat} (h : Inv s)
    (hs : s.post duration addr = some s') : Inv s' := by
  have hcont := h.containers.post hs
  unfold Dispatcher.post at hs
  split at hs
  · cases hs
  · next hfree =>
    cases hs
    have hnot : addr ∉ s.allTimers := by
      intro hin
      obtain ⟨t, ht, -⟩ := h.live addr hin
      cases hfree.symm.trans ht
    have hne : ∀ b ∈ s.allTimers, b ≠ addr := fun b hb heq => hnot (heq ▸ hb)
    have hnew : s.handles.length ∉ Schedule.posted s.history := by
      rw [h.posted]
      exact Nat.lt_irrefl _
    have hkeep : ∀ {m : Nat} {hd x : Handle}, s.handles[m]? = some hd →
        (s.handles ++ [x])[m]? = some hd := by
      intro m hd x hm
      rw [List.getElem?_append_left (List.getElem?_eq_some_iff.mp hm).1]
      exact hm
    exact { hcont with
      live := by
        intro b hb
        rcases Finset.mem_insert.mp hb with rfl | hb
        · exact ⟨_, store_self _ _ _, by simp⟩
        · obtain ⟨t, ht, hhandle⟩ := h.live b hb
          exact ⟨t, (store_other _ (hne b hb)).trans ht, hkeep hhandle⟩
      posted := by
        intro m
        have hold := h.posted m
        simp only [Schedule.posted, List.filterMap_cons, List.mem_cons, List.length_append,
          List.length_singleton] at hold ⊢
        rw [hold]
        omega
      generations := by
        intro m hd hm
        by_cases hlt : m < s.handles.length
        · rw [List.getElem?_append_left hlt] at hm
          exact (h.generations m hd hm).imp fun t₀ hp => List.mem_cons_of_mem _ hp
        · have hmlt := (List.getElem?_eq_some_iff.mp hm).1
          rw [List.length_append, List.length_singleton] at hmlt
          have hm' : m = s.handles.length := by omega
          subst hm'
          simp only [List.getElem?_concat_length, Option.some.injEq] at hm
          subst hm
          exact ⟨_, List.mem_cons_self⟩
      due := by
        intro m time
        by_cases hm : m = s.handles.length
        · subst hm
          simp only [Schedule.due, if_true, Option.some.injEq]
          constructor
          · rintro rfl
            exact ⟨addr, Finset.mem_insert_self _ _, _, store_self _ _ _, rfl, rfl⟩
          · rintro ⟨b, hb, t, ht, hbn, rfl⟩
            rcases Finset.mem_insert.mp hb with rfl | hb
            · rw [store_self] at ht
              exact congrArg TimerImpl.time (Option.some.inj ht)
            · obtain ⟨t', ht', hhandle⟩ := h.live b hb
              rw [store_other _ (hne b hb), ht'] at ht
              cases ht
              have hlt := (List.getElem?_eq_some_iff.mp hhandle).1
              omega
        · simp only [Schedule.due, if_neg hm, h.due]
          refine due_other hm (fun b hb => Finset.mem_insert.trans (or_iff_right hb))
            (fun b hb => store_other _ hb) (fun _ hin => absurd hin hnot) fun u _ hu => ?_
          rw [store_self] at hu
          cases hu
          rfl
      runs_poll := by
        intro m b now time g hrun
        rcases List.mem_cons.mp hrun with heq | hrun
        · cases heq
        · exact h.runs_poll m b now time g hrun
      order := by
        intro m now time g hrun b hb
        rcases List.mem_cons.mp hrun with heq | hrun
        · cases heq
        · rw [key_congr (store_other _ (hne b (h.timers_live b hb).1))]
          exact h.order m now time g hrun b hb
      lawful := ⟨hnew, h.lawful⟩ }

/-- The applicants join the ordered set, and a poll begins. -/
theorem Inv.admitApplicants {s : Dispatcher} (h : Inv s) {order : List Nat} (serial : Nat)
    (horder : order.toFinset = s.applicants) :
    Inv { s.admitApplicants order with serial := serial, polls := s.polls + 1 } := by
  have hheap : ∀ {b t}, (s.admitApplicants order).heap b = some t → ∃ u, s.heap b = some u ∧
      t.ticket = u.ticket ∧ t.time = u.time := by
    intro b t ht
    rw [admitted_heap] at ht
    obtain ⟨u, hu, rfl⟩ := Option.map_eq_some_iff.mp ht
    exact ⟨u, hu, rfl, rfl⟩
  exact { h.containers.begun serial (s.polls + 1) horder with
    live := by
      intro b hb
      obtain ⟨u, hu, hhandle⟩ := h.live b hb
      exact ⟨_, (admitted_heap s order b).trans (congrArg _ hu), hhandle⟩
    posted := h.posted
    generations := h.generations
    due := by
      intro m time
      have hhistory : ({ s.admitApplicants order with
          serial := serial, polls := s.polls + 1 } : Dispatcher).history = s.history := rfl
      rw [hhistory, h.due]
      constructor
      · rintro ⟨b, hb, u, hu, hbn, hbt⟩
        exact ⟨b, hb, _, (admitted_heap s order b).trans (congrArg _ hu), hbn, hbt⟩
      · rintro ⟨b, hb, t, ht, hbn, hbt⟩
        obtain ⟨u, hu, hticket, htime⟩ := hheap ht
        exact ⟨b, hb, u, hu, hticket.symm.trans hbn, htime.symm.trans hbt⟩
    runs_poll := fun m b now time g hrun => Nat.le_succ_of_le (h.runs_poll m b now time g hrun)
    order := by
      intro m now time g hrun
      exact absurd (h.runs_poll _ _ _ _ _ hrun) (by simp)
    lawful := h.lawful }

theorem Inv.poll {s s' : Dispatcher} {now : Timeval} {order : List Nat} (h : Inv s)
    (hs : s.poll now order = some s') : Inv s' := by
  unfold Dispatcher.poll at hs
  split at hs
  · next horder =>
    cases hs
    have hclock : Inv { s with clock := now } := { h with }
    exact (hclock.admitApplicants _ horder.2).fire now _
  · cases hs

theorem Inv.ret {s s' : Dispatcher} {i : Nat} (h : Inv s)
    (hmeets : ∀ f, s.frames[i]? = some f → f.serial = s.serial → f.poll = s.polls)
    (hs : s.ret i = some s') : Inv s' := by
  unfold Dispatcher.ret at hs
  split at hs
  · cases hs
  · next f hf =>
    obtain ⟨-, hnot⟩ := h.frames_held f (List.mem_of_getElem? hf)
    have hne : ∀ b ∈ s.allTimers, b ≠ f.firing := fun b hb heq => hnot (heq ▸ hb)
    have hheap : ∀ b ∈ s.allTimers, store s.heap f.firing none b = s.heap b :=
      fun b hb => store_other _ (hne b hb)
    have hinv : Inv { s with heap := store s.heap f.firing none, frames := s.frames.eraseIdx i } :=
      { h.containers.returned hf, h with
        live := by
          intro b hb
          obtain ⟨t, ht, hhandle⟩ := h.live b hb
          exact ⟨t, (hheap b hb).trans ht, hhandle⟩
        due := by
          intro m time
          rw [h.due]
          constructor
          · rintro ⟨b, hb, t, ht, hbt⟩
            exact ⟨b, hb, t, (hheap b hb).trans ht, hbt⟩
          · rintro ⟨b, hb, t, ht, hbt⟩
            exact ⟨b, hb, t, (hheap b hb).symm.trans ht, hbt⟩
        order := fun m now time g hrun b hb => by
          rw [key_congr (hheap b (h.timers_live b hb).1)]
          exact h.order m now time g hrun b hb }
    by_cases hserial : f.serial = s.serial
    · simp only [hserial, ne_eq, not_true_eq_false, if_false, Option.some.injEq] at hs
      subst hs
      rw [hmeets f hf hserial]
      exact hinv.fire f.now s.serial
    · simp only [ne_eq, hserial, not_false_eq_true, if_true, Option.some.injEq] at hs
      subst hs
      exact hinv

theorem Inv.step {s s' : Dispatcher} {l : Label} (h : Inv s) (hmeets : s.Meets l)
    (hs : s.step l = some s') : Inv s' := by
  cases l with
  | post duration addr => exact h.post hs
  | cancel n => exact h.cancel (hmeets.1 n rfl) hs
  | delay n neg sec usec => exact h.setTimeout (hmeets.1 n rfl) hs
  | reset n sec usec =>
    exact Inv.setTimeout (f := fun _ => s.clock.plus (timeval sec usec)) h (hmeets.1 n rfl) hs
  | poll now order => exact h.poll hs
  | ret i => exact h.ret (fun f => hmeets.2 i f rfl) hs
  | tick now =>
    cases hs
    exact { h with }

theorem Inv.run {ls : List Label} {s s' : Dispatcher} (h : Inv s) (hadm : s.Admissible ls)
    (hs : s.run ls = some s') : Inv s' := by
  induction ls generalizing s with
  | nil =>
    cases hs
    exact h
  | cons l ls ih =>
    unfold Dispatcher.run at hs
    rw [List.foldlM_cons] at hs
    obtain ⟨s₁, hstep, hrest⟩ := Option.bind_eq_some_iff.mp hs
    exact ih (h.step hadm.1 hstep) (hadm.2 s₁ hstep) hrest

end Steps

end Nox.Timer
