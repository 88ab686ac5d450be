import Nox.Timer.Safety

/-!
# What the dispatcher guarantees

`Dispatches` says of a state what a user of the dispatcher relies on.  It holds
after every run in which the 32-bit counters still tell apart what they are
compared for (`run_dispatches`), in particular after every run of fewer than
`2 ^ 32` steps (`admissible_of_length`).  After `2 ^ 32` posts it need not hold:
a stale handle then cancels the timer that got its address and its generation
(`wrapped_handle`).
-/

namespace Nox.Timer

open Schedule

section Guarantee

/-! ## The guarantee -/

/-- Timers run at most once, when they are due, not after they were cancelled, and
in order within a poll.  Each is due when its own handle says so, and a handle
whose timer is gone changes nothing. -/
structure Dispatches (s : Dispatcher) : Prop where
  once : (runs s.history).Nodup
  not_before : ∀ h₂ h₁ n b now time g, s.history = h₂ ++ .run n b now time g :: h₁ →
    due h₁ n = some time ∧ time < now
  cancelled : ∀ h₂ h₁ n, s.history = h₂ ++ .cancel n :: h₁ → n ∈ posted h₁ → n ∉ runs h₂
  poll_order : ∀ h₂ h₁ n m b now now' time time' g g',
    s.history = h₂ ++ .run n b now time g :: h₁ → .run m b now' time' g' ∈ h₁ →
      toLex (time', g') ≤ toLex (time, g)
  own_handle : ∀ n time, due s.history n = some time ↔
    ∃ a ∈ s.allTimers, ∃ t, s.heap a = some t ∧ t.ticket = n ∧ t.time = time
  stale_handle : ∀ l n s', l.handle? = some n → due s.history n = none → s.Meets l →
    s.step l = some s' → s'.heap = s.heap ∧ s'.timers = s.timers ∧
      s'.applicants = s.applicants ∧ s'.allTimers = s.allTimers

theorem Inv.stale_handle {s s' : Dispatcher} (h : Inv s) {l : Label} {n : Nat}
    (hl : l.handle? = some n) (hdue : Schedule.due s.history n = none) (hmeets : s.Meets l)
    (hs : s.step l = some s') :
    s'.heap = s.heap ∧ s'.timers = s.timers ∧ s'.applicants = s.applicants ∧
      s'.allTimers = s.allTimers := by
  have hsame : ∀ (op : Nat → TimerImpl → Dispatcher) (s₁ : Dispatcher),
      s.withValid n op = some s₁ → s₁ = s := by
    intro op s₁ hs₁
    unfold Dispatcher.withValid at hs₁
    cases hn : s.handles[n]? with
    | none => simp [hn] at hs₁
    | some hd =>
      rcases h.valid_iff hn (hmeets.1 n hl) with ⟨t, -, ht, hall, hticket⟩ | ⟨hv, -⟩
      · have hlive := (h.due n t.time).mpr ⟨_, hall, t, ht, hticket, rfl⟩
        rw [hdue] at hlive
        cases hlive
      · simp only [hn, hv, Option.some.injEq] at hs₁
        exact hs₁.symm
  cases l with
  | cancel m =>
    cases hl
    obtain ⟨s₁, hs₁, rfl⟩ := Option.map_eq_some_iff.mp hs
    rw [hsame _ _ hs₁]
    exact ⟨rfl, rfl, rfl, rfl⟩
  | delay m neg sec usec =>
    cases hl
    obtain ⟨s₁, hs₁, rfl⟩ := Option.map_eq_some_iff.mp hs
    rw [hsame _ _ hs₁]
    exact ⟨rfl, rfl, rfl, rfl⟩
  | reset m sec usec =>
    cases hl
    obtain ⟨s₁, hs₁, rfl⟩ := Option.map_eq_some_iff.mp hs
    rw [hsame _ _ hs₁]
    exact ⟨rfl, rfl, rfl, rfl⟩
  | post duration addr => cases hl
  | poll now order => cases hl
  | ret i => cases hl
  | tick now => cases hl

theorem Inv.dispatches {s : Dispatcher} (h : Inv s) : Dispatches s where
  once := h.lawful.once
  not_before := by
    intro h₂ h₁ n b now time g heq
    have hlawful := h.lawful
    rw [heq] at hlawful
    exact ⟨hlawful.run_due.1, hlawful.run_due.2.1⟩
  cancelled := by
    intro h₂ h₁ n heq hp
    have hlawful := h.lawful
    rw [heq] at hlawful
    exact hlawful.cancelled hp
  poll_order := by
    intro h₂ h₁ n m b now now' time time' g g' heq hm
    have hlawful := h.lawful
    rw [heq] at hlawful
    exact hlawful.batch_order hm
  own_handle := h.due
  stale_handle := fun l n s' hl hdue hmeets hs => h.stale_handle hl hdue hmeets hs

/-- Every state that a run reaches whose steps all meet the condition. -/
theorem run_dispatches {ls : List Label} {s : Dispatcher}
    (hadm : Dispatcher.init.Admissible ls) (hs : Dispatcher.init.run ls = some s) :
    Dispatches s :=
  (inv_init.run hadm hs).dispatches

end Guarantee

section Counters

/-! ## Runs too short to wrap -/

/-- The counters are what is left of the numbers of posts and polls. -/
structure Counted (s : Dispatcher) : Prop where
  generation : ∀ n h, s.handles[n]? = some h → h.generation = (n + 1) % 2 ^ 32
  next : s.nextGeneration = s.handles.length % 2 ^ 32
  serial : s.serial = s.polls % 2 ^ 32
  frames : ∀ f ∈ s.frames, f.serial = f.poll % 2 ^ 32 ∧ f.poll ≤ s.polls

theorem counted_init : Counted .init where
  generation := fun n h hn => by cases hn
  next := rfl
  serial := rfl
  frames := fun f hf => by cases hf

/-- Below `2 ^ 32` posts and polls the counters are the numbers themselves. -/
theorem Counted.meets {s : Dispatcher} (hc : Counted s) (h : Inv s)
    (hposts : s.handles.length < 2 ^ 32) (hpolls : s.polls < 2 ^ 32) (l : Label) :
    s.Meets l := by
  refine ⟨fun n _ hd t hn hv ht => ?_, fun i f _ hf hserial => ?_⟩
  · simp only [Dispatcher.checkValidity, ht, Option.map_some, Bool.and_eq_true,
      decide_eq_true_eq, beq_iff_eq, Option.some.injEq] at hv
    obtain ⟨t', ht', hhandle⟩ := h.live _ hv.1
    cases ht.symm.trans ht'
    have hgen := hc.generation _ _ hhandle
    have hgen' := hc.generation _ _ hn
    have hlt := (List.getElem?_eq_some_iff.mp hhandle).1
    have hlt' := (List.getElem?_eq_some_iff.mp hn).1
    have heq := hv.2
    simp only at hgen
    omega
  · obtain ⟨hfs, hle⟩ := hc.frames f (List.mem_of_getElem? hf)
    have hs := hc.serial
    omega

/-- What the counters of the dispatcher are. -/
def Dispatcher.counters (s : Dispatcher) : Nat × Nat × Nat × List Frame × List Handle :=
  (s.serial, s.nextGeneration, s.polls, s.frames, s.handles)

theorem Counted.congr {s s' : Dispatcher} (hc : Counted s) (heq : s'.counters = s.counters) :
    Counted s' := by
  simp only [Dispatcher.counters, Prod.mk.injEq] at heq
  obtain ⟨h1, h2, h3, h4, h5⟩ := heq
  exact ⟨h5 ▸ hc.generation, h2 ▸ h5 ▸ hc.next, h1 ▸ h3 ▸ hc.serial, h4 ▸ h3 ▸ hc.frames⟩

theorem implCancel_counters (s : Dispatcher) (a : Nat) (t : TimerImpl) :
    (s.implCancel a t).counters = s.counters := by
  unfold Dispatcher.implCancel
  split <;> rfl

theorem withValid_counters {s s' : Dispatcher} {n : Nat} {op : Nat → TimerImpl → Dispatcher}
    (hop : ∀ a t, (op a t).counters = s.counters) (hs : s.withValid n op = some s') :
    s'.counters = s.counters := by
  unfold Dispatcher.withValid at hs
  split at hs
  · cases hs
  · split at hs
    · cases hs
      exact hop _ _
    · cases hs
      rfl

theorem fire_sizes (s : Dispatcher) (poll serial : Nat) (now : Timeval) :
    (s.fire poll now serial).handles.length = s.handles.length ∧
      (s.fire poll now serial).polls = s.polls := by
  unfold Dispatcher.fire
  split
  · exact ⟨rfl, rfl⟩
  · split
    · exact ⟨rfl, rfl⟩
    · split <;> exact ⟨rfl, rfl⟩

theorem Counted.fire {s : Dispatcher} (hc : Counted s) {poll serial : Nat} (now : Timeval)
    (hserial : serial = poll % 2 ^ 32) (hle : poll ≤ s.polls) :
    Counted (s.fire poll now serial) := by
  unfold Dispatcher.fire
  split
  · exact hc
  · split
    · exact hc
    · split
      · exact hc
      · refine ⟨hc.generation, hc.next, hc.serial, fun f hf => ?_⟩
        rcases List.mem_append.mp hf with hf | hf
        · exact hc.frames f hf
        · rw [List.mem_singleton.mp hf]
          exact ⟨hserial, hle⟩

/-- A post adds a handle, with the next generation. -/
theorem Counted.post {s s' : Dispatcher} (hc : Counted s) {duration : Timeval} {addr : Nat}
    (hs : s.post duration addr = some s') :
    Counted s' ∧ s'.handles.length ≤ s.handles.length + 1 ∧ s'.polls ≤ s.polls + 1 := by
  unfold Dispatcher.post at hs
  split at hs
  · cases hs
  · cases hs
    have hnext := hc.next
    refine ⟨⟨fun n h hn => ?_, ?_, hc.serial, hc.frames⟩, by simp, Nat.le_succ _⟩
    · by_cases hlt : n < s.handles.length
      · rw [List.getElem?_append_left hlt] at hn
        exact hc.generation n h hn
      · have hmlt := (List.getElem?_eq_some_iff.mp hn).1
        rw [List.length_append, List.length_singleton] at hmlt
        have hn' : n = s.handles.length := by omega
        subst hn'
        simp only [List.getElem?_concat_length, Option.some.injEq] at hn
        subst hn
        show (s.nextGeneration + 1) % 2 ^ 32 = _
        omega
    · simp only [List.length_append, List.length_singleton]
      omega

/-- A poll has the next serial. -/
theorem Counted.poll {s s' : Dispatcher} (hc : Counted s) {now : Timeval} {order : List Nat}
    (hs : s.poll now order = some s') :
    Counted s' ∧ s'.handles.length ≤ s.handles.length + 1 ∧ s'.polls ≤ s.polls + 1 := by
  unfold Dispatcher.poll at hs
  split at hs
  · cases hs
    have hnow : Counted { Dispatcher.admitApplicants { s with clock := now } order with
        serial := (s.serial + 1) % 2 ^ 32, polls := s.polls + 1 } := by
      refine ⟨hc.generation, hc.next, ?_, fun f hf => ?_⟩
      · have hserial := hc.serial
        show (s.serial + 1) % 2 ^ 32 = (s.polls + 1) % 2 ^ 32
        omega
      · exact ⟨(hc.frames f hf).1, Nat.le_succ_of_le (hc.frames f hf).2⟩
    obtain ⟨hhandles, hpolls⟩ := fire_sizes
      { Dispatcher.admitApplicants { s with clock := now } order with
        serial := (s.serial + 1) % 2 ^ 32, polls := s.polls + 1 }
      (s.polls + 1) ((s.serial + 1) % 2 ^ 32) now
    refine ⟨hnow.fire now hnow.serial (Nat.le_refl _), ?_, Nat.le_of_eq hpolls⟩
    exact Nat.le_of_eq (hhandles.trans rfl) |>.trans (Nat.le_succ _)
  · cases hs

/-- A callback that returns goes on with the serial of its poll. -/
theorem Counted.ret {s s' : Dispatcher} (hc : Counted s) {i : Nat} (hs : s.ret i = some s') :
    Counted s' ∧ s'.handles.length ≤ s.handles.length + 1 ∧ s'.polls ≤ s.polls + 1 := by
  unfold Dispatcher.ret at hs
  split at hs
  · cases hs
  · next f hf =>
    obtain ⟨hserial, hle⟩ := hc.frames f (List.mem_of_getElem? hf)
    have hdel : Counted { s with
        heap := store s.heap f.firing none, frames := s.frames.eraseIdx i } :=
      { hc with frames := fun g hg => hc.frames g (List.mem_of_mem_eraseIdx hg) }
    dsimp only at hs
    split at hs
    · cases hs
      exact ⟨hdel, Nat.le_succ _, Nat.le_succ _⟩
    · cases hs
      obtain ⟨hhandles, hpolls⟩ := fire_sizes { s with
        heap := store s.heap f.firing none, frames := s.frames.eraseIdx i } f.poll f.serial f.now
      refine ⟨hdel.fire f.now hserial hle, ?_, ?_⟩
      · exact (Nat.le_of_eq hhandles).trans (Nat.le_succ _)
      · exact (Nat.le_of_eq hpolls).trans (Nat.le_succ _)

/-- A step counts at most one post and one poll. -/
theorem Counted.step {s s' : Dispatcher} (hc : Counted s) {l : Label} (hs : s.step l = some s') :
    Counted s' ∧ s'.handles.length ≤ s.handles.length + 1 ∧ s'.polls ≤ s.polls + 1 := by
  have hquiet : s'.counters = s.counters →
      Counted s' ∧ s'.handles.length ≤ s.handles.length + 1 ∧ s'.polls ≤ s.polls + 1 := by
    intro heq
    refine ⟨hc.congr heq, ?_⟩
    simp only [Dispatcher.counters, Prod.mk.injEq] at heq
    rw [heq.2.2.1, heq.2.2.2.2]
    omega
  have hmove : ∀ {n : Nat} {f : Timeval → Timeval} {op : Nat → TimerImpl → Timeval},
      ((s.withValid n fun a t => s.setTimeout a t (op a t)).map
        fun s => { s with history := .move n f :: s.history }) = some s' →
      s'.counters = s.counters := by
    intro n f op hs
    obtain ⟨s₁, hs₁, rfl⟩ := Option.map_eq_some_iff.mp hs
    have heq : s₁.counters = s.counters := by
      refine withValid_counters ?_ hs₁
      exact implCancel_counters s
    exact heq
  cases l with
  | post duration addr => exact hc.post hs
  | cancel n =>
    obtain ⟨s₁, hs₁, rfl⟩ := Option.map_eq_some_iff.mp hs
    have heq : s₁.counters = s.counters := by
      refine withValid_counters ?_ hs₁
      exact implCancel_counters s
    exact hquiet heq
  | delay n neg sec usec => exact hquiet (hmove hs)
  | reset n sec usec => exact hquiet (hmove hs)
  | poll now order => exact hc.poll hs
  | ret i => exact hc.ret hs
  | tick now =>
    cases hs
    exact hquiet rfl

/-- Every run of fewer than `2 ^ 32` steps meets the condition. -/
theorem Counted.admissible {ls : List Label} {s : Dispatcher} (hc : Counted s) (h : Inv s)
    (hposts : s.handles.length + ls.length < 2 ^ 32) (hpolls : s.polls + ls.length < 2 ^ 32) :
    s.Admissible ls := by
  induction ls generalizing s with
  | nil => trivial
  | cons l ls ih =>
    rw [List.length_cons] at hposts hpolls
    have hmeets := hc.meets h (by omega) (by omega) l
    refine ⟨hmeets, fun s' hs => ?_⟩
    obtain ⟨hc', hhandles, hpolls'⟩ := hc.step hs
    exact ih hc' (h.step hmeets hs) (by omega) (by omega)

theorem admissible_of_length {ls : List Label} (hls : ls.length < 2 ^ 32) :
    Dispatcher.init.Admissible ls :=
  counted_init.admissible inv_init (by simpa [Dispatcher.init] using hls)
    (by simpa [Dispatcher.init] using hls)

/-- A timer that is posted, run by a poll, and gone. -/
theorem one_timer_dispatches :
    ∃ s, Dispatcher.init.run [.post (timeval 1 0) 7, .poll (timeval 2 0) [7], .ret 0] = some s ∧
      Dispatches s := by
  have hrun : (Dispatcher.init.run
      [.post (timeval 1 0) 7, .poll (timeval 2 0) [7], .ret 0]).isSome := by
    decide +kernel
  obtain ⟨s, hs⟩ := Option.isSome_iff_exists.mp hrun
  exact ⟨s, hs, run_dispatches (admissible_of_length (by decide)) hs⟩

end Counters

section Wrapped

/-! ## A run that wraps -/

/-- Timers are posted and cancelled one after the other, at the same address. -/
def churn (k : Nat) : List Label :=
  (List.range k).flatMap fun n => [.post (timeval 1 0) 0, .cancel n]

/-- No timer is left of `k` posts. -/
structure Churned (k : Nat) (s : Dispatcher) : Prop where
  heap : ∀ a, s.heap a = none
  applicants : s.applicants = ∅
  allTimers : s.allTimers = ∅
  next : s.nextGeneration = k % 2 ^ 32
  length : s.handles.length = k
  first : 0 < k → s.handles[0]? = some ⟨0, 1⟩

theorem run_append (s : Dispatcher) (ls ls' : List Label) :
    s.run (ls ++ ls') = (s.run ls).bind fun s' => s'.run ls' :=
  List.foldlM_append

/-- After `k` posts the next one gets the address 0 again. -/
theorem Churned.post {k : Nat} {s : Dispatcher} (h : Churned k s) :
    ∃ s', s.post (timeval 1 0) 0 = some s' ∧ s'.heap 0 = some
        ⟨s.clock.plus (timeval 1 0), false, (k + 1) % 2 ^ 32, k⟩ ∧
      (∀ a, a ≠ 0 → s'.heap a = none) ∧ s'.applicants = {0} ∧ s'.allTimers = {0} ∧
      s'.nextGeneration = (k + 1) % 2 ^ 32 ∧
      s'.handles = s.handles ++ [⟨0, (k + 1) % 2 ^ 32⟩] ∧
      s'.history = .post k (s.clock.plus (timeval 1 0)) ((k + 1) % 2 ^ 32) :: s.history := by
  have hgen : (s.nextGeneration + 1) % 2 ^ 32 = (k + 1) % 2 ^ 32 := by
    rw [h.next]
    omega
  refine ⟨_, by simp only [Dispatcher.post, h.heap, hgen, h.length]; rfl, ?_, ?_, ?_, ?_, rfl, rfl,
    rfl⟩
  · simp
  · intro a ha
    exact (store_other _ ha).trans (h.heap a)
  · simp [h.applicants]
  · simp [h.allTimers]

/-- A handle with the address 0 and the generation of the only timer cancels it. -/
theorem cancel_only {s : Dispatcher} {t : TimerImpl} {n : Nat} (hheap : s.heap 0 = some t)
    (hadm : t.admitted = false) (hall : s.allTimers = {0})
    (hn : s.handles[n]? = some ⟨0, t.generation⟩) :
    s.cancel n = some { s with
      heap := store s.heap 0 none, applicants := s.applicants.erase 0, allTimers := ∅,
      history := .cancel n :: s.history } := by
  have hv : s.checkValidity ⟨0, t.generation⟩ = true := by
    simp [Dispatcher.checkValidity, hall, hheap]
  simp [Dispatcher.cancel, Dispatcher.withValid, Dispatcher.implCancel, hn, hv, hheap, hadm, hall]

theorem churned (k : Nat) : ∃ s, Dispatcher.init.run (churn k) = some s ∧ Churned k s := by
  induction k with
  | zero =>
    exact ⟨.init, rfl, ⟨fun _ => rfl, rfl, rfl, rfl, rfl, fun h => absurd h (Nat.lt_irrefl 0)⟩⟩
  | succ k ih =>
    obtain ⟨s, hs, hchurned⟩ := ih
    obtain ⟨s₁, hpost, hheap, hother, happ, hall, hnext, hhandles, -⟩ := hchurned.post
    have hhandle : s₁.handles[k]? = some ⟨0, (k + 1) % 2 ^ 32⟩ := by
      rw [hhandles, ← hchurned.length]
      exact List.getElem?_concat_length
    have hcancel := cancel_only hheap rfl hall hhandle
    obtain ⟨s₂, hs₂⟩ : ∃ s₂, s₂ = ({ s₁ with
      heap := store s₁.heap 0 none, applicants := s₁.applicants.erase 0, allTimers := ∅,
      history := .cancel k :: s₁.history } : Dispatcher) := ⟨_, rfl⟩
    rw [← hs₂] at hcancel
    refine ⟨s₂, ?_, ?_⟩
    · rw [churn, List.range_succ, List.flatMap_append, run_append, ← churn, hs]
      show (s.post (timeval 1 0) 0).bind _ = _
      rw [hpost]
      show (s₁.cancel k).bind _ = _
      rw [hcancel]
      rfl
    · subst hs₂
      refine ⟨fun a => ?_, ?_, rfl, hnext, ?_, fun _ => ?_⟩
      · by_cases ha : a = 0
        · subst ha
          simp
        · exact (store_other _ ha).trans (hother a ha)
      · simp [happ]
      · simp [hhandles, hchurned.length]
      · show s₁.handles[0]? = _
        rw [hhandles]
        by_cases hk : 0 < k
        · rw [List.getElem?_append_left (hchurned.length ▸ hk)]
          exact hchurned.first hk
        · have hk' : k = 0 := by omega
          subst hk'
          rw [List.eq_nil_of_length_eq_zero hchurned.length]
          rfl

/-- After `2 ^ 32` posts the copy of the first handle cancels the timer of the next. -/
theorem wrapped_handle :
    ∃ s, Dispatcher.init.run (churn (2 ^ 32) ++ [.post (timeval 1 0) 0, .cancel 0]) = some s ∧
      ¬ Dispatches s := by
  obtain ⟨s, hs, hchurned⟩ := churned (2 ^ 32)
  obtain ⟨s₁, hpost, hheap, -, -, hall, -, hhandles, hhistory⟩ := hchurned.post
  have hhandle : s₁.handles[0]? = some ⟨0, (2 ^ 32 + 1) % 2 ^ 32⟩ := by
    rw [hhandles, List.getElem?_append_left (hchurned.length ▸ by decide)]
    exact hchurned.first (by decide)
  have hcancel := cancel_only hheap rfl hall hhandle
  obtain ⟨s₂, hs₂⟩ : ∃ s₂, s₂ = ({ s₁ with
    heap := store s₁.heap 0 none, applicants := s₁.applicants.erase 0, allTimers := ∅,
    history := .cancel 0 :: s₁.history } : Dispatcher) := ⟨_, rfl⟩
  rw [← hs₂] at hcancel
  refine ⟨s₂, ?_, fun h => ?_⟩
  · rw [run_append, hs]
    show (s.post (timeval 1 0) 0).bind _ = _
    rw [hpost]
    show (s₁.cancel 0).bind _ = _
    rw [hcancel]
    rfl
  · have hdue : due s₂.history (2 ^ 32) = some (s.clock.plus (timeval 1 0)) := by
      rw [hs₂]
      simp [due, hhistory]
    obtain ⟨a, ha, -⟩ := (h.own_handle (2 ^ 32) _).mp hdue
    rw [hs₂] at ha
    simp at ha

end Wrapped

end Nox.Timer
