import Nox.Events.Handlers

/-!
# The queue and the polls

The events dispatched and those in the queue are the events posted, in the order in
which they were posted.  Only the last `poll` that began takes events from the queue,
and it knows how many it may take: `Batches` says so, and that every poll that began
before has nothing left to do, except for what the last one has.
-/

namespace Nox.Events

section Batches

/-! ## The invariant -/

/-- The events taken from the queue and dispatched. -/
def Dispatcher.dispatched (s : Dispatcher) : List Event :=
  s.log.filterMap (·.event)

/-- The first `d` events are dispatched, or will be: by the last poll that began, if it
is not left by an exception, or because they are among the first `owed`. -/
def Covered (s : Dispatcher) (owed d : Nat) : Prop :=
  d ≤ owed ∨ d ≤ s.dispatched.length ∨ s.cut = true ∨
    ∃ f ∈ s.frames, ∃ b, f.batch = some b ∧ b.poll = s.polls ∧ d ≤ b.due

/-- The polls in progress.  `owed` is for the middle of a step: what the loop that runs
will see to. -/
structure Batches (s : Dispatcher) (owed : Nat) : Prop where
  fifo : s.dispatched ++ s.queue = s.posted
  tickets : s.posted.map (·.ticket) = List.range s.posted.length
  names : ∀ r ∈ s.log, ∀ e, r.event = some e → e.name = r.name
  begun : ∀ f ∈ s.frames, ∀ b, f.batch = some b → b.poll ≤ s.polls ∧ b.due ≤ s.posted.length
  last : ∀ f ∈ s.frames, ∀ b, f.batch = some b → b.poll = s.polls →
    b.serial = s.serial ∧ s.dispatched.length + b.left = b.due
  earlier : ∀ f ∈ s.frames, ∀ b, f.batch = some b → b.poll ≠ s.polls → Covered s owed b.due
  polls : (s.frames.filterMap fun f => f.batch.map (·.poll)).Nodup
  returned : ∀ d ∈ s.returned, d ≤ s.posted.length ∧ Covered s owed d
  emptyPops : s.emptyPops = 0

theorem batches_init : Batches .init 0 where
  fifo := rfl
  tickets := rfl
  names := fun r hr => by cases hr
  begun := fun f hf => by cases hf
  last := fun f hf => by cases hf
  earlier := fun f hf => by cases hf
  polls := List.nodup_nil
  returned := fun d hd => by cases hd
  emptyPops := rfl

theorem map_modify {α β : Type*} {g : α → α} {p : α → β} (hg : ∀ a, p (g a) = p a) (l : List α)
    (i : Nat) : (l.modify i g).map p = l.map p := by
  induction l generalizing i with
  | nil => rw [List.modify_nil]
  | cons a l ih =>
    cases i with
    | zero => rw [List.modify_zero_cons, List.map_cons, List.map_cons, hg]
    | succ i => rw [List.modify_succ_cons, List.map_cons, List.map_cons, ih]

/-- Where the events of the records come from. -/
def Dispatcher.sources (s : Dispatcher) : List (String × Option Event) :=
  s.log.map fun r => (r.name, r.event)

theorem dispatched_eq (s : Dispatcher) : s.dispatched = s.sources.filterMap (·.2) := by
  rw [Dispatcher.dispatched, Dispatcher.sources, List.filterMap_map]
  rfl

theorem names_iff (s : Dispatcher) : (∀ r ∈ s.log, ∀ e, r.event = some e → e.name = r.name) ↔
    ∀ p ∈ s.sources, ∀ e, p.2 = some e → e.name = p.1 := by
  rw [Dispatcher.sources, List.forall_mem_map]

theorem Covered.le {s : Dispatcher} {owed d d' : Nat} (h : Covered s owed d) (hd : d' ≤ d) :
    Covered s owed d' := by
  rcases h with h | h | h | ⟨f, hf, b, hb, hpoll, h⟩
  · exact .inl (Nat.le_trans hd h)
  · exact .inr (.inl (Nat.le_trans hd h))
  · exact .inr (.inr (.inl h))
  · exact .inr (.inr (.inr ⟨f, hf, b, hb, hpoll, Nat.le_trans hd h⟩))

/-- What was covered still is, if what covered it is. -/
theorem Covered.trans {s s' : Dispatcher} {owed owed' d : Nat} (h : Covered s owed d)
    (howed : Covered s' owed' owed) (hdispatched : s.dispatched.length ≤ s'.dispatched.length)
    (hcut : s.cut = true → s'.cut = true)
    (hframes : ∀ f ∈ s.frames, ∀ b, f.batch = some b → b.poll = s.polls → Covered s' owed' b.due) :
    Covered s' owed' d := by
  rcases h with hd | hd | hd | ⟨f, hf, b, hb, hpoll, hd⟩
  · exact howed.le hd
  · exact .inr (.inl (Nat.le_trans hd hdispatched))
  · exact .inr (.inr (.inl (hcut hd)))
  · exact (hframes f hf b hb hpoll).le hd

theorem covered_of_frame {s : Dispatcher} {owed : Nat} {f : Frame} {b : Batch} (hf : f ∈ s.frames)
    (hb : f.batch = some b) (hpoll : b.poll = s.polls) : Covered s owed b.due :=
  .inr (.inr (.inr ⟨f, hf, b, hb, hpoll, Nat.le_refl _⟩))

theorem covered_zero (s : Dispatcher) (owed : Nat) : Covered s owed 0 := .inl (Nat.zero_le _)

end Batches

section Steps

/-! ## What the steps do -/

variable {s : Dispatcher} {owed : Nat}

theorem Batches.post (h : Batches s 0) (name : String) : Batches (s.post name) 0 := by
  have hcovered : ∀ d, Covered s 0 d → Covered (s.post name) 0 d := fun d hd =>
    hd.trans (covered_zero _ _) (Nat.le_refl _) id fun f hf b hb hpoll => covered_of_frame hf hb hpoll
  have hlength : (s.post name).posted.length = s.posted.length + 1 := List.length_append
  refine ⟨?_, ?_, h.names, fun f hf b hb => ?_, h.last, fun f hf b hb hpoll => ?_, h.polls,
    fun d hd => ?_, h.emptyPops⟩
  · exact (List.append_assoc ..).symm.trans (congrArg (· ++ [_]) h.fifo)
  · rw [hlength, List.range_succ, ← h.tickets]
    exact List.map_append
  · rw [hlength]
    exact ⟨(h.begun f hf b hb).1, Nat.le_succ_of_le (h.begun f hf b hb).2⟩
  · exact hcovered _ (h.earlier f hf b hb hpoll)
  · rw [hlength]
    exact ⟨Nat.le_succ_of_le (h.returned d hd).1, hcovered d (h.returned d hd).2⟩

/-- A dispatch begins, of an event of the queue or of another one.  No poll that could
have taken the event is in progress. -/
theorem Batches.begin {queue : List Event} (h : Batches s owed) {name : String}
    {event : Option Event} (hqueue : s.queue = event.toList ++ queue)
    (hname : ∀ e, event = some e → e.name = name)
    (hlast : event.isSome → ∀ f ∈ s.frames, ∀ b, f.batch = some b → b.poll ≠ s.polls) :
    Batches ({ s with queue := queue }.begin name event) owed := by
  have hdispatched : ({ s with queue := queue }.begin name event).dispatched =
      s.dispatched ++ event.toList := by
    rw [Dispatcher.dispatched, Dispatcher.begin, List.filterMap_append]
    cases event <;> rfl
  have hcovered : ∀ d, Covered s owed d →
      Covered ({ s with queue := queue }.begin name event) owed d := fun d hd => by
    refine hd.trans (.inl (Nat.le_refl _)) ?_ id fun f hf b hb hpoll => covered_of_frame hf hb hpoll
    rw [hdispatched, List.length_append]
    exact Nat.le_add_right _ _
  refine ⟨?_, h.tickets, fun r hr e he => ?_, h.begun, fun f hf b hb hpoll => ?_,
    fun f hf b hb hpoll => hcovered _ (h.earlier f hf b hb hpoll), h.polls,
    fun d hd => ⟨(h.returned d hd).1, hcovered d (h.returned d hd).2⟩, h.emptyPops⟩
  · rw [hdispatched, List.append_assoc]
    exact hqueue ▸ h.fifo
  · rcases List.mem_append.mp hr with hr | hr
    · exact h.names r hr e he
    · rw [List.mem_singleton.mp hr] at he ⊢
      exact hname e he
  · rw [hdispatched]
    cases event with
    | none =>
      rw [Option.toList_none, List.append_nil]
      exact h.last f hf b hb hpoll
    | some e => exact absurd hpoll (hlast rfl f hf b hb)

/-- A dispatch waits for a handler.  If it is in the last poll, this poll sees to what
is owed. -/
theorem Batches.call (h : Batches s owed) (i : Nat) (name : String) (g : Handler)
    {batch : Option Batch}
    (hbegun : ∀ b, batch = some b → b.poll ≤ s.polls ∧ b.due ≤ s.posted.length)
    (hlast : ∀ b, batch = some b → b.poll = s.polls →
      b.serial = s.serial ∧ s.dispatched.length + b.left = b.due)
    (hearlier : ∀ b, batch = some b → b.poll ≠ s.polls → Covered s 0 b.due)
    (hnew : ∀ b, batch = some b → ∀ f ∈ s.frames, ∀ b', f.batch = some b' → b'.poll ≠ b.poll)
    (howed : ∀ d ≤ owed, d ≠ 0 → ∃ b, batch = some b ∧ b.poll = s.polls ∧ d ≤ b.due) :
    Batches (s.call i name g batch) 0 := by
  have hsources : (s.call i name g batch).sources = s.sources := by
    apply map_modify
    exact fun r => rfl
  have hdispatched : (s.call i name g batch).dispatched = s.dispatched := by
    rw [dispatched_eq, hsources, ← dispatched_eq]
  have hmem : ∀ f, f ∈ (s.call i name g batch).frames ↔ f ∈ s.frames ∨ f = ⟨i, name, g, batch⟩ := by
    intro f
    rw [← List.mem_singleton (a := f), ← List.mem_append]
    rfl
  have hcovered : ∀ o d, o ≤ owed → Covered s o d → Covered (s.call i name g batch) 0 d := by
    intro o d ho hd
    refine hd.trans ?_ (Nat.le_of_eq (by rw [hdispatched])) id fun f hf b hb hpoll =>
      covered_of_frame ((hmem f).mpr (.inl hf)) hb hpoll
    by_cases hzero : o = 0
    · rw [hzero]
      exact covered_zero _ _
    · obtain ⟨b, hb, hpoll, hle⟩ := howed o ho hzero
      exact (covered_of_frame ((hmem _).mpr (.inr rfl)) hb hpoll).le hle
  refine ⟨hdispatched ▸ h.fifo, h.tickets, ?_, fun f hf b hb => ?_, fun f hf b hb hpoll => ?_,
    fun f hf b hb hpoll => ?_, ?_,
    fun d hd => ⟨(h.returned d hd).1, hcovered owed d (Nat.le_refl _) (h.returned d hd).2⟩,
    h.emptyPops⟩
  · rw [names_iff, hsources, ← names_iff]
    exact h.names
  · rcases (hmem f).mp hf with hf | rfl
    · exact h.begun f hf b hb
    · exact hbegun b hb
  · rw [hdispatched]
    rcases (hmem f).mp hf with hf | rfl
    · exact h.last f hf b hb hpoll
    · exact hlast b hb hpoll
  · rcases (hmem f).mp hf with hf | rfl
    · exact hcovered owed _ (Nat.le_refl _) (h.earlier f hf b hb hpoll)
    · exact hcovered 0 _ (Nat.zero_le _) (hearlier b hb hpoll)
  · show ((s.frames ++ [_]).filterMap _).Nodup
    rw [List.filterMap_append]
    cases batch with
    | none => simpa using h.polls
    | some b =>
      refine List.nodup_append.mpr ⟨h.polls, List.pairwise_singleton _ _, fun p hp q hq heq => ?_⟩
      obtain ⟨f, hf, hp⟩ := List.mem_filterMap.mp hp
      obtain ⟨b', hb', rfl⟩ := Option.map_eq_some_iff.mp hp
      refine hnew b rfl f hf b' hb' ?_
      rw [heq]
      exact List.mem_singleton.mp hq

/-- What a frame sees to. -/
def Frame.owes (f : Frame) (polls : Nat) : Nat :=
  match f.batch with
  | none => 0
  | some b => if b.poll = polls then b.due else 0

theorem resume_dispatched (s : Dispatcher) (i : Nat) (f : Frame) (result : Result) :
    (s.resume i f result).dispatched = s.dispatched := by
  rw [dispatched_eq, dispatched_eq]
  congr 1
  apply map_modify
  exact fun r => rfl

/-- The frame `i` is `f`, the others are still there. -/
theorem mem_resume {i : Nat} {f : Frame} (hf : s.frames[i]? = some f) (result : Result) :
    ∀ f' ∈ s.frames, f' = f ∨ f' ∈ (s.resume i f result).frames := by
  obtain ⟨hi, rfl⟩ := List.getElem?_eq_some_iff.mp hf
  intro f' hf'
  exact List.mem_cons.mp ((List.getElem_cons_eraseIdx_perm hi).mem_iff.mpr hf')

/-- A handler comes back. -/
theorem Batches.resume (h : Batches s 0) {i : Nat} {f : Frame} (hf : s.frames[i]? = some f)
    (result : Result) : Batches (s.resume i f result) (f.owes s.polls) := by
  have hsub : (s.resume i f result).frames.Sublist s.frames := List.eraseIdx_sublist ..
  have hdispatched := resume_dispatched s i f result
  have hcovered : ∀ d, Covered s 0 d → Covered (s.resume i f result) (f.owes s.polls) d := by
    intro d hd
    refine hd.trans (covered_zero _ _) (Nat.le_of_eq (by rw [hdispatched])) id
      fun f' hf' b hb hpoll => ?_
    rcases mem_resume hf result f' hf' with rfl | hf'
    · exact .inl (Nat.le_of_eq (by rw [Frame.owes, hb]; exact (if_pos hpoll).symm))
    · exact covered_of_frame hf' hb hpoll
  refine ⟨?_, h.tickets, ?_, fun f' hf' b hb => h.begun f' (hsub.subset hf') b hb,
    fun f' hf' b hb hpoll => ?_,
    fun f' hf' b hb hpoll => hcovered _ (h.earlier f' (hsub.subset hf') b hb hpoll),
    (hsub.filterMap _).nodup h.polls,
    fun d hd => ⟨(h.returned d hd).1, hcovered d (h.returned d hd).2⟩, h.emptyPops⟩
  · rw [hdispatched]
    exact h.fifo
  · have hsources : (s.resume i f result).sources = s.sources := by
      apply map_modify
      exact fun r => rfl
    rw [names_iff, hsources, ← names_iff]
    exact h.names
  · rw [hdispatched]
    exact h.last f' (hsub.subset hf') b hb hpoll

/-- No other frame is in the poll of a frame. -/
theorem Batches.poll_ne (h : Batches s 0) {i : Nat} {f : Frame} {b : Batch}
    (hf : s.frames[i]? = some f) (hb : f.batch = some b) :
    ∀ f' ∈ s.frames.eraseIdx i, ∀ b', f'.batch = some b' → b'.poll ≠ b.poll := by
  obtain ⟨hi, rfl⟩ := List.getElem?_eq_some_iff.mp hf
  have hperm := (List.getElem_cons_eraseIdx_perm hi).filterMap fun f => f.batch.map (·.poll)
  have hnodup := hperm.nodup_iff.mpr h.polls
  rw [List.filterMap_cons_some (by rw [hb]; rfl), List.nodup_cons] at hnodup
  intro f' hf' b' hb' heq
  refine hnodup.1 (List.mem_filterMap.mpr ⟨f', hf', ?_⟩)
  rw [hb', Option.map_some, heq]

/-- A poll returns. -/
theorem Batches.leave (h : Batches s owed) {d : Nat} (hd : d ≤ s.posted.length)
    (hcovered : Covered s 0 d) (howed : Covered s 0 owed) : Batches (s.leave d) 0 := by
  have hmono : ∀ o e, Covered s 0 o → Covered s o e → Covered (s.leave d) 0 e := by
    intro o e ho he
    exact he.trans ho (Nat.le_refl _) id fun f hf b hb hpoll => covered_of_frame hf hb hpoll
  refine ⟨h.fifo, h.tickets, h.names, h.begun, h.last,
    fun f hf b hb hpoll => hmono owed _ howed (h.earlier f hf b hb hpoll), h.polls, fun e he => ?_,
    h.emptyPops⟩
  rcases List.mem_append.mp he with he | he
  · exact ⟨(h.returned e he).1, hmono owed e howed (h.returned e he).2⟩
  · rw [List.mem_singleton.mp he]
    exact ⟨hd, hmono 0 d (covered_zero _ _) hcovered⟩

/-- The loop of the last poll dispatches what it may, and then waits for a handler or
returns; the queue lasts. -/
theorem Batches.loop {poll serial due left : Nat} (h : Batches s due) (hpoll : poll = s.polls)
    (hserial : serial = s.serial) (hdue : s.dispatched.length + left = due)
    (hle : due ≤ s.posted.length)
    (hnone : ∀ f ∈ s.frames, ∀ b, f.batch = some b → b.poll ≠ s.polls) :
    Batches (s.loop poll serial due left) 0 := by
  induction left generalizing s with
  | zero =>
    have hcovered : Covered s 0 due := .inr (.inl (Nat.le_of_eq hdue.symm))
    exact h.leave hle hcovered hcovered
  | succ left ih =>
    have hlength := congrArg List.length h.fifo
    rw [List.length_append] at hlength
    rw [Dispatcher.loop]
    split
    · next hq =>
      rw [hq, List.length_nil] at hlength
      omega
    · next e queue hq =>
      have hbegin : Batches ({ s with queue := queue }.begin e.name (some e)) due :=
        h.begin hq (fun e' he' => by cases he'; rfl) fun _ => hnone
      have hdispatched : ({ s with queue := queue }.begin e.name (some e)).dispatched.length =
          s.dispatched.length + 1 := by
        simp [Dispatcher.dispatched, Dispatcher.begin]
      dsimp only
      split
      · next g l hg =>
        apply hbegin.call
        · intro b hb
          cases hb
          exact ⟨Nat.le_of_eq hpoll, hle⟩
        · intro b hb _
          cases hb
          refine ⟨hserial, ?_⟩
          rw [hdispatched]
          show _ + left = due
          omega
        · intro b hb hne
          cases hb
          exact absurd hpoll hne
        · intro b hb f hf b' hb'
          cases hb
          exact hpoll ▸ hnone f hf b' hb'
        · exact fun d hd _ => ⟨_, rfl, hpoll, hd⟩
      · rw [if_neg (not_not_intro hserial)]
        exact ih hbegin hpoll hserial (by omega) hle hnone

theorem Batches.poll (h : Batches s 0) : Batches s.poll 0 := by
  have hlength := congrArg List.length h.fifo
  rw [List.length_append] at hlength
  have hlt : ∀ f ∈ s.frames, ∀ b, f.batch = some b → b.poll ≠ s.polls + 1 := fun f hf b hb =>
    Nat.ne_of_lt (Nat.lt_succ_of_le (h.begun f hf b hb).1)
  have hstart : Batches { s with
      serial := (s.serial + 1) % 2 ^ 32
      polls := s.polls + 1
      cut := false } s.posted.length := by
    refine ⟨h.fifo, h.tickets, h.names, fun f hf b hb => ?_, fun f hf b hb hpoll => ?_,
      fun f hf b hb _ => .inl (h.begun f hf b hb).2, h.polls,
      fun d hd => ⟨(h.returned d hd).1, .inl (h.returned d hd).1⟩, h.emptyPops⟩
    · exact ⟨Nat.le_succ_of_le (h.begun f hf b hb).1, (h.begun f hf b hb).2⟩
    · exact absurd hpoll (hlt f hf b hb)
  exact hstart.loop rfl rfl hlength (Nat.le_refl _) hlt

theorem Batches.dispatch (h : Batches s 0) (name : String) : Batches (s.dispatch name) 0 := by
  have hbegin : Batches (s.begin name none) 0 :=
    h.begin rfl (fun e he => nomatch he) fun hsome => nomatch hsome
  unfold Dispatcher.dispatch
  dsimp only
  split
  · apply hbegin.call
    · exact fun b hb => nomatch hb
    · exact fun b hb => nomatch hb
    · exact fun b hb => nomatch hb
    · exact fun b hb => nomatch hb
    · exact fun d hd hne => absurd (Nat.le_zero.mp hd) hne
  · exact hbegin

/-- The poll of a frame that began before the last one has nothing left to do. -/
theorem Batches.covered (h : Batches s 0) {i : Nat} {f : Frame} (hf : s.frames[i]? = some f)
    (result : Result) {b : Batch} (hb : f.batch = some b) (hne : b.poll ≠ s.polls) :
    Covered (s.resume i f result) 0 b.due := by
  refine (h.earlier f (List.mem_of_getElem? hf) b hb hne).trans (covered_zero _ _)
    (Nat.le_of_eq (by rw [resume_dispatched])) id fun f' hf' b' hb' hpoll' => ?_
  rcases mem_resume hf result f' hf' with rfl | hmem
  · cases hb.symm.trans hb'
    exact absurd hpoll' hne
  · exact covered_of_frame hmem hb' hpoll'

/-- An exception leaves the last poll, or another one. -/
theorem Batches.cut (h : Batches s owed) {c : Bool} (hc : s.cut = true → c = true)
    (howed : owed = 0 ∨ c = true) : Batches { s with cut := c } 0 := by
  have hcovered : ∀ d, Covered s owed d → Covered { s with cut := c } 0 d := by
    intro d hd
    refine hd.trans ?_ (Nat.le_refl _) hc fun f hf b hb hpoll => covered_of_frame hf hb hpoll
    rcases howed with rfl | hc
    · exact covered_zero _ _
    · exact .inr (.inr (.inl hc))
  exact ⟨h.fifo, h.tickets, h.names, h.begun, h.last,
    fun f hf b hb hpoll => hcovered _ (h.earlier f hf b hb hpoll), h.polls,
    fun d hd => ⟨(h.returned d hd).1, hcovered d (h.returned d hd).2⟩, h.emptyPops⟩

theorem Batches.ret (h : Batches s 0) {i : Nat} {result : Result} {s' : Dispatcher}
    (hmeets : s.Meets (.ret i result)) (hs : s.ret i result = some s') : Batches s' 0 := by
  unfold Dispatcher.ret at hs
  cases hf : s.frames[i]? with
  | none => simp [hf] at hs
  | some f =>
    have hmem := List.mem_of_getElem? hf
    have hresume := h.resume hf result
    have hne := fun b => h.poll_ne (b := b) hf
    have hcovered := fun b => h.covered (b := b) hf result
    have hdispatched := resume_dispatched s i f result
    simp only [hf] at hs
    split at hs
    · cases hs
      refine hresume.cut (fun hc => by simpa using .inl hc) ?_
      rw [Frame.owes]
      cases f.batch with
      | none => exact .inl rfl
      | some b =>
        by_cases hpoll : b.poll = s.polls
        · simp [hpoll]
        · exact .inl (if_neg hpoll)
    · next hforeign =>
      split at hs
      · cases hs
        apply hresume.call
        · exact fun b hb => h.begun f hmem b hb
        · intro b hb hpoll
          rw [hdispatched]
          exact h.last f hmem b hb hpoll
        · exact fun b hb hpoll => hcovered b hb hpoll
        · exact fun b hb => hne b hb
        · intro d hd hzero
          cases hb : f.batch with
          | none => simp [Frame.owes, hb, hzero] at hd
          | some b =>
            by_cases hpoll : b.poll = s.polls
            · exact ⟨b, rfl, hpoll, by simpa [Frame.owes, hb, hpoll] using hd⟩
            · simp [Frame.owes, hb, hpoll, hzero] at hd
      · next hnext =>
        cases hs
        cases hb : f.batch with
        | none =>
          have howes : f.owes s.polls = 0 := by rw [Frame.owes, hb]
          exact howes ▸ hresume
        | some b =>
          rw [Dispatcher.finish]
          split
          · next hserial =>
            have hpoll : b.poll ≠ s.polls := fun hpoll => hserial (h.last f hmem b hb hpoll).1
            have howes : f.owes s.polls = 0 := by
              rw [Frame.owes, hb]
              exact if_neg hpoll
            rw [howes] at hresume
            exact hresume.leave (h.begun f hmem b hb).2 (hcovered b hb hpoll) (covered_zero _ _)
          · next hserial =>
            have hserial := not_not.mp hserial
            have hpoll := hmeets i result f b rfl hf hb hforeign hnext hserial
            have howes : f.owes s.polls = b.due := by
              rw [Frame.owes, hb]
              exact if_pos hpoll
            rw [howes] at hresume
            apply hresume.loop hpoll hserial
            · rw [hdispatched]
              exact (h.last f hmem b hb hpoll).2
            · exact (h.begun f hmem b hb).2
            · intro f' hf' b' hb'
              exact fun heq => hne b hb f' hf' b' hb' (heq.trans hpoll.symm)

end Steps

end Nox.Events
