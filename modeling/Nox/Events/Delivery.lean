import Mathlib.Data.List.Nodup
import Nox.Events.Queue

/-!
# Delivery of events

`Delivers` is what the dispatcher promises: every posted event is dispatched once and
in order, and each dispatch calls the handlers of its name in order up to the first one
that does not return `CONTINUE`.  It holds after every run in which the 32-bit `serial`
tells a poll from the ones that began after it (`run_delivers`).  A handler that polls
`2 ^ 32` times makes the poll it was called from go on with a queue that is empty
(`wrapped_poll`).
-/

namespace Nox.Events

section Guarantee

/-! ## The guarantee -/

/-- What one dispatch has called: handlers of its name, in ascending order, those that
there were when it began from the front on, and none after one that did not return
`CONTINUE`.  One that waits for no handler either came to such a handler or to the end. -/
structure Record.Lawful (s : Dispatcher) (r : Record) : Prop where
  registered : ∀ h ∈ r.called, h ∈ s.signal r.name
  once : r.called.Nodup
  ascending : r.called.Pairwise fun x y => x.order ≤ y.order
  front : (r.called.filter fun h => h ∈ r.handlers) <+: r.handlers
  stops : ∀ x ∈ r.results.take (r.called.length - 1), x = .cont
  ended : r.called.length = r.results.length → (∃ x, r.results.getLast? = some x ∧ x ≠ .cont) ∨
    ∀ h ∈ r.handlers, h ∈ r.called

/-- Every event is dispatched at most once and in the order of the posts, and those
not dispatched are in the queue.  What was posted before a poll began is dispatched when
it returns, unless another poll that began later is not over or was left by an
exception.  No event is taken from an empty queue. -/
structure Delivers (s : Dispatcher) : Prop where
  once : s.posted.Nodup
  order : s.dispatched ++ s.queue = s.posted
  names : ∀ r ∈ s.log, ∀ e, r.event = some e → e.name = r.name
  polled : ∀ d ∈ s.returned, s.posted.take d <+: s.dispatched ∨ s.cut = true ∨
    ∃ f ∈ s.frames, ∃ b, f.batch = some b ∧ b.poll = s.polls
  handlers : ∀ r ∈ s.log, r.Lawful s
  nonempty : s.emptyPops = 0

/-- The two invariants. -/
structure Inv (s : Dispatcher) : Prop where
  calls : Calls s
  batches : Batches s 0

theorem inv_init : Inv .init := ⟨calls_init, batches_init⟩

theorem Calls.loop {s : Dispatcher} (h : Calls s) (poll serial due left : Nat) :
    Calls (s.loop poll serial due left) := by
  induction left generalizing s with
  | zero => exact h.congr rfl
  | succ left ih =>
    rw [Dispatcher.loop]
    split
    · exact h.congr rfl
    · next e queue hq =>
      have hpop : Calls { s with queue := queue } := h.congr rfl
      dsimp only
      split
      · next g l hg => exact hpop.begin_cons (some e) _ hg
      · next hnil =>
        have hbegin : Calls ({ s with queue := queue }.begin e.name (some e)) :=
          hpop.begin_nil (some e) hnil
        split
        · exact hbegin.congr rfl
        · exact ih hbegin

theorem Calls.dispatch {s : Dispatcher} (h : Calls s) (name : String) :
    Calls (s.dispatch name) := by
  unfold Dispatcher.dispatch
  dsimp only
  split
  · next g l hg => exact h.begin_cons none none hg
  · next hnil => exact h.begin_nil none hnil

theorem Calls.ret {s s' : Dispatcher} (h : Calls s) {i : Nat} {result : Result}
    (hs : s.ret i result = some s') : Calls s' := by
  unfold Dispatcher.ret at hs
  cases hf : s.frames[i]? with
  | none => simp [hf] at hs
  | some f =>
    simp only [hf] at hs
    split at hs
    · next hforeign =>
      cases hs
      have hend : Calls (s.resume i f result) := h.ret_end hf (by rw [hforeign]; rfl)
      exact hend.congr rfl
    · split at hs
      · next g hg =>
        cases hs
        exact h.ret_call hf hg
      · next hnone =>
        cases hs
        have hend : Calls (s.resume i f result) := h.ret_end hf hnone
        cases f.batch with
        | none => exact hend
        | some b =>
          rw [Dispatcher.finish]
          split
          · exact hend.congr rfl
          · exact hend.loop ..

theorem Inv.step {s s' : Dispatcher} (h : Inv s) {l : Label} (hmeets : s.Meets l)
    (hs : s.step l = some s') : Inv s' := by
  cases l with
  | addHandler name order =>
    cases hs
    exact ⟨h.calls.addHandler name order, ⟨h.batches.fifo, h.batches.tickets, h.batches.names,
      h.batches.begun, h.batches.last, h.batches.earlier, h.batches.polls, h.batches.returned,
      h.batches.emptyPops⟩⟩
  | post name =>
    cases hs
    exact ⟨h.calls.congr rfl, h.batches.post name⟩
  | dispatch name =>
    cases hs
    exact ⟨h.calls.dispatch name, h.batches.dispatch name⟩
  | poll =>
    cases hs
    have hstart : Calls { s with
        serial := (s.serial + 1) % 2 ^ 32
        polls := s.polls + 1
        cut := false } := h.calls.congr rfl
    exact ⟨hstart.loop .., h.batches.poll⟩
  | ret i result => exact ⟨h.calls.ret hs, h.batches.ret hmeets hs⟩

theorem Inv.run {s s' : Dispatcher} (h : Inv s) {ls : List Label} (hadm : s.Admissible ls)
    (hs : s.run ls = some s') : Inv s' := by
  induction ls generalizing s with
  | nil =>
    cases hs
    exact h
  | cons l ls ih =>
    rw [Dispatcher.run, List.foldlM_cons] at hs
    obtain ⟨s₁, hs₁, hs'⟩ := Option.bind_eq_some_iff.mp hs
    exact ih (h.step hadm.1 hs₁) (hadm.2 s₁ hs₁) hs'

theorem Calls.lawful {s : Dispatcher} (h : Calls s) {r : Record} (hr : r ∈ s.log) :
    r.Lawful s := by
  have hsub := h.called r hr
  obtain ⟨i, hi⟩ := List.mem_iff_getElem?.mp hr
  by_cases hmem : i ∈ s.frames.map (·.record)
  · obtain ⟨f, hf, rfl⟩ := List.mem_map.mp hmem
    obtain ⟨r', hr', hrun⟩ := h.running f hf
    cases hi.symm.trans hr'
    obtain ⟨before, rest, hwalk⟩ := hrun.walk
    refine ⟨fun g hg => hsub.subset hg, hsub.nodup (h.nodup _), (h.ordered _).sublist hsub,
      hwalk.isPrefix, fun x hx => hrun.cont x (List.mem_of_mem_take hx), fun hlength => ?_⟩
    have hwaits := hrun.waits
    omega
  · have hended := h.ended i r hi hmem
    refine ⟨fun g hg => hsub.subset hg, hsub.nodup (h.nodup _), (h.ordered _).sublist hsub,
      hended.front, fun x hx => hended.cont x ?_, fun _ => ?_⟩
    · rw [List.dropLast_eq_take, ← hended.length]
      exact hx
    · refine hended.last.imp id fun hall g hg => ?_
      rw [← hall] at hg
      exact List.mem_of_mem_filter hg

theorem Inv.delivers {s : Dispatcher} (h : Inv s) : Delivers s where
  once := by
    have hnodup := List.nodup_range (n := s.posted.length)
    rw [← h.batches.tickets] at hnodup
    exact List.Nodup.of_map _ hnodup
  order := h.batches.fifo
  names := h.batches.names
  polled := by
    intro d hd
    have hfront : d ≤ s.dispatched.length → s.posted.take d <+: s.dispatched := fun hle => by
      rw [← h.batches.fifo, List.take_append_of_le_length hle]
      exact List.take_prefix ..
    rcases (h.batches.returned d hd).2 with hd | hd | hcut | ⟨f, hf, b, hb, hpoll, -⟩
    · exact .inl (hfront (Nat.le_trans hd (Nat.zero_le _)))
    · exact .inl (hfront hd)
    · exact .inr (.inl hcut)
    · exact .inr (.inr ⟨f, hf, b, hb, hpoll⟩)
  handlers := fun r hr => h.calls.lawful hr
  nonempty := h.batches.emptyPops

/-- Every state that a run reaches whose steps all meet the condition. -/
theorem run_delivers {ls : List Label} {s : Dispatcher} (hadm : Dispatcher.init.Admissible ls)
    (hs : Dispatcher.init.run ls = some s) : Delivers s :=
  (inv_init.run hadm hs).delivers

end Guarantee

section Counter

/-! ## Runs too short to wrap -/

/-- The counter is what is left of the number of polls. -/
structure Counted (s : Dispatcher) : Prop where
  serial : s.serial = s.polls % 2 ^ 32
  frames : ∀ f ∈ s.frames, ∀ b, f.batch = some b → b.serial = b.poll % 2 ^ 32 ∧ b.poll ≤ s.polls

theorem counted_init : Counted .init where
  serial := rfl
  frames := fun f hf => by cases hf

/-- Below `2 ^ 32` polls the counter is the number itself. -/
theorem Counted.meets {s : Dispatcher} (h : Counted s) (hpolls : s.polls < 2 ^ 32) (l : Label) :
    s.Meets l := by
  intro i result f b _ hf hb _ _ hserial
  obtain ⟨hfs, hle⟩ := h.frames f (List.mem_of_getElem? hf) b hb
  have hs := h.serial
  omega

theorem Counted.call {s : Dispatcher} (h : Counted s) (i : Nat) (name : String) (g : Handler)
    {batch : Option Batch}
    (hbatch : ∀ b, batch = some b → b.serial = b.poll % 2 ^ 32 ∧ b.poll ≤ s.polls) :
    Counted (s.call i name g batch) := by
  refine ⟨h.serial, fun f hf b hb => ?_⟩
  rcases List.mem_append.mp hf with hf | hf
  · exact h.frames f hf b hb
  · rw [List.mem_singleton.mp hf] at hb
    exact hbatch b hb

theorem Counted.loop {s : Dispatcher} (h : Counted s) {poll serial : Nat} (due left : Nat)
    (hserial : serial = poll % 2 ^ 32) (hpoll : poll ≤ s.polls) :
    Counted (s.loop poll serial due left) ∧ (s.loop poll serial due left).polls = s.polls := by
  induction left generalizing s with
  | zero => exact ⟨⟨h.serial, h.frames⟩, rfl⟩
  | succ left ih =>
    rw [Dispatcher.loop]
    split
    · exact ⟨⟨h.serial, h.frames⟩, rfl⟩
    · next e queue hq =>
      have hbegin : Counted ({ s with queue := queue }.begin e.name (some e)) :=
        ⟨h.serial, h.frames⟩
      dsimp only
      split
      · refine ⟨hbegin.call _ _ _ fun b hb => ?_, rfl⟩
        cases hb
        exact ⟨hserial, hpoll⟩
      · split
        · exact ⟨⟨h.serial, h.frames⟩, rfl⟩
        · exact ih hbegin hpoll

/-- A step counts at most one poll. -/
theorem Counted.step {s s' : Dispatcher} (h : Counted s) {l : Label} (hs : s.step l = some s') :
    Counted s' ∧ s'.polls ≤ s.polls + 1 := by
  cases l with
  | addHandler name order =>
    cases hs
    exact ⟨⟨h.serial, h.frames⟩, Nat.le_succ _⟩
  | post name =>
    cases hs
    exact ⟨⟨h.serial, h.frames⟩, Nat.le_succ _⟩
  | dispatch name =>
    cases hs
    unfold Dispatcher.dispatch
    dsimp only
    have hbegin : Counted (s.begin name none) := ⟨h.serial, h.frames⟩
    split
    · exact ⟨hbegin.call _ _ _ fun b hb => (nomatch hb), Nat.le_succ _⟩
    · exact ⟨hbegin, Nat.le_succ _⟩
  | poll =>
    cases hs
    have hserial : (s.serial + 1) % 2 ^ 32 = (s.polls + 1) % 2 ^ 32 := by
      have hs := h.serial
      omega
    have hstart : Counted { s with
        serial := (s.serial + 1) % 2 ^ 32
        polls := s.polls + 1
        cut := false } :=
      ⟨hserial, fun f hf b hb => ⟨(h.frames f hf b hb).1, Nat.le_succ_of_le (h.frames f hf b hb).2⟩⟩
    obtain ⟨hloop, hpolls⟩ :=
      hstart.loop s.posted.length s.queue.length hserial (Nat.le_refl _)
    exact ⟨hloop, Nat.le_of_eq hpolls⟩
  | ret i result =>
    simp only [Dispatcher.step, Dispatcher.ret] at hs
    cases hf : s.frames[i]? with
    | none => simp [hf] at hs
    | some f =>
      have hbatch := h.frames f (List.mem_of_getElem? hf)
      have hresume : Counted (s.resume i f result) :=
        ⟨h.serial, fun f' hf' => h.frames f' ((List.eraseIdx_sublist ..).subset hf')⟩
      simp only [hf] at hs
      split at hs
      · cases hs
        exact ⟨⟨hresume.serial, hresume.frames⟩, Nat.le_succ _⟩
      · split at hs
        · cases hs
          exact ⟨hresume.call _ _ _ hbatch, Nat.le_succ _⟩
        · cases hs
          cases hb : f.batch with
          | none => exact ⟨hresume, Nat.le_succ _⟩
          | some b =>
            rw [Dispatcher.finish]
            split
            · exact ⟨⟨hresume.serial, hresume.frames⟩, Nat.le_succ _⟩
            · obtain ⟨hserial, hpoll⟩ := hbatch b hb
              obtain ⟨hloop, hpolls⟩ := hresume.loop b.due b.left hserial hpoll
              exact ⟨hloop, hpolls ▸ Nat.le_succ _⟩

theorem Counted.admissible {s : Dispatcher} (h : Counted s) {ls : List Label}
    (hpolls : s.polls + ls.length ≤ 2 ^ 32) : s.Admissible ls := by
  induction ls generalizing s with
  | nil => trivial
  | cons l ls ih =>
    rw [List.length_cons] at hpolls
    refine ⟨h.meets (by omega) l, fun s' hs => ?_⟩
    obtain ⟨h', hle⟩ := h.step hs
    exact ih h' (by omega)

/-- A run of at most `2 ^ 32` steps meets the condition. -/
theorem admissible_of_length {ls : List Label} (hls : ls.length ≤ 2 ^ 32) :
    Dispatcher.init.Admissible ls :=
  counted_init.admissible (by rw [show Dispatcher.init.polls = 0 from rfl]; omega)

/-- Two events are posted, and the handler of the first polls once more, which
dispatches the second one. -/
theorem run_delivers_reentrant :
    ∃ s, Dispatcher.init.run
      [.addHandler "a" 0, .post "a", .post "b", .poll, .poll, .ret 0 .cont] = some s ∧
      Delivers s := by
  have hadm : Dispatcher.init.Admissible
      [.addHandler "a" 0, .post "a", .post "b", .poll, .poll, .ret 0 .cont] :=
    admissible_of_length (by decide)
  exact ⟨_, rfl, run_delivers hadm rfl⟩

end Counter

section Wrap

/-! ## A handler that polls too often -/

/-- A poll of the empty queue. -/
theorem poll_empty {s : Dispatcher} (hq : s.queue = []) :
    s.poll = { s with
      serial := (s.serial + 1) % 2 ^ 32
      polls := s.polls + 1
      cut := false
      returned := s.returned ++ [s.posted.length] } := by
  rw [Dispatcher.poll, hq]
  rfl

theorem run_append (s : Dispatcher) (ls ls' : List Label) :
    s.run (ls ++ ls') = (s.run ls).bind fun s' => s'.run ls' :=
  List.foldlM_append

/-- Polls of the empty queue change nothing but the counter. -/
theorem run_polls (n : Nat) {s : Dispatcher} (hq : s.queue = []) (hserial : s.serial < 2 ^ 32) :
    ∃ s', s.run (List.replicate n .poll) = some s' ∧ s'.queue = [] ∧ s'.table = s.table ∧
      s'.frames = s.frames ∧ s'.emptyPops = s.emptyPops ∧
      s'.serial = (s.serial + n) % 2 ^ 32 := by
  induction n generalizing s with
  | zero => exact ⟨s, rfl, hq, rfl, rfl, rfl, by omega⟩
  | succ n ih =>
    obtain ⟨s₁, hs₁⟩ : ∃ s₁, s₁ = s.poll := ⟨_, rfl⟩
    have hpoll := hs₁.trans (poll_empty hq)
    obtain ⟨s', hs', hq', htable, hframes, hpops, hserial'⟩ := ih (s := s₁)
      (by rw [hpoll]; exact hq) (by rw [hpoll]; exact Nat.mod_lt _ (by decide))
    refine ⟨s', ?_, hq', ?_, ?_, ?_, ?_⟩
    · have hstep : s.step .poll = some s₁ := congrArg some hs₁.symm
      rw [List.replicate_succ, Dispatcher.run, List.foldlM_cons, hstep]
      exact hs'
    · rw [htable, hpoll]
    · rw [hframes, hpoll]
    · rw [hpops, hpoll]
    · rw [hserial', hpoll]
      show ((s.serial + 1) % 2 ^ 32 + n) % 2 ^ 32 = _
      omega

/-- The handler of the first of two events polls `2 ^ 32` times and returns. -/
def pollingHandler : List Label :=
  [.addHandler "a" 0, .post "a", .post "b", .poll, .poll] ++
    (List.replicate (2 ^ 32 - 1) .poll ++ [.ret 0 .cont])

/-- The second event is gone by then, and the poll that called the handler takes one more from the
queue. -/
theorem wrapped_poll : ∃ s, Dispatcher.init.run pollingHandler = some s ∧ ¬ Delivers s := by
  obtain ⟨s₁, hs₁⟩ : ∃ s₁, Dispatcher.init.run
      [.addHandler "a" 0, .post "a", .post "b", .poll, .poll] = some s₁ := ⟨_, rfl⟩
  have hstart : s₁.queue = [] ∧ s₁.serial = 2 ∧ s₁.emptyPops = 0 ∧ s₁.signal "a" = [⟨0, 0⟩] ∧
      s₁.frames = [⟨0, "a", ⟨0, 0⟩, some ⟨1, 1, 1, 2⟩⟩] := by
    cases hs₁
    exact ⟨rfl, rfl, rfl, rfl, rfl⟩
  obtain ⟨hqueue, hserial, hpops, hsignal, hframes⟩ := hstart
  obtain ⟨s₂, hs₂, hqueue₂, htable₂, hframes₂, hpops₂, hserial₂⟩ :=
    run_polls (2 ^ 32 - 1) hqueue (by rw [hserial]; decide)
  rw [hserial] at hserial₂
  rw [hframes] at hframes₂
  have hret : ∃ s, s₂.ret 0 .cont = some s ∧ s.emptyPops = 1 := by
    have hsignal₂ : s₂.signal "a" = [⟨0, 0⟩] := by
      rw [Dispatcher.signal, htable₂]
      exact hsignal
    have hnext : s₂.next ⟨0, "a", ⟨0, 0⟩, some ⟨1, 1, 1, 2⟩⟩ .cont = none := by
      simp only [Dispatcher.next, hsignal₂]
      rfl
    refine ⟨(s₂.resume 0 ⟨0, "a", ⟨0, 0⟩, some ⟨1, 1, 1, 2⟩⟩ .cont).finish
      (some ⟨1, 1, 1, 2⟩), ?_, ?_⟩
    · simp only [Dispatcher.ret, hframes₂, List.getElem?_cons_zero, hnext]
      rfl
    · simp only [Dispatcher.finish, Dispatcher.resume, hserial₂]
      rw [if_neg (by decide), Dispatcher.loop]
      simp only [hqueue₂, hpops₂, hpops]
  obtain ⟨s, hs, hpopped⟩ := hret
  refine ⟨s, ?_, fun h => ?_⟩
  · rw [pollingHandler, run_append, hs₁, Option.bind_some, run_append, hs₂, Option.bind_some]
    show (s₂.ret 0 .cont).bind _ = _
    rw [hs]
    rfl
  · have hnone := h.nonempty
    rw [hpopped] at hnone
    cases hnone

end Wrap

end Nox.Events
