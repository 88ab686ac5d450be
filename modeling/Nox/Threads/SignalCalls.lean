import Nox.Threads.Signals

/-!
# Calls of `try_dequeue`

What a group owes is returned when `try_dequeue` is called over and over, and nothing is owed when
a call returns 0.
-/

namespace Nox.Threads

section Calls

/-! ## Calls in turn -/

namespace SignalGroup

open Sigset

variable {cap n : Nat} {s s' s'' : SignalGroup} {l notes notes' : List SignalNote}
  {es es' : List SignalEvent}

/-- A run, and all that is told of it, the last first. -/
def run (cap : Nat) (s : SignalGroup) : List SignalEvent → Option (SignalGroup × List SignalNote)
  | [] => some (s, [])
  | e :: es =>
    match s.step cap e with
    | none => none
    | some (s, notes) => (run cap s es).map fun (s, notes') => (s, notes' ++ notes)

/-- A part of a run. -/
theorem run_append (h : s.run cap es = some (s', notes))
    (h' : s'.run cap es' = some (s'', notes')) :
    s.run cap (es ++ es') = some (s'', notes' ++ notes) := by
  induction es generalizing s notes with
  | nil =>
    cases h
    simpa using h'
  | cons e es ih =>
    simp only [run, List.cons_append] at h ⊢
    cases hs : s.step cap e with
    | none => simp [hs] at h
    | some r =>
      simp only [hs, Option.map_eq_some_iff] at h ⊢
      obtain ⟨⟨s₁, notes₁⟩, hrun, heq⟩ := h
      cases heq
      exact ⟨_, ih hrun, by simp⟩

theorem Reached.run (h : Reached cap s l) (hrun : s.run cap es = some (s', notes)) :
    Reached cap s' (notes ++ l) := by
  induction es generalizing s l notes with
  | nil =>
    cases hrun
    exact h
  | cons e es ih =>
    simp only [SignalGroup.run] at hrun
    cases hs : s.step cap e with
    | none => simp [hs] at hrun
    | some r =>
      simp only [hs, Option.map_eq_some_iff] at hrun
      obtain ⟨⟨s₁, notes₁⟩, hrun, heq⟩ := hrun
      cases heq
      rw [List.append_assoc]
      exact ih (h.step hs) hrun

/-- What runs goes on, and the main program calls `try_dequeue` over and over, while no signal is
delivered. -/
def Calling (es : List SignalEvent) : Prop :=
  ∀ e ∈ es, e = .tryDequeue ∨ e = .main ∨ e = .handler

/-- A write comes to its end. -/
inductive Writes (cap : Nat) : List Sigset → Writing → List Sigset → Prop
  | done {p w q} : writeStep cap p w = (q, none) → Writes cap p w q
  | more {p w p' w' q} : writeStep cap p w = (p', some w') → Writes cap p' w' q → Writes cap p w q

/-- A write that finds the pipe full reads from it, and finds room then. -/
theorem exists_writes (hcap : 0 < cap) {pipe : List Sigset} (hroom : pipe.length ≤ cap)
    (w : Writing) : ∃ q, Writes cap pipe w q := by
  have hwrite (p : List Sigset) (ss : Sigset) (hp : p.length < cap) :
      Writes cap p (.write ss) (p ++ [ss]) := .done (by simp [writeStep, hp])
  have hdrain (ss : Sigset) : ∃ q, Writes cap pipe (.drain ss) q := by
    cases pipe with
    | nil => exact ⟨_, .more rfl (hwrite [] ss hcap)⟩
    | cons raw pipe => exact ⟨_, .more rfl (hwrite pipe _ hroom)⟩
  cases w with
  | write ss =>
    by_cases hp : pipe.length < cap
    · exact ⟨_, hwrite pipe ss hp⟩
    · obtain ⟨q, hq⟩ := hdrain ss
      exact ⟨q, .more (by simp [writeStep, hp]) hq⟩
  | drain ss => exact hdrain ss

/-- A handler that runs comes to its end. -/
theorem run_handler {w : Writing} {pipe q : List Sigset} {handlers : List Writing}
    (hw : Writes cap pipe w q) (hpipe : s.pipe = pipe) (hhandlers : s.handlers = w :: handlers) :
    ∃ es, Calling es ∧ s.run cap es = some ({ s with pipe := q, handlers }, []) := by
  induction hw generalizing s with
  | done hstep =>
    refine ⟨[.handler], by simp [Calling], ?_⟩
    simp [run, step, hhandlers, hpipe, hstep]
  | more hstep _ ih =>
    obtain ⟨es, hes, hrun⟩ := ih (s := { s with pipe := _, handlers := _ :: handlers }) rfl rfl
    refine ⟨.handler :: es, by simpa [Calling] using hes, ?_⟩
    simp [run, step, hhandlers, hpipe, hstep, hrun]

/-- The main program comes to the end of a write. -/
theorem run_returns {w : Writing} {pipe q : List Sigset} {sig : Nat} (hw : Writes cap pipe w q)
    (hpipe : s.pipe = pipe) (hmain : s.main = .returns sig w) (hhandlers : s.handlers = []) :
    ∃ es, Calling es ∧ s.run cap es = some ({ s with pipe := q, main := .idle }, []) := by
  induction hw generalizing s with
  | done hstep =>
    refine ⟨[.main], by simp [Calling], ?_⟩
    simp [run, step, mainStep, hhandlers, hmain, hpipe, hstep]
  | more hstep _ ih =>
    obtain ⟨es, hes, hrun⟩ :=
      ih (s := { s with pipe := _, main := .returns sig _ }) rfl rfl hhandlers
    refine ⟨.main :: es, by simpa [Calling] using hes, ?_⟩
    simp only [hhandlers] at hrun
    simp [run, step, mainStep, hhandlers, hmain, hpipe, hstep, hrun]

/-- All handlers come to their end. -/
theorem Reached.run_handlers (hcap : 0 < cap) (h : Reached cap s l) :
    ∃ es q, Calling es ∧ s.run cap es = some ({ s with pipe := q, handlers := [] }, []) := by
  induction hhandlers : s.handlers generalizing s l with
  | nil => exact ⟨[], s.pipe, by simp [Calling], by rw [← hhandlers]; rfl⟩
  | cons w handlers ih =>
    obtain ⟨q, hw⟩ := exists_writes hcap h.length_pipe w
    obtain ⟨es, hes, hrun⟩ := run_handler hw rfl hhandlers
    obtain ⟨es', q', hes', hrun'⟩ := ih (h.run hrun) rfl
    exact ⟨_, q', List.forall_mem_append.mpr ⟨hes, hes'⟩, run_append hrun hrun'⟩

/-- The function that is called returns, and may return a signal. -/
theorem Reached.run_main (hcap : 0 < cap) (h : Reached cap s l) (hhandlers : s.handlers = []) :
    ∃ es s' notes, Calling es ∧ s.run cap es = some (s', notes) ∧ s'.handlers = [] ∧
      s'.main = .idle ∧ ∀ note ∈ notes, ∃ sig, note = .returned sig := by
  cases hmain : s.main with
  | idle => exact ⟨[], s, [], by simp [Calling], rfl, hhandlers, hmain, by simp⟩
  | add sig =>
    refine ⟨[.main], { s with main := .idle, signals := s.signals.add sig }, [], by simp [Calling],
      ?_, hhandlers, rfl, by simp⟩
    simp [SignalGroup.run, SignalGroup.step, mainStep, hhandlers, hmain]
  | remove sig =>
    refine ⟨[.main], { s with main := .idle, signals := s.signals.remove sig }, [],
      by simp [Calling], ?_, hhandlers, rfl, by simp⟩
    simp [SignalGroup.run, SignalGroup.step, mainStep, hhandlers, hmain]
  | dequeue =>
    cases hpipe : s.pipe with
    | nil =>
      refine ⟨[.main], { s with main := .idle }, [.returned 0], by simp [Calling], ?_, hhandlers,
        rfl, by simp⟩
      simp [SignalGroup.run, SignalGroup.step, mainStep, hhandlers, hmain, hpipe]
    | cons raw pipe =>
      obtain ⟨sig, ss, htake, -, hscan⟩ := exists_taken s.signals raw
      have hstep : s.run cap [.main] =
          some ({ s with pipe, main := .returns sig (.write ss) }, [.returned sig]) := by
        simp [SignalGroup.run, SignalGroup.step, mainStep, hhandlers, hmain, hpipe, htake, hscan]
      obtain ⟨q, hw⟩ := exists_writes hcap (h.run hstep).length_pipe (.write ss)
      obtain ⟨es, hes, hrun⟩ := run_returns hw rfl rfl hhandlers
      exact ⟨.main :: es, _, _, by simpa [Calling] using hes, run_append hstep hrun, hhandlers, rfl,
        by simp⟩
  | returns sig w =>
    obtain ⟨q, hw⟩ := exists_writes hcap h.length_pipe w
    obtain ⟨es, hes, hrun⟩ := run_returns hw rfl hmain hhandlers
    exact ⟨es, _, [], hes, hrun, hhandlers, rfl, by simp⟩

/-- A signal that is owed stays so as long as others are returned. -/
theorem owed_append (howed : Owed n l) (hnotes : ∀ note ∈ notes, ∃ sig, note = .returned sig)
    (hreturned : .returned n ∉ notes) : Owed n (notes ++ l) := by
  induction notes with
  | nil => exact howed
  | cons note notes ih =>
    rw [List.forall_mem_cons] at hnotes
    rw [List.mem_cons, not_or] at hreturned
    obtain ⟨⟨sig, rfl⟩, hnotes⟩ := hnotes
    exact ⟨fun hsig => hreturned.1 (by rw [hsig]), ih hnotes hreturned.2⟩

/-- A call takes a signal from the first set, and writes the others behind the last one. -/
theorem run_call (hhandlers : s.handlers = []) (hmain : s.main = .idle) {raw : Sigset}
    {pipe : List Sigset} (hpipe : s.pipe = raw :: pipe) (hroom : s.pipe.length ≤ cap) :
    ∃ sig ss, s.run cap [.tryDequeue, .main, .main] =
        some ({ s with pipe := pipe ++ [ss] }, [.returned sig]) ∧
      Taken s.signals (Sigset.union (fun _ => false) raw) sig ss := by
  obtain ⟨sig, ss, htake, htaken, hscan⟩ := exists_taken s.signals raw
  have hroom : pipe.length < cap := by
    rw [hpipe] at hroom
    exact hroom
  refine ⟨sig, ss, ?_, htaken⟩
  simp [run, step, mainStep, hhandlers, hmain, hpipe, htake, hscan, writeStep, hroom]

/-- A signal of the group is returned in the end: each call either takes a signal before it from
its set or turns to the next set. -/
theorem run_returned (hhandlers : s.handlers = []) (hmain : s.main = .idle) (hn : Valid n)
    (hgroup : s.signals n = true) (k i : Nat) {b : Nat} {raw : Sigset}
    (hroom : s.pipe.length ≤ cap) (hi : s.pipe[i]? = some raw) (hin : raw n = true)
    (hb : n < b + k) (hbelow : ∀ m, 0 < m → m < b → raw m = false) :
    ∃ es s' notes, Calling es ∧ s.run cap es = some (s', notes) ∧ .returned n ∈ notes := by
  have hcalling : Calling [.tryDequeue, .main, .main] := by simp [Calling]
  induction k generalizing s i b raw with
  | zero =>
    rw [hbelow n hn.1 hb] at hin
    cases hin
  | succ k ih =>
    induction i generalizing s with
    | zero =>
      obtain ⟨pipe, hpipe⟩ : ∃ pipe, s.pipe = raw :: pipe := by
        cases hpipe : s.pipe with
        | nil => simp [hpipe] at hi
        | cons raw' pipe =>
          rw [hpipe] at hi
          cases hi
          exact ⟨pipe, rfl⟩
      obtain ⟨sig, ss, hrun, htaken⟩ := run_call hhandlers hmain hpipe hroom
      have hraw (m : Nat) (hm : Valid m) : Sigset.union (fun _ => false) raw m = raw m := by
        simp [union_of_valid hm]
      rcases Nat.lt_trichotomy sig n with hlt | rfl | hgt
      · have hsig : Valid sig := ⟨htaken.pos, Nat.lt_trans hlt hn.2⟩
        have hbsig : b ≤ sig := by
          refine Nat.le_of_not_lt fun hsb => ?_
          have hset := (htaken.signal hsig.2).1
          rw [hraw sig hsig, hbelow sig hsig.1 hsb] at hset
          cases hset
        obtain ⟨es, s', notes, hes, hrun', hreturned⟩ :=
          @ih { s with pipe := pipe ++ [ss] } hhandlers hmain hgroup pipe.length (sig + 1) ss
            (by simpa [hpipe] using hroom) (by simp)
            (by rw [htaken.left n hn, hraw n hn, hin]; simpa using hlt) (by omega)
            fun m hm hlt' => by
              rw [htaken.left m ⟨hm, Nat.lt_of_le_of_lt (Nat.le_of_lt_succ hlt') hsig.2⟩]
              simp [Nat.not_lt.mpr (Nat.le_of_lt_succ hlt')]
        exact ⟨_, s', _, List.forall_mem_append.mpr ⟨hcalling, hes⟩, run_append hrun hrun',
          List.mem_append_left _ hreturned⟩
      · exact ⟨_, _, _, hcalling, hrun, List.mem_singleton.mpr rfl⟩
      · rw [htaken.dropped n hn.1 hgt (by rw [hraw n hn, hin])] at hgroup
        cases hgroup
    | succ i ihi =>
      cases hpipe : s.pipe with
      | nil => simp [hpipe] at hi
      | cons raw' pipe =>
        obtain ⟨sig, ss, hrun, -⟩ := run_call hhandlers hmain hpipe hroom
        have hi' : pipe[i]? = some raw := by simpa [hpipe] using hi
        obtain ⟨hlt, -⟩ := List.getElem?_eq_some_iff.mp hi'
        obtain ⟨es, s', notes, hes, hrun', hreturned⟩ :=
          ihi (s := { s with pipe := pipe ++ [ss] }) hhandlers hmain hgroup
            (by simpa [hpipe] using hroom) (by simpa [List.getElem?_append_left hlt] using hi')
        exact ⟨_, s', _, List.forall_mem_append.mpr ⟨hcalling, hes⟩, run_append hrun hrun',
          List.mem_append_left _ hreturned⟩

/-- A signal that is owed is returned if `try_dequeue` is called over and over. -/
theorem Reached.returned_of_owed (hcap : 0 < cap) (h : Reached cap s l) (howed : Owed n l) :
    ∃ es s' notes, Calling es ∧ s.run cap es = some (s', notes) ∧ .returned n ∈ notes := by
  obtain ⟨es₁, q, hes₁, hrun₁⟩ := h.run_handlers hcap
  have h₁ := h.run hrun₁
  obtain ⟨es₂, s₂, notes, hes₂, hrun₂, hhandlers, hmain, hnotes⟩ := h₁.run_main hcap rfl
  have h₂ := h₁.run hrun₂
  by_cases hreturned : .returned n ∈ notes
  · exact ⟨_, _, _, List.forall_mem_append.mpr ⟨hes₁, hes₂⟩, run_append hrun₁ hrun₂,
      List.mem_append_left _ hreturned⟩
  · have howed₂ : Owed n (notes ++ ([] ++ l)) := owed_append howed hnotes hreturned
    obtain ⟨hn, hin | hadd⟩ := h₂.inv.grouped n (h₂.inv.handled n howed₂)
    · have hpos := h₂.inv.owed n howed₂
      simp only [copies, hhandlers, hmain, MainPc.copies, List.countP_nil, Nat.add_zero] at hpos
      obtain ⟨raw, hraw, hset⟩ := List.countP_pos_iff.mp hpos
      obtain ⟨i, hi, rfl⟩ := List.mem_iff_getElem.mp hraw
      obtain ⟨es₃, s₃, notes₃, hes₃, hrun₃, hreturned₃⟩ := run_returned hhandlers hmain hn hin n i
        (b := 1) h₂.length_pipe (List.getElem?_eq_getElem hi) hset (by omega)
        fun m hm hm' => by omega
      exact ⟨_, s₃, _, List.forall_mem_append.mpr ⟨hes₁, List.forall_mem_append.mpr ⟨hes₂, hes₃⟩⟩,
        run_append hrun₁ (run_append hrun₂ hrun₃),
        List.mem_append_left _ (List.mem_append_left _ hreturned₃)⟩
    · rw [hmain] at hadd
      cases hadd

end SignalGroup

end Calls

section Loss

/-! ## No loss -/

namespace SignalGroup

open Sigset

variable {cap : Nat} {s s' : SignalGroup} {l notes : List SignalNote} {e : SignalEvent}

/-- A call returns 0 if it finds the pipe empty, or a signal that it takes from a set. -/
theorem returned_of_step {sig : Nat} (hs : s.step cap e = some (s', notes))
    (hreturned : .returned sig ∈ notes) :
    notes = [.returned sig] ∧ s.handlers = [] ∧ s.main = .dequeue ∧
      (s.pipe = [] ∧ sig = 0 ∨ ∃ raw pipe ss, s.pipe = raw :: pipe ∧
        Taken s.signals (Sigset.union (fun _ => false) raw) sig ss) := by
  cases e with
  | deliver | handler | removeSignal | addSignal | tryDequeue =>
    simp only [step] at hs
    repeat' split at hs
    all_goals cases hs
    all_goals simp at hreturned
  | main =>
    simp only [step] at hs
    split at hs
    · rename_i hhandlers
      cases hmain : s.main with
      | idle => simp [mainStep, hmain] at hs
      | add | remove =>
        simp only [mainStep, hmain] at hs
        cases hs
        simp at hreturned
      | dequeue =>
        cases hpipe : s.pipe with
        | nil =>
          simp only [mainStep, hmain, hpipe] at hs
          cases hs
          cases List.mem_singleton.mp hreturned
          exact ⟨rfl, hhandlers, rfl, Or.inl ⟨rfl, rfl⟩⟩
        | cons raw pipe =>
          obtain ⟨sig', ss, htake, htaken, hscan⟩ := exists_taken s.signals raw
          simp only [mainStep, hmain, hpipe, htake, if_pos hscan] at hs
          cases hs
          cases List.mem_singleton.mp hreturned
          exact ⟨rfl, hhandlers, rfl, Or.inr ⟨raw, pipe, ss, rfl, htaken⟩⟩
      | returns sig' w =>
        simp only [mainStep, hmain] at hs
        split at hs <;> cases hs <;> simp at hreturned
    · cases hs

/-- While a signal is owed no call returns 0, and calls return it if no more signals are delivered.
A call returns a signal only if it is in the group and has been delivered more often than returned
before. -/
theorem Reached.no_loss (h : Reached cap s l) :
    (∀ n, Owed n l → 0 < cap →
      ∃ es s' notes, Calling es ∧ s.run cap es = some (s', notes) ∧ .returned n ∈ notes) ∧
    ∀ e s' notes, s.step cap e = some (s', notes) →
      (.returned 0 ∈ notes → ∀ n, ¬Owed n l) ∧
      ∀ n, Valid n → .returned n ∈ notes →
        s.signals.contains n = true ∧ l.count (.returned n) < l.count (.delivered n) := by
  refine ⟨fun n howed hcap => h.returned_of_owed hcap howed,
    fun e s' notes hs => ⟨fun hreturned n howed => ?_, fun n hn hreturned => ?_⟩⟩
  · obtain ⟨-, hhandlers, hmain, ⟨hpipe, -⟩ | ⟨raw, pipe, ss, -, htaken⟩⟩ :=
      returned_of_step hs hreturned
    · have hpos := h.inv.owed n howed
      simp [copies, hhandlers, hmain, hpipe, MainPc.copies] at hpos
    · exact Nat.lt_irrefl 0 htaken.pos
  · obtain ⟨rfl, hhandlers, hmain, ⟨-, rfl⟩ | ⟨raw, pipe, ss, hpipe, htaken⟩⟩ :=
      returned_of_step hs hreturned
    · exact absurd hn.1 (Nat.lt_irrefl 0)
    · have hcount := (h.inv.step hs).counted n hn
      rw [List.singleton_append, List.count_cons_self, List.count_cons_of_ne (by simp)] at hcount
      exact ⟨by rw [contains_of_valid hn]; exact (htaken.signal hn.2).2, by omega⟩

/-- `SIGTERM` is in the group and has been delivered. -/
theorem no_loss_delivered :
    ∃ s l, Reached 512 s l ∧ Owed 15 l ∧
      ((∀ n, Owed n l → 0 < 512 →
        ∃ es s' notes, Calling es ∧ s.run 512 es = some (s', notes) ∧ .returned n ∈ notes) ∧
      ∀ e s' notes, s.step 512 e = some (s', notes) →
        (.returned 0 ∈ notes → ∀ n, ¬Owed n l) ∧
        ∀ n, Valid n → .returned n ∈ notes →
          s.signals.contains n = true ∧ l.count (.returned n) < l.count (.delivered n)) :=
  have h : Reached 512 _ [.delivered 15] :=
    Reached.run .init
      (show SignalGroup.run 512 _ [.addSignal 15 true, .main, .deliver 15] = some _ from rfl)
  ⟨_, _, h, Or.inl rfl, h.no_loss⟩

/-- A signal that has been delivered twice is returned twice, though not delivered between: each of
its sets has a place of its own in the pipe. -/
theorem returned_twice :
    (init.run 512 [.addSignal 15 true, .main, .deliver 15, .handler, .deliver 15, .handler,
      .tryDequeue, .main, .main, .tryDequeue, .main]).map Prod.snd =
      some [.returned 15, .returned 15, .delivered 15, .delivered 15] := by
  decide +kernel

end SignalGroup

end Loss

end Nox.Threads
