import Nox.Threads.Completion

/-!
# Barriers

`Co_barrier`, with any number of threads.  Nobody passes before the last one has arrived, all pass
then, and the assertions fail for one thread only: for one that comes when the barrier has been
broken.
-/

namespace Nox.Threads

section Model

/-! ## Model -/

/-- `Co_barrier`, with the events of the threads. -/
structure CoBarrier (T O V : Type) where
  count : Nat
  waits : Waits T (LockQueue O) V

namespace CoBarrier

variable {T O V : Type} [DecidableEq T] [DecidableEq O] [DecidableEq V]

def init (count : Nat) (vars : V → Int) : CoBarrier T O V := ⟨count, Waits.init vars⟩

def withOp (b : CoBarrier T O V) (op : WaitOp T (LockQueue O) V) : CoBarrier T O V :=
  { b with waits := b.waits.exec op }

/-- `Co_barrier::block`, until it blocks, and whether it returns at once; `none` where the
assertion fails. -/
def block (b : CoBarrier T O V) (t : T) : Option (CoBarrier T O V × Bool) :=
  if 0 < b.count then
    let b := { b with count := b.count - 1 }
    if b.count ≠ 0 then some (b.withOp (.wait t .wq none), false)
    else some (b.withOp (.wakeAll .wq 1), true)
  else none

/-- The end of a `block` that has blocked: what its events were is forgotten. -/
def unblock (b : CoBarrier T O V) (t : T) : Option (CoBarrier T O V) :=
  if b.count = 0 then some (b.withOp (.cancel t)) else none

end CoBarrier

end Model

section Runs

/-! ## Runs -/

/-- What a thread does: `returns` is the end of a `block` that has blocked, and `other` what it
does with other queues. -/
inductive BarrierOp (T O V : Type)
  | block (t : T)
  | returns (t : T)
  | other (op : WaitOp T (LockQueue O) V)

/-- The barrier, the threads that have come to it, one after the other, and those that have passed
it; and which threads are in a `block`. -/
structure BarrierRun (T O V : Type) where
  barrier : CoBarrier T O V
  arrived : List T
  passed : List T
  call : T → Option Unit

namespace BarrierRun

variable {T O V : Type} [DecidableEq T] [DecidableEq O] [DecidableEq V]

def init (count : Nat) (vars : V → Int) : BarrierRun T O V :=
  ⟨CoBarrier.init count vars, [], [], fun _ => none⟩

/-- What the callers keep to. -/
def Valid (r : BarrierRun T O V) : BarrierOp T O V → Prop
  | .block t => r.call t = none ∧ r.barrier.waits.events t = []
  | .returns t => r.call t ≠ none ∧ ∃ e ∈ r.barrier.waits.events t, e.wq = none
  | .other op => op.Foreign [.wq] (r.call · = none)

/-- `none` where an assertion fails. -/
def exec (r : BarrierRun T O V) : BarrierOp T O V → Option (BarrierRun T O V)
  | .block t => (r.barrier.block t).map fun (barrier, returned) =>
    let r := { r with barrier, arrived := r.arrived ++ [t] }
    if returned then { r with passed := r.passed ++ [t] }
    else { r with call := Function.update r.call t (some ()) }
  | .returns t => (r.barrier.unblock t).map fun barrier => { r with
      barrier
      passed := r.passed ++ [t]
      call := Function.update r.call t none }
  | .other op => some { r with barrier := r.barrier.withOp op }

inductive Reached (count : Nat) (vars : V → Int) : BarrierRun T O V → Prop
  | init : Reached count vars (init count vars)
  | step {r r' o} : Reached count vars r → r.Valid o → r.exec o = some r' → Reached count vars r'

end BarrierRun

end Runs

section Passing

/-! ## Who passes -/

namespace BarrierRun

variable {T O V : Type} [DecidableEq T]

/-- What holds between the calls. -/
structure Good (count : Nat) (r : BarrierRun T O V) : Prop where
  sound : r.barrier.waits.Sound
  counted : r.barrier.count + r.arrived.length = count
  calls : r.barrier.waits.Blocked (fun _ => .wq) r.call fun _ _ => r.barrier.count = 0
  broken : r.barrier.count = 0 → r.barrier.waits.queue .wq = []
  unbroken : r.barrier.count ≠ 0 → r.passed = []
  accounted : ∀ t, r.arrived.count t = r.passed.count t + if r.call t = none then 0 else 1

theorem good_init (count : Nat) (vars : V → Int) :
    (init count vars : BarrierRun T O V).Good count where
  sound := Waits.sound_init vars
  counted := rfl
  calls := Waits.blocked_start
  broken := fun _ => rfl
  unbroken := fun _ => rfl
  accounted := fun _ => rfl

theorem count_other {t u : T} (hu : u ≠ t) : [t].count u = 0 := by
  rw [List.count_singleton, if_neg]
  rwa [beq_iff_eq, eq_comm]

variable [DecidableEq O] [DecidableEq V] {count : Nat} {r r' : BarrierRun T O V} {t : T}

theorem Good.foreign (h : r.Good count) {op : WaitOp T (LockQueue O) V}
    (hop : op.Foreign [.wq] (r.call · = none)) :
    { r with barrier := r.barrier.withOp op }.Good count where
  sound := h.sound.exec op
  counted := h.counted
  calls := h.calls.foreign h.sound hop fun _ => List.mem_cons_self
  broken hzero := h.sound.queue_exec_nil hop List.mem_cons_self (h.broken hzero)
  unbroken := h.unbroken
  accounted := h.accounted

/-- One more has come, and waits. -/
theorem Good.sleep (h : r.Good count) (hnone : r.call t = none)
    (hevents : r.barrier.waits.events t = []) (hcount : r.barrier.count - 1 ≠ 0) :
    { r with
      barrier := { r.barrier with count := r.barrier.count - 1 }.withOp (.wait t .wq none)
      arrived := r.arrived ++ [t]
      call := Function.update r.call t (some ()) }.Good count where
  sound := h.sound.exec (.wait t .wq none)
  counted := by
    have hcounted := h.counted
    change r.barrier.count - 1 + (r.arrived ++ [t]).length = count
    rw [List.length_append, List.length_singleton]
    omega
  calls := by
    have hcalls := (h.calls.mono (R := fun _ _ => r.barrier.count - 1 = 0) ?_).wait hnone .wq none
    · exact hcalls.enter (Waits.only_wait hevents none)
    · intro _ _ _ hzero
      rw [hzero]
  broken hzero := absurd hzero hcount
  unbroken _ := h.unbroken fun hzero => hcount (by rw [hzero])
  accounted u := by
    have haccounted := h.accounted u
    change (r.arrived ++ [t]).count u = r.passed.count u +
      if Function.update r.call t (some ()) u = none then 0 else 1
    rw [List.count_append, haccounted]
    by_cases hu : u = t
    · subst hu
      rw [Function.update_self, hnone, if_pos rfl, if_neg (Option.some_ne_none ()),
        List.count_singleton_self]
    · rw [Function.update_of_ne hu, count_other hu, Nat.add_zero]

/-- The last one has come, and all are woken. -/
theorem Good.break (h : r.Good count) (hcount : r.barrier.count = 1) :
    { r with
      barrier := { r.barrier with count := r.barrier.count - 1 }.withOp (.wakeAll .wq 1)
      arrived := r.arrived ++ [t]
      passed := r.passed ++ [t] }.Good count where
  sound := h.sound.exec (.wakeAll .wq 1)
  counted := by
    have hcounted := h.counted
    change r.barrier.count - 1 + (r.arrived ++ [t]).length = count
    rw [List.length_append, List.length_singleton]
    omega
  calls := h.calls.wakeFirst h.sound 1 _ fun _ _ _ _ => by
    change r.barrier.count - 1 = 0
    rw [hcount]
  broken _ := by
    change (r.barrier.waits.exec (.wakeAll .wq 1)).queue .wq = []
    rw [Waits.queue_wakeAll, Function.update_self]
  unbroken hne := absurd (show r.barrier.count - 1 = 0 by rw [hcount]) hne
  accounted u := by
    have haccounted := h.accounted u
    change (r.arrived ++ [t]).count u = (r.passed ++ [t]).count u + if r.call u = none then 0 else 1
    rw [List.count_append, List.count_append, haccounted]
    omega

theorem Good.returns (h : r.Good count) (hcall : r.call t ≠ none) (hzero : r.barrier.count = 0) :
    { r with
      barrier := r.barrier.withOp (.cancel t)
      passed := r.passed ++ [t]
      call := Function.update r.call t none }.Good count where
  sound := h.sound.exec (.cancel t)
  counted := h.counted
  calls := h.calls.leave t
  broken _ := by
    refine List.eq_nil_iff_forall_not_mem.mpr fun x hx => ?_
    have hx' : x ∈ r.barrier.waits.queue .wq := List.mem_of_mem_filter hx
    rw [h.broken hzero] at hx'
    exact List.not_mem_nil hx'
  unbroken hne := absurd hzero hne
  accounted u := by
    have haccounted := h.accounted u
    change r.arrived.count u = (r.passed ++ [t]).count u +
      if Function.update r.call t none u = none then 0 else 1
    rw [List.count_append, haccounted]
    by_cases hu : u = t
    · subst hu
      rw [Function.update_self, if_neg hcall, if_pos rfl, List.count_singleton_self]
    · rw [Function.update_of_ne hu, count_other hu, Nat.add_zero]

omit [DecidableEq O] [DecidableEq V] in
/-- A thread that has been woken is so because the barrier is broken. -/
theorem Good.zero_of_returns (h : r.Good count) (hvalid : r.Valid (.returns t)) :
    r.barrier.count = 0 := by
  obtain ⟨hcall, hwoken⟩ := hvalid
  obtain ⟨k, hk⟩ := Option.ne_none_iff_exists'.mp hcall
  exact (h.calls t k hk).woken hwoken

theorem Good.exec (h : r.Good count) {o : BarrierOp T O V} (hvalid : r.Valid o)
    (hexec : r.exec o = some r') : r'.Good count := by
  cases o with
  | block t =>
    unfold BarrierRun.exec CoBarrier.block at hexec
    dsimp only at hexec
    by_cases hpos : 0 < r.barrier.count
    · rw [if_pos hpos] at hexec
      by_cases hcount : r.barrier.count - 1 ≠ 0
      · rw [if_pos hcount] at hexec
        cases hexec
        exact h.sleep hvalid.1 hvalid.2 hcount
      · rw [if_neg hcount] at hexec
        cases hexec
        exact h.break (by omega)
    · rw [if_neg hpos] at hexec
      cases hexec
  | returns t =>
    have hzero := h.zero_of_returns hvalid
    unfold BarrierRun.exec CoBarrier.unblock at hexec
    dsimp only at hexec
    rw [if_pos hzero] at hexec
    cases hexec
    exact h.returns hvalid.1 hzero
  | other op =>
    cases hexec
    exact h.foreign hvalid

theorem Reached.good {vars : V → Int} (h : Reached count vars r) : r.Good count := by
  induction h with
  | init => exact good_init count vars
  | step _ hvalid hexec ih => exact ih.exec hvalid hexec

/-- A barrier for so many threads. -/
structure Meets (count : Nat) (r : BarrierRun T O V) : Prop where
  /-- Who has passed has come before, and is in no call. -/
  accounted : ∀ t, r.arrived.count t = r.passed.count t + if r.call t = none then 0 else 1
  /-- Before the last one comes nobody has passed, and nobody in a `block` can return. -/
  closed : r.arrived.length < count →
    r.passed = [] ∧ ∀ t, r.call t ≠ none → ¬r.Valid (.returns t)
  /-- When it has come all can return, and none is left on the queue. -/
  opened : r.arrived.length = count →
    r.barrier.waits.queue .wq = [] ∧ ∀ t, r.call t ≠ none → r.Valid (.returns t)
  /-- No more come. -/
  bounded : r.arrived.length ≤ count
  /-- An assertion fails for one that comes when the barrier is broken, and for no other. -/
  aborts : ∀ o, r.Valid o → (r.exec o = none ↔ (∃ t, o = .block t) ∧ r.arrived.length = count)

theorem Good.aborts_iff (h : r.Good count) {o : BarrierOp T O V} (hvalid : r.Valid o) :
    r.exec o = none ↔ (∃ t, o = .block t) ∧ r.arrived.length = count := by
  have hcounted := h.counted
  cases o with
  | block t =>
    unfold BarrierRun.exec CoBarrier.block
    dsimp only
    by_cases hpos : 0 < r.barrier.count
    · rw [if_pos hpos]
      refine iff_of_false ?_ fun hfull => ?_
      · split <;> exact Option.some_ne_none _
      · omega
    · rw [if_neg hpos]
      exact iff_of_true rfl ⟨⟨t, rfl⟩, by omega⟩
  | returns t =>
    have hzero := h.zero_of_returns hvalid
    unfold BarrierRun.exec CoBarrier.unblock
    dsimp only
    rw [if_pos hzero]
    refine iff_of_false (Option.some_ne_none _) ?_
    rintro ⟨⟨t, ht⟩, -⟩
    cases ht
  | other op =>
    refine iff_of_false (Option.some_ne_none _) ?_
    rintro ⟨⟨t, ht⟩, -⟩
    cases ht

/-- In every run. -/
theorem Reached.meets_at_barrier {vars : V → Int} (h : Reached count vars r) : r.Meets count where
  accounted := h.good.accounted
  closed hlt := by
    have hcounted := h.good.counted
    refine ⟨h.good.unbroken (by omega), fun t _ hvalid => ?_⟩
    have hzero := h.good.zero_of_returns hvalid
    omega
  opened hfull := by
    have hcounted := h.good.counted
    have hqueue := h.good.broken (by omega)
    refine ⟨hqueue, fun t ht => ⟨ht, ?_⟩⟩
    obtain ⟨k, hk⟩ := Option.ne_none_iff_exists'.mp ht
    refine (h.good.calls t k hk).awake h.good.sound fun x hx => ?_
    rw [hqueue] at hx
    exact absurd hx List.not_mem_nil
  bounded := by
    have hcounted := h.good.counted
    omega
  aborts _ hvalid := h.good.aborts_iff hvalid

/-- Two threads meet. -/
theorem meets_two : ∃ r : BarrierRun Nat Unit Unit, r.Meets 2 ∧ r.arrived = [1, 2] := by
  have hfirst := (@Reached.init Nat Unit Unit _ _ _ 2 fun _ => 0).step (o := .block 1) ⟨rfl, rfl⟩ rfl
  exact ⟨_, (hfirst.step (o := .block 2) ⟨rfl, rfl⟩ rfl).meets_at_barrier, rfl⟩

end BarrierRun

end Passing

end Nox.Threads
