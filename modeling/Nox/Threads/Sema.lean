import Mathlib.Algebra.Group.Nat.Defs
import Mathlib.Algebra.Group.Int.Defs
import Nox.Threads.Calls

/-!
# Semaphores

`Co_sema`, with any number of threads and state machines that raise it, take from it and wait for
it.  A thread that waits gets the token of an `up` when it is woken; it may be runnable already
for another reason, and then cancels its other events only later.
-/

namespace Nox.Threads

section Model

/-! ## Model -/

/-- The queue of a semaphore or a mutex, and all others. -/
inductive LockQueue (O : Type)
  | wq
  | other (o : O)
  deriving DecidableEq

def intMax : Int := 2 ^ 31 - 1

/-- `Co_sema`, with the events of the threads. -/
structure CoSema (T O V : Type) where
  value : Int
  waits : Waits T (LockQueue O) V

namespace CoSema

variable {T O V : Type} [DecidableEq T] [DecidableEq O] [DecidableEq V]

def init (vars : V → Int) : CoSema T O V := ⟨0, Waits.init vars⟩

def withOp (s : CoSema T O V) (op : WaitOp T (LockQueue O) V) : CoSema T O V :=
  { s with waits := s.waits.exec op }

/-- `Co_sema::try_down` -/
def tryDown (s : CoSema T O V) : CoSema T O V × Bool :=
  if 0 < s.value then ({ s with value := s.value - 1 }, true) else (s, false)

/-- `Co_sema::down`, until it blocks. -/
def down (s : CoSema T O V) (t : T) (downed : V) : CoSema T O V × Bool :=
  let (s, done) := s.tryDown
  if done then (s, true) else (s.withOp (.wait t .wq (some downed)), false)

/-- `Co_sema::up`, with the threads it wakes; an `int` that is too large is negative. -/
def up (s : CoSema T O V) : CoSema T O V × List T :=
  if s.waits.queue .wq ≠ [] then
    let op := WaitOp.wakeN .wq 1 1
    (s.withOp op, (op.woken s.waits.queue).threads)
  else ({ s with value := if s.value = intMax then -intMax - 1 else s.value + 1 }, [])

/-- `Co_sema::wait`: whether the semaphore is decremented at once. -/
def wait (s : CoSema T O V) (t : T) (downed : Option V) : CoSema T O V × Bool :=
  if 0 < s.value then
    ({ s with value := s.value - 1 }.withOp (.immediateWake t 1 downed), true)
  else (s.withOp (.wait t .wq downed), false)

end CoSema

end Model

section Runs

/-! ## Runs -/

/-- What a thread does: `returns` is the end of a `down` that has blocked, and `other` what it
does with other queues, or the end of a wait that it has begun itself. -/
inductive SemaOp (T O V : Type)
  | down (t : T) (downed : V)
  | tryDown (t : T)
  | wait (t : T) (downed : Option V)
  | up
  | returns (t : T)
  | other (op : WaitOp T (LockQueue O) V)

/-- The semaphore, the number of the `up`s, and the threads that have been told of a decrement,
once for each.  For a thread in a `down` that has blocked, how often it had been told before. -/
structure SemaRun (T O V : Type) where
  sema : CoSema T O V
  ups : Nat
  told : List T
  call : T → Option Nat

namespace SemaRun

variable {T O V : Type} [DecidableEq T] [DecidableEq O] [DecidableEq V]

def init (vars : V → Int) : SemaRun T O V := ⟨CoSema.init vars, 0, [], fun _ => none⟩

/-- What the callers keep to. -/
def Valid (r : SemaRun T O V) : SemaOp T O V → Prop
  | .down t _ => r.call t = none ∧ r.sema.waits.events t = []
  | .tryDown t | .wait t _ => r.call t = none
  | .up => True
  | .returns t => r.call t ≠ none ∧ ∃ e ∈ r.sema.waits.events t, e.wq = none
  | .other op => op.Foreign [.wq] (r.call · = none)

/-- A thread that has tried to decrement the semaphore. -/
def downs (r : SemaRun T O V) (t : T) (s : CoSema T O V × Bool) : SemaRun T O V :=
  { r with sema := s.1, told := if s.2 then t :: r.told else r.told }

def exec (r : SemaRun T O V) : SemaOp T O V → SemaRun T O V
  | .down t downed =>
    let s := r.sema.down t downed
    if s.2 then r.downs t s
    else { r.downs t s with call := Function.update r.call t (some (r.told.count t)) }
  | .tryDown t => r.downs t r.sema.tryDown
  | .wait t downed => r.downs t (r.sema.wait t downed)
  | .up =>
    let (sema, woken) := r.sema.up
    { r with sema, ups := r.ups + 1, told := woken ++ r.told }
  | .returns t =>
    { r with sema := r.sema.withOp (.cancel t), call := Function.update r.call t none }
  | .other op => { r with sema := r.sema.withOp op }

/-- The value has room for an `up` that wakes no thread. -/
def Fits (r : SemaRun T O V) : SemaOp T O V → Prop
  | .up => r.sema.waits.queue .wq = [] → r.sema.value < intMax
  | _ => True

/-- The states after runs of operations that are all `P`. -/
inductive Reached (P : SemaRun T O V → SemaOp T O V → Prop) (vars : V → Int) :
    SemaRun T O V → Prop
  | init : Reached P vars (init vars)
  | step {r o} : Reached P vars r → r.Valid o → P r o → Reached P vars (r.exec o)

end SemaRun

end Runs

section Conservation

/-! ## Conservation -/

namespace SemaRun

variable {T O V : Type} [DecidableEq T]

/-- No token is lost, and none is given to two threads. -/
structure Good (r : SemaRun T O V) : Prop where
  sound : r.sema.waits.Sound
  nonneg : 0 ≤ r.sema.value
  ups : (r.ups : Int) = r.sema.value + r.told.length
  queued : r.sema.waits.queue .wq ≠ [] → r.sema.value = 0
  calls : r.sema.waits.Blocked (fun _ => .wq) r.call fun t k => r.told.count t = k + 1
  waiting : ∀ t k, r.call t = some k → ∀ x ∈ r.sema.waits.queue .wq, x.1 = t → r.told.count t = k

theorem good_init (vars : V → Int) : (init vars : SemaRun T O V).Good where
  sound := Waits.sound_init vars
  nonneg := Int.le_refl 0
  ups := rfl
  queued := fun h => absurd rfl h
  calls := Waits.blocked_start
  waiting := fun _ _ h => absurd h.symm (Option.some_ne_none _)

variable [DecidableEq O] [DecidableEq V] {r : SemaRun T O V} {t u : T} {k : Nat}
  {op : WaitOp T (LockQueue O) V}

/-- The queues change, but no thread's wait in a `down` does. -/
theorem Good.withOp (h : r.Good)
    (hmem : ∀ x ∈ (r.sema.waits.exec op).queue .wq,
      x ∈ r.sema.waits.queue .wq ∨ r.call x.1 = none)
    (hqueued : (r.sema.waits.exec op).queue .wq ≠ [] → r.sema.value = 0)
    (hcalls : (r.sema.waits.exec op).Blocked (fun _ => .wq) r.call
      fun t k => r.told.count t = k + 1) :
    { r with sema := r.sema.withOp op }.Good where
  sound := h.sound.exec op
  nonneg := h.nonneg
  ups := h.ups
  queued := hqueued
  calls := hcalls
  waiting u k hu x hx hxu := by
    rcases hmem x hx with hx | hnone
    · exact h.waiting u k hu x hx hxu
    · rw [hxu, show r.call u = some k from hu] at hnone
      cases hnone

/-- What running threads do with other queues. -/
theorem Good.foreign (h : r.Good) (hop : op.Foreign [.wq] (r.call · = none)) :
    { r with sema := r.sema.withOp op }.Good := by
  refine h.withOp (fun x hx => ?_) (fun hne => h.queued fun hnil => hne ?_)
    (h.calls.foreign h.sound hop fun _ => List.mem_cons_self)
  · exact Or.inl (h.sound.mem_of_mem_exec hop List.mem_cons_self hx)
  · exact h.sound.queue_exec_nil hop List.mem_cons_self hnil

/-- A running thread waits for a semaphore whose value is zero. -/
theorem Good.enqueue (h : r.Good) (ht : r.call t = none) (retvalp : Option V)
    (hzero : r.sema.value = 0) :
    { r with sema := r.sema.withOp (.wait t .wq retvalp) }.Good := by
  refine h.withOp (fun x hx => ?_) (fun _ => hzero) (h.calls.wait ht .wq retvalp)
  exact (h.sound.mem_queue_wait.mp hx).imp_right fun hnew => by rw [hnew.1]; exact ht

theorem Good.immediateWake (h : r.Good) (ht : r.call t = none) (retvalp : Option V) :
    { r with sema := r.sema.withOp (.immediateWake t 1 retvalp) }.Good := by
  refine h.foreign (foreign_immediateWake ?_ 1 retvalp)
  exact ht

omit [DecidableEq O] [DecidableEq V] in
/-- A running thread takes a token. -/
theorem Good.take (h : r.Good) (ht : r.call t = none) (hpos : 0 < r.sema.value) :
    { r with sema := { r.sema with value := r.sema.value - 1 }, told := t :: r.told }.Good where
  sound := h.sound
  nonneg := Int.sub_nonneg_of_le hpos
  ups := by
    have hups := h.ups
    simp only [List.length_cons]
    omega
  queued hne := absurd (h.queued hne) (Int.ne_of_gt hpos)
  calls := h.calls.mono fun u k hu hcount => by
    rw [List.count_cons_of_ne (ne_of_call ht hu).symm]
    exact hcount
  waiting u k hu := by
    rw [List.count_cons_of_ne (ne_of_call ht hu).symm]
    exact h.waiting u k hu

omit [DecidableEq O] [DecidableEq V] in
/-- A thread that waits blocks in a `down`. -/
theorem Good.block (h : r.Good) (honly : r.sema.waits.Only t .wq False) :
    { r with call := Function.update r.call t (some (r.told.count t)) }.Good where
  sound := h.sound
  nonneg := h.nonneg
  ups := h.ups
  queued := h.queued
  calls := h.calls.enter (honly.mono False.elim)
  waiting u k hu x hx hxu := by
    rcases update_call_eq_some.mp hu with ⟨rfl, rfl⟩ | ⟨-, hu⟩
    · rfl
    · exact h.waiting u k hu x hx hxu

theorem Good.down (h : r.Good) (ht : r.call t = none) (hevents : r.sema.waits.events t = [])
    (downed : V) : (r.exec (.down t downed)).Good := by
  unfold exec CoSema.down CoSema.tryDown
  by_cases hpos : 0 < r.sema.value
  · simp only [if_pos hpos, if_true]
    exact h.take ht hpos
  · have hzero : r.sema.value = 0 := Int.le_antisymm (Int.not_lt.mp hpos) h.nonneg
    simp only [if_neg hpos, Bool.false_eq_true, if_false]
    exact (h.enqueue ht (some downed) hzero).block (Waits.only_wait hevents _)

omit [DecidableEq O] [DecidableEq V] in
theorem Good.tryDown (h : r.Good) (ht : r.call t = none) : (r.downs t r.sema.tryDown).Good := by
  unfold CoSema.tryDown
  split
  · rename_i hpos
    exact h.take ht hpos
  · exact h

theorem Good.wait (h : r.Good) (ht : r.call t = none) (downed : Option V) :
    (r.downs t (r.sema.wait t downed)).Good := by
  unfold CoSema.wait
  split
  · rename_i hpos
    exact (h.take ht hpos).immediateWake ht downed
  · rename_i hpos
    exact h.enqueue ht downed (Int.le_antisymm (Int.not_lt.mp hpos) h.nonneg)

/-- The token of an `up` goes to the first thread that waits. -/
theorem Good.wake (h : r.Good) {x : T × Nat} {rest : List (T × Nat)}
    (hqueue : r.sema.waits.queue .wq = x :: rest) :
    { r with sema := r.sema.withOp (.wakeN .wq 1 1), ups := r.ups + 1,
             told := x.1 :: r.told }.Good := by
  have hhead : x ∈ r.sema.waits.queue .wq := hqueue ▸ List.mem_cons_self
  have hnodup := h.sound.nodup .wq
  rw [hqueue] at hnodup
  have htail : (r.sema.waits.wakeFirst .wq 1 1).queue .wq = rest := by
    rw [Waits.queue_wakeFirst, Function.update_self, hqueue]
    rfl
  have hzero := h.queued (by simp [hqueue])
  refine ⟨h.sound.exec (.wakeN .wq 1 1), h.nonneg, ?_, fun _ => hzero,
    h.calls.wakeFirst h.sound 1 1 fun u k hu hor => ?_, fun u k hu y hy hyu => ?_⟩
  · have hups := h.ups
    simp only [List.length_cons, CoSema.withOp]
    omega
  · by_cases hux : u = x.1
    · rw [hux, List.count_cons_self, h.waiting x.1 k (hux ▸ hu) x hhead rfl]
    · rw [List.count_cons_of_ne (Ne.symm hux)]
      rcases hor with hcount | ⟨-, hmem⟩
      · exact hcount
      · simp [hqueue, hux] at hmem
  · have hy : y ∈ rest := htail ▸ hy
    have hyq : y ∈ r.sema.waits.queue .wq := hqueue ▸ List.mem_cons_of_mem x hy
    by_cases hux : u = x.1
    · have hxy : x = y := ((h.calls u k hu).index_eq h.sound hhead hux.symm).trans
        ((h.calls u k hu).index_eq h.sound hyq hyu).symm
      exact absurd (hxy ▸ hy) (List.nodup_cons.mp hnodup).1
    · rw [List.count_cons_of_ne (Ne.symm hux)]
      exact h.waiting u k hu y hyq hyu

theorem Good.up (h : r.Good) (hfits : r.Fits .up) : (r.exec .up).Good := by
  unfold exec CoSema.up
  cases hqueue : r.sema.waits.queue .wq with
  | nil =>
    have hlt := hfits hqueue
    have hups := h.ups
    have hnonneg := h.nonneg
    simp only [ne_eq, not_true_eq_false, if_false, if_neg (Int.ne_of_lt hlt)]
    refine ⟨h.sound, ?_, ?_, fun hne => absurd hqueue hne, h.calls, h.waiting⟩
    · dsimp only
      omega
    · simp only [List.nil_append]
      omega
  | cons x rest =>
    have hwoken : ((WaitOp.wakeN .wq 1 1 : WaitOp T (LockQueue O) V).woken
        r.sema.waits.queue).threads = [x.1] := by
      simp [WaitOp.woken, WaitOp.wakes, hqueue]
    simp only [ne_eq, reduceCtorEq, not_false_eq_true, if_true, hwoken]
    exact h.wake hqueue

theorem Good.returns (h : r.Good) (t : T) : (r.exec (.returns t)).Good := by
  refine ⟨h.sound.cancelEvents t, h.nonneg, h.ups, fun hne => h.queued fun hnil => hne ?_,
    h.calls.leave t, fun u k hu x hx => ?_⟩
  · simp [exec, CoSema.withOp, Waits.exec, Waits.cancelEvents, hnil]
  · exact h.waiting u k (update_call_none_eq_some.mp hu).2 x (List.mem_of_mem_filter hx)

theorem Good.exec (h : r.Good) (op : SemaOp T O V) (hvalid : r.Valid op) (hfits : r.Fits op) :
    (r.exec op).Good := by
  cases op with
  | down t downed => exact h.down hvalid.1 hvalid.2 downed
  | tryDown t => exact h.tryDown hvalid
  | wait t downed => exact h.wait hvalid downed
  | up => exact h.up hfits
  | returns t => exact h.returns t
  | other op => exact h.foreign hvalid

theorem Reached.good {vars : V → Int} (h : Reached Fits vars r) : r.Good := by
  induction h with
  | init => exact good_init vars
  | step _ hvalid hfits ih => exact ih.exec _ hvalid hfits

omit [DecidableEq O] [DecidableEq V] in
/-- A `down` that returns has been told of one decrement. -/
theorem Good.told_of_returns (h : r.Good) (hvalid : r.Valid (.returns t))
    (hcall : r.call t = some k) : r.told.count t = k + 1 :=
  (h.calls t k hcall).woken hvalid.2

/-- Each `up` is in the value or with the one thread that has been told of it; no thread waits
while there is a token. -/
structure Conserves (r : SemaRun T O V) : Prop where
  ups : (r.ups : Int) = r.sema.value + r.told.length
  queued : r.sema.waits.queue .wq ≠ [] → r.sema.value = 0
  /-- A `down` that returns has been told of one decrement since it was called. -/
  returned : ∀ t k, r.Valid (.returns t) → r.call t = some k → r.told.count t = k + 1
  /-- Who is woken by an `up` is told so. -/
  woken : ∀ t i rest e v, r.sema.waits.queue .wq = (t, i) :: rest →
    (r.sema.waits.events t)[i]? = some e → e.retvalp = some v →
    (r.exec .up).told = t :: r.told ∧ (r.exec .up).sema.waits.vars v = 1
  /-- `wait` tells whether it has decremented the semaphore. -/
  waited : ∀ t v, (r.exec (.wait t (some v))).sema.waits.vars v =
    (r.exec (.wait t (some v))).told.length - r.told.length

theorem Good.conserves (h : r.Good) : r.Conserves where
  ups := h.ups
  queued := h.queued
  returned _ _ hvalid hcall := h.told_of_returns hvalid hcall
  woken t i rest e v hqueue he hv := by
    have hwoken : ((WaitOp.wakeN .wq 1 1 : WaitOp T (LockQueue O) V).woken
        r.sema.waits.queue).threads = [t] := by
      simp [WaitOp.woken, WaitOp.wakes, hqueue]
    have hne : r.sema.waits.queue .wq ≠ [] := by simp [hqueue]
    have hmem : (t, i) ∈ (r.sema.waits.queue .wq).take 1 := by simp [hqueue]
    simp only [SemaRun.exec, CoSema.up, if_pos hne, hwoken]
    exact ⟨rfl, Waits.vars_wakeFirst hmem he hv⟩
  waited t v := by
    unfold SemaRun.exec CoSema.wait downs
    by_cases hpos : 0 < r.sema.value
    · simp only [if_pos hpos, if_true, CoSema.withOp, Waits.exec, Waits.vars_immediateWake,
        List.length_cons]
      omega
    · simp [if_neg hpos, CoSema.withOp, Waits.exec, Waits.vars_wait]

/-- An `int` does not count all `up`s. -/
theorem up_overflows (vars : V → Int) : ∃ r : SemaRun T O V, Reached (fun _ _ => True) vars r ∧
    r.ups = 2 ^ 31 ∧ r.sema.value = -2 ^ 31 := by
  have hcount (n : Nat) (hn : (n : Int) ≤ intMax) : ∃ r : SemaRun T O V,
      Reached (fun _ _ => True) vars r ∧ r.ups = n ∧ r.sema.value = n ∧
        r.sema.waits.queue .wq = [] := by
    induction n with
    | zero => exact ⟨_, Reached.init, rfl, rfl, rfl⟩
    | succ n ih =>
      obtain ⟨r, hr, hups, hvalue, hqueue⟩ := ih (by omega)
      refine ⟨_, hr.step (o := .up) trivial trivial, ?_, ?_, ?_⟩ <;>
        simp only [exec, CoSema.up, hqueue, ne_eq, not_true_eq_false, if_false, hups, hvalue]
      rw [if_neg (by omega)]
      rfl
  obtain ⟨r, hr, hups, hvalue, hqueue⟩ := hcount (2 ^ 31 - 1) (by simp [intMax])
  refine ⟨_, hr.step (o := .up) trivial trivial, ?_, ?_⟩ <;>
    simp [exec, CoSema.up, hqueue, hups, hvalue, intMax]

end SemaRun

end Conservation

end Nox.Threads
