import Nox.Threads.Fifo
import Nox.Threads.Sema

/-!
# Mutexes

`Co_mutex`, with any number of threads and state machines.  Who unlocks a mutex hands it to the
first thread that waits.
-/

namespace Nox.Threads

section Model

/-! ## Model -/

/-- `Co_mutex`, with the events of the threads. -/
structure CoMutex (T O V : Type) where
  owner : Option T
  waits : Waits T (LockQueue O) V

namespace CoMutex

variable {T O V : Type} [DecidableEq T] [DecidableEq O] [DecidableEq V]

def init (vars : V → Int) : CoMutex T O V := ⟨none, Waits.init vars⟩

/-- `Co_mutex::try_lock` -/
def tryLock (m : CoMutex T O V) (t : T) : CoMutex T O V × Bool :=
  if m.owner = none then ({ m with owner := some t }, true) else (m, false)

def withOp (m : CoMutex T O V) (op : WaitOp T (LockQueue O) V) : CoMutex T O V :=
  { m with waits := m.waits.exec op }

/-- `Co_mutex::lock`, until it blocks. -/
def lock (m : CoMutex T O V) (t : T) : CoMutex T O V × Bool :=
  let (m, locked) := m.tryLock t
  if locked then (m, true) else (m.withOp (.wait t .wq none), false)

/-- `Co_mutex::unlock`, with the threads it wakes. -/
def unlock (m : CoMutex T O V) : CoMutex T O V × List T :=
  let op := WaitOp.wake1 .wq 1
  let woken := (op.woken m.waits.queue).threads
  ({ m.withOp op with owner := woken.head? }, woken)

/-- `Co_mutex::wait`: whether the mutex is locked at once. -/
def wait (m : CoMutex T O V) (t : T) (acquired : Option V) : CoMutex T O V × Bool :=
  let (m, locked) := m.tryLock t
  if locked then (m.withOp (.immediateWake t 1 acquired), true)
  else (m.withOp (.wait t .wq acquired), false)

end CoMutex

end Model

section Runs

/-! ## Runs -/

/-- What a thread does: `returns` is the end of a `lock` that has blocked, and `other` what it
does with other queues, or the end of a wait that it has begun itself. -/
inductive MutexOp (T O V : Type)
  | lock (t : T)
  | tryLock (t : T)
  | unlock (t : T)
  | wait (t : T) (acquired : Option V)
  | returns (t : T)
  | other (op : WaitOp T (LockQueue O) V)

/-- The mutex, the threads that have been told that they have it and not unlocked it since, those
in a `lock` that has blocked, and the events in the order of registration. -/
structure MutexRun (T O V : Type) where
  mutex : CoMutex T O V
  told : List T
  call : T → Bool
  line : Registrations T (LockQueue O)

namespace MutexRun

variable {T O V : Type} [DecidableEq T] [DecidableEq O] [DecidableEq V]

def init (vars : V → Int) : MutexRun T O V :=
  ⟨CoMutex.init vars, [], fun _ => false, Registrations.start T _⟩

/-- What the callers keep to. -/
def Valid (r : MutexRun T O V) : MutexOp T O V → Prop
  | .lock t => r.call t = false ∧ r.mutex.waits.events t = [] ∧ r.mutex.owner ≠ some t
  | .tryLock t | .wait t _ => r.call t = false
  | .unlock t => r.call t = false ∧ t ∈ r.told
  | .returns t => r.call t = true ∧ ∃ e ∈ r.mutex.waits.events t, e.wq = none
  | .other op => op.Foreign [.wq] (r.call · = false)

/-- A thread that has tried to lock the mutex. -/
def locks (r : MutexRun T O V) (t : T) (m : CoMutex T O V × Bool) : MutexRun T O V :=
  { r with mutex := m.1, told := if m.2 then t :: r.told else r.told }

/-- What has been registered. -/
def registers (r : MutexRun T O V) (op : WaitOp T (LockQueue O) V) : MutexRun T O V :=
  { r with line := r.line.apply op }

def exec (r : MutexRun T O V) : MutexOp T O V → MutexRun T O V
  | .lock t =>
    let m := r.mutex.lock t
    if m.2 then r.locks t m
    else
      { (r.locks t m).registers (.wait t .wq none) with call := Function.update r.call t true }
  | .tryLock t => r.locks t (r.mutex.tryLock t)
  | .unlock t =>
    let (mutex, woken) := r.mutex.unlock
    { r.registers (.wake1 .wq 1) with mutex, told := woken ++ r.told.erase t }
  | .wait t acquired =>
    let m := r.mutex.wait t acquired
    (r.locks t m).registers
      (if m.2 then .immediateWake t 1 acquired else .wait t .wq acquired)
  | .returns t =>
    { r.registers (.cancel t) with
      mutex := r.mutex.withOp (.cancel t), call := Function.update r.call t false }
  | .other op => { r.registers op with mutex := r.mutex.withOp op }

/-- No event is registered on a full vector while another thread's event is behind one of the
thread's in the queue of the mutex. -/
def KeepsLine (r : MutexRun T O V) : MutexOp T O V → Prop
  | .wait t _ => r.mutex.waits.Full t → Behind t (r.line.pending .wq)
  | .other op => ∀ t ∈ op.registers, r.mutex.waits.Full t → Behind t (r.line.pending .wq)
  | _ => True

/-- The states after runs of operations that are all `P`. -/
inductive Reached (P : MutexRun T O V → MutexOp T O V → Prop) (vars : V → Int) :
    MutexRun T O V → Prop
  | init : Reached P vars (init vars)
  | step {r o} : Reached P vars r → r.Valid o → P r o → Reached P vars (r.exec o)

end MutexRun

end Runs

section Ownership

/-! ## Ownership -/

namespace MutexRun

variable {T O V : Type}

/-- The threads in a `lock` that has blocked, as callers. -/
def callers (r : MutexRun T O V) : T → Option Unit :=
  (fun b => if b then some () else none) ∘ r.call

theorem callers_eq_some {r : MutexRun T O V} {t : T} {k : Unit} :
    r.callers t = some k ↔ r.call t = true := by
  unfold callers
  cases h : r.call t <;> simp [h]

theorem callers_eq_none {r : MutexRun T O V} {t : T} : r.callers t = none ↔ r.call t = false := by
  unfold callers
  cases h : r.call t <;> simp [h]

/-- Who has been told that it has the mutex is its owner, and the queue is the line of those that
wait. -/
structure Good (r : MutexRun T O V) : Prop where
  sound : r.mutex.waits.Sound
  owner : r.told = r.mutex.owner.toList
  free : r.mutex.owner = none → r.mutex.waits.queue .wq = []
  calls : r.mutex.waits.Blocked (fun _ => .wq) r.callers fun t _ => t ∈ r.told
  line : r.line.Follows .wq r.mutex.waits

theorem good_init (vars : V → Int) : (init vars : MutexRun T O V).Good where
  sound := Waits.sound_init vars
  owner := rfl
  free := fun _ => rfl
  calls := Waits.blocked_start
  line := ⟨rfl, fun _ => rfl⟩

variable [DecidableEq T] [DecidableEq O] [DecidableEq V] {r : MutexRun T O V} {t u : T}
  {op : WaitOp T (LockQueue O) V}

/-- The queues change, but no thread's wait in a `lock` does. -/
theorem Good.withOp (h : r.Good)
    (hfree : r.mutex.owner = none → (r.mutex.waits.exec op).queue .wq = [])
    (hcalls : (r.mutex.waits.exec op).Blocked (fun _ => .wq) r.callers fun t _ => t ∈ r.told)
    (hline : ∀ t ∈ op.registers, r.mutex.waits.Full t → Behind t (r.mutex.waits.queue .wq)) :
    { r.registers op with mutex := r.mutex.withOp op }.Good where
  sound := h.sound.exec op
  owner := h.owner
  free := hfree
  calls := hcalls
  line := h.line.exec h.sound hline

/-- What running threads do with other queues. -/
theorem Good.foreign (h : r.Good) (hop : op.Foreign [.wq] (r.call · = false))
    (hline : ∀ t ∈ op.registers, r.mutex.waits.Full t → Behind t (r.line.pending .wq)) :
    { r.registers op with mutex := r.mutex.withOp op }.Good := by
  have hop' : op.Foreign [.wq] (r.callers · = none) :=
    ⟨hop.1, hop.2.1, fun t ht => callers_eq_none.mpr (hop.2.2 t ht)⟩
  refine h.withOp (fun hnone => h.sound.queue_exec_nil hop List.mem_cons_self (h.free hnone))
    (h.calls.foreign h.sound hop' fun _ => List.mem_cons_self) ?_
  rw [← h.line.pending]
  exact hline

/-- A running thread waits for a mutex that has an owner. -/
theorem Good.enqueue (h : r.Good) (ht : r.call t = false) (retvalp : Option V)
    (hheld : r.mutex.owner ≠ none)
    (hline : r.mutex.waits.Full t → Behind t (r.line.pending .wq)) :
    { r.registers (.wait t .wq retvalp) with
      mutex := r.mutex.withOp (.wait t .wq retvalp) }.Good := by
  refine h.withOp (fun hnone => absurd hnone hheld)
    (h.calls.wait (callers_eq_none.mpr ht) .wq retvalp) fun u hu => ?_
  cases hu
  rw [← h.line.pending]
  exact hline

omit [DecidableEq T] [DecidableEq O] [DecidableEq V] in
theorem Good.tryLock (h : r.Good) (t : T) : (r.locks t (r.mutex.tryLock t)).Good := by
  unfold CoMutex.tryLock
  split
  · rename_i hnone
    have htold : r.told = [] := by rw [h.owner, hnone]; rfl
    exact {
      sound := h.sound
      owner := by simp [locks, htold]
      free := fun hfree => (nomatch hfree)
      calls := h.calls.mono fun _ _ _ => List.mem_cons_of_mem t
      line := h.line }
  · exact h

omit [DecidableEq T] [DecidableEq O] [DecidableEq V] in
/-- A thread without events is behind all others. -/
theorem Good.behind_of_nil (h : r.Good) (hevents : r.mutex.waits.events t = []) :
    Behind t (r.line.pending .wq) := by
  rw [h.line.pending]
  refine List.pairwise_of_forall_mem_list fun a ha b _ hat => ?_
  obtain ⟨e, he, -⟩ := (h.sound.mem_iff .wq a).mp ha
  rw [hat, hevents] at he
  cases he

theorem Good.lock (h : r.Good) (ht : r.call t = false) (hevents : r.mutex.waits.events t = []) :
    (r.exec (.lock t)).Good := by
  have htry := h.tryLock t
  unfold exec CoMutex.lock
  by_cases hnone : r.mutex.owner = none
  · simp only [CoMutex.tryLock, if_pos hnone] at htry
    simp only [CoMutex.tryLock, if_pos hnone, if_true]
    exact htry
  · simp only [CoMutex.tryLock, if_neg hnone, Bool.false_eq_true, if_false]
    have hwait := h.enqueue ht none hnone fun _ => h.behind_of_nil hevents
    refine ⟨hwait.sound, hwait.owner, hwait.free, ?_, hwait.line⟩
    unfold callers
    rw [Function.comp_update]
    exact hwait.calls.enter (Waits.only_wait hevents none)

theorem Good.wait (h : r.Good) (ht : r.call t = false) (acquired : Option V)
    (hline : r.KeepsLine (.wait t acquired)) : (r.exec (.wait t acquired)).Good := by
  have htry := h.tryLock t
  unfold exec CoMutex.wait
  by_cases hnone : r.mutex.owner = none
  · simp only [CoMutex.tryLock, if_pos hnone] at htry
    simp only [CoMutex.tryLock, if_pos hnone, if_true]
    refine htry.foreign (foreign_immediateWake ?_ 1 acquired) fun u hu => ?_
    · exact ht
    · cases hu
      exact hline
  · simp only [CoMutex.tryLock, if_neg hnone, Bool.false_eq_true, if_false]
    exact h.enqueue ht acquired hnone hline

theorem Good.unlock (h : r.Good) (ht : r.call t = false) (howns : t ∈ r.told) :
    (r.exec (.unlock t)).Good := by
  have htold : r.told = [t] := by
    rw [h.owner] at howns ⊢
    rw [Option.mem_toList] at howns
    rw [howns]
    rfl
  have herase : r.told.erase t = [] := by simp [htold]
  unfold exec CoMutex.unlock
  dsimp only
  rw [herase, List.append_nil]
  have hline : (r.line.apply (.wake1 .wq 1)).Follows .wq (r.mutex.waits.exec (.wake1 .wq 1)) :=
    h.line.exec h.sound fun u hu => (nomatch hu)
  refine ⟨h.sound.exec (.wake1 .wq 1), ?_, fun hnone => ?_,
    h.calls.wakeFirst h.sound 1 1 fun u k hu => ?_, hline⟩
  · cases hqueue : r.mutex.waits.queue .wq <;> simp [WaitOp.woken, WaitOp.wakes, hqueue]
  · cases hqueue : r.mutex.waits.queue .wq with
    | nil => simp [CoMutex.withOp, Waits.exec, Waits.queue_wakeFirst, hqueue]
    | cons x rest => simp [WaitOp.woken, WaitOp.wakes, hqueue] at hnone
  · rintro (hmem | ⟨-, hmem⟩)
    · rw [htold, List.mem_singleton] at hmem
      exact absurd hmem (ne_of_call (callers_eq_none.mpr ht) hu)
    · exact hmem

theorem Good.returns (h : r.Good) (t : T) : (r.exec (.returns t)).Good := by
  have hline : (r.line.apply (.cancel t)).Follows .wq (r.mutex.waits.exec (.cancel t)) :=
    h.line.exec h.sound fun u hu => (nomatch hu)
  refine ⟨h.sound.cancelEvents t, h.owner, fun hnone => ?_, ?_, hline⟩
  · simp [exec, CoMutex.withOp, Waits.exec, Waits.cancelEvents, h.free hnone]
  · unfold callers
    rw [exec, Function.comp_update]
    exact h.calls.leave t

theorem Good.exec (h : r.Good) (op : MutexOp T O V) (hvalid : r.Valid op)
    (hline : r.KeepsLine op) : (r.exec op).Good := by
  cases op with
  | lock t => exact h.lock hvalid.1 hvalid.2.1
  | tryLock t => exact h.tryLock t
  | unlock t => exact h.unlock hvalid.1 hvalid.2
  | wait t acquired => exact h.wait hvalid acquired hline
  | returns t => exact h.returns t
  | other op => exact h.foreign hvalid hline

theorem Reached.good {vars : V → Int} (h : Reached KeepsLine vars r) : r.Good := by
  induction h with
  | init => exact good_init vars
  | step _ hvalid hline ih => exact ih.exec _ hvalid hline

/-- The owner is who has been told so; the mutex goes to the first in the line of those that
wait for it. -/
structure Owned (r : MutexRun T O V) : Prop where
  owner : r.told = r.mutex.owner.toList
  free : r.mutex.owner = none → r.mutex.waits.queue .wq = []
  line : r.mutex.waits.queue .wq = r.line.pending .wq
  unlocked : ∀ t, r.Valid (.unlock t) →
    (r.exec (.unlock t)).mutex.owner = (r.line.pending .wq).head?.map (·.1)
  /-- A `lock` that returns has locked the mutex. -/
  returned : ∀ t, r.Valid (.returns t) → r.mutex.owner = some t
  /-- Who is woken by an `unlock` is told so. -/
  woken : ∀ t u i rest e v, r.line.pending .wq = (u, i) :: rest →
    (r.mutex.waits.events u)[i]? = some e → e.retvalp = some v →
    (r.exec (.unlock t)).mutex.waits.vars v = 1
  /-- `wait` tells whether it has locked the mutex. -/
  waited : ∀ t v, (r.exec (.wait t (some v))).mutex.waits.vars v =
    if r.mutex.owner = none then 1 else 0

theorem Good.owned (h : r.Good) : r.Owned where
  owner := h.owner
  free := h.free
  line := h.line.pending.symm
  unlocked t _ := by
    rw [h.line.pending]
    simp only [MutexRun.exec, CoMutex.unlock, WaitOp.woken, WaitOp.wakes]
    cases r.mutex.waits.queue .wq <;> rfl
  returned t hvalid := by
    have hmem := (h.calls t () (callers_eq_some.mpr hvalid.1)).woken hvalid.2
    rw [h.owner] at hmem
    simpa using hmem
  woken t u i rest e v hqueue he hv := by
    have hmem : (u, i) ∈ (r.mutex.waits.queue .wq).take 1 := by
      rw [← h.line.pending, hqueue]
      exact List.mem_cons_self
    exact Waits.vars_wakeFirst hmem he hv
  waited t v := by
    simp only [MutexRun.exec, CoMutex.wait, CoMutex.tryLock]
    by_cases hnone : r.mutex.owner = none
    · simp only [if_pos hnone, if_true]
      exact Waits.vars_immediateWake 1 v
    · simp only [if_neg hnone, Bool.false_eq_true, if_false]
      exact Waits.vars_wait v

end MutexRun

/-- In every run in which a semaphore's value fits and a mutex' line is kept, no token is lost or
given twice, and the mutex goes from owner to owner in this line. -/
theorem tokens_and_owners {T O V : Type} [DecidableEq T] [DecidableEq O] [DecidableEq V]
    (vars : V → Int) :
    (∀ r : SemaRun T O V, SemaRun.Reached SemaRun.Fits vars r → r.Conserves) ∧
      ∀ r : MutexRun T O V, MutexRun.Reached MutexRun.KeepsLine vars r → r.Owned :=
  ⟨fun _ h => h.good.conserves, fun _ h => h.good.owned⟩

/-- A thread that waits gets a token, and another one the mutex. -/
theorem tokens_and_owners_handed :
    (∃ r : SemaRun Nat Unit Unit, r.told = [1] ∧ r.Conserves) ∧
      ∃ r : MutexRun Nat Unit Unit, r.told = [1] ∧ r.Owned := by
  have hstart : SemaRun.Reached SemaRun.Fits (fun _ => 0) (SemaRun.init (fun _ => 0)) :=
    SemaRun.Reached.init (T := Nat) (O := Unit) (V := Unit)
  have hwaits := hstart.step (o := .wait 1 (some ())) rfl trivial
  have hup := hwaits.step (o := .up) trivial fun hnil => absurd hnil (by decide)
  have htaken : MutexRun.Reached MutexRun.KeepsLine (fun _ => 0)
      ((MutexRun.init (fun _ => 0) : MutexRun Nat Unit Unit).exec (.tryLock 0)) :=
    MutexRun.Reached.init.step rfl trivial
  have hlocks := htaken.step (o := .lock 1) ⟨rfl, rfl, by decide⟩ trivial
  have hleft := hlocks.step (o := .unlock 0) ⟨rfl, by decide⟩ trivial
  have hall := tokens_and_owners (T := Nat) (O := Unit) (V := Unit) (fun _ => 0)
  exact ⟨⟨_, by decide, hall.1 _ hup⟩, ⟨_, by decide, hall.2 _ hleft⟩⟩

end Ownership

section Defect

/-! ## A line that is not kept -/

namespace MutexRun

/-- Two threads wait for a mutex, and the first then waits on another queue: the second becomes
the owner. -/
theorem not_owned : ∃ r : MutexRun Nat Unit Unit,
    Reached (fun _ _ => True) (fun _ => 0) r ∧ r.Valid (.unlock 0) ∧
      r.line.pending .wq = [(1, 0), (2, 0)] ∧
      (r.exec (.unlock 0)).mutex.owner = some 2 := by
  have hstart : Reached (fun _ _ => True) (fun _ => 0) (MutexRun.init (fun _ => 0)) :=
    Reached.init (T := Nat) (O := Unit) (V := Unit)
  have htaken := hstart.step (o := .tryLock 0) rfl trivial
  have hfirst := htaken.step (o := .wait 1 none) rfl trivial
  have hsecond := hfirst.step (o := .wait 2 none) rfl trivial
  have hgrown := hsecond.step (o := .other (.wait 1 (.other ()) none))
    ⟨trivial, by decide, by decide⟩ trivial
  exact ⟨_, hgrown, ⟨rfl, by decide⟩, by decide, by decide⟩

end MutexRun

end Defect

end Nox.Threads
