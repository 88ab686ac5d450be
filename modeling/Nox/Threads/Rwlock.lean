import Mathlib.Algebra.Group.Nat.Defs
import Nox.Threads.Calls

/-!
# The reader-writer lock

`Co_rwlock`, with any number of threads that take, wait for and release it, and register events
on other queues meanwhile.  A lock that is released goes to who waits for it: its readers and
writers are told here by what its functions tell the threads.
-/

namespace Nox.Threads

section Model

/-! ## Model -/

/-- The queues of a lock, and all others. -/
inductive RwQueue (O : Type)
  | readWq
  | writeWq
  | other (o : O)
  deriving DecidableEq

def sizeMax : Nat := 2 ^ 64 - 1

/-- `Co_rwlock`, with the events of the threads. -/
structure CoRwlock (T O V : Type) where
  writeOwner : Option T
  readOwners : Nat
  waits : Waits T (RwQueue O) V

namespace CoRwlock

variable {T O V : Type} [DecidableEq T] [DecidableEq O] [DecidableEq V]

def init (vars : V → Int) : CoRwlock T O V := ⟨none, 0, Waits.init vars⟩

/-- The lock after an operation on queues. -/
def withOp (l : CoRwlock T O V) (op : WaitOp T (RwQueue O) V) : CoRwlock T O V :=
  { l with waits := l.waits.exec op }

/-- `Co_rwlock::read_try_lock` -/
def readTryLock (l : CoRwlock T O V) : CoRwlock T O V × Bool :=
  if l.writeOwner = none ∧ l.waits.queue .writeWq = [] then
    ({ l with readOwners := (l.readOwners + 1) % (sizeMax + 1) }, true)
  else (l, false)

/-- `Co_rwlock::read_unlock` of a lock that has readers, with the threads it wakes. -/
def readUnlock (l : CoRwlock T O V) : CoRwlock T O V × List T :=
  let readOwners := l.readOwners - 1
  if readOwners = 0 then
    let op := WaitOp.wake1 .writeWq 1
    let woken := (op.woken l.waits.queue).threads
    ({ l.withOp op with writeOwner := woken.head?, readOwners }, woken)
  else ({ l with readOwners }, [])

/-- `Co_rwlock::read_wait`: whether the lock is acquired at once. -/
def readWait (l : CoRwlock T O V) (t : T) (acquired : Option V) : CoRwlock T O V × Bool :=
  let (l, locked) := l.readTryLock
  if locked then (l.withOp (.immediateWake t 1 acquired), true)
  else (l.withOp (.wait t .readWq acquired), false)

/-- `Co_rwlock::read_lock`, until it blocks. -/
def readLock (l : CoRwlock T O V) (t : T) (acquired : V) : CoRwlock T O V × Bool :=
  let (l, locked) := l.readTryLock
  if locked then (l, true) else (l.withOp (.wait t .readWq (some acquired)), false)

/-- `Co_rwlock::write_try_lock` -/
def writeTryLock (l : CoRwlock T O V) (t : T) : CoRwlock T O V × Bool :=
  if l.readOwners = 0 ∧ l.writeOwner = none then ({ l with writeOwner := some t }, true)
  else (l, false)

/-- `Co_rwlock::write_unlock`, with the readers and the writers it wakes. -/
def writeUnlock (l : CoRwlock T O V) : CoRwlock T O V × List T × List T :=
  let l := { l with writeOwner := none }
  if l.waits.queue .readWq ≠ [] then
    let op := WaitOp.wakeN .readWq 1 sizeMax
    let woken := op.woken l.waits.queue
    ({ l.withOp op with readOwners := woken.number.getD 0 }, woken.threads, [])
  else
    let op := WaitOp.wakeN .writeWq 1 1
    (l.withOp op, [], (op.woken l.waits.queue).threads)

/-- `Co_rwlock::write_wait` -/
def writeWait (l : CoRwlock T O V) (t : T) (acquired : Option V) : CoRwlock T O V × Bool :=
  let (l, locked) := l.writeTryLock t
  if locked then (l.withOp (.immediateWake t 1 acquired), true)
  else (l.withOp (.wait t .writeWq acquired), false)

/-- `Co_rwlock::write_lock`, until it blocks. -/
def writeLock (l : CoRwlock T O V) (t : T) (acquired : V) : CoRwlock T O V × Bool :=
  let (l, locked) := l.writeTryLock t
  if locked then (l, true) else (l.withOp (.wait t .writeWq (some acquired)), false)

end CoRwlock

end Model

section Runs

/-! ## Runs -/

/-- The calls of the lock that block. -/
inductive RwCall
  | readLock
  | writeLock
  deriving DecidableEq

/-- What a thread does: `returns` is the end of a call that has blocked, and `other` what it does
with other queues, or the end of a wait that it has begun itself. -/
inductive RwOp (T O V : Type)
  | readLock (t : T) (acquired : V)
  | readTryLock (t : T)
  | readWait (t : T) (acquired : Option V)
  | readUnlock (t : T)
  | writeLock (t : T) (acquired : V)
  | writeTryLock (t : T)
  | writeWait (t : T) (acquired : Option V)
  | writeUnlock (t : T)
  | returns (t : T)
  | other (op : WaitOp T (RwQueue O) V)

/-- The lock, who holds it by what the threads have been told, and the threads that are in a
call. -/
structure RwRun (T O V : Type) where
  lock : CoRwlock T O V
  readers : List T
  writers : List T
  call : T → Option RwCall

namespace RwRun

variable {T O V : Type} [DecidableEq T] [DecidableEq O] [DecidableEq V]

def init (vars : V → Int) : RwRun T O V := ⟨CoRwlock.init vars, [], [], fun _ => none⟩

/-- What the callers of the lock's functions keep to: its assertions, but for those that are to
hold by what the lock does itself. -/
def Valid (r : RwRun T O V) : RwOp T O V → Prop
  | .readLock t _ | .writeLock t _ =>
    r.call t = none ∧ r.lock.waits.events t = [] ∧ r.lock.writeOwner ≠ some t
  | .readTryLock t | .readWait t _ | .writeTryLock t | .writeWait t _ => r.call t = none
  | .readUnlock t => r.call t = none ∧ t ∈ r.readers
  | .writeUnlock t => r.call t = none ∧ t ∈ r.writers
  | .returns t => r.call t ≠ none ∧ ∃ e ∈ r.lock.waits.events t, e.wq = none
  | .other op => op.Foreign [.readWq, .writeWq] (r.call · = none)

/-- A thread that has tried to lock for reading. -/
def reads (r : RwRun T O V) (t : T) (l : CoRwlock T O V × Bool) : RwRun T O V :=
  { r with lock := l.1, readers := if l.2 then t :: r.readers else r.readers }

/-- A thread that has tried to lock for writing. -/
def writes (r : RwRun T O V) (t : T) (l : CoRwlock T O V × Bool) : RwRun T O V :=
  { r with lock := l.1, writers := if l.2 then t :: r.writers else r.writers }

/-- A thread blocks in a call, unless it has got the lock. -/
def blocks (r : RwRun T O V) (t : T) (c : RwCall) (locked : Bool) : RwRun T O V :=
  if locked then r else { r with call := Function.update r.call t (some c) }

def exec (r : RwRun T O V) : RwOp T O V → RwRun T O V
  | .readLock t acquired =>
    let l := r.lock.readLock t acquired
    (r.reads t l).blocks t .readLock l.2
  | .readTryLock t => r.reads t r.lock.readTryLock
  | .readWait t acquired => r.reads t (r.lock.readWait t acquired)
  | .readUnlock t =>
    let (lock, woken) := r.lock.readUnlock
    { r with lock, readers := r.readers.erase t, writers := woken ++ r.writers }
  | .writeLock t acquired =>
    let l := r.lock.writeLock t acquired
    (r.writes t l).blocks t .writeLock l.2
  | .writeTryLock t => r.writes t (r.lock.writeTryLock t)
  | .writeWait t acquired => r.writes t (r.lock.writeWait t acquired)
  | .writeUnlock t =>
    let (lock, readers, writers) := r.lock.writeUnlock
    { r with lock, readers := readers ++ r.readers, writers := writers ++ r.writers.erase t }
  | .returns t =>
    { r with lock := r.lock.withOp (.cancel t), call := Function.update r.call t none }
  | .other op => { r with lock := r.lock.withOp op }

/-- The lock goes on to who waits for it: a writer leaves no writers alone in their queue, and the
last reader no readers; and there is one number for each reader. -/
def Passes (r : RwRun T O V) : RwOp T O V → Prop
  | .readLock _ _ | .readTryLock _ | .readWait _ _ =>
    r.lock.writeOwner = none → r.lock.waits.queue .writeWq = [] → r.lock.readOwners < sizeMax
  | .readUnlock _ =>
    r.lock.readOwners = 1 → r.lock.waits.queue .writeWq = [] → r.lock.waits.queue .readWq = []
  | .writeUnlock _ => r.lock.waits.queue .readWq = [] → r.lock.waits.queue .writeWq = []
  | _ => True

/-- The states after runs of operations that are all `P`. -/
inductive Reached (P : RwRun T O V → RwOp T O V → Prop) (vars : V → Int) : RwRun T O V → Prop
  | init : Reached P vars (init vars)
  | step {r o} : Reached P vars r → r.Valid o → P r o → Reached P vars (r.exec o)

/-- The operation ends a `write_lock` of the thread. -/
def WriteLockReturns (r : RwRun T O V) (op : RwOp T O V) (t : T) : Prop :=
  (∃ acquired, op = .writeLock t acquired ∧ (r.exec op).call t = none) ∨
    op = .returns t ∧ r.call t = some .writeLock

end RwRun

end Runs

section Safety

/-! ## Safety -/

/-- The queue of a call. -/
def RwCall.queue {O : Type} : RwCall → RwQueue O
  | readLock => .readWq
  | writeLock => .writeWq

theorem RwCall.mem_queues {O : Type} (c : RwCall) :
    (c.queue : RwQueue O) ∈ [.readWq, .writeWq] := by
  cases c with
  | readLock => exact List.mem_cons_self
  | writeLock => exact List.mem_cons_of_mem _ List.mem_cons_self

namespace RwRun

variable {T O V : Type}

/-- The threads that hold the lock as a call asks for. -/
def holders (r : RwRun T O V) : RwCall → List T
  | .readLock => r.readers
  | .writeLock => r.writers

/-- What holds as long as the lock is passed on. -/
structure Good (r : RwRun T O V) : Prop where
  sound : r.lock.waits.Sound
  owner : r.writers = r.lock.writeOwner.toList
  exclusive : r.lock.writeOwner ≠ none → r.readers = []
  count : r.lock.readOwners = r.readers.length
  free : r.lock.writeOwner = none → r.lock.readOwners = 0 →
    r.lock.waits.queue .readWq = [] ∧ r.lock.waits.queue .writeWq = []
  calls : r.lock.waits.Blocked RwCall.queue r.call fun t c => t ∈ r.holders c

theorem good_init (vars : V → Int) : (init vars : RwRun T O V).Good where
  sound := Waits.sound_init vars
  owner := rfl
  exclusive := fun h => absurd rfl h
  count := rfl
  free := fun _ _ => ⟨rfl, rfl⟩
  calls := Waits.blocked_start

variable [DecidableEq T] [DecidableEq O] [DecidableEq V] {r : RwRun T O V} {t : T}
  {op : WaitOp T (RwQueue O) V}

/-- The queues change, and no thread's wait in a call does. -/
theorem Good.withOp (h : r.Good)
    (hfree : r.lock.writeOwner = none → r.lock.readOwners = 0 →
      (r.lock.waits.exec op).queue .readWq = [] ∧ (r.lock.waits.exec op).queue .writeWq = [])
    (hcalls : (r.lock.waits.exec op).Blocked RwCall.queue r.call fun t c => t ∈ r.holders c) :
    { r with lock := r.lock.withOp op }.Good where
  sound := h.sound.exec op
  owner := h.owner
  exclusive := h.exclusive
  count := h.count
  free := hfree
  calls := hcalls

/-- What running threads do with other queues. -/
theorem Good.foreign (h : r.Good) (hop : op.Foreign [.readWq, .writeWq] (r.call · = none)) :
    { r with lock := r.lock.withOp op }.Good := by
  refine h.withOp (fun howner hcount => ?_) (h.calls.foreign h.sound hop RwCall.mem_queues)
  obtain ⟨hread, hwrite⟩ := h.free howner hcount
  exact ⟨h.sound.queue_exec_nil hop (RwCall.mem_queues .readLock) hread,
    h.sound.queue_exec_nil hop (RwCall.mem_queues .writeLock) hwrite⟩

/-- A running thread waits on a queue of a lock that is not free. -/
theorem Good.wait (h : r.Good) (ht : r.call t = none) (q : RwQueue O) (retvalp : Option V)
    (hheld : ¬(r.lock.writeOwner = none ∧ r.lock.readOwners = 0)) :
    { r with lock := r.lock.withOp (.wait t q retvalp) }.Good :=
  h.withOp (fun howner hcount => absurd ⟨howner, hcount⟩ hheld) (h.calls.wait ht q retvalp)

theorem Good.immediateWake (h : r.Good) (ht : r.call t = none) (retvalp : Option V) :
    { r with lock := r.lock.withOp (.immediateWake t 1 retvalp) }.Good := by
  refine h.foreign (foreign_immediateWake ?_ 1 retvalp)
  exact ht

omit [DecidableEq O] [DecidableEq V] in
/-- A thread that has found the lock taken blocks in a call. -/
theorem Good.block (h : r.Good) (c : RwCall) (honly : r.lock.waits.Only t c.queue False) :
    { r with call := Function.update r.call t (some c) }.Good where
  sound := h.sound
  owner := h.owner
  exclusive := h.exclusive
  count := h.count
  free := h.free
  calls := h.calls.enter (honly.mono False.elim)

omit [DecidableEq T] [DecidableEq O] [DecidableEq V] in
theorem Good.readTryLock (h : r.Good) (t : T)
    (hp : r.lock.writeOwner = none → r.lock.waits.queue .writeWq = [] →
      r.lock.readOwners < sizeMax) : (r.reads t r.lock.readTryLock).Good := by
  unfold CoRwlock.readTryLock
  split
  · rename_i hfree
    have hcount : (r.lock.readOwners + 1) % (sizeMax + 1) = r.lock.readOwners + 1 :=
      Nat.mod_eq_of_lt (Nat.succ_lt_succ (hp hfree.1 hfree.2))
    rw [hcount]
    exact {
      sound := h.sound
      owner := h.owner
      exclusive := fun hne => absurd hfree.1 hne
      count := congrArg (· + 1) h.count
      free := fun _ hzero => absurd hzero (Nat.succ_ne_zero _)
      calls := h.calls.mono fun u c _ hmem => by
        cases c with
        | readLock => exact List.mem_cons_of_mem t hmem
        | writeLock => exact hmem }
  · exact h

omit [DecidableEq T] [DecidableEq O] [DecidableEq V] in
/-- A thread that does not get the lock for reading finds it held. -/
theorem Good.held_of_not_readable (h : r.Good)
    (hnot : ¬(r.lock.writeOwner = none ∧ r.lock.waits.queue .writeWq = [])) :
    ¬(r.lock.writeOwner = none ∧ r.lock.readOwners = 0) :=
  fun hfree => hnot ⟨hfree.1, (h.free hfree.1 hfree.2).2⟩

theorem Good.readWait (h : r.Good) (ht : r.call t = none) (acquired : Option V)
    (hp : r.lock.writeOwner = none → r.lock.waits.queue .writeWq = [] →
      r.lock.readOwners < sizeMax) : (r.reads t (r.lock.readWait t acquired)).Good := by
  have htry := h.readTryLock t hp
  by_cases hfree : r.lock.writeOwner = none ∧ r.lock.waits.queue .writeWq = []
  · simp only [CoRwlock.readTryLock, if_pos hfree] at htry
    simp only [CoRwlock.readWait, CoRwlock.readTryLock, if_pos hfree, if_true]
    exact htry.immediateWake ht acquired
  · simp only [CoRwlock.readWait, CoRwlock.readTryLock, if_neg hfree, Bool.false_eq_true, if_false]
    exact h.wait ht .readWq acquired (h.held_of_not_readable hfree)

theorem Good.readLock (h : r.Good) (ht : r.call t = none) (hevents : r.lock.waits.events t = [])
    (acquired : V)
    (hp : r.lock.writeOwner = none → r.lock.waits.queue .writeWq = [] →
      r.lock.readOwners < sizeMax) : (r.exec (.readLock t acquired)).Good := by
  have htry := h.readTryLock t hp
  by_cases hfree : r.lock.writeOwner = none ∧ r.lock.waits.queue .writeWq = []
  · simp only [CoRwlock.readTryLock, if_pos hfree] at htry
    simp only [exec, CoRwlock.readLock, CoRwlock.readTryLock, if_pos hfree, if_true]
    exact htry
  · simp only [exec, CoRwlock.readLock, CoRwlock.readTryLock, if_neg hfree, Bool.false_eq_true,
      if_false]
    exact (h.wait ht .readWq (some acquired) (h.held_of_not_readable hfree)).block .readLock
      (Waits.only_wait hevents _)

omit [DecidableEq T] [DecidableEq O] [DecidableEq V] in
theorem Good.writeTryLock (h : r.Good) (t : T) : (r.writes t (r.lock.writeTryLock t)).Good := by
  unfold CoRwlock.writeTryLock
  split
  · rename_i hfree
    have hreaders : r.readers = [] := List.length_eq_zero_iff.mp (h.count.symm.trans hfree.1)
    have hwriters : r.writers = [] := by rw [h.owner, hfree.2]; rfl
    exact {
      sound := h.sound
      owner := by simp [writes, hwriters]
      exclusive := fun _ => hreaders
      count := h.count
      free := fun hnone => (nomatch hnone)
      calls := h.calls.mono fun u c _ hmem => by
        cases c with
        | readLock => exact hmem
        | writeLock => exact List.mem_cons_of_mem t hmem }
  · exact h

theorem Good.writeWait (h : r.Good) (ht : r.call t = none) (acquired : Option V) :
    (r.writes t (r.lock.writeWait t acquired)).Good := by
  have htry := h.writeTryLock t
  by_cases hfree : r.lock.readOwners = 0 ∧ r.lock.writeOwner = none
  · simp only [CoRwlock.writeTryLock, if_pos hfree] at htry
    simp only [CoRwlock.writeWait, CoRwlock.writeTryLock, if_pos hfree, if_true]
    exact htry.immediateWake ht acquired
  · simp only [CoRwlock.writeWait, CoRwlock.writeTryLock, if_neg hfree, Bool.false_eq_true,
      if_false]
    exact h.wait ht .writeWq acquired (hfree ∘ And.symm)

theorem Good.writeLock (h : r.Good) (ht : r.call t = none) (hevents : r.lock.waits.events t = [])
    (acquired : V) : (r.exec (.writeLock t acquired)).Good := by
  have htry := h.writeTryLock t
  by_cases hfree : r.lock.readOwners = 0 ∧ r.lock.writeOwner = none
  · simp only [CoRwlock.writeTryLock, if_pos hfree] at htry
    simp only [exec, CoRwlock.writeLock, CoRwlock.writeTryLock, if_pos hfree, if_true]
    exact htry
  · simp only [exec, CoRwlock.writeLock, CoRwlock.writeTryLock, if_neg hfree, Bool.false_eq_true,
      if_false]
    exact (h.wait ht .writeWq (some acquired) (hfree ∘ And.symm)).block .writeLock
      (Waits.only_wait hevents _)

theorem Good.readUnlock (h : r.Good) (ht : r.call t = none) (hreader : t ∈ r.readers)
    (hp : r.lock.readOwners = 1 → r.lock.waits.queue .writeWq = [] →
      r.lock.waits.queue .readWq = []) : (r.exec (.readUnlock t)).Good := by
  have howner : r.lock.writeOwner = none := by
    by_contra hne
    rw [h.exclusive hne] at hreader
    cases hreader
  have hwriters : r.writers = [] := by
    rw [h.owner, howner]
    rfl
  have hpos : 0 < r.lock.readOwners := h.count ▸ List.length_pos_of_mem hreader
  have hlength : r.lock.readOwners - 1 = (r.readers.erase t).length := by
    rw [List.length_erase_of_mem hreader, h.count]
  have hkept {u : T} {c : RwCall} (hu : r.call u = some c) (hmem : u ∈ r.readers) :
      u ∈ r.readers.erase t := (List.mem_erase_of_ne (ne_of_call ht hu)).mpr hmem
  unfold exec CoRwlock.readUnlock
  dsimp only
  split
  · rename_i hlast
    rw [hwriters, List.append_nil]
    refine ⟨h.sound.exec (.wake1 .writeWq 1), ?_, fun _ => ?_, hlength, fun hnone _ => ?_,
      h.calls.wakeFirst h.sound 1 1 fun u c hu hwoken => ?_⟩
    · cases hqueue : r.lock.waits.queue .writeWq <;> simp [WaitOp.woken, WaitOp.wakes, hqueue]
    · exact List.length_eq_zero_iff.mp (hlength.symm.trans hlast)
    · have hwrite : r.lock.waits.queue .writeWq = [] := by
        cases hqueue : r.lock.waits.queue .writeWq with
        | nil => rfl
        | cons a l => simp [WaitOp.woken, WaitOp.wakes, hqueue] at hnone
      have hread := hp (by omega) hwrite
      simp [CoRwlock.withOp, Waits.exec, Waits.queue_wakeFirst, hwrite, hread]
    · cases c with
      | readLock =>
        rcases hwoken with hmem | ⟨heq, -⟩
        · exact hkept hu hmem
        · cases heq
      | writeLock =>
        rcases hwoken with hmem | ⟨-, hmem⟩
        · have hnil : u ∈ [] := hwriters ▸ (show u ∈ r.writers from hmem)
          exact absurd hnil List.not_mem_nil
        · exact hmem
  · rename_i hmore
    refine ⟨h.sound, h.owner, fun hne => absurd howner hne, hlength,
      fun _ hzero => absurd hzero hmore, h.calls.mono fun u c hu hmem => ?_⟩
    cases c with
    | readLock => exact hkept hu hmem
    | writeLock => exact hmem

theorem Good.writeUnlock (h : r.Good) (ht : r.call t = none) (hwriter : t ∈ r.writers)
    (hp : r.lock.waits.queue .readWq = [] → r.lock.waits.queue .writeWq = []) :
    (r.exec (.writeUnlock t)).Good := by
  have howner : r.lock.writeOwner = some t := by
    rw [h.owner] at hwriter
    simpa using hwriter
  have hwriters : r.writers = [t] := by
    rw [h.owner, howner]
    rfl
  have hreaders : r.readers = [] := h.exclusive (by simp [howner])
  have herase : r.writers.erase t = [] := by simp [hwriters]
  have hnot {u : T} {c : RwCall} (hu : r.call u = some c) : u ∉ r.holders c := by
    cases c with
    | readLock =>
      change u ∉ r.readers
      rw [hreaders]
      exact List.not_mem_nil
    | writeLock =>
      change u ∉ r.writers
      rw [hwriters]
      exact mt List.mem_singleton.mp (ne_of_call ht hu)
  unfold exec CoRwlock.writeUnlock
  dsimp only
  rw [herase, hreaders]
  split
  · rename_i hqueue
    refine ⟨h.sound.exec (.wakeN .readWq 1 sizeMax), rfl, fun hne => absurd rfl hne, ?_,
      fun _ hzero => ?_, h.calls.wakeFirst h.sound 1 sizeMax fun u c hu hwoken => ?_⟩
    · simp [WaitOp.woken, WaitOp.wakes]
    · simp [WaitOp.woken, sizeMax, hqueue] at hzero
    · obtain ⟨heq, hmem⟩ := hwoken.resolve_left (hnot hu)
      cases c with
      | readLock => exact List.mem_append_left _ hmem
      | writeLock => cases heq
  · rename_i hqueue
    have hread := Decidable.not_not.mp hqueue
    have hwrite := hp hread
    have hcount : r.lock.readOwners = 0 := h.count.trans (by simp [hreaders])
    refine ⟨h.sound.exec (.wakeN .writeWq 1 1), ?_, fun hne => absurd rfl hne, hcount,
      fun _ _ => ?_, h.calls.wakeFirst h.sound 1 1 fun u c hu hwoken => ?_⟩
    · simp [WaitOp.woken, WaitOp.wakes, hwrite, CoRwlock.withOp]
    · simp [CoRwlock.withOp, Waits.exec, Waits.queue_wakeFirst, hwrite, hread]
    · obtain ⟨heq, hmem⟩ := hwoken.resolve_left (hnot hu)
      cases c with
      | readLock => cases heq
      | writeLock => exact List.mem_append_left _ hmem

/-- A call returns, and none of its thread's events is left. -/
theorem Good.returns (h : r.Good) (t : T) : (r.exec (.returns t)).Good := by
  refine ⟨h.sound.cancelEvents t, h.owner, h.exclusive, h.count, fun howner hcount => ?_,
    h.calls.leave t⟩
  obtain ⟨hread, hwrite⟩ := h.free howner hcount
  simp [exec, CoRwlock.withOp, Waits.exec, Waits.cancelEvents, hread, hwrite]

theorem Good.exec (h : r.Good) (op : RwOp T O V) (hvalid : r.Valid op) (hp : r.Passes op) :
    (r.exec op).Good := by
  cases op with
  | readLock t acquired => exact h.readLock hvalid.1 hvalid.2.1 acquired hp
  | readTryLock t => exact h.readTryLock t hp
  | readWait t acquired => exact h.readWait hvalid acquired hp
  | readUnlock t => exact h.readUnlock hvalid.1 hvalid.2 hp
  | writeLock t acquired => exact h.writeLock hvalid.1 hvalid.2.1 acquired
  | writeTryLock t => exact h.writeTryLock t
  | writeWait t acquired => exact h.writeWait hvalid acquired
  | writeUnlock t => exact h.writeUnlock hvalid.1 hvalid.2 hp
  | returns t => exact h.returns t
  | other op => exact h.foreign hvalid

theorem Reached.good {vars : V → Int} (h : Reached Passes vars r) : r.Good := by
  induction h with
  | init => exact good_init vars
  | step _ hvalid hp ih => exact ih.exec _ hvalid hp

/-- When a `write_lock` returns, its thread has been told that it has the lock. -/
theorem Good.mem_of_returns (h : r.Good) {op : RwOp T O V} (hvalid : r.Valid op)
    (hreturns : r.WriteLockReturns op t) : t ∈ (r.exec op).writers := by
  rcases hreturns with ⟨acquired, rfl, hcall⟩ | ⟨rfl, hcall⟩
  · unfold RwRun.exec CoRwlock.writeLock CoRwlock.writeTryLock at hcall ⊢
    by_cases hfree : r.lock.readOwners = 0 ∧ r.lock.writeOwner = none
    · simp [if_pos hfree, blocks, writes]
    · simp [if_neg hfree, blocks] at hcall
  · exact (h.calls t .writeLock hcall).woken hvalid.2

/-- As long as the lock is passed on, one writer excludes all others, there is a number for each
reader, no thread waits for a free lock, and who returns from `write_lock` is recorded. -/
theorem Reached.exclusion {vars : V → Int} (h : Reached Passes vars r) :
    (r.writers.length ≤ 1 ∧ (r.writers ≠ [] → r.readers = [])) ∧
      r.lock.readOwners = r.readers.length ∧
      (r.lock.writeOwner = none ∧ r.lock.readOwners = 0 →
        r.lock.waits.queue .readWq = [] ∧ r.lock.waits.queue .writeWq = []) ∧
      ∀ op t, r.Valid op → r.Passes op → r.WriteLockReturns op t →
        (r.exec op).lock.writeOwner = some t := by
  have hgood := h.good
  refine ⟨⟨?_, fun hne => hgood.exclusive fun howner => hne ?_⟩, hgood.count,
    fun hfree => hgood.free hfree.1 hfree.2, fun op t hvalid hp hreturns => ?_⟩
  · rw [hgood.owner]
    cases r.lock.writeOwner <;> simp
  · rw [hgood.owner, howner]
    rfl
  · have hmem := hgood.mem_of_returns hvalid hreturns
    rw [(hgood.exec op hvalid hp).owner] at hmem
    simpa using hmem

/-- A writer leaves the lock to a reader that waits. -/
theorem exclusion_handed : ∃ r : RwRun Nat Unit Unit, r.readers = [1] ∧
    ((r.writers.length ≤ 1 ∧ (r.writers ≠ [] → r.readers = [])) ∧
      r.lock.readOwners = r.readers.length ∧
      (r.lock.writeOwner = none ∧ r.lock.readOwners = 0 →
        r.lock.waits.queue .readWq = [] ∧ r.lock.waits.queue .writeWq = []) ∧
      ∀ op t, r.Valid op → r.Passes op → r.WriteLockReturns op t →
        (r.exec op).lock.writeOwner = some t) := by
  have htaken : Reached Passes (fun _ => 0)
      ((RwRun.init (fun _ => 0) : RwRun Nat Unit Unit).exec (.writeTryLock 0)) :=
    Reached.init.step rfl trivial
  have hwaits := htaken.step (o := .readLock 1 ()) ⟨rfl, rfl, by decide⟩ (by intro h; cases h)
  have hleft := hwaits.step (o := .writeUnlock 0) ⟨rfl, by decide⟩ (fun _ => rfl)
  exact ⟨_, by decide, hleft.exclusion⟩

end RwRun

end Safety

section Defects

/-! ## Where the lock is not passed on -/

namespace RwRun

/-- A writer that leaves the lock to a writer does not record it, and a third thread locks the
lock as well.  And the last reader does not look for readers that a writer, which waits no more,
has kept from the lock. -/
theorem not_exclusion :
    (∃ r : RwRun Nat Unit Unit, Reached (fun _ _ => True) (fun _ => 0) r ∧
      r.Valid (.returns 1) ∧ r.WriteLockReturns (.returns 1) 1 ∧
      (r.exec (.returns 1)).lock.writeOwner = none ∧
      ((r.exec (.returns 1)).exec (.writeTryLock 2)).writers = [2, 1]) ∧
    ∃ r : RwRun Nat Unit Unit, Reached (fun _ _ => True) (fun _ => 0) r ∧
      r.lock.writeOwner = none ∧ r.lock.readOwners = 0 ∧
      r.lock.waits.queue .readWq = [(2, 0)] := by
  have hstart : Reached (fun _ _ => True) (fun _ => 0) (RwRun.init (fun _ => 0)) :=
    Reached.init (T := Nat) (O := Unit) (V := Unit)
  refine ⟨?_, ?_⟩
  · have htaken := hstart.step (o := .writeTryLock 0) rfl trivial
    have hwaits := htaken.step (o := .writeLock 1 ()) ⟨rfl, rfl, by decide⟩ trivial
    have hleft := hwaits.step (o := .writeUnlock 0) ⟨rfl, by decide⟩ trivial
    exact ⟨_, hleft, ⟨by decide, by decide⟩, Or.inr ⟨rfl, by decide⟩, by decide, by decide⟩
  · have htaken := hstart.step (o := .readTryLock 0) rfl trivial
    have hwrites := htaken.step (o := .writeWait 1 none) rfl trivial
    have htimer := hwrites.step (o := .other (.wait 1 (.other ()) none))
      ⟨trivial, by decide, by decide⟩ trivial
    have hreads := htimer.step (o := .readWait 2 none) rfl trivial
    have hfires := hreads.step (o := .other (.wakeAll (.other ()) 1))
      ⟨Int.one_ne_zero, by decide, by decide⟩ trivial
    have hgone := hfires.step (o := .other (.cancel 1)) ⟨trivial, by decide, by decide⟩ trivial
    have hleft := hgone.step (o := .readUnlock 0) ⟨by decide, by decide⟩ trivial
    exact ⟨_, hleft, by decide, by decide, by decide⟩

end RwRun

end Defects

end Nox.Threads
