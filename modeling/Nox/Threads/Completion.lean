import Nox.Threads.Sema

/-!
# Completions

`Co_completion`, with any number of threads and state machines that latch it, release it, wait for
it and block on it.  Nobody passes before a release, nobody sleeps through one, and a thread that
has been released stays so when the completion is latched again.
-/

namespace Nox.Threads

section Model

/-! ## Model -/

/-- `Co_completion`, with the events of the threads. -/
structure CoCompletion (T O V : Type) where
  complete : Bool
  waits : Waits T (LockQueue O) V

namespace CoCompletion

variable {T O V : Type} [DecidableEq T] [DecidableEq O] [DecidableEq V]

def init (vars : V → Int) : CoCompletion T O V := ⟨false, Waits.init vars⟩

def withOp (c : CoCompletion T O V) (op : WaitOp T (LockQueue O) V) : CoCompletion T O V :=
  { c with waits := c.waits.exec op }

/-- `Co_completion::latch` -/
def latch (c : CoCompletion T O V) : CoCompletion T O V := { c with complete := false }

/-- `Co_completion::release` -/
def release (c : CoCompletion T O V) : CoCompletion T O V :=
  if c.complete then c else { c with complete := true }.withOp (.wakeAll .wq 1)

/-- `Co_completion::is_complete` -/
def isComplete (c : CoCompletion T O V) : Bool := c.complete

/-- `Co_completion::wait` -/
def wait (c : CoCompletion T O V) (t : T) (released : Option V) : CoCompletion T O V :=
  if c.complete then c.withOp (.immediateWake t 1 released) else c.withOp (.wait t .wq released)

/-- `Co_completion::block`, until it blocks. -/
def block (c : CoCompletion T O V) (t : T) : CoCompletion T O V := c.wait t none

end CoCompletion

end Model

section Runs

/-! ## Runs -/

/-- What a thread does: `returns` is the end of a `block`, and `other` what it does with other
queues, or the end of a wait that it has begun itself. -/
inductive CompletionOp (T O V : Type)
  | latch
  | release
  | wait (t : T) (released : Option V)
  | block (t : T)
  | returns (t : T)
  | other (op : WaitOp T (LockQueue O) V)

/-- The completion, and how often it has become complete.  For a thread in a `block`, how often it
had before, and whether it was complete. -/
structure CompletionRun (T O V : Type) where
  completion : CoCompletion T O V
  releases : Nat
  call : T → Option (Nat × Bool)

namespace CompletionRun

variable {T O V : Type} [DecidableEq T] [DecidableEq O] [DecidableEq V]

def init (vars : V → Int) : CompletionRun T O V := ⟨CoCompletion.init vars, 0, fun _ => none⟩

/-- What the callers keep to. -/
def Valid (r : CompletionRun T O V) : CompletionOp T O V → Prop
  | .latch | .release => True
  | .wait t _ => r.call t = none
  | .block t => r.call t = none ∧ r.completion.waits.events t = []
  | .returns t => r.call t ≠ none ∧ ∃ e ∈ r.completion.waits.events t, e.wq = none
  | .other op => op.Foreign [.wq] (r.call · = none)

def exec (r : CompletionRun T O V) : CompletionOp T O V → CompletionRun T O V
  | .latch => { r with completion := r.completion.latch }
  | .release => { r with
      completion := r.completion.release
      releases := if r.completion.complete then r.releases else r.releases + 1 }
  | .wait t released => { r with completion := r.completion.wait t released }
  | .block t => { r with
      completion := r.completion.block t
      call := Function.update r.call t (some (r.releases, r.completion.complete)) }
  | .returns t => { r with
      completion := r.completion.withOp (.cancel t)
      call := Function.update r.call t none }
  | .other op => { r with completion := r.completion.withOp op }

inductive Reached (vars : V → Int) : CompletionRun T O V → Prop
  | init : Reached vars (init vars)
  | step {r o} : Reached vars r → r.Valid o → Reached vars (r.exec o)

end CompletionRun

end Runs

section Releases

/-! ## Releases -/

namespace CompletionRun

variable {T O V : Type} [DecidableEq T]

/-- The completion was complete at the call, or has been released since. -/
def Released (r : CompletionRun T O V) (k : Nat × Bool) : Prop := k.2 = true ∨ k.1 < r.releases

/-- What holds between the calls. -/
structure Good (r : CompletionRun T O V) : Prop where
  sound : r.completion.waits.Sound
  complete : r.completion.complete = true → r.completion.waits.queue .wq = []
  calls : r.completion.waits.Blocked (fun _ => .wq) r.call fun _ k => r.Released k
  before : ∀ t k, r.call t = some k → k.1 ≤ r.releases
  asleep : ∀ t k, r.call t = some k → ∀ x ∈ r.completion.waits.queue .wq, x.1 = t →
    ¬r.Released k

omit [DecidableEq T] in
theorem good_init (vars : V → Int) : (init vars : CompletionRun T O V).Good where
  sound := Waits.sound_init vars
  complete := fun _ => rfl
  calls := Waits.blocked_start
  before := fun _ _ h => absurd h.symm (Option.some_ne_none _)
  asleep := fun _ _ h => absurd h.symm (Option.some_ne_none _)

variable [DecidableEq O] [DecidableEq V] {r : CompletionRun T O V} {t : T} {k : Nat × Bool}

theorem Good.foreign (h : r.Good) {op : WaitOp T (LockQueue O) V}
    (hop : op.Foreign [.wq] (r.call · = none)) : (r.exec (.other op)).Good where
  sound := h.sound.exec op
  complete hcomplete := h.sound.queue_exec_nil hop List.mem_cons_self (h.complete hcomplete)
  calls := h.calls.foreign h.sound hop fun _ => List.mem_cons_self
  before := h.before
  asleep t k ht x hx := h.asleep t k ht x (h.sound.mem_of_mem_exec hop List.mem_cons_self hx)

theorem Good.latch (h : r.Good) : (r.exec .latch).Good where
  sound := h.sound
  complete hcomplete := absurd hcomplete Bool.false_ne_true
  calls := h.calls
  before := h.before
  asleep := h.asleep

/-- All that wait are woken. -/
theorem Good.release (h : r.Good) : (r.exec .release).Good := by
  unfold exec CoCompletion.release
  dsimp only
  by_cases hcomplete : r.completion.complete = true
  · rw [if_pos hcomplete, if_pos hcomplete]
    exact h
  · rw [if_neg hcomplete, if_neg hcomplete]
    have hqueue : (r.completion.waits.exec (.wakeAll .wq 1)).queue .wq = [] := by
      rw [Waits.queue_wakeAll, Function.update_self]
    refine ⟨h.sound.exec (.wakeAll .wq 1), fun _ => hqueue, ?_, ?_, ?_⟩
    · refine h.calls.wakeFirst h.sound 1 _ fun t k ht _ => ?_
      exact .inr (Nat.lt_succ_of_le (h.before t k ht))
    · exact fun t k ht => Nat.le_succ_of_le (h.before t k ht)
    · intro t k ht x hx
      exact absurd (hqueue ▸ hx) List.not_mem_nil

/-- A running thread waits. -/
theorem Good.wait (h : r.Good) (ht : r.call t = none) (released : Option V) :
    (r.exec (.wait t released)).Good := by
  unfold exec CoCompletion.wait
  dsimp only
  by_cases hcomplete : r.completion.complete = true
  · rw [if_pos hcomplete]
    have hmem : ∀ x, x ∈ (r.completion.waits.immediateWake t 1 released).queue .wq ↔
        x ∈ r.completion.waits.queue .wq := fun _ => h.sound.mem_queue_immediateWake 1
    refine ⟨h.sound.immediateWake t 1 released, fun hc => ?_, h.calls.immediateWake ht 1 released,
      h.before, fun u k hu x hx => h.asleep u k hu x ((hmem x).mp hx)⟩
    refine List.eq_nil_iff_forall_not_mem.mpr fun x hx => ?_
    have hx' := (hmem x).mp hx
    rw [h.complete hc] at hx'
    exact List.not_mem_nil hx'
  · rw [if_neg hcomplete]
    refine ⟨h.sound.wait t .wq released, fun hc => absurd hc hcomplete,
      h.calls.wait ht .wq released, h.before, fun u k hu x hx hxu => ?_⟩
    rcases h.sound.mem_queue_wait.mp hx with hx | ⟨rfl, -⟩
    · exact h.asleep u k hu x hx hxu
    · rw [show r.call u = none from hxu ▸ ht] at hu
      cases hu

theorem complete_wait (c : CoCompletion T O V) (t : T) (released : Option V) :
    (c.wait t released).complete = c.complete := by
  unfold CoCompletion.wait
  split <;> rfl

/-- What a thread in a `block` has registered. -/
theorem only_wait (hevents : r.completion.waits.events t = []) :
    (r.completion.wait t none).waits.Only t .wq (r.completion.complete = true) := by
  unfold CoCompletion.wait
  by_cases hcomplete : r.completion.complete = true
  · rw [if_pos hcomplete]
    refine ⟨⟨none, t, none⟩, ?_, .inr ⟨rfl, hcomplete⟩⟩
    change (r.completion.waits.immediateWake t 1 none).events t = _
    rw [Waits.events_immediateWake, Function.update_self, hevents]
    rfl
  · rw [if_neg hcomplete]
    exact Waits.only_wait hevents none

theorem Good.block (h : r.Good) (ht : r.call t = none)
    (hevents : r.completion.waits.events t = []) : (r.exec (.block t)).Good := by
  have hwait := h.wait ht none
  have honly := only_wait hevents
  refine ⟨hwait.sound, hwait.complete, ?_, ?_, ?_⟩
  · exact hwait.calls.enter (honly.mono .inl)
  · intro u k hu
    rcases update_call_eq_some.mp hu with ⟨rfl, rfl⟩ | ⟨-, hu⟩
    · exact Nat.le_refl _
    · exact h.before u k hu
  · intro u k hu x hx hxu
    rcases update_call_eq_some.mp hu with ⟨rfl, rfl⟩ | ⟨-, hu⟩
    · rintro (hcomplete | hlt)
      · have hqueue := hwait.complete ((complete_wait r.completion u none).trans hcomplete)
        exact absurd (hqueue ▸ hx) List.not_mem_nil
      · exact Nat.lt_irrefl _ hlt
    · exact hwait.asleep u k hu x hx hxu

theorem Good.returns (h : r.Good) (t : T) : (r.exec (.returns t)).Good := by
  have hcall {u : T} {k : Nat × Bool} (hu : (r.exec (.returns t)).call u = some k) :
      r.call u = some k := (update_call_none_eq_some.mp hu).2
  refine ⟨h.sound.cancelEvents t, fun hcomplete => ?_, h.calls.leave t,
    fun u k hu => h.before u k (hcall hu),
    fun u k hu x hx => h.asleep u k (hcall hu) x (List.mem_of_mem_filter hx)⟩
  refine List.eq_nil_iff_forall_not_mem.mpr fun x hx => ?_
  have hx' : x ∈ r.completion.waits.queue .wq := List.mem_of_mem_filter hx
  rw [h.complete hcomplete] at hx'
  exact List.not_mem_nil hx'

theorem Good.exec (h : r.Good) (o : CompletionOp T O V) (hvalid : r.Valid o) :
    (r.exec o).Good := by
  cases o with
  | latch => exact h.latch
  | release => exact h.release
  | wait t released => exact h.wait hvalid released
  | block t => exact h.block hvalid.1 hvalid.2
  | returns t => exact h.returns t
  | other op => exact h.foreign hvalid

theorem Reached.good {vars : V → Int} (h : Reached vars r) : r.Good := by
  induction h with
  | init => exact good_init vars
  | step _ hvalid ih => exact ih.exec _ hvalid

/-- A completion lets pass. -/
structure Latches (r : CompletionRun T O V) : Prop where
  /-- A `block` can return when the completion was complete at the call or has been released since,
  whatever it is now. -/
  passes : ∀ t k, r.call t = some k → (r.Valid (.returns t) ↔ r.Released k)
  /-- Nobody waits for a completion that is complete. -/
  awake : r.completion.isComplete = true → r.completion.waits.queue .wq = []
  /-- `wait` tells whether it is complete, and `release` tells all that wait. -/
  waited : ∀ t v, (r.exec (.wait t (some v))).completion.waits.vars v =
    if r.completion.isComplete then 1 else 0
  told : ∀ t i e v, (t, i) ∈ r.completion.waits.queue .wq →
    (r.completion.waits.events t)[i]? = some e → e.retvalp = some v →
    (r.exec .release).completion.waits.vars v = 1

omit [DecidableEq T] [DecidableEq O] [DecidableEq V] in
theorem Good.passes (h : r.Good) (ht : r.call t = some k) :
    r.Valid (.returns t) ↔ r.Released k := by
  constructor
  · rintro ⟨-, hwoken⟩
    exact (h.calls t k ht).woken hwoken
  · intro hreleased
    refine ⟨ht ▸ Option.some_ne_none k, (h.calls t k ht).awake h.sound fun x hx hxt => ?_⟩
    exact h.asleep t k ht x hx hxt hreleased

/-- In every run. -/
theorem Reached.latches {vars : V → Int} (h : Reached vars r) : r.Latches where
  passes _ _ ht := h.good.passes ht
  awake := h.good.complete
  waited t v := by
    unfold CompletionRun.exec CoCompletion.wait CoCompletion.isComplete
    dsimp only
    split
    · exact Waits.vars_immediateWake 1 v
    · exact Waits.vars_wait v
  told t i e v hmem he hv := by
    have hcomplete : ¬r.completion.complete = true := by
      intro hcomplete
      rw [h.good.complete hcomplete] at hmem
      exact List.not_mem_nil hmem
    unfold CompletionRun.exec CoCompletion.release
    dsimp only
    rw [if_neg hcomplete]
    refine Waits.vars_wakeFirst ?_ he hv
    rwa [List.take_length]

/-- A thread that has been released may return, though the completion is latched again. -/
theorem latches_again :
    (((((init fun _ => 0 : CompletionRun Nat Unit Unit).exec (.block 1)).exec .release).exec
      .latch)).Latches :=
  Reached.latches
    (((Reached.init.step (o := .block 1) ⟨rfl, rfl⟩).step (o := .release) trivial).step
      (o := .latch) trivial)

end CompletionRun

end Releases

end Nox.Threads
