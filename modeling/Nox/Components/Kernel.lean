import Mathlib.Data.List.Basic

/-!
# The kernel

`Kernel` moves component contexts from state to state.  `resolve` goes through the
states from the lowest on, and in each it asks every context of that state whether
its dependencies are installed, which may bring a context in from a deployer.  The
first state where some are ready is the one where contexts advance: their actions
run, one after the other, and then `resolve` begins anew.

The actions are code of the components.  It may call the kernel again, and so may
other threads while an action blocks: a step is a call, the next step of `resolve`,
or the end of an action.
-/

namespace Nox.Components

section State

/-! ## The state -/

/-- `Component_state` -/
inductive ComponentState
  | notInstalled
  | described
  | loaded
  | factoryInstantiated
  | instantiated
  | configured
  | installed
  | error
  deriving DecidableEq

/-- The number of a state in the enumeration. -/
def ComponentState.rank : ComponentState → Nat
  | .notInstalled => 0
  | .described => 1
  | .loaded => 2
  | .factoryInstantiated => 3
  | .instantiated => 4
  | .configured => 5
  | .installed => 6
  | .error => 7

/-- `Component_state(i + 1)` -/
def ComponentState.next : ComponentState → ComponentState
  | .notInstalled => .described
  | .described => .loaded
  | .loaded => .factoryInstantiated
  | .factoryInstantiated => .instantiated
  | .instantiated => .configured
  | .configured => .installed
  | _ => .error

/-- `Component_context`: every dependency is a `Name_dependency`. -/
structure Context (α : Type) where
  state : ComponentState
  required : ComponentState
  dependencies : List α
  deriving DecidableEq

/-- Where `resolve` is. -/
inductive Pc (α : Type)
  | idle
  -- about to call `resolve(from, from + 1)`
  | visit (source : ComponentState)
  -- `i` contexts of the list have been asked
  | scan (source : ComponentState) (i : Nat) (resolved : List α)
  -- the contexts of `dependencies_resolved` that have not been moved yet
  | batch (source : ComponentState) (rest : List α)
  -- the action of `ctxt` runs
  | acting (source : ComponentState) (ctxt : α) (rest : List α)
  -- a list that does not exist was dereferenced
  | crashed
  deriving DecidableEq

/-- `Kernel` and its deployers, over component names `α`.  `names` are the keys of
`contexts`, and `entered` the states contexts have entered so far. -/
structure Kernel (α : Type) where
  names : List α
  contexts : α → Option (Context α)
  perState : ComponentState → Option (List α)
  uninstalled : List (α × List α)
  changed : Bool
  installing : Bool
  pc : Pc α
  entered : List ComponentState

def Kernel.init {α : Type} : Kernel α where
  names := []
  contexts := fun _ => none
  perState := fun _ => none
  uninstalled := []
  changed := false
  installing := false
  pc := .idle
  entered := []

variable {α : Type}

def Kernel.state (s : Kernel α) (c : α) : Option ComponentState :=
  (s.contexts c).map Context.state

def Kernel.dependencies (s : Kernel α) (c : α) : List α :=
  (s.contexts c).elim [] Context.dependencies

end State

section Requests

/-! ## Install and change -/

variable {α : Type} [DecidableEq α]

/-- `per_state[st]->push_back(c)`, after the list was made if there was none. -/
def Kernel.push (s : Kernel α) (st : ComponentState) (c : α) : Kernel α :=
  { s with
    perState := fun st' =>
      if st' = st then some ((s.perState st).getD [] ++ [c]) else s.perState st'
    entered := st :: s.entered }

/-- A new context, in the list of `NOT_INSTALLED`. -/
def Kernel.register (s : Kernel α) (c : α) (dependencies : List α) : Kernel α :=
  { s with
    names := s.names ++ [c]
    contexts := fun n =>
      if n = c then some ⟨.notInstalled, .notInstalled, dependencies⟩ else s.contexts n }.push
    .notInstalled c

/-- The beginning of `resolve()`, and of each of its rounds. -/
def Kernel.restart (s : Kernel α) : Kernel α :=
  { s with installing := true, changed := false, pc := .visit .notInstalled }

def Kernel.setRequired (s : Kernel α) (c : α) (target : ComponentState) : Kernel α :=
  { s with
    contexts := fun n =>
      if n = c then (s.contexts n).map fun ctxt => { ctxt with required := target }
      else s.contexts n }

/-- `change`: `none` where it throws before it does anything. -/
def Kernel.change (s : Kernel α) (c : α) (target : ComponentState) : Option (Kernel α) :=
  match s.contexts c with
  | none => none
  | some ctxt =>
    if ctxt.state = target then some s
    else if target.rank < ctxt.state.rank then none
    else
      let s' := s.setRequired c target
      if s.installing then some { s' with changed := true } else some s'.restart

/-- `install` of a context. -/
def Kernel.installContext (s : Kernel α) (c : α) (dependencies : List α)
    (target : ComponentState) : Option (Kernel α) :=
  match s.contexts c with
  | some _ => none
  | none => (s.register c dependencies).change c target

/-- `deploy`, by the first deployer that knows the name. -/
def Kernel.deploy (s : Kernel α) (name : α) : Option (Kernel α) :=
  match s.uninstalled.find? (·.1 = name) with
  | none => none
  | some d =>
    { s with uninstalled := s.uninstalled.eraseP (·.1 = name) }.installContext
      name d.2 .notInstalled

/-- `install` of a name. -/
def Kernel.install (s : Kernel α) (name : α) (target : ComponentState) : Option (Kernel α) :=
  match s.contexts name with
  | some _ => none
  | none => (s.deploy name).bind (·.change name target)

end Requests

section Resolution

/-! ## Resolve -/

variable {α : Type} [DecidableEq α]

/-- `Name_dependency::resolve` -/
def Kernel.resolveDependency (s : Kernel α) (name : α) : Option (Kernel α × Bool) :=
  match s.contexts name with
  | none => (s.install name .installed).map (·, false)
  | some ctxt => some (s, ctxt.state = .installed)

/-- `Component_context::resolve` -/
def Kernel.resolveContext (s : Kernel α) : List α → Option (Kernel α × Bool)
  | [] => some (s, true)
  | d :: ds =>
    match s.resolveDependency d with
    | none => none
    | some (s', true) => s'.resolveContext ds
    | some (s', false) => some (s', false)

/-- The loop over the states goes on behind `source`. -/
def Kernel.advance (s : Kernel α) (source : ComponentState) : Kernel α :=
  if source = .configured then
    if s.changed then s.restart else { s with installing := false, pc := .idle }
  else { s with pc := .visit source.next }

/-- The next step of `resolve` in the kernel's own code. -/
def Kernel.tick (s : Kernel α) : Option (Kernel α) :=
  match s.pc with
  | .visit source =>
    match s.perState source with
    | none => some { s with pc := .crashed }
    | some _ => some { s with pc := .scan source 0 [] }
  | .scan source i resolved =>
    match ((s.perState source).getD [])[i]? with
    | some c =>
      match s.resolveContext (s.dependencies c) with
      -- the exception leaves `installing` set
      | none => some { s with pc := .idle }
      | some (s', ok) =>
        some { s' with pc := .scan source (i + 1) (if ok then resolved ++ [c] else resolved) }
    | none =>
      if resolved = [] then some (s.advance source)
      else some { s with pc := .batch source resolved }
  | .batch _ [] => some s.restart
  | .batch source (c :: rest) => some { s with pc := .acting source c rest }
  | _ => none

/-- How an action ends: in the state it is for, in `ERROR`, or with an exception. -/
inductive Outcome
  | ok
  | error
  | throws
  deriving DecidableEq

def Kernel.setState (s : Kernel α) (c : α) (st : ComponentState) : Kernel α :=
  { s with
    contexts := fun n =>
      if n = c then (s.contexts n).map fun ctxt => { ctxt with state := st } else s.contexts n }

/-- `to_install->erase` -/
def Kernel.erase (s : Kernel α) (st : ComponentState) (c : α) : Kernel α :=
  { s with
    perState := fun st' =>
      if st' = st then (s.perState st).map fun l => l.erase c else s.perState st' }

/-- A context leaves the list of `source` for the one of its new state. -/
def Kernel.move (s : Kernel α) (source : ComponentState) (c : α) (st : ComponentState) :
    Kernel α :=
  ((s.setState c st).erase source c).push st c

/-- The action that runs ends. -/
def Kernel.act (s : Kernel α) (outcome : Outcome) : Option (Kernel α) :=
  match s.pc with
  | .acting source c rest =>
    match outcome with
    | .ok => some { s.move source c source.next with pc := .batch source rest }
    | .error => some { s.move source c .error with pc := .batch source rest }
    | .throws => some { s with pc := .idle }
  | _ => none

end Resolution

section Runs

/-! ## Runs -/

variable {α : Type}

/-- What is asked of the kernel, and of its deployers. -/
inductive Request (α : Type)
  | installContext (c : α) (dependencies : List α) (target : ComponentState)
  | install (name : α) (target : ComponentState)
  | change (c : α) (target : ComponentState)
  | attachDeployer (known : List (α × List α))

inductive Label (α : Type)
  | request (r : Request α)
  | tick
  | act (outcome : Outcome)

variable [DecidableEq α]

/-- A request that throws changes nothing. -/
def Kernel.request (s : Kernel α) : Request α → Kernel α
  | .installContext c dependencies target => (s.installContext c dependencies target).getD s
  | .install name target => (s.install name target).getD s
  | .change c target => (s.change c target).getD s
  | .attachDeployer known => { s with uninstalled := s.uninstalled ++ known }

/-- Code other than the kernel's runs. -/
def Pc.foreign : Pc α → Bool
  | .idle => true
  | .acting _ _ _ => true
  | _ => false

def Kernel.step (s : Kernel α) : Label α → Option (Kernel α)
  | .request r => if s.pc.foreign then some (s.request r) else none
  | .tick => s.tick
  | .act outcome => s.act outcome

def Kernel.run (s : Kernel α) (ls : List (Label α)) : Option (Kernel α) :=
  ls.foldlM Kernel.step s

/-- `resolve(from, from + 1)` is called for a state that some context has entered. -/
def Kernel.Meets (s : Kernel α) (l : Label α) : Prop :=
  ∀ source, l = .tick → s.pc = .visit source → source ∈ s.entered

/-- Every step of the run meets the condition. -/
def Kernel.Admissible : Kernel α → List (Label α) → Prop
  | _, [] => True
  | s, l :: ls => s.Meets l ∧ ∀ s', s.step l = some s' → Kernel.Admissible s' ls

end Runs

end Nox.Components
