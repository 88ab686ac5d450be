import Nox.Lib.Runs
import Nox.Components.Resolve

/-!
# After an exception

`resolve()` sets `installing` when it begins and clears it where it returns.  It calls out
in between: to the dependencies of a context, which may name a component no deployer knows,
and to the actions of components.  An exception of theirs leaves both loops and the flag
stays set.  The lists are right then, but `change` takes every later request for one that
is made while `resolve()` runs: it notes that something has changed, and returns.

So a run keeps the kernel fit for service exactly if no exception leaves `resolve()` in it
(`recovered_iff`), and after one no component ever changes its state again (`stuck_run`).
-/

namespace Nox.Components

section Recovered

/-! ## Fit for service -/

variable {α : Type} [DecidableEq α]

/-- A call has brought the component to `INSTALLED`, or runs `resolve()` for it, behind
which `change` throws if the component is not there yet. -/
def Kernel.Answers (s : Kernel α) (c : α) : Prop :=
  s.state c = some .installed ∨ s.pc = .visit .notInstalled

/-- What later calls need of a kernel that no call is under way in. -/
structure Kernel.Recovered (s : Kernel α) : Prop where
  installing : s.installing = false
  listed : s.Listed
  install : ∀ name s', s.install name .installed = some s' → s'.Answers name
  installContext : ∀ c deps s', s.installContext c deps .installed = some s' → s'.Answers c
  change : ∀ c s', s.change c .installed = some s' → s'.Answers c

/-- The step lets an exception out of `resolve()`: of a context that is asked for its
dependencies, or of an action. -/
def Kernel.Throws (s : Kernel α) : Label α → Prop
  | .request _ => False
  | .tick => ∃ source i resolved c, s.pc = .scan source i resolved ∧
      (s.list source)[i]? = some c ∧ s.resolveContext (s.dependencies c) = none
  | .act outcome => outcome = .throws

end Recovered

section Steps

/-! ## Each step -/

variable {α : Type} [DecidableEq α] {s s' : Kernel α}

theorem Kernel.change_answers (hinst : s.installing = false) {c : α}
    (h : s.change c .installed = some s') : s'.Answers c := by
  rcases Kernel.change_cases h with ⟨rfl, hstate⟩ | ⟨htrue, -⟩ | ⟨-, rfl⟩
  · exact .inl hstate
  · rw [hinst] at htrue
    cases htrue
  · exact .inr rfl

theorem Kernel.Inv.recovered (h : s.Inv) (hinst : s.installing = false) : s.Recovered where
  installing := hinst
  listed := h.core.listed
  install := by
    intro name s' hs
    obtain ⟨-, deps, -, hchange⟩ := Kernel.install_cases hs
    exact Kernel.change_answers (s := (s.undeploy name).register name deps) hinst hchange
  installContext := by
    intro c deps s' hs
    exact Kernel.change_answers (s := s.register c deps) hinst (Kernel.installContext_cases hs).2
  change := fun c s' hs => Kernel.change_answers hinst hs

/-- `resolve()` is left with the flag set by an exception, and cleared otherwise. -/
theorem Kernel.Inv.tick_idle (h : s.Inv) (htick : s.tick = some s') :
    s.Throws .tick ∧ s'.pc = .idle ∧ s'.installing = true ∨
      ¬s.Throws .tick ∧ (s'.pc = .idle → s'.installing = false) := by
  have hat := h.pc
  unfold Kernel.tick at htick
  cases hpc : s.pc with
  | idle => rw [hpc] at htick; cases htick
  | acting source c rest => rw [hpc] at htick; cases htick
  | crashed => rw [hpc] at htick; cases htick
  | visit source =>
    rw [hpc] at htick
    refine .inr ⟨fun ⟨_, _, _, _, hscan, _⟩ => ?_, fun hidle => ?_⟩
    · rw [hpc] at hscan
      cases hscan
    · cases hlist : s.perState source with
      | none =>
        simp only [hlist] at htick
        cases htick
        cases hidle
      | some l =>
        simp only [hlist] at htick
        cases htick
        cases hidle
  | batch source rest =>
    rw [hpc] at htick
    refine .inr ⟨fun ⟨_, _, _, _, hscan, _⟩ => ?_, fun hidle => ?_⟩
    · rw [hpc] at hscan
      cases hscan
    · cases rest with
      | nil =>
        cases htick
        cases hidle
      | cons c rest =>
        cases htick
        cases hidle
  | scan source i resolved =>
    rw [hpc] at htick hat
    have hthrows : s.Throws .tick ↔ ∃ c, (s.list source)[i]? = some c ∧
        s.resolveContext (s.dependencies c) = none := by
      constructor
      · rintro ⟨source', i', resolved', c, hscan, hc⟩
        rw [hpc] at hscan
        cases hscan
        exact ⟨c, hc⟩
      · rintro ⟨c, hc⟩
        exact ⟨source, i, resolved, c, hpc, hc⟩
    rw [hthrows]
    have hlist : (s.perState source).getD [] = s.list source := rfl
    cases hc : (s.list source)[i]? with
    | some c =>
      cases hres : s.resolveContext (s.dependencies c) with
      | none =>
        simp only [hlist, hc, hres] at htick
        cases htick
        exact .inl ⟨⟨c, rfl, hres⟩, rfl, hat.1⟩
      | some r =>
        simp only [hlist, hc, hres] at htick
        cases htick
        refine .inr ⟨?_, fun hidle => nomatch hidle⟩
        rintro ⟨d, hd, hnone⟩
        cases hd
        cases hres.symm.trans hnone
    | none =>
      simp only [hlist, hc] at htick
      refine .inr ⟨fun ⟨_, hd, _⟩ => (nomatch hd), fun hidle => ?_⟩
      split at htick
      · cases htick
        unfold Kernel.advance at hidle ⊢
        split at hidle
        · split at hidle
          · cases hidle
          · next hconfigured hchanged => rw [if_pos hconfigured, if_neg hchanged]
        · cases hidle
      · cases htick
        cases hidle

theorem Kernel.Inv.act_idle (h : s.Inv) {outcome : Outcome} (hact : s.act outcome = some s') :
    s.Throws (.act outcome) ∧ s'.pc = .idle ∧ s'.installing = true ∨
      ¬s.Throws (.act outcome) ∧ s'.pc ≠ .idle := by
  have hat := h.pc
  unfold Kernel.act at hact
  split at hact
  · next source c rest hpc =>
    rw [hpc] at hat
    cases outcome with
    | ok =>
      cases hact
      exact .inr ⟨nofun, nofun⟩
    | error =>
      cases hact
      exact .inr ⟨nofun, nofun⟩
    | throws =>
      cases hact
      exact .inl ⟨rfl, rfl, hat.1⟩
  · cases hact

/-- A request is served outside `resolve()`, or is noted for it. -/
theorem Kernel.Inv.request_idle (h : s.Inv) (hfit : s.pc = .idle → s.installing = false)
    (hforeign : s.pc.foreign = true) (r : Request α) (hidle : (s.request r).pc = .idle) :
    (s.request r).installing = false := by
  have hat := h.pc
  have hgrows := (h.core.request r).2
  cases hpc : s.pc with
  | idle =>
    rcases hgrows.pc with ⟨-, hinst⟩ | ⟨hvisit, -⟩
    · rw [hinst]
      exact hfit hpc
    · rw [hvisit] at hidle
      cases hidle
  | acting source c rest =>
    rw [hpc] at hat
    rw [(hgrows.stays hat.1).2, hpc] at hidle
    cases hidle
  | visit source => rw [hpc] at hforeign; cases hforeign
  | scan source i resolved => rw [hpc] at hforeign; cases hforeign
  | batch source rest => rw [hpc] at hforeign; cases hforeign
  | crashed => rw [hpc] at hforeign; cases hforeign

/-- From a kernel fit for service, only an exception leads to one that is not. -/
theorem Kernel.Inv.fit_step (h : s.Inv) (hfit : s.pc = .idle → s.installing = false)
    {l : Label α} (hstep : s.step l = some s') :
    s.Throws l ∧ s'.pc = .idle ∧ s'.installing = true ∨
      ¬s.Throws l ∧ (s'.pc = .idle → s'.installing = false) := by
  cases l with
  | request r =>
    simp only [Kernel.step] at hstep
    split at hstep
    · next hforeign =>
      cases hstep
      exact .inr ⟨id, h.request_idle hfit hforeign r⟩
    · cases hstep
  | tick => exact h.tick_idle hstep
  | act outcome =>
    exact (h.act_idle hstep).imp_right fun hmoves =>
      ⟨hmoves.1, fun hidle => absurd hidle hmoves.2⟩

end Steps

section Runs

/-! ## Each run -/

variable {α : Type} [DecidableEq α]

/-- Whenever no call is under way the kernel is fit for service, iff no step of the run lets
an exception out of `resolve()`. -/
theorem recovered_iff (ls : List (Label α)) :
    (∀ k s, (Kernel.init (α := α)).run (ls.take k) = some s → s.pc = .idle → s.Recovered) ↔
      Lib.Meeting Kernel.step (fun s l => ¬s.Throws l) Kernel.init ls := by
  symm
  refine Lib.meeting_iff (I := Kernel.Inv) (P := fun s => s.pc = .idle → s.Recovered)
    (fun s l s' h hfit hstep => ?_) Kernel.Inv.init (fun _ => Kernel.Inv.init.recovered rfl) ls
  refine ⟨h.step hstep, ?_⟩
  rcases h.fit_step (fun hidle => (hfit hidle).installing) hstep with
    ⟨hthrows, hidle, hinst⟩ | ⟨hnot, hinst⟩
  · refine iff_of_false (not_not_intro hthrows) fun hrecovered => ?_
    rw [(hrecovered hidle).installing] at hinst
    cases hinst
  · exact iff_of_true hnot fun hidle => (h.step hstep).recovered (hinst hidle)

/-- After an exception no call does anything any more, and nothing is installed again. -/
theorem stuck_run {s t : Kernel α} (h : s.Inv) (hidle : s.pc = .idle) (hinst : s.installing = true)
    {ls : List (Label α)} (hrun : s.run ls = some t) :
    t.pc = .idle ∧ t.installing = true ∧ ∀ c st, s.state c = some st → t.state c = some st := by
  induction ls generalizing s with
  | nil =>
    cases hrun
    exact ⟨hidle, hinst, fun _ _ hc => hc⟩
  | cons l ls ih =>
    obtain ⟨s₁, hstep, hrest⟩ := Option.bind_eq_some_iff.mp hrun
    cases l with
    | request r =>
      simp only [Kernel.step, hidle, Pc.foreign, if_true, Option.some.injEq] at hstep
      subst hstep
      have hgrows := (h.core.request r).2
      obtain ⟨hinst₁, hpc₁⟩ := hgrows.stays hinst
      obtain ⟨hidle', hinst', hstays⟩ :=
        ih (h.request (by rw [hidle]; rfl) r) (hpc₁.trans hidle) hinst₁ hrest
      exact ⟨hidle', hinst', fun c st hc => hstays c st (hgrows.state c st hc)⟩
    | tick =>
      simp only [Kernel.step, Kernel.tick, hidle] at hstep
      cases hstep
    | act outcome =>
      simp only [Kernel.step, Kernel.act, hidle] at hstep
      cases hstep

/-- The first component depends on one that no deployer knows. -/
def missingDependency : List (Label Nat) :=
  [.request (.installContext 0 [9] .installed), .tick, .tick]

/-- A second component, which depends on nothing, is accepted and never installed. -/
theorem silent_install :
    ∃ s s', Kernel.init.run missingDependency = some s ∧ s.pc = .idle ∧ ¬s.Recovered ∧
      s.installContext 1 [] .installed = some s' ∧ s'.state 1 = some .notInstalled ∧
      s'.pc = .idle := by
  refine ⟨_, _, rfl, rfl, fun h => ?_, rfl, rfl, rfl⟩
  cases h.installing

end Runs

end Nox.Components
