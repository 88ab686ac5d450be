import Nox.Components.Termination

/-!
# Components are installed in order

A component is installed when all it depends on is, and `resolve` returns when no
context is left that could advance.  It asks for the contexts of a state whether or
not any context was ever in it, and then there is no list to go through: it has to
come to a state only after some context has.
-/

namespace Nox.Components

variable {α : Type} [DecidableEq α]

section Order

/-! ## What a step does to the states -/

omit [DecidableEq α] in
theorem Kernel.Grows.installed {s s' : Kernel α} (h : s.Grows s') {c : α}
    (hc : s'.state c = some .installed) : s.state c = some .installed := by
  by_cases hnone : s.contexts c = none
  · have hfresh := h.fresh c _ hnone hc
    cases hfresh
  · obtain ⟨st, hst⟩ := Kernel.exists_state hnone
    rw [h.state c st hst] at hc
    rw [hst, hc]

theorem Kernel.Inv.tick_grows {s s' : Kernel α} (h : s.Inv) (htick : s.tick = some s') (c : α) :
    s'.state c = some .installed ↔ s.state c = some .installed := by
  cases Kernel.tick_cases htick with
  | ask source i resolved n s₁ ok hpc hn hres =>
    have hat := h.pc
    rw [hpc] at hat
    obtain ⟨-, hgrows, -⟩ := h.core.resolveContext hat.1 hres
    exact ⟨hgrows.installed, hgrows.state c _⟩
  | advance source i hpc hend =>
    unfold Kernel.advance
    split
    · split <;> exact Iff.rfl
    · exact Iff.rfl
  | _ => exact Iff.rfl

/-- When a component becomes installed, what it depends on is. -/
theorem Kernel.Inv.ordered {s s' : Kernel α} (h : s.Inv) {l : Label α}
    (hstep : s.step l = some s') {c : α} (hbefore : s.state c ≠ some .installed)
    (hafter : s'.state c = some .installed) : s.Ready c := by
  cases l with
  | request r =>
    simp only [Kernel.step] at hstep
    split at hstep
    · cases hstep
      exact absurd ((h.core.request r).2.installed hafter) hbefore
    · cases hstep
  | tick => exact absurd ((h.tick_grows hstep c).mp hafter) hbefore
  | act outcome =>
    have hat := h.pc
    cases Kernel.act_cases hstep with
    | moves source n rest st hpc hst =>
      rw [hpc] at hat
      obtain ⟨-, -, -, hmoving⟩ := hat
      by_cases hc : c = n
      · rw [hc]
        exact (hmoving n List.mem_cons_self).2
      · refine absurd ?_ hbefore
        rw [← hafter]
        exact ((Kernel.state_move s source st n c).trans (if_neg hc)).symm
    | throws source n rest hpc => exact absurd hafter hbefore

/-- What is installed stays installed. -/
theorem Kernel.Inv.installed_stays {s s' : Kernel α} (h : s.Inv) {l : Label α}
    (hstep : s.step l = some s') {c : α} (hc : s.state c = some .installed) :
    s'.state c = some .installed := by
  cases l with
  | request r =>
    simp only [Kernel.step] at hstep
    split at hstep
    · cases hstep
      exact (h.core.request r).2.state c _ hc
    · cases hstep
  | tick => exact (h.tick_grows hstep c).mpr hc
  | act outcome =>
    have hat := h.pc
    cases Kernel.act_cases hstep with
    | moves source n rest st hpc hst =>
      rw [hpc] at hat
      obtain ⟨-, hsource, -, hmoving⟩ := hat
      have hne : c ≠ n := by
        rintro rfl
        rw [(hmoving c List.mem_cons_self).1] at hc
        cases hc
        exact absurd hsource (Nat.lt_irrefl 6)
      exact ((Kernel.state_move s source st n c).trans (if_neg hne)).trans hc
    | throws source n rest hpc => exact hc

end Order

section Return

/-! ## The end of `resolve` -/

/-- No context can advance. -/
def Kernel.Settled (s : Kernel α) : Prop :=
  ∀ c st, s.state c = some st → st.rank < ComponentState.installed.rank →
    ∃ d ∈ s.dependencies c, s.state d ≠ some .installed

/-- `resolve` returns when it has asked all contexts in vain. -/
theorem Kernel.Inv.returns {s s' : Kernel α} (h : s.Inv) {l : Label α}
    (hstep : s.step l = some s') (hbefore : s.pc ≠ .idle) (hafter : s'.pc = .idle)
    (hinst : s'.installing = false) : s'.Settled := by
  have hat := h.pc
  cases l with
  | request r =>
    simp only [Kernel.step] at hstep
    split at hstep
    · next hforeign =>
      cases hstep
      cases hpc : s.pc with
      | acting source c rest =>
        rw [hpc] at hat
        rw [((h.core.request r).2.stays hat.1).1] at hinst
        cases hinst
      | idle => exact absurd hpc hbefore
      | _ => rw [hpc] at hforeign; cases hforeign
    · cases hstep
  | tick =>
    cases Kernel.tick_cases hstep with
    | throws source i resolved hpc =>
      rw [hpc] at hat
      exact absurd (hat.1.symm.trans hinst) Bool.noConfusion
    | advance source i hpc hend =>
      have hbelow := h.settled hpc hend
      unfold Kernel.advance at hafter ⊢
      split at hafter
      · next hconfigured =>
        subst hconfigured
        rw [if_pos rfl]
        split at hafter
        · cases hafter
        · next hchanged =>
          rw [if_neg hchanged]
          intro c st hc hlt
          have hready := hbelow (Bool.eq_false_iff.mpr hchanged) c st hc hlt
          simp only [Kernel.Ready, not_forall] at hready
          obtain ⟨d, hd, hne⟩ := hready
          exact ⟨d, hd, hne⟩
      · cases hafter
    | _ => cases hafter
  | act outcome =>
    cases Kernel.act_cases hstep with
    | moves source c rest st hpc hst => cases hafter
    | throws source c rest hpc =>
      rw [hpc] at hat
      exact absurd (hat.1.symm.trans hinst) Bool.noConfusion

/-- While `resolve` runs, the kernel goes on or an action does. -/
theorem Kernel.progress {s : Kernel α} (hidle : s.pc ≠ .idle) (halive : s.pc ≠ .crashed) :
    (∃ s', s.tick = some s') ∨ ∀ outcome, ∃ s', s.act outcome = some s' := by
  cases hpc : s.pc with
  | idle => exact absurd hpc hidle
  | crashed => exact absurd hpc halive
  | visit source =>
    left
    unfold Kernel.tick
    rw [hpc]
    cases hlist : s.perState source with
    | none => exact ⟨_, by simp only [hlist]; rfl⟩
    | some l => exact ⟨_, by simp only [hlist]; rfl⟩
  | scan source i resolved =>
    left
    unfold Kernel.tick
    rw [hpc]
    cases hc : ((s.perState source).getD [])[i]? with
    | none =>
      cases resolved with
      | nil => exact ⟨_, by simp only [hc]; rfl⟩
      | cons c rest => exact ⟨_, by simp only [hc]; rfl⟩
    | some c =>
      cases hres : s.resolveContext (s.dependencies c) with
      | none => exact ⟨_, by simp only [hc, hres]; rfl⟩
      | some r => exact ⟨_, by simp only [hc, hres]; rfl⟩
  | batch source rest =>
    left
    unfold Kernel.tick
    rw [hpc]
    cases rest with
    | nil => exact ⟨_, rfl⟩
    | cons c rest => exact ⟨_, rfl⟩
  | acting source c rest =>
    right
    intro outcome
    unfold Kernel.act
    rw [hpc]
    cases outcome with
    | ok => exact ⟨_, rfl⟩
    | error => exact ⟨_, rfl⟩
    | throws => exact ⟨_, rfl⟩

end Return

section Lists

/-! ## The lists `resolve` goes through -/

theorem Kernel.Inv.alive {s s' : Kernel α} (h : s.Inv) (halive : s.pc ≠ .crashed) {l : Label α}
    (hmeets : s.Meets l) (hstep : s.step l = some s') : s'.pc ≠ .crashed := by
  cases l with
  | request r =>
    simp only [Kernel.step] at hstep
    split at hstep
    · cases hstep
      rcases (h.core.request r).2.pc with ⟨hpc, -⟩ | ⟨hpc, -⟩
      · rw [hpc]
        exact halive
      · rw [hpc]
        rintro ⟨⟩
    · cases hstep
  | tick =>
    cases Kernel.tick_cases hstep with
    | absent source hpc hlist =>
      exact absurd hlist ((h.core.entered_iff source).mp (hmeets source rfl hpc))
    | advance source i hpc hend =>
      unfold Kernel.advance
      split
      · split <;> rintro ⟨⟩
      · rintro ⟨⟩
    | _ => rintro ⟨⟩
  | act outcome =>
    cases Kernel.act_cases hstep with
    | moves source c rest st hpc hst => rintro ⟨⟩
    | throws source c rest hpc => rintro ⟨⟩

/-- Where the condition fails, `resolve` goes through a list that does not exist. -/
theorem Kernel.Inv.crashes {s : Kernel α} (h : s.Inv) {l : Label α} (hmeets : ¬s.Meets l) :
    ∃ s', s.step l = some s' ∧ s'.pc = .crashed := by
  simp only [Kernel.Meets, not_forall] at hmeets
  obtain ⟨source, rfl, hpc, hnot⟩ := hmeets
  rw [h.core.entered_iff, not_not] at hnot
  refine ⟨{ s with pc := .crashed }, ?_, rfl⟩
  show s.tick = _
  unfold Kernel.tick
  rw [hpc]
  simp only [hnot]

omit [DecidableEq α] in
/-- Once a component has come to `CONFIGURED`, every step meets the condition. -/
theorem Kernel.Inv.meets {s : Kernel α} (h : s.Inv) (hentered : .configured ∈ s.entered)
    (l : Label α) : s.Meets l := by
  intro source _ hpc
  have hat := h.pc
  rw [hpc] at hat
  apply h.core.entered_below .configured hentered nofun
  exact Nat.le_of_lt_succ hat.2.1

end Lists

section Main

/-! ## Every run -/

/-- What the kernel promises of a state and of the steps it can take. -/
structure Kernel.Installs (s : Kernel α) : Prop where
  listed : s.Listed
  exists_list : s.pc ≠ .crashed
  ordered : ∀ l s' c, s.step l = some s' → s.state c ≠ some .installed →
    s'.state c = some .installed → s.Ready c
  returns : ∀ l s', s.step l = some s' → s.pc ≠ .idle → s'.pc = .idle →
    s'.installing = false → s'.Settled
  goes_on : s.pc ≠ .idle →
    (∃ s', s.tick = some s') ∨ ∀ outcome, ∃ s', s.act outcome = some s'

theorem Kernel.Inv.alive_run {s s' : Kernel α} (h : s.Inv) (halive : s.pc ≠ .crashed)
    {ls : List (Label α)} (hadm : s.Admissible ls) (hrun : s.run ls = some s') :
    s'.pc ≠ .crashed := by
  induction ls generalizing s with
  | nil =>
    cases hrun
    exact halive
  | cons l ls ih =>
    obtain ⟨s₁, hstep, hrest⟩ := Option.bind_eq_some_iff.mp hrun
    exact ih (h.step hstep) (h.alive halive hadm.1 hstep) (hadm.2 s₁ hstep) hrest

/-- Every state a run reaches whose steps all meet the condition, and the length of the
run. -/
theorem run_installs {ls : List (Label α)} {s : Kernel α}
    (hadm : Kernel.init.Admissible ls) (hrun : Kernel.init.run ls = some s) :
    s.Installs ∧ ls.length ≤ bound (requests ls) := by
  have hinv := Kernel.Inv.init.run hrun
  have halive := Kernel.Inv.init.alive_run nofun hadm hrun
  refine ⟨?_, Kernel.length_run_le hrun⟩
  exact
    { listed := hinv.core.listed
      exists_list := halive
      ordered := fun l s' c hstep hbefore hafter => hinv.ordered hstep hbefore hafter
      returns := fun l s' hstep hbefore hafter hinst => hinv.returns hstep hbefore hafter hinst
      goes_on := fun hidle => Kernel.progress hidle halive }

/-- The condition can be checked. -/
instance Kernel.decidableMeets (s : Kernel α) (l : Label α) : Decidable (s.Meets l) :=
  match l, hpc : s.pc with
  | .tick, .visit source =>
    decidable_of_iff (source ∈ s.entered)
      ⟨fun h _ _ hvisit => by rw [hpc] at hvisit; cases hvisit; exact h, fun h => h _ rfl hpc⟩
  | .tick, .idle => isTrue fun _ _ hvisit => by rw [hpc] at hvisit; cases hvisit
  | .tick, .scan _ _ _ => isTrue fun _ _ hvisit => by rw [hpc] at hvisit; cases hvisit
  | .tick, .batch _ _ => isTrue fun _ _ hvisit => by rw [hpc] at hvisit; cases hvisit
  | .tick, .acting _ _ _ => isTrue fun _ _ hvisit => by rw [hpc] at hvisit; cases hvisit
  | .tick, .crashed => isTrue fun _ _ hvisit => by rw [hpc] at hvisit; cases hvisit
  | .request _, _ => isTrue nofun
  | .act _, _ => isTrue nofun

instance Kernel.decidableAdmissible :
    (s : Kernel α) → (ls : List (Label α)) → Decidable (s.Admissible ls)
  | _, [] => isTrue trivial
  | s, l :: ls =>
    match hstep : s.step l with
    | none =>
      decidable_of_iff (s.Meets l)
        ⟨fun h => ⟨h, fun _ hs => by rw [hstep] at hs; cases hs⟩, fun h => h.1⟩
    | some s' =>
      have := Kernel.decidableAdmissible s' ls
      decidable_of_iff (s.Meets l ∧ s'.Admissible ls)
        ⟨fun h => ⟨h.1, fun _ hs => by rw [hstep] at hs; cases hs; exact h.2⟩,
          fun h => ⟨h.1, h.2 s' hstep⟩⟩

/-- So many steps before each action, and every action ends well. -/
def actAfter (ticks : List Nat) : List (Label α) :=
  ticks.flatMap fun n => List.replicate n .tick ++ [.act .ok]

/-- A component that depends on two others, which a deployer knows; the first of them depends on
the second. -/
def installThree : List (Label Nat) :=
  [.request (.attachDeployer [(1, [2]), (2, [])]),
    .request (.installContext 0 [1, 2] .installed)] ++
    actAfter [6, 9, 11, 13, 15, 17, 6, 8, 10, 12, 14, 16, 5, 7, 9, 11, 13, 15] ++
    List.replicate 13 .tick

theorem run_installs_three : ∃ s, Kernel.init.run installThree = some s ∧
    [s.state 0, s.state 1, s.state 2] = List.replicate 3 (some .installed) ∧
    s.Installs ∧ installThree.length ≤ bound (requests installThree) := by
  have hadm : Kernel.init.Admissible installThree := by decide +kernel
  have hstates : (Kernel.init.run installThree).map (fun s => [s.state 0, s.state 1, s.state 2]) =
      some (List.replicate 3 (some .installed)) := by
    decide +kernel
  obtain ⟨s, hs, hinstalled⟩ := Option.map_eq_some_iff.mp hstates
  exact ⟨s, hs, hinstalled, run_installs hadm hs⟩

/-- The first component there is depends on itself. -/
theorem self_dependent : ∃ s, Kernel.init.run
    [.request (.installContext 0 [0] .installed), .tick, .tick, .tick, .tick] = some s ∧
      ¬s.Installs := by
  obtain ⟨s, hs⟩ : ∃ s, Kernel.init.run
      [.request (.installContext 0 [0] .installed), .tick, .tick, .tick, .tick] = some s :=
    ⟨_, rfl⟩
  refine ⟨s, hs, fun h => h.exists_list ?_⟩
  cases hs
  rfl

end Main

end Nox.Components
