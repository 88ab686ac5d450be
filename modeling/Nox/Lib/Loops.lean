import Mathlib.Data.List.Basic

/-!
# Loops that end

A pass of a loop goes on with another state, ends the loop with a result, or throws.  A loop
carries a measure of its state that every pass makes smaller, so it is a total function
(`run`).  What holds when it begins and is kept by every pass holds in each state in which a
pass begins (`states_invariant`).
-/

namespace Nox.Lib

/-- A pass that goes on makes the measure smaller. -/
structure Loop (σ ε ρ : Type) where
  pass : σ → Except ε (σ ⊕ ρ)
  measure : σ → Nat
  decreases : ∀ s s', pass s = .ok (.inl s') → measure s' < measure s

namespace Loop

variable {σ ε ρ : Type}

section Definitions

/-! ## Running -/

def run (L : Loop σ ε ρ) (s : σ) : Except ε ρ :=
  match _h : L.pass s with
  | .error e => .error e
  | .ok (.inl s') => L.run s'
  | .ok (.inr r) => .ok r
termination_by L.measure s
decreasing_by exact L.decreases s s' _h

/-- The states in which a pass begins, in turn. -/
def states (L : Loop σ ε ρ) (s : σ) : List σ :=
  match _h : L.pass s with
  | .error _ => [s]
  | .ok (.inl s') => s :: L.states s'
  | .ok (.inr _) => [s]
termination_by L.measure s
decreasing_by exact L.decreases s s' _h

end Definitions

variable {L : Loop σ ε ρ} {s s' : σ}

section Passes

/-! ## One pass -/

theorem run_error {e : ε} (h : L.pass s = .error e) : L.run s = .error e := by
  rw [run]
  split <;> simp_all

theorem run_next (h : L.pass s = .ok (.inl s')) : L.run s = L.run s' := by
  rw [run]
  split <;> simp_all

theorem run_done {r : ρ} (h : L.pass s = .ok (.inr r)) : L.run s = .ok r := by
  rw [run]
  split <;> simp_all

theorem states_next (h : L.pass s = .ok (.inl s')) : L.states s = s :: L.states s' := by
  rw [states]
  split <;> simp_all

theorem states_stop (h : ∀ s', L.pass s ≠ .ok (.inl s')) : L.states s = [s] := by
  rw [states]
  split <;> simp_all

end Passes

section Runs

/-! ## All passes -/

/-- Induction on the passes of a loop. -/
theorem pass_induction {motive : σ → Prop}
    (next : ∀ s s', L.pass s = .ok (.inl s') → motive s' → motive s)
    (stop : ∀ s, (∀ s', L.pass s ≠ .ok (.inl s')) → motive s) (s : σ) : motive s :=
  match h : L.pass s with
  | .ok (.inl s') => next s s' h (pass_induction next stop s')
  | .ok (.inr r) => stop s fun s' hs' => by rw [h] at hs'; cases hs'
  | .error e => stop s fun s' hs' => by rw [h] at hs'; cases hs'
termination_by L.measure s
decreasing_by exact L.decreases s s' h

theorem states_invariant {P : σ → Prop} (hs : P s)
    (hpass : ∀ s s', P s → L.pass s = .ok (.inl s') → P s') : ∀ t ∈ L.states s, P t := by
  induction s using pass_induction (L := L) with
  | next s s' h ih =>
    rw [states_next h, List.forall_mem_cons]
    exact ⟨hs, ih (hpass s s' hs h)⟩
  | stop s h =>
    rw [states_stop h]
    exact List.forall_mem_singleton.mpr hs

/-- A loop comes to a pass after which none follows. -/
theorem ends (L : Loop σ ε ρ) (s : σ) :
    ∃ t ∈ L.states s, ∀ t', L.pass t ≠ .ok (.inl t') := by
  induction s using pass_induction (L := L) with
  | next s s' h ih =>
    obtain ⟨t, ht, hstop⟩ := ih
    exact ⟨t, states_next h ▸ List.mem_cons_of_mem s ht, hstop⟩
  | stop s h => exact ⟨s, states_stop h ▸ List.mem_singleton_self s, h⟩

end Runs

end Loop

end Nox.Lib
