import Mathlib.Logic.Basic

/-!
# Runs under a condition

A system takes the steps its step function allows.  `Reaches` is what it reaches by steps
that all meet a condition on the state before them; an invariant may use that condition
(`Reaches.invariant`).  Without a condition it is what the system reaches at all.  Where the
condition is exactly what one step needs to keep a property, the runs that meet it
throughout are exactly those in which the property never fails (`meeting_iff`).
-/

namespace Nox.Lib

variable {σ α : Type*}

section Definitions

variable (step : σ → α → Option σ) (cond : σ → α → Prop) (init : σ)

/-- What is reached by steps that meet the condition. -/
inductive Reaches : σ → Prop
  | init : Reaches init
  | step {s s' : σ} {a : α} : Reaches s → cond s a → step s a = some s' → Reaches s'

/-- The steps one after another, if they can be taken and meet the condition. -/
def runs [∀ s a, Decidable (cond s a)] (s : σ) : List α → Option σ
  | [] => some s
  | a :: as =>
    if cond s a then
      match step s a with
      | some s' => runs s' as
      | none => none
    else none

/-- Every step of the run meets the condition, for as long as the steps can be taken. -/
def Meeting : σ → List α → Prop
  | _, [] => True
  | s, a :: as => ∀ s', step s a = some s' → cond s a ∧ Meeting s' as

end Definitions

variable {step : σ → α → Option σ} {cond : σ → α → Prop} {init s s' : σ}

/-- What holds at first and is kept by every step that meets the condition. -/
theorem Reaches.invariant {P : σ → Prop} (h : Reaches step cond init s) (hinit : P init)
    (hstep : ∀ s a s', P s → cond s a → step s a = some s' → P s') : P s := by
  induction h with
  | init => exact hinit
  | step _ hcond hs ih => exact hstep _ _ _ ih hcond hs

theorem Reaches.runs [∀ s a, Decidable (cond s a)] {as : List α} (h : Reaches step cond init s)
    (hrun : runs step cond s as = some s') : Reaches step cond init s' := by
  induction as generalizing s with
  | nil =>
    cases hrun
    exact h
  | cons a as ih =>
    rw [Lib.runs] at hrun
    split at hrun
    · next hcond =>
      split at hrun
      · next hs => exact ih (h.step hcond hs) hrun
      · cases hrun
    · cases hrun

/-- `I` is kept by every step, and `P` by those that meet the condition and by no others. -/
theorem meeting_iff {I P : σ → Prop}
    (hstep : ∀ s a s', I s → P s → step s a = some s' → I s' ∧ (cond s a ↔ P s'))
    (hI : I s) (hP : P s) (as : List α) :
    Meeting step cond s as ↔ ∀ k s', (as.take k).foldlM step s = some s' → P s' := by
  induction as generalizing s with
  | nil =>
    refine iff_of_true trivial fun k s' hs => ?_
    rw [List.take_nil] at hs
    cases hs
    exact hP
  | cons a as ih =>
    constructor
    · intro h k s' hs
      cases k with
      | zero =>
        cases hs
        exact hP
      | succ k =>
        rw [List.take_succ_cons, List.foldlM_cons] at hs
        obtain ⟨s₁, hs₁, hrest⟩ := Option.bind_eq_some_iff.mp hs
        obtain ⟨hcond, hmeeting⟩ := h s₁ hs₁
        obtain ⟨hI₁, hiff⟩ := hstep s a s₁ hI hP hs₁
        exact (ih hI₁ (hiff.mp hcond)).mp hmeeting k s' hrest
    · intro h s₁ hs₁
      obtain ⟨hI₁, hiff⟩ := hstep s a s₁ hI hP hs₁
      have hrun : ∀ k, ((a :: as).take (k + 1)).foldlM step s = (as.take k).foldlM step s₁ := by
        intro k
        rw [List.take_succ_cons, List.foldlM_cons, hs₁]
        rfl
      have hP₁ : P s₁ := h 1 s₁ (hrun 0)
      exact ⟨hiff.mpr hP₁, (ih hI₁ hP₁).mpr fun k s' hs => h (k + 1) s' ((hrun k).trans hs)⟩

end Nox.Lib
