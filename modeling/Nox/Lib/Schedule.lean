import Mathlib.Data.Prod.Lex

/-!
# Schedules

What a timer service is for, told as a history: timers are posted with a due
time, moved, cancelled and run, and `due` is the time a timer is due after a
history.  A history is lawful when only timers that are due are run, and within
one batch in the order of their due times and generations.  Then no timer runs
twice (`Lawful.once`) or after it was cancelled (`Lawful.cancelled`).

Histories stand with the newest act first.
-/

namespace Nox.Schedule

/-- An act on the timer of number `n`. -/
inductive Act (τ : Type)
  | post (n : Nat) (time : τ) (gen : Nat)
  | cancel (n : Nat)
  | move (n : Nat) (f : τ → τ)
  -- in the batch of this number, at the time `now`
  | run (n : Nat) (batch : Nat) (now time : τ) (gen : Nat)

section Due

variable {τ : Type}

/-- When the timer `n` is due, if it is to be run at all. -/
def due : List (Act τ) → Nat → Option τ
  | [], _ => none
  | .post m t _ :: h, n => if n = m then some t else due h n
  | .cancel m :: h, n => if n = m then none else due h n
  | .move m f :: h, n => if n = m then (due h n).map f else due h n
  | .run m _ _ _ _ :: h, n => if n = m then none else due h n

/-- The timers posted. -/
def posted (h : List (Act τ)) : List Nat :=
  h.filterMap fun
    | .post n _ _ => some n
    | _ => none

/-- The timers run. -/
def runs (h : List (Act τ)) : List Nat :=
  h.filterMap fun
    | .run n _ _ _ _ => some n
    | _ => none

theorem posted_append (h₂ h₁ : List (Act τ)) : posted (h₂ ++ h₁) = posted h₂ ++ posted h₁ :=
  List.filterMap_append

theorem mem_posted_of_due {h : List (Act τ)} {n : Nat} {t : τ} (hd : due h n = some t) :
    n ∈ posted h := by
  induction h generalizing t with
  | nil => cases hd
  | cons a h ih =>
    cases a with
    | post m t' g =>
      by_cases hn : n = m
      · subst hn
        exact List.mem_cons_self
      · simp only [due, if_neg hn] at hd
        exact List.mem_cons_of_mem _ (ih hd)
    | cancel m =>
      simp only [due] at hd
      split at hd
      · cases hd
      · exact ih hd
    | move m f =>
      simp only [due] at hd
      split at hd
      · obtain ⟨t', ht', -⟩ := Option.map_eq_some_iff.mp hd
        exact ih ht'
      · exact ih hd
    | run m b now t' g =>
      simp only [due] at hd
      split at hd
      · cases hd
      · exact ih hd

end Due

section Lawful

variable {τ : Type} [LinearOrder τ]

/-- Every timer is posted once, and run when it is due, not before timers of its
batch that come first. -/
def Lawful : List (Act τ) → Prop
  | [] => True
  | .post n _ _ :: h => n ∉ posted h ∧ Lawful h
  | .cancel _ :: h => Lawful h
  | .move _ _ :: h => Lawful h
  | .run n b now t g :: h =>
    due h n = some t ∧ t < now ∧ (∃ t₀, .post n t₀ g ∈ h) ∧
      (∀ m now' t' g', .run m b now' t' g' ∈ h → toLex (t', g') ≤ toLex (t, g)) ∧ Lawful h

theorem Lawful.tail {a : Act τ} {h : List (Act τ)} (hl : Lawful (a :: h)) : Lawful h := by
  cases a with
  | post => exact hl.2
  | cancel => exact hl
  | move => exact hl
  | run => exact hl.2.2.2.2

theorem Lawful.suffix {h₂ h₁ : List (Act τ)} (hl : Lawful (h₂ ++ h₁)) : Lawful h₁ := by
  induction h₂ with
  | nil => exact hl
  | cons a h₂ ih => exact ih hl.tail

/-- A timer that is done with stays so. -/
theorem Lawful.due_none {h₂ h₁ : List (Act τ)} {n : Nat} (hl : Lawful (h₂ ++ h₁))
    (hp : n ∈ posted h₁) (hd : due h₁ n = none) :
    due (h₂ ++ h₁) n = none ∧ n ∉ runs h₂ := by
  induction h₂ with
  | nil => exact ⟨hd, List.not_mem_nil⟩
  | cons a h₂ ih =>
    obtain ⟨hnone, hruns⟩ := ih hl.tail
    cases a with
    | post m t g =>
      have hne : n ≠ m := by
        rintro rfl
        have hnew : n ∉ posted (h₂ ++ h₁) := hl.1
        rw [posted_append] at hnew
        exact hnew (List.mem_append_right _ hp)
      exact ⟨by simp only [List.cons_append, due, if_neg hne, hnone], hruns⟩
    | cancel m =>
      refine ⟨?_, hruns⟩
      simp only [List.cons_append, due, hnone, ite_self]
    | move m f =>
      refine ⟨?_, hruns⟩
      simp only [List.cons_append, due, hnone, Option.map_none, ite_self]
    | run m b now t g =>
      have hne : n ≠ m := by
        rintro rfl
        have hdue : due (h₂ ++ h₁) n = some t := hl.1
        rw [hnone] at hdue
        cases hdue
      refine ⟨by simp only [List.cons_append, due, if_neg hne, hnone], ?_⟩
      intro hmem
      rcases List.mem_cons.mp hmem with heq | hmem
      · exact hne heq
      · exact hruns hmem

/-- A timer runs only when it is due. -/
theorem Lawful.run_due {h₂ h₁ : List (Act τ)} {n b : Nat} {now t : τ} {g : Nat}
    (hl : Lawful (h₂ ++ .run n b now t g :: h₁)) :
    due h₁ n = some t ∧ t < now ∧ ∃ t₀, .post n t₀ g ∈ h₁ :=
  ⟨hl.suffix.1, hl.suffix.2.1, hl.suffix.2.2.1⟩

/-- The timers of one batch run in the order of due time and generation. -/
theorem Lawful.batch_order {h₂ h₁ : List (Act τ)} {n m b : Nat} {now now' t t' : τ} {g g' : Nat}
    (hl : Lawful (h₂ ++ .run n b now t g :: h₁)) (hm : .run m b now' t' g' ∈ h₁) :
    toLex (t', g') ≤ toLex (t, g) :=
  hl.suffix.2.2.2.1 m now' t' g' hm

/-- No timer runs after it was cancelled. -/
theorem Lawful.cancelled {h₂ h₁ : List (Act τ)} {n : Nat}
    (hl : Lawful (h₂ ++ .cancel n :: h₁)) (hp : n ∈ posted h₁) : n ∉ runs h₂ :=
  (hl.due_none hp (by simp [due])).2

/-- No timer runs twice. -/
theorem Lawful.once {h : List (Act τ)} (hl : Lawful h) : (runs h).Nodup := by
  induction h with
  | nil => exact List.nodup_nil
  | cons a h ih =>
    cases a with
    | post => exact ih hl.tail
    | cancel => exact ih hl.tail
    | move => exact ih hl.tail
    | run n b now t g =>
      refine List.nodup_cons.mpr ⟨fun hmem => ?_, ih hl.tail⟩
      obtain ⟨a, ha, hrun⟩ := List.mem_filterMap.mp hmem
      cases a with
      | run m b' now' t' g' =>
        cases hrun
        obtain ⟨h₂, h₁, rfl⟩ := List.append_of_mem ha
        have hpost := mem_posted_of_due hl.tail.suffix.1
        have hnone := hl.tail.due_none hpost (by simp [due])
        rw [hl.1] at hnone
        cases hnone.1
      | post => cases hrun
      | cancel => cases hrun
      | move => cases hrun

end Lawful

end Nox.Schedule
