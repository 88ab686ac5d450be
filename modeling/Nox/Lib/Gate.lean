import Mathlib.Data.List.Basic

/-!
# A gate

A gate is opened by some acts and lets one act through, which closes it; one act may do
both.  Then no more acts get through than open it, and between two that open it at most
one.

Histories stand with the newest act first.
-/

namespace Nox.Lib

variable {α : Type*} (opens passes : α → Bool)

/-- Whether the gate is open after a history. -/
def isOpen : List α → Bool
  | [] => false
  | a :: h => !passes a && (opens a || isOpen h)

/-- Acts pass the gate only when it is open. -/
def Gated : List α → Prop
  | [] => True
  | a :: h => (passes a = true → opens a = true ∨ isOpen opens passes h = true) ∧ Gated h

variable {opens passes} {h mid older : List α}

/-- The gate is open when nothing has passed since it was opened last. -/
theorem isOpen_iff : isOpen opens passes h = true ↔
    ∃ q, h.find? opens = some q ∧ passes q = false ∧
      ∀ a ∈ h.takeWhile fun a => !opens a, passes a = false := by
  induction h with
  | nil =>
    constructor
    · intro hopen
      cases hopen
    · rintro ⟨q, hq, -⟩
      cases hq
  | cons a h ih =>
    cases hopen : opens a with
    | true => simp [isOpen, hopen]
    | false =>
      simp only [isOpen, hopen, Bool.false_or, Bool.and_eq_true, Bool.not_eq_true', ih,
        List.find?_cons, List.takeWhile_cons, Bool.not_false, if_true, List.forall_mem_cons]
      constructor
      · rintro ⟨ha, q, hq, hpass, hsince⟩
        exact ⟨q, hq, hpass, ha, hsince⟩
      · rintro ⟨q, hq, hpass, ha, hsince⟩
        exact ⟨ha, q, hq, hpass, hsince⟩

theorem Gated.suffix (hg : Gated opens passes (mid ++ older)) : Gated opens passes older := by
  induction mid with
  | nil => exact hg
  | cons a mid ih => exact ih hg.2

/-- No more acts have passed than have opened it. -/
theorem Gated.countP_le (hg : Gated opens passes h) :
    h.countP passes + (isOpen opens passes h).toNat ≤ h.countP opens := by
  induction h with
  | nil => exact Nat.le_refl 0
  | cons a h ih =>
    have ih := ih hg.2
    have ha := hg.1
    rw [List.countP_cons, List.countP_cons, isOpen]
    cases hopen : opens a with
    | true =>
      cases passes a with
      | true => simpa using Nat.le_trans (Nat.le_add_right _ _) ih
      | false => simpa using Nat.le_trans (Nat.le_add_right _ _) ih
    | false =>
      cases hpass : passes a with
      | true =>
        have hold : isOpen opens passes h = true := by simpa [hpass, hopen] using ha
        rw [hold] at ih
        simpa using ih
      | false => simpa using ih

/-- While nothing opens it at most one act passes, and only if it was open. -/
theorem Gated.countP_closed (hg : Gated opens passes (mid ++ older))
    (hmid : ∀ a ∈ mid, opens a = false) :
    mid.countP passes + (isOpen opens passes (mid ++ older)).toNat ≤
      (isOpen opens passes older).toNat := by
  induction mid with
  | nil => exact Nat.le_of_eq (Nat.zero_add _)
  | cons a mid ih =>
    have ih := ih hg.2 fun b hb => hmid b (List.mem_cons_of_mem a hb)
    have ha : passes a = true → opens a = true ∨ isOpen opens passes (mid ++ older) = true := hg.1
    have hopen := hmid a List.mem_cons_self
    simp only [List.countP_cons, List.cons_append, isOpen, hopen, Bool.false_or]
    cases hpass : passes a with
    | false => simpa using ih
    | true =>
      have hold : isOpen opens passes (mid ++ older) = true := by simpa [hpass, hopen] using ha
      rw [hold] at ih
      simpa using ih

/-- From one act that opens it to the next at most one act passes. -/
theorem Gated.countP_between {a : α} (hg : Gated opens passes (mid ++ a :: older))
    (hmid : ∀ b ∈ mid, opens b = false) : (mid ++ [a]).countP passes ≤ 1 := by
  have hclosed := hg.countP_closed hmid
  rw [List.countP_append, List.countP_singleton]
  simp only [isOpen] at hclosed
  cases hpass : passes a with
  | false =>
    have hle := Bool.toNat_le (!passes a && (opens a || isOpen opens passes older))
    simp only [Bool.false_eq_true, if_false]
    omega
  | true =>
    rw [hpass] at hclosed
    simp only [Bool.not_true, Bool.false_and, Bool.toNat_false] at hclosed
    simp only [if_true]
    omega

end Nox.Lib
