import Mathlib.Algebra.GroupWithZero.Nat
import Mathlib.Data.List.Forall2
import Nox.Lib.Outcome

/-!
# Loops that append

A loop over elements that appends to a list with each pass, what it appends for an element
being told by a relation.  What holds of all that is appended, and what it sums up to, is then
told by the elements.
-/

namespace Nox.Lib

section Loops

/-! ## Loops -/

variable {ε α β : Type} {f : List β → α → Except ε (List β)} {R : α → List β → Prop}

/-- What a loop makes is what its passes append, one after the other. -/
theorem foldlM_appends {as : List α} {s t : List β}
    (h : ∀ s, ∀ a ∈ as, ∀ t, f s a = .ok t → ∃ l, R a l ∧ t = s ++ l)
    (hf : as.foldlM f s = .ok t) : ∃ ls, List.Forall₂ R as ls ∧ t = s ++ ls.flatten := by
  induction as generalizing s with
  | nil =>
    cases hf
    exact ⟨[], .nil, by simp⟩
  | cons a as ih =>
    obtain ⟨s', hstep, hrest⟩ := bind_eq_ok.mp hf
    obtain ⟨l, hl, rfl⟩ := h s a List.mem_cons_self s' hstep
    obtain ⟨ls, hls, rfl⟩ := ih (fun s b hb => h s b (List.mem_cons_of_mem a hb)) hrest
    exact ⟨l :: ls, .cons hl hls, by simp⟩

/-- What each pass of a loop preserves, the loop preserves. -/
theorem foldlM_preserves {σ : Type} {P : σ → Prop} {f : σ → α → Except ε σ} {as : List α} {s t : σ}
    (h : ∀ s, ∀ a ∈ as, ∀ t, P s → f s a = .ok t → P t) (hs : P s) (hf : as.foldlM f s = .ok t) :
    P t := by
  induction as generalizing s with
  | nil =>
    cases hf
    exact hs
  | cons a as ih =>
    obtain ⟨s', hstep, hrest⟩ := bind_eq_ok.mp hf
    exact ih (fun s b hb => h s b (List.mem_cons_of_mem a hb)) (h s a List.mem_cons_self s' hs hstep)
      hrest

theorem foldlM_congr {σ : Type} {f g : σ → α → Except ε σ} {as : List α} (s : σ)
    (h : ∀ a ∈ as, ∀ s, f s a = g s a) : as.foldlM f s = as.foldlM g s := by
  induction as generalizing s with
  | nil => rfl
  | cons a as ih =>
    rw [List.foldlM_cons, List.foldlM_cons, h a List.mem_cons_self]
    exact congrArg _ (funext fun s' => ih s' fun b hb => h b (List.mem_cons_of_mem a hb))

theorem flatMap_zipIdx (as : List α) (g : α → List β) :
    (as.zipIdx.flatMap fun q => g q.1) = as.flatMap g := by
  rw [← List.zipIdx_map_fst 0 as, List.flatMap_map, List.zipIdx_map_fst]

variable {as : List α} {ls : List (List β)}

/-- All that is appended has a property when the elements say so. -/
theorem forall_flatten_iff {P : β → Prop} {Q : α → Prop}
    (h : ∀ a l, R a l → ((∀ b ∈ l, P b) ↔ Q a)) (hadds : List.Forall₂ R as ls) :
    (∀ b ∈ ls.flatten, P b) ↔ ∀ a ∈ as, Q a := by
  induction hadds with
  | nil => simp
  | cons hl _ ih =>
    rw [List.flatten_cons, List.forall_mem_append, List.forall_mem_cons, ih, h _ _ hl]

/-- The sizes of all that is appended sum up to those of the elements. -/
theorem sum_flatten {size : β → Nat} {total : α → Nat}
    (h : ∀ a l, R a l → (l.map size).sum = total a) (hadds : List.Forall₂ R as ls) :
    (ls.flatten.map size).sum = (as.map total).sum := by
  induction hadds with
  | nil => rfl
  | cons hl _ ih =>
    rw [List.flatten_cons, List.map_append, List.sum_append, List.map_cons, List.sum_cons, ih,
      h _ _ hl]

theorem length_flatten_le (h : ∀ a l, R a l → l.length ≤ 1) (hadds : List.Forall₂ R as ls) :
    ls.flatten.length ≤ as.length := by
  induction hadds with
  | nil => exact Nat.le_refl 0
  | cons hl _ ih =>
    have hone := h _ _ hl
    rw [List.flatten_cons, List.length_append, List.length_cons]
    omega

/-- A loop whose passes append one element at most appends the right ones, one for each pass, when
each pass does. -/
theorem forall₂_flatten_iff {S : α → β → Prop} {Q : α → Prop}
    (h : ∀ a l, R a l → l.length ≤ 1 ∧ ((∃ b, l = [b] ∧ S a b) ↔ Q a))
    (hadds : List.Forall₂ R as ls) : List.Forall₂ S as ls.flatten ↔ ∀ a ∈ as, Q a := by
  induction hadds with
  | nil => simp
  | @cons a l as ls hl hrest ih =>
    obtain ⟨hone, hiff⟩ := h a l hl
    rw [List.forall_mem_cons, ← ih, ← hiff, List.flatten_cons]
    constructor
    · intro hall
      have hlength := hall.length_eq
      have hle := length_flatten_le (fun a l hl => (h a l hl).1) hrest
      rw [List.length_append, List.length_cons] at hlength
      obtain ⟨b, rfl⟩ : ∃ b, l = [b] := List.length_eq_one_iff.mp (by omega)
      obtain ⟨hb, htail⟩ := List.forall₂_cons.mp hall
      exact ⟨⟨b, rfl, hb⟩, htail⟩
    · rintro ⟨⟨b, rfl, hb⟩, htail⟩
      exact .cons hb htail

end Loops

section Options

/-! ## Reading a list -/

variable {α β : Type} {f : α → Option β} {as : List α} {bs : List β}

/-- A list is read when all its elements are. -/
theorem mapM_eq_some_iff : as.mapM f = some bs ↔ List.Forall₂ (fun a b => f a = some b) as bs := by
  induction as generalizing bs with
  | nil => cases bs <;> simp
  | cons a as ih =>
    rw [List.mapM_cons]
    cases hf : f a with
    | none =>
      constructor
      · nofun
      · rintro (_ | ⟨hb, _⟩)
        rw [hf] at hb
        cases hb
    | some b =>
      cases hrest : as.mapM f with
      | none =>
        constructor
        · nofun
        · rintro (_ | ⟨_, htail⟩)
          rw [ih.mpr htail] at hrest
          cases hrest
      | some bs' =>
        constructor
        · rintro ⟨⟩
          exact .cons hf (ih.mp hrest)
        · rintro (_ | ⟨hb, htail⟩)
          rw [hf] at hb
          rw [ih.mpr htail] at hrest
          cases hb
          cases hrest
          rfl

theorem exists_mapM_iff : (∃ bs, as.mapM f = some bs) ↔ ∀ a ∈ as, ∃ b, f a = some b := by
  simp only [mapM_eq_some_iff]
  induction as with
  | nil => simp
  | cons a as ih =>
    rw [List.forall_mem_cons, ← ih]
    constructor
    · rintro ⟨_, _ | ⟨hb, htail⟩⟩
      exact ⟨⟨_, hb⟩, _, htail⟩
    · rintro ⟨⟨b, hb⟩, bs, htail⟩
      exact ⟨b :: bs, .cons hb htail⟩

end Options

end Nox.Lib
