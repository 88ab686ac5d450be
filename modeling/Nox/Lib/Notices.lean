import Mathlib.Data.List.Count
import Mathlib.Data.List.Nodup

/-!
# Notices about a table

The keeper of a table posts a notice when a key enters it and when one leaves.  Those who
only see the notices can keep the table themselves if the notices for each key alternate,
and begin with its entry: `Follows`.  A log of notices is newest first.
-/

namespace Nox.Lib

variable {κ : Type*} [DecidableEq κ]

section Definitions

/-- A key that has entered, or left. -/
inductive Notice
  | entered
  | left
  deriving DecidableEq, Repr

/-- The notices for a key. -/
def noticesOf (k : κ) (log : List (κ × Notice)) : List Notice :=
  (log.filter (·.1 = k)).map Prod.snd

/-- The oldest notice is of an entry, and the kinds alternate. -/
def Alternates : List Notice → Prop
  | [] => True
  | n :: log => (n = .entered ↔ log.length % 2 = 0) ∧ Alternates log

/-- The table has the keys of which an entry was posted and not a leaving after it. -/
structure Follows (keys : List κ) (log : List (κ × Notice)) : Prop where
  nodup : keys.Nodup
  alternates : ∀ k, Alternates (noticesOf k log)
  mem_iff : ∀ k, k ∈ keys ↔ (noticesOf k log).length % 2 = 1

end Definitions

section Rules

theorem noticesOf_cons (k : κ) (n : Notice) (log : List (κ × Notice)) :
    noticesOf k ((k, n) :: log) = n :: noticesOf k log := by
  rw [noticesOf, List.filter_cons_of_pos (by simp)]
  rfl

theorem noticesOf_cons_of_ne {k k' : κ} (h : k' ≠ k) (n : Notice) (log : List (κ × Notice)) :
    noticesOf k ((k', n) :: log) = noticesOf k log := by
  rw [noticesOf, List.filter_cons_of_neg (by simpa using h)]
  rfl

/-- In notices that alternate there are as many entries as leavings, or one more. -/
theorem Alternates.count {log : List Notice} (h : Alternates log) :
    log.count .entered = log.count .left + log.length % 2 := by
  induction log with
  | nil => rfl
  | cons n log ih =>
    obtain ⟨hn, hlog⟩ := h
    have ih := ih hlog
    cases n with
    | entered =>
      have heven := hn.mp rfl
      rw [List.count_cons_self, List.count_cons_of_ne (by decide), List.length_cons]
      omega
    | left =>
      have hodd := mt hn.mpr (by decide)
      rw [List.count_cons_self, List.count_cons_of_ne (by decide), List.length_cons]
      omega

namespace Follows

variable {keys : List κ} {log : List (κ × Notice)} {k : κ}

theorem nil : Follows ([] : List κ) [] :=
  ⟨List.nodup_nil, fun _ => trivial, fun _ => iff_of_false List.not_mem_nil Nat.zero_ne_one⟩

/-- A key is in the table when its entries outnumber its leavings. -/
theorem mem_iff_count (h : Follows keys log) :
    k ∈ keys ↔ (noticesOf k log).count .left < (noticesOf k log).count .entered := by
  have hcount := (h.alternates k).count
  rw [h.mem_iff]
  omega

/-- A key that is not in the table enters it. -/
theorem enter (h : Follows keys log) (hk : k ∉ keys) :
    Follows (keys ++ [k]) ((k, .entered) :: log) := by
  refine ⟨h.nodup.append (List.nodup_singleton k) (by simpa using hk), fun k' => ?_,
    fun k' => ?_⟩
  · by_cases hsame : k = k'
    · subst hsame
      rw [noticesOf_cons]
      refine ⟨iff_of_true rfl ?_, h.alternates k⟩
      have heven := mt (h.mem_iff k).mpr hk
      omega
    · rw [noticesOf_cons_of_ne hsame]
      exact h.alternates k'
  · rw [List.mem_append, List.mem_singleton, h.mem_iff]
    by_cases hsame : k = k'
    · subst hsame
      have heven := mt (h.mem_iff k).mpr hk
      rw [noticesOf_cons, List.length_cons]
      exact iff_of_true (.inr rfl) (by omega)
    · rw [noticesOf_cons_of_ne hsame]
      exact or_iff_left (Ne.symm hsame)

/-- A key of the table leaves it. -/
theorem leave (h : Follows keys log) (hk : k ∈ keys) :
    Follows (keys.filter (· ≠ k)) ((k, .left) :: log) := by
  have hodd := (h.mem_iff k).mp hk
  refine ⟨h.nodup.filter _, fun k' => ?_, fun k' => ?_⟩
  · by_cases hsame : k = k'
    · subst hsame
      rw [noticesOf_cons]
      exact ⟨iff_of_false (by decide) (by omega), h.alternates k⟩
    · rw [noticesOf_cons_of_ne hsame]
      exact h.alternates k'
  · rw [List.mem_filter, decide_eq_true_iff, h.mem_iff]
    by_cases hsame : k = k'
    · subst hsame
      rw [noticesOf_cons, List.length_cons]
      exact iff_of_false (fun hne => hne.2 rfl) (by omega)
    · rw [noticesOf_cons_of_ne hsame]
      exact and_iff_left (Ne.symm hsame)

end Follows

end Rules

end Nox.Lib
