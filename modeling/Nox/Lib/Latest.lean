import Mathlib.Data.List.Induction

/-!
# The latest entry of a log

A log tells something of some of its entries; `latest` is what the last of these tells.
What is asked of every entry and the log before it is asked of one entry after the other.
-/

namespace Nox.Lib

variable {α β : Type*}

/-- What the last entry tells that tells something; the oldest entry comes first. -/
def latest (f : α → Option β) (log : List α) : Option β := log.reverse.findSome? f

variable {f : α → Option β} {log : List α}

theorem latest_concat (f : α → Option β) (log : List α) (x : α) :
    latest f (log ++ [x]) = (f x).or (latest f log) := by
  rw [latest, List.reverse_append, List.reverse_singleton, List.singleton_append,
    List.findSome?_cons]
  cases f x <;> rfl

/-- What is told latest is told by an entry. -/
theorem exists_of_latest {b : β} (h : latest f log = some b) : ∃ x ∈ log, f x = some b := by
  induction log using List.reverseRecOn with
  | nil => cases h
  | append_singleton log x ih =>
    rw [latest_concat] at h
    cases hx : f x with
    | some c =>
      rw [hx, Option.some_or] at h
      exact ⟨x, List.mem_append_right log List.mem_cons_self, hx.trans h⟩
    | none =>
      rw [hx, Option.none_or] at h
      obtain ⟨y, hy, htold⟩ := ih h
      exact ⟨y, List.mem_append_left [x] hy, htold⟩

variable {P : List α → α → Prop}

theorem forall_prefix_nil : ∀ seen x, seen ++ [x] <+: [] → P seen x :=
  fun seen x h => (List.concat_ne_nil x seen (List.prefix_nil.mp h)).elim

/-- What holds of every entry with those before it, once there is one more. -/
theorem forall_prefix_concat {x : α} : (∀ seen y, seen ++ [y] <+: log ++ [x] → P seen y) ↔
    (∀ seen y, seen ++ [y] <+: log → P seen y) ∧ P log x := by
  constructor
  · exact fun h => ⟨fun seen y hinit => h seen y (hinit.trans (List.prefix_append log [x])),
      h log x List.prefix_rfl⟩
  · rintro ⟨hbefore, hlast⟩ seen y hinit
    rcases List.prefix_concat_iff.mp hinit with heq | hinit
    · obtain ⟨rfl, rfl⟩ := List.append_singleton_inj.mp heq
      exact hlast
    · exact hbefore seen y hinit

end Nox.Lib
