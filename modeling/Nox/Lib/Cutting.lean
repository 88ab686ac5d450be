import Mathlib.Data.List.Basic

/-!
# Cutting a stream

A stream is cut behind the shortest part of it that a test accepts, and then from there on.
Of all ways to take a stream apart, only one has such parts and nothing to cut in what is
left (`cut_eq_iff`), so it does not matter how the stream came in (`cut_append`).
-/

namespace Nox.Lib

variable {α : Type*}

section Definitions

variable (stops : List α → Bool)

/-- The parts of a stream of which `cur` has been seen, and what is left of it. -/
def cut : List α → List α → List (List α) × List α
  | cur, [] => ([], cur)
  | cur, x :: xs =>
    if stops (cur ++ [x]) then
      let rest := cut [] xs
      ((cur ++ [x]) :: rest.1, rest.2)
    else cut (cur ++ [x]) xs

/-- There is nothing to cut in it. -/
def Uncut (xs : List α) : Prop := ∀ i, 0 < i → i ≤ xs.length → stops (xs.take i) = false

/-- It is accepted, and nothing shorter is. -/
structure Part (xs : List α) : Prop where
  ne_nil : xs ≠ []
  accepted : stops xs = true
  shortest : ∀ i, 0 < i → i < xs.length → stops (xs.take i) = false

end Definitions

variable {stops : List α → Bool} {cur xs ys left : List α} {parts : List (List α)}

section Runs

/-! ## What is cut off a stream -/

theorem cut_append (cur xs ys : List α) : cut stops cur (xs ++ ys) =
    ((cut stops cur xs).1 ++ (cut stops (cut stops cur xs).2 ys).1,
      (cut stops (cut stops cur xs).2 ys).2) := by
  induction xs generalizing cur with
  | nil => rfl
  | cons x xs ih =>
    rw [List.cons_append, cut, cut]
    split_ifs
    · dsimp only
      rw [ih []]
      rfl
    · exact ih _

/-- As long as the test accepts nothing, the stream is seen and not cut. -/
theorem cut_of_rejected (h : ∀ i, 0 < i → i ≤ xs.length → stops (cur ++ xs.take i) = false) :
    cut stops cur xs = ([], cur ++ xs) := by
  induction xs generalizing cur with
  | nil => rw [cut, List.append_nil]
  | cons x xs ih =>
    have hx : stops (cur ++ [x]) = false := h 1 Nat.one_pos (Nat.le_add_left 1 _)
    rw [cut, hx, if_neg Bool.false_ne_true, ih, List.append_assoc, List.singleton_append]
    intro i hi hle
    have hnext := h (i + 1) (Nat.succ_pos i) (Nat.succ_le_succ hle)
    rwa [List.take_succ_cons, List.append_cons] at hnext

/-- What the test accepts first is cut off. -/
theorem cut_of_accepted (hne : xs ≠ []) (haccepted : stops (cur ++ xs) = true)
    (h : ∀ i, 0 < i → i < xs.length → stops (cur ++ xs.take i) = false) :
    cut stops cur xs = ([cur ++ xs], []) := by
  induction xs generalizing cur with
  | nil => exact absurd rfl hne
  | cons x xs ih =>
    cases xs with
    | nil =>
      rw [cut, if_pos haccepted]
      rfl
    | cons y ys =>
      have hx : stops (cur ++ [x]) = false :=
        h 1 Nat.one_pos (Nat.succ_lt_succ (Nat.succ_pos ys.length))
      rw [List.append_cons] at haccepted
      rw [cut, hx, if_neg Bool.false_ne_true, ih (List.cons_ne_nil y ys) haccepted,
        List.append_assoc, List.singleton_append]
      intro i hi hlt
      have hnext := h (i + 1) (Nat.succ_pos i) (Nat.succ_lt_succ hlt)
      rwa [List.take_succ_cons, List.append_cons] at hnext

/-- A step over a part of the stream before the end of which the test accepts nothing. -/
theorem cut_step {n : Nat} (hpos : 0 < n) (hle : n ≤ xs.length)
    (h : ∀ i, 0 < i → i < n → stops (cur ++ xs.take i) = false) :
    cut stops cur xs =
      if stops (cur ++ xs.take n) then
        ((cur ++ xs.take n) :: (cut stops [] (xs.drop n)).1, (cut stops [] (xs.drop n)).2)
      else cut stops (cur ++ xs.take n) (xs.drop n) := by
  have hlength : (xs.take n).length = n := List.length_take_of_le hle
  have hearlier : ∀ i, 0 < i → i < (xs.take n).length →
      stops (cur ++ (xs.take n).take i) = false := by
    intro i hi hlt
    rw [List.take_take, Nat.min_eq_left (by omega)]
    exact h i hi (by omega)
  conv_lhs => rw [← List.take_append_drop n xs, cut_append]
  split_ifs with hstops
  · rw [cut_of_accepted (List.ne_nil_of_length_pos (by omega)) hstops hearlier]
    rfl
  · rw [cut_of_rejected]
    · rfl
    · intro i hi hi'
      rcases Nat.lt_or_eq_of_le hi' with hlt | rfl
      · exact hearlier i hi hlt
      · rw [List.take_length]
        exact Bool.eq_false_iff.mpr hstops

/-- What has been seen is the beginning of a part, or is left. -/
theorem length_le_of_cut {n : Nat} (hparts : ∀ part ∈ (cut stops cur xs).1, part.length ≤ n)
    (hleft : (cut stops cur xs).2.length ≤ n) : cur.length ≤ n := by
  induction xs generalizing cur with
  | nil => exact hleft
  | cons x xs ih =>
    have hlt : cur.length ≤ (cur ++ [x]).length :=
      List.length_append ▸ Nat.le_add_right cur.length _
    rw [cut] at hparts hleft
    split_ifs at hparts hleft
    · exact Nat.le_trans hlt (hparts _ List.mem_cons_self)
    · exact Nat.le_trans hlt (ih hparts hleft)

end Runs

section Uniqueness

/-! ## There is one way to cut -/

theorem Part.uncut_append (h : Part stops xs) (ys : List α) :
    cut stops [] (xs ++ ys) = (xs :: (cut stops [] ys).1, (cut stops [] ys).2) := by
  rw [cut_append, cut_of_accepted h.ne_nil h.accepted h.shortest]
  rfl

theorem cut_flatten (hparts : ∀ part ∈ parts, Part stops part) (hleft : Uncut stops left) :
    cut stops [] (parts.flatten ++ left) = (parts, left) := by
  induction parts with
  | nil => exact cut_of_rejected hleft
  | cons part parts ih =>
    rw [List.flatten_cons, List.append_assoc,
      (hparts part List.mem_cons_self).uncut_append,
      ih fun other hother => hparts other (List.mem_cons_of_mem part hother)]

theorem uncut_nil : Uncut stops [] := fun i hi hle => by
  rw [List.length_nil] at hle
  omega

/-- The parts and what is left make up the stream. -/
theorem cut_spec (xs : List α) (h : Uncut stops cur) :
    cur ++ xs = (cut stops cur xs).1.flatten ++ (cut stops cur xs).2 ∧
      (∀ part ∈ (cut stops cur xs).1, Part stops part) ∧ Uncut stops (cut stops cur xs).2 := by
  induction xs generalizing cur with
  | nil => exact ⟨List.append_nil cur, fun _ hpart => (nomatch hpart), h⟩
  | cons x xs ih =>
    have hearlier : ∀ i, 0 < i → i < (cur ++ [x]).length →
        stops ((cur ++ [x]).take i) = false := by
      intro i hi hlt
      rw [List.length_append, List.length_singleton] at hlt
      rw [List.take_append_of_le_length (by omega)]
      exact h i hi (by omega)
    rw [List.append_cons, cut]
    split_ifs with hstops
    · obtain ⟨hall, hparts, hleft⟩ := ih uncut_nil
      refine ⟨?_, fun part hpart => ?_, hleft⟩
      · dsimp only
        rw [List.flatten_cons, List.append_assoc (cur ++ [x]), ← hall, List.nil_append,
          List.append_assoc]
      · rcases List.mem_cons.mp hpart with rfl | hpart
        · exact ⟨List.append_ne_nil_of_right_ne_nil _ (List.cons_ne_nil x []), hstops, hearlier⟩
        · exact hparts part hpart
    · refine ih fun i hi hle => ?_
      rcases Nat.lt_or_eq_of_le hle with hlt | rfl
      · exact hearlier i hi hlt
      · rw [List.take_length]
        exact Bool.eq_false_iff.mpr hstops

/-- The parts that are cut off are the only parts with nothing to cut behind them. -/
theorem cut_eq_iff : cut stops [] xs = (parts, left) ↔
    xs = parts.flatten ++ left ∧ (∀ part ∈ parts, Part stops part) ∧ Uncut stops left := by
  constructor
  · intro h
    have hnone : Uncut stops [] := uncut_nil
    have hspec := cut_spec xs hnone
    rwa [h, List.nil_append] at hspec
  · rintro ⟨rfl, hparts, hleft⟩
    exact cut_flatten hparts hleft

end Uniqueness

end Nox.Lib
