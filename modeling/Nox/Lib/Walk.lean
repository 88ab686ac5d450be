import Mathlib.Data.List.Basic

/-!
# Walking a list while it grows

A loop goes through a list from front to back while elements are inserted into it,
anywhere, and none is removed.  What it has visited stands in the list in the same
order, and of the elements that were there when it began it has missed none on its
way.
-/

namespace Nox.Lib

variable {α : Type*} [DecidableEq α]

/-- The list `l` is walked up to the end of `before`.  It was `start` at the
beginning, and `visited` are the elements visited, the last of which is the last
of `before`. -/
structure Walk (l start visited before rest : List α) : Prop where
  split : l = before ++ rest
  nodup : l.Nodup
  kept : (l.filter fun b => b ∈ start) = start
  sublist : visited.Sublist before
  seen : (visited.filter fun b => b ∈ start) = before.filter fun b => b ∈ start
  last : visited.getLast? = before.getLast?

namespace Walk

theorem begin {l : List α} (hl : l.Nodup) : Walk l l [] [] l where
  split := rfl
  nodup := hl
  kept := List.filter_eq_self.mpr fun _ ha => decide_eq_true ha
  sublist := List.Sublist.refl _
  seen := rfl
  last := rfl

/-- The next element is visited. -/
theorem next {l start visited before rest : List α} {a : α}
    (h : Walk l start visited before (a :: rest)) :
    Walk l start (visited ++ [a]) (before ++ [a]) rest where
  split := by rw [h.split, List.append_assoc, List.singleton_append]
  nodup := h.nodup
  kept := h.kept
  sublist := h.sublist.append_right [a]
  seen := by rw [List.filter_append, List.filter_append, h.seen]
  last := by rw [List.getLast?_concat, List.getLast?_concat]

/-- An element that was not there at the beginning is inserted. -/
theorem insert {l₁ l₂ start visited before rest : List α} {a : α}
    (h : Walk (l₁ ++ l₂) start visited before rest) (ha : a ∉ l₁ ++ l₂) :
    ∃ before' rest', Walk (l₁ ++ a :: l₂) start visited before' rest' := by
  have hstart : a ∉ start := fun hmem => by
    rw [← h.kept] at hmem
    exact ha (List.mem_of_mem_filter hmem)
  have hnodup : (l₁ ++ a :: l₂).Nodup :=
    List.perm_middle.nodup_iff.mpr (List.nodup_cons.mpr ⟨ha, h.nodup⟩)
  have hfilter : ∀ k₁ k₂ : List α,
      ((k₁ ++ a :: k₂).filter fun b => b ∈ start) = (k₁ ++ k₂).filter fun b => b ∈ start := by
    intro k₁ k₂
    rw [List.filter_append, List.filter_append, List.filter_cons_of_neg (by simpa using hstart)]
  rcases List.append_eq_append_iff.mp h.split with ⟨k, hbefore, hl₂⟩ | ⟨k, hl₁, hrest⟩
  · cases k with
    | nil =>
      -- the place is right behind the last visited element
      rw [List.append_nil] at hbefore
      subst hbefore
      exact ⟨before, a :: l₂, rfl, hnodup, (hfilter _ _).trans h.kept, h.sublist, h.seen, h.last⟩
    | cons b k =>
      subst hbefore hl₂
      refine ⟨l₁ ++ a :: b :: k, rest, by simp, hnodup, (hfilter _ _).trans h.kept, ?_,
        h.seen.trans (hfilter _ _).symm, ?_⟩
      · exact h.sublist.trans (List.Sublist.append_left (List.sublist_cons_self a _) l₁)
      · rw [h.last, List.getLast?_append, List.getLast?_append, List.getLast?_cons_cons]
  · subst hl₁ hrest
    refine ⟨before, k ++ a :: l₂, by simp, hnodup, (hfilter _ _).trans h.kept, h.sublist, h.seen,
      h.last⟩

/-- What was there at the beginning is visited from the front on. -/
theorem isPrefix {l start visited before rest : List α}
    (h : Walk l start visited before rest) : (visited.filter fun b => b ∈ start) <+: start := by
  refine ⟨rest.filter fun b => b ∈ start, ?_⟩
  rw [h.seen, ← List.filter_append, ← h.split, h.kept]

/-- A walk to the end visits all that was there at the beginning. -/
theorem complete {l start visited before : List α} (h : Walk l start visited before []) :
    (visited.filter fun b => b ∈ start) = start := by
  have hsplit := h.split
  rw [List.append_nil] at hsplit
  rw [h.seen, ← hsplit, h.kept]

theorem visited_sublist {l start visited before rest : List α}
    (h : Walk l start visited before rest) : visited.Sublist l := by
  rw [h.split]
  exact h.sublist.trans (List.sublist_append_left _ _)

/-- The rest of the list is behind the element visited last. -/
theorem rest_eq {l start visited before rest : List α} {a : α}
    (h : Walk l start visited before rest) (ha : visited.getLast? = some a) :
    (l.dropWhile (· ≠ a)).tail = rest := by
  obtain ⟨k, hk⟩ := List.getLast?_eq_some_iff.mp (h.last.symm.trans ha)
  have hnodup := h.nodup
  have hmem : a ∉ k := fun hmem => by
    rw [h.split, hk] at hnodup
    exact (List.nodup_append.mp (List.nodup_append.mp hnodup).1).2.2 a hmem a
      List.mem_cons_self rfl
  rw [h.split, hk, List.append_assoc, List.singleton_append,
    List.dropWhile_append_of_pos (fun b hb => by simpa using fun heq : b = a => hmem (heq ▸ hb))]
  simp

end Walk

end Nox.Lib
