import Mathlib.Data.List.Nodup
import Mathlib.Logic.Function.Basic

/-!
# Lists whose elements know their nodes

Some lists of elements, each of which stores the iterator to its node and a flag for each list that
it is on.  What they show is one place for each element: a list, or none.
-/

namespace Nox.Lib

/-- The nodes of the lists by their addresses. -/
structure NodeLists (L α : Type) where
  list : L → List (Nat × α)
  made : Nat
  iter : α → Nat
  flag : L → α → Bool

namespace NodeLists

variable {L α : Type} [DecidableEq L] [DecidableEq α]

def empty : NodeLists L α := ⟨fun _ => [], 0, fun _ => 0, fun _ _ => false⟩

/-- A new node at the end of a list. -/
def insert (n : NodeLists L α) (l : L) (x : α) : NodeLists L α where
  list := Function.update n.list l (n.list l ++ [(n.made, x)])
  made := n.made + 1
  iter := Function.update n.iter x n.made
  flag := Function.update n.flag l (Function.update (n.flag l) x true)

/-- The node of an element is taken from a list.  When it is none of the list's, this is
undefined. -/
def erase (n : NodeLists L α) (l : L) (x : α) : Option (NodeLists L α) :=
  if n.iter x ∈ (n.list l).map Prod.fst then
    some { n with list := Function.update n.list l ((n.list l).filter (·.1 ≠ n.iter x)) }
  else none

/-- The flags for these lists are taken from an element. -/
def clear (n : NodeLists L α) (ls : List L) (x : α) : NodeLists L α :=
  { n with flag := fun l y => n.flag l y && !(decide (y = x) && ls.contains l) }

/-- The first node is taken from a list. -/
def popFront (n : NodeLists L α) (l : L) : NodeLists L α :=
  { n with list := Function.update n.list l (n.list l).tail }

/-- Each element is on the list that is its place, once, at the iterator it stores, with the flag
for this list and no other. -/
structure Shows (n : NodeLists L α) (place : α → Option L) : Prop where
  flag : ∀ l x, n.flag l x = true ↔ place x = some l
  mem : ∀ l i x, (i, x) ∈ n.list l ↔ place x = some l ∧ i = n.iter x
  nodup : ∀ l, ((n.list l).map Prod.fst).Nodup
  lt : ∀ l, ∀ p ∈ n.list l, p.1 < n.made

variable {n : NodeLists L α} {place : α → Option L} {l : L} {x : α}

omit [DecidableEq L] [DecidableEq α] in
theorem shows_empty : (empty : NodeLists L α).Shows fun _ => none where
  flag := fun _ _ => by simp [empty]
  mem := fun _ _ _ => by simp [empty]
  nodup := fun _ => List.nodup_nil
  lt := fun _ _ h => nomatch h

omit [DecidableEq L] [DecidableEq α] in
/-- No element is on a list twice. -/
theorem Shows.nodup_elems (h : n.Shows place) (l : L) : ((n.list l).map Prod.snd).Nodup := by
  refine List.Nodup.map_on ?_ (List.Nodup.of_map Prod.fst (h.nodup l))
  rintro ⟨i, x⟩ hx ⟨j, y⟩ hy hxy
  obtain rfl : x = y := hxy
  rw [((h.mem l i x).mp hx).2, ((h.mem l j x).mp hy).2]

omit [DecidableEq L] [DecidableEq α] in
theorem Shows.flag_eq_false (h : n.Shows place) (hne : place x ≠ some l) : n.flag l x = false :=
  Bool.eq_false_iff.mpr fun hflag => hne ((h.flag l x).mp hflag)

omit [DecidableEq L] [DecidableEq α] in
theorem Shows.ne_of_nil (h : n.Shows place) (hnil : n.list l = []) (x : α) : place x ≠ some l := by
  intro hplace
  have hmem := (h.mem l (n.iter x) x).mpr ⟨hplace, rfl⟩
  rw [hnil] at hmem
  cases hmem

theorem Shows.insert (h : n.Shows place) (hnone : place x = none) (l : L) :
    (n.insert l x).Shows (Function.update place x (some l)) where
  flag := by
    intro l' y
    by_cases hl : l' = l
    · subst hl
      by_cases hy : y = x
      · simp [NodeLists.insert, hy]
      · simp [NodeLists.insert, hy, h.flag]
    · by_cases hy : y = x
      · subst hy
        have hflag := h.flag_eq_false (l := l') (x := y) (by simp [hnone])
        simp [NodeLists.insert, hl, hflag, Ne.symm hl]
      · simp [NodeLists.insert, hl, hy, h.flag]
  mem := by
    intro l' i y
    by_cases hl : l' = l
    · subst hl
      simp only [NodeLists.insert, Function.update_self, List.mem_append, h.mem, List.mem_singleton,
        Prod.mk.injEq]
      by_cases hy : y = x
      · subst hy
        simp [hnone]
      · simp [hy]
    · simp only [NodeLists.insert, Function.update_of_ne hl, h.mem]
      by_cases hy : y = x
      · subst hy
        simp [hnone, Ne.symm hl]
      · simp [hy]
  nodup := by
    intro l'
    by_cases hl : l' = l
    · subst hl
      simp only [NodeLists.insert, Function.update_self, List.map_append, List.map_cons,
        List.map_nil]
      refine List.Nodup.append (h.nodup l') (List.nodup_singleton _) ?_
      intro i hi hmade
      obtain ⟨p, hp, rfl⟩ := List.mem_map.mp hi
      exact absurd (h.lt l' p hp) (by rw [List.mem_singleton.mp hmade]; exact Nat.lt_irrefl _)
    · simp only [NodeLists.insert, Function.update_of_ne hl]
      exact h.nodup l'
  lt := by
    intro l' p hp
    by_cases hl : l' = l
    · subst hl
      simp only [NodeLists.insert, Function.update_self, List.mem_append, List.mem_singleton] at hp
      rcases hp with hp | rfl
      · exact Nat.lt_succ_of_lt (h.lt l' p hp)
      · exact Nat.lt_succ_self _
    · simp only [NodeLists.insert, Function.update_of_ne hl] at hp
      exact Nat.lt_succ_of_lt (h.lt l' p hp)

/-- What is left of the list an element was on, when the node has been taken from it. -/
theorem Shows.clear_of_mem (h : n.Shows place) {rest : List (Nat × α)} {ls : List L}
    (hplace : place x = some l) (hls : l ∈ ls)
    (hrest : ∀ p, p ∈ rest ↔ p ∈ n.list l ∧ p.1 ≠ n.iter x) (hsub : rest.Sublist (n.list l)) :
    ({ n with list := Function.update n.list l rest }.clear ls x).Shows
      (Function.update place x none) where
  flag := by
    intro l' y
    by_cases hy : y = x
    · subst hy
      by_cases hl : l' = l
      · subst hl
        simp [clear, hls]
      · have hflag := h.flag_eq_false (l := l') (x := y) (by simp [hplace, Ne.symm hl])
        simp [clear, hflag]
    · simp [clear, hy, h.flag]
  mem := by
    intro l' i y
    by_cases hl : l' = l
    · subst hl
      simp only [clear, Function.update_self, hrest, h.mem]
      by_cases hy : y = x
      · subst hy
        simp
      · rw [Function.update_of_ne hy]
        refine ⟨And.left, fun hmem => ⟨hmem, fun heq => hy ?_⟩⟩
        -- one node has one element
        have hyn := (h.mem l' i y).mpr hmem
        have hxn := (h.mem l' i x).mpr ⟨hplace, heq⟩
        exact congrArg Prod.snd (List.inj_on_of_nodup_map (h.nodup l') hyn hxn rfl)
    · simp only [clear, Function.update_of_ne hl, h.mem]
      by_cases hy : y = x
      · subst hy
        simp [hplace, Ne.symm hl]
      · simp [hy]
  nodup := by
    intro l'
    by_cases hl : l' = l
    · subst hl
      simp only [clear, Function.update_self]
      exact (h.nodup l').sublist (hsub.map _)
    · simp only [clear, Function.update_of_ne hl]
      exact h.nodup l'
  lt := by
    intro l' p hp
    by_cases hl : l' = l
    · subst hl
      simp only [clear, Function.update_self] at hp
      exact h.lt l' p (hsub.subset hp)
    · simp only [clear, Function.update_of_ne hl] at hp
      exact h.lt l' p hp

/-- The element is taken from the list it is on, and this is defined. -/
theorem Shows.erase (h : n.Shows place) (hplace : place x = some l) {ls : List L} (hls : l ∈ ls) :
    ∃ n', n.erase l x = some n' ∧ (n'.clear ls x).Shows (Function.update place x none) := by
  have hmem : (n.iter x, x) ∈ n.list l := (h.mem l _ x).mpr ⟨hplace, rfl⟩
  refine ⟨_, if_pos (List.mem_map_of_mem hmem), ?_⟩
  exact h.clear_of_mem hplace hls (fun p => by simp) List.filter_sublist

/-- The first element is taken from a list. -/
theorem Shows.popFront (h : n.Shows place) {i : Nat} {rest : List (Nat × α)} {ls : List L}
    (hlist : n.list l = (i, x) :: rest) (hls : l ∈ ls) :
    place x = some l ∧
      ((n.popFront l).clear ls x).Shows (Function.update place x none) := by
  obtain ⟨hplace, rfl⟩ := (h.mem l i x).mp (by rw [hlist]; exact List.mem_cons_self)
  have hnodup := h.nodup l
  rw [hlist, List.map_cons, List.nodup_cons] at hnodup
  refine ⟨hplace, ?_⟩
  have hrest : ∀ p, p ∈ rest ↔ p ∈ n.list l ∧ p.1 ≠ n.iter x := by
    intro p
    rw [hlist, List.mem_cons]
    constructor
    · intro hp
      exact ⟨.inr hp, fun heq => hnodup.1 (List.mem_map.mpr ⟨p, hp, heq⟩)⟩
    · rintro ⟨rfl | hp, hne⟩
      · exact absurd rfl hne
      · exact hp
  have hshows := h.clear_of_mem hplace hls hrest (by rw [hlist]; exact List.sublist_cons_self _ _)
  rwa [NodeLists.popFront, hlist]

end NodeLists

end Nox.Lib
