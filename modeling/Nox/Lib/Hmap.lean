import Mathlib.Data.List.Perm.Basic
import Mathlib.Data.List.Flatten

/-!
# Chained hash tables

A hash table with a power-of-two bucket array addressed by `hash & mask`, the
way `hmap.h` and `hmap.c` lay it out: insertion conses onto the chain of the
element's bucket, and the table grows when half the element count exceeds the
mask.  The structure carries the placement invariant, so iterating over the
elements with one hash visits exactly the elements inserted under it.
-/

namespace Nox

universe u

/-- An element together with the hash value it was inserted under. -/
structure HmapNode (α : Type u) where
  hash : Nat
  elem : α

/-- A hash table: every node sits in the bucket its hash selects. -/
structure Hmap (α : Type u) where
  buckets : List (List (HmapNode α))
  mask : Nat
  n : Nat
  size_eq : buckets.length = mask + 1
  placed : ∀ i, ∀ nd ∈ buckets.getD i [], nd.hash &&& mask = i

namespace Hmap

variable {α : Type u}

/-! ## Buckets -/

section Buckets

theorem getD_modify_cons {β : Type u} (x : β) :
    ∀ (L : List (List β)) (i j : Nat), i < L.length →
      (L.modify i (x :: ·)).getD j [] = if i = j then x :: L.getD j [] else L.getD j [] := by
  intro L i j hi
  simp only [List.getD_eq_getElem?_getD, List.getElem?_modify]
  by_cases hij : i = j
  · subst hij
    simp [List.getElem?_eq_getElem hi]
  · simp [hij]

theorem flatten_modify_cons {β : Type u} (x : β) :
    ∀ (L : List (List β)) (i : Nat), i < L.length →
      (L.modify i (x :: ·)).flatten.Perm (x :: L.flatten)
  | l :: L, 0, _ => by simp
  | l :: L, i + 1, h => by
    have ih := flatten_modify_cons x L i (by simpa using h)
    simp only [List.modify_succ_cons, List.flatten_cons]
    exact (ih.append_left l).trans List.perm_middle

/-- A list of chains with at most one nonempty chain flattens to it. -/
theorem flatten_eq_getD {β : Type u} :
    ∀ (L : List (List β)) (i : Nat), (∀ j, j ≠ i → L.getD j [] = []) →
      L.flatten = L.getD i []
  | [], _, _ => rfl
  | l :: L, 0, h => by
    have hL : L.flatten = [] := by
      rw [flatten_eq_getD L L.length (fun j _ => by simpa using h (j + 1) (by omega))]
      simp
    simp [hL]
  | l :: L, i + 1, h => by
    have hl : l = [] := by simpa using h 0 (by omega)
    have ih := flatten_eq_getD L i (fun j hj => by simpa using h (j + 1) (by omega))
    simp [hl, ih]

end Buckets

/-! ## Operations -/

def empty : Hmap α where
  buckets := [[]]
  mask := 0
  n := 0
  size_eq := rfl
  placed := by
    intro i nd h
    cases i <;> simp at h

/-- All nodes, in the order `hmap_first` and `hmap_next` visit them. -/
def nodes (m : Hmap α) : List (HmapNode α) := m.buckets.flatten

def forEach (m : Hmap α) : List α := m.nodes.map HmapNode.elem

def forEachWithHash (m : Hmap α) (hash : Nat) : List α :=
  ((m.buckets.getD (hash &&& m.mask) []).filter (·.hash == hash)).map HmapNode.elem

theorem and_mask_lt (m : Hmap α) (hash : Nat) : hash &&& m.mask < m.buckets.length := by
  rw [m.size_eq]
  exact Nat.lt_succ_of_le Nat.and_le_right

def insertFast (m : Hmap α) (elem : α) (hash : Nat) : Hmap α where
  buckets := m.buckets.modify (hash &&& m.mask) (⟨hash, elem⟩ :: ·)
  mask := m.mask
  n := m.n + 1
  size_eq := by rw [List.length_modify, m.size_eq]
  placed := by
    intro i nd h
    rw [getD_modify_cons _ _ _ _ (m.and_mask_lt hash)] at h
    split at h
    · next hi =>
      rcases List.mem_cons.mp h with rfl | h
      · exact hi
      · exact m.placed i nd h
    · exact m.placed i nd h

/-- A table of `mask + 1` empty buckets. -/
def ofMask (mask : Nat) : Hmap α where
  buckets := List.replicate (mask + 1) []
  mask := mask
  n := 0
  size_eq := List.length_replicate
  placed := by
    intro i nd h
    simp only [List.getD_eq_getElem?_getD, List.getElem?_replicate] at h
    split at h <;> simp at h

/-- `resize`: every node is inserted again, bucket by bucket. -/
def resize (m : Hmap α) (newMask : Nat) : Hmap α :=
  m.nodes.foldl (fun tmp nd => tmp.insertFast nd.elem nd.hash) (ofMask newMask)

def calcMask (capacity : Nat) : Nat :=
  let mask := capacity / 2
  let mask := mask ||| mask >>> 1
  let mask := mask ||| mask >>> 2
  let mask := mask ||| mask >>> 4
  let mask := mask ||| mask >>> 8
  let mask := mask ||| mask >>> 16
  let mask := mask ||| mask >>> 32
  -- at least four buckets once they are allocated dynamically
  mask ||| (mask &&& 1) <<< 1

theorem le_calcMask (capacity : Nat) : capacity / 2 ≤ calcMask capacity := by
  unfold calcMask
  dsimp only
  -- one `or` after the other
  repeat' refine Nat.le_trans ?_ Nat.left_le_or
  exact Nat.le_refl _

def expand (m : Hmap α) : Hmap α :=
  let newMask := calcMask m.n
  if newMask > m.mask then m.resize newMask else m

def insert (m : Hmap α) (elem : α) (hash : Nat) : Hmap α :=
  let m := m.insertFast elem hash
  if m.n / 2 > m.mask then m.expand else m

/-! ## Iteration against insertion -/

theorem nodes_insertFast (m : Hmap α) (elem : α) (hash : Nat) :
    (m.insertFast elem hash).nodes.Perm (⟨hash, elem⟩ :: m.nodes) :=
  flatten_modify_cons _ _ _ (m.and_mask_lt hash)

theorem nodes_foldl_insertFast (L : List (HmapNode α)) :
    ∀ tmp : Hmap α, (L.foldl (fun tmp nd => tmp.insertFast nd.elem nd.hash) tmp).nodes.Perm
      (L ++ tmp.nodes) := by
  induction L with
  | nil => exact fun tmp => .refl _
  | cons nd L ih =>
    intro tmp
    refine (ih _).trans ?_
    exact ((nodes_insertFast tmp nd.elem nd.hash).append_left L).trans List.perm_middle

@[simp] theorem nodes_empty : (empty : Hmap α).nodes = [] := rfl

@[simp] theorem nodes_ofMask (mask : Nat) : (ofMask mask : Hmap α).nodes = [] := by
  simp [nodes, ofMask]

@[simp] theorem mask_resize (m : Hmap α) (newMask : Nat) : (m.resize newMask).mask = newMask := by
  have hfold (L : List (HmapNode α)) (tmp : Hmap α) :
      (L.foldl (fun tmp nd => tmp.insertFast nd.elem nd.hash) tmp).mask = tmp.mask := by
    induction L generalizing tmp with
    | nil => rfl
    | cons nd L ih => exact ih _
  exact hfold m.nodes (ofMask newMask)

theorem nodes_resize (m : Hmap α) (newMask : Nat) : (m.resize newMask).nodes.Perm m.nodes := by
  simpa [resize] using nodes_foldl_insertFast m.nodes (ofMask newMask)

theorem nodes_expand (m : Hmap α) : m.expand.nodes.Perm m.nodes := by
  unfold expand
  dsimp only
  split
  · exact nodes_resize m _
  · exact .refl _

theorem nodes_insert (m : Hmap α) (elem : α) (hash : Nat) :
    (m.insert elem hash).nodes.Perm (⟨hash, elem⟩ :: m.nodes) := by
  unfold insert
  dsimp only
  split
  · exact (nodes_expand _).trans (nodes_insertFast m elem hash)
  · exact nodes_insertFast m elem hash

@[simp] theorem forEach_empty : (empty : Hmap α).forEach = [] := rfl

/-- Insertion adds exactly one element, whatever the table does with its buckets. -/
theorem forEach_insert (m : Hmap α) (elem : α) (hash : Nat) :
    (m.insert elem hash).forEach.Perm (elem :: m.forEach) :=
  (nodes_insert m elem hash).map HmapNode.elem

/-- Iterating over one hash finds every node with that hash, in iteration order. -/
theorem forEachWithHash_eq (m : Hmap α) (hash : Nat) :
    m.forEachWithHash hash = (m.nodes.filter (·.hash == hash)).map HmapNode.elem := by
  unfold forEachWithHash nodes
  rw [List.filter_flatten, flatten_eq_getD _ (hash &&& m.mask)]
  · rw [List.getD_eq_getElem?_getD, List.getD_eq_getElem?_getD, List.getElem?_map]
    cases m.buckets[hash &&& m.mask]? <;> rfl
  · intro j hj
    rw [List.getD_eq_getElem?_getD, List.getElem?_map]
    cases hb : m.buckets[j]? with
    | none => rfl
    | some chain =>
      have hchain : m.buckets.getD j [] = chain := by rw [List.getD_eq_getElem?_getD, hb]; rfl
      simp only [Option.map_some, Option.getD_some, List.filter_eq_nil_iff, beq_iff_eq]
      intro nd hnd heq
      exact hj (by rw [← m.placed j nd (hchain ▸ hnd), heq])

end Hmap

end Nox
