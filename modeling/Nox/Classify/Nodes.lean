import Nox.Classify.Cnode

/-!
# The nodes of a tree

The recursive functions over a tree in terms of its root and its children, and
the rules and addresses of its nodes.
-/

namespace Nox.Classify

namespace Cnode

section Nodes

/-! ## Nodes, addresses and rules -/

theorem nodesChain_eq (ch : List Cnode) : nodesChain ch = ch.flatMap nodes := by
  induction ch with
  | nil => rfl
  | cons c ch ih => rw [nodesChain, ih, List.flatMap_cons]

theorem nodesBuckets_eq (bs : List (List Cnode)) : nodesBuckets bs = bs.flatten.flatMap nodes := by
  induction bs with
  | nil => rfl
  | cons ch bs ih => rw [nodesBuckets, ih, nodesChain_eq, List.flatten_cons, List.flatMap_append]

theorem nodesAny_eq (any : Option Cnode) : nodesAny any = any.toList.flatMap nodes := by
  cases any with
  | none => rfl
  | some c => simp [nodesAny]

theorem nodes_eq (c : Cnode) : c.nodes = (c.addr, c.rules) :: c.children.flatMap nodes := by
  cases c with
  | leaf a v rs => rfl
  | split a v rs f bs any =>
    rw [nodes, nodesBuckets_eq, nodesAny_eq, ← List.flatMap_append]
    rfl

theorem addrs_eq (c : Cnode) : c.addrs = c.addr :: c.children.flatMap addrs := by
  rw [addrs, nodes_eq, List.map_cons, List.map_flatMap]
  rfl

/-- The rules of a subtree. -/
def allRules (c : Cnode) : List Nat :=
  c.entries.map (·.2)

theorem entries_eq (c : Cnode) :
    c.entries = c.rules.map (fun r => (c.addr, r)) ++ c.children.flatMap entries := by
  rw [entries, nodes_eq, List.flatMap_cons, List.flatMap_assoc]
  rfl

theorem allRules_eq (c : Cnode) : c.allRules = c.rules ++ c.children.flatMap allRules := by
  rw [allRules, entries_eq, List.map_append, List.map_flatMap, List.map_map]
  congr 1
  exact List.map_id _

theorem mem_addrs_of_mem_entries {c : Cnode} {e : Nat × Nat} (he : e ∈ c.entries) :
    e.1 ∈ c.addrs := by
  obtain ⟨n, hn, hr⟩ := List.mem_flatMap.mp he
  obtain ⟨r, -, rfl⟩ := List.mem_map.mp hr
  exact List.mem_map_of_mem hn

/-- The number of nodes. -/
def size (c : Cnode) : Nat :=
  c.addrs.length

theorem size_eq (c : Cnode) : c.size = (c.children.map size).sum + 1 := by
  rw [size, addrs_eq, List.length_cons, List.length_flatMap]
  rfl

end Nodes

section Ordered

/-! ## The order of the lists -/

/-- Every list below has its priorities in order. -/
def Ordered (V : View) (c : Cnode) : Prop :=
  ∀ n ∈ c.nodes, n.2.Pairwise fun x y => V.priority x ≤ V.priority y

theorem ordered_iff {V : View} {c : Cnode} :
    c.Ordered V ↔ (c.rules.Pairwise fun x y => V.priority x ≤ V.priority y) ∧
      ∀ d ∈ c.children, d.Ordered V := by
  unfold Ordered
  rw [nodes_eq]
  constructor
  · intro h
    exact ⟨h _ List.mem_cons_self, fun d hd n hn =>
      h n (List.mem_cons_of_mem _ (List.mem_flatMap.mpr ⟨d, hd, hn⟩))⟩
  · rintro ⟨hrules, hchildren⟩ n hn
    rcases List.mem_cons.mp hn with rfl | hn
    · exact hrules
    · obtain ⟨d, hd, hn⟩ := List.mem_flatMap.mp hn
      exact hchildren d hd n hn

theorem mem_entries_of_mem_nodes {c : Cnode} {n : Nat × List Nat} (hn : n ∈ c.nodes) {r : Nat}
    (hr : r ∈ n.2) : (n.1, r) ∈ c.entries :=
  List.mem_flatMap.mpr ⟨n, hn, List.mem_map_of_mem hr⟩

theorem Ordered.congr {V V' : View} {c : Cnode} (h : c.Ordered V)
    (hV : ∀ r ∈ c.allRules, V'.priority r = V.priority r) : c.Ordered V' := by
  intro n hn
  refine (h n hn).imp_of_mem fun {x y} hx hy hle => ?_
  rw [hV x (List.mem_map_of_mem (mem_entries_of_mem_nodes hn hx)),
    hV y (List.mem_map_of_mem (mem_entries_of_mem_nodes hn hy))]
  exact hle

end Ordered

section Maps

/-! ## The lists of the nodes changed -/

theorem atAddrBuckets_eq (addr : Nat) (g : List Nat → List Nat) (bs : List (List Cnode)) :
    atAddrBuckets addr g bs = bs.map fun ch => ch.map fun c => c.atAddr addr g := by
  have hchain : ∀ ch, atAddrChain addr g ch = ch.map fun c => c.atAddr addr g := by
    intro ch
    induction ch with
    | nil => rfl
    | cons c ch ih => rw [atAddrChain, ih, List.map_cons]
  induction bs with
  | nil => rfl
  | cons ch bs ih => rw [atAddrBuckets, ih, hchain, List.map_cons]

theorem atAddrAny_eq (addr : Nat) (g : List Nat → List Nat) (any : Option Cnode) :
    atAddrAny addr g any = any.map fun c => c.atAddr addr g := by
  cases any <;> rfl

/-- The nodes are the same but for the list of the one at the address. -/
theorem nodes_atAddr (addr : Nat) (g : List Nat → List Nat) (c : Cnode) :
    (c.atAddr addr g).nodes =
      c.nodes.map fun n => (n.1, if n.1 = addr then g n.2 else n.2) := by
  induction c with
  | leaf a v rs => rfl
  | split a v rs f bs any ih =>
    have hchildren : (Cnode.atAddr addr g (.split a v rs f bs any)).children =
        (bs.flatten ++ any.toList).map fun c => c.atAddr addr g := by
      rw [atAddr, atAddrBuckets_eq, atAddrAny_eq, children, ← List.map_flatten, List.map_append]
      cases any <;> rfl
    rw [nodes_eq, hchildren, nodes_eq (.split ..), List.map_cons, List.map_flatMap,
      List.flatMap_map]
    congr 1
    exact List.flatMap_congr ih

end Maps

end Cnode

end Nox.Classify
