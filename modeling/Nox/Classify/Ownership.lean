import Nox.Classify.Classifier

/-!
# Who holds the rules

`Inv` is what every operation preserves: the rules of the tree are those of the
table, each in one list of one node and pointing back at this node, and every list
is in order.
-/

namespace Nox.Classify

open Cnode

variable {Expr Data Action : Type} {I : Interface Expr Data}

section Invariant

/-! ## The invariant -/

structure Inv (I : Interface Expr Data) (s : Classifier Expr Action) : Prop where
  placed : Placed (I.view s.rules) (fun _ => True) s.root
  ordered : s.root.Ordered (I.view s.rules)
  nodup : s.root.allRules.Nodup
  live : ∀ id, id ∈ s.root.allRules ↔ (s.rules id).isSome
  node : ∀ e ∈ s.root.entries, s.memory.node e.2 = some e.1
  addrs : s.root.addrs.Nodup
  fresh : ∀ a ∈ s.root.addrs, a < s.memory.next
  counter : 1 ≤ s.idCounter ∧ s.idCounter < 2 ^ 32

/-- A live rule is in the list of the node it points at. -/
theorem Inv.entry {s : Classifier Expr Action} (h : Inv I s) {id : Nat}
    (hid : (s.rules id).isSome) : ∃ a, (a, id) ∈ s.root.entries ∧ s.memory.node id = some a := by
  obtain ⟨⟨a, id'⟩, he, rfl⟩ := List.mem_map.mp ((h.live id).mpr hid)
  exact ⟨a, he, h.node _ he⟩

theorem inv_start (forced : Option (Nat × Nat)) :
    Inv I (Classifier.start forced : Classifier Expr Action) := by
  have hchildren : (Classifier.start forced : Classifier Expr Action).root.children = [] := by
    cases forced <;> simp [Classifier.start, children]
  have hrules : (Classifier.start forced : Classifier Expr Action).root.rules = [] := by
    cases forced <;> rfl
  have hentries : (Classifier.start forced : Classifier Expr Action).root.entries = [] := by
    rw [entries_eq, hchildren, hrules]
    rfl
  have haddrs : (Classifier.start forced : Classifier Expr Action).root.addrs = [0] := by
    rw [addrs_eq, hchildren]
    cases forced <;> rfl
  refine ⟨?_, ?_, ?_, fun id => ?_, fun e he => ?_, ?_, fun a ha => ?_,
    (by decide : 1 ≤ 1 ∧ 1 < 2 ^ 32)⟩
  · cases forced with
    | none => exact .leaf fun r hr => absurd hr List.not_mem_nil
    | some fl =>
      refine .split (fun r hr => absurd hr List.not_mem_nil) ?_ (fun c hc => ?_) ?_
      · rw [List.map_replicate]
        exact bucketed_replicate (Nat.two_pow_pos fl.2)
      · simp at hc
      · intro c hc
        cases hc
  · refine ordered_iff.mpr ⟨?_, fun c hc => ?_⟩
    · rw [hrules]
      exact List.Pairwise.nil
    · rw [hchildren] at hc
      cases hc
  · rw [allRules, hentries]
    exact List.nodup_nil
  · rw [allRules, hentries]
    simp [Classifier.start]
  · rw [hentries] at he
    cases he
  · exact haddrs ▸ List.nodup_singleton 0
  · rw [haddrs, List.mem_singleton] at ha
    rw [ha]
    exact Nat.one_pos

end Invariant

section Rules

/-! ## Adding, deleting and changing a rule -/

variable {s : Classifier Expr Action}

/-- A change of the rule `id` is not seen through the other pointers. -/
theorem getField_update (rules : Nat → Option (Rule Expr Action)) (id : Nat)
    (rule : Option (Rule Expr Action)) {r : Nat} (hr : r ≠ id) :
    (I.view (Function.update rules id rule)).getField r = (I.view rules).getField r := by
  funext f
  simp [Interface.view, Function.update_of_ne hr]

theorem priority_update (rules : Nat → Option (Rule Expr Action)) (id : Nat)
    (rule : Option (Rule Expr Action)) {r : Nat} (hr : r ≠ id) :
    (I.view (Function.update rules id rule)).priority r = (I.view rules).priority r := by
  simp [Interface.view, Function.update_of_ne hr]

/-- The table after the rule `id` is put into or taken from it. -/
theorem isSome_update {rules : Nat → Option (Rule Expr Action)} {id : Nat}
    {rule : Option (Rule Expr Action)} {x : Nat} :
    (Function.update rules id rule x).isSome ↔
      x = id ∧ rule.isSome ∨ x ≠ id ∧ (rules x).isSome := by
  by_cases hx : x = id
  · subst hx
    simp
  · simp [hx]

theorem Inv.addRule (h : Inv I s) (priority : Nat) (expr : Expr) (action : Action) :
    Inv I (s.addRule I priority expr action).2 := by
  have hrange : 1 ≤ (getId (fun id => (s.rules id).isSome) s.idCounter).2 ∧
      (getId (fun id => (s.rules id).isSome) s.idCounter).2 < 2 ^ 32 :=
    getId_range h.counter.1 h.counter.2
  unfold Classifier.addRule
  split
  · next counter hid =>
    rw [hid] at hrange
    exact { h with counter := hrange }
  · next id counter hid =>
    rw [hid] at hrange
    have hunused := getId_unused (congrArg Prod.fst hid)
    have hnew : id ∉ s.root.allRules := fun hmem => by
      have hsome := (h.live id).mp hmem
      rw [hunused] at hsome
      cases hsome
    have hne : ∀ r ∈ s.root.allRules, r ≠ id := fun r hr heq => hnew (heq ▸ hr)
    set V' := I.view (Function.update s.rules id (some ⟨priority, expr, action⟩))
    have hplaced : Placed V' (fun _ => True) s.root :=
      h.placed.congr (fun _ _ hp => hp) fun r hr => getField_update _ _ _ (hne r hr)
    have hordered : s.root.Ordered V' :=
      h.ordered.congr fun r hr => priority_update _ _ _ (hne r hr)
    have hadd : Added V' id s.memory.next s.root (s.root.addRule V' id s.memory.next 0).1
        (s.root.addRule V' id s.memory.next 0).2 := hplaced.added 0
    have hperm := hadd.entries.map (·.2)
    refine ⟨hadd.placed hplaced trivial, hadd.ordered hordered, ?_, fun x => ?_, fun e he => ?_, ?_,
      fun a ha => ?_, hrange⟩
    · exact hperm.nodup_iff.mpr (h.nodup.cons hnew)
    · rw [isSome_update]
      refine (hperm.mem_iff (a := x)).trans ?_
      rw [List.map_cons, List.mem_cons]
      have hlive := h.live x
      rw [allRules] at hlive
      rw [hlive]
      by_cases hx : x = id
      · simp [hx]
      · simp [hx]
    · rcases List.mem_cons.mp (hadd.entries.mem_iff.mp he) with rfl | he
      · exact Function.update_self ..
      · have hother : e.2 ≠ id := hne e.2 (List.mem_map_of_mem he)
        exact (Function.update_of_ne hother ..).trans (h.node e he)
    · rcases hadd.addrs with hperm | hperm
      · exact hperm.nodup_iff.mpr h.addrs
      · refine hperm.nodup_iff.mpr (h.addrs.cons fun hmem => ?_)
        exact Nat.lt_irrefl _ (h.fresh _ hmem)
    · rcases hadd.addrs with hperm | hperm
      · exact Nat.lt_succ_of_lt (h.fresh a (hperm.mem_iff.mp ha))
      · rcases List.mem_cons.mp (hperm.mem_iff.mp ha) with rfl | ha
        · exact Nat.lt_succ_self _
        · exact Nat.lt_succ_of_lt (h.fresh a ha)

/-- Two nodes with the same address are one. -/
theorem eq_of_addr_eq {c : Cnode} (hc : c.addrs.Nodup) {n n' : Nat × List Nat} (hn : n ∈ c.nodes)
    (hn' : n' ∈ c.nodes) (heq : n.1 = n'.1) : n = n' :=
  List.inj_on_of_nodup_map hc hn hn' heq

theorem Inv.nodup_rules (h : Inv I s) {n : Nat × List Nat} (hn : n ∈ s.root.nodes) :
    n.2.Nodup := by
  have hsub : (n.2.map fun r => (n.1, r)).Sublist s.root.entries :=
    List.sublist_flatten_of_mem (List.mem_map_of_mem hn)
  exact (hsub.nodup (List.Nodup.of_map _ h.nodup)).of_map

theorem Inv.changeRulePriority (h : Inv I s) (id priority : Nat) :
    Inv I (s.changeRulePriority I id priority).2 ∧
      (s.changeRulePriority I id priority).1 = (s.rules id).isSome ∧
      (s.changeRulePriority I id priority).2.rules = Function.update s.rules id
        ((s.rules id).map fun rule => { rule with priority := priority }) ∧
      (s.changeRulePriority I id priority).2.idCounter = s.idCounter := by
  cases hid : s.rules id with
  | none =>
    have heq : s.changeRulePriority I id priority = (false, s) := by
      rw [Classifier.changeRulePriority, hid]
    rw [heq]
    refine ⟨h, rfl, ?_, rfl⟩
    rw [Option.map_none, ← hid, Function.update_eq_self]
  | some rule =>
    obtain ⟨addr, hentry, hnode⟩ := h.entry (hid ▸ rfl : (s.rules id).isSome)
    obtain ⟨n, hn, hmem⟩ := List.mem_flatMap.mp hentry
    obtain ⟨r, hr, hpair⟩ := List.mem_map.mp hmem
    cases hpair
    have hfound : (s.root.nodes.any fun m => m.1 == n.1 && m.2.contains id) = true :=
      List.any_eq_true.mpr ⟨n, hn, by simp [hr]⟩
    let V' := I.view (Function.update s.rules id (some { rule with priority := priority }))
    have heq : s.changeRulePriority I id priority = (true, { s with
        rules := Function.update s.rules id (some { rule with priority := priority })
        root := s.root.atAddr n.1 fun rs => addRuleToList V' id (rs.erase id) }) := by
      rw [Classifier.changeRulePriority, hid, hnode]
      simp only [hfound, if_true]
      rfl
    have hfield : V'.getField = (I.view s.rules).getField := by
      funext r f
      by_cases hr : r = id
      · subst hr
        simp [V', Interface.view, hid]
      · exact congrFun (getField_update _ _ _ hr) f
    have hlist : ∀ rs : List Nat, id ∈ rs → (addRuleToList V' id (rs.erase id)).Perm rs :=
      fun rs hmem => (addRuleToList_perm V' id _).trans (List.perm_cons_erase hmem).symm
    obtain ⟨rs, rest, hmem, hold, hnew⟩ := entries_atAddr h.addrs hentry
      fun rs => addRuleToList V' id (rs.erase id)
    have hperm := (hnew.trans (((hlist rs hmem).map _).append_right _)).trans hold.symm
    have hrules : (s.root.atAddr n.1 fun rs =>
        addRuleToList V' id (rs.erase id)).allRules.Perm s.root.allRules := hperm.map _
    have hatNode : ∀ m ∈ s.root.nodes, m.1 = n.1 → id ∈ m.2 := fun m hm heq =>
      eq_of_addr_eq h.addrs hm hn heq ▸ hr
    rw [heq]
    refine ⟨⟨?_, ?_, ?_, fun x => ?_, fun e he => ?_, ?_, ?_, h.counter⟩, rfl, rfl, rfl⟩
    · have hplaced : Placed V' (fun _ => True) s.root :=
        h.placed.congr (fun _ _ hp => hp) fun r _ => congrFun hfield r
      refine hplaced.atAddr ?_
      exact fun m hm heq x hx => (hlist m.2 (hatNode m hm heq)).mem_iff.mp hx
    · refine ordered_atAddr h.ordered (fun m hm heq hsorted => ?_) fun m hm hne x hx => ?_
      · refine addRuleToList_ordered V' id ?_
        refine (hsorted.sublist (List.erase_sublist ..)).imp_of_mem fun {x y} hx hy hle => ?_
        have hne : ∀ {x}, x ∈ m.2.erase id → x ≠ id := fun hx heq =>
          (h.nodup_rules hm).not_mem_erase (heq ▸ hx)
        rw [priority_update _ _ _ (hne hx), priority_update _ _ _ (hne hy)]
        exact hle
      · refine priority_update _ _ _ fun heq => hne ?_
        have hentry' := h.node _ (mem_entries_of_mem_nodes hm hx)
        rw [heq, hnode] at hentry'
        exact (Option.some.inj hentry').symm
    · exact hrules.nodup_iff.mpr h.nodup
    · rw [isSome_update]
      refine hrules.mem_iff.trans ((h.live x).trans ?_)
      by_cases hx : x = id
      · simp [hx, hid]
      · simp [hx]
    · exact h.node e (hperm.mem_iff.mp he)
    · rw [addrs_atAddr]
      exact h.addrs
    · rw [addrs_atAddr]
      exact h.fresh

theorem Inv.deleteRule (h : Inv I s) (id : Nat) :
    Inv I (s.deleteRule id).2 ∧ (s.deleteRule id).1 = (s.rules id).isSome ∧
      (s.deleteRule id).2.rules = Function.update s.rules id none ∧
      (s.deleteRule id).2.idCounter = s.idCounter := by
  cases hid : s.rules id with
  | none =>
    have heq : s.deleteRule id = (false, s) := by
      rw [Classifier.deleteRule, hid]
    rw [heq]
    refine ⟨h, rfl, ?_, rfl⟩
    rw [← hid, Function.update_eq_self]
  | some rule =>
    obtain ⟨addr, hentry, hnode⟩ := h.entry (hid ▸ rfl : (s.rules id).isSome)
    have heq : s.deleteRule id = (true, { s with
        rules := Function.update s.rules id none
        root := s.root.atAddr addr fun rs => rs.erase id
        memory := { s.memory with node := Function.update s.memory.node id none } }) := by
      rw [Classifier.deleteRule, hid, hnode]
    obtain ⟨rs, rest, hmem, hold, hnew⟩ := entries_atAddr h.addrs hentry fun rs => rs.erase id
    have hperm : s.root.entries.Perm ((addr, id) ::
        (s.root.atAddr addr fun rs => rs.erase id).entries) := by
      refine hold.trans (.trans ?_ (hnew.symm.cons _))
      exact ((List.perm_cons_erase hmem).map _).append_right _
    have hrules := hperm.map (·.2)
    have hnodup := hrules.nodup_iff.mp h.nodup
    rw [List.map_cons, List.nodup_cons] at hnodup
    have hne : ∀ r ∈ (s.root.atAddr addr fun rs => rs.erase id).allRules, r ≠ id :=
      fun r hr heq => hnodup.1 (heq ▸ hr)
    have hsub : ∀ m ∈ s.root.nodes, m.1 = addr → ∀ r ∈ m.2.erase id, r ∈ m.2 :=
      fun m _ _ r hr => List.mem_of_mem_erase hr
    rw [heq]
    refine ⟨⟨?_, ?_, hnodup.2, fun x => ?_, fun e he => ?_, ?_, ?_, h.counter⟩, rfl, rfl, rfl⟩
    · exact (h.placed.atAddr hsub).congr (fun _ _ hp => hp)
        fun r hr => getField_update _ _ _ (hne r hr)
    · refine Ordered.congr (V := I.view s.rules) ?_ fun r hr => priority_update _ _ _ (hne r hr)
      exact ordered_atAddr h.ordered
        (fun m _ _ hsorted => hsorted.sublist (List.erase_sublist ..)) fun _ _ _ _ _ => rfl
    · rw [isSome_update]
      have hlive := (hrules.mem_iff (a := x)).symm.trans (h.live x)
      rw [List.map_cons, List.mem_cons] at hlive
      constructor
      · exact fun hx => .inr ⟨hne x hx, hlive.mp (.inr hx)⟩
      · rintro (⟨-, hx⟩ | ⟨hx, hsome⟩)
        · cases hx
        · exact (hlive.mpr hsome).resolve_left hx
    · have hother : e.2 ≠ id := hne e.2 (List.mem_map_of_mem he)
      refine (Function.update_of_ne hother ..).trans (h.node e ?_)
      exact hperm.mem_iff.mpr (List.mem_cons_of_mem _ he)
    · rw [addrs_atAddr]
      exact h.addrs
    · rw [addrs_atAddr]
      exact h.fresh

end Rules

section Tree

/-! ## Building, unbuilding and cleaning -/

variable {s : Classifier Expr Action}

/-- A new version of the root. -/
theorem Inv.rebuilds (h : Inv I s) {c : Cnode} {m : Memory}
    (hrebuilds : Rebuilds (I.view s.rules) false [s.root] s.memory [c] m) :
    Inv I { s with root := c, memory := m } := by
  have hrules := hrebuilds.rules
  have haddrs := hrebuilds.addrs
  have hnodup := hrebuilds.nodup
  have hptr := hrebuilds.pointers rfl
  simp only [List.flatMap_singleton] at hrules haddrs hnodup hptr
  obtain ⟨-, hplaced⟩ : c.value = s.root.value ∧ ∀ p, Placed (I.view s.rules) p s.root →
      Placed (I.view s.rules) p c := by
    cases hrebuilds.placed with
    | cons hc _ => exact hc
  refine ⟨hplaced _ h.placed, ?_, hrules.nodup_iff.mpr h.nodup, fun id => ?_, hptr h.nodup h.node,
    hnodup h.addrs h.fresh, fun a ha => ?_, h.counter⟩
  · refine hrebuilds.ordered (fun d hd => ?_) c (List.mem_singleton_self c)
    rw [List.mem_singleton.mp hd]
    exact h.ordered
  · exact hrules.mem_iff.trans (h.live id)
  · rcases haddrs a ha with hold | hnew
    · exact Nat.lt_of_lt_of_le (h.fresh a hold) hrebuilds.next
    · exact hnew.2

theorem Inv.rebuild (h : Inv I s) {c : Cnode} {m : Memory}
    (hbuilt : Built (I.view s.rules) false s.root s.memory c m) : Inv I (s.reset (c, m)) := by
  have hreset : s.reset (c, m) = { s with root := c, memory := m } := by
    rw [Classifier.reset, hbuilt.destroy h.fresh]
  rw [hreset]
  exact h.rebuilds hbuilt.rebuilds

theorem Inv.build {s' : Classifier Expr Action} (h : Inv I s) (hs : s.build I = some s') :
    Inv I s' ∧ s'.rules = s.rules ∧ s'.idCounter = s.idCounter := by
  obtain ⟨⟨c, m⟩, hbuild, rfl⟩ := Option.map_eq_some_iff.mp hs
  exact ⟨h.rebuild (build_rebuilds h.fresh hbuild), rfl, rfl⟩

/-- `build` always returns. -/
theorem Inv.build_isSome (h : Inv I s) : (s.build I).isSome := by
  rw [Classifier.build, Option.isSome_map]
  exact Nox.Classify.build_isSome h.fresh
    (Nat.add_le_add_left (remaining_zero_le (V := I.view s.rules) 0) _)

/-- The lists of all nodes are merged. -/
theorem merge_nodes (V : View) (ns : List (Nat × List Nat)) (l : List Nat) :
    (ns.foldl (fun l n => l.merge n.2 fun x y => !decide (V.priority y < V.priority x)) l).Perm
      (l ++ ns.flatMap (·.2)) ∧
    ((l.Pairwise fun x y => V.priority x ≤ V.priority y) →
      (∀ n ∈ ns, n.2.Pairwise fun x y => V.priority x ≤ V.priority y) →
      (ns.foldl (fun l n => l.merge n.2 fun x y => !decide (V.priority y < V.priority x))
        l).Pairwise fun x y => V.priority x ≤ V.priority y) := by
  have hle : ∀ {x y : Nat}, (!decide (V.priority y < V.priority x)) = true ↔
      V.priority x ≤ V.priority y := by
    intro x y
    simp
  induction ns generalizing l with
  | nil => exact ⟨by simp, fun hl _ => hl⟩
  | cons n ns ih =>
    obtain ⟨hperm, hordered⟩ := ih (l.merge n.2 fun x y => !decide (V.priority y < V.priority x))
    refine ⟨?_, fun hl hns => hordered ?_ fun m hm => hns m (List.mem_cons_of_mem _ hm)⟩
    · refine hperm.trans ?_
      rw [List.flatMap_cons, ← List.append_assoc]
      exact List.Perm.append_right _ (List.merge_perm_append ..)
    · have hmerge : (l.merge n.2 fun x y => !decide (V.priority y < V.priority x)).Pairwise
          fun x y => (!decide (V.priority y < V.priority x)) = true := by
        apply List.pairwise_merge
        · exact fun a b c hab hbc => hle.mpr (Nat.le_trans (hle.mp hab) (hle.mp hbc))
        · intro a b
          rw [Bool.or_eq_true, hle, hle]
          exact Nat.le_total _ _
        · exact hl.imp fun h => hle.mpr h
        · exact (hns n List.mem_cons_self).imp fun h => hle.mpr h
      exact hmerge.imp fun h => hle.mp h

theorem allRules_eq_nodes (c : Cnode) : c.allRules = c.nodes.flatMap (·.2) := by
  rw [allRules, entries, List.map_flatMap]
  congr 1
  funext n
  rw [List.map_map]
  exact List.map_id _

theorem Inv.unbuild (h : Inv I s) :
    Inv I (s.unbuild I) ∧ (s.unbuild I).rules = s.rules ∧ (s.unbuild I).idCounter = s.idCounter := by
  refine ⟨?_, rfl, rfl⟩
  cases hroot : s.root with
  | leaf a v rs =>
    have heq : s.unbuild I = s := by
      rw [Classifier.unbuild, hroot, Cnode.unbuild, Classifier.reset, hroot, if_pos rfl]
      cases s
      simp only at hroot
      rw [hroot]
    rw [heq]
    exact h
  | split a v rs f bs any =>
    obtain ⟨hperm, hordered⟩ := merge_nodes (I.view s.rules) s.root.nodes []
    have hordered := hordered List.Pairwise.nil h.ordered
    rw [List.nil_append, ← allRules_eq_nodes] at hperm
    rw [hroot] at hperm hordered
    rw [Classifier.unbuild, hroot, Cnode.unbuild]
    generalize (Cnode.split a v rs f bs any).nodes.foldl _ [] = merged at hperm hordered
    rw [← hroot] at hperm
    have hentries : (Cnode.leaf s.memory.next v merged).entries =
        merged.map fun r => (s.memory.next, r) := by
      rw [entries_eq]
      simp [Cnode.addr, rules, children]
    have hrules : (Cnode.leaf s.memory.next v merged).allRules = merged := by
      rw [allRules_eq]
      simp [rules, children]
    have haddrs : (Cnode.leaf s.memory.next v merged).addrs = [s.memory.next] := rfl
    have hroot' : [s.root].flatMap Cnode.allRules = s.root.allRules := List.flatMap_singleton ..
    have hleaf : [Cnode.leaf s.memory.next v merged].flatMap Cnode.allRules = merged := by
      rw [List.flatMap_singleton, hrules]
    refine h.rebuild ⟨⟨?_, ?_, fun a ha => ?_, fun _ _ => ?_, ?_, fun _ c hc => ?_,
      fun r hr => ?_, fun _ _ _ e he => ?_⟩, .inr ⟨rfl, fun r hr => ?_⟩⟩
    · rw [setNodePointers_next]
      exact Nat.le_succ _
    · rw [hleaf, hroot']
      exact hperm
    · rw [setNodePointers_next]
      rw [List.flatMap_singleton, haddrs, List.mem_singleton] at ha
      rw [ha]
      exact .inr ⟨Nat.le_refl _, Nat.lt_succ_self _⟩
    · rw [List.flatMap_singleton, haddrs]
      exact List.nodup_singleton _
    · refine .cons ⟨by rw [hroot]; rfl, fun p hp => .leaf fun r hr => ?_⟩ .nil
      exact hp.holds r (hperm.mem_iff.mp hr)
    · rw [List.mem_singleton.mp hc]
      exact ordered_iff.mpr ⟨hordered, fun d hd => absurd hd List.not_mem_nil⟩
    · rw [hroot', ← hperm.mem_iff] at hr
      rcases setNodePointers_node { s.memory with next := s.memory.next + 1 }
        (.leaf s.memory.next v merged) r with ⟨a, ha, -⟩ | ⟨-, hnode⟩
      · have hmem : r ∈ (Cnode.leaf s.memory.next v merged).allRules := List.mem_map_of_mem ha
        rw [hrules] at hmem
        exact absurd hmem (hr.resolve_left Bool.false_ne_true)
      · exact hnode
    · rw [List.flatMap_singleton] at he
      refine setNodePointers_mem ?_ e he
      rw [hrules]
      exact hperm.nodup_iff.mpr h.nodup
    · rcases setNodePointers_node { s.memory with next := s.memory.next + 1 }
        (.leaf s.memory.next v merged) r with ⟨a, ha, hnode⟩ | ⟨hno, -⟩
      · have hmem := mem_addrs_of_mem_entries ha
        rw [haddrs, List.mem_singleton] at hmem
        exact ⟨a, Nat.le_of_eq hmem.symm, hnode⟩
      · rw [hrules] at hno
        exact absurd (hperm.mem_iff.mpr hr) hno

theorem Inv.clean (h : Inv I s) : Inv I s.clean := by
  have hentries := (entries_clean s.root).1
  have hrules : s.root.clean.2.allRules = s.root.allRules := by
    rw [allRules, hentries]
    rfl
  refine ⟨h.placed.clean, ordered_clean h.ordered, hrules ▸ h.nodup, fun id => ?_, fun e he => ?_,
    (addrs_clean s.root).nodup h.addrs, fun a ha => ?_, h.counter⟩
  · exact (hrules ▸ h.live id :)
  · exact h.node e (hentries ▸ he)
  · exact h.fresh a ((addrs_clean s.root).subset ha)

end Tree

end Nox.Classify
