import Mathlib.Data.List.Flatten
import Nox.Classify.Placement

/-!
# Changing a list and deleting empty subtrees

A change of the list of one node leaves all other nodes as they are, and `clean`
leaves every rule in its node.
-/

namespace Nox.Classify

open Cnode

section AtAddr

/-! ## One list -/

theorem value_atAddr (addr : Nat) (g : List Nat → List Nat) (c : Cnode) :
    (c.atAddr addr g).value = c.value := by
  cases c <;> rfl

theorem addrs_atAddr (addr : Nat) (g : List Nat → List Nat) (c : Cnode) :
    (c.atAddr addr g).addrs = c.addrs := by
  rw [addrs, nodes_atAddr, List.map_map]
  rfl

/-- The list of the node of a rule changes, and all others stay. -/
theorem entries_atAddr {c : Cnode} (hc : c.addrs.Nodup) {a r : Nat} (hr : (a, r) ∈ c.entries)
    (g : List Nat → List Nat) :
    ∃ rs rest, r ∈ rs ∧ c.entries.Perm (rs.map (fun r => (a, r)) ++ rest) ∧
      (c.atAddr a g).entries.Perm ((g rs).map (fun r => (a, r)) ++ rest) := by
  obtain ⟨⟨a', rs⟩, hn, hmem⟩ := List.mem_flatMap.mp hr
  obtain ⟨r', hr', heq⟩ := List.mem_map.mp hmem
  cases heq
  obtain ⟨l₁, l₂, hsplit⟩ := List.append_of_mem hn
  refine ⟨rs, (l₁ ++ l₂).flatMap fun n => n.2.map fun r => (n.1, r), hr', ?_, ?_⟩
  · rw [entries, hsplit]
    exact List.perm_middle.flatMap_right _
  · have hother : ∀ n ∈ l₁ ++ l₂, (if n.1 = a' then g n.2 else n.2) = n.2 := by
      intro n hn
      rw [addrs, hsplit] at hc
      have hperm : ((l₁ ++ (a', rs) :: l₂).map (·.1)).Perm (a' :: (l₁ ++ l₂).map (·.1)) :=
        List.perm_middle.map _
      have hfresh := (List.nodup_cons.mp (hperm.nodup_iff.mp hc)).1
      refine if_neg fun heq => hfresh ?_
      rw [← heq]
      exact List.mem_map_of_mem hn
    rw [entries, nodes_atAddr, hsplit, List.flatMap_map]
    refine (List.perm_middle.flatMap_right _).trans ?_
    rw [List.flatMap_cons]
    simp only [if_true]
    refine List.Perm.append_left _ (List.Perm.of_eq (List.flatMap_congr fun n hn => ?_))
    simp only [hother n hn]

theorem Placed.atAddr {V : View} {p : Nat → Prop} {c : Cnode} (h : Placed V p c) {addr : Nat}
    {g : List Nat → List Nat} (hg : ∀ n ∈ c.nodes, n.1 = addr → ∀ r ∈ g n.2, r ∈ n.2) :
    Placed V p (c.atAddr addr g) := by
  have hlist : ∀ {q : Nat → Prop} {a : Nat} {rs : List Nat},
      (a = addr → ∀ r ∈ g rs, r ∈ rs) → (∀ r ∈ rs, q r) →
      ∀ r ∈ (if a = addr then g rs else rs), q r := by
    intro q a rs hg hrs r hr
    split at hr
    · next ha => exact hrs r (hg ha r hr)
    · exact hrs r hr
  induction h with
  | leaf hrs => exact .leaf (hlist (hg _ (by rw [nodes_eq]; exact List.mem_cons_self)) hrs)
  | @split p a v rs f bs any hrs hbs hchild hany ihchild ihany =>
    rw [nodes_eq] at hg
    have hbelow : ∀ d ∈ bs.flatten ++ any.toList, ∀ n ∈ d.nodes, n.1 = addr →
        ∀ r ∈ g n.2, r ∈ n.2 := fun d hd n hn =>
      hg n (List.mem_cons_of_mem _ (List.mem_flatMap.mpr ⟨d, hd, hn⟩))
    rw [Cnode.atAddr, atAddrBuckets_eq, atAddrAny_eq]
    refine .split (hlist (hg _ List.mem_cons_self) hrs) ?_ (fun d hd => ?_) (fun d hd => ?_)
    · rw [List.map_map]
      have hvalues : ((fun ch : List Cnode => ch.map value) ∘
          fun ch : List Cnode => ch.map fun c => c.atAddr addr g) = fun ch => ch.map value := by
        funext ch
        rw [Function.comp_apply, List.map_map]
        exact List.map_congr_left fun c _ => value_atAddr addr g c
      rw [hvalues]
      exact hbs
    · rw [← List.map_flatten] at hd
      obtain ⟨c, hc, rfl⟩ := List.mem_map.mp hd
      rw [value_atAddr]
      exact ihchild c hc (hbelow c (List.mem_append_left _ hc))
    · obtain ⟨c, hc, rfl⟩ := Option.map_eq_some_iff.mp hd
      exact ihany c hc (hbelow c (List.mem_append_right _ (Option.mem_toList.mpr hc)))

theorem ordered_atAddr {V V' : View} {c : Cnode} (h : c.Ordered V) {addr : Nat}
    {g : List Nat → List Nat}
    (hg : ∀ n ∈ c.nodes, n.1 = addr → (n.2.Pairwise fun x y => V.priority x ≤ V.priority y) →
      (g n.2).Pairwise fun x y => V'.priority x ≤ V'.priority y)
    (hother : ∀ n ∈ c.nodes, n.1 ≠ addr → ∀ x ∈ n.2, V'.priority x = V.priority x) :
    (c.atAddr addr g).Ordered V' := by
  intro n' hn'
  rw [nodes_atAddr] at hn'
  obtain ⟨n, hn, rfl⟩ := List.mem_map.mp hn'
  by_cases ha : n.1 = addr
  · simp only [if_pos ha]
    exact hg n hn ha (h n hn)
  · simp only [if_neg ha]
    refine (h n hn).imp_of_mem fun {x y} hx hy hle => ?_
    rw [hother n hn ha x hx, hother n hn ha y hy]
    exact hle

end AtAddr

section Clean

/-! ## Empty subtrees -/

theorem value_clean (c : Cnode) : c.clean.2.value = c.value := by
  cases c <;> rfl

theorem cleanChain_eq (ch : List Cnode) :
    cleanChain ch = (ch.all fun c => c.clean.1,
      (ch.filter fun c => !c.clean.1).map fun c => c.clean.2) := by
  induction ch with
  | nil => rfl
  | cons c ch ih =>
    rw [cleanChain, ih]
    cases h : c.clean.1 <;> simp [h]

theorem cleanBuckets_eq (bs : List (List Cnode)) :
    cleanBuckets bs = (bs.flatten.all fun c => c.clean.1, bs.map fun ch => (cleanChain ch).2) := by
  induction bs with
  | nil => rfl
  | cons ch bs ih => simp [cleanBuckets, ih, cleanChain_eq]

theorem cleanAny_eq (any : Option Cnode) :
    cleanAny any = (any.toList.all fun c => c.clean.1,
      (any.filter fun c => !c.clean.1).map fun c => c.clean.2) := by
  cases any with
  | none => rfl
  | some c => cases h : c.clean.1 <;> simp [cleanAny, Option.filter, h]

/-- The children that are not deleted. -/
theorem children_clean (c : Cnode) : c.clean.2.children =
    (c.children.filter fun d => !d.clean.1).map fun d => d.clean.2 := by
  cases c with
  | leaf a v rs => rfl
  | split a v rs f bs any =>
    simp only [clean, children, cleanBuckets_eq, cleanAny_eq, List.filter_append, List.map_append]
    congr 1
    · rw [List.filter_flatten, List.map_flatten, List.map_map]
      congr 1
      exact List.map_congr_left fun ch _ => by rw [cleanChain_eq, Function.comp_apply]
    · cases any with
      | none => rfl
      | some d => cases h : d.clean.1 <;> simp [Option.filter, h]

theorem clean_fst (c : Cnode) :
    c.clean.1 = (c.rules.isEmpty && c.children.all fun d => d.clean.1) := by
  cases c with
  | leaf a v rs => simp [clean, children, rules]
  | split a v rs f bs any =>
    simp only [clean, cleanBuckets_eq, cleanAny_eq, children, rules, List.all_append,
      Bool.and_assoc]

theorem flatMap_filter {α β : Type} {l : List α} {keep : α → Bool} {g g' : α → List β}
    (heq : ∀ x ∈ l, g' x = g x) (hnil : ∀ x ∈ l, keep x = false → g x = []) :
    (l.filter keep).flatMap g' = l.flatMap g := by
  induction l with
  | nil => rfl
  | cons x l ih =>
    have ih := ih (fun y hy => heq y (List.mem_cons_of_mem _ hy))
      fun y hy => hnil y (List.mem_cons_of_mem _ hy)
    rw [List.flatMap_cons, List.filter_cons]
    cases hx : keep x with
    | true =>
      rw [if_pos rfl, List.flatMap_cons, ih, heq x List.mem_cons_self]
    | false =>
      rw [if_neg (by simp), ih, hnil x List.mem_cons_self hx, List.nil_append]

/-- No rule is lost, and a node that is deleted has none below it. -/
theorem entries_clean (c : Cnode) :
    c.clean.2.entries = c.entries ∧ (c.clean.1 = true → c.entries = []) := by
  induction c with
  | leaf a v rs =>
    refine ⟨rfl, fun h => ?_⟩
    rw [List.isEmpty_iff.mp h]
    rfl
  | split a v rs f bs any ih =>
    refine ⟨?_, fun h => ?_⟩
    · rw [entries_eq, children_clean, entries_eq (.split ..), List.flatMap_map]
      congr 1
      refine flatMap_filter (fun d hd => (ih d hd).1) fun d hd hkeep => ?_
      exact (ih d hd).2 (by simpa using hkeep)
    · rw [clean_fst, Bool.and_eq_true, List.all_eq_true] at h
      rw [entries_eq, List.isEmpty_iff.mp h.1]
      exact List.flatMap_eq_nil_iff.mpr fun d hd => (ih d hd).2 (h.2 d hd)

theorem nodes_clean (c : Cnode) : c.clean.2.nodes.Sublist c.nodes := by
  induction c with
  | leaf a v rs => exact List.Sublist.refl _
  | split a v rs f bs any ih =>
    rw [nodes_eq, children_clean, nodes_eq (.split ..), List.flatMap_map]
    refine List.Sublist.cons_cons _ ?_
    refine (List.Sublist.flatMap_right _ fun d hd => ih d (List.mem_of_mem_filter hd)).trans ?_
    exact List.filter_sublist.flatMap _

theorem addrs_clean (c : Cnode) : c.clean.2.addrs.Sublist c.addrs :=
  (nodes_clean c).map _

theorem ordered_clean {V : View} {c : Cnode} (h : c.Ordered V) : c.clean.2.Ordered V :=
  fun n hn => h n ((nodes_clean c).subset hn)

theorem Placed.clean {V : View} {p : Nat → Prop} {c : Cnode} (h : Placed V p c) :
    Placed V p c.clean.2 := by
  induction h with
  | leaf hrs => exact .leaf hrs
  | @split p a v rs f bs any hrs hbs hchild hany ihchild ihany =>
    simp only [Cnode.clean, cleanBuckets_eq, cleanAny_eq]
    refine .split hrs ?_ (fun d hd => ?_) (fun d hd => ?_)
    · refine hbs.of_sublist ?_
      rw [List.map_map]
      refine List.forall₂_map_left_iff.mpr (List.forall₂_map_right_iff.mpr ?_)
      refine List.forall₂_same.mpr fun ch hch => ?_
      rw [Function.comp_apply, cleanChain_eq, List.map_map]
      have hvalues : (value ∘ fun c => c.clean.2) = value := funext value_clean
      rw [hvalues]
      exact List.filter_sublist.map value
    · obtain ⟨ch, hch, hd⟩ := List.mem_flatten.mp hd
      obtain ⟨ch, hch', rfl⟩ := List.mem_map.mp hch
      rw [cleanChain_eq] at hd
      obtain ⟨c, hc, rfl⟩ := List.mem_map.mp hd
      rw [value_clean]
      exact ihchild c (List.mem_flatten.mpr ⟨ch, hch', List.mem_of_mem_filter hc⟩)
    · obtain ⟨c, hc, rfl⟩ := Option.map_eq_some_iff.mp hd
      exact ihany c (Option.mem_filter_iff.mp hc).1

end Clean

end Nox.Classify
