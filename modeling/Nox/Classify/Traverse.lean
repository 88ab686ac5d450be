import Mathlib.Data.List.Flatten
import Nox.Classify.Build
import Nox.Classify.Result

/-!
# Looking up

`get_rules` follows the data from the root: at a node split on a field into the
child for any value and, for each value that the data has, into the child for this
value; if the data has none, into all children.  The lists of the nodes it comes
to hold no rule twice (`getRules_subperm`) and every rule that the data may match
(`mem_getRules`).
-/

namespace Nox.Classify

open Cnode

section Traverse

/-! ## The nodes that are visited -/

/-- The nodes `traverse` pushes; `vals` are the values of the data for a field. -/
def Cnode.pushed (vals : Nat → List Nat) : Cnode → List Cnode
  | .leaf _ _ _ => []
  | .split _ _ _ f bs any =>
    any.toList ++
      match vals f with
      | [] => bs.flatten
      | xs => xs.filterMap fun x =>
          (bs.getD (getBucket x (bs.length - 1)) []).find? fun c => c.value == x

variable {vals : Nat → List Nat}

theorem mem_getD {bs : List (List Cnode)} {i : Nat} {c : Cnode} (hc : c ∈ bs.getD i []) :
    c ∈ bs.flatten := by
  rw [List.getD_eq_getElem?_getD] at hc
  cases hch : bs[i]? with
  | none =>
    rw [hch] at hc
    cases hc
  | some ch =>
    rw [hch] at hc
    exact List.mem_flatten.mpr ⟨ch, List.mem_of_getElem? hch, hc⟩

/-- Different values lead to different children. -/
theorem pushed_subperm (hvals : ∀ f, (vals f).Nodup) (c : Cnode) :
    (c.pushed vals).Subperm c.children := by
  cases c with
  | leaf a v rs => exact List.Subperm.refl _
  | split a v rs f bs any =>
    have hfound : ∀ xs : List Nat, xs.Nodup → (xs.filterMap fun x =>
        (bs.getD (getBucket x (bs.length - 1)) []).find? fun c => c.value == x).Subperm
          bs.flatten := by
      intro xs hxs
      refine List.subperm_of_subset ?_ fun d hd => ?_
      · refine hxs.filterMap fun x y d hx hy => ?_
        have hx := List.find?_some hx
        have hy := List.find?_some hy
        rw [beq_iff_eq] at hx hy
        exact hx.symm.trans hy
      · obtain ⟨x, -, hd⟩ := List.mem_filterMap.mp hd
        exact mem_getD (List.mem_of_find?_eq_some hd)
    have hperm : (any.toList ++ bs.flatten).Perm (bs.flatten ++ any.toList) :=
      List.perm_append_comm
    refine List.Subperm.trans ?_ hperm.subperm
    refine (List.subperm_append_left _).mpr ?_
    split
    · exact List.Subperm.refl _
    · next xs hxs => exact hfound _ (hvals f)

theorem size_pushed (hvals : ∀ f, (vals f).Nodup) (c : Cnode) :
    ((c.pushed vals).map size).sum < c.size := by
  obtain ⟨l, hl, hsub⟩ := pushed_subperm hvals c
  have heq : ((c.pushed vals).map size).sum = (l.map size).sum := (hl.map size).sum_nat.symm
  have hle : (l.map size).sum ≤ (c.children.map size).sum :=
    (hsub.map size).sum_le_sum fun _ _ => Nat.zero_le _
  rw [heq, size_eq c]
  omega

/-- The loop of `get_rules`; the nodes to traverse have their last one in front. -/
def getRulesLoop (vals : Nat → List Nat) (hvals : ∀ f, (vals f).Nodup) :
    List Cnode → CnodeResult → CnodeResult
  | [], res => res
  | c :: stack, res =>
    getRulesLoop vals hvals ((c.pushed vals).reverse ++ stack) (res.push c.rules)
termination_by stack => (stack.map size).sum
decreasing_by
  have hlt := size_pushed hvals c
  rw [List.map_append, List.sum_append, List.map_reverse, List.sum_reverse, List.map_cons,
    List.sum_cons]
  omega

/-- `get_rules` -/
def getRules (vals : Nat → List Nat) (hvals : ∀ f, (vals f).Nodup) (root : Cnode) : CnodeResult :=
  getRulesLoop vals hvals [root] []

end Traverse

section Found

/-! ## The rules that are found -/

variable {V : View} {vals : Nat → List Nat} (hvals : ∀ f, (vals f).Nodup)

include hvals in
theorem allRules_pushed (c : Cnode) :
    (c.rules ++ (c.pushed vals).flatMap allRules).Subperm c.allRules := by
  obtain ⟨l, hl, hsub⟩ := pushed_subperm hvals c
  rw [allRules_eq]
  refine (List.subperm_append_left _).mpr ?_
  exact ⟨l.flatMap allRules, hl.flatMap_right _, hsub.flatMap _⟩

/-- No rule is found twice. -/
theorem getRulesLoop_subperm (stack : List Cnode) (res : CnodeResult) :
    (getRulesLoop vals hvals stack res).pending.Subperm
      (res.pending ++ stack.flatMap allRules) := by
  induction stack, res using getRulesLoop.induct vals hvals with
  | case1 res =>
    rw [getRulesLoop, List.flatMap_nil, List.append_nil]
  | case2 c stack res ih =>
    rw [getRulesLoop]
    refine ih.trans ?_
    rw [CnodeResult.pending_push, List.flatMap_append, List.flatMap_cons, List.append_assoc,
      ← List.append_assoc c.rules]
    refine (List.subperm_append_left _).mpr ((List.subperm_append_right _).mpr ?_)
    have hperm : ((c.pushed vals).reverse.flatMap allRules).Perm
        ((c.pushed vals).flatMap allRules) := (List.reverse_perm _).flatMap_right _
    exact (hperm.append_left _).subperm.trans (allRules_pushed hvals c)

/-- A property of the cursors holds when it does for those put on the lists. -/
theorem getRulesLoop_cursors {q : Cursor → Prop} (stack : List Cnode) (res : CnodeResult)
    (hstack : ∀ c ∈ stack, ∀ n ∈ c.nodes, ∀ r rs, n.2 = r :: rs → q ⟨r, rs, false⟩)
    (hres : ∀ cur ∈ res, q cur) : ∀ cur ∈ getRulesLoop vals hvals stack res, q cur := by
  induction stack, res using getRulesLoop.induct vals hvals with
  | case1 res =>
    rw [getRulesLoop]
    exact hres
  | case2 c stack res ih =>
    rw [getRulesLoop]
    have hc := hstack c List.mem_cons_self
    rw [nodes_eq] at hc
    refine ih (fun d hd n hn => ?_) fun cur hcur => ?_
    · rcases List.mem_append.mp hd with hd | hd
      · have hmem := (pushed_subperm hvals c).subset (List.mem_reverse.mp hd)
        exact hc n (List.mem_cons_of_mem _ (List.mem_flatMap.mpr ⟨d, hmem, hn⟩))
      · exact hstack d (List.mem_cons_of_mem _ hd) n hn
    · have hown := hc _ List.mem_cons_self
      cases hrules : c.rules with
      | nil =>
        rw [hrules] at hcur
        exact hres cur hcur
      | cons r rs =>
        rw [hrules, CnodeResult.push, List.mem_append, List.mem_singleton] at hcur
        rcases hcur with hcur | rfl
        · exact hres cur hcur
        · exact hown r rs hrules

/-- Where the data may match a rule, the lookup follows. -/
theorem mem_pushed {p : Nat → Prop} {c : Cnode} (hc : Placed V p c) {r : Nat}
    (hr : r ∈ c.allRules)
    (hfollow : ∀ f v, V.getField r f = some v → vals f = [] ∨ v ∈ vals f) :
    r ∈ c.rules ∨ ∃ d ∈ c.pushed vals, r ∈ d.allRules ∧ ∃ q, Placed V q d := by
  rw [allRules_eq, List.mem_append] at hr
  refine hr.imp_right fun hr => ?_
  obtain ⟨d, hd, hrd⟩ := List.mem_flatMap.mp hr
  cases hc with
  | leaf hrs => cases hd
  | @split _ a v rs f bs any hrs hbs hchild hany =>
    rcases List.mem_append.mp hd with hd | hd
    · refine ⟨d, List.mem_append_right _ ?_, hrd, _, hchild d hd⟩
      have hfield := ((hchild d hd).holds r hrd).2
      cases hvs : vals f with
      | nil => exact hd
      | cons x xs =>
        have hvalue : d.value ∈ x :: xs := by
          rcases hfollow f d.value hfield with hno | hmem
          · rw [hvs] at hno
            cases hno
          · rwa [hvs] at hmem
        refine List.mem_filterMap.mpr ⟨d.value, hvalue, ?_⟩
        obtain ⟨ch, hch, hdch⟩ := List.mem_flatten.mp hd
        obtain ⟨i, hi⟩ := List.mem_iff_getElem?.mp hch
        have hhome := hbs.home i (ch.map value) (by rw [List.getElem?_map, hi]; rfl) d.value
          (List.mem_map_of_mem hdch)
        rw [List.length_map] at hhome
        rw [hhome, List.getD_eq_getElem?_getD, hi, Option.getD_some]
        have hfound : (ch.find? fun c => c.value == d.value).isSome :=
          List.find?_isSome.mpr ⟨d, hdch, beq_self_eq_true d.value⟩
        obtain ⟨e, he⟩ := Option.isSome_iff_exists.mp hfound
        have hbeq := List.find?_some he
        have hvalue : e.value = d.value := beq_iff_eq.mp hbeq
        have hnodup := hbs.nodup (ch.map value) (List.mem_map_of_mem hch)
        rw [he, List.inj_on_of_nodup_map hnodup (List.mem_of_find?_eq_some he) hdch hvalue]
    · exact ⟨d, List.mem_append_left _ hd, hrd, _, hany d (Option.mem_toList.mp hd)⟩

theorem mem_getRulesLoop {r : Nat}
    (hfollow : ∀ f v, V.getField r f = some v → vals f = [] ∨ v ∈ vals f) (stack : List Cnode)
    (res : CnodeResult) (h : r ∈ res.pending ∨ ∃ c ∈ stack, r ∈ c.allRules ∧ ∃ p, Placed V p c) :
    r ∈ (getRulesLoop vals hvals stack res).pending := by
  induction stack, res using getRulesLoop.induct vals hvals with
  | case1 res =>
    rw [getRulesLoop]
    rcases h with h | ⟨c, hc, -⟩
    · exact h
    · cases hc
  | case2 c stack res ih =>
    rw [getRulesLoop]
    refine ih ?_
    rw [CnodeResult.pending_push, List.mem_append]
    rcases h with h | ⟨d, hd, hr, p, hplaced⟩
    · exact .inl (.inl h)
    · rcases List.mem_cons.mp hd with rfl | hd
      · rcases mem_pushed hplaced hr hfollow with hr | ⟨e, he, hr, hq⟩
        · exact .inl (.inr hr)
        · exact .inr ⟨e, List.mem_append_left _ (List.mem_reverse.mpr he), hr, hq⟩
      · exact .inr ⟨d, List.mem_append_right _ hd, hr, p, hplaced⟩

theorem getRules_subperm (root : Cnode) :
    (getRules vals hvals root).pending.Subperm root.allRules := by
  have h := getRulesLoop_subperm hvals [root] []
  rw [List.flatMap_singleton] at h
  exact h

/-- Every rule that the data may match is found. -/
theorem mem_getRules {p : Nat → Prop} {root : Cnode} (hroot : Placed V p root) {r : Nat}
    (hr : r ∈ root.allRules)
    (hfollow : ∀ f v, V.getField r f = some v → vals f = [] ∨ v ∈ vals f) :
    r ∈ (getRules vals hvals root).pending :=
  mem_getRulesLoop hvals hfollow [root] [] (.inr ⟨root, List.mem_singleton_self _, hr, p, hroot⟩)

theorem getRules_fresh (root : Cnode) :
    ∀ cur ∈ getRules vals hvals root, cur.ismatch = false :=
  getRulesLoop_cursors hvals [root] [] (fun _ _ _ _ _ _ _ => rfl) fun _ hcur => nomatch hcur

theorem getRules_ordered {root : Cnode} (h : root.Ordered V) :
    ∀ cur ∈ getRules vals hvals root, cur.Ordered V.priority := by
  refine getRulesLoop_cursors hvals [root] [] (fun c hc n hn r rs heq => ?_)
    fun _ hcur => nomatch hcur
  rw [List.mem_singleton.mp hc] at hn
  have hordered := h n hn
  rw [heq] at hordered
  exact hordered

end Found

end Nox.Classify
