import Nox.Classify.Placement

/-!
# Adding a rule

`Added` says what `add_rule` can do to a tree, one constructor for every way down:
the rule is put into the list of a node, into that of a child, or a child is made
for it.
-/

namespace Nox.Classify

open Cnode

section Added

/-! ## What adding does -/

/-- `r` was added to the first tree; the last argument is the address of its node. -/
inductive Added (V : View) (r fresh : Nat) : Cnode → Cnode → Nat → Prop
  | leaf {a v : Nat} {rs : List Nat} :
    Added V r fresh (.leaf a v rs) (.leaf a v (addRuleToList V r rs)) a
  | here {a v : Nat} {rs : List Nat} {f : Nat} {bs : List (List Cnode)} {any : Option Cnode} :
    Added V r fresh (.split a v rs f bs any) (.split a v (addRuleToList V r rs) f bs any) a
  | child {a v : Nat} {rs : List Nat} {f : Nat} {bs : List (List Cnode)} {any : Option Cnode}
      {i : Nat} {l₁ l₂ : List Cnode} {c c' : Cnode} {t : Nat}
      (hch : bs[i]? = some (l₁ ++ c :: l₂)) (hfield : V.getField r f = some c.value)
      (hc : Added V r fresh c c' t) :
    Added V r fresh (.split a v rs f bs any) (.split a v rs f (bs.set i (l₁ ++ c' :: l₂)) any) t
  | newChild {a v : Nat} {rs : List Nat} {f : Nat} {bs : List (List Cnode)} {any : Option Cnode}
      {x : Nat} {ch : List Cnode} (hch : bs[getBucket x (bs.length - 1)]? = some ch)
      (hfield : V.getField r f = some x) (hx : ∀ c ∈ ch, c.value ≠ x) :
    Added V r fresh (.split a v rs f bs any)
      (.split a v rs f (bs.set (getBucket x (bs.length - 1)) (.leaf fresh x [r] :: ch)) any) fresh
  | anyNode {a v : Nat} {rs : List Nat} {f : Nat} {bs : List (List Cnode)} {c c' : Cnode} {t : Nat}
      (hfield : V.getField r f = none) (hc : Added V r fresh c c' t) :
    Added V r fresh (.split a v rs f bs (some c)) (.split a v rs f bs (some c')) t
  | newAny {a v : Nat} {rs : List Nat} {f : Nat} {bs : List (List Cnode)}
      (hfield : V.getField r f = none) :
    Added V r fresh (.split a v rs f bs none)
      (.split a v rs f bs (some (.leaf fresh 0 [r]))) fresh

variable {V : View} {r fresh : Nat}

theorem addRuleChain_some {path x : Nat} {ch : List Cnode} {t : List Cnode × Nat}
    (h : addRuleChain V r fresh path x ch = some t) :
    ∃ l₁ c l₂, ch = l₁ ++ c :: l₂ ∧ c.value = x ∧
      t = (l₁ ++ (c.addRule V r fresh path).1 :: l₂, (c.addRule V r fresh path).2) := by
  induction ch generalizing t with
  | nil => cases h
  | cons c ch ih =>
    rw [addRuleChain] at h
    split at h
    · next hc =>
      cases h
      exact ⟨[], c, ch, rfl, hc, rfl⟩
    · obtain ⟨t', ht', rfl⟩ := Option.map_eq_some_iff.mp h
      obtain ⟨l₁, d, l₂, rfl, hd, rfl⟩ := ih ht'
      exact ⟨c :: l₁, d, l₂, rfl, hd, rfl⟩

theorem addRuleChain_none {path x : Nat} {ch : List Cnode}
    (h : addRuleChain V r fresh path x ch = none) : ∀ c ∈ ch, c.value ≠ x := by
  induction ch with
  | nil => exact fun c hc => nomatch hc
  | cons c ch ih =>
    rw [addRuleChain] at h
    split at h
    · cases h
    · next hc =>
      intro d hd
      rcases List.mem_cons.mp hd with rfl | hd
      · exact hc
      · exact ih (Option.map_eq_none_iff.mp h) d hd

theorem addRuleBuckets_eq {path x : Nat} {bs : List (List Cnode)} {i : Nat} {ch : List Cnode}
    (hch : bs[i]? = some ch) :
    addRuleBuckets V r fresh path x bs i =
      match addRuleChain V r fresh path x ch with
      | some t => (bs.set i t.1, t.2)
      | none => (bs.set i (.leaf fresh x [r] :: ch), fresh) := by
  induction bs generalizing i with
  | nil => cases hch
  | cons ch' bs ih =>
    cases i with
    | zero =>
      cases hch
      rw [addRuleBuckets]
      cases addRuleChain V r fresh path x ch <;> rfl
    | succ i =>
      rw [addRuleBuckets, ih hch]
      cases addRuleChain V r fresh path x ch <;> rfl

/-- In a tree whose nodes have buckets every rule finds its place. -/
theorem Placed.added {p : Nat → Prop} {c : Cnode} (h : Placed V p c) (path : Nat) :
    Added V r fresh c (c.addRule V r fresh path).1 (c.addRule V r fresh path).2 := by
  induction h generalizing path with
  | leaf hrs => exact .leaf
  | @split p a v rs f bs any hrs hbs hchild hany ihchild ihany =>
    rw [addRule]
    split
    · split
      · next x hx =>
        have hlt := hbs.getBucket_lt x
        rw [List.length_map] at hlt
        have hch := List.getElem?_eq_getElem hlt
        rw [addRuleBuckets_eq hch]
        cases hchain : addRuleChain V r fresh (path ||| 2 ^ f) x
            bs[getBucket x (bs.length - 1)] with
        | some t =>
          obtain ⟨l₁, c, l₂, heq, rfl, rfl⟩ := addRuleChain_some hchain
          have hc : c ∈ bs.flatten :=
            List.mem_flatten.mpr ⟨_, List.getElem_mem hlt, heq ▸ by simp⟩
          exact .child (hch.trans (congrArg some heq)) hx (ihchild c hc _)
        | none => exact .newChild hch hx (addRuleChain_none hchain)
      · next hx =>
        cases any with
        | none => exact .newAny hx
        | some c => exact .anyNode hx (ihany c rfl _)
    · exact .here

end Added

section Effects

/-! ## What is added -/

variable {V : View} {r fresh : Nat}

theorem flatten_set_perm {α : Type} {ls : List (List α)} {i : Nat} {l : List α}
    (hl : ls[i]? = some l) :
    ∃ rest, ls.flatten.Perm (l ++ rest) ∧ ∀ l', (ls.set i l').flatten.Perm (l' ++ rest) := by
  obtain ⟨hi, rfl⟩ := List.getElem?_eq_some_iff.mp hl
  refine ⟨(ls.eraseIdx i).flatten, ?_, fun l' => ?_⟩
  · exact (List.getElem_cons_eraseIdx_perm hi).symm.flatten
  · exact (List.set_perm_cons_eraseIdx hi l').flatten

theorem Added.value {c c' : Cnode} {t : Nat} (h : Added V r fresh c c' t) : c'.value = c.value := by
  cases h <;> rfl

theorem children_child {a v : Nat} {rs : List Nat} {f : Nat} {bs : List (List Cnode)}
    {any : Option Cnode} {i : Nat} {l₁ l₂ : List Cnode} {c : Cnode}
    (hch : bs[i]? = some (l₁ ++ c :: l₂)) :
    ∃ rest, (Cnode.split a v rs f bs any).children.Perm (c :: rest) ∧
      ∀ c', (Cnode.split a v rs f (bs.set i (l₁ ++ c' :: l₂)) any).children.Perm (c' :: rest) := by
  obtain ⟨rest, hbs, hset⟩ := flatten_set_perm hch
  refine ⟨l₁ ++ l₂ ++ rest ++ any.toList, ?_, fun c' => ?_⟩
  · exact (hbs.append_right _).trans ((List.perm_middle.append_right _).append_right _)
  · exact ((hset _).append_right _).trans ((List.perm_middle.append_right _).append_right _)

theorem children_newChild {a v : Nat} {rs : List Nat} {f : Nat} {bs : List (List Cnode)}
    {any : Option Cnode} {i : Nat} {ch : List Cnode} (hch : bs[i]? = some ch) (c : Cnode) :
    (Cnode.split a v rs f (bs.set i (c :: ch)) any).children.Perm
      (c :: (Cnode.split a v rs f bs any).children) := by
  obtain ⟨rest, hbs, hset⟩ := flatten_set_perm hch
  exact ((hset _).append_right _).trans (((hbs.append_right _).symm).cons c)

theorem children_anyNode {a v : Nat} {rs : List Nat} {f : Nat} {bs : List (List Cnode)}
    (c : Cnode) : (Cnode.split a v rs f bs (some c)).children.Perm
      (c :: (Cnode.split a v rs f bs none).children) := by
  simp [children]

/-- The rule is new in the list of the node whose address is returned. -/
theorem Added.entries {c c' : Cnode} {t : Nat} (h : Added V r fresh c c' t) :
    c'.entries.Perm ((t, r) :: c.entries) := by
  have hhere : ∀ (a : Nat) (rs : List Nat) (l : List (Nat × Nat)),
      ((addRuleToList V r rs).map (fun r => (a, r)) ++ l).Perm
        ((a, r) :: (rs.map (fun r => (a, r)) ++ l)) := fun a rs l =>
    ((addRuleToList_perm V r rs).map _).append_right l
  have hbelow : ∀ {l l' : List (Nat × Nat)} (rs : List (Nat × Nat)),
      l'.Perm ((t, r) :: l) → (rs ++ l').Perm ((t, r) :: (rs ++ l)) := fun rs hl =>
    (hl.append_left rs).trans List.perm_middle
  induction h with
  | leaf =>
    rw [entries_eq, entries_eq]
    exact hhere _ _ _
  | here =>
    rw [entries_eq, entries_eq]
    exact hhere _ _ _
  | child hch hfield hc ih =>
    rw [entries_eq, entries_eq]
    refine hbelow _ ?_
    obtain ⟨rest, hchildren, hset⟩ := children_child hch
    exact ((hset _).flatMap_right _).trans (((ih hbelow).append_right _).trans
      ((hchildren.flatMap_right _).symm.cons _))
  | newChild hch hfield hx =>
    rw [entries_eq, entries_eq]
    exact hbelow _ ((children_newChild hch _).flatMap_right _)
  | anyNode hfield hc ih =>
    rw [entries_eq, entries_eq]
    refine hbelow _ ?_
    exact ((children_anyNode _).flatMap_right _).trans (((ih hbelow).append_right _).trans
      (((children_anyNode _).flatMap_right _).symm.cons _))
  | newAny hfield =>
    rw [entries_eq, entries_eq]
    exact hbelow _ ((children_anyNode _).flatMap_right _)

/-- At most one node is new. -/
theorem Added.addrs {c c' : Cnode} {t : Nat} (h : Added V r fresh c c' t) :
    c'.addrs.Perm c.addrs ∨ c'.addrs.Perm (fresh :: c.addrs) := by
  have hnew : ∀ {a : Nat} {l l' : List Nat}, l'.Perm (fresh :: l) →
      (a :: l').Perm (fresh :: a :: l) := fun hl =>
    (hl.cons _).trans (List.Perm.swap _ _ _)
  induction h with
  | leaf => exact .inl (List.Perm.refl _)
  | here =>
    rw [addrs_eq, addrs_eq]
    exact .inl (List.Perm.refl _)
  | child hch hfield hc ih =>
    rw [addrs_eq, addrs_eq]
    obtain ⟨rest, hchildren, hset⟩ := children_child hch
    rcases ih with ih | ih
    · exact .inl ((((hset _).flatMap_right _).trans ((ih.append_right _).trans
        (hchildren.flatMap_right _).symm)).cons _)
    · exact .inr (hnew (((hset _).flatMap_right _).trans ((ih.append_right _).trans
        ((hchildren.flatMap_right _).symm.cons _))))
  | newChild hch hfield hx =>
    rw [addrs_eq, addrs_eq]
    exact .inr (hnew ((children_newChild hch _).flatMap_right _))
  | anyNode hfield hc ih =>
    rw [addrs_eq, addrs_eq]
    rcases ih with ih | ih
    · exact .inl ((((children_anyNode _).flatMap_right _).trans ((ih.append_right _).trans
        ((children_anyNode _).flatMap_right _).symm)).cons _)
    · exact .inr (hnew (((children_anyNode _).flatMap_right _).trans ((ih.append_right _).trans
        (((children_anyNode _).flatMap_right _).symm.cons _))))
  | newAny hfield =>
    rw [addrs_eq, addrs_eq]
    exact .inr (hnew ((children_anyNode _).flatMap_right _))

/-- The rule is put where a lookup will follow. -/
theorem Added.placed {c c' : Cnode} {t : Nat} (h : Added V r fresh c c' t) {p : Nat → Prop}
    (hc : Placed V p c) (hr : p r) : Placed V p c' := by
  have hlist : ∀ {q : Nat → Prop} {rs : List Nat}, q r → (∀ x ∈ rs, q x) →
      ∀ x ∈ addRuleToList V r rs, q x := by
    intro q rs hr hrs x hx
    rcases List.mem_cons.mp ((addRuleToList_perm V r rs).mem_iff.mp hx) with rfl | hx
    · exact hr
    · exact hrs x hx
  have hfresh : ∀ {q : Nat → Prop} {x : Nat}, q r → Placed V q (.leaf fresh x [r]) := by
    intro q x hq
    exact .leaf fun y hy => List.mem_singleton.mp hy ▸ hq
  induction h generalizing p with
  | leaf =>
    cases hc with
    | leaf hrs => exact .leaf (hlist hr hrs)
  | here =>
    cases hc with
    | split hrs hbs hchild hany => exact .split (hlist hr hrs) hbs hchild hany
  | @child a v rs f bs any i l₁ l₂ c c' t hch hfield hadd ih =>
    cases hc with
    | split hrs hbs hchild hany =>
      obtain ⟨hi, hget⟩ := List.getElem?_eq_some_iff.mp hch
      have hold : c ∈ bs.flatten := List.mem_flatten.mpr ⟨_, List.mem_of_getElem? hch, by simp⟩
      refine .split hrs ?_ (fun d hd => ?_) hany
      · have hvalues : (bs.set i (l₁ ++ c' :: l₂)).map (fun ch => ch.map Cnode.value) =
            bs.map fun ch => ch.map Cnode.value := by
          have hi' : i < (bs.map fun ch => ch.map Cnode.value).length := by simpa using hi
          have hself : (l₁ ++ c' :: l₂).map Cnode.value =
              (bs.map fun ch => ch.map Cnode.value)[i] := by
            simp [hget, hadd.value]
          rw [List.map_set, hself, List.set_getElem_self]
        rw [hvalues]
        exact hbs
      · obtain ⟨ch, hch', hd⟩ := List.mem_flatten.mp hd
        rcases List.mem_or_eq_of_mem_set hch' with hch' | rfl
        · exact hchild d (List.mem_flatten.mpr ⟨ch, hch', hd⟩)
        · rcases List.mem_append.mp hd with hd | hd
          · exact hchild d (List.mem_flatten.mpr ⟨_, List.mem_of_getElem? hch, by simp [hd]⟩)
          · rcases List.mem_cons.mp hd with rfl | hd
            · rw [hadd.value]
              exact ih (hchild c hold) ⟨hr, hfield⟩
            · exact hchild d (List.mem_flatten.mpr ⟨_, List.mem_of_getElem? hch, by simp [hd]⟩)
  | @newChild a v rs f bs any x ch hch hfield hx =>
    cases hc with
    | split hrs hbs hchild hany =>
      refine .split hrs ?_ (fun d hd => ?_) hany
      · rw [List.map_set]
        have hlen : (bs.map fun ch => ch.map Cnode.value).length = bs.length := List.length_map _
        rw [← hlen]
        refine hbs.insert (by rw [hlen, List.getElem?_map, hch]; rfl) ?_
        intro hmem
        obtain ⟨d, hd, hvalue⟩ := List.mem_map.mp hmem
        exact hx d hd hvalue
      · obtain ⟨ch', hch', hd⟩ := List.mem_flatten.mp hd
        rcases List.mem_or_eq_of_mem_set hch' with hch' | rfl
        · exact hchild d (List.mem_flatten.mpr ⟨ch', hch', hd⟩)
        · rcases List.mem_cons.mp hd with rfl | hd
          · exact hfresh ⟨hr, hfield⟩
          · exact hchild d (List.mem_flatten.mpr ⟨ch, List.mem_of_getElem? hch, hd⟩)
  | anyNode hfield hadd ih =>
    cases hc with
    | split hrs hbs hchild hany =>
      refine .split hrs hbs hchild fun d hd => ?_
      cases hd
      exact ih (hany _ rfl) ⟨hr, hfield⟩
  | newAny hfield =>
    cases hc with
    | split hrs hbs hchild hany =>
      refine .split hrs hbs hchild fun d hd => ?_
      cases hd
      exact hfresh ⟨hr, hfield⟩

/-- The lists stay in order. -/
theorem Added.ordered {c c' : Cnode} {t : Nat} (h : Added V r fresh c c' t) (hc : c.Ordered V) :
    c'.Ordered V := by
  have hfresh : ∀ x : Nat, (Cnode.leaf fresh x [r]).Ordered V := by
    intro x n hn
    rw [List.mem_singleton.mp hn]
    exact List.pairwise_singleton _ _
  induction h with
  | leaf =>
    rw [ordered_iff] at hc ⊢
    exact ⟨addRuleToList_ordered V r hc.1, hc.2⟩
  | here =>
    rw [ordered_iff] at hc ⊢
    exact ⟨addRuleToList_ordered V r hc.1, hc.2⟩
  | child hch hfield hadd ih =>
    rw [ordered_iff] at hc ⊢
    obtain ⟨rest, hchildren, hset⟩ := children_child hch
    refine ⟨hc.1, fun d hd => ?_⟩
    rcases List.mem_cons.mp ((hset _).mem_iff.mp hd) with rfl | hd
    · exact ih (hc.2 _ (hchildren.mem_iff.mpr List.mem_cons_self))
    · exact hc.2 d (hchildren.mem_iff.mpr (List.mem_cons_of_mem _ hd))
  | newChild hch hfield hx =>
    rw [ordered_iff] at hc ⊢
    refine ⟨hc.1, fun d hd => ?_⟩
    rcases List.mem_cons.mp ((children_newChild hch _).mem_iff.mp hd) with rfl | hd
    · exact hfresh _
    · exact hc.2 d hd
  | anyNode hfield hadd ih =>
    rw [ordered_iff] at hc ⊢
    refine ⟨hc.1, fun d hd => ?_⟩
    rcases List.mem_cons.mp ((children_anyNode _).mem_iff.mp hd) with rfl | hd
    · exact ih (hc.2 _ ((children_anyNode _).mem_iff.mpr List.mem_cons_self))
    · exact hc.2 d ((children_anyNode _).mem_iff.mpr (List.mem_cons_of_mem _ hd))
  | newAny hfield =>
    rw [ordered_iff] at hc ⊢
    refine ⟨hc.1, fun d hd => ?_⟩
    rcases List.mem_cons.mp ((children_anyNode _).mem_iff.mp hd) with rfl | hd
    · exact hfresh _
    · exact hc.2 d hd

end Effects

end Nox.Classify
