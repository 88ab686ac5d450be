import Nox.Classify.Allocation

/-!
# What a failure leaves behind

`add_rule` without memory enough adds the rule, or changes nothing, or leaves an empty child
(`Placed.tried`).  `Left` is what becomes of nodes when a call of `build` throws: nodes of a
copy are `Within` the old ones, and those of the tree have new versions.
-/

namespace Nox.Classify

open Cnode

section AddRule

/-! ## A rule that is not added -/

variable {V : View} {r fresh : Nat}

theorem atAddr_of_notMem {addr : Nat} {g : List Nat → List Nat} {c : Cnode} (h : addr ∉ c.addrs) :
    c.atAddr addr g = c := by
  induction c with
  | leaf a v rs =>
    have ha : a ≠ addr := fun heq => h (heq ▸ List.mem_singleton_self a)
    rw [Cnode.atAddr, if_neg ha]
  | split a v rs f bs any ih =>
    rw [addrs_eq, List.mem_cons, not_or] at h
    have hbelow : ∀ c ∈ bs.flatten ++ any.toList, c.atAddr addr g = c := fun c hc =>
      ih c hc fun hmem => h.2 (List.mem_flatMap.mpr ⟨c, hc, hmem⟩)
    have ha : a ≠ addr := fun heq => h.1 heq.symm
    rw [Cnode.atAddr, if_neg ha, atAddrBuckets_eq, atAddrAny_eq]
    congr 1
    · refine (List.map_congr_left fun ch hch => ?_).trans (List.map_id bs)
      refine (List.map_congr_left fun c hc => ?_).trans (List.map_id ch)
      exact hbelow c (List.mem_append_left _ (List.mem_flatten.mpr ⟨ch, hch, hc⟩))
    · cases any with
      | none => rfl
      | some c => exact congrArg some (hbelow c (List.mem_append_right _ (by simp)))

/-- The rule was added as it is with memory enough, or nothing has happened, or the child
that was made for it is empty. -/
inductive Tried (V : View) (r fresh path : Nat) (c : Cnode) : Cnode × Option (Nat × Nat) → Prop
  | added (n : Nat) :
    Tried V r fresh path c
      ((c.addRule V r fresh path).1, some ((c.addRule V r fresh path).2, n))
  | kept : Tried V r fresh path c (c, none)
  | hollow (hfresh : (c.addRule V r fresh path).2 = fresh) :
    Tried V r fresh path c ((c.addRule V r fresh path).1.atAddr fresh fun _ => [], none)

theorem tryAddRuleChain_some {path n x : Nat} {ch : List Cnode}
    {t : List Cnode × Option (Nat × Nat)} (h : tryAddRuleChain V r fresh path n x ch = some t) :
    ∃ l₁ c l₂, ch = l₁ ++ c :: l₂ ∧
      t = (l₁ ++ (c.tryAddRule V r fresh path n).1 :: l₂, (c.tryAddRule V r fresh path n).2) ∧
      addRuleChain V r fresh path x ch =
        some (l₁ ++ (c.addRule V r fresh path).1 :: l₂, (c.addRule V r fresh path).2) := by
  induction ch generalizing t with
  | nil => cases h
  | cons c ch ih =>
    rw [tryAddRuleChain] at h
    split at h
    · next hc =>
      cases h
      exact ⟨[], c, ch, rfl, rfl, by rw [addRuleChain, if_pos hc]; rfl⟩
    · next hc =>
      obtain ⟨t', ht', rfl⟩ := Option.map_eq_some_iff.mp h
      obtain ⟨l₁, d, l₂, rfl, rfl, hadd⟩ := ih ht'
      exact ⟨c :: l₁, d, l₂, rfl, rfl, by rw [addRuleChain, if_neg hc, hadd]; rfl⟩

theorem tryAddRuleChain_none {path n x : Nat} {ch : List Cnode}
    (h : tryAddRuleChain V r fresh path n x ch = none) :
    addRuleChain V r fresh path x ch = none := by
  induction ch with
  | nil => rfl
  | cons c ch ih =>
    rw [tryAddRuleChain] at h
    split at h
    · cases h
    · next hc => rw [addRuleChain, if_neg hc, ih (Option.map_eq_none_iff.mp h), Option.map_none]

theorem tryAddRuleBuckets_eq {path n x : Nat} {bs : List (List Cnode)} {i : Nat}
    {ch : List Cnode} (hch : bs[i]? = some ch) :
    tryAddRuleBuckets V r fresh path n x bs i =
      match tryAddRuleChain V r fresh path n x ch with
      | some t => (bs.set i t.1, t.2)
      | none =>
        (bs.set i ((tryNewChild V r fresh x n).1.toList ++ ch), (tryNewChild V r fresh x n).2) := by
  induction bs generalizing i with
  | nil => cases hch
  | cons ch' bs ih =>
    cases i with
    | zero =>
      cases hch
      rw [tryAddRuleBuckets]
      cases tryAddRuleChain V r fresh path n x ch <;> rfl
    | succ i =>
      rw [tryAddRuleBuckets, ih hch]
      cases tryAddRuleChain V r fresh path n x ch <;> rfl

theorem map_atAddr_of_notMem {addr : Nat} {g : List Nat → List Nat} {l : List Cnode}
    (h : ∀ c ∈ l, addr ∉ c.addrs) : l.map (fun c => c.atAddr addr g) = l :=
  (List.map_congr_left fun c hc => atAddr_of_notMem (h c hc)).trans (List.map_id l)

section Split

variable {a v f i : Nat} {rs : List Nat} {bs : List (List Cnode)} {any : Option Cnode}
  {g : List Nat → List Nat}

theorem notMem_below (h : fresh ∉ (Cnode.split a v rs f bs any).addrs) :
    ∀ c ∈ bs.flatten ++ any.toList, fresh ∉ c.addrs := by
  intro c hc hmem
  rw [addrs_eq] at h
  exact h (List.mem_cons_of_mem _ (List.mem_flatMap.mpr ⟨c, hc, hmem⟩))

theorem notMem_bucket (h : fresh ∉ (Cnode.split a v rs f bs any).addrs) {ch : List Cnode}
    (hch : bs[i]? = some ch) : ∀ c ∈ ch, fresh ∉ c.addrs := fun c hc =>
  notMem_below h c (List.mem_append_left _
    (List.mem_flatten.mpr ⟨ch, List.mem_of_getElem? hch, hc⟩))

/-- The list of a node, or of one of its buckets, where the address is in no other place. -/
theorem atAddr_split (h : fresh ∉ (Cnode.split a v rs f bs any).addrs) (i : Nat)
    (l : List Cnode) :
    (Cnode.split a v rs f (bs.set i l) any).atAddr fresh g =
      .split a v rs f (bs.set i (l.map fun c => c.atAddr fresh g)) any := by
  have hsame := atAddr_of_notMem (g := g) h
  rw [Cnode.atAddr, atAddrBuckets_eq] at hsame ⊢
  obtain ⟨-, -, hrs, -, hbs, hany⟩ := Cnode.split.inj hsame
  rw [hrs, hany, List.map_set, hbs]

/-- The list of one child of a bucket. -/
theorem atAddr_child (h : fresh ∉ (Cnode.split a v rs f bs any).addrs) (l₁ : List Cnode)
    {l₂ : List Cnode} (hl₁ : ∀ c ∈ l₁, fresh ∉ c.addrs) (hl₂ : ∀ c ∈ l₂, fresh ∉ c.addrs)
    (d : Cnode) :
    (Cnode.split a v rs f (bs.set i (l₁ ++ d :: l₂)) any).atAddr fresh g =
      .split a v rs f (bs.set i (l₁ ++ d.atAddr fresh g :: l₂)) any := by
  rw [atAddr_split h, List.map_append, List.map_cons, map_atAddr_of_notMem hl₁,
    map_atAddr_of_notMem hl₂]

/-- The list of the child for all values. -/
theorem atAddr_any (h : fresh ∉ (Cnode.split a v rs f bs any).addrs) (d : Cnode) :
    (Cnode.split a v rs f bs (some d)).atAddr fresh g =
      .split a v rs f bs (some (d.atAddr fresh g)) := by
  have hsame := atAddr_of_notMem (g := g) h
  rw [Cnode.atAddr] at hsame ⊢
  obtain ⟨-, -, hrs, -, hbs, -⟩ := Cnode.split.inj hsame
  rw [hrs, hbs]
  rfl

end Split

theorem tried_list {path : Nat} {c : Cnode} {a : Nat} {rs : List Nat} (n : Nat)
    (node : List Nat → Cnode) (hc : c = node rs)
    (hadd : c.addRule V r fresh path = (node (addRuleToList V r rs), a)) :
    Tried V r fresh path c
      (node (tryAddRuleToList V r n rs).1, (tryAddRuleToList V r n rs).2.map (a, ·)) := by
  cases n with
  | zero =>
    subst hc
    exact .kept
  | succ n =>
    have h : Tried V r fresh path c _ := .added n
    rw [hadd] at h
    exact h

/-- What is tried on a child is tried on the node. -/
theorem Tried.under {path path' : Nat} {c : Cnode} {t : Cnode × Option (Nat × Nat)}
    (h : Tried V r fresh path' c t) (ctx : Cnode → Cnode)
    (hadd : (ctx c).addRule V r fresh path =
      (ctx (c.addRule V r fresh path').1, (c.addRule V r fresh path').2))
    (hat : ∀ d, (ctx d).atAddr fresh (fun _ => []) = ctx (d.atAddr fresh fun _ => [])) :
    Tried V r fresh path (ctx c) (ctx t.1, t.2) := by
  cases h with
  | added n =>
    have hadded : Tried V r fresh path (ctx c) _ := .added n
    rw [hadd] at hadded
    exact hadded
  | kept => exact .kept
  | hollow hfresh =>
    have hhollow : Tried V r fresh path (ctx c) _ := .hollow (by rw [hadd]; exact hfresh)
    rw [hadd, hat] at hhollow
    exact hhollow

/-- A child is made for the rule. -/
theorem tried_newChild {c : Cnode} {path x : Nat} (ctx : Cnode → Cnode) (n : Nat)
    (hadd : c.addRule V r fresh path = (ctx (.leaf fresh x [r]), fresh))
    (hat : ∀ d, (ctx d).atAddr fresh (fun _ => []) = ctx (d.atAddr fresh fun _ => [])) :
    Tried V r fresh path c
      ((tryNewChild V r fresh x n).1.elim c ctx, (tryNewChild V r fresh x n).2) := by
  rcases n with _ | _ | k
  · exact .kept
  · have h : Tried V r fresh path c _ := .hollow (by rw [hadd])
    rw [hadd, hat, Cnode.atAddr, if_pos rfl] at h
    exact h
  · have h : Tried V r fresh path c _ := .added k
    rw [hadd] at h
    exact h

section Split

variable {a v f path x : Nat} {rs : List Nat} {bs : List (List Cnode)} {any : Option Cnode}

/-- The rule goes into a bucket. -/
theorem tried_bucket (hsplit : V.splittable r path = true) (hx : V.getField r f = some x)
    (hfresh : fresh ∉ (Cnode.split a v rs f bs any).addrs) {ch : List Cnode}
    (hch : bs[getBucket x (bs.length - 1)]? = some ch) (n : Nat)
    (ih : ∀ c ∈ ch, Tried V r fresh (path ||| 2 ^ f) c
      (c.tryAddRule V r fresh (path ||| 2 ^ f) n)) :
    Tried V r fresh path (.split a v rs f bs any)
      ((Cnode.split a v rs f bs any).tryAddRule V r fresh path n) := by
  have hkept : bs.set (getBucket x (bs.length - 1)) ch = bs := by
    obtain ⟨hlt, rfl⟩ := List.getElem?_eq_some_iff.mp hch
    exact List.set_getElem_self hlt
  have hbelow := notMem_bucket hfresh hch
  rw [Cnode.tryAddRule, if_pos hsplit, hx]
  dsimp only
  rw [tryAddRuleBuckets_eq hch]
  cases hchain : tryAddRuleChain V r fresh (path ||| 2 ^ f) n x ch with
  | some t =>
    obtain ⟨l₁, c, l₂, rfl, rfl, hadd⟩ := tryAddRuleChain_some hchain
    let ctx (d : Cnode) : Cnode :=
      .split a v rs f (bs.set (getBucket x (bs.length - 1)) (l₁ ++ d :: l₂)) any
    have hctx : ctx c = .split a v rs f bs any := congrArg (Cnode.split a v rs f · any) hkept
    have hpure : (ctx c).addRule V r fresh path =
        (ctx (c.addRule V r fresh (path ||| 2 ^ f)).1,
          (c.addRule V r fresh (path ||| 2 ^ f)).2) := by
      rw [hctx, Cnode.addRule, if_pos hsplit, hx]
      simp only [addRuleBuckets_eq hch, hadd, ctx]
    have hunder := (ih c (by simp)).under ctx hpure (atAddr_child hfresh l₁
      (fun c hc => hbelow c (List.mem_append_left _ hc))
      fun c hc => hbelow c (List.mem_append_right _ (List.mem_cons_of_mem _ hc)))
    rw [hctx] at hunder
    exact hunder
  | none =>
    have hpure : (Cnode.split a v rs f bs any).addRule V r fresh path =
        (.split a v rs f (bs.set (getBucket x (bs.length - 1)) (.leaf fresh x [r] :: ch)) any,
          fresh) := by
      rw [Cnode.addRule, if_pos hsplit, hx]
      simp only [addRuleBuckets_eq hch, tryAddRuleChain_none hchain]
    have hnew := tried_newChild
      (fun d => .split a v rs f (bs.set (getBucket x (bs.length - 1)) (d :: ch)) any) n hpure
      (atAddr_child hfresh [] (List.forall_mem_nil _) hbelow)
    cases hchild : (tryNewChild V r fresh x n).1 with
    | none =>
      rw [hchild] at hnew
      rw [Option.toList_none, List.nil_append, hkept]
      exact hnew
    | some d =>
      rw [hchild] at hnew
      exact hnew

/-- The rule goes to the child for all values. -/
theorem tried_any (hsplit : V.splittable r path = true) (hx : V.getField r f = none)
    (hfresh : fresh ∉ (Cnode.split a v rs f bs any).addrs) (n : Nat)
    (ih : ∀ c ∈ any, Tried V r fresh (path ||| 2 ^ f) c
      (c.tryAddRule V r fresh (path ||| 2 ^ f) n)) :
    Tried V r fresh path (.split a v rs f bs any)
      ((Cnode.split a v rs f bs any).tryAddRule V r fresh path n) := by
  have hat := atAddr_any (g := fun _ => []) hfresh
  have hadd : (Cnode.split a v rs f bs any).addRule V r fresh path =
      (.split a v rs f bs (some (addRuleAny V r fresh (path ||| 2 ^ f) any).1),
        (addRuleAny V r fresh (path ||| 2 ^ f) any).2) := by
    rw [Cnode.addRule, if_pos hsplit, hx]
  rw [Cnode.tryAddRule, if_pos hsplit, hx]
  cases any with
  | none =>
    have hnew := tried_newChild (fun d => .split a v rs f bs (some d)) n hadd hat
    dsimp only
    rw [tryAddRuleAny]
    cases hchild : (tryNewChild V r fresh 0 n).1 with
    | none =>
      rw [hchild] at hnew
      exact hnew
    | some d =>
      rw [hchild] at hnew
      exact hnew
  | some c => exact (ih c rfl).under (fun d => .split a v rs f bs (some d)) hadd hat

end Split

theorem Placed.tried {p : Nat → Prop} {c : Cnode} (h : Placed V p c) (hfresh : fresh ∉ c.addrs)
    (path n : Nat) : Tried V r fresh path c (c.tryAddRule V r fresh path n) := by
  induction h generalizing path with
  | @leaf p a v rs hrs => exact tried_list n (.leaf a v) rfl rfl
  | @split p a v rs f bs any hrs hbs hchild hany ihchild ihany =>
    have hbelow := notMem_below hfresh
    by_cases hsplit : V.splittable r path = true
    · cases hx : V.getField r f with
      | some x =>
        have hlt := hbs.getBucket_lt x
        rw [List.length_map] at hlt
        refine tried_bucket hsplit hx hfresh (List.getElem?_eq_getElem hlt) n fun c hc => ?_
        have hmem := List.mem_flatten.mpr ⟨_, List.getElem_mem hlt, hc⟩
        exact ihchild c hmem (hbelow c (List.mem_append_left _ hmem)) _
      | none =>
        refine tried_any hsplit hx hfresh n fun c hc => ?_
        exact ihany c hc (hbelow c (List.mem_append_right _ (Option.mem_toList.mpr hc))) _
    · rw [Cnode.tryAddRule, if_neg hsplit]
      refine tried_list n (fun l => .split a v l f bs any) rfl ?_
      rw [Cnode.addRule, if_neg hsplit]

/-- The same rules in the same nodes, but for an empty node that may be new. -/
structure Same (V : View) (fresh : Nat) (c c' : Cnode) : Prop where
  value : c'.value = c.value
  entries : c'.entries.Perm c.entries
  addrs : c'.addrs.Perm c.addrs ∨ c'.addrs.Perm (fresh :: c.addrs)
  placed : Placed V (fun _ => True) c → Placed V (fun _ => True) c'
  ordered : c.Ordered V → c'.Ordered V

theorem entries_emptied (addr : Nat) (c : Cnode) :
    (c.atAddr addr fun _ => []).entries = c.entries.filter fun e => e.1 != addr := by
  rw [entries, nodes_atAddr, List.flatMap_map, entries, List.filter_flatMap]
  refine List.flatMap_congr fun node _ => ?_
  by_cases hnode : node.1 = addr
  · simp [hnode]
  · rw [if_neg hnode, List.filter_eq_self.mpr]
    intro e he
    obtain ⟨r, -, rfl⟩ := List.mem_map.mp he
    exact bne_iff_ne.mpr hnode

theorem Placed.tryAddRule_none {c : Cnode} (h : Placed V (fun _ => True) c)
    (hfresh : fresh ∉ c.addrs) {path n : Nat}
    (hnone : (c.tryAddRule V r fresh path n).2 = none) :
    Same V fresh c (c.tryAddRule V r fresh path n).1 := by
  have htried := h.tried (r := r) hfresh path n
  generalize c.tryAddRule V r fresh path n = t at htried hnone
  cases htried with
  | added k => cases hnone
  | kept => exact ⟨rfl, .refl _, .inl (.refl _), id, id⟩
  | hollow hnew =>
    have hadd : Added V r fresh c (c.addRule V r fresh path).1 (c.addRule V r fresh path).2 :=
      h.added path
    refine ⟨?_, ?_, ?_, fun hc => ?_, fun hc => ?_⟩
    · rw [value_atAddr]
      exact hadd.value
    · rw [entries_emptied]
      refine (hadd.entries.filter _).trans ?_
      rw [hnew, List.filter_cons_of_neg (by simp), List.filter_eq_self.mpr]
      rintro e he
      have hne : e.1 ≠ fresh := fun heq => hfresh (heq ▸ mem_addrs_of_mem_entries he)
      exact bne_iff_ne.mpr hne
    · rw [addrs_atAddr]
      exact hadd.addrs
    · exact (hadd.placed hc trivial).atAddr fun _ _ _ _ hr => nomatch hr
    · exact ordered_atAddr (hadd.ordered hc) (fun _ _ _ _ => List.Pairwise.nil)
        fun _ _ _ _ _ => rfl

/-- With memory enough the rule is added as it is without a limit. -/
theorem Placed.tryAddRule_some {c : Cnode} (h : Placed V (fun _ => True) c)
    (hfresh : fresh ∉ c.addrs) {path n a k : Nat}
    (hsome : (c.tryAddRule V r fresh path n).2 = some (a, k)) :
    (c.tryAddRule V r fresh path n).1 = (c.addRule V r fresh path).1 ∧
      a = (c.addRule V r fresh path).2 := by
  have htried := h.tried (r := r) hfresh path n
  generalize c.tryAddRule V r fresh path n = t at htried hsome
  cases htried with
  | added k =>
    cases hsome
    exact ⟨rfl, rfl⟩
  | kept => cases hsome
  | hollow hnew => cases hsome

end AddRule

section Left

/-! ## What is left of a list of nodes -/

variable {V : View} {isCopy : Bool}

/-- The nodes are not part of the tree and are going to be deleted: they hold no other rules
than before, at addresses that are old ones or new, and no rule points at them. -/
structure Within (l : List Cnode) (m : Memory) (l' : List Cnode) (m' : Memory) : Prop where
  next : m.next ≤ m'.next
  addrs : ∀ a ∈ l'.flatMap Cnode.addrs, a ∈ l.flatMap Cnode.addrs ∨ m.next ≤ a ∧ a < m'.next
  rules : ∀ r ∈ l'.flatMap Cnode.allRules, r ∈ l.flatMap Cnode.allRules
  node : m'.node = m.node

theorem Within.trans {l₁ l₂ l₃ : List Cnode} {m₁ m₂ m₃ : Memory} (h₁ : Within l₁ m₁ l₂ m₂)
    (h₂ : Within l₂ m₂ l₃ m₃) : Within l₁ m₁ l₃ m₃ where
  next := Nat.le_trans h₁.next h₂.next
  addrs := by
    intro a ha
    have hle₁ := h₁.next
    have hle₂ := h₂.next
    rcases h₂.addrs a ha with h | h
    · rcases h₁.addrs a h with h | h
      · exact .inl h
      · exact .inr (by omega)
    · exact .inr (by omega)
  rules := fun r hr => h₁.rules r (h₂.rules r hr)
  node := h₂.node.trans h₁.node

theorem Within.append {l₁ l₁' l₂ l₂' : List Cnode} {m m₁ m₂ : Memory}
    (h₁ : Within l₁ m l₁' m₁) (h₂ : Within l₂ m₁ l₂' m₂) :
    Within (l₁ ++ l₂) m (l₁' ++ l₂') m₂ where
  next := Nat.le_trans h₁.next h₂.next
  addrs := by
    intro a ha
    have hle₁ := h₁.next
    have hle₂ := h₂.next
    rw [List.flatMap_append, List.mem_append] at ha ⊢
    rcases ha with ha | ha
    · rcases h₁.addrs a ha with h | h
      · exact .inl (.inl h)
      · exact .inr (by omega)
    · rcases h₂.addrs a ha with h | h
      · exact .inl (.inr h)
      · exact .inr (by omega)
  rules := by
    intro r hr
    rw [List.flatMap_append, List.mem_append] at hr ⊢
    exact hr.imp (h₁.rules r) (h₂.rules r)
  node := h₂.node.trans h₁.node

theorem Within.split {a v : Nat} {rs : List Nat} {f : Nat} {bs bs' : List (List Cnode)}
    {any any' : Option Cnode} {m m' : Memory}
    (h : Within (bs.flatten ++ any.toList) m (bs'.flatten ++ any'.toList) m') :
    Within [.split a v rs f bs any] m [.split a v rs f bs' any'] m' where
  next := h.next
  addrs := by
    intro b hb
    simp only [List.flatMap_singleton, addrs_eq] at hb ⊢
    rcases List.mem_cons.mp hb with rfl | hb
    · exact .inl List.mem_cons_self
    · exact (h.addrs b hb).imp_left (List.mem_cons_of_mem _)
  rules := by
    intro r hr
    simp only [List.flatMap_singleton, allRules_eq, List.mem_append] at hr ⊢
    exact hr.imp_right (h.rules r)
  node := h.node

theorem Rebuilds.within {l l' : List Cnode} {m m' : Memory} (h : Rebuilds V true l m l' m') :
    Within l m l' m' where
  next := h.next
  addrs := h.addrs
  rules := fun _ hr => h.rules.mem_iff.mp hr
  node := funext fun r => h.frame r (.inl rfl)

/-- The nodes are part of the tree: every rule is in one of them and points at it. -/
structure Pointed (l : List Cnode) (m : Memory) : Prop where
  nodup : (l.flatMap Cnode.allRules).Nodup
  node : ∀ e ∈ l.flatMap Cnode.entries, m.node e.2 = some e.1

theorem Pointed.left {l₁ l₂ : List Cnode} {m : Memory} (h : Pointed (l₁ ++ l₂) m) :
    Pointed l₁ m where
  nodup := by
    have hnodup := h.nodup
    rw [List.flatMap_append] at hnodup
    exact hnodup.of_append_left
  node := fun e he => h.node e (by rw [List.flatMap_append]; exact List.mem_append_left _ he)

/-- The other nodes do not notice that the first ones are rebuilt. -/
theorem Pointed.right {l₁ l₁' l₂ : List Cnode} {m m₁ : Memory} (h : Pointed (l₁ ++ l₂) m)
    (hrebuilds : Rebuilds V false l₁ m l₁' m₁) : Pointed l₂ m₁ := by
  have hnodup := h.nodup
  rw [List.flatMap_append] at hnodup
  refine ⟨hnodup.of_append_right, fun e he => ?_⟩
  have hr : e.2 ∉ l₁.flatMap allRules := fun hr =>
    (List.disjoint_of_nodup_append hnodup) hr (mem_allRules.mpr ⟨e.1, he⟩)
  rw [hrebuilds.frame e.2 (.inr hr)]
  exact h.node e (by rw [List.flatMap_append]; exact List.mem_append_right _ he)

theorem Pointed.children {a v : Nat} {rs : List Nat} {f : Nat} {bs : List (List Cnode)}
    {any : Option Cnode} {m : Memory} (h : Pointed [.split a v rs f bs any] m) :
    Pointed (bs.flatten ++ any.toList) m := by
  have hnodup := h.nodup
  have hnode := h.node
  simp only [List.flatMap_singleton, allRules_eq, entries_eq] at hnodup hnode
  exact ⟨hnodup.of_append_right, fun e he => hnode e (List.mem_append_right _ he)⟩

/-- No rule notices that memory was used up. -/
theorem Rebuilds.used (l : List Cnode) {m m' : Memory} (hnext : m.next ≤ m'.next)
    (hnode : m'.node = m.node) : Rebuilds V false l m l m' where
  next := hnext
  rules := .refl _
  addrs := fun _ ha => .inl ha
  nodup := fun h _ => h
  placed := List.forall₂_same.mpr fun _ _ => ⟨rfl, fun _ h => h⟩
  ordered := fun h => h
  frame := fun _ _ => by rw [hnode]
  pointers := by
    intro _ _ h e he
    rw [hnode]
    exact h e he

/-- What is left of nodes when a call throws, of a copy and of the tree. -/
structure Left (V : View) (isCopy : Bool) (l : List Cnode) (m : Memory) (l' : List Cnode)
    (m' : Memory) : Prop where
  within : isCopy = true → Within l m l' m'
  rebuilds : isCopy = false → Pointed l m → Rebuilds V false l m l' m'

theorem Rebuilds.left {l l' : List Cnode} {m m' : Memory} (h : Rebuilds V isCopy l m l' m') :
    Left V isCopy l m l' m' where
  within := by
    rintro rfl
    exact h.within
  rebuilds := by
    rintro rfl -
    exact h

theorem Left.refl (l : List Cnode) (m : Memory) : Left V isCopy l m l m :=
  (Rebuilds.refl l m).left

theorem Left.append {l₁ l₁' l₂ l₂' : List Cnode} {m m₁ m₂ : Memory}
    (h₁ : Left V isCopy l₁ m l₁' m₁) (h₂ : Left V isCopy l₂ m₁ l₂' m₂) :
    Left V isCopy (l₁ ++ l₂) m (l₁' ++ l₂') m₂ where
  within := fun hcopy => (h₁.within hcopy).append (h₂.within hcopy)
  rebuilds := by
    intro hcopy hpointed
    have hfirst := h₁.rebuilds hcopy hpointed.left
    exact hfirst.append (h₂.rebuilds hcopy (hpointed.right hfirst))

theorem Left.split {a v : Nat} {rs : List Nat} {f : Nat} {bs bs' : List (List Cnode)}
    {any any' : Option Cnode} {m m₁ m' : Memory}
    (hbs : Left V isCopy bs.flatten m bs'.flatten m₁)
    (hany : Left V isCopy any.toList m₁ any'.toList m')
    (hvalues : bs'.map (fun ch => ch.map value) = bs.map fun ch => ch.map value)
    (ha : a < m.next) :
    Left V isCopy [.split a v rs f bs any] m [.split a v rs f bs' any'] m' where
  within := fun hcopy => ((hbs.append hany).within hcopy).split
  rebuilds := by
    intro hcopy hpointed
    have hchildren := hpointed.children
    have hfirst := hbs.rebuilds hcopy hchildren.left
    exact hfirst.split (hany.rebuilds hcopy (hchildren.right hfirst)) hvalues ha

end Left

end Nox.Classify
